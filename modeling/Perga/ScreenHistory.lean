import Perga.Runs

namespace ScreenHistory
variable {Line : Type u}

-- A pair of screens of which only the primary one keeps what leaves its top. An
-- event names what the active screen did; while the alternate screen is active,
-- its lines and its erases touch nothing that is kept.
inductive Event (Line : Type u) where
  | scrolled (line : Line)
  | erased
  | entered
  | left
  deriving DecidableEq, Repr

structure Screen (Line : Type u) where
  alt : Bool
  scrollback : List Line
  deriving DecidableEq, Repr

def keepNewest (cap : Nat) (lines : List Line) : List Line := lines.drop (lines.length - cap)

def Screen.apply (cap : Nat) (s : Screen Line) : Event Line → Screen Line
  | .scrolled line => if s.alt then s else {s with scrollback := keepNewest cap (s.scrollback ++ [line])}
  | .erased => if s.alt then s else {s with scrollback := []}
  | .entered => {s with alt := true}
  | .left => {s with alt := false}

def play (cap : Nat) (s : Screen Line) (events : List (Event Line)) : Screen Line :=
  events.foldl (Screen.apply cap) s

theorem play_append (cap : Nat) (s : Screen Line) (first second : List (Event Line)) :
    play cap s (first ++ second) = play cap (play cap s first) second := List.foldl_append

-- Lines that crossed from the primary viewport into the kept scrollback.
def moved (cap : Nat) : Screen Line → List (Event Line) → Nat
  | _,[] => 0
  | s,.scrolled line :: rest => (if s.alt then 0 else 1) + moved cap (s.apply cap (.scrolled line)) rest
  | s,event :: rest => moved cap (s.apply cap event) rest

-- Erasing a scrollback that holds nothing is not a wipe.
def wiped (cap : Nat) : Screen Line → List (Event Line) → Bool
  | _,[] => false
  | s,.erased :: rest => (!s.alt && !s.scrollback.isEmpty) || wiped cap (s.apply cap .erased) rest
  | s,event :: rest => wiped cap (s.apply cap event) rest

def Below (cap : Nat) (s : Screen Line) (events : List (Event Line)) : Prop :=
  StepRuns.Throughout (Screen.apply cap) (fun s => s.scrollback.length < cap) s events

instance : Decidable (Below cap s events) :=
  inferInstanceAs (Decidable (StepRuns.Throughout (Screen.apply cap) (fun s => s.scrollback.length < cap) s events))

variable {cap : Nat} {s : Screen Line} {events first second : List (Event Line)}

theorem moved_append (cap : Nat) (s : Screen Line) (first second : List (Event Line)) :
    moved cap s (first ++ second) = moved cap s first + moved cap (play cap s first) second := by
  induction first generalizing s with
  | nil => simp [moved,play]
  | cons event rest ih =>
      cases event <;> simp only [List.cons_append,moved,ih,play,List.foldl_cons,Nat.add_assoc]

theorem wiped_append (cap : Nat) (s : Screen Line) (first second : List (Event Line)) :
    wiped cap s (first ++ second) = (wiped cap s first || wiped cap (play cap s first) second) := by
  induction first generalizing s with
  | nil => simp [wiped,play]
  | cons event rest ih =>
      cases event <;> simp only [List.cons_append,wiped,ih,play,List.foldl_cons,Bool.or_assoc]

theorem below_append :
    Below cap s (first ++ second) ↔ Below cap s first ∧ Below cap (play cap s first) second :=
  StepRuns.throughout_append

theorem keepNewest_below (short : (keepNewest cap lines).length < cap) : keepNewest cap lines = lines := by
  unfold keepNewest at short ⊢
  rw [List.length_drop] at short
  have within : lines.length - cap = 0 := by omega
  rw [within,List.drop_zero]

theorem keepNewest_length (cap : Nat) (lines : List Line) :
    (keepNewest cap lines).length = min lines.length cap := by
  rw [keepNewest,List.length_drop]
  omega

theorem play_grows (below : Below cap s events) (unwiped : wiped cap s events = false) :
    ∃ added, (play cap s events).scrollback = s.scrollback ++ added ∧ added.length = moved cap s events := by
  induction events generalizing s with
  | nil => exact ⟨[],by simp [play],rfl⟩
  | cons event rest ih =>
      obtain ⟨here,later⟩ := below
      cases event with
      | scrolled line =>
          obtain ⟨added,grown,count⟩ := ih later unwiped
          by_cases alt : s.alt = true
          · refine ⟨added,?_,by simpa [moved,alt] using count⟩
            simpa [play,Screen.apply,alt] using grown
          · have next := StepRuns.throughout_start later
            simp only [Screen.apply,alt] at next grown count
            refine ⟨line :: added,?_,by simp [moved,alt,Screen.apply,count]; omega⟩
            rw [keepNewest_below (by simpa using next)] at grown
            have kept : keepNewest cap (s.scrollback ++ [line]) = s.scrollback ++ [line] :=
              keepNewest_below (by simpa using next)
            simpa [play,Screen.apply,alt,kept] using grown
      | erased =>
          simp only [wiped,Bool.or_eq_false_iff] at unwiped
          obtain ⟨added,grown,count⟩ := ih later unwiped.2
          have same : s.apply cap .erased = s := by
            by_cases alt : s.alt = true
            · simp [Screen.apply,alt]
            · have nothing : s.scrollback = [] := by simpa [alt] using unwiped.1
              cases s
              simp_all [Screen.apply]
          rw [same] at grown count
          exact ⟨added,by simpa [play,same] using grown,by simpa [moved,same] using count⟩
      | entered => exact ih later unwiped
      | left => exact ih later unwiped

theorem play_not_shorter (bounded : s.scrollback.length ≤ cap) (unwiped : wiped cap s events = false) :
    s.scrollback.length ≤ (play cap s events).scrollback.length := by
  induction events generalizing s with
  | nil => exact Nat.le_refl _
  | cons event rest ih =>
      cases event with
      | scrolled line =>
          by_cases alt : s.alt = true
          · have same : s.apply cap (.scrolled line) = s := by simp [Screen.apply,alt]
            simpa [play,same] using ih (s := s) bounded (by simpa [wiped,same] using unwiped)
          · have length : (s.apply cap (.scrolled line)).scrollback.length = min (s.scrollback.length+1) cap := by
              simp [Screen.apply,alt,keepNewest_length]
            have later := ih (s := s.apply cap (.scrolled line)) (by omega) unwiped
            change s.scrollback.length ≤ (play cap (s.apply cap (.scrolled line)) rest).scrollback.length
            omega
      | erased =>
          simp only [wiped,Bool.or_eq_false_iff] at unwiped
          by_cases alt : s.alt = true
          · have same : s.apply cap .erased = s := by simp [Screen.apply,alt]
            simpa [play,same] using ih (s := s) bounded (by simpa [same] using unwiped.2)
          · have nothing : s.scrollback = [] := by simpa [alt] using unwiped.1
            simp [nothing]
      | entered => exact ih (s := s.apply cap .entered) bounded unwiped
      | left => exact ih (s := s.apply cap .left) bounded unwiped

theorem stays_primary (primary : s.alt = false) (never : ∀ event ∈ events, event ≠ .entered) :
    (play cap s events).alt = false := by
  induction events generalizing s with
  | nil => exact primary
  | cons event rest ih =>
      have later : ∀ e ∈ rest, e ≠ .entered := fun e member => never e (List.mem_cons_of_mem _ member)
      refine ih (s := s.apply cap event) ?_ later
      cases event with
      | entered => exact absurd rfl (never .entered List.mem_cons_self)
      | scrolled line => simp [Screen.apply,primary]
      | erased => simp [Screen.apply,primary]
      | left => rfl

-- What is kept after the primary screen got another number of rows: fewer rows push
-- the lines above the cursor's last row in, more rows pull the newest ones out again.
def resizedKept (cap cursor rows : Nat) (kept visible : List Line) : List Line :=
  if rows < visible.length then keepNewest cap (kept ++ visible.take (cursor+1-rows))
  else kept.take (kept.length-min (rows-visible.length) kept.length)

theorem resizedKept_still (kept visible : List Line) (short : kept.length ≤ cap)
    (fits : rows < visible.length → cursor+1 ≤ rows) (empty : visible.length < rows → kept = []) :
    resizedKept cap cursor rows kept visible = kept := by
  unfold resizedKept
  by_cases fewer : rows < visible.length
  · have none_over : cursor+1-rows = 0 := by have := fits fewer; omega
    have none_old : kept.length-cap = 0 := by omega
    rw [if_pos fewer,none_over,List.take_zero,List.append_nil,keepNewest,none_old,List.drop_zero]
  · rw [if_neg fewer]
    by_cases more : visible.length < rows
    · rw [empty more,List.take_nil]
    · have even : rows-visible.length = 0 := by omega
      rw [even,Nat.zero_min,Nat.sub_zero,List.take_length]

theorem resizedKept_moved (kept visible : List Line) (below : (resizedKept cap cursor rows kept visible).length < cap)
    (same : (resizedKept cap cursor rows kept visible).length = kept.length) :
    (rows < visible.length → cursor+1 ≤ rows) ∧ (visible.length < rows → kept = []) := by
  unfold resizedKept at below same
  by_cases fewer : rows < visible.length
  · rw [if_pos fewer] at below same
    rw [keepNewest_below below,List.length_append,List.length_take] at same
    exact ⟨fun _ => by omega,fun more => by omega⟩
  · rw [if_neg fewer,List.length_take] at same
    exact ⟨fun wrong => absurd wrong fewer,fun more => List.eq_nil_of_length_eq_zero (by omega)⟩

end ScreenHistory

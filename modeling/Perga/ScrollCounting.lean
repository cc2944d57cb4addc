import Perga.LineTerminal

namespace Perga.ScrollCounting
open FeedCuts Readings
variable {T : Terminal} {P : VteParser} (S : Screens T)

-- The terminal's side of the bookkeeping, read off its own events.
def movedIn (s : T.State) (bytes : List UInt8) : Nat := ScreenHistory.moved S.cap (S.view s) (S.trace s bytes)

def wipedIn (s : T.State) (bytes : List UInt8) : Bool := ScreenHistory.wiped S.cap (S.view s) (S.trace s bytes)

def BelowIn (s : T.State) (bytes : List UInt8) : Prop := ScreenHistory.Below S.cap (S.view s) (S.trace s bytes)

instance : Decidable (BelowIn S s bytes) :=
  inferInstanceAs (Decidable (ScreenHistory.Below S.cap (S.view s) (S.trace s bytes)))

theorem moved_append (s : T.State) (first second : List UInt8) :
    movedIn S s (first ++ second) = movedIn S s first+movedIn S (T.advance s first) second := by
  rw [movedIn,S.trace_append,ScreenHistory.moved_append,← S.advance_view]
  rfl

theorem wiped_append (s : T.State) (first second : List UInt8) :
    wipedIn S s (first ++ second) = (wipedIn S s first || wipedIn S (T.advance s first) second) := by
  rw [wipedIn,S.trace_append,ScreenHistory.wiped_append,← S.advance_view]
  rfl

theorem below_append (s : T.State) (first second : List UInt8) :
    BelowIn S s (first ++ second) ↔ BelowIn S s first ∧ BelowIn S (T.advance s first) second := by
  rw [BelowIn,S.trace_append,ScreenHistory.below_append,← S.advance_view]
  rfl

theorem kept_grows {s : T.State} {bytes : List UInt8} (below : BelowIn S s bytes) (unwiped : wipedIn S s bytes = false) :
    ∃ added, (S.view (T.advance s bytes)).scrollback = (S.view s).scrollback ++ added ∧
      added.length = movedIn S s bytes := by
  rw [S.advance_view]
  exact ScreenHistory.play_grows below unwiped

theorem history_primary {s : T.State} (primary : T.alt s = false) :
    T.historySize s = (S.view s).scrollback.length := by
  rw [S.history_size,← S.alt_screen,primary]
  rfl

def Piece.touchesAlt (p : Piece T) : Bool := T.alt p.start || T.alt p.finish

theorem reading_frozen {p : Piece T} (touches : Piece.touchesAlt p = true) : p.reading = .frozen := by
  unfold Piece.touchesAlt at touches
  rw [Piece.reading,if_pos touches]

theorem reading_primary {p : Piece T} (untouched : Piece.touchesAlt p = false) :
    p.reading = if (S.view p.start).scrollback.length ≤ (S.view p.finish).scrollback.length then
      .grew ((S.view p.finish).scrollback.length-(S.view p.start).scrollback.length) else .cleared := by
  have both : T.alt p.start = false ∧ T.alt p.finish = false := by
    simpa [Piece.touchesAlt] using untouched
  rw [Piece.reading,history_primary S both.1,history_primary S both.2,both.1,both.2]
  rfl

theorem reading_grew {p : Piece T} (untouched : Piece.touchesAlt p = false)
    (below : BelowIn S p.start p.bytes) (unwiped : wipedIn S p.start p.bytes = false) :
    p.reading = .grew (movedIn S p.start p.bytes) := by
  obtain ⟨added,grown,count⟩ := kept_grows S below unwiped
  rw [reading_primary S untouched,Piece.finish,grown,List.length_append,if_pos (by omega),← count]
  congr 1
  omega

-- Lines that crossed into the scrollback while a segment began or ended on the
-- alternate screen.
def lostIn (p : Piece T) : Nat := if Piece.touchesAlt p then movedIn S p.start p.bytes else 0

def lostAlong : List (Piece T) → Nat
  | [] => 0
  | p :: rest => lostIn S p+lostAlong rest

-- Counted and lost lines together are the moved ones.
theorem pieces_total (s : T.State) (segs : List (List UInt8)) (t : Tally)
    (below : BelowIn S s segs.flatten) (unwiped : wipedIn S s segs.flatten = false) :
    (((piecesFrom s segs).map Piece.reading).foldl Tally.read t).total+lostAlong S (piecesFrom s segs) =
      t.total+movedIn S s segs.flatten := by
  induction segs generalizing s t with
  | nil => rfl
  | cons seg rest ih =>
      rw [List.flatten_cons] at below unwiped
      rw [below_append] at below
      rw [wiped_append,Bool.or_eq_false_iff] at unwiped
      have later := ih (T.advance s seg) (t.read (Piece.reading ⟨s,seg⟩)) below.2 unwiped.2
      have first : (t.read (Piece.reading ⟨s,seg⟩)).total+lostIn S ⟨s,seg⟩ = t.total+movedIn S s seg := by
        cases touches : Piece.touchesAlt (T := T) ⟨s,seg⟩ with
        | true => rw [reading_frozen touches,lostIn,touches]; rfl
        | false => rw [reading_grew S touches below.1 unwiped.1,lostIn,touches]; rfl
      rw [List.flatten_cons,moved_append]
      simp only [piecesFrom,List.map_cons,List.foldl_cons,lostAlong]
      omega

-- A feed counts exactly when its growth of `scroll_total` is the moved lines.
def Counted (e : TerminalEngine T P) (bytes : List UInt8) : Prop :=
  (e.feed bytes).scrollTotal = e.scrollTotal+movedIn S e.term bytes

-- No segment that begins or ends on the alternate screen moves a primary line.
def Undivided (e : TerminalEngine T P) (bytes : List UInt8) : Prop :=
  ∀ p ∈ pieces e bytes, T.alt p.start = true ∨ T.alt p.finish = true → movedIn S p.start p.bytes = 0

def Unerased (e : TerminalEngine T P) (bytes : List UInt8) : Prop :=
  wipedIn S e.term bytes = false ∧ BelowIn S e.term bytes

theorem feed_total {e : TerminalEngine T P} (settled : e.shell.pending = []) {bytes : List UInt8}
    (unerased : Unerased S e bytes) :
    (e.feed bytes).scrollTotal+lostAlong S (pieces e bytes) = e.scrollTotal+movedIn S e.term bytes := by
  have whole := segments_flatten (P := P) e.shell.parser bytes
  have total := pieces_total S e.term (segments P e.shell.parser bytes) ⟨e.scrollTotal,0,false⟩
    (by rw [whole]; exact unerased.2) (by rw [whole]; exact unerased.1)
  have fed := congrArg Tally.total (feed_tally settled bytes)
  rw [whole] at total
  change (e.feed bytes).scrollTotal = _ at fed
  rw [fed]
  exact total

theorem lost_nothing (parts : List (Piece T)) : lostAlong S parts = 0 ↔
    ∀ p ∈ parts, T.alt p.start = true ∨ T.alt p.finish = true → movedIn S p.start p.bytes = 0 := by
  induction parts with
  | nil => simp [lostAlong]
  | cons p rest ih =>
      simp only [lostAlong,Nat.add_eq_zero_iff,ih,List.forall_mem_cons,lostIn,Piece.touchesAlt,Bool.or_eq_true,
        ite_eq_right_iff]

theorem counted_exact {e : TerminalEngine T P} (settled : e.shell.pending = []) {bytes : List UInt8}
    (unerased : Unerased S e bytes) : Counted S e bytes ↔ Undivided S e bytes := by
  have total := feed_total S settled unerased
  rw [Undivided,← lost_nothing,Counted]
  omega

-- For every run of feeds without an erase and below the cap: all of them count
-- exactly when none of them divides scrolled lines from their screen.
theorem scroll_total_exact (size : TerminalSize) (chunks : List (List UInt8))
    (within : StepRuns.Along TerminalEngine.feed (Unerased S) (.new size : TerminalEngine T P) chunks) :
    StepRuns.Along TerminalEngine.feed (Counted S) (.new size : TerminalEngine T P) chunks ↔
      StepRuns.Along TerminalEngine.feed (Undivided S) (.new size : TerminalEngine T P) chunks :=
  StepRuns.along_iff (fun e : TerminalEngine T P => e.shell.pending = []) rfl within
    (fun _ _ settled unerased => counted_exact S settled unerased)
    (fun _ bytes settled _ _ => feed_pending settled bytes)

open LineTerminal

instance : Decidable (Counted S e bytes) :=
  inferInstanceAs (Decidable ((e.feed bytes).scrollTotal = e.scrollTotal+movedIn S e.term bytes))

instance : Decidable (Undivided S e bytes) := inferInstanceAs (Decidable (∀ p ∈ pieces e bytes,
  T.alt p.start = true ∨ T.alt p.finish = true → movedIn S p.start p.bytes = 0))

instance : Decidable (Unerased S e bytes) :=
  inferInstanceAs (Decidable (wipedIn S e.term bytes = false ∧ BelowIn S e.term bytes))

theorem scroll_total_exact_cut :
    StepRuns.Along TerminalEngine.feed (Counted screens) (engine 2 4)
      [lines 3 ++ commandStart ++ enterAlt,lines 5,leaveAlt,lines 2] :=
  (scroll_total_exact screens ⟨2,4⟩ [lines 3 ++ commandStart ++ enterAlt,lines 5,leaveAlt,lines 2]
    (by decide +kernel)).mpr (by decide +kernel)

-- Three line feeds on two rows scroll two lines; the screen switch that follows them
-- in the same segment hides both.
theorem switch_hides_scrolls :
    StepRuns.Along TerminalEngine.feed (Unerased screens) (engine 2 4) [lines 3 ++ enterAlt] ∧
      movedIn screens (engine 2 4).term (lines 3 ++ enterAlt) = 2 ∧
      ((engine 2 4).feed (lines 3 ++ enterAlt)).scrollTotal = 0 ∧
      ¬ StepRuns.Along TerminalEngine.feed (Counted screens) (engine 2 4) [lines 3 ++ enterAlt] := by
  decide +kernel

end Perga.ScrollCounting

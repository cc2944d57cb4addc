import Perga.RowScan
import Mathlib.Data.List.Chain

namespace Perga

def RowEntry.WellFormed : RowEntry → Prop
  | .blank count => count ≠ 0
  | .text s fg bg attrs =>
      s ≠ [] ∧ ¬ (' ' ∈ s ∧ fg = .named .foreground ∧ bg = .named .background ∧ attrs = .empty)
  | .cells cs => cs ≠ [] ∧ ∀ c ∈ cs, c.width = .wide ∨ c.width = .wideSpacer ∨ c.combining ≠ []

-- Two entries that one entry could not replace.
def RowEntry.Separate : RowEntry → RowEntry → Prop
  | .blank _, .blank _ => False
  | .cells _, .cells _ => False
  | .text _ fg bg attrs, .text _ fg' bg' attrs' => ¬ (fg = fg' ∧ bg = bg' ∧ attrs = attrs')
  | _, _ => True

structure Canonical (entries : List RowEntry) : Prop where
  wellFormed : ∀ entry ∈ entries, entry.WellFormed
  separate : entries.IsChain RowEntry.Separate

-- The loop that writes an entry goes on for as long as this holds.
def RowEntry.takes : RowEntry → Cell → Bool
  | .blank _, c => c.isDefaultBlank
  | .text _ fg bg attrs, c => !c.isDefaultBlank && c.isPlain && c.fg == fg && c.bg == bg && c.attrs == attrs
  | .cells _, c => c.needsCells

def RowEntry.Records (run : List Cell) : RowEntry → Prop
  | .blank count => count = UInt16.ofNat run.length
  | .text s _ _ _ => s = run.map Cell.ch
  | .cells cs => cs = run

structure RowEntry.Run (entry : RowEntry) (run : List Cell) : Prop where
  filled : run ≠ []
  taken : ∀ c ∈ run, entry.takes c = true
  records : entry.Records run

def RowEntry.EndsBefore (entry : RowEntry) (rest : List Cell) : Prop :=
  ∀ c ∈ rest.head?, entry.takes c = false

theorem dropWhile_ends (entry : RowEntry) (cells : List Cell) : entry.EndsBefore (cells.dropWhile entry.takes) := by
  intro c first
  have stopped := List.head?_dropWhile_not entry.takes cells
  rw [Option.mem_def.mp first] at stopped
  simpa using stopped

theorem run_split {entry : RowEntry} {run rest : List Cell} (taken : ∀ c ∈ run, entry.takes c = true)
    (ends : entry.EndsBefore rest) :
    (run ++ rest).takeWhile entry.takes = run ∧ (run ++ rest).dropWhile entry.takes = rest := by
  rw [List.takeWhile_append_of_pos taken,List.dropWhile_append_of_pos taken]
  cases rest with
  | nil => simp
  | cons c rest => simp [ends c rfl]

-- The scanner writes the entry of a run that it cannot make longer.
theorem encodeRow_run {entry : RowEntry} {run rest : List Cell} (ran : entry.Run run)
    (ends : entry.EndsBefore rest) : encodeRow (run ++ rest) = entry :: encodeRow rest := by
  obtain ⟨takes,drops⟩ := run_split ran.taken ends
  obtain ⟨c,later,rfl⟩ := List.exists_cons_of_ne_nil ran.filled
  have first := ran.taken c List.mem_cons_self
  have records := ran.records
  rw [List.cons_append] at takes drops ⊢
  cases entry with
  | blank count =>
      change (c :: (later ++ rest)).takeWhile Cell.isDefaultBlank = _ at takes
      change (c :: (later ++ rest)).dropWhile Cell.isDefaultBlank = _ at drops
      rw [encodeRow_blank _ first,takes,drops,records]
  | text s fg bg attrs =>
      obtain ⟨⟨⟨⟨notBlank,plain⟩,rfl⟩,rfl⟩,rfl⟩ : (((c.isDefaultBlank = false ∧ c.isPlain = true) ∧ c.fg = fg) ∧
          c.bg = bg) ∧ c.attrs = attrs := by simpa [RowEntry.takes] using first
      change (c :: (later ++ rest)).takeWhile c.sharesRun = _ at takes
      change (c :: (later ++ rest)).dropWhile c.sharesRun = _ at drops
      rw [encodeRow_text _ (by simp [notBlank]) plain,takes,drops,records]
  | cells cs =>
      obtain ⟨notBlank,notPlain⟩ : c.isDefaultBlank = false ∧ c.isPlain = false := by
        simpa [RowEntry.takes,Cell.needsCells] using first
      change (c :: (later ++ rest)).takeWhile Cell.needsCells = _ at takes
      change (c :: (later ++ rest)).dropWhile Cell.needsCells = _ at drops
      rw [encodeRow_cells _ (by simp [notBlank]) (by simp [notPlain]),takes,drops,records]

theorem run_starts (cell : Cell) (rest : List Cell) :
    ∃ (entry : RowEntry) (run later : List Cell), cell :: rest = run ++ later ∧ entry.Run run ∧ entry.EndsBefore later := by
  have starts (entry : RowEntry) (first : entry.takes cell = true)
      (records : entry.Records ((cell :: rest).takeWhile entry.takes)) :
      ∃ (entry : RowEntry) (run later : List Cell), cell :: rest = run ++ later ∧ entry.Run run ∧ entry.EndsBefore later :=
    ⟨entry,_,_,List.takeWhile_append_dropWhile.symm,
      ⟨by simp [List.takeWhile_cons_of_pos first],fun _ member => List.mem_takeWhile_imp member,records⟩,
      dropWhile_ends entry _⟩
  by_cases blank : cell.isDefaultBlank = true
  · exact starts (.blank (UInt16.ofNat ((cell :: rest).takeWhile Cell.isDefaultBlank).length)) blank rfl
  by_cases plain : cell.isPlain = true
  · exact starts (.text (((cell :: rest).takeWhile cell.sharesRun).map Cell.ch) cell.fg cell.bg cell.attrs)
      (sharesRun_self cell blank plain) rfl
  · exact starts (.cells ((cell :: rest).takeWhile Cell.needsCells)) (needsCells_self cell blank plain) rfl

-- A fact about rows and their entries follows from what one maximal run adds to it.
theorem encodeRow_induction {P : List Cell → List RowEntry → Prop} (empty : P [] [])
    (entry : ∀ (entry : RowEntry) (run rest : List Cell), entry.Run run → entry.EndsBefore rest →
      P rest (encodeRow rest) → P (run ++ rest) (entry :: encodeRow rest)) (cells : List Cell) :
    P cells (encodeRow cells) := by
  induction cells using (measure List.length).wf.induction with
  | _ cells ih =>
    cases cells with
    | nil => rw [encodeRow]; exact empty
    | cons cell rest =>
      obtain ⟨first,run,later,cut,ran,ends⟩ := run_starts cell rest
      have shorter : later.length < (run ++ later).length := by
        rw [List.length_append]
        exact Nat.lt_add_of_pos_left (List.length_pos_of_ne_nil ran.filled)
      rw [cut] at ih ⊢
      rw [encodeRow_run ran ends]
      exact entry first run later ran ends (ih later shorter)

theorem takes_separate {e e' : RowEntry} {c : Cell} (stops : e.takes c = false) (starts : e'.takes c = true) :
    e.Separate e' := by
  cases e <;> cases e' <;> simp_all only [RowEntry.takes,RowEntry.Separate]
  case text.text =>
    rintro ⟨rfl,rfl,rfl⟩
    simp [starts] at stops
  all_goals simp_all

theorem encodeRow_separate (cells : List Cell) :
    (encodeRow cells).IsChain RowEntry.Separate ∧
      ∀ entry ∈ (encodeRow cells).head?, ∃ c ∈ cells.head?, entry.takes c = true := by
  refine encodeRow_induction (P := fun cells entries => entries.IsChain RowEntry.Separate ∧
    ∀ entry ∈ entries.head?, ∃ c ∈ cells.head?, entry.takes c = true) ⟨.nil,by simp⟩ ?_ cells
  intro entry run rest ran ends later
  obtain ⟨c,more,rfl⟩ := List.exists_cons_of_ne_nil ran.filled
  refine ⟨List.isChain_cons.mpr ⟨fun next opens => ?_,later.1⟩,?_⟩
  · obtain ⟨d,first,starts⟩ := later.2 next opens
    exact takes_separate (ends d first) starts
  · simpa using ran.taken c List.mem_cons_self

theorem taken_wellFormed {entry : RowEntry} {run : List Cell} (ran : entry.Run run)
    (counted : ∀ count, entry = .blank count → count ≠ 0) : entry.WellFormed := by
  have records := ran.records
  cases entry with
  | blank count => exact counted count rfl
  | text s fg bg attrs =>
      cases records
      refine ⟨by simpa using ran.filled,?_⟩
      rintro ⟨space,rfl,rfl,rfl⟩
      obtain ⟨c,member,isSpace⟩ := List.mem_map.mp space
      have taken : blankCell.sharesRun c = true := ran.taken c member
      have same := run_cell blankCell c taken
      rw [isSpace] at same
      subst same
      exact absurd taken (by decide)
  | cells cs =>
      cases records
      refine ⟨ran.filled,fun c member => ?_⟩
      have taken := ran.taken c member
      cases width : c.width <;> simp_all [RowEntry.takes,Cell.needsCells,Cell.isPlain]

theorem encodeRow_wellFormed (cells : List Cell) :
    ∀ entry ∈ encodeRow cells, (∀ count, entry = .blank count → count ≠ 0) → entry.WellFormed := by
  refine encodeRow_induction (P := fun _ entries =>
    ∀ entry ∈ entries, (∀ count, entry = .blank count → count ≠ 0) → entry.WellFormed) (by simp) ?_ cells
  intro entry run rest ran ends later
  exact List.forall_mem_cons.mpr ⟨taken_wellFormed ran,later⟩

-- The longest runs of default blanks in a row, from the left.
def blankRuns (cells : List Cell) : List (List Cell) :=
  (cells.splitOnP fun c => !c.isDefaultBlank).filter fun run => !run.isEmpty

theorem blankRuns_skip {run : List Cell} (rest : List Cell) (none : ∀ c ∈ run, c.isDefaultBlank = false) :
    blankRuns (run ++ rest) = blankRuns rest := by
  induction run with
  | nil => rfl
  | cons c run ih =>
      obtain ⟨first,later⟩ := List.forall_mem_cons.mp none
      have next := ih later
      unfold blankRuns at next ⊢
      rw [List.cons_append,List.splitOnP_cons_eq_if_modifyHead]
      simp [first,next]

theorem blankRuns_take {run rest : List Cell} (filled : run ≠ []) (blank : ∀ c ∈ run, c.isDefaultBlank = true)
    (ends : ∀ c ∈ rest.head?, c.isDefaultBlank = false) : blankRuns (run ++ rest) = run :: blankRuns rest := by
  have within : ∀ c ∈ run, (!c.isDefaultBlank) = false := fun c member => by simp [blank c member]
  cases rest with
  | nil =>
      unfold blankRuns
      rw [List.append_nil,List.splitOnP_eq_singleton within]
      simp [filled]
  | cons c rest =>
      have stops := ends c rfl
      rw [← List.singleton_append,blankRuns_skip rest (by simpa using stops)]
      unfold blankRuns
      rw [List.singleton_append,List.splitOnP_append_cons_of_forall_mem within c (by simp [stops])]
      simp [filled]

def RowEntry.blankCount : RowEntry → Option UInt16
  | .blank count => some count
  | _ => none

theorem takes_notBlank {entry : RowEntry} {c : Cell} (other : entry.blankCount = none) (taken : entry.takes c = true) :
    c.isDefaultBlank = false := by
  cases entry with
  | blank count => cases other
  | text s fg bg attrs => simp_all [RowEntry.takes]
  | cells cs => simp_all [RowEntry.takes,Cell.needsCells]

-- The `blank` entries count exactly the runs of blanks, each modulo 2^16.
theorem encodeRow_blankCounts (cells : List Cell) :
    (encodeRow cells).filterMap RowEntry.blankCount = (blankRuns cells).map fun run => UInt16.ofNat run.length := by
  refine encodeRow_induction (P := fun cells entries => entries.filterMap RowEntry.blankCount =
    (blankRuns cells).map fun run => UInt16.ofNat run.length) rfl ?_ cells
  intro entry run rest ran ends later
  cases count : entry.blankCount with
  | none =>
      rw [List.filterMap_cons_none count,later]
      rw [blankRuns_skip rest fun c member => takes_notBlank count (ran.taken c member)]
  | some n =>
      obtain ⟨rfl⟩ : entry = .blank n := by
        cases entry <;> simp_all [RowEntry.blankCount]
      rw [List.filterMap_cons_some count,later,blankRuns_take ran.filled ran.taken ends,List.map_cons,← ran.records]

theorem wrapped_count (n : Nat) : UInt16.ofNat n = 0 ↔ 65536 ∣ n := by
  rw [← UInt16.toNat_inj,UInt16.toNat_ofNat']
  exact ⟨Nat.dvd_of_mod_eq_zero,Nat.mod_eq_zero_of_dvd⟩

theorem encodeRow_canonical (cells : List Cell) :
    Canonical (encodeRow cells) ↔ ∀ run ∈ blankRuns cells, ¬ 65536 ∣ run.length := by
  have counts := encodeRow_blankCounts cells
  constructor
  · intro canonical run member wraps
    have counted : (0 : UInt16) ∈ (encodeRow cells).filterMap RowEntry.blankCount := by
      rw [counts]
      exact List.mem_map.mpr ⟨run,member,(wrapped_count _).mpr wraps⟩
    obtain ⟨entry,present,isBlank⟩ := List.mem_filterMap.mp counted
    obtain ⟨rfl⟩ : entry = .blank 0 := by
      cases entry <;> simp_all [RowEntry.blankCount]
    exact canonical.wellFormed _ present rfl
  · intro short
    refine ⟨fun entry present => encodeRow_wellFormed cells entry present ?_,(encodeRow_separate cells).1⟩
    rintro count rfl
    have counted : count ∈ (encodeRow cells).filterMap RowEntry.blankCount :=
      List.mem_filterMap.mpr ⟨_,present,rfl⟩
    rw [counts] at counted
    obtain ⟨run,member,rfl⟩ := List.mem_map.mp counted
    exact fun zero => short run member ((wrapped_count _).mp zero)

theorem blankRuns_within (cells : List Cell) : ∀ run ∈ blankRuns cells, run ≠ [] ∧ run.length ≤ cells.length := by
  refine encodeRow_induction (P := fun cells _ => ∀ run ∈ blankRuns cells, run ≠ [] ∧ run.length ≤ cells.length)
    (by simp [blankRuns]) ?_ cells
  intro entry run rest ran ends later
  have longer : ∀ r ∈ blankRuns rest, r ≠ [] ∧ r.length ≤ (run ++ rest).length := fun r member =>
    ⟨(later r member).1,Nat.le_trans (later r member).2 (List.sublist_append_right run rest).length_le⟩
  cases count : entry.blankCount with
  | none =>
      rwa [blankRuns_skip rest fun c member => takes_notBlank count (ran.taken c member)]
  | some n =>
      obtain ⟨rfl⟩ : entry = .blank n := by
        cases entry <;> simp_all [RowEntry.blankCount]
      rw [blankRuns_take ran.filled ran.taken ends]
      exact List.forall_mem_cons.mpr ⟨⟨ran.filled,(List.sublist_append_left run rest).length_le⟩,longer⟩

theorem short_canonical {cells : List Cell} (short : cells.length ≤ 65535) : Canonical (encodeRow cells) := by
  refine (encodeRow_canonical cells).mpr fun run member wraps => ?_
  obtain ⟨filled,within⟩ := blankRuns_within cells run member
  have long := Nat.le_of_dvd (List.length_pos_of_ne_nil filled) wraps
  omega

theorem wellFormed_run {entry : RowEntry} (wellFormed : entry.WellFormed) : entry.Run entry.expand := by
  cases entry with
  | blank count =>
      have positive : count.toNat ≠ 0 := fun zero => wellFormed (UInt16.toNat_inj.mp zero)
      refine ⟨by simpa [RowEntry.expand] using positive,fun c member => ?_,?_⟩
      · rw [List.eq_of_mem_replicate member]
        rfl
      · simp [RowEntry.Records,RowEntry.expand]
  | text s fg bg attrs =>
      obtain ⟨filled,visible⟩ := wellFormed
      refine ⟨by simpa [RowEntry.expand] using filled,fun c member => ?_,?_⟩
      · obtain ⟨ch,present,rfl⟩ := List.mem_map.mp member
        have notBlank : (⟨ch,[],.single,fg,bg,attrs⟩ : Cell).isDefaultBlank = false := by
          rw [Bool.eq_false_iff]
          intro blank
          have same := (defaultBlank_exact _).mp blank
          simp only [blankCell,Cell.mk.injEq,true_and] at same
          obtain ⟨rfl,defaults⟩ := same
          exact visible ⟨present,defaults⟩
        simp [RowEntry.takes,notBlank,Cell.isPlain]
      · simp [RowEntry.Records,RowEntry.expand,Function.comp_def]
  | cells cs =>
      obtain ⟨filled,fallback⟩ := wellFormed
      refine ⟨filled,fun c member => ?_,rfl⟩
      have kinds := fallback c member
      simp only [RowEntry.takes,Cell.needsCells,Cell.isDefaultBlank,Cell.isPlain]
      obtain wide | spacer | marked := kinds
      · simp [wide]
      · simp [spacer]
      · simp [marked]

theorem separate_ends {e e' : RowEntry} {c : Cell} (separate : e.Separate e') (starts : e'.takes c = true) :
    e.takes c = false := by
  rw [Bool.eq_false_iff]
  intro taken
  cases e <;> cases e' <;> simp_all [RowEntry.takes,RowEntry.Separate,Cell.needsCells]

theorem encodeRow_expand {entries : List RowEntry} (canonical : Canonical entries) :
    encodeRow (expand entries) = entries := by
  induction entries with
  | nil => simp [expand,encodeRow]
  | cons entry entries ih =>
      obtain ⟨first,later⟩ := List.forall_mem_cons.mp canonical.wellFormed
      obtain ⟨apart,chain⟩ := List.isChain_cons.mp canonical.separate
      have ends : entry.EndsBefore (expand entries) := by
        cases entries with
        | nil => simp [RowEntry.EndsBefore,expand]
        | cons next entries =>
            have run := wellFormed_run (List.forall_mem_cons.mp later).1
            obtain ⟨d,more,opened⟩ := List.exists_cons_of_ne_nil run.filled
            have starts := run.taken d (by rw [opened]; exact List.mem_cons_self)
            intro c head
            obtain rfl : d = c := by simpa [expand,opened] using head
            exact separate_ends (apart next rfl) starts
      have whole : expand (entry :: entries) = entry.expand ++ expand entries := rfl
      rw [whole,encodeRow_run (wellFormed_run first) ends,ih ⟨later,chain⟩]

-- Each wide cell is directly followed by its spacer.
def WidePaired : List Cell → Prop
  | [] => True
  | c :: rest => (c.width = .wide → ∃ spacer ∈ rest.head?, spacer.width = .wideSpacer) ∧ WidePaired rest

theorem widePaired_rest {run rest : List Cell} (paired : WidePaired (run ++ rest)) : WidePaired rest := by
  induction run with
  | nil => exact paired
  | cons c run ih => exact ih paired.2

-- A spacer is never where a `cells` run stops, so the run of a wide cell holds its spacer.
theorem widePaired_run {run rest : List Cell} (paired : WidePaired (run ++ rest))
    (ends : ∀ c ∈ rest.head?, c.needsCells = false) : WidePaired run := by
  induction run with
  | nil => trivial
  | cons c run ih =>
      refine ⟨fun wide => ?_,ih paired.2⟩
      obtain ⟨spacer,next,isSpacer⟩ := paired.1 wide
      cases run with
      | cons d run => exact ⟨spacer,by simpa using next,isSpacer⟩
      | nil =>
          have stopped := ends spacer (by simpa using next)
          simp [Cell.needsCells,Cell.isDefaultBlank,Cell.isPlain,isSpacer] at stopped

theorem encodeRow_pairs (cells : List Cell) :
    WidePaired cells → ∀ cs, .cells cs ∈ encodeRow cells → WidePaired cs := by
  refine encodeRow_induction (P := fun cells entries =>
    WidePaired cells → ∀ cs, .cells cs ∈ entries → WidePaired cs) (by simp) ?_ cells
  intro entry run rest ran ends later paired cs member
  obtain rfl | member := List.mem_cons.mp member
  · have records : cs = run := ran.records
    subst records
    exact widePaired_run paired ends
  · exact later (widePaired_rest paired) cs member

theorem blanks_wrap {n : Nat} (filled : n ≠ 0) (wraps : 65536 ∣ n) :
    encodeRow (List.replicate n blankCell) = [.blank 0] := by
  have ran : (RowEntry.blank 0).Run (List.replicate n blankCell) := by
    refine ⟨by simpa using filled,fun c member => ?_,?_⟩
    · rw [List.eq_of_mem_replicate member]
      rfl
    · rw [RowEntry.Records,List.length_replicate,(wrapped_count n).mpr wraps]
  have ends : (RowEntry.blank 0).EndsBefore [] := by simp [RowEntry.EndsBefore]
  have encoded := encodeRow_run ran ends
  rwa [List.append_nil,encodeRow] at encoded

-- The scanner's image. Only a run of a multiple of 65536 blanks leaves it, since its count wraps to 0.
theorem encode_row_image :
    (∀ cells, Canonical (encodeRow cells) ↔ ∀ run ∈ blankRuns cells, ¬ 65536 ∣ run.length) ∧
      (∀ cells : List Cell, cells.length ≤ 65535 → Canonical (encodeRow cells) ∧ expand (encodeRow cells) = cells) ∧
      (∀ entries, Canonical entries → encodeRow (expand entries) = entries ∧
        (expand entries).length = (entries.map RowEntry.columns).sum) ∧
      ∀ cells, WidePaired cells → ∀ cs, .cells cs ∈ encodeRow cells → WidePaired cs :=
  ⟨encodeRow_canonical,fun cells short => ⟨short_canonical short,expand_encodeRow cells (Nat.lt_succ_of_le short)⟩,
    fun entries canonical => ⟨encodeRow_expand canonical,(columns_sum entries).symm⟩,encodeRow_pairs⟩

theorem encode_row_image_spaced :
    let row := [⟨'x',[],.single,.rgb 1 2 3,.named .background,.bold⟩,blankCell,blankCell]
    row.length ≤ 65535 ∧ Canonical (encodeRow row) ∧ expand (encodeRow row) = row :=
  ⟨by decide,encode_row_image.2.1 _ (by decide)⟩

theorem encode_row_wraps :
    encodeRow (List.replicate 65536 blankCell) = [.blank 0] ∧
      ¬ Canonical (encodeRow (List.replicate 65536 blankCell)) := by
  have wrapped := blanks_wrap (n := 65536) (by decide) (by decide)
  refine ⟨wrapped,fun canonical => ?_⟩
  rw [wrapped] at canonical
  exact canonical.wellFormed _ List.mem_cons_self rfl

end Perga

import Perga.Cells
import Mathlib.Data.List.TakeWhile

namespace Perga

-- The run-length entries of one row. `text` holds one plain cell for each character.
inductive RowEntry where
  | blank (count : UInt16)
  | text (s : List Char) (fg bg : Color) (attrs : CellAttrs)
  | cells (cells : List Cell)
  deriving DecidableEq, Repr

-- The three inner loops of `encode_row` stop at the first cell outside these classes.
def Cell.sharesRun (first c : Cell) : Bool :=
  !c.isDefaultBlank && c.isPlain && c.fg == first.fg && c.bg == first.bg && c.attrs == first.attrs

def Cell.needsCells (c : Cell) : Bool := !c.isDefaultBlank && !c.isPlain

theorem dropWhile_shorter {p : Cell → Bool} {cell : Cell} (rest : List Cell) (first : p cell = true) :
    ((cell :: rest).dropWhile p).length < (cell :: rest).length := by
  rw [List.dropWhile_cons_of_pos first]
  exact Nat.lt_succ_of_le (List.length_dropWhile_le p rest)

theorem sharesRun_self (c : Cell) (notBlank : ¬ c.isDefaultBlank = true) (plain : c.isPlain = true) :
    c.sharesRun c = true := by simp [Cell.sharesRun,notBlank,plain]

theorem needsCells_self (c : Cell) (notBlank : ¬ c.isDefaultBlank = true) (notPlain : ¬ c.isPlain = true) :
    c.needsCells = true := by simp [Cell.needsCells,notBlank,notPlain]

-- The list holds the cells from the scan position `i` on. A cell is blank, plain or
-- neither, so each branch consumes at least the cell it looks at.
def encodeRow : List Cell → List RowEntry
  | [] => []
  | cell :: rest =>
    if cell.isDefaultBlank then
      .blank (UInt16.ofNat ((cell :: rest).takeWhile Cell.isDefaultBlank).length) ::
        encodeRow ((cell :: rest).dropWhile Cell.isDefaultBlank)
    else if cell.isPlain then
      .text (((cell :: rest).takeWhile cell.sharesRun).map Cell.ch) cell.fg cell.bg cell.attrs ::
        encodeRow ((cell :: rest).dropWhile cell.sharesRun)
    else
      .cells ((cell :: rest).takeWhile Cell.needsCells) ::
        encodeRow ((cell :: rest).dropWhile Cell.needsCells)
termination_by cells => cells.length
decreasing_by
  · rename_i blank
    exact dropWhile_shorter rest blank
  · rename_i notBlank plain
    exact dropWhile_shorter rest (sharesRun_self cell notBlank plain)
  · rename_i notBlank notPlain
    exact dropWhile_shorter rest (needsCells_self cell notBlank notPlain)

-- What a client does with an entry list: it fills the row from the left.
def RowEntry.expand : RowEntry → List Cell
  | .blank count => List.replicate count.toNat blankCell
  | .text s fg bg attrs => s.map fun ch => ⟨ch,[],.single,fg,bg,attrs⟩
  | .cells cs => cs

def expand (entries : List RowEntry) : List Cell := entries.flatMap RowEntry.expand

theorem blanks_replicate (cells : List Cell) (all : ∀ c ∈ cells, c.isDefaultBlank = true) :
    List.replicate cells.length blankCell = cells :=
  (List.eq_replicate_iff.mpr ⟨rfl,fun c member => (defaultBlank_exact c).mp (all c member)⟩).symm

theorem run_cell (first c : Cell) (shares : first.sharesRun c = true) :
    (⟨c.ch,[],.single,first.fg,first.bg,first.attrs⟩ : Cell) = c := by
  cases c
  simp [Cell.sharesRun,Cell.isPlain] at shares
  simp [shares]

theorem run_expands (first : Cell) (cells : List Cell) (all : ∀ c ∈ cells, first.sharesRun c = true) :
    (cells.map Cell.ch).map (fun ch => (⟨ch,[],.single,first.fg,first.bg,first.attrs⟩ : Cell)) = cells := by
  rw [List.map_map]
  refine List.map_congr_left (fun c member => ?_) |>.trans (List.map_id cells)
  exact run_cell first c (all c member)

-- One entry and what the scan leaves behind it make up the row again.
theorem expand_entry {p : Cell → Bool} {entry : RowEntry} {cells : List Cell}
    (taken : entry.expand = cells.takeWhile p)
    (later : (cells.dropWhile p).length < 65536 → expand (encodeRow (cells.dropWhile p)) = cells.dropWhile p)
    (short : cells.length < 65536) :
    expand (entry :: encodeRow (cells.dropWhile p)) = cells := by
  have remaining := List.length_dropWhile_le p cells
  change entry.expand ++ expand (encodeRow (cells.dropWhile p)) = cells
  rw [taken,later (by omega),List.takeWhile_append_dropWhile]

theorem expand_encodeRow (cells : List Cell) (short : cells.length < 65536) :
    expand (encodeRow cells) = cells := by
  induction cells using encodeRow.induct with
  | case1 => rw [encodeRow]; rfl
  | case2 cell rest blank ih =>
      rw [encodeRow,if_pos blank]
      refine expand_entry ?_ ih short
      have shorter := (List.takeWhile_sublist Cell.isDefaultBlank (l := cell :: rest)).length_le
      rw [RowEntry.expand,UInt16.toNat_ofNat_of_lt' (Nat.lt_of_le_of_lt shorter short)]
      exact blanks_replicate _ fun c member => List.mem_takeWhile_imp member
  | case3 cell rest blank plain ih =>
      rw [encodeRow,if_neg blank,if_pos plain]
      refine expand_entry ?_ ih short
      exact run_expands cell _ fun c member => List.mem_takeWhile_imp member
  | case4 cell rest blank plain ih =>
      rw [encodeRow,if_neg blank,if_neg plain]
      exact expand_entry rfl ih short

end Perga

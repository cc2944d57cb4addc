import Perga.Engine

namespace Perga.TerminalEngine
variable {T : Terminal} {P : VteParser} {S : Screens T}

theorem modify_between {α : Type u} (done more : List α) (x : α) (f : α → α) :
    (done ++ x :: more).modify done.length f = done ++ f x :: more := by
  induction done with
  | nil => rfl
  | cons first done ih => exact congrArg (first :: ·) ih

theorem placeCell_inside (rowsCount colsCount : Nat) (done more : List Row) (filled rest : List Cell) (old : Cell)
    (cell : AlacrittyCell) (row : done.length < rowsCount) (col : filled.length < colsCount) :
    placeCell rowsCount colsCount 0 (done ++ ⟨filled ++ old :: rest⟩ :: more) ⟨done.length,filled.length,cell⟩ =
      done ++ ⟨filled ++ translateCell cell :: rest⟩ :: more := by
  have inside : ¬ ((done.length : Int)+0 < 0 ∨ rowsCount ≤ ((done.length : Int)+0).toNat) := by omega
  have number : ((done.length : Int)+0).toNat = done.length := by omega
  unfold placeCell
  dsimp only
  rw [if_neg inside,if_neg (Nat.not_le.mpr col),number,modify_between]
  simp

-- One visible line fills its row from the left, and the lines fill the grid from the top.
theorem place_line (rowsCount colsCount : Nat) (done more : List Row) (filled : List Cell) (line : List AlacrittyCell)
    (row : done.length < rowsCount) (fits : filled.length+line.length ≤ colsCount) :
    ((line.zipIdx filled.length).map fun cell => (⟨done.length,cell.2,cell.1⟩ : Indexed)).foldl
        (placeCell rowsCount colsCount 0) (done ++ ⟨filled ++ List.replicate line.length blankCell⟩ :: more) =
      done ++ ⟨filled ++ line.map translateCell⟩ :: more := by
  induction line generalizing filled with
  | nil => rfl
  | cons cell rest ih =>
      rw [List.length_cons] at fits
      have later := ih (filled ++ [translateCell cell]) (by rw [List.length_append,List.length_singleton]; omega)
      rw [List.length_append,List.length_singleton,List.append_assoc,List.append_assoc] at later
      rw [List.zipIdx_cons,List.map_cons,List.foldl_cons,List.length_cons,List.replicate_succ,
        placeCell_inside _ _ _ _ _ _ _ _ row (by omega)]
      exact later

theorem place_lines (colsCount : Nat) (done : List Row) (lines : List (List AlacrittyCell))
    (widths : ∀ line ∈ lines, line.length = colsCount) :
    ((lines.zipIdx done.length).flatMap fun line => line.1.zipIdx.map fun cell => (⟨line.2,cell.2,cell.1⟩ : Indexed)).foldl
        (placeCell (done.length+lines.length) colsCount 0) (done ++ List.replicate lines.length (blankRow colsCount)) =
      done ++ lines.map translateRow := by
  induction lines generalizing done with
  | nil => rfl
  | cons line rest ih =>
      have width := widths line List.mem_cons_self
      have later := ih (done ++ [translateRow line]) fun other member => widths other (List.mem_cons_of_mem _ member)
      rw [List.length_append,List.length_singleton,List.append_assoc,List.append_assoc] at later
      have total : done.length+(line :: rest).length = done.length+1+rest.length := by rw [List.length_cons]; omega
      have blank : (⟨[] ++ List.replicate line.length blankCell⟩ : Row) = blankRow colsCount := by rw [width]; rfl
      have first := place_line (done.length+1+rest.length) colsCount done
        (List.replicate rest.length (blankRow colsCount)) [] line (by omega) (by simp [width])
      rw [blank,List.length_nil] at first
      rw [List.zipIdx_cons,List.flatMap_cons,List.foldl_append,total,List.length_cons,List.replicate_succ]
      dsimp only
      rw [first]
      exact later

-- A snapshot shows the visible lines and nothing else.
theorem snapshot_visible (V : Viewport S) (e : TerminalEngine T P) (dims : V.dims e.term = .ofSize e.size) :
    e.snapshot.grid = (V.visible e.term).map fun line => line.map translateCell := by
  have count : (V.visible e.term).length = e.size.rows.toNat := by rw [V.rows,dims]; rfl
  have filled := place_lines e.size.cols.toNat [] (V.visible e.term) (V.cols e.term e.size dims)
  rw [List.length_nil,Nat.zero_add,count] at filled
  unfold snapshot
  dsimp only
  rw [Snapshot.grid,V.offset,V.displayed]
  change List.map Row.cells (List.foldl (placeCell e.size.rows.toNat e.size.cols.toNat 0) _ _) = _
  rw [enumerate,← List.nil_append (List.replicate _ _),filled,List.nil_append,List.map_map]
  rfl

end Perga.TerminalEngine

import Mathlib.Data.List.Nodup

namespace SerialOrder
variable {κ : Type u} {ρ : Type v} {apply : Nat → κ → κ × ρ} {start cell : κ} {result : Nat → Option ρ} {order : List Nat}

-- One cell and numbered requests; `apply` is what a request does when nothing else runs.
def runs (apply : Nat → κ → κ × ρ) (cell : κ) (order : List Nat) : κ := order.foldl (fun cell i => (apply i cell).1) cell

-- The finished requests, one after another in this order, answer so and leave that cell.
structure Serial (apply : Nat → κ → κ × ρ) (start cell : κ) (result : Nat → Option ρ) (order : List Nat) : Prop where
  once : order.Nodup
  finished : ∀ i, i ∈ order ↔ (result i).isSome = true
  ends : runs apply start order = cell
  answers : ∀ before i after, order = before ++ i :: after → result i = some (apply i (runs apply start before)).2

-- A content that the cell has after some of the order.
def Passed (apply : Nat → κ → κ × ρ) (start : κ) (order : List Nat) (seen : κ) : Prop :=
  ∃ before after, order = before ++ after ∧ runs apply start before = seen

def answered (result : Nat → Option ρ) (i : Nat) (answer : ρ) : Nat → Option ρ := fun j => if j = i then some answer else result j

theorem runs_append (first second : List Nat) : runs apply start (first ++ second) = runs apply (runs apply start first) second :=
  List.foldl_append

theorem runs_insert {before : List Nat} (idle : (apply i (runs apply start before)).1 = runs apply start before) (after : List Nat) :
    runs apply start (before ++ i :: after) = runs apply start (before ++ after) := by
  rw [runs_append,runs_append]
  exact congrArg (fun cell => runs apply cell after) idle

theorem serial_start (none_finished : ∀ i, result i = none) : Serial apply start start result [] := by
  refine ⟨.nil,fun i => ?_,rfl,fun before i after split => ?_⟩
  · rw [none_finished]
    exact iff_of_false List.not_mem_nil (by simp)
  · cases before <;> cases split

theorem passed_end (serial : Serial apply start cell result order) : Passed apply start order cell :=
  ⟨order,[],(List.append_nil order).symm,serial.ends⟩

theorem finished_answered {inserted : List Nat} (serial : Serial apply start cell result order)
    (members : ∀ j, j ∈ inserted ↔ j = i ∨ j ∈ order) (answer : ρ) :
    ∀ j, j ∈ inserted ↔ (answered result i answer j).isSome = true := by
  intro j
  rw [members,answered]
  split
  · rename_i same
    exact iff_of_true (.inl same) rfl
  · rename_i other
    rw [← serial.finished j]
    exact ⟨fun found => found.resolve_left other,.inr⟩

theorem unfinished (serial : Serial apply start cell result order) (fresh : result i = none) : i ∉ order := by
  intro found
  have finished := (serial.finished i).mp found
  rw [fresh] at finished
  cases finished

-- In an order with an insertion, a place is the insertion or an old place around it.
theorem insert_split {before after first rest : List Nat} (split : before ++ i :: after = first ++ j :: rest) :
    (first = before ∧ j = i) ∨ (∃ more, first = before ++ i :: more ∧ after = more ++ j :: rest) ∨
      ∃ more, before = first ++ j :: more := by
  rcases List.append_eq_append_iff.mp split with ⟨more,early,late⟩ | ⟨more,early,late⟩
  · cases more with
    | nil => exact .inl ⟨early.trans (List.append_nil before),(List.cons.inj late).1.symm⟩
    | cons k more =>
        obtain ⟨rfl,tail⟩ := List.cons.inj late
        exact .inr (.inl ⟨more,early,tail⟩)
  · cases more with
    | nil => exact .inl ⟨(early.trans (List.append_nil first)).symm,(List.cons.inj late).1⟩
    | cons k more =>
        obtain ⟨rfl,_⟩ := List.cons.inj late
        exact .inr (.inr ⟨more,early⟩)

theorem nodup_insert {before after : List Nat} (serial : Serial apply start cell result (before ++ after)) (fresh : result i = none) :
    (before ++ i :: after).Nodup :=
  List.nodup_middle.mpr (List.nodup_cons.mpr ⟨unfinished serial fresh,serial.once⟩)

theorem kept_answer (serial : Serial apply start cell result order) (fresh : result i = none) {first rest : List Nat}
    (placed : order = first ++ j :: rest) (answer : ρ) :
    answered result i answer j = some (apply j (runs apply start first)).2 := by
  have other : j ≠ i := by
    intro same
    apply unfinished serial fresh
    rw [placed,← same]
    exact List.mem_append_right _ List.mem_cons_self
  exact (if_neg other).trans (serial.answers first j rest placed)

-- A request that has no effect on a content that the cell once had may be placed there.
theorem serial_refuse {before after : List Nat} (serial : Serial apply start cell result (before ++ after)) (fresh : result i = none)
    (idle : (apply i (runs apply start before)).1 = runs apply start before) :
    Serial apply start cell (answered result i (apply i (runs apply start before)).2) (before ++ i :: after) := by
  refine ⟨nodup_insert serial fresh,finished_answered serial (fun j => ?_) _,(runs_insert idle after).trans serial.ends,
    fun first j rest split => ?_⟩
  · simp only [List.mem_append,List.mem_cons]
    exact or_left_comm
  · rcases insert_split split with ⟨rfl,rfl⟩ | ⟨more,rfl,tail⟩ | ⟨more,early⟩
    · exact if_pos rfl
    · rw [runs_insert idle more]
      exact kept_answer serial fresh (by rw [tail,List.append_assoc]) _
    · exact kept_answer serial fresh (by rw [early,List.append_assoc,List.cons_append]) _

-- A request that meets the cell now comes last.
theorem serial_commit (serial : Serial apply start cell result order) (fresh : result i = none) :
    Serial apply start (apply i cell).1 (answered result i (apply i cell).2) (order ++ [i]) := by
  have whole : Serial apply start cell result (order ++ []) := (List.append_nil order).symm ▸ serial
  refine ⟨nodup_insert whole fresh,finished_answered serial (fun j => ?_) _,?_,fun first j rest split => ?_⟩
  · rw [List.mem_append,List.mem_singleton]
    exact or_comm
  · rw [runs_append,serial.ends]
    rfl
  · rcases insert_split split with ⟨rfl,rfl⟩ | ⟨more,_,tail⟩ | ⟨more,early⟩
    · rw [serial.ends]
      exact if_pos rfl
    · cases more <;> cases tail
    · exact kept_answer serial fresh early _

theorem passed_commit (passed : Passed apply start order seen) (i : Nat) : Passed apply start (order ++ [i]) seen := by
  obtain ⟨before,after,split,ran⟩ := passed
  exact ⟨before,after ++ [i],by rw [split,List.append_assoc],ran⟩

theorem passed_refuse {before after : List Nat} (idle : (apply i (runs apply start before)).1 = runs apply start before)
    (passed : Passed apply start (before ++ after) seen) : Passed apply start (before ++ i :: after) seen := by
  obtain ⟨first,rest,split,ran⟩ := passed
  rcases List.append_eq_append_iff.mp split with ⟨more,early,late⟩ | ⟨more,early,late⟩
  · refine ⟨before ++ i :: more,rest,?_,?_⟩
    · rw [late,List.append_assoc]
      rfl
    · rw [runs_insert idle more,← early]
      exact ran
  · refine ⟨first,more ++ i :: after,?_,ran⟩
    rw [early,List.append_assoc]

end SerialOrder

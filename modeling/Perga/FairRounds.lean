import Perga.Runs

namespace FairRounds
variable {σ : Type u} {α : Type v} {ι : Type w} {step : σ → α → σ}

-- Some work is left and no allowed action adds to it. There is always a party due that takes some of
-- it away at its turn, whatever the turn brings, and it stays due until some work is done.
structure Drains (step : σ → α → σ) (good : σ → Prop) (allowed : α → Prop) (parties : List ι) (turn : ι → α → Prop)
    (due : σ → ι → Prop) (left : σ → Nat) : Prop where
  keeps : ∀ s a, good s → allowed a → good (step s a)
  shrinks : ∀ s a, good s → allowed a → left (step s a) ≤ left s
  helps : ∀ s, good s → 0 < left s → ∃ i ∈ parties, due s i
  works : ∀ s a i, good s → due s i → turn i a → left (step s a) < left s
  waits : ∀ s a i, good s → allowed a → due s i → left (step s a) = left s → due (step s a) i

variable {good : σ → Prop} {allowed : α → Prop} {parties : List ι} {turn : ι → α → Prop} {due : σ → ι → Prop} {left : σ → Nat}

theorem run_shrinks (drains : Drains step good allowed parties turn due left) (start : good s) (actions : List α)
    (inside : ∀ a ∈ actions, allowed a) : good (actions.foldl step s) ∧ left (actions.foldl step s) ≤ left s := by
  induction actions generalizing s with
  | nil => exact ⟨start,Nat.le_refl _⟩
  | cons a rest ih =>
      have here := inside a List.mem_cons_self
      obtain ⟨still,less⟩ := ih (drains.keeps s a start here) fun b member => inside b (List.mem_cons_of_mem a member)
      exact ⟨still,Nat.le_trans less (drains.shrinks s a start here)⟩

-- The party has its turn at last, or another action did some work before.
theorem due_shrinks (drains : Drains step good allowed parties turn due left) (start : good s) (actions : List α)
    (inside : ∀ a ∈ actions, allowed a) (owed : due s i) (turns : ∃ a ∈ actions, turn i a) :
    left (actions.foldl step s) < left s := by
  induction actions generalizing s with
  | nil =>
      obtain ⟨a,member,_⟩ := turns
      cases member
  | cons a rest ih =>
      have here := inside a List.mem_cons_self
      have others : ∀ b ∈ rest, allowed b := fun b member => inside b (List.mem_cons_of_mem a member)
      have next := drains.keeps s a start here
      rcases Nat.lt_or_eq_of_le (drains.shrinks s a start here) with done | same
      · exact Nat.lt_of_le_of_lt (run_shrinks drains next rest others).2 done
      · have later : ∃ b ∈ rest, turn i b := by
          obtain ⟨b,member,own⟩ := turns
          rcases List.mem_cons.mp member with rfl | later
          · exact absurd same (Nat.ne_of_lt (drains.works s b i start owed own))
          · exact ⟨b,later,own⟩
        rw [List.foldl_cons,← same]
        exact ih next others (drains.waits s a i start here owed same) later

theorem round_shrinks (drains : Drains step good allowed parties turn due left) (start : good s) (round : List α)
    (inside : ∀ a ∈ round, allowed a) (fair : ∀ i ∈ parties, ∃ a ∈ round, turn i a) (busy : 0 < left s) :
    left (round.foldl step s) < left s := by
  obtain ⟨i,party,owed⟩ := drains.helps s start busy
  exact due_shrinks drains start round inside owed (fair i party)

-- As many rounds as there is work, in each of which every party has a turn, in whatever order:
-- nothing is left.
theorem rounds_rest (drains : Drains step good allowed parties turn due left) (start : good s) (rounds : List (List α))
    (inside : ∀ round ∈ rounds, ∀ a ∈ round, allowed a) (fair : ∀ round ∈ rounds, ∀ i ∈ parties, ∃ a ∈ round, turn i a)
    (enough : left s ≤ rounds.length) : good (rounds.flatten.foldl step s) ∧ left (rounds.flatten.foldl step s) = 0 := by
  induction rounds generalizing s with
  | nil => exact ⟨start,Nat.eq_zero_of_le_zero enough⟩
  | cons round rest ih =>
      have here := inside round List.mem_cons_self
      obtain ⟨next,less⟩ := run_shrinks drains start round here
      rw [List.flatten_cons,List.foldl_append]
      refine ih next (fun other member => inside other (List.mem_cons_of_mem _ member))
        (fun other member => fair other (List.mem_cons_of_mem _ member)) ?_
      rw [List.length_cons] at enough
      rcases Nat.eq_zero_or_pos (left s) with done | busy
      · omega
      · have one := round_shrinks drains start round here (fair round List.mem_cons_self) busy
        omega

end FairRounds

namespace StepRuns
variable {σ : Type u} {α : Type v} {step : σ → α → σ}

-- A run is the fold of its actions; both predicates below walk the states that
-- the fold passes, so an invariant and an admission condition share one shape.
def Throughout (step : σ → α → σ) (good : σ → Prop) : σ → List α → Prop
  | s,[] => good s
  | s,action :: rest => good s ∧ Throughout step good (step s action) rest

def Along (step : σ → α → σ) (allowed : σ → α → Prop) : σ → List α → Prop
  | _,[] => True
  | s,action :: rest => allowed s action ∧ Along step allowed (step s action) rest

theorem throughout_start (all : Throughout step good s actions) : good s := by
  cases actions with
  | nil => exact all
  | cons action rest => exact all.1

theorem throughout_last (all : Throughout step good s actions) : good (actions.foldl step s) := by
  induction actions generalizing s with
  | nil => exact all
  | cons action rest ih => exact ih all.2

theorem throughout_append :
    Throughout step good s (first ++ second) ↔
      Throughout step good s first ∧ Throughout step good (first.foldl step s) second := by
  induction first generalizing s with
  | nil => exact ⟨fun all => ⟨(throughout_start all : good s),all⟩,And.right⟩
  | cons action rest ih => simp only [List.cons_append,Throughout,List.foldl_cons,ih,and_assoc]

theorem along_and (first : Along step allowed s actions) (second : Along step other s actions) :
    Along step (fun s action => allowed s action ∧ other s action) s actions := by
  induction actions generalizing s with
  | nil => trivial
  | cons action rest ih => exact ⟨⟨first.1,second.1⟩,ih first.2 second.2⟩

theorem run_along (invariant : σ → Prop) (actions : List α) (start : invariant s)
    (each : ∀ s action, invariant s → claimed s action ∧ invariant (step s action)) :
    Along step claimed s actions := by
  induction actions generalizing s with
  | nil => trivial
  | cons action rest ih => exact ⟨(each _ _ start).1,ih (each _ _ start).2⟩

-- The induction over a run that all lemmas about invariants share: what every step keeps,
-- as long as the actions stay within their condition, holds of every state.
theorem throughout_kept (invariant : σ → Prop) {within : σ → α → Prop} (inside : Along step within s actions) (start : invariant s)
    (preserved : ∀ s action, invariant s → within s action → invariant (step s action)) (shows : ∀ s, invariant s → good s) :
    Throughout step good s actions := by
  induction actions generalizing s with
  | nil => exact shows s start
  | cons action rest ih => exact ⟨shows s start,ih inside.2 (preserved s action start inside.1)⟩

theorem run_throughout (invariant : σ → Prop) (actions : List α) (start : invariant s)
    (preserved : ∀ s action, invariant s → invariant (step s action)) (shows : ∀ s, invariant s → good s) :
    Throughout step good s actions := by
  have inside : Along step (fun _ _ => True) s actions := run_along (fun _ => True) actions trivial fun _ _ _ => ⟨trivial,trivial⟩
  exact throughout_kept invariant inside start (fun s action holds _ => preserved s action holds) shows

theorem run_kept (invariant : σ → Prop) {within : σ → α → Prop} (inside : Along step within s actions) (start : invariant s)
    (preserved : ∀ s action, invariant s → within s action → invariant (step s action)) :
    invariant (actions.foldl step s) :=
  throughout_last (throughout_kept invariant inside start preserved fun _ holds => holds)

theorem run_invariant (invariant : σ → Prop) (actions : List α) (start : invariant s)
    (preserved : ∀ s action, invariant s → invariant (step s action)) :
    invariant (actions.foldl step s) :=
  throughout_last (run_throughout invariant actions start preserved fun _ holds => holds)

theorem run_along_kept (invariant : σ → Prop) {within : σ → α → Prop} (inside : Along step within s actions) (start : invariant s)
    (preserved : ∀ s action, invariant s → within s action → invariant (step s action)) :
    Along step (fun s action => invariant s ∧ within s action) s actions := by
  induction actions generalizing s with
  | nil => trivial
  | cons action rest ih => exact ⟨⟨start,inside.1⟩,ih inside.2 (preserved _ _ start inside.1)⟩

-- Where one step keeps a good state good exactly under a condition on the state
-- before it, a whole run is good exactly when every step meets that condition.
theorem throughout_iff_along (good : σ → Prop) {within : σ → α → Prop} (start : good s)
    (inside : Along step within s actions)
    (exact : ∀ s action, good s → within s action → (good (step s action) ↔ allowed s action)) :
    Throughout step good s actions ↔ Along step allowed s actions := by
  induction actions generalizing s with
  | nil => exact ⟨fun _ => trivial,fun _ => start⟩
  | cons action rest ih =>
      constructor
      · intro given
        rcases given with ⟨_,later⟩
        have next := throughout_start later
        exact ⟨(exact _ _ start inside.1).mp next,(ih next inside.2).mp later⟩
      · intro given
        rcases given with ⟨met,later⟩
        have next := (exact _ _ start inside.1).mpr met
        exact ⟨start,(ih next inside.2).mpr later⟩

-- The same with an invariant that more than the good states keep, as long as the condition is met.
theorem throughout_exact (invariant : σ → Prop) (actions : List α) (start : invariant s) (shows : ∀ s, invariant s → good s)
    (exact : ∀ s action, invariant s → (good (step s action) ↔ allowed s action))
    (kept : ∀ s action, invariant s → allowed s action → invariant (step s action)) :
    Throughout step good s actions ↔ Along step allowed s actions := by
  induction actions generalizing s with
  | nil => exact ⟨fun _ => trivial,fun _ => shows s start⟩
  | cons action rest ih =>
      constructor
      · intro given
        have met := (exact s action start).mp (throughout_start given.2)
        exact ⟨met,(ih (kept s action start met)).mp given.2⟩
      · intro given
        exact ⟨shows s start,(ih (kept s action start given.1)).mpr given.2⟩

-- The same for what a step does instead of where it leads: the statement about a step
-- keeps the state good for the next one.
theorem along_iff (good : σ → Prop) {within : σ → α → Prop} (start : good s)
    (inside : Along step within s actions)
    (exact : ∀ s action, good s → within s action → (claimed s action ↔ allowed s action))
    (kept : ∀ s action, good s → within s action → claimed s action → good (step s action)) :
    Along step claimed s actions ↔ Along step allowed s actions := by
  induction actions generalizing s with
  | nil => exact Iff.rfl
  | cons action rest ih =>
      constructor
      · intro given
        rcases given with ⟨here,later⟩
        exact ⟨(exact _ _ start inside.1).mp here,(ih (kept _ _ start inside.1 here) inside.2).mp later⟩
      · intro given
        rcases given with ⟨here,later⟩
        have first := (exact _ _ start inside.1).mpr here
        exact ⟨first,(ih (kept _ _ start inside.1 first) inside.2).mpr later⟩

-- In a log that has grown by one entry, a place is the new end or an old place.
theorem grown_split {log earlier later : List β} {entry found : β} (split : log ++ [entry] = earlier ++ found :: later) :
    (later = [] ∧ earlier = log ∧ found = entry) ∨ ∃ rest, log = earlier ++ found :: rest ∧ later = rest ++ [entry] := by
  cases List.eq_nil_or_concat later with
  | inl none_left =>
      subst none_left
      obtain ⟨same,last⟩ := List.append_inj' split rfl
      exact .inl ⟨rfl,same.symm,(List.cons.inj last).1.symm⟩
  | inr more =>
      obtain ⟨rest,last,rfl⟩ := more
      rw [List.concat_eq_append] at split ⊢
      rw [← List.cons_append,← List.append_assoc] at split
      obtain ⟨same,final⟩ := List.append_inj' split rfl
      exact .inr ⟨rest,same,by rw [(List.cons.inj final).1]⟩

instance decideThroughout [∀ s, Decidable (good s)] (s : σ) :
    (actions : List α) → Decidable (Throughout step good s actions)
  | [] => inferInstanceAs (Decidable (good s))
  | action :: rest =>
    have : Decidable (Throughout step good (step s action) rest) := decideThroughout (step s action) rest
    inferInstanceAs (Decidable (good s ∧ Throughout step good (step s action) rest))

instance decideAlong [∀ s action, Decidable (allowed s action)] (s : σ) :
    (actions : List α) → Decidable (Along step allowed s actions)
  | [] => inferInstanceAs (Decidable True)
  | action :: rest =>
    have : Decidable (Along step allowed (step s action) rest) := decideAlong (step s action) rest
    inferInstanceAs (Decidable (allowed s action ∧ Along step allowed (step s action) rest))

end StepRuns

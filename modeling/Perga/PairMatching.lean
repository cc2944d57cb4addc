import Mathlib.Data.List.Induction

namespace PairMatching
variable {α : Type u} {β : Type v}

-- A one-slot matcher: a close pairs with the last open unless something in
-- between emptied the slot. Finished pairs wait until they are collected, and a
-- discard drops the slot together with every pair that still waits.
inductive Op (α : Type u) (β : Type v) where
  | pass
  | cancel
  | opens (a : α)
  | closes (b : β)
  | discard
  | collect
  deriving DecidableEq, Repr

structure Matcher (α : Type u) (β : Type v) where
  inflight : Option α
  ready : List (α × β)
  deriving DecidableEq, Repr

def empty : Matcher α β := ⟨none,[]⟩

def Matcher.act (m : Matcher α β) : Op α β → Matcher α β
  | .pass => m
  | .cancel => {m with inflight := none}
  | .opens a => {m with inflight := some a}
  | .closes b =>
    match m.inflight with
    | some a => ⟨none,m.ready ++ [(a,b)]⟩
    | none => m
  | .discard => empty
  | .collect => {m with ready := []}

def Matcher.handed (m : Matcher α β) : Op α β → List (α × β)
  | .collect => m.ready
  | _ => []

def run (m : Matcher α β) (ops : List (Op α β)) : Matcher α β := ops.foldl Matcher.act m

def outputs (m : Matcher α β) : List (Op α β) → List (α × β)
  | [] => []
  | op :: rest => m.handed op ++ outputs (m.act op) rest

@[simp] theorem run_nil (m : Matcher α β) : run m [] = m := rfl
@[simp] theorem outputs_nil (m : Matcher α β) : outputs m [] = [] := rfl
@[simp] theorem run_cons (m : Matcher α β) : run m (op :: rest) = run (m.act op) rest := rfl

theorem run_append (m : Matcher α β) : run m (first ++ second) = run (run m first) second :=
  List.foldl_append

theorem outputs_append (m : Matcher α β) :
    outputs m (first ++ second) = outputs m first ++ outputs (run m first) second := by
  induction first generalizing m with
  | nil => rfl
  | cons op rest ih => simp only [List.cons_append,outputs,run_cons,ih,List.append_assoc]

def Op.map (f : α → γ) (g : β → δ) : Op α β → Op γ δ
  | .pass => .pass
  | .cancel => .cancel
  | .opens a => .opens (f a)
  | .closes b => .closes (g b)
  | .discard => .discard
  | .collect => .collect

def Matcher.map (f : α → γ) (g : β → δ) (m : Matcher α β) : Matcher γ δ :=
  ⟨m.inflight.map f,m.ready.map (Prod.map f g)⟩

theorem act_map (f : α → γ) (g : β → δ) (m : Matcher α β) (op : Op α β) :
    (m.map f g).act (op.map f g) = (m.act op).map f g := by
  cases op with
  | closes b => cases slot : m.inflight <;> simp [Matcher.act,Op.map,Matcher.map,slot]
  | pass => rfl
  | cancel => rfl
  | opens a => rfl
  | discard => rfl
  | collect => rfl

theorem handed_map (f : α → γ) (g : β → δ) (m : Matcher α β) (op : Op α β) :
    (m.map f g).handed (op.map f g) = (m.handed op).map (Prod.map f g) := by
  cases op <;> rfl

-- The matcher never looks at what it pairs, so renaming the payloads commutes
-- with everything that it hands out.
theorem outputs_map (f : α → γ) (g : β → δ) (m : Matcher α β) (ops : List (Op α β)) :
    outputs (m.map f g) (ops.map (Op.map f g)) = (outputs m ops).map (Prod.map f g) := by
  induction ops generalizing m with
  | nil => rfl
  | cons op rest ih => simp only [List.map_cons,outputs,act_map,handed_map,ih,List.map_append]

-- Positions make equal payloads distinguishable.
def label (ops : List (Op α β)) : List (Op (Nat × α) (Nat × β)) :=
  ops.mapIdx fun i op => op.map (i,·) (i,·)

def pairs (ops : List (Op α β)) : List ((Nat × α) × (Nat × β)) := outputs empty (label ops)

theorem label_concat (ops : List (Op α β)) (op : Op α β) :
    label (ops ++ [op]) = label ops ++ [op.map (ops.length,·) (ops.length,·)] :=
  List.mapIdx_concat

theorem label_forget (ops : List (Op α β)) : (label ops).map (Op.map Prod.snd Prod.snd) = ops := by
  apply List.ext_getElem
  · simp [label]
  · intro i inLabel inOps
    simp only [label,List.getElem_map,List.getElem_mapIdx]
    cases ops[i] <;> rfl

theorem outputs_pairs (ops : List (Op α β)) :
    outputs empty ops = (pairs ops).map (Prod.map Prod.snd Prod.snd) := by
  have renamed := outputs_map Prod.snd Prod.snd (empty : Matcher (Nat × α) (Nat × β)) (label ops)
  rw [label_forget] at renamed
  exact renamed

-- Nothing between an open and its close may touch the slot.
def Op.Quiet : Op α β → Prop
  | .pass => True
  | .collect => True
  | _ => False

def OpenAt (ops : List (Op α β)) (i : Nat) (a : α) : Prop :=
  ops[i]? = some (.opens a) ∧ ∀ k op, i < k → ops[k]? = some op → op.Quiet

def Matched (ops : List (Op α β)) (i : Nat) (a : α) (j : Nat) (b : β) : Prop :=
  i < j ∧ ops[i]? = some (.opens a) ∧ ops[j]? = some (.closes b) ∧
    ∀ k op, i < k → k < j → ops[k]? = some op → op.Quiet

def Waiting (ops : List (Op α β)) (j : Nat) : Prop :=
  ∀ k, j < k → ops[k]? ≠ some .discard ∧ ops[k]? ≠ some .collect

def Collected (ops : List (Op α β)) (j : Nat) : Prop :=
  ∃ c, j < c ∧ ops[c]? = some .collect ∧
    ∀ k, j < k → k < c → ops[k]? ≠ some .discard ∧ ops[k]? ≠ some .collect

theorem at_concat (ops : List (Op α β)) (last : Op α β) (k : Nat) (op : Op α β) :
    (ops ++ [last])[k]? = some op ↔ ops[k]? = some op ∨ (k = ops.length ∧ last = op) := by
  rcases Nat.lt_trichotomy k ops.length with before | same | beyond
  · rw [List.getElem?_append_left before]
    exact ⟨Or.inl,fun split => split.resolve_right (fun wrong => by omega)⟩
  · subst same
    simp
  · have outside : (ops ++ [last])[k]? = none := List.getElem?_eq_none (by simp; omega)
    have missing : ops[k]? = none := List.getElem?_eq_none (by omega)
    rw [outside,missing]
    constructor
    · intro impossible; cases impossible
    · intro either
      rcases either with impossible | ⟨same,_⟩
      · cases impossible
      · omega

theorem at_bound {ops : List (Op α β)} (found : ops[k]? = some op) : k < ops.length :=
  (List.getElem?_eq_some_iff.mp found).1

theorem openAt_quiet (ops : List (Op α β)) (last : Op α β) (quiet : last.Quiet) (i : Nat) (a : α) :
    OpenAt (ops ++ [last]) i a ↔ OpenAt ops i a := by
  have other : last ≠ .opens a := by rintro rfl; exact quiet
  simp only [OpenAt,at_concat,other,and_false,or_false]
  constructor
  · intro given
    rcases given with ⟨found,rest⟩
    exact ⟨found,fun k op later at_k => rest k op later (.inl at_k)⟩
  · intro given
    rcases given with ⟨found,rest⟩
    refine ⟨found,?_⟩
    intro k op later either
    rcases either with at_k | ⟨_,rfl⟩
    · exact rest k op later at_k
    · exact quiet

theorem openAt_loud (ops : List (Op α β)) (last : Op α β) (loud : ¬ last.Quiet) (i : Nat) (a : α) :
    OpenAt (ops ++ [last]) i a ↔ i = ops.length ∧ last = .opens a := by
  simp only [OpenAt,at_concat]
  constructor
  · intro either
    rcases either with ⟨found | last_open,rest⟩
    · exact absurd (rest ops.length last (at_bound found) (.inr ⟨rfl,rfl⟩)) loud
    · exact last_open
  · intro given
    rcases given with ⟨rfl,rfl⟩
    refine ⟨.inr ⟨rfl,rfl⟩,?_⟩
    intro k op later either
    rcases either with at_k | ⟨same,_⟩
    · have := at_bound at_k; omega
    · omega

theorem matched_concat (ops : List (Op α β)) (last : Op α β) (i j : Nat) (a : α) (b : β) :
    Matched (ops ++ [last]) i a j b ↔
      Matched ops i a j b ∨ (j = ops.length ∧ last = .closes b ∧ OpenAt ops i a) := by
  simp only [Matched,OpenAt,at_concat]
  constructor
  · intro either
    rcases either with ⟨before,openAt,closeAt | ⟨rfl,rfl⟩,quiet⟩
    · have bound := at_bound closeAt
      refine .inl ⟨before,openAt.resolve_right (by rintro ⟨same,_⟩; omega),closeAt,?_⟩
      exact fun k op later earlier at_k => quiet k op later earlier (.inl at_k)
    · have opened := openAt.resolve_right (by rintro ⟨same,_⟩; omega)
      exact .inr ⟨rfl,rfl,opened,fun k op later at_k =>
        quiet k op later (at_bound at_k) (.inl at_k)⟩
  · intro either
    rcases either with ⟨before,openAt,closeAt,quiet⟩ | ⟨rfl,rfl,openAt,quiet⟩
    · have bound := at_bound closeAt
      refine ⟨before,.inl openAt,.inl closeAt,?_⟩
      intro k op later earlier either
      rcases either with at_k | ⟨same,_⟩
      · exact quiet k op later earlier at_k
      · omega
    · refine ⟨at_bound openAt,.inl openAt,.inr ⟨rfl,rfl⟩,?_⟩
      intro k op later earlier either
      rcases either with at_k | ⟨same,_⟩
      · exact quiet k op later at_k
      · omega

theorem matched_bound {ops : List (Op α β)} (found : Matched ops i a j b) : j < ops.length :=
  at_bound found.2.2.1

theorem waiting_concat (ops : List (Op α β)) (last : Op α β) (j : Nat) (bound : j < ops.length) :
    Waiting (ops ++ [last]) j ↔ Waiting ops j ∧ last ≠ .discard ∧ last ≠ .collect := by
  simp only [Waiting,ne_eq,at_concat,not_or,not_and]
  constructor
  · intro none_left
    refine ⟨fun k later => ⟨(none_left k later).1.1,(none_left k later).2.1⟩,?_,?_⟩
    · exact (none_left ops.length bound).1.2 rfl
    · exact (none_left ops.length bound).2.2 rfl
  · intro given k later
    rcases given with ⟨none_left,no_discard,no_collect⟩
    exact ⟨⟨(none_left k later).1,fun _ => no_discard⟩,(none_left k later).2,fun _ => no_collect⟩

theorem collected_concat (ops : List (Op α β)) (last : Op α β) (j : Nat) (bound : j < ops.length) :
    Collected (ops ++ [last]) j ↔ Collected ops j ∨ (last = .collect ∧ Waiting ops j) := by
  simp only [Collected,Waiting,ne_eq,at_concat,not_or,not_and]
  constructor
  · intro either
    rcases either with ⟨c,after,found | ⟨rfl,rfl⟩,between⟩
    · exact .inl ⟨c,after,found,fun k later earlier =>
        ⟨(between k later earlier).1.1,(between k later earlier).2.1⟩⟩
    · refine .inr ⟨rfl,fun k later => ?_⟩
      by_cases inside : k < ops.length
      · exact ⟨(between k later inside).1.1,(between k later inside).2.1⟩
      · have missing : ops[k]? = none := List.getElem?_eq_none (by omega)
        simp [missing]
  · intro either
    rcases either with ⟨c,after,found,between⟩ | ⟨rfl,waiting⟩
    · have inside := at_bound found
      refine ⟨c,after,.inl found,fun k later earlier => ?_⟩
      exact ⟨⟨(between k later earlier).1,fun same => by omega⟩,
        (between k later earlier).2,fun same => by omega⟩
    · refine ⟨ops.length,bound,.inr ⟨rfl,rfl⟩,fun k later earlier => ?_⟩
      exact ⟨⟨(waiting k later).1,fun same => by omega⟩,(waiting k later).2,fun same => by omega⟩

theorem waiting_last (ops : List (Op α β)) (last : Op α β) : Waiting (ops ++ [last]) ops.length := by
  intro k later
  have missing : (ops ++ [last])[k]? = none := List.getElem?_eq_none (by simp; omega)
  simp [missing]

-- One induction over the run, newest operation last: what sits in the slot, what
-- waits, and what has been handed out are each described by positions alone.
structure Describes (ops : List (Op α β)) : Prop where
  slot : ∀ i a, (run empty (label ops)).inflight = some (i,a) ↔ OpenAt ops i a
  waits : ∀ i a j b, ((i,a),(j,b)) ∈ (run empty (label ops)).ready ↔
    Matched ops i a j b ∧ Waiting ops j
  given : ∀ i a j b, ((i,a),(j,b)) ∈ pairs ops ↔ Matched ops i a j b ∧ Collected ops j

theorem pairs_concat (ops : List (Op α β)) (op : Op α β) :
    pairs (ops ++ [op]) =
      pairs ops ++ (run empty (label ops)).handed (op.map (ops.length,·) (ops.length,·)) := by
  simp only [pairs,label_concat,outputs_append,outputs,List.append_nil]

theorem slot_concat (d : Describes ops) (op : Op α β) (i : Nat) (a : α) :
    (run empty (label (ops ++ [op]))).inflight = some (i,a) ↔ OpenAt (ops ++ [op]) i a := by
  rw [label_concat,run_append]
  cases op with
  | pass => rw [openAt_quiet _ .pass trivial]; exact d.slot i a
  | collect => rw [openAt_quiet _ .collect trivial]; exact d.slot i a
  | cancel => rw [openAt_loud _ _ id]; simp [Op.map,Matcher.act]
  | discard => rw [openAt_loud _ _ id]; simp [Op.map,Matcher.act,empty]
  | opens a' =>
      rw [openAt_loud _ _ id]
      simp only [Op.map,run_cons,run_nil,Matcher.act,Option.some.injEq,Prod.mk.injEq,Op.opens.injEq]
      exact ⟨fun ⟨same,value⟩ => ⟨same.symm,value⟩,fun ⟨same,value⟩ => ⟨same.symm,value⟩⟩
  | closes b =>
      rw [openAt_loud _ _ id]
      cases found : (run empty (label ops)).inflight <;> simp [Op.map,Matcher.act,found]

theorem waits_concat (d : Describes ops) (op : Op α β) (i : Nat) (a : α) (j : Nat) (b : β) :
    ((i,a),(j,b)) ∈ (run empty (label (ops ++ [op]))).ready ↔
      Matched (ops ++ [op]) i a j b ∧ Waiting (ops ++ [op]) j := by
  rw [label_concat,run_append,matched_concat]
  have kept (other : ∀ b, op ≠ .closes b) (noDiscard : op ≠ .discard) (noCollect : op ≠ .collect) :
      ((i,a),(j,b)) ∈ (run empty (label ops)).ready ↔
        (Matched ops i a j b ∨ (j = ops.length ∧ op = .closes b ∧ OpenAt ops i a)) ∧
          Waiting (ops ++ [op]) j := by
    rw [d.waits]
    simp only [other b,false_and,and_false,or_false]
    constructor
    · intro given
      rcases given with ⟨matched,waiting⟩
      exact ⟨matched,(waiting_concat _ _ _ (matched_bound matched)).mpr ⟨waiting,noDiscard,noCollect⟩⟩
    · intro given
      rcases given with ⟨matched,waiting⟩
      exact ⟨matched,((waiting_concat _ _ _ (matched_bound matched)).mp waiting).1⟩
  have dropped (loud : op = .discard ∨ op = .collect) :
      ¬((Matched ops i a j b ∨ (j = ops.length ∧ op = .closes b ∧ OpenAt ops i a)) ∧
          Waiting (ops ++ [op]) j) := by
    intro either
    rcases either with ⟨matched | ⟨_,isClose,_⟩,waiting⟩
    · have last := ((waiting_concat _ _ _ (matched_bound matched)).mp waiting).2
      rcases loud with is | is
      · exact last.1 is
      · exact last.2 is
    · rcases loud with is | is <;> rw [is] at isClose <;> cases isClose
  cases op with
  | pass => exact kept (by simp) (by simp) (by simp)
  | cancel => exact kept (by simp) (by simp) (by simp)
  | opens a' => exact kept (by simp) (by simp) (by simp)
  | discard => exact iff_of_false (by simp [Op.map,Matcher.act,empty]) (dropped (.inl rfl))
  | collect => exact iff_of_false (by simp [Op.map,Matcher.act]) (dropped (.inr rfl))
  | closes b' =>
      have old : ((i,a),(j,b)) ∈ (run empty (label ops)).ready ↔
          Matched ops i a j b ∧ Waiting (ops ++ [.closes b']) j := by
        rw [d.waits]
        constructor
        · intro given
          rcases given with ⟨matched,waiting⟩
          exact ⟨matched,(waiting_concat _ _ _ (matched_bound matched)).mpr ⟨waiting,by simp,by simp⟩⟩
        · intro given
          rcases given with ⟨matched,waiting⟩
          exact ⟨matched,((waiting_concat _ _ _ (matched_bound matched)).mp waiting).1⟩
      rw [or_and_right,← old]
      have slot := d.slot i a
      cases found : (run empty (label ops)).inflight with
      | none =>
          have closed : ¬ OpenAt ops i a := fun isOpen => by simp [found] at slot; exact slot isOpen
          simp [Op.map,Matcher.act,found,closed]
      | some opened =>
          rw [found,Option.some.injEq] at slot
          simp only [Op.map,run_cons,run_nil,Matcher.act,found,List.mem_append,List.mem_singleton,
            Prod.mk.injEq,Op.closes.injEq]
          apply or_congr_right
          constructor
          · intro given
            rcases given with ⟨same,rfl,rfl⟩
            exact ⟨⟨rfl,rfl,slot.mp same.symm⟩,waiting_last _ _⟩
          · intro given
            rcases given with ⟨⟨rfl,rfl,isOpen⟩,_⟩
            exact ⟨(slot.mpr isOpen).symm,rfl,rfl⟩

theorem given_concat (d : Describes ops) (op : Op α β) (i : Nat) (a : α) (j : Nat) (b : β) :
    ((i,a),(j,b)) ∈ pairs (ops ++ [op]) ↔
      Matched (ops ++ [op]) i a j b ∧ Collected (ops ++ [op]) j := by
  have fresh : ¬ Collected (ops ++ [op]) ops.length := by
    intro given
    rcases given with ⟨c,after,found,_⟩
    have := at_bound found
    simp at this
    omega
  have split : Matched (ops ++ [op]) i a j b ∧ Collected (ops ++ [op]) j ↔
      Matched ops i a j b ∧ (Collected ops j ∨ (op = .collect ∧ Waiting ops j)) := by
    rw [matched_concat]
    constructor
    · intro either
      rcases either with ⟨matched | ⟨rfl,_,_⟩,collected⟩
      · exact ⟨matched,(collected_concat _ _ _ (matched_bound matched)).mp collected⟩
      · exact absurd collected fresh
    · intro given
      rcases given with ⟨matched,collected⟩
      exact ⟨.inl matched,(collected_concat _ _ _ (matched_bound matched)).mpr collected⟩
  rw [split,pairs_concat,List.mem_append,d.given]
  cases op with
  | collect =>
      simp only [Op.map,Matcher.handed,true_and]
      rw [d.waits,and_or_left]
  | pass => simp [Op.map,Matcher.handed]
  | cancel => simp [Op.map,Matcher.handed]
  | opens a' => simp [Op.map,Matcher.handed]
  | closes b' => simp [Op.map,Matcher.handed]
  | discard => simp [Op.map,Matcher.handed]

theorem describes (ops : List (Op α β)) : Describes ops := by
  induction ops using List.reverseRecOn with
  | nil =>
      refine ⟨?_,?_,?_⟩
      · intro i a; simp [label,empty,OpenAt]
      · intro i a j b; simp [label,empty,Matched]
      · intro i a j b; simp [pairs,label,Matched]
  | append_singleton ops op d => exact ⟨slot_concat d op,waits_concat d op,given_concat d op⟩

theorem mem_pairs (ops : List (Op α β)) (i : Nat) (a : α) (j : Nat) (b : β) :
    ((i,a),(j,b)) ∈ pairs ops ↔ Matched ops i a j b ∧ Collected ops j := (describes ops).given i a j b

-- Handed out and waiting pairs together stay in the order of their closes, so no
-- close is ever handed out a second time.
theorem closes_ordered (ops : List (Op α β)) :
    (pairs ops ++ (run empty (label ops)).ready).Pairwise (fun p q => p.2.1 < q.2.1) ∧
      ∀ p ∈ pairs ops ++ (run empty (label ops)).ready, p.2.1 < ops.length := by
  induction ops using List.reverseRecOn with
  | nil => simp [pairs,label,empty]
  | append_singleton ops op ih =>
      obtain ⟨ordered,bounded⟩ := ih
      have longer : ∀ p ∈ pairs ops ++ (run empty (label ops)).ready, p.2.1 < (ops ++ [op]).length := by
        intro p member
        have := bounded p member
        rw [List.length_append]
        omega
      rw [pairs_concat,label_concat,run_append]
      cases op with
      | pass => simpa [Op.map,Matcher.handed,Matcher.act] using And.intro ordered longer
      | cancel => simpa [Op.map,Matcher.handed,Matcher.act] using And.intro ordered longer
      | opens a => simpa [Op.map,Matcher.handed,Matcher.act] using And.intro ordered longer
      | collect => simpa [Op.map,Matcher.handed,Matcher.act] using And.intro ordered longer
      | discard =>
          have given := (List.pairwise_append.mp ordered).1
          refine ⟨by simpa [Op.map,Matcher.handed,Matcher.act,empty] using given,?_⟩
          intro p member
          exact longer p (List.mem_append_left _ (by simpa [Op.map,Matcher.handed,Matcher.act,empty] using member))
      | closes b =>
          cases found : (run empty (label ops)).inflight with
          | none => simpa [Op.map,Matcher.handed,Matcher.act,found] using And.intro ordered longer
          | some opened =>
              simp only [Op.map,Matcher.handed,run_cons,run_nil,Matcher.act,found,List.append_nil,
                ← List.append_assoc]
              refine ⟨List.pairwise_append.mpr ⟨ordered,List.pairwise_singleton _ _,?_⟩,?_⟩
              · intro p member q last
                rw [List.mem_singleton.mp last]
                exact bounded p member
              · intro p member
                rcases List.mem_append.mp member with old | last
                · exact longer p old
                · rw [List.mem_singleton.mp last]
                  simp

theorem pairs_ordered (ops : List (Op α β)) : (pairs ops).Pairwise (fun p q => p.2.1 < q.2.1) :=
  (List.pairwise_append.mp (closes_ordered ops).1).1

theorem filter_once {γ : Type w} {key : γ → Nat} {items : List γ} (item : γ)
    (ordered : items.Pairwise (fun p q => key p < key q)) (member : item ∈ items) :
    items.filter (fun p => key p == key item) = [item] := by
  induction items with
  | nil => cases member
  | cons head rest ih =>
      obtain ⟨first,later⟩ := List.pairwise_cons.mp ordered
      rcases List.mem_cons.mp member with rfl | old
      · have others : rest.filter (fun p => key p == key item) = [] := by
          rw [List.filter_eq_nil_iff]
          intro p inside
          have := first p inside
          simp only [beq_iff_eq]
          omega
        simp [others]
      · have before := first item old
        rw [List.filter_cons_of_neg (by simp only [beq_iff_eq]; omega)]
        exact ih later old

-- A close is handed out once when it is matched and collected, and never else.
theorem collected_once {ops : List (Op α β)} (matched : Matched ops i a j b) (collected : Collected ops j) :
    (pairs ops).filter (fun p => p.2.1 == j) = [((i,a),(j,b))] :=
  filter_once ((i,a),(j,b)) (pairs_ordered ops)
    ((mem_pairs ops i a j b).mpr ⟨matched,collected⟩)

-- Where the next collect is known, only a discard before it loses the close.
theorem collected_before {heads rest : List (Op α β)} (inside : j < heads.length)
    (uncollected : .collect ∉ heads.drop (j+1)) :
    Collected (heads ++ .collect :: rest) j ↔ .discard ∉ heads.drop (j+1) := by
  have at_later : ∀ k op, j < k → k < heads.length → (heads ++ .collect :: rest)[k]? = some op → op ∈ heads.drop (j+1) := by
    intro k op later earlier found
    rw [List.getElem?_append_left earlier] at found
    refine List.mem_of_getElem? (i := k-(j+1)) ?_
    rw [List.getElem?_drop]
    have same : j+1+(k-(j+1)) = k := by omega
    rw [same]
    exact found
  have at_end : (heads ++ .collect :: rest)[heads.length]? = some .collect := by simp
  constructor
  · intro given lost
    rcases given with ⟨c,after,found,between⟩
    have last : c = heads.length := by
      rcases Nat.lt_trichotomy c heads.length with before | same | beyond
      · exact absurd (at_later c _ after before found) uncollected
      · exact same
      · exact absurd at_end (between heads.length inside beyond).2
    obtain ⟨n,here⟩ := List.mem_iff_getElem?.mp lost
    rw [List.getElem?_drop] at here
    have bound := at_bound here
    refine (between (j+1+n) (by omega) (by omega)).1 ?_
    rw [List.getElem?_append_left bound]
    exact here
  · intro kept
    refine ⟨heads.length,inside,at_end,fun k later earlier => ⟨fun found => ?_,fun found => ?_⟩⟩
    · exact kept (at_later k _ later earlier found)
    · exact uncollected (at_later k _ later earlier found)

theorem matched_append {ops more : List (Op α β)} (matched : Matched ops i a j b) : Matched (ops ++ more) i a j b := by
  have bound := matched_bound matched
  have same : ∀ k, k ≤ j → (ops ++ more)[k]? = ops[k]? := fun k _ => List.getElem?_append_left (by omega)
  obtain ⟨before,openAt,closeAt,quiet⟩ := matched
  refine ⟨before,(same i (by omega)).trans openAt,(same j (by omega)).trans closeAt,?_⟩
  intro k op later earlier found
  exact quiet k op later earlier ((same k (by omega)).symm.trans found)

-- What was handed out after a stretch stays the beginning of all that is.
theorem pairs_append (first second : List (Op α β)) : ∃ more, pairs (first ++ second) = pairs first ++ more := by
  unfold pairs label
  rw [List.mapIdx_append,outputs_append]
  exact ⟨_,rfl⟩

-- Which closes find the slot filled is decided by the operations that touch the slot, whatever
-- their payloads are.
def Op.slot : Op α β → Option (Op Unit β)
  | .pass => none
  | .collect => none
  | .cancel => some .cancel
  | .opens _ => some (.opens ())
  | .closes b => some (.closes b)
  | .discard => some .discard

def answered : Bool → List (Op Unit β) → List β
  | _,[] => []
  | filled,.closes b :: rest => (if filled then [b] else []) ++ answered false rest
  | _,.opens _ :: rest => answered true rest
  | filled,.pass :: rest => answered filled rest
  | filled,.collect :: rest => answered filled rest
  | _,.cancel :: rest => answered false rest
  | _,.discard :: rest => answered false rest

-- Unless something is discarded, what was handed out and what waits are the answered closes.
theorem outputs_answered (m : Matcher α β) (ops : List (Op α β)) (kept : .discard ∉ ops) :
    (outputs m ops).map Prod.snd ++ (run m ops).ready.map Prod.snd =
      m.ready.map Prod.snd ++ answered m.inflight.isSome (ops.filterMap Op.slot) := by
  induction ops generalizing m with
  | nil => simp [answered]
  | cons op rest ih =>
      have later : .discard ∉ rest := fun member => kept (List.mem_cons_of_mem op member)
      have next := ih (m.act op) later
      rw [outputs,List.map_append,List.append_assoc,run_cons,next]
      cases op with
      | pass => rfl
      | collect => rfl
      | cancel => rfl
      | opens a => rfl
      | closes b => cases slot : m.inflight <;> simp [Matcher.act,Matcher.handed,slot,Op.slot,answered]
      | discard => exact absurd List.mem_cons_self kept

end PairMatching

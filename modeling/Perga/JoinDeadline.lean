import Mathlib.Algebra.Order.BigOperators.Group.Finset
import Mathlib.Data.List.Perm.Subperm
import Mathlib.Data.List.Range
import Mathlib.Logic.Function.Basic
import Perga.FairRounds

namespace Perga.JoinDeadline

-- A thread that joins one of the handles, from the call that starts it.
inductive Joiner where
  | unstarted
  | failed
  | joining
  | sending
  | ended
  deriving DecidableEq, Repr

inductive RecvTimeoutError where
  | timeout
  | disconnected
  deriving DecidableEq, Repr

inductive Ending where
  | joined
  | detaching (why : RecvTimeoutError) (remaining : Nat)
  deriving DecidableEq, Repr

inductive Caller where
  | spawning (idx : Nat)
  | checking (deadline received : Nat)
  | receiving (deadline received : Nat)
  | finished (ending : Ending)
  deriving DecidableEq, Repr

-- `running` are the threads to be joined, `done` waits in the channel, and `taken` has been received.
structure World where
  total : Nat
  timeout : Nat
  running : Nat → Bool
  joiner : Nat → Joiner
  done : List Nat
  taken : List Nat
  caller : Caller

inductive Move where
  | worker (i : Nat)
  | joiner (i : Nat)
  | caller (spawned : Bool) (now : Nat)

def begun (total timeout : Nat) (running : Nat → Bool) : World :=
  ⟨total,timeout,running,fun _ => .unstarted,[],[],if total = 0 then .finished .joined else .spawning 0⟩

def World.wrote (w : World) (i : Nat) (joiner : Joiner) : World := {w with joiner := Function.update w.joiner i joiner}

-- `done_tx` has gone by the time this is asked; each thread that joins has a clone of it.
def World.senders (w : World) : Bool :=
  (List.range w.total).any fun i => w.joiner i = .joining ∨ w.joiner i = .sending

def World.joinHandlesWithTimeout (w : World) (spawned : Bool) (now : Nat) : World :=
  match w.caller with
  | .spawning idx =>
    if idx < w.total then {w.wrote idx (if spawned then .joining else .failed) with caller := .spawning (idx+1)}
    else {w with caller := .checking (now+w.timeout) 0}
  | .checking deadline received =>
    if received < w.total then
      if deadline < now then {w with caller := .finished (.detaching .timeout (w.total-received))}
      else {w with caller := .receiving deadline received}
    else {w with caller := .finished .joined}
  | .receiving deadline received =>
    match w.done with
    | idx :: rest => {w with done := rest,taken := w.taken ++ [idx],caller := .checking deadline (received+1)}
    | [] =>
      if !w.senders then {w with caller := .finished (.detaching .disconnected (w.total-received))}
      else if deadline ≤ now then {w with caller := .finished (.detaching .timeout (w.total-received))}
      else w
  | .finished _ => w

def Caller.returned : Caller → Bool
  | .finished _ => true
  | _ => false

-- The channel has room for `total`, and none once the caller has returned.
def World.join (w : World) (i : Nat) : World :=
  match w.joiner i with
  | .joining => if w.running i then w else w.wrote i .sending
  | .sending =>
    if w.caller.returned then w.wrote i .ended
    else if w.done.length < w.total then {w.wrote i .ended with done := w.done ++ [i]}
    else w
  | _ => w

def World.step (w : World) : Move → World
  | .worker i => {w with running := Function.update w.running i false}
  | .joiner i => w.join i
  | .caller spawned now => w.joinHandlesWithTimeout spawned now

-- What one turn does.
inductive Turn (w : World) : World → Prop where
  | idle : Turn w w
  | ends (i : Nat) : Turn w {w with running := Function.update w.running i false}
  | joins {i : Nat} (at_ : w.joiner i = .joining) (gone : w.running i = false) : Turn w (w.wrote i .sending)
  | lost {i : Nat} (at_ : w.joiner i = .sending) (returned : w.caller.returned = true) : Turn w (w.wrote i .ended)
  | sends {i : Nat} (at_ : w.joiner i = .sending) (waits : w.caller.returned = false) (room : w.done.length < w.total) :
      Turn w {w.wrote i .ended with done := w.done ++ [i]}
  | spawns {idx : Nat} (at_ : w.caller = .spawning idx) (more : idx < w.total) (spawned : Bool) :
      Turn w {w.wrote idx (if spawned then .joining else .failed) with caller := .spawning (idx+1)}
  | enters {idx : Nat} (at_ : w.caller = .spawning idx) (all : w.total ≤ idx) (deadline : Nat) :
      Turn w {w with caller := .checking deadline 0}
  | waits {deadline received : Nat} (at_ : w.caller = .checking deadline received) (more : received < w.total) :
      Turn w {w with caller := .receiving deadline received}
  | takes {deadline received idx : Nat} {rest : List Nat} (at_ : w.caller = .receiving deadline received) (done : w.done = idx :: rest) :
      Turn w {w with done := rest,taken := w.taken ++ [idx],caller := .checking deadline (received+1)}
  | completes {deadline received : Nat} (at_ : w.caller = .checking deadline received) (all : w.total ≤ received) :
      Turn w {w with caller := .finished .joined}
  | overdue {deadline received : Nat} (at_ : w.caller = .checking deadline received) (more : received < w.total) :
      Turn w {w with caller := .finished (.detaching .timeout (w.total-received))}
  | expires {deadline received : Nat} (at_ : w.caller = .receiving deadline received) :
      Turn w {w with caller := .finished (.detaching .timeout (w.total-received))}
  | disconnects {deadline received : Nat} (at_ : w.caller = .receiving deadline received) (empty : w.done = [])
      (senderless : w.senders = false) : Turn w {w with caller := .finished (.detaching .disconnected (w.total-received))}

theorem join_turn (w : World) (i : Nat) : Turn w (w.join i) := by
  unfold World.join
  split
  · rename_i at_
    split
    · exact .idle
    · rename_i gone
      exact .joins at_ (Bool.eq_false_iff.mpr gone)
  · rename_i at_
    split
    · rename_i returned
      exact .lost at_ returned
    · rename_i waits
      split
      · rename_i room
        exact .sends at_ (Bool.eq_false_iff.mpr waits) room
      · exact .idle
  · exact .idle

theorem caller_turn (w : World) (spawned : Bool) (now : Nat) : Turn w (w.joinHandlesWithTimeout spawned now) := by
  unfold World.joinHandlesWithTimeout
  cases at_ : w.caller with
  | spawning idx =>
      dsimp only
      split
      · rename_i more
        exact .spawns at_ more spawned
      · rename_i all
        exact .enters at_ (Nat.le_of_not_lt all) _
  | checking deadline received =>
      dsimp only
      split
      · rename_i more
        split
        · exact .overdue at_ more
        · exact .waits at_ more
      · rename_i all
        exact .completes at_ (Nat.le_of_not_lt all)
  | receiving deadline received =>
      dsimp only
      split
      · rename_i done
        exact .takes at_ done
      · rename_i empty
        split
        · rename_i senderless
          exact .disconnects at_ empty (by simpa using senderless)
        · split
          · exact .expires at_
          · exact .idle
  | finished ending => exact .idle

theorem step_turn (w : World) (move : Move) : Turn w (w.step move) := by
  cases move with
  | worker i => exact .ends i
  | joiner i => exact join_turn w i
  | caller spawned now => exact caller_turn w spawned now

def World.reports (w : World) : List Nat := w.done ++ w.taken

-- How far the caller has come, and what it has told.
def Stands (w : World) : Caller → Prop
  | .spawning idx => idx ≤ w.total ∧ w.taken = [] ∧ ∀ i, w.joiner i = .unstarted ↔ idx ≤ i
  | .checking _ received => received = w.taken.length ∧ ∀ i, w.joiner i = .unstarted ↔ w.total ≤ i
  | .receiving _ received => received = w.taken.length ∧ received < w.total ∧ ∀ i, w.joiner i = .unstarted ↔ w.total ≤ i
  | .finished .joined => w.total ≤ w.taken.length ∧ ∀ i, w.joiner i = .unstarted ↔ w.total ≤ i
  | .finished (.detaching why remaining) =>
    remaining = w.total-w.taken.length ∧ w.taken.length < w.total ∧ (∀ i, w.joiner i = .unstarted ↔ w.total ≤ i) ∧
      (why = .disconnected → (∀ i, w.joiner i ≠ .joining ∧ w.joiner i ≠ .sending) ∧ ∃ i < w.total, w.joiner i = .failed)

structure Sound (w : World) : Prop where
  once : w.reports.Nodup
  reported : ∀ i ∈ w.reports, w.joiner i = .ended
  told : ∀ i, w.joiner i = .ended → i ∈ w.reports ∨ w.caller.returned = true
  gone : ∀ i, w.joiner i = .sending ∨ w.joiner i = .ended → w.running i = false
  stands : Stands w w.caller

theorem begun_sound (total timeout : Nat) (running : Nat → Bool) : Sound (begun total timeout running) := by
  refine ⟨List.nodup_nil,fun i wrong => absurd wrong List.not_mem_nil,fun i wrong => (by cases wrong),fun i wrong => ?_,?_⟩
  · rcases wrong with wrong | wrong <;> cases wrong
  · unfold begun
    split
    · rename_i none_there
      exact ⟨Nat.le_of_eq none_there,fun i => ⟨fun _ => none_there ▸ Nat.zero_le i,fun _ => rfl⟩⟩
    · exact ⟨Nat.zero_le _,rfl,fun i => ⟨fun _ => Nat.zero_le i,fun _ => rfl⟩⟩

theorem wrote_joiner (w : World) (i k : Nat) (j : Joiner) : (w.wrote i j).joiner k = if k = i then j else w.joiner k :=
  Function.update_apply w.joiner i j k

theorem stands_wrote {w : World} {i : Nat} {j : Joiner} (stands : Stands w w.caller) (was : w.joiner i = .joining ∨ w.joiner i = .sending)
    (started : j ≠ .unstarted) (done : List Nat) : Stands {w.wrote i j with done := done} w.caller := by
  have same : ∀ k, (w.wrote i j).joiner k = .unstarted ↔ w.joiner k = .unstarted := by
    intro k
    rw [wrote_joiner]
    split
    · rename_i here
      subst here
      exact iff_of_false started fun wrong => by rcases was with at_ | at_ <;> rw [at_] at wrong <;> cases wrong
    · exact Iff.rfl
  cases at_ : w.caller with
  | spawning idx =>
      rw [at_] at stands
      exact ⟨stands.1,stands.2.1,fun k => (same k).trans (stands.2.2 k)⟩
  | checking deadline received =>
      rw [at_] at stands
      exact ⟨stands.1,fun k => (same k).trans (stands.2 k)⟩
  | receiving deadline received =>
      rw [at_] at stands
      exact ⟨stands.1,stands.2.1,fun k => (same k).trans (stands.2.2 k)⟩
  | finished ending =>
      rw [at_] at stands
      cases ending with
      | joined => exact ⟨stands.1,fun k => (same k).trans (stands.2 k)⟩
      | detaching why remaining =>
          refine ⟨stands.1,stands.2.1,fun k => (same k).trans (stands.2.2.1 k),fun disconnected => ?_⟩
          have quiet := (stands.2.2.2 disconnected).1 i
          exact absurd was fun busy => busy.elim quiet.1 quiet.2

theorem range_le {l : List Nat} {n : Nat} (all : ∀ i < n, i ∈ l) : n ≤ l.length := by
  have part : List.range n ⊆ l := fun i inside => all i (List.mem_range.mp inside)
  simpa using (List.nodup_range.subperm part).length_le

theorem le_range {l : List Nat} {n : Nat} (once : l.Nodup) (named : ∀ i ∈ l, i < n) : l.length ≤ n := by
  have part : l ⊆ List.range n := fun i member => List.mem_range.mpr (named i member)
  simpa using (once.subperm part).length_le

theorem senders_iff {w : World} (named : ∀ i, w.joiner i = .joining ∨ w.joiner i = .sending → i < w.total) :
    w.senders = false ↔ ∀ i, w.joiner i ≠ .joining ∧ w.joiner i ≠ .sending := by
  unfold World.senders
  rw [List.any_eq_false]
  constructor
  · intro none_there i
    constructor
    all_goals
      intro busy
      have inside := named i (by simp [busy])
      exact none_there i (List.mem_range.mpr inside) (by simp [busy])
  · intro quiet i _
    simp [quiet i]

-- A thread that joins goes on, and may report by that.
theorem wrote_sound {w : World} {i : Nat} {j : Joiner} {done : List Nat} (sound : Sound w)
    (was : w.joiner i = .joining ∨ w.joiner i = .sending) (gone : w.running i = false) (started : j ≠ .unstarted)
    (once : (done ++ w.taken).Nodup) (kept : ∀ k ∈ w.reports, k ∈ done ++ w.taken)
    (reported : ∀ k ∈ done ++ w.taken, k ∈ w.reports ∨ k = i ∧ j = .ended)
    (told : j = .ended → i ∈ done ++ w.taken ∨ w.caller.returned = true) : Sound {w.wrote i j with done := done} := by
  have other : ∀ k, w.joiner k = .ended → k ≠ i := by
    intro k ended same
    subst same
    rcases was with at_ | at_ <;> rw [ended] at at_ <;> cases at_
  have apart : ∀ k, k ≠ i → (w.wrote i j).joiner k = w.joiner k := fun k different => (wrote_joiner w i k j).trans (if_neg different)
  have own : (w.wrote i j).joiner i = j := (wrote_joiner w i i j).trans (if_pos rfl)
  refine ⟨once,fun k member => ?_,fun k ended => ?_,fun k past => ?_,stands_wrote sound.stands was started done⟩
  · rcases reported k member with old | ⟨rfl,ends⟩
    · have ended := sound.reported k old
      exact (apart k (other k ended)).trans ended
    · exact own.trans ends
  · by_cases same : k = i
    · subst same
      exact told (own.symm.trans ended)
    · exact (sound.told k ((apart k same).symm.trans ended)).imp (kept k) id
  · by_cases same : k = i
    · subst same
      exact gone
    · refine sound.gone k ?_
      rw [← apart k same]
      exact past

-- The caller goes on with the reports there are.
theorem caller_sound {w : World} {done taken : List Nat} {caller : Caller} (sound : Sound w) (perm : (done ++ taken).Perm w.reports)
    (waiting : w.caller.returned = false) (stands : Stands {w with done := done,taken := taken,caller := caller} caller) :
    Sound {w with done := done,taken := taken,caller := caller} := by
  refine ⟨perm.nodup_iff.mpr sound.once,fun k member => sound.reported k (perm.mem_iff.mp member),fun k ended => ?_,sound.gone,stands⟩
  rcases sound.told k ended with member | wrong
  · exact .inl (perm.mem_iff.mpr member)
  · rw [waiting] at wrong
    cases wrong

theorem spawn_sound {w : World} {idx : Nat} (sound : Sound w) (at_ : w.caller = .spawning idx) (more : idx < w.total) (spawned : Bool) :
    Sound {w.wrote idx (if spawned then .joining else .failed) with caller := .spawning (idx+1)} := by
  have stands := sound.stands
  rw [at_] at stands
  obtain ⟨_,none_taken,unstarted⟩ := stands
  have fresh : w.joiner idx = .unstarted := (unstarted idx).mpr (Nat.le_refl idx)
  generalize now : (if spawned then Joiner.joining else Joiner.failed) = j
  have opened : j = .joining ∨ j = .failed := by
    cases spawned with
    | true => exact .inl now.symm
    | false => exact .inr now.symm
  have apart : ∀ k, k ≠ idx → (w.wrote idx j).joiner k = w.joiner k := fun k different => (wrote_joiner w idx k j).trans (if_neg different)
  have own : (w.wrote idx j).joiner idx = j := (wrote_joiner w idx idx j).trans (if_pos rfl)
  refine ⟨sound.once,fun k member => ?_,fun k ended => ?_,fun k past => ?_,more,none_taken,fun k => ?_⟩
  · have ended := sound.reported k member
    have different : k ≠ idx := fun same => by rw [same,fresh] at ended; cases ended
    exact (apart k different).trans ended
  · have different : k ≠ idx := by
      intro same
      rw [same,own] at ended
      rcases opened with joining | failed
      · rw [joining] at ended; cases ended
      · rw [failed] at ended; cases ended
    rcases sound.told k ((apart k different).symm.trans ended) with member | wrong
    · exact .inl member
    · rw [at_] at wrong; cases wrong
  · have different : k ≠ idx := by
      intro same
      rw [same,own] at past
      rcases opened with joining | failed
      · rw [joining] at past; rcases past with wrong | wrong <;> cases wrong
      · rw [failed] at past; rcases past with wrong | wrong <;> cases wrong
    rw [apart k different] at past
    exact sound.gone k past
  · by_cases same : k = idx
    · subst same
      refine iff_of_false (fun wrong => ?_) (Nat.not_succ_le_self k)
      rw [own] at wrong
      rcases opened with joining | failed
      · rw [joining] at wrong; cases wrong
      · rw [failed] at wrong; cases wrong
    · rw [apart k same,unstarted k]
      omega

theorem turn_sound {w next : World} (sound : Sound w) (turn : Turn w next) : Sound next := by
  have stands := sound.stands
  cases turn with
  | idle => exact sound
  | ends i =>
      refine ⟨sound.once,sound.reported,sound.told,fun k ended => ?_,stands⟩
      change Function.update w.running i false k = false
      rw [Function.update_apply]
      split
      · rfl
      · exact sound.gone k ended
  | joins at_ gone =>
      exact wrote_sound sound (.inl at_) gone (by simp) sound.once (fun _ => id) (fun _ => .inl) fun wrong => by cases wrong
  | lost at_ returned =>
      exact wrote_sound sound (.inr at_) (sound.gone _ (.inl at_)) (by simp) sound.once (fun _ => id) (fun _ => .inl) fun _ => .inr returned
  | sends at_ waits room =>
      rename_i i
      have absent : i ∉ w.reports := fun member => by rw [sound.reported i member] at at_; cases at_
      have perm : (w.done ++ [i] ++ w.taken).Perm (i :: w.reports) := by
        rw [List.append_assoc]
        exact List.perm_middle
      refine wrote_sound sound (.inr at_) (sound.gone _ (.inl at_)) (by simp) ?_ (fun k member => ?_) (fun k member => ?_) fun _ => ?_
      · exact perm.nodup_iff.mpr (List.nodup_cons.mpr ⟨absent,sound.once⟩)
      · exact perm.mem_iff.mpr (List.mem_cons_of_mem i member)
      · exact (List.mem_cons.mp (perm.mem_iff.mp member)).symm.imp id fun same => ⟨same,rfl⟩
      · exact .inl (perm.mem_iff.mpr List.mem_cons_self)
  | spawns at_ more spawned => exact spawn_sound sound at_ more spawned
  | enters at_ all deadline =>
      rw [at_] at stands
      obtain ⟨within,none_taken,unstarted⟩ := stands
      have whole := Nat.le_antisymm within all
      subst whole
      exact caller_sound sound .rfl (by rw [at_]; rfl) ⟨(congrArg List.length none_taken).symm,unstarted⟩
  | waits at_ more =>
      rw [at_] at stands
      exact caller_sound sound .rfl (by rw [at_]; rfl) ⟨stands.1,more,stands.2⟩
  | takes at_ done =>
      rename_i deadline received idx rest
      rw [at_] at stands
      have perm : (rest ++ (w.taken ++ [idx])).Perm w.reports := by
        unfold World.reports
        rw [done,← List.append_assoc]
        exact List.perm_append_singleton idx _
      refine caller_sound sound perm (by rw [at_]; rfl) ⟨?_,stands.2.2⟩
      rw [List.length_append,stands.1]
      rfl
  | completes at_ all =>
      rw [at_] at stands
      exact caller_sound sound .rfl (by rw [at_]; rfl) ⟨stands.1 ▸ all,stands.2⟩
  | overdue at_ more =>
      rw [at_] at stands
      exact caller_sound sound .rfl (by rw [at_]; rfl) ⟨by rw [stands.1],stands.1 ▸ more,stands.2,fun wrong => by cases wrong⟩
  | expires at_ =>
      rw [at_] at stands
      exact caller_sound sound .rfl (by rw [at_]; rfl) ⟨by rw [stands.1],stands.1 ▸ stands.2.1,stands.2.2,fun wrong => by cases wrong⟩
  | disconnects at_ empty senderless =>
      rw [at_] at stands
      have named : ∀ i, w.joiner i = .joining ∨ w.joiner i = .sending → i < w.total := by
        intro i busy
        apply Nat.lt_of_not_le
        intro outside
        rw [(stands.2.2 i).mpr outside] at busy
        rcases busy with wrong | wrong <;> cases wrong
      have quiet := (senders_iff named).mp senderless
      have failed : ∃ i < w.total, w.joiner i = .failed := by
        apply Classical.byContradiction
        intro none_failed
        have all : ∀ i < w.total, i ∈ w.taken := by
          intro i inside
          have ended : w.joiner i = .ended := by
            cases here : w.joiner i with
            | unstarted => exact absurd ((stands.2.2 i).mp here) (Nat.not_le_of_lt inside)
            | failed => exact absurd ⟨i,inside,here⟩ none_failed
            | joining => exact absurd here (quiet i).1
            | sending => exact absurd here (quiet i).2
            | ended => rfl
          rcases sound.told i ended with member | wrong
          · rwa [World.reports,empty] at member
          · rw [at_] at wrong; cases wrong
        have enough := range_le all
        have short := stands.2.1
        rw [stands.1] at short
        omega
      exact caller_sound sound .rfl (by rw [at_]; rfl)
        ⟨by rw [stands.1],stands.1 ▸ stands.2.1,stands.2.2,fun _ => ⟨quiet,failed⟩⟩

theorem reached_sound (total timeout : Nat) (running : Nat → Bool) (moves : List Move) :
    Sound (moves.foldl World.step (begun total timeout running)) :=
  StepRuns.run_invariant Sound moves (begun_sound total timeout running) fun w move sound => turn_sound sound (step_turn w move)

theorem started_inside {w : World} (sound : Sound w) {i : Nat} (started : w.joiner i ≠ .unstarted) : i < w.total := by
  have stands := sound.stands
  apply Nat.lt_of_not_le
  intro outside
  apply started
  cases at_ : w.caller with
  | spawning idx =>
      rw [at_] at stands
      exact (stands.2.2 i).mpr (Nat.le_trans stands.1 outside)
  | checking deadline received =>
      rw [at_] at stands
      exact (stands.2 i).mpr outside
  | receiving deadline received =>
      rw [at_] at stands
      exact (stands.2.2 i).mpr outside
  | finished ending =>
      rw [at_] at stands
      cases ending with
      | joined => exact (stands.2 i).mpr outside
      | detaching why remaining => exact (stands.2.2.1 i).mpr outside

theorem reports_inside {w : World} (sound : Sound w) {i : Nat} (member : i ∈ w.reports) : i < w.total := by
  refine started_inside sound ?_
  rw [sound.reported i member]
  exact fun wrong => by cases wrong

-- The channel has room for every thread's report.
theorem sending_room {w : World} (sound : Sound w) {i : Nat} (at_ : w.joiner i = .sending) : w.done.length < w.total := by
  have absent : i ∉ w.reports := fun member => by rw [sound.reported i member] at at_; cases at_
  have inside : ∀ k ∈ i :: w.reports, k < w.total := by
    intro k member
    rcases List.mem_cons.mp member with rfl | reported
    · exact started_inside sound (by rw [at_]; exact fun wrong => by cases wrong)
    · exact reports_inside sound reported
  have short := le_range (List.nodup_cons.mpr ⟨absent,sound.once⟩) inside
  rw [World.reports,List.length_cons,List.length_append] at short
  omega

theorem sending_ends {w : World} (sound : Sound w) {i : Nat} (at_ : w.joiner i = .sending) : (w.join i).joiner i = .ended := by
  have room := sending_room sound at_
  unfold World.join
  simp only [at_,room,if_true]
  split <;> exact Function.update_self _ _ _

theorem running_few {w : World} (sound : Sound w) : ((List.range w.total).filter w.running).length ≤ w.total-w.taken.length := by
  have apart : ∀ i ∈ (List.range w.total).filter w.running, i ∉ w.taken := by
    intro i member taken
    have ended := sound.reported i (List.mem_append_right w.done taken)
    have gone := sound.gone i (.inr ended)
    rw [(List.mem_filter.mp member).2] at gone
    cases gone
  have once : ((List.range w.total).filter w.running ++ w.taken).Nodup := by
    refine List.nodup_append.mpr ⟨List.nodup_range.filter _,(List.nodup_append.mp sound.once).2.1,fun i left k right same => ?_⟩
    exact apart i left (same ▸ right)
  have inside : ∀ i ∈ (List.range w.total).filter w.running ++ w.taken, i < w.total := by
    intro i member
    rcases List.mem_append.mp member with left | right
    · exact List.mem_range.mp (List.mem_filter.mp left).1
    · exact reports_inside sound (List.mem_append_right w.done right)
  have short := le_range once inside
  rw [List.length_append] at short
  omega

-- The time left is gone: the caller's next two turns end the call.
def Overdue (deadline : Nat) : Move → Prop
  | .caller _ now => deadline < now
  | _ => True

def Waits (w : World) (deadline : Nat) : Prop := ∃ received, w.caller = .checking deadline received ∨ w.caller = .receiving deadline received

def overdueLeft (w : World) : Nat :=
  match w.caller with
  | .receiving _ _ => 2
  | .checking _ _ => 1
  | _ => 0

theorem others_caller (w : World) (move : Move) (other : ∀ spawned now, move ≠ .caller spawned now) : (w.step move).caller = w.caller := by
  cases move with
  | worker i => rfl
  | joiner i =>
      change (w.join i).caller = w.caller
      unfold World.join
      split
      · split <;> rfl
      · split
        · rfl
        · split <;> rfl
      · rfl
  | caller spawned now => exact absurd rfl (other spawned now)

theorem overdue_less {w : World} {deadline : Nat} (stage : Waits w deadline ∨ w.caller.returned = true) (spawned : Bool) {now : Nat}
    (late : deadline < now) (next : World) (turn : w.joinHandlesWithTimeout spawned now = next) :
    (Waits next deadline ∨ next.caller.returned = true) ∧ (overdueLeft next < overdueLeft w ∨ overdueLeft w = 0 ∧ next = w) := by
  unfold World.joinHandlesWithTimeout at turn
  rcases stage with ⟨received,at_ | at_⟩ | returned
  · simp only [at_,late,if_true] at turn
    have left : overdueLeft w = 1 := by simp only [overdueLeft,at_]
    rw [left]
    split at turn <;> subst turn <;> exact ⟨.inr rfl,.inl Nat.one_pos⟩
  · simp only [at_,Nat.le_of_lt late,if_true] at turn
    have left : overdueLeft w = 2 := by simp only [overdueLeft,at_]
    rw [left]
    split at turn
    · subst turn
      exact ⟨.inl ⟨_,.inl rfl⟩,.inl (Nat.lt_succ_self 1)⟩
    · split at turn <;> subst turn <;> exact ⟨.inr rfl,.inl Nat.two_pos⟩
  · cases at_ : w.caller with
    | finished ending =>
        simp only [at_] at turn
        subst turn
        exact ⟨.inr returned,.inr ⟨by simp only [overdueLeft,at_],rfl⟩⟩
    | _ => rw [at_] at returned; cases returned

def overdueTurn (deadline : Nat) (_ : Unit) (move : Move) : Prop := ∃ spawned now, move = .caller spawned now ∧ deadline < now

theorem overdue_drains (deadline : Nat) : FairRounds.Drains World.step (fun w => Waits w deadline ∨ w.caller.returned = true)
    (Overdue deadline) [()] (overdueTurn deadline) (fun w _ => 0 < overdueLeft w) overdueLeft := by
  have same : ∀ w move, (∀ spawned now, move ≠ .caller spawned now) → overdueLeft (w.step move) = overdueLeft w := by
    intro w move other
    simp only [overdueLeft,others_caller w move other]
  refine ⟨fun w move stage late => ?_,fun w move stage late => ?_,fun w _ busy => ⟨(),List.mem_singleton_self (),busy⟩,?_,?_⟩
  · cases move with
    | caller spawned now => exact (overdue_less stage spawned late _ rfl).1
    | worker i => exact stage
    | joiner i =>
        have still := others_caller w (.joiner i) fun _ _ wrong => by cases wrong
        unfold Waits
        rw [still]
        exact stage
  · cases move with
    | caller spawned now =>
        rcases (overdue_less stage spawned late _ rfl).2 with less | ⟨_,idle⟩
        · exact Nat.le_of_lt less
        · exact Nat.le_of_eq (congrArg overdueLeft idle)
    | worker i => exact Nat.le_refl _
    | joiner i => exact Nat.le_of_eq (same w (.joiner i) fun _ _ wrong => by cases wrong)
  · rintro w move party stage busy ⟨spawned,now,rfl,late⟩
    rcases (overdue_less stage spawned late _ rfl).2 with less | ⟨none_left,_⟩
    · exact less
    · rw [none_left] at busy
      cases busy
  · intro w move party stage late busy still
    rw [still]
    exact busy

theorem expires_returned {w : World} {deadline : Nat} (waits : Waits w deadline) (first second : List Move)
    (late : ∀ move ∈ first ++ second, Overdue deadline move)
    (turns : ∀ part ∈ [first,second], ∃ spawned now, .caller spawned now ∈ part) :
    ((first ++ second).foldl World.step w).caller.returned = true := by
  have inside : ∀ round ∈ [first,second], ∀ move ∈ round, Overdue deadline move := by
    intro round member move inside
    refine late move (List.mem_append.mpr ?_)
    rcases List.mem_pair.mp member with rfl | rfl
    · exact .inl inside
    · exact .inr inside
  have fair : ∀ round ∈ [first,second], ∀ i ∈ [()], ∃ move ∈ round, overdueTurn deadline i move := by
    intro round member i _
    obtain ⟨spawned,now,turn⟩ := turns round member
    exact ⟨_,turn,spawned,now,rfl,inside round member _ turn⟩
  have short : overdueLeft w ≤ 2 := by
    obtain ⟨received,at_ | at_⟩ := waits <;> simp [overdueLeft,at_]
  have rested := FairRounds.rounds_rest (overdue_drains deadline) (.inl waits) [first,second] inside fair short
  simp only [List.flatten_cons,List.flatten_nil,List.append_nil] at rested
  rcases rested.1 with ⟨received,at_ | at_⟩ | returned
  · have none_left := rested.2
    simp only [overdueLeft,at_] at none_left
    cases none_left
  · have none_left := rested.2
    simp only [overdueLeft,at_] at none_left
    cases none_left
  · exact returned

def joinerLeft : Joiner → Nat
  | .unstarted => 3
  | .joining => 2
  | .sending => 1
  | _ => 0

def callerLeft (total : Nat) : Caller → Nat
  | .spawning idx => total-idx+2*total+2
  | .checking _ received => 2*(total-received)+1
  | .receiving _ received => 2*(total-received)
  | .finished _ => 0

def left (w : World) : Nat := callerLeft w.total w.caller+∑ i ∈ Finset.range w.total, joinerLeft (w.joiner i)

theorem wrote_less {w : World} {i : Nat} {j : Joiner} (inside : i < w.total) (less : joinerLeft j < joinerLeft (w.joiner i)) :
    ∑ k ∈ Finset.range w.total, joinerLeft ((w.wrote i j).joiner k) < ∑ k ∈ Finset.range w.total, joinerLeft (w.joiner k) := by
  refine Finset.sum_lt_sum (fun k _ => ?_) ⟨i,Finset.mem_range.mpr inside,?_⟩
  · rw [wrote_joiner]
    split
    · rename_i same
      rw [same]
      exact Nat.le_of_lt less
    · exact Nat.le_refl _
  · rw [wrote_joiner,if_pos rfl]
    exact less

-- Whatever a turn does, there is less left to do behind it.
theorem turn_less {w next : World} (sound : Sound w) (turn : Turn w next) :
    next.total = w.total ∧ (left next < left w ∨ next = {w with running := next.running}) := by
  have stands := sound.stands
  have inside : ∀ i, w.joiner i ≠ .unstarted → i < w.total := fun i started => started_inside sound started
  have joined : ∀ i j, w.joiner i ≠ .unstarted → joinerLeft j < joinerLeft (w.joiner i) → left (w.wrote i j) < left w :=
    fun i j started less => Nat.add_lt_add_left (wrote_less (inside i started) less) _
  have called : ∀ caller done taken, callerLeft w.total caller < callerLeft w.total w.caller →
      left {w with caller := caller,done := done,taken := taken} < left w :=
    fun caller done taken less => Nat.add_lt_add_right less _
  cases turn with
  | idle => exact ⟨rfl,.inr rfl⟩
  | ends i => exact ⟨rfl,.inr rfl⟩
  | joins at_ gone => exact ⟨rfl,.inl (joined _ _ (by simp [at_]) (by simp [at_,joinerLeft]))⟩
  | lost at_ returned => exact ⟨rfl,.inl (joined _ _ (by simp [at_]) (by simp [at_,joinerLeft]))⟩
  | sends at_ waits room => exact ⟨rfl,.inl (joined _ _ (by simp [at_]) (by simp [at_,joinerLeft]))⟩
  | spawns at_ more spawned =>
      rename_i idx
      rw [at_] at stands
      have fresh : w.joiner idx = .unstarted := (stands.2.2 idx).mpr (Nat.le_refl idx)
      have fewer : joinerLeft (if spawned then .joining else .failed) < joinerLeft (w.joiner idx) := by
        rw [fresh]
        cases spawned <;> decide
      refine ⟨rfl,.inl (Nat.add_lt_add ?_ (wrote_less more fewer))⟩
      change callerLeft w.total (.spawning (idx+1)) < callerLeft w.total w.caller
      simp only [at_,callerLeft]
      omega
  | enters at_ all deadline =>
      refine ⟨rfl,.inl (called _ _ _ ?_)⟩
      simp only [at_,callerLeft]
      omega
  | waits at_ more =>
      refine ⟨rfl,.inl (called _ _ _ ?_)⟩
      simp only [at_,callerLeft]
      omega
  | takes at_ done =>
      rw [at_] at stands
      have short := stands.2.1
      refine ⟨rfl,.inl (called _ _ _ ?_)⟩
      simp only [at_,callerLeft]
      omega
  | completes at_ all =>
      refine ⟨rfl,.inl (called _ _ _ ?_)⟩
      simp only [at_,callerLeft]
      omega
  | overdue at_ more =>
      refine ⟨rfl,.inl (called _ _ _ ?_)⟩
      simp only [at_,callerLeft]
      omega
  | expires at_ =>
      rw [at_] at stands
      have short := stands.2.1
      refine ⟨rfl,.inl (called _ _ _ ?_)⟩
      simp only [at_,callerLeft]
      omega
  | disconnects at_ empty senderless =>
      rw [at_] at stands
      have short := stands.2.1
      refine ⟨rfl,.inl (called _ _ _ ?_)⟩
      simp only [at_,callerLeft]
      omega

-- The threads that are or will be joined have ended.
def Gone (w : World) : Prop := ∀ i < w.total, w.joiner i ≠ .failed → w.running i = false

theorem wrote_gone {w : World} {i : Nat} {j : Joiner} (gone : Gone w) (before : w.joiner i ≠ .failed) : Gone (w.wrote i j) := by
  intro k inside unfailed
  refine gone k inside ?_
  by_cases same : k = i
  · exact same ▸ before
  · rwa [wrote_joiner,if_neg same] at unfailed

theorem turn_gone {w next : World} (sound : Sound w) (gone : Gone w) (turn : Turn w next) : Gone next := by
  cases turn with
  | ends i =>
      intro k inside unfailed
      change Function.update w.running i false k = false
      rw [Function.update_apply]
      split
      · rfl
      · exact gone k inside unfailed
  | joins at_ _ => exact wrote_gone gone (by simp [at_])
  | lost at_ _ => exact wrote_gone gone (by simp [at_])
  | sends at_ _ _ => exact wrote_gone gone (by simp [at_])
  | spawns at_ more spawned =>
      have stands := sound.stands
      rw [at_] at stands
      exact wrote_gone gone (by rw [(stands.2.2 _).mpr (Nat.le_refl _)]; exact fun wrong => by cases wrong)
  | _ => exact gone

inductive Party where
  | caller
  | joiner (i : Nat)

def partyTurn : Party → Move → Prop
  | .caller,move => ∃ spawned now, move = .caller spawned now
  | .joiner i,move => move = .joiner i

-- Whose turn changes something: the caller's, but for an empty channel that some thread still has a sender of,
-- and that of a thread that has to join or to report.
def due (w : World) : Party → Prop
  | .caller =>
    match w.caller with
    | .receiving _ _ => w.done ≠ [] ∨ w.senders = false
    | .finished _ => False
    | _ => True
  | .joiner i => i < w.total ∧ (w.joiner i = .joining ∨ w.joiner i = .sending)

structure Settling (n : Nat) (w : World) : Prop where
  total : w.total = n
  sound : Sound w
  gone : Gone w

theorem caller_works {w : World} (sound : Sound w) (owed : due w .caller) (spawned : Bool) (now : Nat) :
    left (w.joinHandlesWithTimeout spawned now) < left w := by
  rcases (turn_less sound (caller_turn w spawned now)).2 with less | idle
  · exact less
  · have same : (w.joinHandlesWithTimeout spawned now).caller = w.caller := by rw [idle]
    unfold World.joinHandlesWithTimeout at same
    unfold due at owed
    cases at_ : w.caller with
    | spawning idx =>
        simp only [at_] at same
        split at same
        · cases same
        · cases same
    | checking deadline received =>
        simp only [at_] at same
        split at same
        · split at same <;> cases same
        · cases same
    | receiving deadline received =>
        simp only [at_] at same owed
        split at same
        · cases same
        · rename_i empty
          rcases owed with more | senderless
          · exact absurd empty more
          · simp only [senderless,Bool.not_false,if_true] at same
            cases same
    | finished ending => rw [at_] at owed; exact owed.elim

theorem joiner_works {w : World} (sound : Sound w) (gone : Gone w) {i : Nat} (owed : due w (.joiner i)) : left (w.join i) < left w := by
  rcases (turn_less sound (join_turn w i)).2 with less | idle
  · exact less
  · have same : (w.join i).joiner i = w.joiner i := by rw [idle]
    rcases owed.2 with at_ | at_
    · have ended : w.running i = false := gone i owed.1 (by simp [at_])
      have moved : (w.join i).joiner i = .sending := by
        simp only [World.join,at_,ended,Bool.false_eq_true,if_false]
        exact Function.update_self _ _ _
      rw [moved,at_] at same
      cases same
    · rw [sending_ends sound at_,at_] at same
      cases same

theorem left_due {w : World} (sound : Sound w) (busy : 0 < left w) : ∃ party, due w party := by
  have stands := sound.stands
  cases at_ : w.caller with
  | spawning idx => exact ⟨.caller,by simp only [due,at_]⟩
  | checking deadline received => exact ⟨.caller,by simp only [due,at_]⟩
  | receiving deadline received =>
      by_cases owed : w.done ≠ [] ∨ w.senders = false
      · exact ⟨.caller,by simp only [due,at_]; exact owed⟩
      · have some_sender : w.senders = true := Bool.eq_true_of_not_eq_false fun none_there => owed (.inr none_there)
        obtain ⟨i,inside,busy⟩ := List.any_eq_true.mp some_sender
        exact ⟨.joiner i,List.mem_range.mp inside,of_decide_eq_true busy⟩
  | finished ending =>
      simp only [left,at_,callerLeft,Nat.zero_add] at busy
      obtain ⟨i,inside,more⟩ := Finset.exists_ne_zero_of_sum_ne_zero (Nat.pos_iff_ne_zero.mp busy)
      have within := Finset.mem_range.mp inside
      refine ⟨.joiner i,within,?_⟩
      have started : w.joiner i ≠ .unstarted := by
        intro fresh
        rw [at_] at stands
        cases ending with
        | joined => exact absurd ((stands.2 i).mp fresh) (Nat.not_le_of_lt within)
        | detaching why remaining => exact absurd ((stands.2.2.1 i).mp fresh) (Nat.not_le_of_lt within)
      cases here : w.joiner i with
      | unstarted => exact absurd here started
      | joining => exact .inl rfl
      | sending => exact .inr rfl
      | failed => rw [here] at more; exact absurd rfl more
      | ended => rw [here] at more; exact absurd rfl more

theorem settling_drains (n : Nat) : FairRounds.Drains World.step (Settling n) (fun _ => True)
    (.caller :: (List.range n).map .joiner) partyTurn due left := by
  refine ⟨fun w move settling _ => ?_,fun w move settling _ => ?_,fun w settling busy => ?_,?_,?_⟩
  · have turn := step_turn w move
    exact ⟨(turn_less settling.sound turn).1.trans settling.total,turn_sound settling.sound turn,turn_gone settling.sound settling.gone turn⟩
  · rcases (turn_less settling.sound (step_turn w move)).2 with less | idle
    · exact Nat.le_of_lt less
    · rw [idle]
      exact Nat.le_refl (left w)
  · obtain ⟨party,owed⟩ := left_due settling.sound busy
    refine ⟨party,?_,owed⟩
    cases party with
    | caller => exact List.mem_cons_self
    | joiner i => exact List.mem_cons_of_mem _ (List.mem_map.mpr ⟨i,List.mem_range.mpr (settling.total ▸ owed.1),rfl⟩)
  · intro w move party settling owed own
    cases party with
    | caller =>
        obtain ⟨spawned,now,rfl⟩ := own
        exact caller_works settling.sound owed spawned now
    | joiner i =>
        cases own
        exact joiner_works settling.sound settling.gone owed
  · intro w move party settling _ owed still
    rcases (turn_less settling.sound (step_turn w move)).2 with less | idle
    · exact absurd still (Nat.ne_of_lt less)
    · rw [idle]
      exact owed

def Fair (n : Nat) (rounds : List (List Move)) : Prop :=
  ∀ round ∈ rounds, (∃ spawned now, .caller spawned now ∈ round) ∧ ∀ i < n, .joiner i ∈ round

theorem left_le {w : World} (sound : Sound w) : left w ≤ 6*w.total+2 := by
  have stands := sound.stands
  have joiners : ∑ i ∈ Finset.range w.total, joinerLeft (w.joiner i) ≤ w.total*3 := by
    have each : ∀ i ∈ Finset.range w.total, joinerLeft (w.joiner i) ≤ 3 := by
      intro i _
      cases w.joiner i <;> decide
    simpa using Finset.sum_le_card_nsmul _ _ 3 each
  have caller : callerLeft w.total w.caller ≤ 3*w.total+2 := by
    cases w.caller <;> simp only [callerLeft] <;> omega
  unfold left
  omega

theorem nothing_left {w : World} (sound : Sound w) (none_left : left w = 0) :
    w.caller.returned = true ∧ ∀ i < w.total, w.joiner i = .failed ∨ w.joiner i = .ended := by
  have stands := sound.stands
  obtain ⟨caller,joiners⟩ := Nat.add_eq_zero_iff.mp none_left
  constructor
  · cases at_ : w.caller with
    | spawning idx => rw [at_] at caller; cases caller
    | checking deadline received => rw [at_] at caller; cases caller
    | receiving deadline received =>
        rw [at_] at caller stands
        have short := stands.2.1
        simp only [callerLeft] at caller
        omega
    | finished ending => rfl
  · intro i inside
    have own := Finset.sum_eq_zero_iff.mp joiners i (Finset.mem_range.mpr inside)
    cases at_ : w.joiner i with
    | failed => exact .inl rfl
    | ended => exact .inr rfl
    | _ => rw [at_] at own; cases own

theorem reached_total (total timeout : Nat) (running : Nat → Bool) (moves : List Move) :
    (moves.foldl World.step (begun total timeout running)).total = total := by
  have both : Sound (moves.foldl World.step (begun total timeout running)) ∧
      (moves.foldl World.step (begun total timeout running)).total = total := by
    refine StepRuns.run_invariant (fun w => Sound w ∧ w.total = total) moves ⟨begun_sound total timeout running,rfl⟩ ?_
    rintro w move ⟨sound,same⟩
    have turn := step_turn w move
    exact ⟨turn_sound sound turn,(turn_less sound turn).1.trans same⟩
  exact both.2

structure Told (w : World) : Prop where
  sends : ∀ i, w.joiner i = .sending → (w.step (.joiner i)).joiner i = .ended
  joined : w.caller = .finished .joined → ∀ i < w.total, w.running i = false
  remaining : ∀ why remaining, w.caller = .finished (.detaching why remaining) →
    0 < remaining ∧ ((List.range w.total).filter w.running).length ≤ remaining
  disconnected : ∀ remaining, w.caller = .finished (.detaching .disconnected remaining) →
    (∃ i < w.total, w.joiner i = .failed) ∧ ∀ i < w.total, w.joiner i = .failed ∨ w.running i = false
  expires : ∀ deadline (first second : List Move), Waits w deadline → (∀ move ∈ first ++ second, Overdue deadline move) →
    (∀ part ∈ [first,second], ∃ spawned now, Move.caller spawned now ∈ part) →
    ((first ++ second).foldl World.step w).caller.returned = true

-- What the call tells is so: no thread that joins waits to report, all have ended where it says nothing, no more
-- are left than it says, and it gives up early only where a thread to join another could not be started; the
-- second turn behind the deadline ends it at the latest.
theorem joins_told (total timeout : Nat) (running : Nat → Bool) (moves : List Move) :
    Told (moves.foldl World.step (begun total timeout running)) := by
  have sound := reached_sound total timeout running moves
  generalize moves.foldl World.step (begun total timeout running) = w at sound ⊢
  have stands := sound.stands
  refine ⟨fun i at_ => sending_ends sound at_,fun at_ i inside => ?_,fun why remaining at_ => ?_,fun remaining at_ => ?_,
    fun deadline first second waits late turns => expires_returned waits first second late turns⟩
  · rw [at_] at stands
    have full : List.range w.total ⊆ w.taken := by
      have part : w.taken.Subperm (List.range w.total) := by
        refine (List.nodup_append.mp sound.once).2.1.subperm fun k member => List.mem_range.mpr ?_
        exact reports_inside sound (List.mem_append_right w.done member)
      exact (part.perm_of_length_le (by simpa using stands.1)).symm.subset
    have member : i ∈ w.reports := List.mem_append_right w.done (full (List.mem_range.mpr inside))
    exact sound.gone i (.inr (sound.reported i member))
  · rw [at_] at stands
    obtain ⟨rfl,short,_⟩ := stands
    exact ⟨by omega,running_few sound⟩
  · rw [at_] at stands
    obtain ⟨_,_,unstarted,quiet⟩ := stands
    refine ⟨(quiet rfl).2,fun i inside => ?_⟩
    cases here : w.joiner i with
    | unstarted => exact absurd ((unstarted i).mp here) (Nat.not_le_of_lt inside)
    | failed => exact .inl rfl
    | joining => exact absurd here ((quiet rfl).1 i).1
    | sending => exact absurd here ((quiet rfl).1 i).2
    | ended => exact .inr (sound.gone i (.inr here))

-- It does not wait for the deadline either: where the threads have ended, it comes back after so many
-- rounds, and no thread that joins stays behind.
theorem joins_return (total timeout : Nat) (running : Nat → Bool) (moves : List Move) (rounds : List (List Move))
    (gone : Gone (moves.foldl World.step (begun total timeout running))) (fair : Fair total rounds) (enough : 6*total+2 ≤ rounds.length) :
    ((moves ++ rounds.flatten).foldl World.step (begun total timeout running)).caller.returned = true ∧
      ∀ i < total, ((moves ++ rounds.flatten).foldl World.step (begun total timeout running)).joiner i = .failed ∨
        ((moves ++ rounds.flatten).foldl World.step (begun total timeout running)).joiner i = .ended := by
  have sound := reached_sound total timeout running moves
  have same := reached_total total timeout running moves
  rw [List.foldl_append]
  generalize moves.foldl World.step (begun total timeout running) = w at gone sound same ⊢
  have turns : ∀ round ∈ rounds, ∀ party ∈ Party.caller :: (List.range total).map Party.joiner,
      ∃ move ∈ round, partyTurn party move := by
    intro round member party parties
    obtain ⟨⟨spawned,now,calls⟩,joins⟩ := fair round member
    rcases List.mem_cons.mp parties with rfl | others
    · exact ⟨_,calls,spawned,now,rfl⟩
    · obtain ⟨i,inside,rfl⟩ := List.mem_map.mp others
      exact ⟨_,joins i (List.mem_range.mp inside),rfl⟩
  have short : left w ≤ rounds.length := Nat.le_trans (left_le sound) (same ▸ enough)
  have settles := settling_drains total
  obtain ⟨settled,none_left⟩ := FairRounds.rounds_rest settles ⟨same,sound,gone⟩ rounds (fun _ _ _ _ => trivial) turns short
  have returned := nothing_left settled.sound none_left
  rw [settled.total] at returned
  exact returned

-- A thread that has ended, and one round for each turn the call may need.
theorem joins_return_one :
    ((List.replicate 8 [Move.caller true 0,Move.joiner 0]).flatten.foldl World.step (begun 1 2000 fun _ => false)).caller.returned = true := by
  have fair : Fair 1 (List.replicate 8 [Move.caller true 0,Move.joiner 0]) := by
    intro round member
    rw [List.eq_of_mem_replicate member]
    refine ⟨⟨true,0,List.mem_cons_self⟩,fun i inside => ?_⟩
    have first : i = 0 := Nat.lt_one_iff.mp inside
    subst first
    exact List.mem_cons_of_mem _ List.mem_cons_self
  exact (joins_return 1 2000 (fun _ => false) [] _ (fun _ _ _ => rfl) fair (by simp)).1

end Perga.JoinDeadline

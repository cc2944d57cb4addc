import Perga.PtySession

namespace Perga.PidReuse
open PtySession

def isSignal : Happening → Bool
  | .hangup => true
  | .kill _ => true
  | _ => false

def isKill : Happening → Bool
  | .kill _ => true
  | _ => false

-- Once the child is reaped its pid may name another process.
def Harmless (w : World) : Prop :=
  ∀ earlier later, w.log = earlier ++ .reaped :: later → ∀ h ∈ later, isSignal h = false

structure Restrained (w : World) : Prop where
  once : w.log.countP isKill ≤ 1
  graced : ∀ earlier now later, w.log = earlier ++ .kill now :: later →
    ∃ t, .shutdownSeen t ∈ earlier ∧ t+sigkillGrace ≤ now

-- The writer's hangup finds the child unreaped.
def Unreaped (w : World) : Move → Prop
  | .writer _ => w.writer = .hangingUp → .reaped ∉ w.log
  | _ => True

def waiting : Waiter → Bool
  | .polling => true
  | .watching => true
  | .escalating => true
  | _ => false

-- The child is reaped by the waiter's last poll, and the kill happens between two polls.
structure Watched (w : World) : Prop where
  reaped : waiting w.waiter = true → .reaped ∉ w.log
  seen : ∀ t, w.shutdownSeenAt = some t → .shutdownSeen t ∈ w.log
  spared : w.escalated = false → w.log.countP isKill = 0
  restrained : Restrained w

theorem harmless_logged {w next : World} (harmless : Harmless w) {h : Happening} (log : next.log = w.log ++ [h]) :
    Harmless next ↔ (isSignal h = true → .reaped ∉ w.log) := by
  constructor
  · intro kept signal member
    obtain ⟨earlier,later,split⟩ := List.append_of_mem member
    have silent := kept earlier (later ++ [h]) (by rw [log,split,List.append_assoc,List.cons_append]) h (by simp)
    rw [signal] at silent
    cases silent
  · intro unreaped earlier later split
    rw [log] at split
    rcases StepRuns.grown_split split with ⟨rfl,_⟩ | ⟨rest,before,rfl⟩
    · simp
    · intro other member
      rcases List.mem_append.mp member with old | new
      · exact harmless earlier rest before other old
      · rw [List.mem_singleton.mp new]
        cases signal : isSignal h with
        | false => rfl
        | true => exact absurd (by rw [before]; simp) (unreaped signal)

theorem harmless_same {w next : World} (harmless : Harmless w) (log : next.log = w.log) : Harmless next := by
  rw [Harmless,log]
  exact harmless

theorem restrained_logged {w next : World} (restrained : Restrained w) {h : Happening} (other : isKill h = false)
    (log : next.log = w.log ++ [h]) : Restrained next := by
  refine ⟨?_,?_⟩
  · rw [log,List.countP_append,List.countP_singleton,other]
    exact restrained.once
  · intro earlier now later split
    rw [log] at split
    rcases StepRuns.grown_split split with ⟨_,_,rfl⟩ | ⟨rest,before,_⟩
    · cases other
    · exact restrained.graced earlier now rest before

theorem restrained_same {w next : World} (restrained : Restrained w) (log : next.log = w.log) : Restrained next :=
  ⟨by rw [log]; exact restrained.once,by rw [log]; exact restrained.graced⟩

-- A step that logs nothing and leaves the waiter's variables alone.
theorem aside_watched {w next : World} (watched : Watched w) (log : next.log = w.log)
    (waiter : waiting next.waiter = true → waiting w.waiter = true) (seen : next.shutdownSeenAt = w.shutdownSeenAt)
    (escalated : next.escalated = w.escalated) : Watched next ∧ (Harmless w → Harmless next) :=
  ⟨⟨fun waits => by rw [log]; exact watched.reaped (waiter waits),by rw [log,seen]; exact watched.seen,
      by rw [log,escalated]; exact watched.spared,restrained_same watched.restrained log⟩,
    fun harmless => harmless_same harmless log⟩

-- A step that logs anything but a kill.
theorem logged_watched {w next : World} (watched : Watched w) (h : Happening) (other : isKill h = false)
    (log : next.log = w.log ++ [h]) (waiter : waiting next.waiter = true → waiting w.waiter = true ∧ h ≠ .reaped)
    (seen : ∀ t, next.shutdownSeenAt = some t → w.shutdownSeenAt = some t ∨ h = .shutdownSeen t)
    (escalated : next.escalated = w.escalated) : Watched next := by
  refine ⟨fun waits member => ?_,fun t told => ?_,fun spared => ?_,restrained_logged watched.restrained other log⟩
  · rw [log] at member
    rcases List.mem_append.mp member with old | new
    · exact watched.reaped (waiter waits).1 old
    · exact (waiter waits).2 (List.mem_singleton.mp new).symm
  · rw [log]
    rcases seen t told with old | rfl
    · exact List.mem_append_left _ (watched.seen t old)
    · exact List.mem_append_right _ List.mem_cons_self
  · rw [log,List.countP_append,List.countP_singleton,other,watched.spared (escalated ▸ spared)]
    rfl

theorem writer_watched {w : World} (watched : Watched w) (written : Bool) :
    Watched (w.writerLoop written) ∧
      (Harmless w → (Harmless (w.writerLoop written) ↔ Unreaped w (.writer written))) := by
  have aside : ∀ next : World, next.log = w.log → next.waiter = w.waiter → next.shutdownSeenAt = w.shutdownSeenAt →
      next.escalated = w.escalated → w.writer ≠ .hangingUp →
      Watched next ∧ (Harmless w → (Harmless next ↔ Unreaped w (.writer written))) := by
    intro next log waiter seen escalated other
    have kept : Watched next ∧ (Harmless w → Harmless next) := aside_watched watched log (by rw [waiter]; exact id) seen escalated
    exact ⟨kept.1,fun harmless => iff_of_true (kept.2 harmless) fun hangup => absurd hangup other⟩
  unfold World.writerLoop
  cases at_ : w.writer with
  | hangingUp =>
      refine ⟨logged_watched watched .hangup rfl rfl (fun waits => ⟨waits,by simp⟩) (fun _ => .inl) rfl,fun harmless => ?_⟩
      rw [harmless_logged harmless (h := .hangup) rfl]
      exact ⟨fun unreaped _ => unreaped rfl,fun unreaped _ => unreaped at_⟩
  | receiving =>
      dsimp only
      split
      · exact aside _ rfl rfl rfl rfl (by rw [at_]; simp)
      · exact aside _ rfl rfl rfl rfl (by rw [at_]; simp)
      · exact aside _ rfl rfl rfl rfl (by rw [at_]; simp)
      · split
        · exact aside _ rfl rfl rfl rfl (by rw [at_]; simp)
        · exact aside _ rfl rfl rfl rfl (by rw [at_]; simp)
  | writing => exact aside _ rfl rfl rfl rfl (by rw [at_]; simp)
  | failing => exact aside _ rfl rfl rfl rfl (by rw [at_]; simp)
  | signalling => exact aside _ rfl rfl rfl rfl (by rw [at_]; simp)
  | closing => exact aside _ rfl rfl rfl rfl (by rw [at_]; simp)
  | finished => exact aside _ rfl rfl rfl rfl (by rw [at_]; simp)

-- The kill comes in a round whose poll returned nothing, so the child is unreaped.
theorem escalate_watched {w : World} (watched : Watched w) (at_ : w.waiter = .escalating) {t now : Nat}
    (seen : w.shutdownSeenAt = some t) (spared : w.escalated = false) (graced : sigkillGrace ≤ now-t) :
    Watched {w.escalate now with waiter := .polling} ∧
      (Harmless w → Harmless {w.escalate now with waiter := .polling}) := by
  have unreaped := watched.reaped (by rw [at_]; rfl)
  unfold World.escalate
  cases target : w.pgid.isSome || w.pid.isSome with
  | false =>
      exact ⟨⟨fun _ => unreaped,watched.seen,fun none => (by cases none),restrained_same watched.restrained rfl⟩,
        fun harmless => harmless_same harmless rfl⟩
  | true =>
      have first := watched.spared spared
      refine ⟨⟨?_,?_,fun none => (by cases none),?_,?_⟩,fun harmless => ?_⟩
      · intro _ member
        rcases List.mem_append.mp member with old | new
        · exact unreaped old
        · cases List.mem_singleton.mp new
      · intro t' seen'
        exact List.mem_append_left _ (watched.seen t' seen')
      · change (w.log ++ [_]).countP isKill ≤ 1
        rw [List.countP_append,first]
        exact Nat.le_refl 1
      · intro earlier now' later split
        rcases StepRuns.grown_split split with ⟨_,rfl,kill⟩ | ⟨rest,before,_⟩
        · injection kill with same
          refine ⟨t,watched.seen t seen,?_⟩
          unfold sigkillGrace at graced ⊢
          omega
        · exact watched.restrained.graced earlier now' rest before
      · exact (harmless_logged harmless (h := .kill now) rfl).mpr fun _ => unreaped

theorem waiter_watched {w : World} (watched : Watched w) (polled : Except String (Option UInt32)) (now : Nat) :
    Watched (w.waiterLoop polled now) ∧ (Harmless w → Harmless (w.waiterLoop polled now)) := by
  unfold World.waiterLoop
  cases at_ : w.waiter with
  | polling =>
      have waits : waiting w.waiter = true := by rw [at_]; rfl
      rcases polled with message | status
      · exact aside_watched watched rfl (fun _ => waits) rfl rfl
      · cases status with
        | none => exact aside_watched watched rfl (fun _ => waits) rfl rfl
        | some code =>
            exact ⟨logged_watched watched .reaped rfl rfl (fun waits => by cases waits) (fun _ => .inl) rfl,
              fun harmless => (harmless_logged harmless (h := .reaped) rfl).mpr fun signal => by cases signal⟩
  | watching =>
      have waits : waiting w.waiter = true := by rw [at_]; rfl
      dsimp only
      split
      · refine ⟨logged_watched watched (.shutdownSeen now) rfl rfl (fun _ => ⟨waits,by simp⟩) (fun t told => .inr ?_) rfl,
          fun harmless => (harmless_logged harmless (h := .shutdownSeen now) rfl).mpr fun signal => by cases signal⟩
        cases told
        rfl
      · exact aside_watched watched rfl (fun _ => waits) rfl rfl
  | escalating =>
      have waits : waiting w.waiter = true := by rw [at_]; rfl
      dsimp only
      split
      · rename_i t seen
        split
        · rename_i due
          obtain ⟨spared,graced⟩ := Bool.and_eq_true_iff.mp due
          exact escalate_watched watched at_ seen (by simpa using spared) (of_decide_eq_true graced)
        · exact aside_watched watched rfl (fun _ => waits) rfl rfl
      · exact aside_watched watched rfl (fun _ => waits) rfl rfl
  | joining result =>
      dsimp only
      split
      · exact aside_watched watched rfl (fun none => by cases none) rfl rfl
      · exact ⟨watched,id⟩
  | reporting result => exact aside_watched watched rfl (fun none => by cases none) rfl rfl
  | finished => exact ⟨watched,id⟩

theorem step_watched (w : World) (move : Move) (watched : Watched w) :
    Watched (w.step move) ∧ (Harmless w → (Harmless (w.step move) ↔ Unreaped w move)) := by
  have always : ∀ next : World, Watched next ∧ (Harmless w → Harmless next) →
      Watched next ∧ (Harmless w → (Harmless next ↔ True)) :=
    fun next kept => ⟨kept.1,fun harmless => iff_of_true (kept.2 harmless) trivial⟩
  have aside : ∀ next : World, next.log = w.log → next.waiter = w.waiter → next.shutdownSeenAt = w.shutdownSeenAt →
      next.escalated = w.escalated → Watched next ∧ (Harmless w → (Harmless next ↔ True)) :=
    fun next log waiter seen escalated =>
      always _ (aside_watched watched log (by rw [waiter]; exact id) seen escalated)
  cases move with
  | writer written => exact writer_watched watched written
  | waiter polled now => exact always _ (waiter_watched watched polled now)
  | reader result =>
      simp only [World.step,World.readerLoop]
      split
      · split
        · exact aside _ rfl rfl rfl rfl
        · exact aside _ rfl rfl rfl rfl
        · split <;> exact aside _ rfl rfl rfl rfl
      · exact aside _ rfl rfl rfl rfl
      · exact aside _ rfl rfl rfl rfl
      · exact aside _ rfl rfl rfl rfl
      · exact aside _ rfl rfl rfl rfl
  | command c => simp only [World.step]; split <;> exact aside _ rfl rfl rfl rfl
  | drop => simp only [World.step,World.dropStep]; split <;> exact aside _ rfl rfl rfl rfl
  | closeCommands => simp only [World.step]; split <;> exact aside _ rfl rfl rfl rfl
  | dropReceiver => simp only [World.step]; split <;> exact aside _ rfl rfl rfl rfl

theorem spawn_watched (pid pgid : Option Int) : Watched (spawn pid pgid) := by
  refine ⟨fun _ => List.not_mem_nil,fun t seen => (by cases seen),fun _ => rfl,Nat.zero_le _,?_⟩
  intro earlier now later split
  exact absurd split.symm (List.append_ne_nil_of_right_ne_nil _ (List.cons_ne_nil _ _))

-- In every interleaving: the kill is one, after a seen shutdown and its grace; and no
-- signal meets a reaped pid exactly when the writer never hangs up after the last poll.
theorem signals_unreaped (pid pgid : Option Int) (moves : List Move) :
    StepRuns.Throughout World.step Restrained (spawn pid pgid) moves ∧
      (StepRuns.Throughout World.step Harmless (spawn pid pgid) moves ↔
        StepRuns.Along World.step Unreaped (spawn pid pgid) moves) := by
  have watched : StepRuns.Along World.step (fun w _ => Watched w) (spawn pid pgid) moves :=
    StepRuns.run_along Watched moves (spawn_watched pid pgid) fun w move watched =>
      ⟨watched,(step_watched w move watched).1⟩
  have start : Harmless (spawn pid pgid) := by
    intro earlier later split
    exact absurd split.symm (List.append_ne_nil_of_right_ne_nil _ (List.cons_ne_nil _ _))
  refine ⟨?_,StepRuns.throughout_iff_along Harmless start watched fun w move harmless watched =>
    (step_watched w move watched).2 harmless⟩
  exact StepRuns.run_throughout Watched moves (spawn_watched pid pgid)
    (fun w move watched => (step_watched w move watched).1) fun w watched => watched.restrained

-- The child exits, the waiter reaps it, and the session is dropped afterwards.
def lateDrop : List Move :=
  [.waiter (.ok (some 0)) 0,.reader (.ok []),.reader (.ok []),.waiter (.ok none) 0,.waiter (.ok none) 0,
    .drop,.writer true,.writer true]

theorem late_drop_hangs_up :
    ¬ StepRuns.Throughout World.step Harmless (spawn (some 7) (some 7)) lateDrop ∧
      (lateDrop.foldl World.step (spawn (some 7) (some 7))).log = [.reaped,.hangup] := by
  have log : (lateDrop.foldl World.step (spawn (some 7) (some 7))).log = [.reaped,.hangup] := by decide
  refine ⟨fun all => ?_,log⟩
  cases StepRuns.throughout_last all [] [.hangup] log .hangup List.mem_cons_self

end Perga.PidReuse

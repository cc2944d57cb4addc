import Perga.FairRounds
import Perga.PidReuse

namespace Perga.PtyTeardown
open PtySession PidReuse

inductive Thread where
  | reader
  | writer
  | waiter
  deriving DecidableEq, Repr

def turnOf : Move → Option Thread
  | .reader _ => some .reader
  | .writer _ => some .writer
  | .waiter _ _ => some .waiter
  | _ => none

-- What a move says about the clock that the waiter reads.
def Clock (p : Nat → Prop) : Move → Prop
  | .waiter _ now => p now
  | _ => True

-- The child has gone: a poll finds its status or fails, and a read finds no more data.
def Gone : Move → Prop
  | .reader result => ∀ data, result = .ok data → data = []
  | .waiter polled _ => polled ≠ .ok none
  | _ => True

def Ended (w : World) : Prop := w.reader = .finished ∧ w.writer = .finished ∧ w.waiter = .finished

-- The writer may still come to the `Shutdown` in its queue.
def taking : Writer → Bool
  | .receiving => true
  | .writing => true
  | _ => false

def joined : Handle → Bool
  | .signalled => true
  | .released => true
  | _ => false

-- What both destructors have said by the time they join.
structure Announced (w : World) : Prop where
  told : joined w.handle = true → waiting w.waiter = true → w.shutdownSeenAt = none → 0 < w.shutdowns
  queued : w.handle ≠ .held → taking w.writer = true → .shutdown ∈ w.commands
  killed : w.escalated = true → (w.pgid.isSome || w.pid.isSome) = true → ∃ now, .kill now ∈ w.log

theorem spawn_announced (pid pgid : Option Int) : Announced (spawn pid pgid) :=
  ⟨fun wrong => (by cases wrong),fun wrong => absurd rfl wrong,fun wrong => (by cases wrong)⟩

-- A step of a thread that is not the waiter, or of the world outside.
theorem aside_announced {w next : World} (announced : Announced w) (handle : joined next.handle = true → joined w.handle = true ∨ 0 < next.shutdowns)
    (waiter : next.waiter = w.waiter) (seen : next.shutdownSeenAt = w.shutdownSeenAt) (shutdowns : w.shutdowns ≤ next.shutdowns)
    (queued : next.handle ≠ .held → taking next.writer = true → .shutdown ∈ next.commands)
    (escalated : next.escalated = w.escalated) (pgid : next.pgid = w.pgid) (pid : next.pid = w.pid)
    (log : ∀ h ∈ w.log, h ∈ next.log) : Announced next := by
  refine ⟨fun dropped waits unseen => ?_,queued,fun done named => ?_⟩
  · rcases handle dropped with before | here
    · exact Nat.lt_of_lt_of_le (announced.told before (waiter ▸ waits) (seen ▸ unseen)) shutdowns
    · exact here
  · rw [pgid,pid] at named
    obtain ⟨now,member⟩ := announced.killed (escalated ▸ done) named
    exact ⟨now,log _ member⟩

theorem reader_frame (w : World) (result : Except IoError (List UInt8)) : ∃ reader events obtained,
    w.readerLoop result = {w with reader := reader,events := events,obtained := obtained} := by
  unfold World.readerLoop
  split
  · split
    · exact ⟨_,_,_,rfl⟩
    · exact ⟨_,_,_,rfl⟩
    · split <;> exact ⟨_,_,_,rfl⟩
  · exact ⟨_,_,_,rfl⟩
  · exact ⟨_,_,_,rfl⟩
  · exact ⟨_,_,_,rfl⟩
  · exact ⟨_,_,_,rfl⟩

theorem writer_frame (w : World) (written : Bool) : ∃ writer commands events shutdowns log,
    w.writerLoop written = {w with writer := writer,commands := commands,events := events,shutdowns := shutdowns,log := log} := by
  unfold World.writerLoop
  split
  · split
    · exact ⟨_,_,_,_,_,rfl⟩
    · exact ⟨_,_,_,_,_,rfl⟩
    · exact ⟨_,_,_,_,_,rfl⟩
    · split <;> exact ⟨_,_,_,_,_,rfl⟩
  · exact ⟨_,_,_,_,_,rfl⟩
  · exact ⟨_,_,_,_,_,rfl⟩
  · exact ⟨_,_,_,_,_,rfl⟩
  · exact ⟨_,_,_,_,_,rfl⟩
  · exact ⟨_,_,_,_,_,rfl⟩
  · exact ⟨_,_,_,_,_,rfl⟩

theorem waiter_frame (w : World) (polled : Except String (Option UInt32)) (now : Nat) :
    ∃ waiter events shutdowns seen escalated log, w.waiterLoop polled now =
      {w with waiter := waiter,events := events,shutdowns := shutdowns,shutdownSeenAt := seen,escalated := escalated,log := log} := by
  unfold World.waiterLoop World.escalate
  split
  · split <;> exact ⟨_,_,_,_,_,_,rfl⟩
  · split <;> exact ⟨_,_,_,_,_,_,rfl⟩
  · split
    · split <;> exact ⟨_,_,_,_,_,_,rfl⟩
    · exact ⟨_,_,_,_,_,_,rfl⟩
  · split <;> exact ⟨_,_,_,_,_,_,rfl⟩
  · exact ⟨_,_,_,_,_,_,rfl⟩
  · exact ⟨_,_,_,_,_,_,rfl⟩

theorem reader_announced {w : World} (announced : Announced w) (result : Except IoError (List UInt8)) : Announced (w.readerLoop result) := by
  obtain ⟨reader,events,obtained,same⟩ := reader_frame w result
  rw [same]
  exact aside_announced announced .inl rfl rfl (Nat.le_refl _) announced.queued rfl rfl rfl fun _ => id

theorem writer_announced {w : World} (announced : Announced w) (written : Bool) : Announced (w.writerLoop written) := by
  have moved : ∀ next : World, next = {w with writer := next.writer,events := next.events} →
      (taking next.writer = true → taking w.writer = true) → Announced next := by
    intro next same still
    rw [same]
    exact aside_announced announced .inl rfl rfl (Nat.le_refl _) (fun begun takes => announced.queued begun (still takes))
      rfl rfl rfl fun _ => id
  unfold World.writerLoop
  cases at_ : w.writer with
  | receiving =>
      have queued : w.handle ≠ .held → .shutdown ∈ w.commands := fun begun => announced.queued begun (by rw [at_]; rfl)
      have taken : ∀ c rest, w.commands = c :: rest → c ≠ .shutdown → w.handle ≠ .held → .shutdown ∈ rest := by
        intro c rest commands other begun
        have member := queued begun
        rw [commands] at member
        exact (List.mem_cons.mp member).resolve_left fun same => other same.symm
      dsimp only
      split
      · rename_i commands
        exact aside_announced announced .inl rfl rfl (Nat.le_refl _) (fun begun _ => taken _ _ commands (by simp) begun) rfl rfl rfl fun _ => id
      · rename_i commands
        exact aside_announced announced .inl rfl rfl (Nat.le_refl _) (fun begun _ => taken _ _ commands (by simp) begun) rfl rfl rfl fun _ => id
      · exact aside_announced announced .inl rfl rfl (Nat.le_refl _) (fun _ wrong => by cases wrong) rfl rfl rfl fun _ => id
      · split
        · exact announced
        · exact moved _ rfl fun wrong => by cases wrong
  | writing => exact moved _ rfl fun _ => by rw [at_]; rfl
  | failing => exact moved _ rfl fun wrong => by cases wrong
  | hangingUp =>
      exact aside_announced announced .inl rfl rfl (Nat.le_refl _) (fun _ wrong => by cases wrong) rfl rfl rfl
        fun _ member => List.mem_append_left _ member
  | signalling =>
      exact aside_announced announced .inl rfl rfl (Nat.le_succ _) (fun _ wrong => by cases wrong) rfl rfl rfl fun _ => id
  | closing => exact moved _ rfl fun wrong => by cases wrong
  | finished => exact announced

theorem waiter_announced {w : World} (announced : Announced w) (polled : Except String (Option UInt32)) (now : Nat) :
    Announced (w.waiterLoop polled now) := by
  have later : ∀ next : World, next.handle = w.handle → next.commands = w.commands → next.writer = w.writer →
      next.escalated = w.escalated → next.pgid = w.pgid → next.pid = w.pid → (∀ h ∈ w.log, h ∈ next.log) →
      (joined w.handle = true → waiting next.waiter = true → next.shutdownSeenAt = none → 0 < next.shutdowns) → Announced next := by
    intro next handle commands writer escalated pgid pid log told
    refine ⟨by rwa [handle],by rw [handle,commands,writer]; exact announced.queued,?_⟩
    rw [escalated,pgid,pid]
    intro done named
    obtain ⟨time,member⟩ := announced.killed done named
    exact ⟨time,log _ member⟩
  unfold World.waiterLoop
  cases at_ : w.waiter with
  | polling =>
      dsimp only
      split
      · exact later _ rfl rfl rfl rfl rfl rfl (fun _ member => List.mem_append_left _ member) fun _ wrong => by cases wrong
      · exact later _ rfl rfl rfl rfl rfl rfl (fun _ => id) fun dropped _ => announced.told dropped (by rw [at_]; rfl)
      · exact later _ rfl rfl rfl rfl rfl rfl (fun _ => id) fun _ wrong => by cases wrong
  | watching =>
      dsimp only
      split
      · exact later _ rfl rfl rfl rfl rfl rfl (fun _ member => List.mem_append_left _ member) fun _ _ wrong => by cases wrong
      · exact later _ rfl rfl rfl rfl rfl rfl (fun _ => id) fun dropped _ => announced.told dropped (by rw [at_]; rfl)
  | escalating =>
      have still := announced.told
      rw [at_] at still
      dsimp only
      split
      · split
        · refine ⟨fun dropped _ => still dropped rfl,announced.queued,fun _ named => ⟨now,?_⟩⟩
          change (w.pgid.isSome || w.pid.isSome) = true at named
          simp only [World.escalate,named,if_true]
          exact List.mem_append_right _ List.mem_cons_self
        · exact later _ rfl rfl rfl rfl rfl rfl (fun _ => id) fun dropped _ => still dropped rfl
      · exact later _ rfl rfl rfl rfl rfl rfl (fun _ => id) fun dropped _ => still dropped rfl
  | joining result =>
      dsimp only
      split
      · exact later _ rfl rfl rfl rfl rfl rfl (fun _ => id) fun _ wrong => by cases wrong
      · exact announced
  | reporting result => exact later _ rfl rfl rfl rfl rfl rfl (fun _ => id) fun _ wrong => by cases wrong
  | finished => exact announced

theorem step_announced (w : World) (move : Move) (announced : Announced w) : Announced (w.step move) := by
  cases move with
  | reader result => exact reader_announced announced result
  | writer written => exact writer_announced announced written
  | waiter polled now => exact waiter_announced announced polled now
  | command c =>
      simp only [World.step]
      split
      · exact aside_announced announced .inl rfl rfl (Nat.le_refl _)
          (fun begun takes => List.mem_append_left _ (announced.queued begun takes)) rfl rfl rfl fun _ => id
      · exact announced
  | drop =>
      simp only [World.step,World.dropStep]
      split
      · exact aside_announced announced (fun wrong => by cases wrong) rfl rfl (Nat.le_refl _)
          (fun _ _ => List.mem_append_right _ List.mem_cons_self) rfl rfl rfl fun _ => id
      · rename_i at_
        exact aside_announced announced (fun _ => .inr (Nat.succ_pos _)) rfl rfl (Nat.le_succ _)
          (fun _ => announced.queued (by rw [at_]; simp)) rfl rfl rfl fun _ => id
      · rename_i at_
        exact aside_announced announced (fun _ => .inl (by rw [at_]; rfl)) rfl rfl (Nat.le_refl _)
          (fun _ => announced.queued (by rw [at_]; simp)) rfl rfl rfl fun _ => id
      · exact announced
  | closeCommands => simp only [World.step]; split <;> exact aside_announced announced .inl rfl rfl (Nat.le_refl _) announced.queued rfl rfl rfl fun _ => id
  | dropReceiver => simp only [World.step]; split <;> exact aside_announced announced .inl rfl rfl (Nat.le_refl _) announced.queued rfl rfl rfl fun _ => id

theorem step_joined (w : World) (move : Move) (stopping : joined w.handle = true) : joined (w.step move).handle = true := by
  cases move with
  | reader result =>
      obtain ⟨_,_,_,same⟩ := reader_frame w result
      rwa [World.step,same]
  | writer written =>
      obtain ⟨_,_,_,_,_,same⟩ := writer_frame w written
      rwa [World.step,same]
  | waiter polled now =>
      obtain ⟨_,_,_,_,_,_,same⟩ := waiter_frame w polled now
      rwa [World.step,same]
  | command c => simp only [World.step]; split <;> exact stopping
  | drop =>
      simp only [World.step,World.dropStep]
      split
      · rename_i at_
        rw [at_] at stopping
        cases stopping
      · rfl
      · rfl
      · exact stopping
  | closeCommands => simp only [World.step]; split <;> exact stopping
  | dropReceiver => simp only [World.step]; split <;> exact stopping

-- A destructor has come to its join.
structure Stopping (w : World) : Prop where
  announced : Announced w
  joining : joined w.handle = true

theorem step_stopping (w : World) (move : Move) (stopping : Stopping w) : Stopping (w.step move) :=
  ⟨step_announced w move stopping.announced,step_joined w move stopping.joining⟩

-- What the waiter alone writes.
theorem others_watch (w : World) (move : Move) (other : turnOf move ≠ some .waiter) :
    (w.step move).waiter = w.waiter ∧ (w.step move).shutdownSeenAt = w.shutdownSeenAt ∧ (w.step move).escalated = w.escalated := by
  cases move with
  | reader result =>
      obtain ⟨_,_,_,same⟩ := reader_frame w result
      rw [World.step,same]
      exact ⟨rfl,rfl,rfl⟩
  | writer written =>
      obtain ⟨_,_,_,_,_,same⟩ := writer_frame w written
      rw [World.step,same]
      exact ⟨rfl,rfl,rfl⟩
  | waiter polled now => exact absurd rfl other
  | command c => simp only [World.step]; split <;> exact ⟨rfl,rfl,rfl⟩
  | drop => simp only [World.step,World.dropStep]; split <;> exact ⟨rfl,rfl,rfl⟩
  | closeCommands => simp only [World.step]; split <;> exact ⟨rfl,rfl,rfl⟩
  | dropReceiver => simp only [World.step]; split <;> exact ⟨rfl,rfl,rfl⟩

-- The waiter's turns until `done`, or until it leaves its loop.
def watchLeft (done : World → Bool) (rank : Waiter → Nat) (w : World) : Nat :=
  if waiting w.waiter && !done w then rank w.waiter else 0

theorem watch_zero {done : World → Bool} {rank : Waiter → Nat} (positive : ∀ x, waiting x = true → 0 < rank x) {w : World} :
    watchLeft done rank w = 0 ↔ (waiting w.waiter = true → done w = true) := by
  unfold watchLeft
  cases waits : waiting w.waiter with
  | false => simp
  | true =>
      have ranked := positive _ waits
      cases done w with
      | false => simp; omega
      | true => simp

theorem left_loop (w : World) (polled : Except String (Option UInt32)) (now : Nat) (out : waiting w.waiter = false) :
    waiting (w.waiterLoop polled now).waiter = false := by
  unfold World.waiterLoop
  cases at_ : w.waiter with
  | polling => rw [at_] at out; cases out
  | watching => rw [at_] at out; cases out
  | escalating => rw [at_] at out; cases out
  | joining result => dsimp only; split <;> first | rfl | (rw [at_]; rfl)
  | reporting result => rfl
  | finished => simp only [at_]; rfl

theorem watch_drains {good : World → Prop} {allowed : Move → Prop} (done : World → Bool) (rank : Waiter → Nat)
    (keeps : ∀ w move, good w → allowed move → good (w.step move))
    (aside : ∀ w move, turnOf move ≠ some .waiter → done (w.step move) = done w)
    (stays : ∀ w polled now, done w = true → done (w.waiterLoop polled now) = true)
    (positive : ∀ x, waiting x = true → 0 < rank x)
    (works : ∀ w polled now, good w → allowed (.waiter polled now) → waiting w.waiter = true → done w = false →
      waiting (w.waiterLoop polled now).waiter = true → done (w.waiterLoop polled now) = false →
      rank (w.waiterLoop polled now).waiter < rank w.waiter) :
    FairRounds.Drains World.step good allowed [()] (fun _ move => turnOf move = some .waiter ∧ allowed move)
      (fun w _ => 0 < watchLeft done rank w) (watchLeft done rank) := by
  have turn : ∀ w polled now, good w → allowed (.waiter polled now) → 0 < watchLeft done rank w →
      watchLeft done rank (w.waiterLoop polled now) < watchLeft done rank w := by
    intro w polled now fine inside busy
    have open_ : waiting w.waiter = true ∧ done w = false := by
      unfold watchLeft at busy
      split at busy
      · rename_i both
        simpa using both
      · cases busy
    rcases Nat.eq_zero_or_pos (watchLeft done rank (w.waiterLoop polled now)) with rest | more
    · rwa [rest]
    · have still : waiting (w.waiterLoop polled now).waiter = true ∧ done (w.waiterLoop polled now) = false := by
        unfold watchLeft at more
        split at more
        · rename_i both
          simpa using both
        · cases more
      have fewer := works w polled now fine inside open_.1 open_.2 still.1 still.2
      unfold watchLeft
      simpa [open_,still] using fewer
  have other : ∀ w move, turnOf move ≠ some .waiter → watchLeft done rank (w.step move) = watchLeft done rank w := by
    intro w move own
    unfold watchLeft
    rw [(others_watch w move own).1,aside w move own]
  refine ⟨keeps,fun w move fine inside => ?_,fun w fine busy => ⟨(),List.mem_cons_self,busy⟩,fun w move _ fine busy own => ?_,
    fun w move _ _ _ busy same => by rw [same]; exact busy⟩
  · by_cases own : turnOf move = some .waiter
    · cases move with
      | waiter polled now =>
          rcases Nat.eq_zero_or_pos (watchLeft done rank w) with rest | busy
          · refine Nat.le_of_eq ?_
            rw [rest]
            refine (watch_zero positive).mpr fun waits => ?_
            cases out : waiting w.waiter with
            | false => rw [World.step,left_loop w polled now out] at waits; cases waits
            | true => exact stays w polled now ((watch_zero positive).mp rest out)
          · exact Nat.le_of_lt (turn w polled now fine inside busy)
      | _ => cases own
    · exact Nat.le_of_eq (other w move own)
  · cases move with
    | waiter polled now => exact turn w polled now fine own.2 busy
    | _ => cases own.1

theorem seen_stays (w : World) (polled : Except String (Option UInt32)) (now : Nat) {t : Nat} (seen : w.shutdownSeenAt = some t) :
    (w.waiterLoop polled now).shutdownSeenAt = some t := by
  unfold World.waiterLoop World.escalate
  split
  · split <;> exact seen
  · split
    · rename_i unseen _
      rw [seen] at unseen
      cases unseen
    · exact seen
  · split
    · split <;> exact seen
    · exact seen
  · split <;> exact seen
  · exact seen
  · exact seen

theorem escalated_stays (w : World) (polled : Except String (Option UInt32)) (now : Nat) (done : w.escalated = true) :
    (w.waiterLoop polled now).escalated = true := by
  unfold World.waiterLoop World.escalate
  split
  · split <;> exact done
  · split <;> exact done
  · split
    · split
      · rfl
      · exact done
    · exact done
  · split <;> exact done
  · exact done
  · exact done

def settleRank : Waiter → Nat
  | .watching => 1
  | .polling => 2
  | .escalating => 3
  | _ => 0

def graceRank : Waiter → Nat
  | .escalating => 1
  | .watching => 2
  | .polling => 3
  | _ => 0

theorem settle_positive (x : Waiter) (waits : waiting x = true) : 0 < settleRank x := by
  cases x with
  | polling => decide
  | watching => decide
  | escalating => decide
  | _ => cases waits

theorem grace_positive (x : Waiter) (waits : waiting x = true) : 0 < graceRank x := by
  cases x with
  | polling => decide
  | watching => decide
  | escalating => decide
  | _ => cases waits

theorem settles : FairRounds.Drains World.step Stopping (fun _ => True) [()] (fun _ move => turnOf move = some .waiter ∧ True)
    (fun w _ => 0 < watchLeft (fun w => w.shutdownSeenAt.isSome) settleRank w)
    (watchLeft (fun w => w.shutdownSeenAt.isSome) settleRank) := by
  refine watch_drains _ _ (fun w move stopping _ => step_stopping w move stopping) ?_ ?_ settle_positive ?_
  · intro w move other
    rw [(others_watch w move other).2.1]
  · intro w polled now seen
    obtain ⟨t,told⟩ := Option.isSome_iff_exists.mp seen
    rw [seen_stays w polled now told]
    rfl
  · intro w polled now stopping _ waits unseen still unheard
    have none_seen : w.shutdownSeenAt = none := Option.isSome_eq_false_iff.mp unseen |> Option.isNone_iff_eq_none.mp
    have signals := stopping.announced.told stopping.joining waits none_seen
    unfold World.waiterLoop at still unheard ⊢
    cases at_ : w.waiter with
    | polling =>
        simp only [at_] at still unheard ⊢
        split at still
        · cases still
        · exact Nat.lt_succ_self 1
        · cases still
    | watching =>
        simp only [at_,none_seen] at unheard
        split at unheard
        · cases unheard
        · rename_i none_left
          cases counted : w.shutdowns with
          | zero => omega
          | succ n => exact (none_left n rfl counted).elim
    | escalating => simp only [none_seen,settleRank]; decide
    | _ => rw [at_] at waits; cases waits

-- The shutdown was seen long enough before `late`.
structure Graced (late : Nat) (w : World) : Prop where
  stopping : Stopping w
  seen : waiting w.waiter = true → ∃ t, w.shutdownSeenAt = some t ∧ t+sigkillGrace ≤ late

theorem step_graced {late : Nat} (w : World) (move : Move) (graced : Graced late w) : Graced late (w.step move) := by
  refine ⟨step_stopping w move graced.stopping,fun waits => ?_⟩
  by_cases own : turnOf move = some .waiter
  · cases move with
    | waiter polled now =>
        cases out : waiting w.waiter with
        | false => rw [World.step,left_loop w polled now out] at waits; cases waits
        | true =>
            obtain ⟨t,seen,early⟩ := graced.seen out
            exact ⟨t,seen_stays w polled now seen,early⟩
    | _ => cases own
  · obtain ⟨waiter,seen,_⟩ := others_watch w move own
    rw [seen]
    exact graced.seen (waiter ▸ waits)

theorem kills {late : Nat} : FairRounds.Drains World.step (Graced late) (Clock (late ≤ ·)) [()]
    (fun _ move => turnOf move = some .waiter ∧ Clock (late ≤ ·) move) (fun w _ => 0 < watchLeft World.escalated graceRank w)
    (watchLeft World.escalated graceRank) := by
  refine watch_drains _ _ (fun w move graced _ => step_graced w move graced)
    (fun w move other => (others_watch w move other).2.2) escalated_stays grace_positive ?_
  · intro w polled now graced after waits spared still unkilled
    obtain ⟨t,seen,early⟩ := graced.seen waits
    change late ≤ now at after
    unfold World.waiterLoop at still unkilled ⊢
    cases at_ : w.waiter with
    | polling =>
        simp only [at_] at still ⊢
        split at still
        · cases still
        · exact Nat.lt_succ_self 2
        · cases still
    | watching => simp only [seen,graceRank]; decide
    | escalating =>
        have due : (!w.escalated && decide (sigkillGrace ≤ now-t)) = true := by
          rw [spared]
          simp only [Bool.not_false,Bool.true_and,decide_eq_true_eq]
          omega
        simp only [at_,seen,due,if_true,World.escalate] at unkilled
        cases unkilled
    | _ => rw [at_] at waits; cases waits

-- How many commands the writer takes before it comes to a `Shutdown`.
def ahead (commands : List TransportCommand) : Nat := (commands.takeWhile fun c => c ≠ .shutdown).length

theorem ahead_behind {commands : List TransportCommand} (member : .shutdown ∈ commands) (c : TransportCommand) :
    ahead (commands ++ [c]) = ahead commands := by
  unfold ahead
  induction commands with
  | nil => cases member
  | cons first rest ih =>
      by_cases shutdown : first = .shutdown
      · subst shutdown
        simp
      · have later := ih ((List.mem_cons.mp member).resolve_left fun same => shutdown same.symm)
        simp only [List.cons_append,List.takeWhile_cons,shutdown,ne_eq,not_false_eq_true,decide_true,if_true,List.length_cons]
        simpa using later

theorem ahead_next {c : TransportCommand} (other : c ≠ .shutdown) (rest : List TransportCommand) : ahead (c :: rest) = ahead rest+1 := by
  simp [ahead,other]

theorem ahead_le (commands : List TransportCommand) : ahead commands ≤ commands.length := (List.takeWhile_sublist _).length_le

-- How many turns each thread still needs, once the child has gone.
def readerLeft : Reader → Nat
  | .sending _ => 4
  | .reading => 3
  | .failing => 2
  | .leaving => 1
  | .finished => 0

def writerLeft (w : World) : Nat :=
  match w.writer with
  | .writing => 5+2*ahead w.commands
  | .receiving => 4+2*ahead w.commands
  | .hangingUp => 3
  | .signalling => 2
  | .failing => 2
  | .closing => 1
  | .finished => 0

def waiterLeft : Waiter → Nat
  | .watching => 5
  | .escalating => 4
  | .polling => 3
  | .joining _ => 2
  | .reporting _ => 1
  | .finished => 0

def left (w : World) : Nat := readerLeft w.reader+writerLeft w+waiterLeft w.waiter

theorem left_bounded (w : World) : left w ≤ 14+2*w.commands.length := by
  have read : readerLeft w.reader ≤ 4 := by
    unfold readerLeft
    split <;> decide
  have wait : waiterLeft w.waiter ≤ 5 := by
    unfold waiterLeft
    split <;> decide
  have queue := ahead_le w.commands
  have write : writerLeft w ≤ 5+2*w.commands.length := by
    unfold writerLeft
    split <;> omega
  unfold left
  omega

theorem left_ended {w : World} (rest : left w = 0) : Ended w := by
  have parts : readerLeft w.reader = 0 ∧ writerLeft w = 0 ∧ waiterLeft w.waiter = 0 := by
    unfold left at rest
    omega
  obtain ⟨read,write,wait⟩ := parts
  refine ⟨?_,?_,?_⟩
  · cases at_ : w.reader <;> rw [at_] at read <;> first | rfl | cases read
  · unfold writerLeft at write
    split at write
    · omega
    · omega
    · cases write
    · cases write
    · cases write
    · cases write
    · assumption
  · cases at_ : w.waiter <;> rw [at_] at wait <;> first | rfl | cases wait

theorem reader_turn {w : World} {result : Except IoError (List UInt8)} (gone : Gone (.reader result)) (going : w.reader ≠ .finished) :
    readerLeft (w.readerLoop result).reader < readerLeft w.reader := by
  unfold World.readerLoop
  cases at_ : w.reader with
  | reading =>
      dsimp only
      split
      · exact (by decide : 1 < 3)
      · rename_i more
        exact absurd (gone _ rfl) more
      · split
        · exact (by decide : 1 < 3)
        · exact (by decide : 2 < 3)
  | sending data =>
      dsimp only
      split
      · exact (by decide : 3 < 4)
      · exact (by decide : 1 < 4)
  | failing => exact (by decide : 1 < 2)
  | leaving => exact (by decide : 0 < 1)
  | finished => exact absurd at_ going

theorem stopping_queued {w : World} (stopping : Stopping w) (takes : taking w.writer = true) : .shutdown ∈ w.commands := by
  refine stopping.announced.queued (fun held => ?_) takes
  have joining := stopping.joining
  rw [held] at joining
  cases joining

theorem writer_turn {w : World} (stopping : Stopping w) (written : Bool) (going : w.writer ≠ .finished) :
    writerLeft (w.writerLoop written) < writerLeft w := by
  unfold World.writerLoop
  cases at_ : w.writer with
  | receiving =>
      have member := stopping_queued stopping (by rw [at_]; rfl)
      dsimp only
      split
      · rename_i commands
        simp only [writerLeft,at_,commands,ahead_next (c := .write _) (by simp)]
        omega
      · rename_i commands
        simp only [writerLeft,at_,commands,ahead_next (c := .resize _) (by simp)]
        omega
      · simp only [writerLeft,at_]
        omega
      · rename_i commands
        rw [commands] at member
        cases member
  | writing =>
      simp only [writerLeft,at_]
      cases written with
      | true => simp
      | false => simp; omega
  | failing => simp [writerLeft,at_]
  | hangingUp => simp [writerLeft,at_]
  | signalling => simp [writerLeft,at_]
  | closing => simp [writerLeft,at_]
  | finished => exact absurd at_ going

theorem waiter_turn {w : World} {polled : Except String (Option UInt32)} (now : Nat) (gone : Gone (.waiter polled now))
    (able : w.reader = .finished ∨ waiting w.waiter = true ∨ ∃ result, w.waiter = .reporting result) (going : w.waiter ≠ .finished) :
    waiterLeft (w.waiterLoop polled now).waiter < waiterLeft w.waiter := by
  unfold World.waiterLoop
  cases at_ : w.waiter with
  | polling =>
      dsimp only
      split
      · exact (by decide : 2 < 3)
      · exact absurd rfl gone
      · exact (by decide : 2 < 3)
  | watching =>
      dsimp only
      split <;> exact (by decide : 4 < 5)
  | escalating =>
      dsimp only
      split
      · split <;> exact (by decide : 3 < 4)
      · exact (by decide : 3 < 4)
  | joining result =>
      have finished : w.reader = .finished := able.resolve_right (by rw [at_]; simp [waiting])
      simp only [finished,if_true]
      exact (by decide : 1 < 2)
  | reporting result => exact (by decide : 0 < 1)
  | finished => exact absurd at_ going

-- What a move leaves alone.
structure Idle (w next : World) : Prop where
  left : left next = left w
  reader : next.reader = w.reader
  writer : next.writer = w.writer
  waiter : next.waiter = w.waiter

theorem idle_same {w next : World} (commands : next.commands = w.commands) (reader : next.reader = w.reader)
    (writer : next.writer = w.writer) (waiter : next.waiter = w.waiter) : Idle w next :=
  ⟨by rw [PtyTeardown.left,PtyTeardown.left,writerLeft,writerLeft,commands,reader,writer,waiter],reader,writer,waiter⟩

-- The thread's turn gets it further; the waiter's does not while it waits for the reader.
def due (w : World) : Thread → Prop
  | .reader => w.reader ≠ .finished
  | .writer => w.writer ≠ .finished
  | .waiter => w.waiter ≠ .finished ∧ (w.reader = .finished ∨ waiting w.waiter = true ∨ ∃ result, w.waiter = .reporting result)

theorem due_turn {w : World} (stopping : Stopping w) {thread : Thread} (owed : due w thread) (move : Move)
    (own : turnOf move = some thread) (gone : Gone move) : left (w.step move) < left w := by
  cases move with
  | reader result =>
      cases own
      have fewer := reader_turn gone owed
      obtain ⟨_,_,_,same⟩ := reader_frame w result
      rw [same] at fewer
      rw [World.step,same]
      exact Nat.add_lt_add_right (Nat.add_lt_add_right fewer _) _
  | writer written =>
      cases own
      have fewer := writer_turn stopping written owed
      obtain ⟨_,_,_,_,_,same⟩ := writer_frame w written
      rw [same] at fewer
      rw [World.step,same]
      exact Nat.add_lt_add_right (Nat.add_lt_add_left fewer _) _
  | waiter polled now =>
      cases own
      have fewer := waiter_turn now gone owed.2 owed.1
      obtain ⟨_,_,_,_,_,_,same⟩ := waiter_frame w polled now
      rw [same] at fewer
      rw [World.step,same]
      exact Nat.add_lt_add_left fewer _
  | _ => cases own

theorem stuck_waiter {w : World} (stuck : ¬ due w .waiter) (polled : Except String (Option UInt32)) (now : Nat) :
    w.waiterLoop polled now = w := by
  unfold World.waiterLoop
  cases at_ : w.waiter with
  | joining result => exact if_neg fun rests => stuck ⟨by rw [at_]; simp,.inl rests⟩
  | reporting result => exact absurd ⟨by rw [at_]; simp,.inr (.inr ⟨result,at_⟩)⟩ stuck
  | finished => rfl
  | _ => exact absurd ⟨by rw [at_]; simp,.inr (.inl (by rw [at_]; rfl))⟩ stuck

theorem undue_idle {w : World} (stopping : Stopping w) (move : Move) (undue : ∀ thread, turnOf move = some thread → ¬ due w thread) :
    Idle w (w.step move) := by
  cases move with
  | reader result =>
      have rests : w.reader = .finished := Classical.not_not.mp (undue .reader rfl)
      refine idle_same ?_ ?_ ?_ ?_ <;> simp only [World.step,World.readerLoop,rests]
  | writer written =>
      have rests : w.writer = .finished := Classical.not_not.mp (undue .writer rfl)
      refine idle_same ?_ ?_ ?_ ?_ <;> simp only [World.step,World.writerLoop,rests]
  | waiter polled now =>
      rw [World.step,stuck_waiter (undue .waiter rfl)]
      exact idle_same rfl rfl rfl rfl
  | command c =>
      simp only [World.step]
      split
      · refine ⟨?_,rfl,rfl,rfl⟩
        unfold left writerLeft
        cases at_ : w.writer with
        | receiving => simp only [ahead_behind (stopping_queued stopping (by rw [at_]; rfl))]
        | writing => simp only [ahead_behind (stopping_queued stopping (by rw [at_]; rfl))]
        | _ => rfl
      · exact idle_same rfl rfl rfl rfl
  | drop =>
      have joining := stopping.joining
      simp only [World.step,World.dropStep]
      split
      · rename_i at_
        rw [at_] at joining
        cases joining
      · exact idle_same rfl rfl rfl rfl
      · exact idle_same rfl rfl rfl rfl
      · exact idle_same rfl rfl rfl rfl
  | closeCommands => simp only [World.step]; split <;> exact idle_same rfl rfl rfl rfl
  | dropReceiver => simp only [World.step]; split <;> exact idle_same rfl rfl rfl rfl

theorem turn_shrinks {w : World} (stopping : Stopping w) (move : Move) (gone : Gone move) :
    left (w.step move) < left w ∨ Idle w (w.step move) := by
  by_cases someone : ∃ thread, turnOf move = some thread ∧ due w thread
  · obtain ⟨thread,own,owed⟩ := someone
    exact .inl (due_turn stopping owed move own gone)
  · exact .inr (undue_idle stopping move fun thread own owed => someone ⟨thread,own,owed⟩)

def threads : List Thread := [.reader,.writer,.waiter]

theorem closes : FairRounds.Drains World.step Stopping Gone threads (fun thread move => turnOf move = some thread ∧ Gone move) due left := by
  refine ⟨fun w move stopping _ => step_stopping w move stopping,fun w move stopping gone => ?_,fun w stopping busy => ?_,
    fun w move thread stopping owed own => due_turn stopping owed move own.1 own.2,fun w move thread stopping gone owed same => ?_⟩
  · rcases turn_shrinks stopping move gone with fewer | idle
    · exact Nat.le_of_lt fewer
    · exact Nat.le_of_eq idle.left
  · by_cases reads : w.reader = .finished
    · by_cases writes : w.writer = .finished
      · refine ⟨.waiter,by simp [threads],fun waits => ?_,.inl reads⟩
        unfold left writerLeft at busy
        rw [reads,writes,waits] at busy
        cases busy
      · exact ⟨.writer,by simp [threads],writes⟩
    · exact ⟨.reader,by simp [threads],reads⟩
  · rcases turn_shrinks stopping move gone with fewer | idle
    · rw [same] at fewer
      exact absurd fewer (Nat.lt_irrefl _)
    · cases thread with
      | reader => exact fun rests => owed (idle.reader ▸ rests)
      | writer => exact fun rests => owed (idle.writer ▸ rests)
      | waiter =>
          unfold due
          rw [idle.reader,idle.waiter]
          exact owed

def Early (early : Nat) (w : World) : Prop := ∀ t, w.shutdownSeenAt = some t → t ≤ early

theorem step_early {early : Nat} (w : World) (move : Move) (clock : Clock (· ≤ early) move) (kept : Early early w) : Early early (w.step move) := by
  by_cases own : turnOf move = some .waiter
  · cases move with
    | waiter polled now =>
        have same : ∀ next : World, next.shutdownSeenAt = w.shutdownSeenAt → Early early next := fun next seen => by rwa [Early,seen]
        simp only [World.step,World.waiterLoop]
        split
        · split <;> exact same _ rfl
        · split
          · intro t seen
            cases seen
            exact clock
          · exact same _ rfl
        · split
          · split <;> exact same _ rfl
          · exact same _ rfl
        · split <;> exact same _ rfl
        · exact same _ rfl
        · exact same _ rfl
    | _ => cases own
  · rw [Early,(others_watch w move own).2.1]
    exact kept

theorem run_early {early : Nat} {w : World} (kept : Early early w) (moves : List Move) (before : ∀ move ∈ moves, Clock (· ≤ early) move) :
    Early early (moves.foldl World.step w) := by
  induction moves generalizing w with
  | nil => exact kept
  | cons move rest ih =>
      exact ih (step_early w move (before move List.mem_cons_self) kept) fun other member => before other (List.mem_cons_of_mem move member)

theorem step_ids (w : World) (move : Move) : (w.step move).pid = w.pid ∧ (w.step move).pgid = w.pgid := by
  cases move with
  | reader result =>
      obtain ⟨_,_,_,same⟩ := reader_frame w result
      rw [World.step,same]
      exact ⟨rfl,rfl⟩
  | writer written =>
      obtain ⟨_,_,_,_,_,same⟩ := writer_frame w written
      rw [World.step,same]
      exact ⟨rfl,rfl⟩
  | waiter polled now =>
      obtain ⟨_,_,_,_,_,_,same⟩ := waiter_frame w polled now
      rw [World.step,same]
      exact ⟨rfl,rfl⟩
  | command c => simp only [World.step]; split <;> exact ⟨rfl,rfl⟩
  | drop => simp only [World.step,World.dropStep]; split <;> exact ⟨rfl,rfl⟩
  | closeCommands => simp only [World.step]; split <;> exact ⟨rfl,rfl⟩
  | dropReceiver => simp only [World.step]; split <;> exact ⟨rfl,rfl⟩

-- Rounds of a waiter that sees the shutdown, rounds of one that sees its grace over, and rounds of all
-- three threads from when the child has gone. Before that the other two may be stuck in a read or a
-- write, and any other move may stand between the turns.
structure Rounds (early : Nat) where
  settling : List (List Move)
  patient : List (List Move)
  closing : List (List Move)
  polls : ∀ round ∈ settling ++ patient, ∃ move ∈ round, turnOf move = some .waiter
  turns : ∀ round ∈ closing, ∀ thread ∈ threads, ∃ move ∈ round, turnOf move = some thread
  before : ∀ round ∈ settling, ∀ move ∈ round, Clock (· ≤ early) move
  after : ∀ round ∈ patient, ∀ move ∈ round, Clock (early+sigkillGrace ≤ ·) move
  gone : ∀ round ∈ closing, ∀ move ∈ round, Gone move
  settles : 3 ≤ settling.length
  graces : 3 ≤ patient.length

namespace Rounds
variable {early : Nat}

def settled (rounds : Rounds early) (w : World) : World := rounds.settling.flatten.foldl World.step w
def graced (rounds : Rounds early) (w : World) : World := rounds.patient.flatten.foldl World.step (rounds.settled w)
def closed (rounds : Rounds early) (w : World) : World := rounds.closing.flatten.foldl World.step (rounds.graced w)

theorem watch_bounded {done : World → Bool} {rank : Waiter → Nat} (three : ∀ x, rank x ≤ 3) (w : World) : watchLeft done rank w ≤ 3 := by
  unfold watchLeft
  split
  · exact three _
  · exact Nat.zero_le 3

theorem settled_graced (rounds : Rounds early) {w : World} (stopping : Stopping w) (kept : Early early w) :
    Graced (early+sigkillGrace) (rounds.settled w) := by
  have bounded : watchLeft (fun w => w.shutdownSeenAt.isSome) settleRank w ≤ rounds.settling.length :=
    Nat.le_trans (watch_bounded (fun x => by unfold settleRank; split <;> decide) w) rounds.settles
  obtain ⟨still,rest⟩ := FairRounds.rounds_rest PtyTeardown.settles stopping rounds.settling (fun _ _ _ _ => trivial)
    (fun round member _ _ => by
      obtain ⟨move,inside,own⟩ := rounds.polls round (by simp [member])
      exact ⟨move,inside,own,trivial⟩) bounded
  have times : Early early (rounds.settled w) := run_early kept _ fun move member => by
    obtain ⟨round,inside,there⟩ := List.mem_flatten.mp member
    exact rounds.before round inside move there
  refine ⟨still,fun waits => ?_⟩
  obtain ⟨t,seen⟩ := Option.isSome_iff_exists.mp ((watch_zero settle_positive).mp rest waits)
  exact ⟨t,seen,Nat.add_le_add_right (times t seen) _⟩

theorem graced_killed (rounds : Rounds early) {w : World} (stopping : Stopping w) (kept : Early early w) :
    Stopping (rounds.graced w) ∧ (waiting (rounds.graced w).waiter = true → (rounds.graced w).escalated = true) := by
  have bounded : watchLeft World.escalated graceRank (rounds.settled w) ≤ rounds.patient.length :=
    Nat.le_trans (watch_bounded (fun x => by unfold graceRank; split <;> decide) _) rounds.graces
  obtain ⟨still,rest⟩ := FairRounds.rounds_rest kills (rounds.settled_graced stopping kept) rounds.patient rounds.after
    (fun round member _ _ => by
      obtain ⟨move,inside,own⟩ := rounds.polls round (by simp [member])
      exact ⟨move,inside,own,rounds.after round member move inside⟩) bounded
  exact ⟨still.stopping,(watch_zero grace_positive).mp rest⟩

theorem closed_ended (rounds : Rounds early) {w : World} (stopping : Stopping w) (kept : Early early w)
    (enough : 14+2*(rounds.graced w).commands.length ≤ rounds.closing.length) : Ended (rounds.closed w) := by
  obtain ⟨still,_⟩ := rounds.graced_killed stopping kept
  have rest := (FairRounds.rounds_rest closes still rounds.closing rounds.gone (fun round member thread known => by
    obtain ⟨move,inside,own⟩ := rounds.turns round member thread known
    exact ⟨move,inside,own,rounds.gone round member move inside⟩) (Nat.le_trans (left_bounded _) enough)).2
  exact left_ended rest

-- A child that is still waited for has been killed.
theorem graced_kill (rounds : Rounds early) {w : World} (stopping : Stopping w) (kept : Early early w) (named : (w.pgid.isSome || w.pid.isSome) = true)
    (waits : waiting (rounds.graced w).waiter = true) : ∃ now, .kill now ∈ (rounds.graced w).log := by
  obtain ⟨still,killed⟩ := rounds.graced_killed stopping kept
  have ids : (rounds.graced w).pid = w.pid ∧ (rounds.graced w).pgid = w.pgid := by
    have all : ∀ moves : List Move, (moves.foldl World.step w).pid = w.pid ∧ (moves.foldl World.step w).pgid = w.pgid := fun moves =>
      StepRuns.run_invariant (fun s => s.pid = w.pid ∧ s.pgid = w.pgid) moves ⟨rfl,rfl⟩ fun s move same =>
        ⟨(step_ids s move).1.trans same.1,(step_ids s move).2.trans same.2⟩
    have both := all (rounds.settling.flatten ++ rounds.patient.flatten)
    rwa [List.foldl_append] at both
  exact still.announced.killed (killed waits) (by rw [ids.1,ids.2]; exact named)

end Rounds

-- A dropped session ends: three turns of the waiter behind the signals see the shutdown, three more
-- behind its grace kill a child that is still there, and from when the child has gone two turns for each
-- command in the queue and fourteen more end all three threads, while commands keep coming.
theorem drop_ends {early : Nat} (pid pgid : Option Int) (moves : List Move) (rounds : Rounds early)
    (dropped : joined (moves.foldl World.step (spawn pid pgid)).handle = true) (before : ∀ move ∈ moves, Clock (· ≤ early) move)
    (enough : 14+2*(rounds.graced (moves.foldl World.step (spawn pid pgid))).commands.length ≤ rounds.closing.length) :
    let w := moves.foldl World.step (spawn pid pgid)
    ((w.pgid.isSome || w.pid.isSome) = true → waiting (rounds.graced w).waiter = true → ∃ now, .kill now ∈ (rounds.graced w).log) ∧
      Ended (rounds.closed w) := by
  intro w
  have stopping : Stopping w := ⟨StepRuns.run_invariant Announced moves (spawn_announced pid pgid) step_announced,dropped⟩
  have kept : Early early w := run_early (fun t wrong => by cases wrong) moves before
  exact ⟨rounds.graced_kill stopping kept,rounds.closed_ended stopping kept enough⟩

-- A child with a job in hand: the writer is stuck behind it, and so is the reader.
def stuckRounds : Rounds 40 where
  settling := List.replicate 3 [.waiter (.ok none) 40]
  patient := List.replicate 3 [.waiter (.ok none) 540]
  closing := List.replicate 18 [.command (.write [104]),.reader (.error ⟨some 5,false⟩),.writer false,.waiter (.ok (some 137)) 600]
  polls := by decide
  turns := by decide
  before := by
    intro round member move inside
    rw [(List.mem_replicate.mp member).2] at inside
    rw [List.mem_singleton.mp inside]
    exact Nat.le_refl 40
  after := by
    intro round member move inside
    rw [(List.mem_replicate.mp member).2] at inside
    rw [List.mem_singleton.mp inside]
    exact Nat.le_refl 540
  gone := by
    intro round member move inside
    rw [(List.mem_replicate.mp member).2] at inside
    rcases List.mem_cons.mp inside with rfl | inside
    · trivial
    rcases List.mem_cons.mp inside with rfl | inside
    · exact fun data wrong => by cases wrong
    rcases List.mem_cons.mp inside with rfl | inside
    · trivial
    rw [List.mem_singleton.mp inside]
    exact fun wrong => by cases wrong
  settles := by decide
  graces := by decide

theorem drop_ends_stuck :
    let w := [Move.command (.write [97]),.writer true,.drop,.drop].foldl World.step (spawn (some 7) none)
    joined w.handle = true ∧ w.writer = .writing ∧ waiting (stuckRounds.graced w).waiter = true ∧
      (∃ now, .kill now ∈ (stuckRounds.graced w).log) ∧ Ended (stuckRounds.closed w) := by
  intro w
  have ends := drop_ends (some 7) none [.command (.write [97]),.writer true,.drop,.drop] stuckRounds (by decide)
    (fun move member => by
      have other : turnOf move ≠ some .waiter := by
        revert move
        decide
      cases move with
      | waiter polled now => exact absurd rfl other
      | _ => trivial) (by decide)
  exact ⟨by decide,by decide,by decide,ends.1 rfl (by decide),ends.2⟩

-- What the operating system answers to the calls of `PtySession::spawn`, one after the other.
structure Results where
  program : String
  openpty : Except String Unit
  spawnCommand : Except String Unit
  pid : Option Int
  pgid : Option Int
  tryCloneReader : Except String Unit
  takeWriter : Except String Unit
  thread : String → Except String Unit

-- What a failed spawn leaves: nothing that was started, a child that the guard itself has seen to, or
-- threads that the guard has a waiter to signal among.
inductive Remains where
  | nothing
  | collected (log : List Happening)
  | threads (w : World)

structure PartialSpawn where
  pid : Option Int
  pgid : Option Int
  waiterHandle : Bool
  readerHandle : Bool

namespace PartialSpawn

-- The guard's destructor signals the waiter as a session's does behind its command. A reader that was
-- not started has dropped its `done_tx`, and no writer was.
def world (p : PartialSpawn) : World :=
  {spawn p.pid p.pgid with reader := if p.readerHandle then .reading else .finished,writer := .finished,handle := .commanded}

def drop (p : PartialSpawn) (now : Nat) : Remains :=
  if p.waiterHandle then .threads p.world
  else
    .collected ([.hangup] ++ (if p.pgid.isSome || p.pid.isSome then [.kill (now+sigkillGrace)] else []) ++
      (if p.pid.isSome then [.reaped] else []))

end PartialSpawn

def spawnNamed (r : Results) (name : String) : Except PtyError Unit :=
  (r.thread name).mapError fun e => .spawn ("spawn thread " ++ name ++ ": " ++ e)

def spawnSession (r : Results) (now : Nat) : Except (PtyError × Remains) World := do
  r.openpty.mapError fun e => (.spawn ("openpty failed: " ++ e),.nothing)
  r.spawnCommand.mapError fun e => (.spawn ("spawn " ++ r.program ++ " failed: " ++ e),.nothing)
  let guard : PartialSpawn := ⟨r.pid,r.pgid,false,false⟩
  r.tryCloneReader.mapError fun e => (.spawn ("clone reader failed: " ++ e),guard.drop now)
  r.takeWriter.mapError fun e => (.spawn ("take writer failed: " ++ e),guard.drop now)
  (spawnNamed r "pty-waiter").mapError (·,guard.drop now)
  let guard := {guard with waiterHandle := true}
  (spawnNamed r "pty-reader").mapError (·,guard.drop now)
  let guard := {guard with readerHandle := true}
  (spawnNamed r "pty-writer").mapError (·,guard.drop now)
  pure (spawn r.pid r.pgid)

-- A child runs from here on.
def Results.started (r : Results) : Prop := r.openpty = .ok () ∧ r.spawnCommand = .ok ()

theorem call_failed {call : Except ε Unit} {say : ε → β} {rest : Unit → Except β α} {b : β}
    (failed : (call.mapError say >>= rest) = .error b) : (∃ e, call = .error e ∧ say e = b) ∨ (call = .ok () ∧ rest () = .error b) := by
  cases call with
  | error e =>
      cases failed
      exact .inl ⟨e,rfl,rfl⟩
  | ok _ => exact .inr ⟨rfl,failed⟩

theorem spawn_failed (r : Results) (now : Nat) {e : PtyError} {remains : Remains} (failed : spawnSession r now = .error (e,remains)) :
    (remains = .nothing ∧ ¬ r.started) ∨ remains = PartialSpawn.drop ⟨r.pid,r.pgid,false,false⟩ now ∨
      ∃ readerHandle, remains = .threads (PartialSpawn.world ⟨r.pid,r.pgid,true,readerHandle⟩) := by
  rcases call_failed failed with ⟨text,openpty,told⟩ | ⟨_,failed⟩
  · cases told
    exact .inl ⟨rfl,fun started => by rw [started.1] at openpty; cases openpty⟩
  rcases call_failed failed with ⟨text,command,told⟩ | ⟨_,failed⟩
  · cases told
    exact .inl ⟨rfl,fun started => by rw [started.2] at command; cases command⟩
  rcases call_failed failed with ⟨text,_,told⟩ | ⟨_,failed⟩
  · cases told
    exact .inr (.inl rfl)
  rcases call_failed failed with ⟨text,_,told⟩ | ⟨_,failed⟩
  · cases told
    exact .inr (.inl rfl)
  rcases call_failed failed with ⟨text,_,told⟩ | ⟨_,failed⟩
  · cases told
    exact .inr (.inl rfl)
  rcases call_failed failed with ⟨text,_,told⟩ | ⟨_,failed⟩
  · cases told
    exact .inr (.inr ⟨false,rfl⟩)
  rcases call_failed failed with ⟨text,_,told⟩ | ⟨_,failed⟩
  · cases told
    exact .inr (.inr ⟨true,rfl⟩)
  cases failed

-- The threads of a failed spawn: no writer, so no signal but the waiter's own.
structure Guarded (w : World) : Prop where
  announced : Announced w
  watched : Watched w
  harmless : Harmless w
  writer : w.writer = .finished

theorem world_guarded (p : PartialSpawn) : Guarded p.world := by
  refine ⟨⟨fun wrong => (by cases wrong),fun _ wrong => (by cases wrong),fun wrong => by cases wrong⟩,?_,?_,rfl⟩
  · exact ⟨fun _ => List.not_mem_nil,fun t seen => (by cases seen),fun _ => rfl,Nat.zero_le _,fun earlier now later split =>
      absurd split.symm (List.append_ne_nil_of_right_ne_nil _ (List.cons_ne_nil _ _))⟩
  · exact fun earlier later split => absurd split.symm (List.append_ne_nil_of_right_ne_nil _ (List.cons_ne_nil _ _))

theorem step_guarded (w : World) (move : Move) (guarded : Guarded w) : Guarded (w.step move) := by
  obtain ⟨watched,harmless⟩ := step_watched w move guarded.watched
  refine ⟨step_announced w move guarded.announced,watched,(harmless guarded.harmless).mpr ?_,?_⟩
  · cases move with
    | writer written => exact fun hangup => by rw [guarded.writer] at hangup; cases hangup
    | _ => trivial
  · cases move with
    | reader result =>
        obtain ⟨_,_,_,same⟩ := reader_frame w result
        rw [World.step,same]
        exact guarded.writer
    | writer written => simp only [World.step,World.writerLoop,guarded.writer]
    | waiter polled now =>
        obtain ⟨_,_,_,_,_,_,same⟩ := waiter_frame w polled now
        rw [World.step,same]
        exact guarded.writer
    | command c => simp only [World.step]; split <;> exact guarded.writer
    | drop => simp only [World.step,World.dropStep]; split <;> exact guarded.writer
    | closeCommands => simp only [World.step]; split <;> exact guarded.writer
    | dropReceiver => simp only [World.step]; split <;> exact guarded.writer

theorem run_guarded {w : World} (guarded : Guarded w) (moves : List Move) : Guarded (moves.foldl World.step w) :=
  StepRuns.run_invariant Guarded moves guarded step_guarded

theorem guarded_ends {early : Nat} {w : World} (guarded : Guarded w) (rounds : Rounds early) (joining : joined w.handle = true)
    (kept : Early early w) (enough : 14+2*(rounds.graced w).commands.length ≤ rounds.closing.length) :
    ((w.pgid.isSome || w.pid.isSome) = true → waiting (rounds.graced w).waiter = true → ∃ now, .kill now ∈ (rounds.graced w).log) ∧
      Harmless (rounds.closed w) ∧ Ended (rounds.closed w) := by
  have stopping : Stopping w := ⟨guarded.announced,joining⟩
  refine ⟨rounds.graced_kill stopping kept,?_,rounds.closed_ended stopping kept enough⟩
  exact (run_guarded (run_guarded (run_guarded guarded rounds.settling.flatten) rounds.patient.flatten) rounds.closing.flatten).harmless

-- A spawn that fails leaves nothing behind. Where no waiter was started the guard kills the child and
-- reaps it, in this order; else the waiter is told, kills a child that is still there once its grace is
-- over, the threads end, and no signal follows the reaping.
theorem failed_spawn_ends {early : Nat} (r : Results) (now : Nat) (e : PtyError) (remains : Remains) (failed : spawnSession r now = .error (e,remains)) :
    (remains = .nothing → ¬ r.started) ∧
      (∀ log, remains = .collected log → r.pid.isSome = true → log = [.hangup,.kill (now+sigkillGrace),.reaped]) ∧
      ∀ start, remains = .threads start → ∀ (moves : List Move) (rounds : Rounds early),
        let w := moves.foldl World.step start
        joined w.handle = true → (∀ move ∈ moves, Clock (· ≤ early) move) → 14+2*(rounds.graced w).commands.length ≤ rounds.closing.length →
          ((w.pgid.isSome || w.pid.isSome) = true → waiting (rounds.graced w).waiter = true → ∃ time, .kill time ∈ (rounds.graced w).log) ∧
            Harmless (rounds.closed w) ∧ Ended (rounds.closed w) := by
  rcases spawn_failed r now failed with ⟨rfl,unstarted⟩ | rfl | ⟨readerHandle,rfl⟩
  · exact ⟨fun _ => unstarted,fun _ wrong => (by cases wrong),fun _ wrong => by cases wrong⟩
  · refine ⟨fun wrong => (by cases wrong),fun log same named => ?_,fun _ wrong => by cases wrong⟩
    cases same
    rw [named,Bool.or_true]
    rfl
  · refine ⟨fun wrong => (by cases wrong),fun _ wrong => (by cases wrong),?_⟩
    intro start same moves rounds w joining before enough
    cases same
    exact guarded_ends (run_guarded (world_guarded _) moves) rounds joining (run_early (fun t wrong => by cases wrong) moves before) enough

-- The last of the three threads fails to start.
def noWriter : Results where
  program := "\"/bin/sh\""
  openpty := .ok ()
  spawnCommand := .ok ()
  pid := some 7
  pgid := some 7
  tryCloneReader := .ok ()
  takeWriter := .ok ()
  thread := fun name => if name = "pty-writer" then .error "no memory" else .ok ()

theorem failed_spawn_kills :
    ∃ start, spawnSession noWriter 0 = .error (.spawn "spawn thread pty-writer: no memory",.threads start) ∧
      Ended (stuckRounds.closed (start.step .drop)) := by
  refine ⟨_,rfl,?_⟩
  have ends := (failed_spawn_ends noWriter 0 _ _ rfl).2.2 _ rfl [.drop] stuckRounds (by decide)
    (fun move member => by rw [List.mem_singleton.mp member]; trivial) (by decide)
  exact ends.2.2

end Perga.PtyTeardown

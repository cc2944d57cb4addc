import Perga.FairRounds
import Perga.SshSetup

namespace Perga.SshSpawn

-- What the calls of `SshSession::spawn` come to. A setup of `none` is a thread that panics.
structure Plan where
  knownHostsPath : Option String
  home : Option String
  bridgeThread : Except String Unit
  shuttleThread : Except String Unit
  runtime : Except String Unit
  setup : Option (Except SshError Unit)

def defaultKnownHostsPath (home : Option String) : Except SshError String :=
  match home with
  | none => .error (.io "$HOME not set; cannot locate ~/.ssh/known_hosts")
  | some home => .ok (Profiles.join (Profiles.join home ".ssh") "known_hosts")

def Plan.path (p : Plan) : Except SshError String :=
  match p.knownHostsPath with
  | some path => .ok path
  | none => defaultKnownHostsPath p.home

-- Where each thread stands; the caller is inside of `spawn` until it has returned.
inductive Caller where
  | waiting
  | signalling (e : SshError)
  | joiningShuttle (e : SshError)
  | joiningBridge (e : SshError)
  | returned (result : Except SshError Unit)

inductive ShuttleThread where
  | building
  | settingUp
  | reporting (result : Except SshError Unit)
  | looping
  | ended
  deriving DecidableEq

inductive BridgeThread where
  | receiving
  | finished
  deriving DecidableEq

-- `signal` is what the bridge is sent; the loop is told to end when `shutdown_tx` goes.
structure World where
  caller : Caller
  shuttle : ShuttleThread
  bridge : BridgeThread
  ready : Option (Except SshError Unit)
  signal : Bool
  commandsOpen : Bool
  shutdownHeld : Bool

inductive Thread where
  | caller
  | shuttle
  | bridge
  deriving DecidableEq, Repr

-- Any thread's turn; and the loop may come to its own end as soon as it runs, by the remote say.
inductive Move where
  | turn (thread : Thread)
  | loopEnds
  deriving DecidableEq, Repr

-- A failed `spawn` of the second thread leaves the first without a sender.
def begun (p : Plan) : World :=
  match p.path with
  | .error e => ⟨.returned (.error e),.ended,.finished,none,false,false,false⟩
  | .ok _ =>
    match p.bridgeThread with
    | .error e => ⟨.returned (.error (.io ("spawn ssh bridge thread: " ++ e))),.ended,.finished,none,false,false,false⟩
    | .ok _ =>
      match p.shuttleThread with
      | .error e => ⟨.returned (.error (.io ("spawn ssh shuttle thread: " ++ e))),.ended,.receiving,none,false,false,false⟩
      | .ok _ => ⟨.waiting,.building,.receiving,none,false,true,true⟩

namespace World

def shuttleStep (p : Plan) (w : World) : World :=
  match w.shuttle with
  | .building =>
    match p.runtime with
    | .ok _ => {w with shuttle := .settingUp}
    | .error e => {w with shuttle := .reporting (.error (.io ("build ssh tokio runtime: " ++ e)))}
  | .settingUp =>
    match p.setup with
    | some result => {w with shuttle := .reporting result}
    | none => {w with shuttle := .ended}
  -- `ready_tx` has a place for its one message.
  | .reporting (.ok _) => {w with ready := some (.ok ()),shuttle := .looping}
  | .reporting (.error e) => {w with ready := some (.error e),shuttle := .ended}
  | .looping => if w.shutdownHeld then w else {w with shuttle := .ended}
  | .ended => w

-- No command is there before `spawn` has returned: the bridge waits for its signal, or for the end of
-- the senders.
def bridgeStep (w : World) : World :=
  match w.bridge with
  | .receiving => if w.signal || !w.commandsOpen then {w with bridge := .finished} else w
  | .finished => w

def callerStep (w : World) : World :=
  match w.caller with
  | .waiting =>
    match w.ready with
    | some (.ok _) => {w with caller := .returned (.ok ())}
    | some (.error e) => {w with caller := .signalling e}
    | none => if w.shuttle = .ended then {w with caller := .signalling (.connect "ssh shuttle thread terminated before ready")} else w
  | .signalling e => {w with signal := true,commandsOpen := false,shutdownHeld := false,caller := .joiningShuttle e}
  | .joiningShuttle e => if w.shuttle = .ended then {w with caller := .joiningBridge e} else w
  | .joiningBridge e => if w.bridge = .finished then {w with caller := .returned (.error e)} else w
  | .returned _ => w

def threadStep (p : Plan) (w : World) : Thread → World
  | .caller => w.callerStep
  | .shuttle => w.shuttleStep p
  | .bridge => w.bridgeStep

def step (p : Plan) (w : World) : Move → World
  | .turn thread => w.threadStep p thread
  | .loopEnds => if w.shuttle = .looping then {w with shuttle := .ended} else w

end World

-- The result that `spawn` has to give.
def expected (p : Plan) : Except SshError Unit := do
  let _ ← p.path
  p.bridgeThread.mapError fun e => .io ("spawn ssh bridge thread: " ++ e)
  p.shuttleThread.mapError fun e => .io ("spawn ssh shuttle thread: " ++ e)
  p.runtime.mapError fun e => .io ("build ssh tokio runtime: " ++ e)
  p.setup.getD (.error (.connect "ssh shuttle thread terminated before ready"))

def terminated : SshError := .connect "ssh shuttle thread terminated before ready"

def Started (p : Plan) : Prop := (∃ path, p.path = .ok path) ∧ p.bridgeThread = .ok () ∧ p.shuttleThread = .ok ()

theorem expected_started {p : Plan} (started : Started p) :
    expected p = (p.runtime.mapError fun e => .io ("build ssh tokio runtime: " ++ e)) >>= fun _ => p.setup.getD (.error terminated) := by
  obtain ⟨⟨path,located⟩,bridge,shuttle⟩ := started
  simp only [expected,located,bridge,shuttle]
  rfl

-- What the shuttle thread has told, or will tell, is what is expected; a loop that has
-- come to its end has told before that it runs.
def Reports (p : Plan) (ready : Option (Except SshError Unit)) : ShuttleThread → Prop
  | .building => ready = none ∧ Started p
  | .settingUp => ready = none ∧ Started p ∧ p.runtime = .ok ()
  | .reporting result => ready = none ∧ expected p = result
  | .looping => ready = some (.ok ()) ∧ expected p = .ok ()
  | .ended =>
    (∃ e, expected p = .error e ∧ (ready = some (.error e) ∨ ready = none ∧ e = terminated)) ∨
      (ready = some (.ok ()) ∧ expected p = .ok ())

-- Neither thread was told to end: no signal, and the senders are still held.
structure Untold (w : World) : Prop where
  bridge : w.bridge = .receiving
  signal : w.signal = false
  commands : w.commandsOpen = true
  shutdown : w.shutdownHeld = true

theorem Untold.kept {w : World} (untold : Untold w) (caller : Caller) (shuttle : ShuttleThread) (ready : Option (Except SshError Unit)) :
    Untold {w with caller := caller,shuttle := shuttle,ready := ready} :=
  ⟨untold.bridge,untold.signal,untold.commands,untold.shutdown⟩

def Sound (p : Plan) (w : World) : Prop :=
  match w.caller with
  | .waiting => Reports p w.ready w.shuttle ∧ Untold w
  | .signalling e => expected p = .error e ∧ w.shuttle = .ended
  | .joiningShuttle e => expected p = .error e ∧ w.shuttle = .ended ∧ w.signal = true
  | .joiningBridge e => expected p = .error e ∧ w.shuttle = .ended ∧ w.signal = true
  | .returned (.ok _) => expected p = .ok () ∧ (w.shuttle = .looping ∨ w.shuttle = .ended) ∧ Untold w
  | .returned (.error e) => expected p = .error e ∧ w.shuttle = .ended ∧ (w.bridge = .finished ∨ w.signal = true ∨ w.commandsOpen = false)

theorem begun_sound (p : Plan) : Sound p (begun p) := by
  unfold begun
  cases path : p.path with
  | error e =>
      refine ⟨?_,rfl,.inl rfl⟩
      rw [expected,path]
      rfl
  | ok located =>
      cases bridge : p.bridgeThread with
      | error e =>
          refine ⟨?_,rfl,.inl rfl⟩
          rw [expected,path,bridge]
          rfl
      | ok _ =>
          cases shuttle : p.shuttleThread with
          | error e =>
              refine ⟨?_,rfl,.inr (.inr rfl)⟩
              rw [expected,path,bridge,shuttle]
              rfl
          | ok _ => exact ⟨⟨rfl,⟨located,path⟩,bridge,shuttle⟩,⟨rfl,rfl,rfl,rfl⟩⟩

def callerLeft : Caller → Nat
  | .waiting => 4
  | .signalling _ => 3
  | .joiningShuttle _ => 2
  | .joiningBridge _ => 1
  | .returned _ => 0

def shuttleLeft : ShuttleThread → Nat
  | .building => 3
  | .settingUp => 2
  | .reporting _ => 1
  | .looping => 0
  | .ended => 0

-- Only a session that is not to be needs its bridge gone.
def bridgeLeft (p : Plan) (w : World) : Nat :=
  match expected p,w.bridge with
  | .error _,.receiving => 1
  | _,_ => 0

def left (p : Plan) (w : World) : Nat := callerLeft w.caller+shuttleLeft w.shuttle+bridgeLeft p w

-- Nobody is served before the thread has told how its setup went.
theorem busy_waits {p : Plan} {w : World} (sound : Sound p w) (busy : 0 < shuttleLeft w.shuttle) :
    w.caller = .waiting ∧ Reports p w.ready w.shuttle ∧ Untold w := by
  unfold Sound at sound
  split at sound
  · rename_i at_
    exact ⟨at_,sound⟩
  · rw [sound.2] at busy; cases busy
  · rw [sound.2.1] at busy; cases busy
  · rw [sound.2.1] at busy; cases busy
  · rcases sound.2.1 with stands | stands <;> (rw [stands] at busy; cases busy)
  · rw [sound.2.1] at busy; cases busy

theorem shuttle_turn {p : Plan} {w : World} (sound : Sound p w) (busy : 0 < shuttleLeft w.shuttle) :
    Sound p (w.shuttleStep p) ∧ left p (w.shuttleStep p) < left p w := by
  obtain ⟨waits,reports,rest⟩ := busy_waits sound busy
  have next : ∀ shuttle ready, Reports p ready shuttle → shuttleLeft shuttle < shuttleLeft w.shuttle →
      Sound p {w with shuttle := shuttle,ready := ready} ∧ left p {w with shuttle := shuttle,ready := ready} < left p w := by
    intro shuttle ready told fewer
    refine ⟨?_,Nat.add_lt_add_right (Nat.add_lt_add_left fewer _) _⟩
    simp only [Sound,waits]
    exact ⟨told,rest.kept _ _ _⟩
  unfold World.shuttleStep
  cases at_ : w.shuttle with
  | building =>
      rw [at_] at reports next
      obtain ⟨none_told,started⟩ := reports
      cases runtime : p.runtime with
      | ok _ => exact next .settingUp w.ready ⟨none_told,started,runtime⟩ (by decide)
      | error e =>
          refine next (.reporting _) w.ready ⟨none_told,?_⟩ (Nat.lt_of_sub_eq_succ rfl)
          rw [expected_started started,runtime]
          rfl
  | settingUp =>
      rw [at_] at reports next
      obtain ⟨none_told,started,runtime⟩ := reports
      cases setup : p.setup with
      | some result =>
          refine next (.reporting result) w.ready ⟨none_told,?_⟩ (Nat.lt_of_sub_eq_succ rfl)
          rw [expected_started started,runtime,setup]
          rfl
      | none =>
          refine next .ended w.ready (.inl ⟨terminated,?_,.inr ⟨none_told,rfl⟩⟩) (by decide)
          rw [expected_started started,runtime,setup]
          rfl
  | reporting result =>
      rw [at_] at reports next
      cases result with
      | ok _ => exact next .looping _ ⟨rfl,reports.2⟩ (Nat.lt_of_sub_eq_succ rfl)
      | error e => exact next .ended _ (.inl ⟨e,reports.2,.inl rfl⟩) (Nat.lt_of_sub_eq_succ rfl)
  | looping => rw [at_] at busy; cases busy
  | ended => rw [at_] at busy; cases busy

theorem looping_held {p : Plan} {w : World} (sound : Sound p w) (looping : w.shuttle = .looping) : w.shutdownHeld = true := by
  unfold Sound at sound
  split at sound
  · exact sound.2.shutdown
  · cases looping.symm.trans sound.2
  · cases looping.symm.trans sound.2.1
  · cases looping.symm.trans sound.2.1
  · exact sound.2.2.shutdown
  · cases looping.symm.trans sound.2.1

theorem shuttle_rests {p : Plan} {w : World} (sound : Sound p w) (rests : ¬ 0 < shuttleLeft w.shuttle) : w.shuttleStep p = w := by
  unfold World.shuttleStep
  cases at_ : w.shuttle with
  | looping => exact if_pos (looping_held sound at_)
  | ended => rfl
  | _ => rw [at_] at rests; exact absurd (Nat.succ_pos _) rests

-- The bridge's end hurts nobody once it has been told, or has lost its senders.
def told (w : World) : Bool := w.signal || !w.commandsOpen

theorem told_fails {p : Plan} {w : World} (sound : Sound p w) (ends : told w = true) : ∃ e, expected p = .error e := by
  unfold told at ends
  unfold Sound at sound
  split at sound
  · rw [sound.2.signal,sound.2.commands] at ends; cases ends
  · exact ⟨_,sound.1⟩
  · exact ⟨_,sound.1⟩
  · exact ⟨_,sound.1⟩
  · rw [sound.2.2.signal,sound.2.2.commands] at ends; cases ends
  · exact ⟨_,sound.1⟩

theorem bridge_turn {p : Plan} {w : World} (sound : Sound p w) (receiving : w.bridge = .receiving) (ends : told w = true) :
    Sound p w.bridgeStep ∧ left p w.bridgeStep < left p w := by
  obtain ⟨e,fails⟩ := told_fails sound ends
  have next : w.bridgeStep = {w with bridge := .finished} := by
    unfold World.bridgeStep
    rw [receiving]
    exact if_pos ends
  rw [next]
  constructor
  · unfold told at ends
    unfold Sound at sound ⊢
    dsimp only
    split at sound
    · rw [sound.2.signal,sound.2.commands] at ends; cases ends
    · exact sound
    · exact sound
    · exact sound
    · rw [sound.2.2.signal,sound.2.2.commands] at ends; cases ends
    · exact ⟨sound.1,sound.2.1,.inl rfl⟩
  · simp [left,bridgeLeft,fails,receiving]

theorem bridge_rests {w : World} (rests : ¬ (w.bridge = .receiving ∧ told w = true)) : w.bridgeStep = w := by
  unfold World.bridgeStep
  cases at_ : w.bridge with
  | receiving => exact if_neg fun ends => rests ⟨at_,ends⟩
  | finished => rfl

-- What the caller is blocked on has come.
def awaited (w : World) : Prop :=
  match w.caller with
  | .waiting => w.ready.isSome = true ∨ w.shuttle = .ended
  | .signalling _ => True
  | .joiningShuttle _ => w.shuttle = .ended
  | .joiningBridge _ => w.bridge = .finished
  | .returned _ => False

theorem caller_turn {p : Plan} {w : World} (sound : Sound p w) (able : awaited w) : Sound p w.callerStep ∧ left p w.callerStep < left p w := by
  have next : ∀ caller : Caller, w.callerStep.caller = caller → w.callerStep.shuttle = w.shuttle → w.callerStep.bridge = w.bridge →
      callerLeft caller < callerLeft w.caller → left p w.callerStep < left p w := by
    intro caller at_ shuttle bridge fewer
    unfold left bridgeLeft
    rw [at_,shuttle,bridge]
    exact Nat.add_lt_add_right (Nat.add_lt_add_right fewer _) _
  unfold awaited at able
  cases at_ : w.caller with
  | waiting =>
      simp only [Sound,at_] at sound
      obtain ⟨reports,untold⟩ := sound
      rw [at_] at next able
      have fails : ∀ e, expected p = .error e → w.shuttle = .ended → w.callerStep = {w with caller := .signalling e} →
          Sound p w.callerStep ∧ left p w.callerStep < left p w := by
        intro e same ended moved
        refine ⟨?_,next (.signalling e) (by rw [moved]) (by rw [moved]) (by rw [moved]) (Nat.lt_succ_self 3)⟩
        rw [moved]
        exact ⟨same,ended⟩
      -- A loop that ran gives the session, whether or not it still runs.
      have session : w.ready = some (.ok ()) → expected p = .ok () → (w.shuttle = .looping ∨ w.shuttle = .ended) →
          Sound p w.callerStep ∧ left p w.callerStep < left p w := by
        intro report good stands
        have moved : w.callerStep = {w with caller := .returned (.ok ())} := by
          unfold World.callerStep
          simp only [at_,report]
        refine ⟨?_,next (.returned (.ok ())) (by rw [moved]) (by rw [moved]) (by rw [moved]) (Nat.succ_pos 3)⟩
        rw [moved]
        exact ⟨good,stands,untold.kept _ _ _⟩
      cases stands : w.shuttle with
      | looping =>
          rw [stands] at reports
          exact session reports.1 reports.2 (.inl stands)
      | ended =>
          rw [stands] at reports
          obtain ⟨e,same,report | ⟨silent,rfl⟩⟩ | ⟨report,good⟩ := reports
          · refine fails e same stands ?_
            unfold World.callerStep
            simp only [at_,report]
          · refine fails terminated same stands ?_
            unfold World.callerStep
            simp only [at_,silent,stands,if_true]
            rfl
          · exact session report good (.inr stands)
      | building => rw [stands] at reports able; rw [reports.1] at able; simp at able
      | settingUp => rw [stands] at reports able; rw [reports.1] at able; simp at able
      | reporting result => rw [stands] at reports able; rw [reports.1] at able; simp at able
  | signalling e =>
      simp only [Sound,at_] at sound
      rw [at_] at next
      have moved : w.callerStep = {w with signal := true,commandsOpen := false,shutdownHeld := false,caller := .joiningShuttle e} := by
        unfold World.callerStep
        simp only [at_]
      refine ⟨?_,next (.joiningShuttle e) (by rw [moved]) (by rw [moved]) (by rw [moved]) (Nat.lt_succ_self 2)⟩
      rw [moved]
      exact ⟨sound.1,sound.2,rfl⟩
  | joiningShuttle e =>
      simp only [Sound,at_] at sound
      rw [at_] at next
      have moved : w.callerStep = {w with caller := .joiningBridge e} := by
        unfold World.callerStep
        simp only [at_,sound.2.1,if_true]
      refine ⟨?_,next (.joiningBridge e) (by rw [moved]) (by rw [moved]) (by rw [moved]) (Nat.lt_succ_self 1)⟩
      rw [moved]
      exact sound
  | joiningBridge e =>
      simp only [Sound,at_] at sound
      rw [at_] at next able
      have finished : w.bridge = .finished := able
      have moved : w.callerStep = {w with caller := .returned (.error e)} := by
        unfold World.callerStep
        simp only [at_,finished,if_true]
      refine ⟨?_,next (.returned (.error e)) (by rw [moved]) (by rw [moved]) (by rw [moved]) (Nat.lt_succ_self 0)⟩
      rw [moved]
      exact ⟨sound.1,sound.2.1,.inl finished⟩
  | returned result => rw [at_] at able; exact able.elim

theorem caller_rests {w : World} (rests : ¬ awaited w) : w.callerStep = w := by
  unfold awaited at rests
  unfold World.callerStep
  cases at_ : w.caller with
  | waiting =>
      rw [at_] at rests
      obtain ⟨unready,going⟩ := not_or.mp rests
      cases report : w.ready with
      | some result => rw [report] at unready; exact absurd rfl unready
      | none => exact if_neg going
  | signalling e => rw [at_] at rests; exact absurd trivial rests
  | joiningShuttle e => rw [at_] at rests; exact if_neg rests
  | joiningBridge e => rw [at_] at rests; exact if_neg rests
  | returned result => rfl

def due (w : World) : Thread → Prop
  | .caller => awaited w
  | .shuttle => 0 < shuttleLeft w.shuttle
  | .bridge => w.bridge = .receiving ∧ told w = true

-- A thread that is due gets further, and one that is not changes nothing.
theorem thread_turn {p : Plan} {w : World} (sound : Sound p w) (thread : Thread) :
    (due w thread ∧ Sound p (w.threadStep p thread) ∧ left p (w.threadStep p thread) < left p w) ∨
      (¬ due w thread ∧ w.threadStep p thread = w) := by
  by_cases owed : due w thread
  · refine .inl ⟨owed,?_⟩
    cases thread with
    | caller => exact caller_turn sound owed
    | shuttle => exact shuttle_turn sound owed
    | bridge => exact bridge_turn sound owed.1 owed.2
  · refine .inr ⟨owed,?_⟩
    cases thread with
    | caller => exact caller_rests owed
    | shuttle => exact shuttle_rests sound owed
    | bridge => exact bridge_rests owed

-- A loop that ends by itself takes nothing from anyone.
theorem loop_ends {p : Plan} {w : World} (sound : Sound p w) :
    Sound p (w.step p .loopEnds) ∧ left p (w.step p .loopEnds) = left p w ∧ ∀ thread, due w thread → due (w.step p .loopEnds) thread := by
  by_cases looping : w.shuttle = .looping
  · have next : w.step p .loopEnds = {w with shuttle := .ended} := if_pos looping
    rw [next]
    refine ⟨?_,by simp only [left,looping,shuttleLeft,bridgeLeft],fun thread owed => ?_⟩
    · unfold Sound at sound ⊢
      dsimp only
      split at sound
      · obtain ⟨reports,untold⟩ := sound
        rw [looping] at reports
        exact ⟨.inr reports,untold.kept _ _ _⟩
      · exact ⟨sound.1,rfl⟩
      · exact ⟨sound.1,rfl,sound.2.2⟩
      · exact ⟨sound.1,rfl,sound.2.2⟩
      · obtain ⟨good,_,untold⟩ := sound
        exact ⟨good,.inr rfl,untold.kept _ _ _⟩
      · exact ⟨sound.1,rfl,sound.2.2⟩
    · cases thread with
      | caller =>
          unfold due awaited at owed ⊢
          dsimp only at owed ⊢
          cases at_ : w.caller with
          | waiting => exact .inr rfl
          | joiningShuttle e => rfl
          | _ => rw [at_] at owed; exact owed
      | shuttle => rw [due,looping] at owed; cases owed
      | bridge => exact owed
  · have next : w.step p .loopEnds = w := if_neg looping
    rw [next]
    exact ⟨sound,rfl,fun _ owed => owed⟩

def threads : List Thread := [.caller,.shuttle,.bridge]

theorem someone_due {p : Plan} {w : World} (sound : Sound p w) (busy : 0 < left p w) : ∃ thread ∈ threads, due w thread := by
  have caller : awaited w → ∃ thread ∈ threads, due w thread := fun able => ⟨.caller,by simp [threads],able⟩
  have bridge : w.bridge = .receiving → told w = true → ∃ thread ∈ threads, due w thread := fun receiving ends =>
    ⟨.bridge,by simp [threads],receiving,ends⟩
  by_cases working : 0 < shuttleLeft w.shuttle
  · exact ⟨.shuttle,by simp [threads],working⟩
  cases at_ : w.caller with
  | waiting =>
      simp only [Sound,at_] at sound
      refine caller ?_
      unfold awaited
      rw [at_]
      cases stands : w.shuttle with
      | looping => rw [stands] at sound; exact .inl (by rw [sound.1.1]; rfl)
      | ended => exact .inr rfl
      | _ => rw [stands] at working; exact absurd (Nat.succ_pos _) working
  | signalling e => exact caller (by unfold awaited; rw [at_]; trivial)
  | joiningShuttle e =>
      simp only [Sound,at_] at sound
      exact caller (by unfold awaited; rw [at_]; exact sound.2.1)
  | joiningBridge e =>
      simp only [Sound,at_] at sound
      cases stands : w.bridge with
      | receiving => exact bridge stands (by unfold told; rw [sound.2.2]; rfl)
      | finished => exact caller (by unfold awaited; rw [at_]; exact stands)
  | returned result =>
      simp only [left,at_,callerLeft,Nat.eq_zero_of_not_pos working] at busy
      cases result with
      | ok _ =>
          simp only [Sound,at_] at sound
          rw [bridgeLeft,sound.1] at busy
          cases busy
      | error e =>
          simp only [Sound,at_] at sound
          obtain ⟨fails,_,reasons⟩ := sound
          cases stands : w.bridge with
          | finished => rw [bridgeLeft,fails,stands] at busy; cases busy
          | receiving =>
              refine bridge stands ?_
              rcases reasons with wrong | signal | closed
              · rw [stands] at wrong; cases wrong
              · unfold told; rw [signal]; rfl
              · unfold told; rw [closed]; exact Bool.or_true _

theorem threads_drain (p : Plan) :
    FairRounds.Drains (World.step p) (Sound p) (fun _ => True) threads (fun thread move => move = .turn thread) due (left p) := by
  refine ⟨fun w move sound _ => ?_,fun w move sound _ => ?_,fun w sound busy => someone_due sound busy,fun w move thread sound owed own => ?_,
    fun w move thread sound _ owed same => ?_⟩
  · cases move with
    | turn thread =>
        rcases thread_turn sound thread with ⟨_,kept,_⟩ | ⟨_,still⟩
        · exact kept
        · rw [World.step,still]; exact sound
    | loopEnds => exact (loop_ends sound).1
  · cases move with
    | turn thread =>
        rcases thread_turn sound thread with ⟨_,_,fewer⟩ | ⟨_,still⟩
        · exact Nat.le_of_lt fewer
        · exact Nat.le_of_eq (congrArg (left p) still)
    | loopEnds => exact Nat.le_of_eq (loop_ends sound).2.1
  · subst own
    rcases thread_turn sound thread with ⟨_,_,fewer⟩ | ⟨rests,_⟩
    · exact fewer
    · exact absurd owed rests
  · cases move with
    | turn other =>
        rcases thread_turn sound other with ⟨_,_,fewer⟩ | ⟨_,still⟩
        · exact absurd same (Nat.ne_of_lt fewer)
        · rw [World.step,still]; exact owed
    | loopEnds => exact (loop_ends sound).2.2 thread owed

theorem left_bounded (p : Plan) (w : World) : left p w ≤ 8 := by
  have caller : callerLeft w.caller ≤ 4 := by unfold callerLeft; split <;> decide
  have shuttle : shuttleLeft w.shuttle ≤ 3 := by unfold shuttleLeft; split <;> decide
  have bridge : bridgeLeft p w ≤ 1 := by unfold bridgeLeft; split <;> decide
  unfold left
  omega

-- Where the session is to be, the shuttle thread ends by the end of its loop alone.
theorem turn_works {p : Plan} {w : World} (sound : Sound p w) (good : expected p = .ok ()) (works : w.shuttle ≠ .ended) (thread : Thread) :
    (w.threadStep p thread).shuttle ≠ .ended := by
  cases thread with
  | caller =>
      have kept : w.callerStep.shuttle = w.shuttle := by
        unfold World.callerStep
        repeat' split
        all_goals rfl
      exact fun ended => works (kept.symm.trans ended)
  | bridge =>
      have kept : w.bridgeStep.shuttle = w.shuttle := by
        unfold World.bridgeStep
        repeat' split
        all_goals rfl
      exact fun ended => works (kept.symm.trans ended)
  | shuttle =>
      by_cases busy : 0 < shuttleLeft w.shuttle
      · have reports := (busy_waits sound busy).2.1
        intro ended
        unfold World.threadStep World.shuttleStep at ended
        cases at_ : w.shuttle with
        | building => rw [at_] at ended; cases runtime : p.runtime <;> rw [runtime] at ended <;> cases ended
        | settingUp =>
            rw [at_] at ended reports
            cases setup : p.setup with
            | some result => rw [setup] at ended; cases ended
            | none =>
                rw [expected_started reports.2.1,reports.2.2,setup] at good
                cases good
        | reporting result =>
            rw [at_] at ended reports
            cases result with
            | ok _ => cases ended
            | error e => cases good.symm.trans reports.2
        | looping => rw [at_] at busy; cases busy
        | ended => exact works at_
      · rw [World.threadStep,shuttle_rests sound busy]
        exact works

theorem begun_works {p : Plan} (good : expected p = .ok ()) : (begun p).shuttle ≠ .ended := by
  unfold begun
  unfold expected at good
  cases path : p.path with
  | error e => rw [path] at good; cases good
  | ok located =>
      cases bridge : p.bridgeThread with
      | error e => rw [path,bridge] at good; cases good
      | ok _ =>
          cases shuttle : p.shuttleThread with
          | error e => rw [path,bridge,shuttle] at good; cases good
          | ok _ => exact fun ended => by cases ended

theorem run_works {p : Plan} {w : World} (sound : Sound p w) (good : expected p = .ok ()) (works : w.shuttle ≠ .ended)
    (moves : List Move) (ended : (moves.foldl (World.step p) w).shuttle = .ended) : .loopEnds ∈ moves := by
  induction moves generalizing w with
  | nil => exact absurd ended works
  | cons move rest ih =>
      cases move with
      | turn thread =>
          have kept := (threads_drain p).keeps w (.turn thread) sound trivial
          exact List.mem_cons_of_mem _ (ih kept (turn_works sound good works thread) ended)
      | loopEnds => exact List.mem_cons_self

-- `spawn` always comes back, whatever the order of the three threads and whatever each call comes to:
-- with the result of the setup; where it is a session neither thread has been told to end, and the loop
-- runs unless it came to its own end; and both threads are gone where it is not.
theorem spawn_returns (p : Plan) (moves : List Move) (rounds : List (List Move))
    (fair : ∀ round ∈ rounds, ∀ thread, .turn thread ∈ round) (enough : 8 ≤ rounds.length) :
    let w := (moves ++ rounds.flatten).foldl (World.step p) (begun p)
    w.caller = .returned (expected p) ∧
      (expected p = .ok () → Untold w ∧ (w.shuttle = .looping ∨ w.shuttle = .ended ∧ Move.loopEnds ∈ moves ++ rounds.flatten)) ∧
      (∀ e, expected p = .error e → w.shuttle = .ended ∧ w.bridge = .finished) := by
  intro w
  have started : Sound p (moves.foldl (World.step p) (begun p)) :=
    StepRuns.run_invariant (Sound p) moves (begun_sound p) fun s move sound => (threads_drain p).keeps s move sound trivial
  obtain ⟨sound,rest⟩ := FairRounds.rounds_rest (threads_drain p) started rounds (fun _ _ _ _ => trivial)
    (fun round member thread _ => ⟨.turn thread,fair round member thread,rfl⟩) (Nat.le_trans (left_bounded p _) enough)
  rw [← List.foldl_append] at sound rest
  change Sound p w at sound
  have parts : callerLeft w.caller = 0 ∧ bridgeLeft p w = 0 := by
    change left p w = 0 at rest
    unfold left at rest
    omega
  cases at_ : w.caller with
  | returned result =>
      simp only [Sound,at_] at sound
      cases result with
      | ok _ =>
          obtain ⟨good,stands,untold⟩ := sound
          refine ⟨by rw [good],fun _ => ⟨untold,stands.imp id fun ended => ⟨ended,run_works (begun_sound p) good (begun_works good) _ ended⟩⟩,fun e wrong => ?_⟩
          rw [good] at wrong
          cases wrong
      | error e =>
          refine ⟨by rw [sound.1],fun wrong => (by rw [sound.1] at wrong; cases wrong),fun _ _ => ⟨sound.2.1,?_⟩⟩
          cases stands : w.bridge with
          | finished => rfl
          | receiving =>
              have owed := parts.2
              rw [bridgeLeft,sound.1,stands] at owed
              cases owed
  | _ => rw [at_] at parts; cases parts.1

-- The setup fails when the caller and the bridge have long been waiting.
def refusedPlan : Plan where
  knownHostsPath := none
  home := some "/root"
  bridgeThread := .ok ()
  shuttleThread := .ok ()
  runtime := .ok ()
  setup := some (.error .hostKeyMismatch)

def idleTurns : List Move := [.turn .caller,.turn .bridge,.turn .caller]

def fairRounds : List (List Move) := List.replicate 8 [.turn .bridge,.loopEnds,.turn .caller,.turn .shuttle]

theorem spawn_returns_refused :
    let w := (idleTurns ++ fairRounds.flatten).foldl (World.step refusedPlan) (begun refusedPlan)
    w.caller = .returned (.error .hostKeyMismatch) ∧ w.shuttle = .ended ∧ w.bridge = .finished := by
  intro w
  have returns := spawn_returns refusedPlan idleTurns fairRounds (by
    intro round member thread
    rw [(List.mem_replicate.mp member).2]
    cases thread <;> simp) (by decide)
  exact ⟨returns.1,returns.2.2 .hostKeyMismatch rfl⟩

end Perga.SshSpawn

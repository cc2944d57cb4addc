import Perga.EventLoop
import Perga.LineTerminal

namespace Perga.RawDebug
variable {T : Terminal} {P : VteParser}

-- The debug mode prints where the session sends: both go to the events outlet.
def printJsonEvent (s : Session T P) (event : ProtocolEvent) : Session T P × Bool :=
  ({s with events := (s.events.send event).1},(s.events.send event).2)

def sendPending (s : Session T P) : List (List UInt8) → Session T P × Bool
  | [] => (s,true)
  | pending :: rest =>
    let sent := s.commands.send (.write pending)
    if sent.2 then sendPending {s with commands := sent.1} rest else ({s with commands := sent.1},false)

def printEnds (s : Session T P) : List CommandMark → Session T P × Bool
  | [] => (s,true)
  | cmd :: rest =>
    let encoded := s.encoder.encodeCommandEnd cmd.line cmd.exit
    match printJsonEvent {s with encoder := encoded.1} encoded.2 with
    | (s,true) => printEnds s rest
    | (s,false) => (s,false)

-- Whether the session is done; `none` is an error of the standard output.
def handleEvent (s : Session T P) : TransportEvent → Session T P × Option Bool
  | .output data =>
    let fed := s.engine.feed data
    match sendPending {s with engine := fed.drainPendingWrites.1} fed.drainPendingWrites.2 with
    | (s,false) => (s,some true)
    | (s,true) =>
      match printEnds {s with engine := s.engine.drainCommandEnds.1} s.engine.drainCommandEnds.2 with
      | (s,false) => (s,none)
      | (s,true) =>
        let cleared := s.engine.scrollbackCleared
        let scrolled := s.engine.takeScrolledRows
        let e := scrolled.1
        let encoded := s.encoder.encodeFrame e.snapshot e.modes e.title scrolled.2 cleared
        match printJsonEvent {s with engine := e,encoder := encoded.1} encoded.2 with
        | (s,true) => (s,some false)
        | (s,false) => (s,none)
  | .exited status =>
    let encoded := s.encoder.encodeExited status
    match printJsonEvent {s with encoder := encoded.1} encoded.2 with
    | (s,true) => (s,some true)
    | (s,false) => (s,none)
  | .error _ => (s,some true)

-- `run` goes on as long as it is told that the session is not done.
def runStep (s : Session T P × Bool) (event : TransportEvent) : Session T P × Bool :=
  if s.2 then
    match handleEvent s.1 event with
    | (next,some false) => (next,true)
    | (next,some true) => (next,false)
    | (next,none) => (next,false)
  else s

-- The two pipelines side by side on one sequence of events.
structure Pair (T : Terminal) (P : VteParser) where
  session : Session T P × Bool
  debug : Session T P × Bool

def Pair.both (s : Session T P) : Pair T P := ⟨(s,true),(s,true)⟩

def Pair.step (p : Pair T P) (event : TransportEvent) : Pair T P :=
  ⟨Session.loopStep p.session (.event event),runStep p.debug event⟩

-- The same events and commands so far, and both go on or neither.
def Agree (p : Pair T P) : Prop :=
  p.session.1.events.sent = p.debug.1.events.sent ∧ p.session.1.commands.sent = p.debug.1.commands.sent ∧
    p.session.2 = p.debug.2

def NoError (p : Pair T P) (event : TransportEvent) : Prop := p.session.2 = true → ∀ err, event ≠ .error err

theorem sendPending_same (s : Session T P) (writes : List (List UInt8)) : sendPending s writes = s.writeAll writes := by
  induction writes generalizing s with
  | nil => rfl
  | cons w rest ih =>
      simp only [sendPending,Session.writeAll,Session.sendCommand]
      cases sent : (s.commands.send (.write w)).2 with
      | true => simp only [if_true]; exact ih _
      | false => rfl

theorem printEnds_same (s : Session T P) (marks : List CommandMark) : printEnds s marks = s.endAll marks := by
  induction marks generalizing s with
  | nil => rfl
  | cons cmd rest ih =>
      simp only [printEnds,Session.endAll,printJsonEvent]
      cases sent : (s.events.send (s.encoder.encodeCommandEnd cmd.line cmd.exit).2).2 with
      | true => simp only [if_true]; exact ih _
      | false => rfl

-- Whatever the sinks do, the debug mode stops exactly where the session does, but for errors.
theorem handleEvent_same (s : Session T P) (event : TransportEvent) (fine : ∀ err, event ≠ .error err) :
    runStep (s,true) event = s.handleTransportEvent event := by
  cases event with
  | output data =>
      simp only [runStep,handleEvent,Session.handleTransportEvent,sendPending_same,printEnds_same,if_true]
      generalize Session.writeAll {s with engine := (s.engine.feed data).drainPendingWrites.1}
        (s.engine.feed data).drainPendingWrites.2 = written
      obtain ⟨s,going⟩ := written
      cases going with
      | false => rfl
      | true =>
          dsimp only
          generalize Session.endAll {s with engine := s.engine.drainCommandEnds.1} s.engine.drainCommandEnds.2 = ended
          obtain ⟨s,going⟩ := ended
          cases going with
          | false => rfl
          | true =>
              simp only [printJsonEvent,Session.emitFrame]
              generalize Outlet.send s.events (s.encoder.encodeFrame s.engine.takeScrolledRows.1.snapshot
                s.engine.takeScrolledRows.1.modes s.engine.takeScrolledRows.1.title s.engine.takeScrolledRows.2
                s.engine.scrollbackCleared).2 = sent
              obtain ⟨events,taken⟩ := sent
              cases taken <;> rfl
  | exited status =>
      simp only [runStep,handleEvent,Session.handleTransportEvent,printJsonEvent,if_true]
      generalize s.events.send (s.encoder.encodeExited status).2 = sent
      obtain ⟨events,taken⟩ := sent
      cases taken <;> rfl
  | error err => exact absurd rfl (fine err)

theorem step_same (p : Pair T P) (event : TransportEvent) (same : p.session = p.debug) (fine : NoError p event) :
    (p.step event).session = (p.step event).debug := by
  obtain ⟨⟨s,going⟩,debug⟩ := p
  cases same
  cases going with
  | true => exact (handleEvent_same s event (fine rfl)).symm
  | false => rfl

-- At an error the session goes on, and the debug mode does not.
theorem step_apart (p : Pair T P) (same : p.session = p.debug) (running : p.session.2 = true) (err : TransportError) :
    ¬ Agree (p.step (.error err)) := by
  obtain ⟨⟨s,going⟩,debug⟩ := p
  cases same
  cases running
  intro agree
  cases agree.2.2

theorem same_agree (p : Pair T P) (same : p.session = p.debug) : Agree p := by
  unfold Agree
  rw [same]
  exact ⟨rfl,rfl,rfl⟩

theorem step_exact (p : Pair T P) (event : TransportEvent) (same : p.session = p.debug) : Agree (p.step event) ↔ NoError p event := by
  constructor
  · intro agree running err found
    subst found
    exact step_apart p same running err agree
  · intro fine
    exact same_agree _ (step_same p event same fine)

-- From one state, over any events: the two pipelines agree after each of them exactly
-- when no error event comes while they run.
theorem pipelines_agree (s : Session T P) (events : List TransportEvent) :
    StepRuns.Throughout Pair.step Agree (Pair.both s) events ↔ StepRuns.Along Pair.step NoError (Pair.both s) events :=
  StepRuns.throughout_exact (fun p => p.session = p.debug) events rfl same_agree step_exact step_same

open LineTerminal

def opened : Session terminal sideParser := Session.spawnWithTransport ⟨2,4⟩

def afterError : List TransportEvent := [.error (.write "pty write error"),.output (lines 1)]

-- The session draws the line behind the error, the debug mode has stopped.
theorem error_parts :
    ¬ StepRuns.Throughout Pair.step Agree (Pair.both opened) afterError ∧
      (afterError.foldl Pair.step (Pair.both opened)).session.1.events.sent.length = 2 ∧
      (afterError.foldl Pair.step (Pair.both opened)).debug.1.events.sent.length = 1 := by
  refine ⟨fun all => ?_,by decide +kernel,by decide +kernel⟩
  exact step_apart (Pair.both opened) rfl rfl (.write "pty write error") (StepRuns.throughout_start all.2)

end Perga.RawDebug

import Perga.EngineRuns
import Perga.InputEncoders
import Perga.ProtocolEncoder

namespace Perga

inductive SessionInput where
  | key (event : KeyEvent)
  | paste (text : List Char)
  | mouse (event : MouseEvent)
  | focus (gained : Bool)
  | resize (size : TerminalSize)
  deriving DecidableEq, Repr

structure Session (T : Terminal) (P : VteParser) where
  engine : TerminalEngine T P
  encoder : ProtocolEncoder
  commands : Outlet TransportCommand
  events : Outlet ProtocolEvent

-- What a `select!` of the loop can yield; a closed channel yields an error.
inductive Received where
  | event (ev : TransportEvent)
  | eventsClosed
  | input (i : SessionInput)
  | inputsClosed
  deriving DecidableEq, Repr

namespace Session
variable {T : Terminal} {P : VteParser}

-- Each handler answers whether the loop goes on.
def sendCommand (s : Session T P) (command : TransportCommand) : Session T P × Bool :=
  ({s with commands := (s.commands.send command).1},(s.commands.send command).2)

def emitFrame (s : Session T P) (scrolled : List Row) (cleared : Bool) : Session T P × Bool :=
  let encoded := s.encoder.encodeFrame s.engine.snapshot s.engine.modes s.engine.title scrolled cleared
  ({s with encoder := encoded.1,events := (s.events.send encoded.2).1},(s.events.send encoded.2).2)

def writeAll (s : Session T P) : List (List UInt8) → Session T P × Bool
  | [] => (s,true)
  | w :: rest =>
    match s.sendCommand (.write w) with
    | (s,true) => s.writeAll rest
    | (s,false) => (s,false)

def endAll (s : Session T P) : List CommandMark → Session T P × Bool
  | [] => (s,true)
  | cmd :: rest =>
    let encoded := s.encoder.encodeCommandEnd cmd.line cmd.exit
    let next := {s with encoder := encoded.1,events := (s.events.send encoded.2).1}
    if (s.events.send encoded.2).2 then next.endAll rest else (next,false)

def handleTransportEvent (s : Session T P) : TransportEvent → Session T P × Bool
  | .output bytes =>
    let fed := s.engine.feed bytes
    match {s with engine := fed.drainPendingWrites.1}.writeAll fed.drainPendingWrites.2 with
    | (s,false) => (s,false)
    | (s,true) =>
      match {s with engine := s.engine.drainCommandEnds.1}.endAll s.engine.drainCommandEnds.2 with
      | (s,false) => (s,false)
      | (s,true) =>
        let cleared := s.engine.scrollbackCleared
        let scrolled := s.engine.takeScrolledRows
        {s with engine := scrolled.1}.emitFrame scrolled.2 cleared
  | .exited status =>
    let encoded := s.encoder.encodeExited status
    ({s with encoder := encoded.1,events := (s.events.send encoded.2).1},false)
  | .error _ => (s,true)

def handleSessionInput (s : Session T P) : SessionInput → Session T P × Bool
  | .key k =>
    let bytes := InputEncoders.encodeKey k s.engine.modes
    if bytes.isEmpty then (s,true) else s.sendCommand (.write bytes)
  | .paste text => s.sendCommand (.write (InputEncoders.encodePaste text s.engine.modes))
  | .mouse m =>
    match InputEncoders.encodeMouse m s.engine.modes with
    | some bytes => s.sendCommand (.write bytes)
    | none => (s,true)
  | .focus gained =>
    match InputEncoders.encodeFocus gained s.engine.modes with
    | some bytes => s.sendCommand (.write bytes)
    | none => (s,true)
  | .resize size =>
    match {s with engine := s.engine.resize size}.sendCommand (.resize size) with
    | (s,false) => (s,false)
    | (s,true) => s.emitFrame [] false

def handle (s : Session T P) : Received → Session T P × Bool
  | .event ev => s.handleTransportEvent ev
  | .eventsClosed => (s,false)
  | .input i => s.handleSessionInput i
  | .inputsClosed => (s,false)

def runEngineLoop (s : Session T P) : List Received → Session T P × Bool
  | [] => (s,true)
  | message :: rest =>
    match s.handle message with
    | (s,true) => s.runEngineLoop rest
    | (s,false) => (s,false)

-- The baseline frame is in the event channel before the loop starts.
def spawnWithTransport (size : TerminalSize) : Session T P :=
  let engine := TerminalEngine.new size
  let baseline := ProtocolEncoder.new.encodeFrame engine.snapshot engine.modes engine.title [] false
  ⟨engine,baseline.1,⟨[],none⟩,((⟨[],none⟩ : Outlet ProtocolEvent).send baseline.2).1⟩

-- The loop as a step on a session that is running or has returned.
def loopStep (s : Session T P × Bool) (message : Received) : Session T P × Bool :=
  if s.2 then s.1.handle message else s

theorem loopStep_returned (s : Session T P) (messages : List Received) :
    messages.foldl loopStep (s,false) = (s,false) := by
  induction messages with
  | nil => rfl
  | cons message rest ih => exact ih

theorem runEngineLoop_steps (s : Session T P) (messages : List Received) :
    s.runEngineLoop messages = messages.foldl loopStep (s,true) := by
  induction messages generalizing s with
  | nil => rfl
  | cons message rest ih =>
      have step : loopStep (s,true) message = s.handle message := rfl
      rw [runEngineLoop,List.foldl_cons,step]
      obtain ⟨next,running⟩ := s.handle message
      cases running with
      | true => exact ih next
      | false => exact (loopStep_returned next rest).symm

def endEvents (seq : Nat) : List CommandMark → List ProtocolEvent
  | [] => []
  | cmd :: rest => .commandEnd (seq+1) cmd.exit cmd.line :: endEvents (seq+1) rest

-- Both receivers are there: every send succeeds.
structure Alive (s : Session T P) : Prop where
  commands : s.commands.room = none
  events : s.events.room = none

theorem writeAll_alive (s : Session T P) (alive : s.commands.room = none) (writes : List (List UInt8)) :
    s.writeAll writes = ({s with commands := ⟨s.commands.sent ++ writes.map .write,none⟩},true) := by
  induction writes generalizing s with
  | nil =>
      have same : s.commands = ⟨s.commands.sent,none⟩ := by rw [← alive]
      rw [writeAll,List.map_nil,List.append_nil,← same]
  | cons w rest ih =>
      have sent : s.sendCommand (.write w) = ({s with commands := ⟨s.commands.sent ++ [.write w],none⟩},true) := by
        simp only [sendCommand,Outlet.send,alive]
      rw [writeAll,sent]
      simp only
      rw [ih _ rfl]
      simp

theorem endAll_alive (s : Session T P) (alive : s.events.room = none) (marks : List CommandMark) :
    s.endAll marks =
      ({s with
        encoder := {s.encoder with seq := s.encoder.seq+marks.length}
        events := ⟨s.events.sent ++ endEvents s.encoder.seq marks,none⟩},true) := by
  induction marks generalizing s with
  | nil =>
      have same : s.events = ⟨s.events.sent,none⟩ := by rw [← alive]
      rw [endAll,endEvents,List.append_nil,← same]
      rfl
  | cons cmd rest ih =>
      simp only [endAll,Outlet.send,alive,if_true]
      rw [ih _ rfl]
      simp [ProtocolEncoder.encodeCommandEnd,endEvents,Nat.add_assoc,Nat.add_comm 1]

-- Whatever the receivers do: the writes touch the commands alone, and add nothing else there.
theorem writeAll_frame (s : Session T P) (writes : List (List UInt8)) :
    ∃ commands, (s.writeAll writes).1 = {s with commands := commands} ∧
      ∀ c ∈ commands.sent, c ∈ s.commands.sent ∨ ∃ bytes, c = .write bytes := by
  induction writes generalizing s with
  | nil => exact ⟨s.commands,rfl,fun c found => .inl found⟩
  | cons w rest ih =>
      have sent : ∀ c ∈ (s.commands.send (.write w)).1.sent, c ∈ s.commands.sent ∨ ∃ bytes, c = .write bytes :=
        fun c found => (s.commands.send_sent (.write w) found).imp id fun same => ⟨w,same⟩
      simp only [writeAll]
      split
      · rename_i next going
        obtain ⟨commands,same,grown⟩ := ih next
        cases (Prod.mk.inj going).1
        refine ⟨commands,same,fun c found => ?_⟩
        rcases grown c found with old | written
        · exact sent c old
        · exact .inr written
      · rename_i next stopped
        cases (Prod.mk.inj stopped).1
        exact ⟨_,rfl,sent⟩

theorem endAll_frame (s : Session T P) (marks : List CommandMark) :
    ∃ encoder events, (s.endAll marks).1 = {s with encoder := encoder,events := events} := by
  induction marks generalizing s with
  | nil => exact ⟨s.encoder,s.events,rfl⟩
  | cons cmd rest ih =>
      simp only [endAll]
      split
      · exact ih _
      · exact ⟨_,_,rfl⟩

-- A frame as the loop encodes it from an engine, after `ends` command ends.
def frameAfter (s : Session T P) (e : TerminalEngine T P) (ends : Nat) (scrolled : List Row) (cleared : Bool) :
    ProtocolEncoder × ProtocolEvent :=
  {s.encoder with seq := s.encoder.seq+ends}.encodeFrame e.snapshot e.modes e.title scrolled cleared

def fedEngine (e : TerminalEngine T P) (bytes : List UInt8) : TerminalEngine T P :=
  (e.feed bytes).drainPendingWrites.1.drainCommandEnds.1.takeScrolledRows.1

theorem drained_rows (e : TerminalEngine T P) :
    e.drainPendingWrites.1.drainCommandEnds.1.takeScrolledRows.2 = e.takeScrolledRows.2 :=
  TerminalEngine.takeScrolledRows_aside e _ _

-- The session after an output of which every command and event was taken.
def afterOutput (s : Session T P) (bytes : List UInt8) : Session T P :=
  let fed := s.engine.feed bytes
  let frame := frameAfter s (fedEngine s.engine bytes) fed.drainCommandEnds.2.length fed.takeScrolledRows.2
    fed.scrollbackCleared
  ⟨fedEngine s.engine bytes,frame.1,⟨s.commands.sent ++ fed.drainPendingWrites.2.map .write,none⟩,
    ⟨s.events.sent ++ endEvents s.encoder.seq fed.drainCommandEnds.2 ++ [frame.2],none⟩⟩

def afterResize (s : Session T P) (size : TerminalSize) : Session T P :=
  let frame := frameAfter s (s.engine.resize size) 0 [] false
  ⟨s.engine.resize size,frame.1,⟨s.commands.sent ++ [.resize size],none⟩,⟨s.events.sent ++ [frame.2],none⟩⟩

def afterExit (s : Session T P) (status : ExitStatus) : Session T P :=
  ⟨s.engine,⟨s.encoder.seq+1,s.encoder.last⟩,s.commands,⟨s.events.sent ++ [.exited (s.encoder.seq+1) status],none⟩⟩

theorem output_alive (s : Session T P) (alive : Alive s) (bytes : List UInt8) :
    s.handleTransportEvent (.output bytes) = (afterOutput s bytes,true) := by
  have written := writeAll_alive {s with engine := (s.engine.feed bytes).drainPendingWrites.1} alive.commands
    (s.engine.feed bytes).drainPendingWrites.2
  have ended := endAll_alive
    ⟨(s.engine.feed bytes).drainPendingWrites.1.drainCommandEnds.1,s.encoder,
      ⟨s.commands.sent ++ (s.engine.feed bytes).drainPendingWrites.2.map .write,none⟩,s.events⟩ alive.events
    (s.engine.feed bytes).drainPendingWrites.1.drainCommandEnds.2
  simp only [handleTransportEvent,written,ended,emitFrame,Outlet.send,drained_rows]
  rfl

theorem resize_alive (s : Session T P) (alive : Alive s) (size : TerminalSize) :
    s.handleSessionInput (.resize size) = (afterResize s size,true) := by
  simp only [handleSessionInput,sendCommand,Outlet.send,alive.commands,emitFrame,alive.events]
  rfl

theorem nothing_sent (s : Session T P) (alive : Alive s) : s = {s with commands := ⟨s.commands.sent ++ [],none⟩} := by
  rw [List.append_nil,← alive.commands]

-- Every other input leaves engine, encoder and events alone.
theorem input_alive (s : Session T P) (alive : Alive s) (i : SessionInput) (other : ∀ size, i ≠ .resize size) :
    ∃ more, s.handleSessionInput i = ({s with commands := ⟨s.commands.sent ++ more,none⟩},true) := by
  have same := nothing_sent s alive
  have one : ∀ command, s.sendCommand command = ({s with commands := ⟨s.commands.sent ++ [command],none⟩},true) := by
    intro command
    simp only [sendCommand,Outlet.send,alive.commands]
  cases i with
  | key k =>
      simp only [handleSessionInput]
      split
      · exact ⟨[],by rw [← same]⟩
      · exact ⟨_,one _⟩
  | paste text => exact ⟨_,one _⟩
  | mouse m =>
      simp only [handleSessionInput]
      split
      · exact ⟨_,one _⟩
      · exact ⟨[],by rw [← same]⟩
  | focus gained =>
      simp only [handleSessionInput]
      split
      · exact ⟨_,one _⟩
      · exact ⟨[],by rw [← same]⟩
  | resize size => exact absurd rfl (other size)

theorem exited_alive (s : Session T P) (alive : Alive s) (status : ExitStatus) :
    s.handleTransportEvent (.exited status) = (afterExit s status,false) := by
  simp only [handleTransportEvent,Outlet.send,alive.events,ProtocolEncoder.encodeExited,afterExit]

-- The messages that at most write to the backend, and the ends of the two channels.
def quiet : Received → Bool
  | .event (.error _) => true
  | .input (.resize _) => false
  | .input _ => true
  | _ => false

def closes : Received → Bool
  | .eventsClosed => true
  | .inputsClosed => true
  | _ => false

-- All that a running loop does while both receivers are there.
inductive Handles (s : Session T P) : Received → Session T P × Bool → Prop where
  | output (bytes : List UInt8) : Handles s (.event (.output bytes)) (afterOutput s bytes,true)
  | exited (status : ExitStatus) : Handles s (.event (.exited status)) (afterExit s status,false)
  | resize (size : TerminalSize) : Handles s (.input (.resize size)) (afterResize s size,true)
  | quiet (message : Received) (more : List TransportCommand) (kind : quiet message = true) :
      Handles s message ({s with commands := ⟨s.commands.sent ++ more,none⟩},true)
  | closed (message : Received) (kind : closes message = true) : Handles s message (s,false)

theorem step_handles (s : Session T P) (alive : Alive s) (message : Received) :
    Handles s message (loopStep (s,true) message) := by
  change Handles s message (s.handle message)
  have input : ∀ i, (∀ size, i ≠ .resize size) → quiet (.input i) = true → Handles s (.input i) (s.handle (.input i)) := by
    intro i other kind
    obtain ⟨more,handled⟩ := input_alive s alive i other
    rw [handle,handled]
    exact .quiet _ more kind
  cases message with
  | event ev =>
      cases ev with
      | output bytes => rw [handle,output_alive s alive]; exact .output bytes
      | exited status => rw [handle,exited_alive s alive]; exact .exited status
      | error err =>
          have handled := Handles.quiet (s := s) (.event (.error err)) [] rfl
          rwa [← nothing_sent s alive] at handled
  | eventsClosed => exact .closed _ rfl
  | inputsClosed => exact .closed _ rfl
  | input i =>
      cases i with
      | resize size => rw [handle,resize_alive s alive]; exact .resize size
      | key k => exact input _ (by simp) rfl
      | paste text => exact input _ (by simp) rfl
      | mouse m => exact input _ (by simp) rfl
      | focus gained => exact input _ (by simp) rfl
end Session

end Perga

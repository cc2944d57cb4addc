import Perga.EventStream

namespace Perga

inductive ClientMessage where
  | key (event : KeyEvent)
  | paste (text : List Char)
  | mouse (event : MouseEvent)
  | focus (gained : Bool)
  | resize (rows cols : UInt16)
  deriving DecidableEq, Repr

def ClientMessage.intoSessionInput : ClientMessage → SessionInput
  | .key k => .key k
  | .paste text => .paste text
  | .mouse m => .mouse m
  | .focus gained => .focus gained
  | .resize rows cols => .resize ⟨rows,cols⟩

namespace ServerSession

-- 1 <= size <= 1000.
def validateSize (rows cols : UInt16) : Except String (UInt16 × UInt16) :=
  if !(1 ≤ rows && rows ≤ 1000) then .error ("rows must be in 1..=1000, got " ++ toString rows)
  else if !(1 ≤ cols && cols ≤ 1000) then .error ("cols must be in 1..=1000, got " ++ toString cols)
  else .ok (rows,cols)

-- The size that the upgraded socket opens its session with, or a bad request.
def wsHandler (rows cols : UInt16) : Except (Nat × String) TerminalSize :=
  match validateSize rows cols with
  | .error msg => .error (400,msg)
  | .ok (rows,cols) => .ok ⟨rows,cols⟩

-- What the socket yields: a text that parses or not, frames without meaning here, a
-- close, an error, or the end of the stream.
inductive Frame where
  | text (parsed : Option ClientMessage)
  | binary
  | ping
  | pong
  | close
  | failed
  | ended
  deriving DecidableEq, Repr

-- The bridge thread, between two receives or with an event in hand.
inductive Bridge where
  | receiving
  | holding (ev : ProtocolEvent)
  | finished
  deriving DecidableEq, Repr

inductive Outbound where
  | receiving
  | sending (ev : ProtocolEvent)
  | finished
  deriving DecidableEq, Repr

-- The engine thread sends what a message has made it encode one by one; `unsent` are the
-- events still to be sent.
structure World (T : Terminal) (P : VteParser) where
  session : Session T P
  running : Bool
  unsent : List ProtocolEvent
  inputReceiver : Bool
  eventSender : Bool
  backend : List TransportEvent
  backendOpen : Bool
  inputs : List SessionInput
  channel : List ProtocolEvent
  bridge : Bridge
  queue : List ProtocolEvent
  outbound : Outbound
  written : List ProtocolEvent
  frames : List Frame
  inbound : Bool

-- `dropCommands` names how many more commands the backend takes, `outbound` whether the
-- socket takes a frame.
inductive Move where
  | backend (ev : TransportEvent)
  | endBackend
  | dropCommands (after : Nat)
  | frame (f : Frame)
  | engineEvent
  | engineInput
  | publish
  | dropInputReceiver
  | dropEventSender
  | bridge
  | outbound (taken : Bool)
  | inbound
  deriving DecidableEq, Repr

namespace World
variable {T : Terminal} {P : VteParser}

-- Either future's end ends the `select!`, and the session is dropped.
def dropped (w : World T P) : Bool := w.outbound == .finished || !w.inbound

def ready (w : World T P) : Bool := w.running && w.unsent.isEmpty

def serve (w : World T P) (message : Received) : World T P :=
  let next := w.session.handle message
  {w with
    session := next.1
    running := next.2
    unsent := next.1.events.sent.drop w.session.events.sent.length}

def engineEvent (w : World T P) : World T P :=
  if w.ready then
    match w.backend with
    | ev :: rest => {w with backend := rest}.serve (.event ev)
    | [] => if w.backendOpen then w else w.serve .eventsClosed
  else w

-- The inbound future holds a sender of its own until it ends.
def engineInput (w : World T P) : World T P :=
  if w.ready then
    match w.inputs with
    | i :: rest => {w with inputs := rest}.serve (.input i)
    | [] => if w.inbound then w else w.serve .inputsClosed
  else w

-- The session's own receiver keeps the event channel open.
def publish (w : World T P) : World T P :=
  match w.unsent with
  | ev :: rest => {w with unsent := rest,channel := w.channel ++ [ev]}
  | [] => w

def bridgeStep (w : World T P) : World T P :=
  match w.bridge with
  | .receiving =>
    match w.channel with
    | ev :: rest => {w with channel := rest,bridge := .holding ev}
    | [] => if w.eventSender then w else {w with bridge := .finished}
  | .holding ev =>
    if w.outbound = .finished then {w with bridge := .finished}
    else {w with queue := w.queue ++ [ev],bridge := .receiving}
  | .finished => w

def outboundStep (w : World T P) (taken : Bool) : World T P :=
  if w.dropped then w
  else
    match w.outbound with
    | .receiving =>
      match w.queue with
      | ev :: rest => {w with queue := rest,outbound := .sending ev}
      | [] => if w.bridge = .finished then {w with outbound := .finished} else w
    | .sending ev =>
      if taken then {w with written := w.written ++ [ev],outbound := .receiving} else {w with outbound := .finished}
    | .finished => w

def inboundStep (w : World T P) : World T P :=
  if w.dropped then w
  else
    match w.frames with
    | [] => w
    | .text (some cm) :: rest =>
      if w.inputReceiver then {w with frames := rest,inputs := w.inputs ++ [cm.intoSessionInput]}
      else {w with frames := rest,inbound := false}
    | .text none :: rest => {w with frames := rest}
    | .binary :: rest => {w with frames := rest}
    | .ping :: rest => {w with frames := rest}
    | .pong :: rest => {w with frames := rest}
    | .close :: rest => {w with frames := rest,inbound := false}
    | .failed :: rest => {w with frames := rest,inbound := false}
    | .ended :: rest => {w with frames := rest,inbound := false}

def step (w : World T P) : Move → World T P
  | .backend ev => if w.backendOpen then {w with backend := w.backend ++ [ev]} else w
  | .endBackend => {w with backendOpen := false}
  | .dropCommands after =>
    let room := (w.session.commands.room.map (min after)).getD after
    {w with session := {w.session with commands := {w.session.commands with room := some room}}}
  | .frame f => {w with frames := w.frames ++ [f]}
  | .engineEvent => w.engineEvent
  | .engineInput => w.engineInput
  | .publish => w.publish
  | .dropInputReceiver => if !w.running && w.unsent.isEmpty then {w with inputReceiver := false} else w
  | .dropEventSender => if !w.running && w.unsent.isEmpty then {w with eventSender := false} else w
  | .bridge => w.bridgeStep
  | .outbound taken => w.outboundStep taken
  | .inbound => w.inboundStep
end World

def begun {T : Terminal} {P : VteParser} (size : TerminalSize) : World T P :=
  let session : Session T P := Session.spawnWithTransport size
  ⟨session,true,[],true,true,[],true,[],session.events.sent,.receiving,[],.receiving,[],[],true⟩

variable {T : Terminal} {P : VteParser}

-- What a step does to the session: the engine handles what it has picked, or nothing but
-- the room for its commands changes.
inductive Turn (w : World T P) (move : Move) : World T P → Prop where
  | event (ev : TransportEvent) (rest : List TransportEvent) (ready : w.ready = true) (picked : move = .engineEvent) :
      Turn w move ({w with backend := rest}.serve (.event ev))
  | eventsClosed (ready : w.ready = true) (picked : move = .engineEvent) : Turn w move (w.serve .eventsClosed)
  | input (i : SessionInput) (rest : List SessionInput) (ready : w.ready = true) (picked : move = .engineInput)
      (next : w.inputs = i :: rest) : Turn w move ({w with inputs := rest}.serve (.input i))
  | inputsClosed (ready : w.ready = true) (picked : move = .engineInput) (empty : w.inputs = []) :
      Turn w move (w.serve .inputsClosed)
  | aside (next : World T P) (engine : next.session.engine = w.session.engine) (events : next.session.events = w.session.events)
      (sent : next.session.commands.sent = w.session.commands.sent)
      (idle : move = .engineInput → w.ready = true → w.inputs = []) : Turn w move next

theorem step_turn (w : World T P) (move : Move) : Turn w move (w.step move) := by
  have aside : ∀ next : World T P, next.session = w.session → move ≠ .engineInput → Turn w move next := by
    intro next same other
    exact .aside next (by rw [same]) (by rw [same]) (by rw [same]) fun picked => absurd picked other
  cases move with
  | engineEvent =>
      simp only [World.step,World.engineEvent]
      split
      · rename_i ready
        split
        · exact .event _ _ ready rfl
        · split
          · exact aside w rfl (by simp)
          · exact .eventsClosed ready rfl
      · exact aside w rfl (by simp)
  | engineInput =>
      simp only [World.step,World.engineInput]
      split
      · rename_i ready
        split
        · rename_i i rest next
          exact .input i rest ready rfl next
        · rename_i empty
          split
          · exact .aside w rfl rfl rfl fun _ _ => empty
          · exact .inputsClosed ready rfl empty
      · rename_i idle
        exact .aside w rfl rfl rfl fun _ ready => absurd ready idle
  | backend ev => simp only [World.step]; split <;> exact aside _ rfl (by simp)
  | endBackend => exact aside _ rfl (by simp)
  | dropCommands after => exact .aside _ rfl rfl rfl fun picked => by cases picked
  | frame f => exact aside _ rfl (by simp)
  | publish => simp only [World.step,World.publish]; split <;> exact aside _ rfl (by simp)
  | dropInputReceiver => simp only [World.step]; split <;> exact aside _ rfl (by simp)
  | dropEventSender => simp only [World.step]; split <;> exact aside _ rfl (by simp)
  | bridge =>
      simp only [World.step,World.bridgeStep]
      split
      · split
        · exact aside _ rfl (by simp)
        · split <;> exact aside _ rfl (by simp)
      · split <;> exact aside _ rfl (by simp)
      · exact aside _ rfl (by simp)
  | outbound taken =>
      simp only [World.step,World.outboundStep]
      split
      · exact aside _ rfl (by simp)
      · split
        · split
          · exact aside _ rfl (by simp)
          · split <;> exact aside _ rfl (by simp)
        · split <;> exact aside _ rfl (by simp)
        · exact aside _ rfl (by simp)
  | inbound =>
      simp only [World.step,World.inboundStep]
      split
      · exact aside _ rfl (by simp)
      · split <;> first | exact aside _ rfl (by simp) | (split <;> exact aside _ rfl (by simp))

end ServerSession
end Perga

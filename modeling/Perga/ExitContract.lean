import Perga.EventStream
import Perga.LineTerminal

namespace Perga.ExitContract
open Session EventStream
variable {T : Terminal} {P : VteParser}

-- What a backend tells: outputs and errors in its order, and its exit as the last event.
structure Backend where
  before : List TransportEvent
  status : ExitStatus
  last : ∀ ev ∈ before, ∀ status, ev ≠ .exited status

def Backend.script (b : Backend) : List TransportEvent := b.before ++ [.exited b.status]

def outputOf : TransportEvent → Option (List UInt8)
  | .output bytes => some bytes
  | _ => none

def exitOf : ProtocolEvent → Option ExitStatus
  | .exited _ status => some status
  | _ => none

def exits (events : List ProtocolEvent) : List ExitStatus := events.filterMap exitOf

def outputs (events : List TransportEvent) : List (List UInt8) := events.filterMap outputOf

-- The engine loop between its two channels. `encoded` is a record of the chunks whose
-- handling the loop has completed; no code reads it.
structure World (T : Terminal) (P : VteParser) where
  session : Session T P
  running : Bool
  script : List TransportEvent
  queue : List TransportEvent
  inputs : List SessionInput
  encoded : List (List UInt8)

-- A drop may fall between two sends of one handler, so it names how many more sends
-- the receiver still takes.
inductive Move where
  | queue
  | type (i : SessionInput)
  | takeEvent
  | takeInput
  | drop (after : Nat)
  deriving DecidableEq, Repr

def dropReceiver (s : Session T P) (after : Nat) : Session T P :=
  {s with commands := {s.commands with room := some ((s.commands.room.map (min after)).getD after)}}

def chunksOf : Received → List (List UInt8)
  | .event ev => (outputOf ev).toList
  | _ => []

def exitsOf : Received → List ExitStatus
  | .event (.exited status) => [status]
  | _ => []

namespace World
def serve (w : World T P) (message : Received) : World T P :=
  let next := w.session.handle message
  {w with
    session := next.1
    running := next.2
    encoded := if next.2 then w.encoded ++ chunksOf message else w.encoded}

def received (w : World T P) : Move → Option Received
  | .takeEvent => if w.running then w.queue.head?.map .event else none
  | .takeInput => if w.running then w.inputs.head?.map .input else none
  | _ => none

-- An empty queue blocks its branch of the `select!`: both senders are still there.
def step (w : World T P) : Move → World T P
  | .queue =>
    match w.script with
    | [] => w
    | ev :: rest => {w with script := rest,queue := w.queue ++ [ev]}
  | .type i => {w with inputs := w.inputs ++ [i]}
  | .takeEvent =>
    match w.received .takeEvent with
    | some message => {w with queue := w.queue.tail}.serve message
    | none => w
  | .takeInput =>
    match w.received .takeInput with
    | some message => {w with inputs := w.inputs.tail}.serve message
    | none => w
  | .drop after => {w with session := dropReceiver w.session after}
end World

def begun (b : Backend) (size : TerminalSize) : World T P := ⟨spawnWithTransport size,true,b.script,[],[],[]⟩

-- The exit contract: a loop that has returned has encoded every chunk and sent the exit.
def Honoured (b : Backend) (w : World T P) : Prop :=
  w.running = false → w.encoded = outputs b.before ∧ exits w.session.events.sent = [b.status]

-- How many commands the handling of a message sends to the backend.
def needed (s : Session T P) : Received → Nat
  | .event (.output bytes) => (T.listen s.engine.term s.engine.state bytes).pendingWrites.length
  | .input (.key _) => 1
  | .input (.paste _) => 1
  | .input (.mouse m) => (InputEncoders.encodeMouse m s.engine.modes).isSome.toNat
  | .input (.focus gained) => (InputEncoders.encodeFocus gained s.engine.modes).isSome.toNat
  | .input (.resize _) => 1
  | _ => 0

def takes (o : Outlet α) (n : Nat) : Bool :=
  match o.room with
  | none => true
  | some room => decide (n ≤ room)

theorem takes_none (o : Outlet α) : takes o 0 = true := by
  unfold takes
  cases o.room <;> simp

def Fits (w : World T P) (move : Move) : Prop :=
  ∀ message, w.received move = some message → takes w.session.commands (needed w.session message) = true

-- What the record stands for: the chunk was fed and its events are in the channel.
def Recorded (w : World T P) (move : Move) : Prop :=
  ∀ bytes, w.received move = some (.event (.output bytes)) → (w.step move).encoded = w.encoded ++ [bytes] →
    (w.step move).session.engine = fedEngine w.session.engine bytes ∧
      ∃ frame, (isInit frame = true ∨ isPatch frame = true) ∧
        (w.step move).session.events.sent = w.session.events.sent ++
          endEvents w.session.encoder.seq (w.session.engine.feed bytes).drainCommandEnds.2 ++ [frame]

theorem send_takes (s : Session T P) (command : TransportCommand) :
    ∃ outlet, s.sendCommand command = ({s with commands := outlet},takes s.commands 1) := by
  refine ⟨(s.commands.send command).1,?_⟩
  unfold sendCommand Outlet.send takes
  cases s.commands.room with
  | none => rfl
  | some room => cases room <;> rfl

theorem writeAll_takes (s : Session T P) (writes : List (List UInt8)) :
    ∃ outlet, s.writeAll writes = ({s with commands := outlet},takes s.commands writes.length) := by
  induction writes generalizing s with
  | nil =>
      refine ⟨s.commands,?_⟩
      unfold writeAll takes
      cases s.commands.room <;> simp
  | cons w rest ih =>
      cases room : s.commands.room with
      | none =>
          obtain ⟨outlet,later⟩ := ih {s with commands := ⟨s.commands.sent ++ [.write w],none⟩}
          refine ⟨outlet,?_⟩
          simp only [writeAll,sendCommand,Outlet.send,room,later,takes]
      | some room' =>
          cases room' with
          | zero =>
              refine ⟨s.commands,?_⟩
              simp [writeAll,sendCommand,Outlet.send,room,takes]
          | succ n =>
              obtain ⟨outlet,later⟩ := ih {s with commands := ⟨s.commands.sent ++ [.write w],some n⟩}
              refine ⟨outlet,?_⟩
              simp [writeAll,sendCommand,Outlet.send,room,later,takes]

theorem frame_some (e : ProtocolEncoder) (snapshot : Snapshot) (modes : TerminalModes) (title : Option String)
    (scrolled : List Row) (cleared : Bool) :
    isInit (e.encodeFrame snapshot modes title scrolled cleared).2 = true ∨
      isPatch (e.encodeFrame snapshot modes title scrolled cleared).2 = true := by
  unfold ProtocolEncoder.encodeFrame
  split
  · split
    · exact .inr rfl
    · exact .inl rfl
  · exact .inl rfl

theorem exits_frame {frame : ProtocolEvent} (kind : isInit frame = true ∨ isPatch frame = true) : exits [frame] = [] := by
  cases frame with
  | init frame => rfl
  | patch frame => rfl
  | exited seq status => simp [isInit,isPatch] at kind
  | commandEnd seq exit line => rfl
  | sessionError seq reason => rfl

theorem exits_ends (seq : Nat) (marks : List CommandMark) : exits (endEvents seq marks) = [] := by
  induction marks generalizing seq with
  | nil => rfl
  | cons cmd rest ih => exact ih (seq+1)

theorem exits_append (first second : List ProtocolEvent) : exits (first ++ second) = exits first ++ exits second :=
  List.filterMap_append

theorem emitFrame_goes (s : Session T P) (consumer : s.events.room = none) (scrolled : List Row) (cleared : Bool) :
    (s.emitFrame scrolled cleared).2 = true ∧ (s.emitFrame scrolled cleared).1.events.room = none ∧
      (s.emitFrame scrolled cleared).1.engine = s.engine ∧
      ∃ frame, (isInit frame = true ∨ isPatch frame = true) ∧
        (s.emitFrame scrolled cleared).1.events.sent = s.events.sent ++ [frame] := by
  unfold emitFrame Outlet.send
  simp only [consumer]
  exact ⟨trivial,trivial,trivial,_,frame_some _ _ _ _ _ _,rfl⟩

theorem replies_written (s : Session T P) (settled : s.engine.shell.pending = []) (bytes : List UInt8) :
    ∃ outlet, Session.writeAll {s with engine := (s.engine.feed bytes).drainPendingWrites.1}
        (s.engine.feed bytes).drainPendingWrites.2 =
      ({s with engine := (s.engine.feed bytes).drainPendingWrites.1,commands := outlet},
        takes s.commands (needed s (.event (.output bytes)))) := by
  obtain ⟨outlet,written⟩ := writeAll_takes {s with engine := (s.engine.feed bytes).drainPendingWrites.1}
    (s.engine.feed bytes).drainPendingWrites.2
  have count : (s.engine.feed bytes).drainPendingWrites.2.length = needed s (.event (.output bytes)) := by
    rw [TerminalEngine.drainPendingWrites,Readings.feed_state settled]
    rfl
  rw [count] at written
  exact ⟨outlet,written⟩

-- An output stops at the first reply that the backend no longer takes; if it takes
-- them all, the rest of the handler cannot fail.
theorem output_stops (s : Session T P) (settled : s.engine.shell.pending = []) (bytes : List UInt8)
    (full : takes s.commands (needed s (.event (.output bytes))) = false) :
    ∃ outlet, s.handleTransportEvent (.output bytes) =
      ({s with engine := (s.engine.feed bytes).drainPendingWrites.1,commands := outlet},false) := by
  obtain ⟨outlet,written⟩ := replies_written s settled bytes
  rw [full] at written
  refine ⟨outlet,?_⟩
  simp only [handleTransportEvent,written]

theorem output_completes (s : Session T P) (consumer : s.events.room = none) (settled : s.engine.shell.pending = [])
    (bytes : List UInt8) (fits : takes s.commands (needed s (.event (.output bytes))) = true) :
    (s.handleTransportEvent (.output bytes)).2 = true ∧
      (s.handleTransportEvent (.output bytes)).1.events.room = none ∧
      (s.handleTransportEvent (.output bytes)).1.engine = fedEngine s.engine bytes ∧
      ∃ frame, (isInit frame = true ∨ isPatch frame = true) ∧
        (s.handleTransportEvent (.output bytes)).1.events.sent = s.events.sent ++
          endEvents s.encoder.seq (s.engine.feed bytes).drainCommandEnds.2 ++ [frame] := by
  obtain ⟨outlet,written⟩ := replies_written s settled bytes
  rw [fits] at written
  have ended := endAll_alive ⟨(s.engine.feed bytes).drainPendingWrites.1.drainCommandEnds.1,s.encoder,outlet,s.events⟩
    consumer (s.engine.feed bytes).drainPendingWrites.1.drainCommandEnds.2
  simp only [handleTransportEvent,written,ended]
  exact emitFrame_goes _ rfl _ _

structure Handled (s : Session T P) (message : Received) : Prop where
  goes : (s.handle message).2 = (goesOn message && takes s.commands (needed s message))
  consumer : (s.handle message).1.events.room = none
  settled : (s.handle message).1.engine.shell.pending = []
  exited : exits (s.handle message).1.events.sent = exits s.events.sent ++ exitsOf message

theorem input_handled (s : Session T P) (consumer : s.events.room = none) (settled : s.engine.shell.pending = [])
    (i : SessionInput) : Handled s (.input i) := by
  have one : ∀ command, (s.sendCommand command).2 = takes s.commands 1 ∧
      (s.sendCommand command).1.events = s.events ∧ (s.sendCommand command).1.engine = s.engine := by
    intro command
    obtain ⟨outlet,sent⟩ := send_takes s command
    rw [sent]
    exact ⟨rfl,rfl,rfl⟩
  have still : ∀ events : List ProtocolEvent, exits events = exits events ++ [] := fun events => (List.append_nil _).symm
  have writes : ∀ command, s.handle (.input i) = s.sendCommand command → needed s (.input i) = 1 →
      Handled s (.input i) := by
    intro command handled count
    obtain ⟨sent,events,engine⟩ := one command
    refine ⟨?_,?_,?_,?_⟩
    · rw [handled,sent,count]; rfl
    · rw [handled,events]; exact consumer
    · rw [handled,engine]; exact settled
    · rw [handled,events]; exact still _
  have quiet : s.handle (.input i) = (s,true) → needed s (.input i) = 0 → Handled s (.input i) := by
    intro handled count
    refine ⟨?_,?_,?_,?_⟩
    · rw [handled,count,takes_none]; rfl
    · rw [handled]; exact consumer
    · rw [handled]; exact settled
    · rw [handled]; exact still _
  cases i with
  | key k =>
      refine writes (.write (InputEncoders.encodeKey k s.engine.modes)) ?_ rfl
      simp only [handle,handleSessionInput]
      rw [if_neg]
      simpa using InputEncoders.encodeKey_nonempty k s.engine.modes
  | paste text => exact writes _ rfl rfl
  | mouse m =>
      cases encoded : InputEncoders.encodeMouse m s.engine.modes with
      | some bytes => exact writes (.write bytes) (by simp only [handle,handleSessionInput,encoded]) (by simp [needed,encoded])
      | none => exact quiet (by simp only [handle,handleSessionInput,encoded]) (by simp [needed,encoded])
  | focus gained =>
      cases encoded : InputEncoders.encodeFocus gained s.engine.modes with
      | some bytes => exact writes (.write bytes) (by simp only [handle,handleSessionInput,encoded]) (by simp [needed,encoded])
      | none => exact quiet (by simp only [handle,handleSessionInput,encoded]) (by simp [needed,encoded])
  | resize size =>
      obtain ⟨outlet,sent⟩ := send_takes {s with engine := s.engine.resize size} (.resize size)
      have framed := emitFrame_goes ⟨s.engine.resize size,s.encoder,outlet,s.events⟩ consumer [] false
      have handled : s.handle (.input (.resize size)) = s.handleSessionInput (.resize size) := rfl
      cases fits : takes s.commands 1 with
      | true =>
          rw [fits] at sent
          obtain ⟨goes,room,engine,frame,kind,told⟩ := framed
          refine ⟨?_,?_,?_,?_⟩ <;> simp only [handled,handleSessionInput,sent]
          · simp only [goes,needed,fits]; rfl
          · exact room
          · rw [engine]; exact settled
          · rw [told,exits_append,exits_frame kind]; rfl
      | false =>
          rw [fits] at sent
          refine ⟨?_,?_,?_,?_⟩ <;> simp only [handled,handleSessionInput,sent]
          · simp only [needed,fits]; rfl
          · exact consumer
          · exact settled
          · exact still _

theorem message_handled (s : Session T P) (consumer : s.events.room = none) (settled : s.engine.shell.pending = [])
    (message : Received) : Handled s message := by
  have still : ∀ events : List ProtocolEvent, exits events = exits events ++ [] := fun events => (List.append_nil _).symm
  cases message with
  | event ev =>
      cases ev with
      | output bytes =>
          cases fits : takes s.commands (needed s (.event (.output bytes))) with
          | true =>
              obtain ⟨goes,room,engine,frame,kind,told⟩ := output_completes s consumer settled bytes fits
              refine ⟨goes.trans (by rw [fits]; rfl),room,?_,?_⟩
              · change (s.handleTransportEvent (.output bytes)).1.engine.shell.pending = []
                rw [engine]
                exact (fedEngine_kept s.engine settled bytes).2
              · change exits (s.handleTransportEvent (.output bytes)).1.events.sent = _
                rw [told,exits_append,exits_append,exits_ends,exits_frame kind,List.append_nil]
                rfl
          | false =>
              obtain ⟨outlet,stopped⟩ := output_stops s settled bytes fits
              have handled : s.handle (.event (.output bytes)) = s.handleTransportEvent (.output bytes) := rfl
              refine ⟨?_,?_,?_,?_⟩ <;> rw [handled,stopped]
              · rw [fits]; rfl
              · exact consumer
              · exact Readings.feed_pending settled bytes
              · exact still _
      | exited status =>
          refine ⟨rfl,?_,settled,?_⟩ <;> simp only [handle,handleTransportEvent,Outlet.send,consumer]
          exact exits_append _ _
      | error err => exact ⟨(takes_none s.commands).symm,consumer,settled,still _⟩
  | eventsClosed => exact ⟨rfl,consumer,settled,still _⟩
  | inputsClosed => exact ⟨rfl,consumer,settled,still _⟩
  | input i => exact input_handled s consumer settled i

structure Intact (b : Backend) (w : World T P) : Prop where
  consumer : w.session.events.room = none
  settled : w.session.engine.shell.pending = []
  ahead : w.running = true → exits w.session.events.sent = [] ∧
    ∃ taken left, b.before = taken ++ left ∧ w.queue ++ w.script = left ++ [.exited b.status] ∧ w.encoded = outputs taken

theorem serve_intact {b : Backend} {w : World T P} (intact : Intact b w) (running : w.running = true)
    (message : Received) (queue : List TransportEvent) (inputs : List SessionInput)
    (ahead : goesOn message = true → exitsOf message = [] ∧
      ∃ taken left, b.before = taken ++ left ∧ queue ++ w.script = left ++ [.exited b.status] ∧
        w.encoded ++ chunksOf message = outputs taken) :
    Intact b ({w with queue := queue,inputs := inputs}.serve message) := by
  obtain ⟨goes,consumer,settled,exited⟩ := message_handled w.session intact.consumer intact.settled message
  refine ⟨consumer,settled,?_⟩
  intro on
  change (w.session.handle message).2 = true at on
  have continued : goesOn message = true := by
    rw [goes] at on
    exact (Bool.and_eq_true_iff.mp on).1
  obtain ⟨none_sent,taken,left,split,rest,encoded⟩ := ahead continued
  refine ⟨?_,taken,left,split,rest,?_⟩
  · change exits (w.session.handle message).1.events.sent = []
    rw [exited,(intact.ahead running).1,none_sent]
    rfl
  · change (if (w.session.handle message).2 then w.encoded ++ chunksOf message else w.encoded) = _
    rw [if_pos on,encoded]

theorem received_event {w : World T P} {message : Received} (received : w.received .takeEvent = some message) :
    w.running = true ∧ ∃ ev rest, w.queue = ev :: rest ∧ message = .event ev := by
  change (if w.running then w.queue.head?.map Received.event else none) = some message at received
  split at received
  · rename_i running
    cases queue : w.queue with
    | nil => rw [queue] at received; cases received
    | cons ev rest => rw [queue] at received; cases received; exact ⟨running,ev,rest,rfl,rfl⟩
  · cases received

theorem received_input {w : World T P} {message : Received} (received : w.received .takeInput = some message) :
    w.running = true ∧ ∃ i, message = .input i := by
  change (if w.running then w.inputs.head?.map Received.input else none) = some message at received
  split at received
  · rename_i running
    cases inputs : w.inputs with
    | nil => rw [inputs] at received; cases received
    | cons i rest => rw [inputs] at received; cases received; exact ⟨running,i,rfl⟩
  · cases received

-- The head of the queue is the exit, with all output encoded, or an event before it.
theorem head_event {b : Backend} {w : World T P} (intact : Intact b w) (running : w.running = true) {ev : TransportEvent}
    {rest : List TransportEvent} (queue : w.queue = ev :: rest) :
    (ev = .exited b.status ∧ w.encoded = outputs b.before) ∨
      (goesOn (.event ev) = true ∧ exitsOf (.event ev) = [] ∧ ∃ taken left, b.before = taken ++ left ∧
        rest ++ w.script = left ++ [.exited b.status] ∧ w.encoded ++ chunksOf (.event ev) = outputs taken) := by
  obtain ⟨_,taken,left,split,both,encoded⟩ := intact.ahead running
  rw [queue,List.cons_append] at both
  cases left with
  | nil => exact .inl ⟨(List.cons.inj both).1,by rw [encoded,split,List.append_nil]⟩
  | cons first left =>
      obtain ⟨rfl,later⟩ := List.cons.inj both
      have inside : ev ∈ b.before := by rw [split]; exact List.mem_append_right _ List.mem_cons_self
      have before := b.last ev inside
      refine .inr ⟨?_,?_,taken ++ [ev],left,by rw [split]; simp,later,?_⟩
      · cases ev with
        | exited status => exact absurd rfl (before status)
        | _ => rfl
      · cases ev with
        | exited status => exact absurd rfl (before status)
        | _ => rfl
      · rw [encoded,outputs,outputs,List.filterMap_append]
        cases ev <;> rfl

theorem step_intact (b : Backend) (w : World T P) (move : Move) (intact : Intact b w) : Intact b (w.step move) := by
  obtain ⟨consumer,settled,ahead⟩ := intact
  cases move with
  | queue =>
      unfold World.step
      dsimp only
      split
      · exact ⟨consumer,settled,ahead⟩
      · rename_i ev rest script
        refine ⟨consumer,settled,fun running => ?_⟩
        obtain ⟨unsent,taken,left,split,both,encoded⟩ := ahead running
        rw [script] at both
        exact ⟨unsent,taken,left,split,by rw [← both]; simp,encoded⟩
  | type i => exact ⟨consumer,settled,ahead⟩
  | drop after => exact ⟨consumer,settled,ahead⟩
  | takeEvent =>
      cases found : w.received .takeEvent with
      | none => simp only [World.step,found]; exact ⟨consumer,settled,ahead⟩
      | some message =>
          simp only [World.step,found]
          obtain ⟨running,ev,rest,queue,rfl⟩ := received_event found
          apply serve_intact ⟨consumer,settled,ahead⟩ running _ w.queue.tail w.inputs
          intro continued
          rcases head_event ⟨consumer,settled,ahead⟩ running queue with ⟨rfl,_⟩ | ⟨_,left⟩
          · cases continued
          · rw [queue]
            exact left
  | takeInput =>
      cases found : w.received .takeInput with
      | none => simp only [World.step,found]; exact ⟨consumer,settled,ahead⟩
      | some message =>
          simp only [World.step,found]
          obtain ⟨running,i,rfl⟩ := received_input found
          apply serve_intact ⟨consumer,settled,ahead⟩ running _ w.queue w.inputs.tail
          intro _
          obtain ⟨_,taken,left,split,both,encoded⟩ := ahead running
          exact ⟨rfl,taken,left,split,both,by rw [encoded]; exact List.append_nil _⟩

-- One message: the loop stays in its contract exactly when every command that the
-- handling sends still finds the receiver.
theorem serve_exact {b : Backend} {w : World T P} (intact : Intact b w) (running : w.running = true) (message : Received)
    (queue : List TransportEvent) (inputs : List SessionInput)
    (kind : goesOn message = false → exitsOf message = [b.status] ∧ chunksOf message = [] ∧ w.encoded = outputs b.before)
    (silent : goesOn message = true → exitsOf message = []) :
    Honoured b ({w with queue := queue,inputs := inputs}.serve message) ↔
      takes w.session.commands (needed w.session message) = true := by
  obtain ⟨goes,_,_,exited⟩ := message_handled w.session intact.consumer intact.settled message
  have unsent := (intact.ahead running).1
  rw [unsent,List.nil_append] at exited
  cases on : goesOn message with
  | true =>
      rw [on,Bool.true_and] at goes
      constructor
      · intro honoured
        rw [← goes]
        cases left : (w.session.handle message).2 with
        | true => rfl
        | false =>
            have told := (honoured left).2
            change exits (w.session.handle message).1.events.sent = _ at told
            rw [exited,silent on] at told
            cases told
      · intro fits stopped
        rw [fits] at goes
        exact absurd (goes.symm.trans stopped) (by simp)
  | false =>
      obtain ⟨status,no_chunk,all⟩ := kind on
      have none_needed : needed w.session message = 0 := by
        cases message with
        | event ev => cases ev <;> first | rfl | cases on
        | eventsClosed => rfl
        | inputsClosed => rfl
        | input i => cases on
      rw [none_needed,takes_none]
      refine ⟨fun _ => rfl,fun _ _ => ⟨?_,?_⟩⟩
      · change (if (w.session.handle message).2 then w.encoded ++ chunksOf message else w.encoded) = _
        rw [no_chunk,List.append_nil,ite_self,all]
      · change exits (w.session.handle message).1.events.sent = _
        rw [exited,status]

theorem idle_exact {b : Backend} {w : World T P} {move : Move} (honoured : Honoured b w) (idle : w.received move = none)
    (still : w.step move = w) : Honoured b (w.step move) ↔ Fits w move := by
  refine iff_of_true ?_ (fun message received => by rw [idle] at received; cases received)
  rw [still]
  exact honoured

theorem fits_received {w : World T P} {move : Move} {message : Received} (found : w.received move = some message) :
    Fits w move ↔ takes w.session.commands (needed w.session message) = true := by
  simp [Fits,found]

theorem step_exact (b : Backend) (w : World T P) (move : Move) (honoured : Honoured b w) (intact : Intact b w) :
    Honoured b (w.step move) ↔ Fits w move := by
  cases move with
  | queue =>
      refine iff_of_true ?_ (fun message received => by cases received)
      unfold World.step
      dsimp only
      split <;> exact honoured
  | type i => exact iff_of_true honoured (fun message received => by cases received)
  | drop after => exact iff_of_true honoured (fun message received => by cases received)
  | takeEvent =>
      cases found : w.received .takeEvent with
      | none => exact idle_exact honoured found (by simp only [World.step,found])
      | some message =>
          rw [fits_received found]
          simp only [World.step,found]
          obtain ⟨running,ev,rest,queue,rfl⟩ := received_event found
          rcases head_event intact running queue with ⟨rfl,all⟩ | ⟨on,silent,_⟩
          · exact serve_exact intact running _ w.queue.tail w.inputs (fun _ => ⟨rfl,rfl,all⟩) (fun on => by cases on)
          · apply serve_exact intact running _ w.queue.tail w.inputs
            · intro last
              rw [on] at last
              cases last
            · exact fun _ => silent
  | takeInput =>
      cases found : w.received .takeInput with
      | none => exact idle_exact honoured found (by simp only [World.step,found])
      | some message =>
          rw [fits_received found]
          simp only [World.step,found]
          obtain ⟨running,i,rfl⟩ := received_input found
          exact serve_exact intact running _ w.queue w.inputs.tail (fun last => by cases last) (fun _ => rfl)

theorem step_recorded (b : Backend) (w : World T P) (move : Move) (intact : Intact b w) : Recorded w move := by
  intro bytes received grown
  have taken : move = .takeEvent := by
    cases move with
    | takeEvent => rfl
    | takeInput => obtain ⟨_,i,wrong⟩ := received_input received; cases wrong
    | queue => cases received
    | type i => cases received
    | drop after => cases received
  subst taken
  simp only [World.step,received] at grown ⊢
  have completed : (w.session.handle (.event (.output bytes))).2 = true := by
    cases on : (w.session.handle (.event (.output bytes))).2 with
    | true => rfl
    | false =>
        have length := congrArg List.length grown
        simp [World.serve,on] at length
  have goes := (message_handled w.session intact.consumer intact.settled (.event (.output bytes))).goes
  rw [completed] at goes
  have fits := (Bool.and_eq_true_iff.mp goes.symm).2
  exact (output_completes w.session intact.consumer intact.settled bytes fits).2.2

theorem begun_intact (b : Backend) (size : TerminalSize) : Intact b (begun b size : World T P) :=
  ⟨rfl,rfl,fun _ => ⟨rfl,[],b.before,rfl,rfl,rfl⟩⟩

-- In every interleaving: the loop never returns before it has encoded all output and
-- sent the exit, exactly when no handled message has a command to send for which the
-- receiver is already gone.
theorem exit_kept (b : Backend) (size : TerminalSize) (moves : List Move) :
    StepRuns.Along World.step Recorded (begun b size : World T P) moves ∧
      (StepRuns.Throughout World.step (Honoured b) (begun b size : World T P) moves ↔
        StepRuns.Along World.step Fits (begun b size : World T P) moves) := by
  refine ⟨StepRuns.run_along (Intact b) moves (begun_intact b size) fun w move intact =>
    ⟨step_recorded b w move intact,step_intact b w move intact⟩,?_⟩
  refine StepRuns.throughout_iff_along (Honoured b) (fun stopped => by cases stopped) ?_
    (fun w move honoured intact => step_exact b w move honoured intact)
  exact StepRuns.run_along (Intact b) moves (begun_intact b size) fun w move intact =>
    ⟨intact,step_intact b w move intact⟩

open LineTerminal

-- The shell has printed a line and exited; both events are queued. The backend drops
-- its receiver, one key is handled first, and the loop is gone.
def oneLine : Backend := ⟨[.output (lines 1)],.fromCode 0,by simp⟩

def lateKey : List Move := [.queue,.queue,.drop 0,.type (.key ⟨.char 'q',⟨false,false,false⟩⟩),.takeInput,.takeEvent,.takeEvent]

def lost : World terminal sideParser := lateKey.foldl World.step (begun oneLine ⟨2,4⟩)

theorem late_key_swallows :
    ¬ StepRuns.Throughout World.step (Honoured oneLine) (begun oneLine ⟨2,4⟩ : World terminal sideParser) lateKey ∧
      lost.running = false ∧ lost.queue = oneLine.script ∧ lost.encoded = [] ∧ exits lost.session.events.sent = [] := by
  have facts : lost.running = false ∧ lost.queue = oneLine.script ∧ lost.encoded = [] ∧
      exits lost.session.events.sent = [] := by decide +kernel
  refine ⟨fun all => ?_,facts⟩
  have honoured : Honoured oneLine lost := StepRuns.throughout_last all
  cases facts.2.2.2.symm.trans (honoured facts.1).2

end Perga.ExitContract

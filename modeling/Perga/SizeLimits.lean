import Perga.ServerSession
import Perga.LineTerminal

namespace Perga.SizeLimits
open ServerSession
variable {T : Terminal} {P : VteParser}

def Admitted (size : TerminalSize) : Prop := 1 ≤ size.rows ∧ size.rows ≤ 1000 ∧ 1 ≤ size.cols ∧ size.cols ≤ 1000

instance (size : TerminalSize) : Decidable (Admitted size) :=
  inferInstanceAs (Decidable (1 ≤ size.rows ∧ size.rows ≤ 1000 ∧ 1 ≤ size.cols ∧ size.cols ≤ 1000))

-- The engine's grid, and every resize that was sent to the backend.
def Bounded (w : World T P) : Prop :=
  Admitted w.session.engine.size ∧ ∀ size, TransportCommand.resize size ∈ w.session.commands.sent → Admitted size

-- A resize that the engine is about to take asks for an admitted size.
def Ranged (w : World T P) : Move → Prop
  | .engineInput => w.ready = true → ∀ size, w.inputs.head? = some (.resize size) → Admitted size
  | _ => True

-- What the handling of all other messages leaves alone.
structure Keeps (s next : Session T P) : Prop where
  size : next.engine.size = s.engine.size
  settled : next.engine.shell.pending = []
  commands : ∀ size, TransportCommand.resize size ∈ next.commands.sent → TransportCommand.resize size ∈ s.commands.sent

theorem keeps_trans {s middle next : Session T P} (first : Keeps s middle) (second : Keeps middle next) : Keeps s next :=
  ⟨second.size.trans first.size,second.settled,fun size member => first.commands size (second.commands size member)⟩

theorem keeps_same {s next : Session T P} (settled : s.engine.shell.pending = []) (engine : next.engine = s.engine)
    (commands : next.commands = s.commands) : Keeps s next :=
  ⟨by rw [engine],by rw [engine]; exact settled,fun size member => commands ▸ member⟩

theorem sendCommand_keeps (s : Session T P) (settled : s.engine.shell.pending = []) (bytes : List UInt8) :
    Keeps s (s.sendCommand (.write bytes)).1 := by
  refine ⟨rfl,settled,fun size member => ?_⟩
  rcases s.commands.send_sent (.write bytes) member with old | new
  · exact old
  · cases new

theorem writeAll_keeps (s : Session T P) (settled : s.engine.shell.pending = []) (writes : List (List UInt8)) :
    Keeps s (s.writeAll writes).1 := by
  obtain ⟨commands,same,grown⟩ := s.writeAll_frame writes
  rw [same]
  refine ⟨rfl,settled,fun size member => ?_⟩
  rcases grown _ member with old | ⟨bytes,other⟩
  · exact old
  · cases other

theorem endAll_keeps (s : Session T P) (settled : s.engine.shell.pending = []) (marks : List CommandMark) :
    Keeps s (s.endAll marks).1 := by
  obtain ⟨encoder,events,same⟩ := s.endAll_frame marks
  rw [same]
  exact keeps_same settled rfl rfl

theorem output_keeps (s : Session T P) (settled : s.engine.shell.pending = []) (bytes : List UInt8) :
    Keeps s (s.handleTransportEvent (.output bytes)).1 := by
  have fed : Keeps s {s with engine := (s.engine.feed bytes).drainPendingWrites.1} :=
    ⟨Readings.feed_size settled bytes,Readings.feed_pending settled bytes,fun _ member => member⟩
  have written := keeps_trans fed (writeAll_keeps _ fed.settled (s.engine.feed bytes).drainPendingWrites.2)
  simp only [Session.handleTransportEvent]
  split
  · rename_i next stopped
    rw [stopped] at written
    exact written
  · rename_i next going
    rw [going] at written
    have drained : Keeps s {next with engine := next.engine.drainCommandEnds.1} := ⟨written.size,written.settled,written.commands⟩
    have ended := keeps_trans drained (endAll_keeps _ drained.settled next.engine.drainCommandEnds.2)
    split
    · rename_i later stopped
      rw [stopped] at ended
      exact ended
    · rename_i later going
      rw [going] at ended
      refine ⟨?_,?_,ended.commands⟩
      · simp only [Session.emitFrame,EngineRuns.takeScrolledRows_engine]
        exact ended.size
      · simp only [Session.emitFrame,EngineRuns.takeScrolledRows_engine]
        exact ended.settled

theorem input_keeps (s : Session T P) (settled : s.engine.shell.pending = []) (i : SessionInput) (other : ∀ size, i ≠ .resize size) :
    Keeps s (s.handleSessionInput i).1 := by
  have same : Keeps s s := keeps_same settled rfl rfl
  cases i with
  | key k =>
      simp only [Session.handleSessionInput]
      split
      · exact same
      · exact sendCommand_keeps s settled _
  | paste text => exact sendCommand_keeps s settled _
  | mouse m =>
      simp only [Session.handleSessionInput]
      split
      · exact sendCommand_keeps s settled _
      · exact same
  | focus gained =>
      simp only [Session.handleSessionInput]
      split
      · exact sendCommand_keeps s settled _
      · exact same
  | resize size => exact absurd rfl (other size)

theorem handle_keeps (s : Session T P) (settled : s.engine.shell.pending = []) (message : Received)
    (other : ∀ size, message ≠ .input (.resize size)) : Keeps s (s.handle message).1 := by
  cases message with
  | event ev =>
      cases ev with
      | output bytes => exact output_keeps s settled bytes
      | exited status => exact keeps_same settled rfl rfl
      | error err => exact keeps_same settled rfl rfl
  | eventsClosed => exact keeps_same settled rfl rfl
  | inputsClosed => exact keeps_same settled rfl rfl
  | input i => exact input_keeps s settled i fun size same => other size (congrArg Received.input same)

-- A resize takes its size, and at most sends it on.
theorem resize_sizes (s : Session T P) (settled : s.engine.shell.pending = []) (size : TerminalSize) :
    (s.handle (.input (.resize size))).1.engine.size = size ∧ (s.handle (.input (.resize size))).1.engine.shell.pending = [] ∧
      ∀ other, TransportCommand.resize other ∈ (s.handle (.input (.resize size))).1.commands.sent →
        TransportCommand.resize other ∈ s.commands.sent ∨ other = size := by
  simp only [Session.handle,Session.handleSessionInput,Session.sendCommand]
  have sent : ∀ other, TransportCommand.resize other ∈ (s.commands.send (.resize size)).1.sent →
      TransportCommand.resize other ∈ s.commands.sent ∨ other = size := by
    intro other member
    exact (s.commands.send_sent (.resize size) member).imp id fun same => (TransportCommand.resize.inj same)
  split
  · rename_i stopped
    rw [← (Prod.mk.inj stopped).1]
    exact ⟨rfl,settled,sent⟩
  · rename_i going
    rw [← (Prod.mk.inj going).1]
    exact ⟨rfl,settled,sent⟩

def Settled (w : World T P) : Prop := w.session.engine.shell.pending = []

-- Serving any message keeps the bound, but for a resize, which keeps it as far as it goes.
theorem serve_bounded {w : World T P} (settled : Settled w) (message : Received) (bounded : Bounded w) :
    Settled (w.serve message) ∧
      (Bounded (w.serve message) ↔ ∀ size, message = .input (.resize size) → Admitted size) := by
  by_cases resizes : ∃ size, message = .input (.resize size)
  · obtain ⟨size,rfl⟩ := resizes
    obtain ⟨engine,still,commands⟩ := resize_sizes w.session settled size
    refine ⟨still,fun after other same => ?_,fun admitted => ⟨?_,fun other member => ?_⟩⟩
    · cases same
      have sized := after.1
      change Admitted (w.session.handle (.input (.resize size))).1.engine.size at sized
      rwa [engine] at sized
    · change Admitted (w.session.handle (.input (.resize size))).1.engine.size
      rw [engine]
      exact admitted size rfl
    · rcases commands other member with old | rfl
      · exact bounded.2 other old
      · exact admitted other rfl
  · have other : ∀ size, message ≠ .input (.resize size) := fun size same => resizes ⟨size,same⟩
    have keeps := handle_keeps w.session settled message other
    refine ⟨keeps.settled,iff_of_true ⟨?_,fun size member => bounded.2 size (keeps.commands size member)⟩ fun size same => absurd same (other size)⟩
    change Admitted (w.session.handle message).1.engine.size
    rw [keeps.size]
    exact bounded.1

theorem step_bounded (w : World T P) (move : Move) (settled : Settled w) (bounded : Bounded w) :
    Settled (w.step move) ∧ (Bounded (w.step move) ↔ Ranged w move) := by
  have turn := step_turn w move
  generalize w.step move = after at turn ⊢
  cases turn with
  | event ev rest ready picked =>
      obtain ⟨still,exact⟩ := serve_bounded (w := {w with backend := rest}) settled (.event ev) bounded
      subst picked
      exact ⟨still,iff_of_true (exact.mpr fun size same => by cases same) trivial⟩
  | eventsClosed ready picked =>
      obtain ⟨still,exact⟩ := serve_bounded settled .eventsClosed bounded
      subst picked
      exact ⟨still,iff_of_true (exact.mpr fun size same => by cases same) trivial⟩
  | input i rest ready picked next =>
      obtain ⟨still,exact⟩ := serve_bounded (w := {w with inputs := rest}) settled (.input i) bounded
      subst picked
      refine ⟨still,exact.trans ?_⟩
      rw [Ranged,next,List.head?_cons]
      constructor
      · intro admitted _ size first
        exact admitted size (congrArg Received.input (Option.some.inj first))
      · intro ranged size same
        exact ranged ready size (congrArg some (Received.input.inj same))
  | inputsClosed ready picked empty =>
      obtain ⟨still,exact⟩ := serve_bounded settled .inputsClosed bounded
      subst picked
      refine ⟨still,iff_of_true (exact.mpr fun size same => by cases same) fun _ size first => ?_⟩
      rw [empty] at first
      cases first
  | aside next engine events sent idle =>
      have same : Bounded after := by
        rw [Bounded,engine,sent]
        exact bounded
      refine ⟨by rw [Settled,engine]; exact settled,iff_of_true same ?_⟩
      cases move with
      | engineInput =>
          intro ready size first
          rw [idle rfl ready] at first
          cases first
      | _ => trivial

theorem wsHandler_admitted (accepted : wsHandler rows cols = .ok size) : Admitted size := by
  simp only [wsHandler,validateSize] at accepted
  split at accepted
  · cases accepted
  · rename_i checked
    split at checked
    · cases checked
    · rename_i tall
      split at checked
      · cases checked
      · rename_i wide
        cases checked
        cases accepted
        simp only [Bool.not_eq_true',Bool.not_eq_false,Bool.and_eq_true,decide_eq_true_eq] at tall wide
        exact ⟨tall.1,tall.2,wide.1,wide.2⟩

-- Of every accepted session: all sizes stay admitted exactly when every resize that the
-- engine takes asks for an admitted one.
theorem sizes_bounded (rows cols : UInt16) (size : TerminalSize) (accepted : wsHandler rows cols = .ok size) (moves : List Move) :
    StepRuns.Throughout World.step Bounded (begun size : World T P) moves ↔
      StepRuns.Along World.step Ranged (begun size : World T P) moves := by
  have start : Settled (begun size : World T P) ∧ Bounded (begun size : World T P) :=
    ⟨rfl,wsHandler_admitted accepted,fun _ member => (by cases member)⟩
  apply StepRuns.throughout_exact (fun w : World T P => Settled w ∧ Bounded w) moves start
  · exact fun w within => within.2
  · exact fun w move within => (step_bounded w move within.1 within.2).2
  · intro w move within ranged
    obtain ⟨still,exact⟩ := step_bounded w move within.1 within.2
    exact ⟨still,exact.mpr ranged⟩

open LineTerminal

def resizeTo (rows cols : UInt16) : List Move := [.frame (.text (some (.resize rows cols))),.inbound,.engineInput]

theorem sizes_bounded_resize :
    StepRuns.Throughout World.step Bounded (begun ⟨24,80⟩ : World terminal sideParser) (resizeTo 2 4) ↔
      StepRuns.Along World.step Ranged (begun ⟨24,80⟩ : World terminal sideParser) (resizeTo 2 4) :=
  sizes_bounded 24 80 ⟨24,80⟩ rfl (resizeTo 2 4)

-- A client message may name any two u16 numbers.
theorem resize_unchecked :
    wsHandler 24 80 = .ok ⟨24,80⟩ ∧
      ¬ StepRuns.Throughout World.step Bounded (begun ⟨24,80⟩ : World terminal sideParser) (resizeTo 0 65535) ∧
      ((resizeTo 0 65535).foldl World.step (begun ⟨24,80⟩ : World terminal sideParser)).session.engine.size = ⟨0,65535⟩ ∧
      ((resizeTo 0 65535).foldl World.step (begun ⟨24,80⟩ : World terminal sideParser)).session.commands.sent =
        [.resize ⟨0,65535⟩] := by
  have size : ((resizeTo 0 65535).foldl World.step (begun ⟨24,80⟩ : World terminal sideParser)).session.engine.size = ⟨0,65535⟩ := rfl
  refine ⟨rfl,fun all => ?_,size,rfl⟩
  have bounded : Bounded _ := StepRuns.throughout_last all
  have admitted := bounded.1
  rw [size] at admitted
  exact absurd admitted (by decide)

end Perga.SizeLimits

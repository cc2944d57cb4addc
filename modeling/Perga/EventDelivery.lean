import Perga.ServerSession
import Perga.LineTerminal

namespace Perga.EventDelivery
open ServerSession
variable {T : Terminal} {P : VteParser}

-- A client that neither closes nor breaks the socket, and a socket that takes every frame.
def calm : Move → Bool
  | .frame .close => false
  | .frame .failed => false
  | .frame .ended => false
  | .outbound taken => taken
  | _ => true

-- What the engine has encoded so far is what it sends: the session is dropped with all
-- of it written.
def Delivered (w : World T P) : Prop := w.dropped = true → w.written = w.session.events.sent

-- A message that comes too late for the engine finds every event written.
def InTime (w : World T P) : Move → Prop
  | .inbound => ∀ cm, w.dropped = false → w.frames.head? = some (.text (some cm)) → w.inputReceiver = false →
      w.written = w.session.events.sent
  | _ => True

def inBridge : Bridge → List ProtocolEvent
  | .holding ev => [ev]
  | _ => []

def inOutbound : Outbound → List ProtocolEvent
  | .sending ev => [ev]
  | _ => []

def quietFrame : Frame → Bool
  | .close => false
  | .failed => false
  | .ended => false
  | _ => true

-- Every event is somewhere on its way, in order; and who has ended had nothing left to do.
structure Flows (w : World T P) : Prop where
  whole : w.written ++ inOutbound w.outbound ++ w.queue ++ inBridge w.bridge ++ w.channel ++ w.unsent = w.session.events.sent
  room : w.session.events.room = none
  engine : w.inputReceiver = false ∨ w.eventSender = false → w.running = false ∧ w.unsent = []
  bridge : w.bridge = .finished → w.channel = [] ∧ w.eventSender = false
  outbound : w.outbound = .finished → w.queue = [] ∧ w.bridge = .finished
  inbound : w.inbound = false → w.inputReceiver = false
  frames : ∀ f ∈ w.frames, quietFrame f = true

theorem events_send (s : Session T P) (alive : s.events.room = none) (ev : ProtocolEvent) :
    s.events.send ev = (⟨s.events.sent ++ [ev],none⟩,true) := by
  simp only [Outlet.send,alive]

-- Handling a message only ever adds to the events, and cannot lose the receiver.
def Adds (s next : Session T P) : Prop := next.events.room = none ∧ ∃ more, next.events.sent = s.events.sent ++ more

theorem adds_same {s next : Session T P} (alive : s.events.room = none) (same : next.events = s.events) : Adds s next := by
  unfold Adds
  rw [same]
  exact ⟨alive,[],(List.append_nil _).symm⟩

theorem adds_trans {s middle next : Session T P} (first : Adds s middle) (second : Adds middle next) : Adds s next := by
  obtain ⟨_,more,grown⟩ := first
  obtain ⟨alive,rest,further⟩ := second
  exact ⟨alive,more ++ rest,by rw [further,grown,List.append_assoc]⟩

theorem endAll_adds (s : Session T P) (alive : s.events.room = none) (marks : List CommandMark) : Adds s (s.endAll marks).1 := by
  rw [Session.endAll_alive s alive]
  exact ⟨rfl,_,rfl⟩

theorem emitFrame_adds (s : Session T P) (alive : s.events.room = none) (scrolled : List Row) (cleared : Bool) :
    Adds s (s.emitFrame scrolled cleared).1 := by
  simp only [Session.emitFrame,events_send s alive]
  exact ⟨rfl,_,rfl⟩

theorem event_adds (s : Session T P) (alive : s.events.room = none) (ev : TransportEvent) : Adds s (s.handleTransportEvent ev).1 := by
  cases ev with
  | output bytes =>
      simp only [Session.handleTransportEvent]
      have kept : (Session.writeAll {s with engine := (s.engine.feed bytes).drainPendingWrites.1}
          (s.engine.feed bytes).drainPendingWrites.2).1.events = s.events := by
        obtain ⟨commands,same,_⟩ := Session.writeAll_frame {s with engine := (s.engine.feed bytes).drainPendingWrites.1}
          (s.engine.feed bytes).drainPendingWrites.2
        rw [same]
      split
      · rename_i written
        rw [written] at kept
        exact adds_same alive kept
      · rename_i next written
        rw [written] at kept
        have first : Adds s next := adds_same alive kept
        have second := endAll_adds {next with engine := next.engine.drainCommandEnds.1} first.1 next.engine.drainCommandEnds.2
        split
        · rename_i ended
          rw [ended] at second
          exact adds_trans first second
        · rename_i later ended
          rw [ended] at second
          apply adds_trans (adds_trans first second)
          exact emitFrame_adds {later with engine := later.engine.takeScrolledRows.1} second.1 _ _
  | exited status =>
      simp only [Session.handleTransportEvent,events_send s alive]
      exact ⟨rfl,_,rfl⟩
  | error err => exact adds_same alive rfl

theorem input_adds (s : Session T P) (alive : s.events.room = none) (i : SessionInput) : Adds s (s.handleSessionInput i).1 := by
  cases i with
  | key k =>
      simp only [Session.handleSessionInput]
      split <;> exact adds_same alive rfl
  | paste text => exact adds_same alive rfl
  | mouse m =>
      simp only [Session.handleSessionInput]
      split <;> exact adds_same alive rfl
  | focus gained =>
      simp only [Session.handleSessionInput]
      split <;> exact adds_same alive rfl
  | resize size =>
      simp only [Session.handleSessionInput]
      split
      · rename_i sent
        rw [← (Prod.mk.inj sent).1]
        exact adds_same alive rfl
      · rename_i next sent
        have first : Adds s next := by
          rw [← (Prod.mk.inj sent).1]
          exact adds_same alive rfl
        exact adds_trans first (emitFrame_adds next first.1 [] false)

theorem handle_adds (s : Session T P) (alive : s.events.room = none) (message : Received) : Adds s (s.handle message).1 := by
  cases message with
  | event ev => exact event_adds s alive ev
  | eventsClosed => exact adds_same alive rfl
  | input i => exact input_adds s alive i
  | inputsClosed => exact adds_same alive rfl

theorem ready_open {w : World T P} (ready : w.ready = true) : w.running = true ∧ w.unsent = [] := by
  obtain ⟨running,empty⟩ := Bool.and_eq_true_iff.mp ready
  exact ⟨running,List.isEmpty_iff.mp empty⟩

theorem serve_flows {w : World T P} (flows : Flows w) (ready : w.ready = true) (message : Received) : Flows (w.serve message) := by
  obtain ⟨running,empty⟩ := ready_open ready
  obtain ⟨alive,more,grown⟩ := handle_adds w.session flows.room message
  have unsent : (w.serve message).unsent = more := by
    simp only [World.serve,grown]
    exact List.drop_left
  refine ⟨?_,alive,fun gone => ?_,flows.bridge,flows.outbound,flows.inbound,flows.frames⟩
  · rw [unsent]
    have whole := flows.whole
    rw [empty,List.append_nil] at whole
    exact (congrArg (· ++ more) whole).trans grown.symm
  · have stopped := (flows.engine gone).1
    rw [running] at stopped
    cases stopped

-- What waits for the engine, and what the client has still to say, is not part of the flow.
theorem sources_flows {w : World T P} (flows : Flows w) (backend : List TransportEvent) (backendOpen : Bool)
    (inputs : List SessionInput) : Flows {w with backend := backend,backendOpen := backendOpen,inputs := inputs} :=
  ⟨flows.whole,flows.room,flows.engine,flows.bridge,flows.outbound,flows.inbound,flows.frames⟩

theorem frames_flows {w : World T P} (flows : Flows w) (frames : List Frame) (quiet : ∀ f ∈ frames, quietFrame f = true) :
    Flows {w with frames := frames} :=
  ⟨flows.whole,flows.room,flows.engine,flows.bridge,flows.outbound,flows.inbound,quiet⟩

theorem engineEvent_flows {w : World T P} (flows : Flows w) : Flows w.engineEvent := by
  unfold World.engineEvent
  split
  · rename_i ready
    split
    · rename_i ev rest _
      exact serve_flows (sources_flows flows rest w.backendOpen w.inputs) ready _
    · split
      · exact flows
      · exact serve_flows flows ready _
  · exact flows

theorem engineInput_flows {w : World T P} (flows : Flows w) : Flows w.engineInput := by
  unfold World.engineInput
  split
  · rename_i ready
    split
    · rename_i i rest _
      exact serve_flows (sources_flows flows w.backend w.backendOpen rest) ready _
    · split
      · exact flows
      · exact serve_flows flows ready _
  · exact flows

theorem publish_flows {w : World T P} (flows : Flows w) : Flows w.publish := by
  unfold World.publish
  split
  · rename_i ev rest next
    have busy : w.unsent ≠ [] := by rw [next]; exact List.cons_ne_nil ev rest
    refine ⟨?_,flows.room,fun gone => ?_,fun ended => ?_,flows.outbound,flows.inbound,flows.frames⟩
    · have whole := flows.whole
      rw [next] at whole
      simpa only [List.append_assoc,List.cons_append,List.nil_append] using whole
    · exact absurd (flows.engine gone).2 busy
    · exact absurd (flows.engine (.inr (flows.bridge ended).2)).2 busy
  · exact flows

theorem outbound_going {w : World T P} (flows : Flows w) (bridging : w.bridge ≠ .finished) : w.outbound ≠ .finished :=
  fun finished => bridging (flows.outbound finished).2

theorem bridge_flows {w : World T P} (flows : Flows w) : Flows w.bridgeStep := by
  unfold World.bridgeStep
  have whole := flows.whole
  split
  · rename_i at_
    rw [at_] at whole
    have going := outbound_going flows (by rw [at_]; exact nofun)
    split
    · rename_i ev rest next
      refine ⟨?_,flows.room,flows.engine,fun ended => (by cases ended),fun finished => absurd finished going,flows.inbound,flows.frames⟩
      rw [next] at whole
      simpa only [inBridge,List.append_assoc,List.cons_append,List.nil_append] using whole
    · rename_i empty
      split
      · exact flows
      · rename_i gone
        refine ⟨?_,flows.room,flows.engine,fun _ => ⟨empty,Bool.eq_false_iff.mpr gone⟩,fun finished => absurd finished going,
          flows.inbound,flows.frames⟩
        exact whole
  · rename_i ev at_
    rw [at_] at whole
    have going := outbound_going flows (by rw [at_]; exact nofun)
    rw [if_neg going]
    refine ⟨?_,flows.room,flows.engine,fun ended => (by cases ended),fun finished => absurd finished going,flows.inbound,flows.frames⟩
    simpa only [inBridge,List.append_assoc,List.cons_append,List.nil_append,List.append_nil] using whole
  · exact flows

theorem outbound_flows {w : World T P} (flows : Flows w) : Flows (w.outboundStep true) := by
  unfold World.outboundStep
  have whole := flows.whole
  split
  · exact flows
  · split
    · rename_i at_
      rw [at_] at whole
      split
      · rename_i ev rest next
        refine ⟨?_,flows.room,flows.engine,flows.bridge,fun finished => (by cases finished),flows.inbound,flows.frames⟩
        rw [next] at whole
        simpa only [inOutbound,List.append_assoc,List.cons_append,List.nil_append] using whole
      · rename_i empty
        split
        · rename_i ended
          exact ⟨whole,flows.room,flows.engine,flows.bridge,fun _ => ⟨empty,ended⟩,flows.inbound,flows.frames⟩
        · exact flows
    · rename_i ev at_
      rw [at_] at whole
      rw [if_pos rfl]
      refine ⟨?_,flows.room,flows.engine,flows.bridge,fun finished => (by cases finished),flows.inbound,flows.frames⟩
      simpa only [inOutbound,List.append_assoc,List.cons_append,List.nil_append,List.append_nil] using whole
    · exact flows

theorem inbound_flows {w : World T P} (flows : Flows w) : Flows w.inboundStep := by
  unfold World.inboundStep
  split
  · exact flows
  · have skip : ∀ f rest, w.frames = f :: rest → ∀ g ∈ rest, quietFrame g = true := by
      intro f rest next g member
      apply flows.frames g
      rw [next]
      exact List.mem_cons_of_mem f member
    have noisy : ∀ f rest, w.frames = f :: rest → quietFrame f = false → False := by
      intro f rest next noise
      have quiet := flows.frames f (next ▸ List.mem_cons_self)
      rw [noise] at quiet
      cases quiet
    split
    · exact flows
    · rename_i cm rest next
      have heard := frames_flows flows rest (skip _ rest next)
      split
      · exact sources_flows heard w.backend w.backendOpen _
      · rename_i gone
        exact {heard with inbound := fun _ => Bool.eq_false_iff.mpr gone}
    · rename_i rest next; exact frames_flows flows rest (skip _ rest next)
    · rename_i rest next; exact frames_flows flows rest (skip _ rest next)
    · rename_i rest next; exact frames_flows flows rest (skip _ rest next)
    · rename_i rest next; exact frames_flows flows rest (skip _ rest next)
    · rename_i rest next; exact (noisy _ rest next rfl).elim
    · rename_i rest next; exact (noisy _ rest next rfl).elim
    · rename_i rest next; exact (noisy _ rest next rfl).elim

theorem step_flows (w : World T P) (move : Move) (flows : Flows w) (quiet : calm move = true) : Flows (w.step move) := by
  cases move with
  | backend ev =>
      simp only [World.step]
      split
      · exact sources_flows flows _ w.backendOpen w.inputs
      · exact flows
  | endBackend => exact sources_flows flows w.backend false w.inputs
  | dropCommands after => exact ⟨flows.whole,flows.room,flows.engine,flows.bridge,flows.outbound,flows.inbound,flows.frames⟩
  | frame f =>
      apply frames_flows flows
      intro g member
      rcases List.mem_append.mp member with old | new
      · exact flows.frames g old
      · rw [List.mem_singleton.mp new]
        cases f <;> first | rfl | exact quiet
  | engineEvent => exact engineEvent_flows flows
  | engineInput => exact engineInput_flows flows
  | publish => exact publish_flows flows
  | dropInputReceiver =>
      simp only [World.step]
      split
      · rename_i settled
        obtain ⟨stopped,empty⟩ := Bool.and_eq_true_iff.mp settled
        exact {flows with engine := fun _ => ⟨Bool.not_eq_true' _ ▸ stopped,List.isEmpty_iff.mp empty⟩,inbound := fun _ => rfl}
      · exact flows
  | dropEventSender =>
      simp only [World.step]
      split
      · rename_i settled
        obtain ⟨stopped,empty⟩ := Bool.and_eq_true_iff.mp settled
        exact {flows with
          engine := fun _ => ⟨Bool.not_eq_true' _ ▸ stopped,List.isEmpty_iff.mp empty⟩
          bridge := fun ended => ⟨(flows.bridge ended).1,rfl⟩}
      · exact flows
  | bridge => exact bridge_flows flows
  | outbound taken =>
      cases quiet
      exact outbound_flows flows
  | inbound => exact inbound_flows flows

theorem begun_flows (size : TerminalSize) : Flows (begun size : World T P) :=
  ⟨List.append_nil _,rfl,fun gone => (by rcases gone with gone | gone <;> cases gone),fun ended => (by cases ended),
    fun ended => (by cases ended),fun ended => (by cases ended),fun _ member => (by cases member)⟩

-- The outbound future ends by itself only behind the last event.
theorem ended_written {w : World T P} (flows : Flows w) (finished : w.outbound = .finished) : w.written = w.session.events.sent := by
  obtain ⟨queue,ended⟩ := flows.outbound finished
  obtain ⟨channel,gone⟩ := flows.bridge ended
  have unsent := (flows.engine (.inr gone)).2
  have whole := flows.whole
  rw [finished,queue,ended,channel,unsent] at whole
  simpa only [inOutbound,inBridge,List.append_nil] using whole

theorem dropped_stopped {w : World T P} (flows : Flows w) (dropped : w.dropped = true) : w.running = false := by
  rcases Bool.or_eq_true_iff.mp dropped with finished | ended
  · have gone := (flows.bridge (flows.outbound (eq_of_beq finished)).2).2
    exact (flows.engine (.inr gone)).1
  · have gone := flows.inbound (Bool.not_eq_true' _ ▸ ended)
    exact (flows.engine (.inl gone)).1

-- All but the two futures leave alone what was written and whether they go on.
theorem others_end (w : World T P) (move : Move) (other : ∀ taken, move ≠ .outbound taken) (heard : move ≠ .inbound) :
    (w.step move).written = w.written ∧ (w.step move).outbound = w.outbound ∧ (w.step move).inbound = w.inbound := by
  cases move with
  | backend ev => simp only [World.step]; split <;> exact ⟨rfl,rfl,rfl⟩
  | endBackend => exact ⟨rfl,rfl,rfl⟩
  | dropCommands after => exact ⟨rfl,rfl,rfl⟩
  | frame f => exact ⟨rfl,rfl,rfl⟩
  | engineEvent =>
      simp only [World.step,World.engineEvent]
      split
      · split
        · exact ⟨rfl,rfl,rfl⟩
        · split <;> exact ⟨rfl,rfl,rfl⟩
      · exact ⟨rfl,rfl,rfl⟩
  | engineInput =>
      simp only [World.step,World.engineInput]
      split
      · split
        · exact ⟨rfl,rfl,rfl⟩
        · split <;> exact ⟨rfl,rfl,rfl⟩
      · exact ⟨rfl,rfl,rfl⟩
  | publish => simp only [World.step,World.publish]; split <;> exact ⟨rfl,rfl,rfl⟩
  | dropInputReceiver => simp only [World.step]; split <;> exact ⟨rfl,rfl,rfl⟩
  | dropEventSender => simp only [World.step]; split <;> exact ⟨rfl,rfl,rfl⟩
  | bridge =>
      simp only [World.step,World.bridgeStep]
      split
      · split
        · exact ⟨rfl,rfl,rfl⟩
        · split <;> exact ⟨rfl,rfl,rfl⟩
      · split <;> exact ⟨rfl,rfl,rfl⟩
      · exact ⟨rfl,rfl,rfl⟩
  | outbound taken => exact absurd rfl (other taken)
  | inbound => exact absurd rfl heard

-- An engine that has returned encodes nothing more, and dropped futures do nothing.
theorem stopped_same (w : World T P) (move : Move) (stopped : w.running = false) :
    (w.step move).session.events = w.session.events := by
  have idle : w.ready ≠ true := by simp [World.ready,stopped]
  have turn := step_turn w move
  generalize w.step move = after at turn ⊢
  cases turn with
  | event ev rest ready picked => exact absurd ready idle
  | eventsClosed ready picked => exact absurd ready idle
  | input i rest ready picked next => exact absurd ready idle
  | inputsClosed ready picked empty => exact absurd ready idle
  | aside next engine events sent _ => exact events

theorem dropped_same (w : World T P) (move : Move) (flows : Flows w) (dropped : w.dropped = true) :
    (w.step move).written = w.written ∧ (w.step move).session.events = w.session.events := by
  refine ⟨?_,stopped_same w move (dropped_stopped flows dropped)⟩
  cases move with
  | outbound taken => simp only [World.step,World.outboundStep,dropped,if_true]
  | inbound => simp only [World.step,World.inboundStep,dropped,if_true]
  | _ => exact (others_end w _ (by simp) (by simp)).1

theorem going_delivered {next : World T P} (going : next.dropped = false) : Delivered next := by
  intro dropped
  rw [going] at dropped
  cases dropped

theorem outbound_delivered {w : World T P} (flows : Flows w) (going : w.dropped = false) : Delivered (w.outboundStep true) := by
  intro dropped
  have inbound : (w.outboundStep true).inbound = w.inbound := by
    simp only [World.outboundStep]
    split
    · rfl
    · split
      · split
        · rfl
        · split <;> rfl
      · rfl
      · rfl
  apply ended_written (outbound_flows flows)
  have on := (Bool.or_eq_false_iff.mp going).2
  unfold World.dropped at dropped
  rw [inbound,on,Bool.or_false] at dropped
  exact eq_of_beq dropped

-- The inbound future alone can cut the events short: on a message that the engine is
-- no longer there to take.
theorem inbound_exact {w : World T P} (flows : Flows w) (going : w.dropped = false) :
    Delivered w.inboundStep ↔ InTime w .inbound := by
  obtain ⟨out,on⟩ := Bool.or_eq_false_iff.mp going
  have quiet : ∀ next : World T P, next.outbound = w.outbound → next.inbound = w.inbound → Delivered next := by
    intro next outbound inbound
    apply going_delivered
    unfold World.dropped
    rw [outbound,inbound]
    exact going
  have noisy : ∀ f rest, w.frames = f :: rest → quietFrame f = false → False := by
    intro f rest next noise
    have calm_frame := flows.frames f (next ▸ List.mem_cons_self)
    rw [noise] at calm_frame
    cases calm_frame
  have unheard : (∀ cm, w.frames.head? ≠ some (.text (some cm))) → InTime w .inbound :=
    fun other cm _ first => absurd first (other cm)
  unfold World.inboundStep
  rw [going]
  simp only [Bool.false_eq_true,if_false]
  split
  · rename_i empty
    exact iff_of_true (quiet w rfl rfl) (unheard (by simp [empty]))
  · rename_i cm rest next
    split
    · rename_i there
      refine iff_of_true (quiet _ rfl rfl) fun _ _ _ gone => ?_
      rw [there] at gone
      cases gone
    · rename_i gone
      constructor
      · intro delivered _ _ _ _
        exact delivered (Bool.or_true _)
      · intro intime _
        exact intime cm going (by rw [next]; rfl) (Bool.eq_false_iff.mpr gone)
  · rename_i rest next; exact iff_of_true (quiet _ rfl rfl) (unheard (by simp [next]))
  · rename_i rest next; exact iff_of_true (quiet _ rfl rfl) (unheard (by simp [next]))
  · rename_i rest next; exact iff_of_true (quiet _ rfl rfl) (unheard (by simp [next]))
  · rename_i rest next; exact iff_of_true (quiet _ rfl rfl) (unheard (by simp [next]))
  · rename_i rest next; exact (noisy _ rest next rfl).elim
  · rename_i rest next; exact (noisy _ rest next rfl).elim
  · rename_i rest next; exact (noisy _ rest next rfl).elim

theorem step_exact (w : World T P) (move : Move) (delivered : Delivered w) (within : Flows w ∧ calm move = true) :
    Delivered (w.step move) ↔ InTime w move := by
  obtain ⟨flows,quiet⟩ := within
  cases dropped : w.dropped with
  | true =>
      obtain ⟨written,events⟩ := dropped_same w move flows dropped
      refine iff_of_true (fun _ => ?_) ?_
      · rw [written,events]
        exact delivered dropped
      · cases move with
        | inbound =>
            intro cm going
            rw [dropped] at going
            cases going
        | _ => trivial
  | false =>
      have aside : (∀ taken, move ≠ .outbound taken) → move ≠ .inbound → Delivered (w.step move) := by
        intro other heard
        obtain ⟨_,outbound,inbound⟩ := others_end w move other heard
        apply going_delivered
        unfold World.dropped
        rw [outbound,inbound]
        exact dropped
      cases move with
      | outbound taken =>
          cases quiet
          exact iff_of_true (outbound_delivered flows dropped) trivial
      | inbound => exact inbound_exact flows dropped
      | _ => exact iff_of_true (aside (by simp) (by simp)) trivial

-- In every interleaving with a calm client: the session is dropped with every event
-- written, exactly when no message comes too late for the engine and too early for the socket.
theorem events_delivered (size : TerminalSize) (moves : List Move)
    (quiet : StepRuns.Along World.step (fun _ move => calm move = true) (begun size : World T P) moves) :
    StepRuns.Throughout World.step Delivered (begun size : World T P) moves ↔
      StepRuns.Along World.step InTime (begun size : World T P) moves := by
  apply StepRuns.throughout_iff_along Delivered (going_delivered rfl) _ step_exact
  exact StepRuns.run_along_kept Flows quiet (begun_flows size) step_flows

open LineTerminal

-- The shell exits; the bridge and the socket take every event in turn.
def exitDelivered : List Move :=
  [.backend (.exited (.fromCode 0)),.engineEvent,.publish,.dropEventSender,.bridge,.bridge,.bridge,.bridge,.bridge,.outbound true,
    .outbound true,.outbound true,.outbound true,.outbound true]

theorem events_delivered_exit :
    (exitDelivered.foldl World.step (begun ⟨2,4⟩ : World terminal sideParser)).dropped = true ∧
      (StepRuns.Throughout World.step Delivered (begun ⟨2,4⟩ : World terminal sideParser) exitDelivered ↔
        StepRuns.Along World.step InTime (begun ⟨2,4⟩ : World terminal sideParser) exitDelivered) :=
  ⟨by decide +kernel,events_delivered ⟨2,4⟩ exitDelivered (by decide)⟩

-- A key comes in when the engine has gone and its exit is still on the way.
def lateKey : List Move :=
  [.backend (.exited (.fromCode 0)),.engineEvent,.publish,.dropInputReceiver,.frame (.text (some (.key ⟨.char 'q',⟨false,false,false⟩⟩))),
    .inbound]

theorem late_key_cuts :
    StepRuns.Along World.step (fun _ move => calm move = true) (begun ⟨2,4⟩ : World terminal sideParser) lateKey ∧
      ¬ StepRuns.Throughout World.step Delivered (begun ⟨2,4⟩ : World terminal sideParser) lateKey ∧
      (lateKey.foldl World.step (begun ⟨2,4⟩ : World terminal sideParser)).written = [] ∧
      (lateKey.foldl World.step (begun ⟨2,4⟩ : World terminal sideParser)).session.events.sent.length = 2 := by
  have written : (lateKey.foldl World.step (begun ⟨2,4⟩ : World terminal sideParser)).written = [] := by decide +kernel
  have sent : (lateKey.foldl World.step (begun ⟨2,4⟩ : World terminal sideParser)).session.events.sent.length = 2 := by decide +kernel
  have dropped : (lateKey.foldl World.step (begun ⟨2,4⟩ : World terminal sideParser)).dropped = true := by decide +kernel
  refine ⟨by decide,fun all => ?_,written,sent⟩
  have delivered : Delivered _ := StepRuns.throughout_last all
  rw [← delivered dropped,written] at sent
  cases sent

end Perga.EventDelivery

import Perga.Console
import Perga.EventDelivery
import Perga.WireFormat

namespace Perga.Browser
open Session ServerSession EventDelivery ClientReplica
variable {T : Terminal} {P : VteParser} {S : Screens T}

-- What a cell of the terminal can show: the seven named flags and no other.
theorem attrs_known (flags : Flags) : (attrsFromFlags flags).Known := by
  have each : ∀ bold dim italic underlines inverse hidden strikeout : Bool,
      (attrsFromFlags ⟨true,true,bold,dim,italic,underlines,inverse,hidden,strikeout⟩).bits < 128 := by decide
  exact each flags.bold flags.dim flags.italic flags.underlines flags.inverse flags.hidden flags.strikeout

def KnownRow (row : Row) : Prop := ∀ c ∈ row.cells, c.attrs.Known

theorem blank_known (cols : Nat) : KnownRow (blankRow cols) := by
  intro c member
  rw [(List.mem_replicate.mp member).2]
  exact (by decide : (0 : UInt16) < 128)

theorem translated_known (line : List AlacrittyCell) : KnownRow (translateRow line) := by
  intro c member
  obtain ⟨cell,_,rfl⟩ := List.mem_map.mp member
  exact attrs_known cell.flags

theorem entries_known (cells : List Cell) (known : ∀ c ∈ cells, c.attrs.Known) :
    ∀ entry ∈ encodeRow cells, ∀ a ∈ entry.attrSets, a.Known := by
  have later : ∀ (p : Cell → Bool) (cells : List Cell), (∀ c ∈ cells, c.attrs.Known) → ∀ c ∈ cells.dropWhile p, c.attrs.Known :=
    fun p _ known c member => known c ((List.dropWhile_sublist p).subset member)
  induction cells using encodeRow.induct with
  | case1 =>
      rw [encodeRow]
      exact fun entry member => by cases member
  | case2 cell rest blank ih =>
      rw [encodeRow,if_pos blank]
      exact List.forall_mem_cons.mpr ⟨fun a member => (by cases member),ih (later _ _ known)⟩
  | case3 cell rest blank plain ih =>
      rw [encodeRow,if_neg blank,if_pos plain]
      refine List.forall_mem_cons.mpr ⟨fun a member => ?_,ih (later _ _ known)⟩
      rw [List.mem_singleton.mp member]
      exact known cell List.mem_cons_self
  | case4 cell rest blank plain ih =>
      rw [encodeRow,if_neg blank,if_neg plain]
      refine List.forall_mem_cons.mpr ⟨fun a member => ?_,ih (later _ _ known)⟩
      obtain ⟨c,taken,rfl⟩ := List.mem_map.mp member
      exact known c ((List.takeWhile_sublist _).subset taken)

theorem placed_known (rows cols : Nat) (offset : Int) (placed : List Row) (indexed : Indexed)
    (known : ∀ row ∈ placed, KnownRow row) : ∀ row ∈ TerminalEngine.placeCell rows cols offset placed indexed, KnownRow row := by
  unfold TerminalEngine.placeCell
  dsimp only
  split
  · exact known
  · split
    · exact known
    · intro row member
      obtain ⟨k,inside,rfl⟩ := List.mem_iff_getElem.mp member
      rw [List.getElem_modify]
      have old := known _ (List.getElem_mem (by simpa using inside))
      split
      · intro c cell
        rcases List.mem_or_eq_of_mem_set cell with there | new
        · exact old c there
        · rw [new]
          exact attrs_known _
      · exact old

theorem snapshot_known (e : TerminalEngine T P) : ∀ row ∈ e.snapshot.rows, KnownRow row := by
  refine StepRuns.run_invariant (fun rows : List Row => ∀ row ∈ rows, KnownRow row) _ ?_ fun rows indexed =>
    placed_known _ _ _ rows indexed
  intro row member
  rw [(List.mem_replicate.mp member).2]
  exact blank_known _

theorem scrolled_known (e : TerminalEngine T P) : ∀ row ∈ e.takeScrolledRows.2, KnownRow row := by
  unfold TerminalEngine.takeScrolledRows
  dsimp only
  split
  · exact fun row member => by cases member
  · intro row member
    obtain ⟨k,_,rfl⟩ := List.mem_map.mp member
    unfold TerminalEngine.translateGridRow
    dsimp only
    split
    · exact blank_known _
    · exact translated_known _

theorem frame_known (e : ProtocolEncoder) (snapshot : Snapshot) (modes : TerminalModes) (title : Option String)
    (scrolled : List Row) (cleared : Bool) (rows : ∀ row ∈ snapshot.rows, KnownRow row) (left : ∀ row ∈ scrolled, KnownRow row) :
    (e.encodeFrame snapshot modes title scrolled cleared).2.Known := by
  have encoded : ∀ rows : List Row, (∀ row ∈ rows, KnownRow row) → ∀ row ∈ rows.map (fun r => encodeRow r.cells),
      ∀ entry ∈ row, ∀ a ∈ entry.attrSets, a.Known := by
    intro rows known row member
    obtain ⟨r,inside,rfl⟩ := List.mem_map.mp member
    exact entries_known r.cells (known r inside)
  have dirty : ∀ old : List Row, ∀ row ∈ (diffRows old snapshot.rows).map DirtyRow.entries,
      ∀ entry ∈ row, ∀ a ∈ entry.attrSets, a.Known := by
    intro old row member
    obtain ⟨d,inside,rfl⟩ := List.mem_map.mp member
    obtain ⟨⟨row,k⟩,at_,made⟩ := List.mem_filterMap.mp inside
    rw [dirtyRow_changed] at made
    split at made
    · cases made
      exact entries_known _ (rows _ (List.fst_mem_of_mem_zipIdx at_))
    · cases made
  unfold ProtocolEncoder.encodeFrame
  split
  · split
    · intro row member
      rcases List.mem_append.mp member with gone | changed
      · exact encoded scrolled left row gone
      · exact dirty _ row changed
    · exact encoded _ rows
  · exact encoded _ rows

-- All that a handler adds to the events is of one kind.
def Emits (kind : ProtocolEvent → Prop) (s next : Session T P) : Prop :=
  ∀ event ∈ next.events.sent, event ∈ s.events.sent ∨ kind event

-- A kind that every frame of an engine and every command end is of.
structure Common (kind : ProtocolEvent → Prop) : Prop where
  frame : ∀ (e : ProtocolEncoder) (snapshot : Snapshot) (modes : TerminalModes) (title : Option String) (scrolled : List Row)
    (cleared : Bool), (∀ row ∈ snapshot.rows, KnownRow row) → (∀ row ∈ scrolled, KnownRow row) →
    kind (e.encodeFrame snapshot modes title scrolled cleared).2
  ended : ∀ seq exit line, kind (.commandEnd seq exit line)

variable {kind : ProtocolEvent → Prop}

theorem emits_same {s next : Session T P} (same : next.events = s.events) : Emits kind s next := by
  intro event member
  rw [same] at member
  exact .inl member

theorem emits_trans {s middle next : Session T P} (first : Emits kind s middle) (second : Emits kind middle next) :
    Emits kind s next := by
  intro event member
  rcases second event member with earlier | new
  · exact first event earlier
  · exact .inr new

theorem emits_one {s next : Session T P} {event : ProtocolEvent} (same : next.events = (s.events.send event).1)
    (is : kind event) : Emits kind s next := by
  intro other member
  rw [same] at member
  rcases s.events.send_sent event member with old | new
  · exact .inl old
  · exact .inr (new ▸ is)

theorem endAll_emits (common : Common kind) (s : Session T P) (marks : List CommandMark) : Emits kind s (s.endAll marks).1 := by
  induction marks generalizing s with
  | nil => exact emits_same rfl
  | cons cmd rest ih =>
      rw [endAll]
      split
      · exact emits_trans (emits_one rfl (common.ended _ _ _)) (ih _)
      · exact emits_one rfl (common.ended _ _ _)

theorem emitFrame_emits (common : Common kind) (s : Session T P) (scrolled : List Row) (cleared : Bool)
    (known : ∀ row ∈ scrolled, KnownRow row) : Emits kind s (s.emitFrame scrolled cleared).1 :=
  emits_one rfl (common.frame _ _ _ _ _ _ (snapshot_known _) known)

theorem writeAll_emits (s : Session T P) (writes : List (List UInt8)) : Emits kind s (s.writeAll writes).1 := by
  obtain ⟨commands,same,_⟩ := writeAll_frame s writes
  rw [same]
  exact emits_same rfl

theorem output_emits (common : Common kind) (s : Session T P) (bytes : List UInt8) :
    Emits kind s (s.handleTransportEvent (.output bytes)).1 := by
  have wrote : Emits kind _ _ := writeAll_emits {s with engine := (s.engine.feed bytes).drainPendingWrites.1}
    (s.engine.feed bytes).drainPendingWrites.2
  rw [handleTransportEvent]
  split
  · rename_i stopped written
    rw [written] at wrote
    exact wrote
  · rename_i next written
    rw [written] at wrote
    have ended := endAll_emits common {next with engine := next.engine.drainCommandEnds.1} next.engine.drainCommandEnds.2
    split
    · rename_i gone told
      rw [told] at ended
      exact emits_trans wrote ended
    · rename_i later told
      rw [told] at ended
      refine emits_trans (emits_trans wrote ended) ?_
      exact emitFrame_emits common {later with engine := later.engine.takeScrolledRows.1} _ _ (scrolled_known later.engine)

theorem input_emits (common : Common kind) (s : Session T P) (i : SessionInput) : Emits kind s (s.handleSessionInput i).1 := by
  cases i with
  | key k =>
      rw [handleSessionInput]
      split <;> exact emits_same rfl
  | paste text => exact emits_same rfl
  | mouse m =>
      rw [handleSessionInput]
      split <;> exact emits_same rfl
  | focus gained =>
      rw [handleSessionInput]
      split <;> exact emits_same rfl
  | resize size =>
      have same : ({s with engine := s.engine.resize size}.sendCommand (.resize size)).1.events = s.events := rfl
      rw [handleSessionInput]
      split
      · rename_i stopped written
        rw [written] at same
        exact emits_same same
      · rename_i next written
        rw [written] at same
        exact emits_trans (emits_same same) (emitFrame_emits common next [] false fun row member => by cases member)

theorem handle_emits (common : Common kind) (s : Session T P) (message : Received)
    (exit : ∀ seq status, message = .event (.exited status) → kind (.exited seq status)) : Emits kind s (s.handle message).1 := by
  cases message with
  | event ev =>
      cases ev with
      | output bytes => exact output_emits common s bytes
      | exited status => exact emits_one rfl (exit _ status rfl)
      | error err => exact emits_same rfl
  | eventsClosed => exact emits_same rfl
  | input i => exact input_emits common s i
  | inputsClosed => exact emits_same rfl

theorem rowless_known {event : ProtocolEvent} (none : event.rows = []) : event.Known := by
  intro row member
  rw [none] at member
  cases member

theorem known_common : Common ProtocolEvent.Known := ⟨frame_known,fun _ _ _ => rowless_known rfl⟩

-- Whatever the socket does: what it has taken is how the events began, and while the outbound
-- future goes on the others are on their way behind it, in order.
structure Carries (w : World T P) : Prop where
  room : w.session.events.room = none
  part : w.written <+: w.session.events.sent
  whole : w.outbound ≠ .finished →
    w.written ++ inOutbound w.outbound ++ w.queue ++ inBridge w.bridge ++ w.channel ++ w.unsent = w.session.events.sent
  engine : w.eventSender = false → w.running = false ∧ w.unsent = []
  bridge : w.outbound ≠ .finished → w.bridge = .finished → w.channel = [] ∧ w.eventSender = false

theorem serve_carries {w : World T P} (carries : Carries w) (ready : w.ready = true) (message : Received) :
    Carries (w.serve message) := by
  obtain ⟨running,empty⟩ := ready_open ready
  obtain ⟨alive,more,grown⟩ := handle_adds w.session carries.room message
  have unsent : (w.serve message).unsent = more := by
    simp only [World.serve,grown]
    exact List.drop_left
  refine ⟨alive,carries.part.trans ⟨more,grown.symm⟩,fun going => ?_,fun gone => ?_,carries.bridge⟩
  · have whole := carries.whole going
    rw [empty,List.append_nil] at whole
    rw [unsent]
    exact (congrArg (· ++ more) whole).trans grown.symm
  · have stopped := (carries.engine gone).1
    rw [running] at stopped
    cases stopped

theorem publish_carries {w : World T P} (carries : Carries w) : Carries w.publish := by
  unfold World.publish
  split
  · rename_i ev rest next
    have whole := carries.whole
    have busy : w.eventSender = false → False := by
      intro gone
      have none := (carries.engine gone).2
      rw [next] at none
      cases none
    rw [next] at whole
    refine ⟨carries.room,carries.part,fun going => ?_,fun gone => (busy gone).elim,fun going ended => ?_⟩
    · simpa only [List.append_assoc,List.cons_append,List.nil_append] using whole going
    · exact (busy (carries.bridge going ended).2).elim
  · exact carries

theorem bridge_carries {w : World T P} (carries : Carries w) : Carries w.bridgeStep := by
  unfold World.bridgeStep
  have whole := carries.whole
  split
  · rename_i at_
    rw [at_] at whole
    split
    · rename_i ev rest next
      rw [next] at whole
      refine ⟨carries.room,carries.part,fun going => ?_,carries.engine,fun _ ended => by cases ended⟩
      simpa only [inBridge,List.append_assoc,List.cons_append,List.nil_append] using whole going
    · rename_i empty
      split
      · exact carries
      · rename_i gone
        exact ⟨carries.room,carries.part,whole,carries.engine,fun _ _ => ⟨empty,Bool.eq_false_iff.mpr gone⟩⟩
  · rename_i ev at_
    rw [at_] at whole
    split
    · rename_i finished
      exact ⟨carries.room,carries.part,fun going => absurd finished going,carries.engine,fun going => absurd finished going⟩
    · refine ⟨carries.room,carries.part,fun going => ?_,carries.engine,fun _ ended => by cases ended⟩
      simpa only [inBridge,List.append_assoc,List.cons_append,List.nil_append,List.append_nil] using whole going
  · exact carries

theorem outbound_carries {w : World T P} (carries : Carries w) (taken : Bool) : Carries (w.outboundStep taken) := by
  unfold World.outboundStep
  have whole := carries.whole
  have bridge := carries.bridge
  split
  · exact carries
  · split
    · rename_i at_
      rw [at_] at whole bridge
      split
      · rename_i ev rest next
        rw [next] at whole
        refine ⟨carries.room,carries.part,fun _ => ?_,carries.engine,fun _ => bridge (by simp)⟩
        simpa only [inOutbound,List.append_assoc,List.cons_append,List.nil_append] using whole (by simp)
      · split
        · exact ⟨carries.room,carries.part,fun wrong => absurd rfl wrong,carries.engine,fun wrong => absurd rfl wrong⟩
        · exact carries
    · rename_i ev at_
      rw [at_] at whole bridge
      have all := whole (by simp)
      split
      · refine ⟨carries.room,?_,fun _ => ?_,carries.engine,fun _ => bridge (by simp)⟩
        · refine ⟨w.queue ++ inBridge w.bridge ++ w.channel ++ w.unsent,?_⟩
          simpa only [inOutbound,List.append_assoc] using all
        · simpa only [inOutbound,List.append_assoc,List.cons_append,List.nil_append,List.append_nil] using all
      · exact ⟨carries.room,carries.part,fun wrong => absurd rfl wrong,carries.engine,fun wrong => absurd rfl wrong⟩
    · exact carries

theorem step_carries (w : World T P) (move : Move) (carries : Carries w) : Carries (w.step move) := by
  cases move with
  | backend ev =>
      simp only [World.step]
      split <;> exact ⟨carries.room,carries.part,carries.whole,carries.engine,carries.bridge⟩
  | endBackend => exact ⟨carries.room,carries.part,carries.whole,carries.engine,carries.bridge⟩
  | dropCommands after => exact ⟨carries.room,carries.part,carries.whole,carries.engine,carries.bridge⟩
  | frame f => exact ⟨carries.room,carries.part,carries.whole,carries.engine,carries.bridge⟩
  | engineEvent =>
      simp only [World.step,World.engineEvent]
      split
      · rename_i ready
        split
        · rename_i ev rest _
          have heard : Carries {w with backend := rest} :=
            ⟨carries.room,carries.part,carries.whole,carries.engine,carries.bridge⟩
          exact serve_carries heard ready _
        · split
          · exact carries
          · exact serve_carries carries ready _
      · exact carries
  | engineInput =>
      simp only [World.step,World.engineInput]
      split
      · rename_i ready
        split
        · rename_i i rest _
          have heard : Carries {w with inputs := rest} :=
            ⟨carries.room,carries.part,carries.whole,carries.engine,carries.bridge⟩
          exact serve_carries heard ready _
        · split
          · exact carries
          · exact serve_carries carries ready _
      · exact carries
  | publish => exact publish_carries carries
  | dropInputReceiver =>
      simp only [World.step]
      split <;> exact ⟨carries.room,carries.part,carries.whole,carries.engine,carries.bridge⟩
  | dropEventSender =>
      simp only [World.step]
      split
      · rename_i settled
        obtain ⟨stopped,empty⟩ := Bool.and_eq_true_iff.mp settled
        refine ⟨carries.room,carries.part,carries.whole,fun _ => ⟨?_,List.isEmpty_iff.mp empty⟩,fun going ended => ?_⟩
        · exact Bool.not_eq_true' _ ▸ stopped
        · exact ⟨(carries.bridge going ended).1,rfl⟩
      · exact carries
  | bridge => exact bridge_carries carries
  | outbound taken => exact outbound_carries carries taken
  | inbound =>
      have kept : ∀ frames inputs inbound, Carries {w with frames := frames,inputs := inputs,inbound := inbound} :=
        fun _ _ _ => ⟨carries.room,carries.part,carries.whole,carries.engine,carries.bridge⟩
      simp only [World.step,World.inboundStep]
      split
      · exact carries
      · split <;> first | exact carries | exact kept _ _ _ | (split <;> exact kept _ _ _)

-- The message that a move gives the engine to handle.
def picked (w : World T P) : Move → Option Received
  | .engineEvent =>
    if w.ready then
      match w.backend with
      | ev :: _ => some (.event ev)
      | [] => if w.backendOpen then none else some .eventsClosed
    else none
  | .engineInput =>
    if w.ready then
      match w.inputs with
      | i :: _ => some (.input i)
      | [] => if w.inbound then none else some .inputsClosed
    else none
  | _ => none

def stimuliOf (w : World T P) (move : Move) : List Stimulus := (picked w move).elim [] Received.stimuli

-- What has reached the terminal in a run.
def reached (w : World T P) : List Move → List Stimulus
  | [] => []
  | move :: rest => stimuliOf w move ++ reached (w.step move) rest

-- A move hands the engine what it has picked; any other leaves the session as it is, but for the
-- room that its commands have.
inductive Served (w : World T P) (move : Move) (next : World T P) : Prop where
  | handled (message : Received) (chosen : picked w move = some message) (ready : w.running = true)
      (session : next.session = (w.session.handle message).1) (running : next.running = (w.session.handle message).2)
  | idle (chosen : picked w move = none) (room : Option Nat) (running : next.running = w.running)
      (gone : w.session.commands.room = some 0 → room = some 0)
      (session : next.session = {w.session with commands := ⟨w.session.commands.sent,room⟩})

theorem step_served (w : World T P) (move : Move) : Served w move (w.step move) := by
  have idle : ∀ next : World T P, picked w move = none → next.session = w.session → next.running = w.running → Served w move next :=
    fun next chosen session running => .idle chosen w.session.commands.room running id session
  cases move with
  | engineEvent =>
      simp only [World.step,World.engineEvent]
      split
      · rename_i ready
        split
        · rename_i ev rest next
          exact .handled (.event ev) (by simp only [picked,ready,next,if_true]) (ready_open ready).1 rfl rfl
        · rename_i empty
          split
          · rename_i more
            exact idle w (by simp only [picked,ready,empty,more,if_true]) rfl rfl
          · rename_i closed
            exact .handled .eventsClosed (by simp only [picked,ready,empty,if_neg closed,if_true]) (ready_open ready).1 rfl rfl
      · rename_i busy
        exact idle w (by simp only [picked,if_neg busy]) rfl rfl
  | engineInput =>
      simp only [World.step,World.engineInput]
      split
      · rename_i ready
        split
        · rename_i i rest next
          exact .handled (.input i) (by simp only [picked,ready,next,if_true]) (ready_open ready).1 rfl rfl
        · rename_i empty
          split
          · rename_i more
            exact idle w (by simp only [picked,ready,empty,more,if_true]) rfl rfl
          · rename_i closed
            exact .handled .inputsClosed (by simp only [picked,ready,empty,if_neg closed,if_true]) (ready_open ready).1 rfl rfl
      · rename_i busy
        exact idle w (by simp only [picked,if_neg busy]) rfl rfl
  | backend ev => simp only [World.step]; split <;> exact idle _ rfl rfl rfl
  | endBackend => exact idle _ rfl rfl rfl
  | dropCommands after => exact .idle rfl _ rfl (fun gone => by simp only [gone,Option.map_some,Nat.min_zero,Option.getD_some]) rfl
  | frame f => exact idle _ rfl rfl rfl
  | publish => simp only [World.step,World.publish]; split <;> exact idle _ rfl rfl rfl
  | dropInputReceiver => simp only [World.step]; split <;> exact idle _ rfl rfl rfl
  | dropEventSender => simp only [World.step]; split <;> exact idle _ rfl rfl rfl
  | bridge =>
      simp only [World.step,World.bridgeStep]
      split
      · split
        · exact idle _ rfl rfl rfl
        · split <;> exact idle _ rfl rfl rfl
      · split <;> exact idle _ rfl rfl rfl
      · exact idle _ rfl rfl rfl
  | outbound taken =>
      simp only [World.step,World.outboundStep]
      split
      · exact idle _ rfl rfl rfl
      · split
        · split
          · exact idle _ rfl rfl rfl
          · split <;> exact idle _ rfl rfl rfl
        · split <;> exact idle _ rfl rfl rfl
        · exact idle _ rfl rfl rfl
  | inbound =>
      simp only [World.step,World.inboundStep]
      split
      · exact idle _ rfl rfl rfl
      · split <;> first | exact idle _ rfl rfl rfl | (split <;> exact idle _ rfl rfl rfl)

-- What was offered to the server: the output of the backend, the messages of the client.
def offered : Move → List UInt8
  | .backend (.output bytes) => bytes
  | _ => []

def typedBy : ServerSession.Frame → List SessionInput
  | .text (some cm) => [cm.intoSessionInput]
  | _ => []

def spoken : Move → List SessionInput
  | .frame f => typedBy f
  | _ => []

def byteOf : Stimulus → Option UInt8
  | .byte b => some b
  | _ => none

def inputOf : Stimulus → Option SessionInput
  | .input i => some i
  | _ => none

def outputBytes (events : List TransportEvent) : List UInt8 := (delivered events).flatten

theorem outputBytes_cons (ev : TransportEvent) (rest : List TransportEvent) :
    outputBytes (ev :: rest) = offered (.backend ev) ++ outputBytes rest := by
  cases ev <;> rfl

theorem outputBytes_concat (events : List TransportEvent) (ev : TransportEvent) :
    outputBytes (events ++ [ev]) = outputBytes events ++ offered (.backend ev) := by
  induction events with
  | nil => rw [List.nil_append,outputBytes_cons]; exact List.append_nil _
  | cons first rest ih => rw [List.cons_append,outputBytes_cons,outputBytes_cons,ih,List.append_assoc]

theorem event_bytes (ev : TransportEvent) :
    (Received.stimuli (.event ev)).filterMap byteOf = offered (.backend ev) ∧ (Received.stimuli (.event ev)).filterMap inputOf = [] := by
  have bytes : ∀ bytes : List UInt8, (bytes.map Stimulus.byte).filterMap byteOf = bytes ∧
      (bytes.map Stimulus.byte).filterMap inputOf = [] := by
    intro bytes
    induction bytes with
    | nil => exact ⟨rfl,rfl⟩
    | cons b rest ih => exact ⟨congrArg (b :: ·) ih.1,ih.2⟩
  cases ev with
  | output text => exact bytes text
  | exited status => exact ⟨rfl,rfl⟩
  | error err => exact ⟨rfl,rfl⟩

-- What has reached the terminal, what waits and what never will make up what was offered.
structure Sources (w : World T P) (stimuli : List Stimulus) (bytes : List UInt8) (inputs : List SessionInput) : Prop where
  output : ∃ lost, stimuli.filterMap byteOf ++ outputBytes w.backend ++ lost = bytes ∧ (w.backendOpen = true → lost = [])
  typed : ∃ lost, stimuli.filterMap inputOf ++ w.inputs ++ lost = inputs ∧ (w.inbound = true → lost = w.frames.flatMap typedBy)

theorem engineEvent_sources (w : World T P) (sources : Sources w stimuli bytes inputs) :
    Sources w.engineEvent (stimuli ++ stimuliOf w .engineEvent) bytes inputs := by
  have still : stimuliOf w .engineEvent = [] → Sources w (stimuli ++ stimuliOf w .engineEvent) bytes inputs := by
    intro none
    rw [none,List.append_nil]
    exact sources
  unfold World.engineEvent
  split
  · rename_i ready
    split
    · rename_i ev rest next
      have heard : stimuliOf w .engineEvent = Received.stimuli (.event ev) := by
        simp only [stimuliOf,picked,ready,next,if_true,Option.elim]
      obtain ⟨lost,output,flowing⟩ := sources.output
      obtain ⟨bytes,inputs⟩ := event_bytes ev
      rw [next,outputBytes_cons] at output
      rw [heard]
      refine ⟨⟨lost,?_,flowing⟩,?_⟩
      · rw [List.filterMap_append,bytes,← output]
        simp only [List.append_assoc]
        rfl
      · rw [List.filterMap_append,inputs,List.append_nil]
        exact sources.typed
    · rename_i empty
      split
      · rename_i more
        exact still (by simp only [stimuliOf,picked,ready,empty,more,if_true,Option.elim])
      · rename_i closed
        have same := still (by simp only [stimuliOf,picked,ready,empty,if_neg closed,if_true,Option.elim,Received.stimuli])
        exact ⟨same.output,same.typed⟩
  · rename_i busy
    exact still (by simp only [stimuliOf,picked,if_neg busy,Option.elim])

theorem engineInput_sources (w : World T P) (sources : Sources w stimuli bytes inputs) :
    Sources w.engineInput (stimuli ++ stimuliOf w .engineInput) bytes inputs := by
  have still : stimuliOf w .engineInput = [] → Sources w (stimuli ++ stimuliOf w .engineInput) bytes inputs := by
    intro none
    rw [none,List.append_nil]
    exact sources
  unfold World.engineInput
  split
  · rename_i ready
    split
    · rename_i i rest next
      have heard : stimuliOf w .engineInput = [.input i] := by
        simp only [stimuliOf,picked,ready,next,if_true,Option.elim,Received.stimuli]
      obtain ⟨lost,typed,reading⟩ := sources.typed
      rw [next] at typed
      rw [heard]
      refine ⟨?_,lost,?_,reading⟩
      · rw [List.filterMap_append,List.filterMap_cons_none rfl,List.filterMap_nil,List.append_nil]
        exact sources.output
      · rw [List.filterMap_append,← typed,List.append_assoc (_ ++ _)]
        simp only [List.append_assoc]
        rfl
    · rename_i empty
      split
      · rename_i more
        exact still (by simp only [stimuliOf,picked,ready,empty,more,if_true,Option.elim])
      · rename_i closed
        have same := still (by simp only [stimuliOf,picked,ready,empty,if_neg closed,if_true,Option.elim,Received.stimuli])
        exact ⟨same.output,same.typed⟩
  · rename_i busy
    exact still (by simp only [stimuliOf,picked,if_neg busy,Option.elim])

theorem inbound_sources (w : World T P) (sources : Sources w stimuli bytes inputs) :
    Sources w.inboundStep stimuli bytes inputs := by
  obtain ⟨lost,typed,reading⟩ := sources.typed
  unfold World.inboundStep
  split
  · exact sources
  · rename_i going
    have on : w.inbound = true := by
      rw [Bool.not_eq_true,World.dropped,Bool.or_eq_false_iff] at going
      simpa using going.2
    have all := reading on
    have skip : ∀ f rest, w.frames = f :: rest → typedBy f = [] → lost = rest.flatMap typedBy := by
      intro f rest next none
      rw [all,next,List.flatMap_cons,none,List.nil_append]
    split
    · exact sources
    · rename_i cm rest next
      split
      · refine ⟨sources.output,rest.flatMap typedBy,?_,fun _ => rfl⟩
        rw [← typed,all,next,List.flatMap_cons]
        simp only [typedBy,List.append_assoc]
      · exact ⟨sources.output,lost,typed,fun wrong => by cases wrong⟩
    · rename_i rest next; exact ⟨sources.output,lost,typed,fun _ => skip _ rest next rfl⟩
    · rename_i rest next; exact ⟨sources.output,lost,typed,fun _ => skip _ rest next rfl⟩
    · rename_i rest next; exact ⟨sources.output,lost,typed,fun _ => skip _ rest next rfl⟩
    · rename_i rest next; exact ⟨sources.output,lost,typed,fun _ => skip _ rest next rfl⟩
    · exact ⟨sources.output,lost,typed,fun wrong => by cases wrong⟩
    · exact ⟨sources.output,lost,typed,fun wrong => by cases wrong⟩
    · exact ⟨sources.output,lost,typed,fun wrong => by cases wrong⟩

theorem step_sources (w : World T P) (move : Move) (sources : Sources w stimuli bytes inputs) :
    Sources (w.step move) (stimuli ++ stimuliOf w move) (bytes ++ offered move) (inputs ++ spoken move) := by
  obtain ⟨lostBytes,output,flowing⟩ := sources.output
  obtain ⟨lostInputs,typed,reading⟩ := sources.typed
  have aside : picked w move = none → offered move = [] → spoken move = [] → Sources (w.step move) stimuli bytes inputs →
      Sources (w.step move) (stimuli ++ stimuliOf w move) (bytes ++ offered move) (inputs ++ spoken move) := by
    intro unpicked unoffered unspoken same
    rw [stimuliOf,unpicked,unoffered,unspoken,Option.elim,List.append_nil,List.append_nil,List.append_nil]
    exact same
  cases move with
  | backend ev =>
      have quiet : stimuliOf w (.backend ev) = [] := rfl
      have silent : spoken (.backend ev) = [] := rfl
      rw [quiet,silent,List.append_nil,List.append_nil]
      simp only [World.step]
      split
      · rename_i more
        refine ⟨⟨[],?_,fun _ => rfl⟩,lostInputs,typed,reading⟩
        rw [flowing more,List.append_nil] at output
        rw [← output,outputBytes_concat,List.append_nil,List.append_assoc]
      · rename_i closed
        refine ⟨⟨lostBytes ++ offered (.backend ev),?_,fun more => absurd more closed⟩,sources.typed⟩
        rw [← output,List.append_assoc (_ ++ _)]
  | frame f =>
      have quiet : stimuliOf w (.frame f) = [] := rfl
      have silent : offered (.frame f) = [] := rfl
      rw [quiet,silent,List.append_nil,List.append_nil]
      refine ⟨sources.output,lostInputs ++ typedBy f,?_,fun on => ?_⟩
      · rw [← typed,List.append_assoc (_ ++ _)]
        rfl
      · rw [reading on]
        change _ = (w.frames ++ [f]).flatMap typedBy
        rw [List.flatMap_append,List.flatMap_cons,List.flatMap_nil,List.append_nil]
  | engineEvent =>
      have heard := engineEvent_sources w sources
      rwa [← List.append_nil bytes,← List.append_nil inputs] at heard
  | engineInput =>
      have heard := engineInput_sources w sources
      rwa [← List.append_nil bytes,← List.append_nil inputs] at heard
  | inbound => exact aside rfl rfl rfl (inbound_sources w sources)
  | endBackend => exact aside rfl rfl rfl ⟨⟨lostBytes,output,fun wrong => by cases wrong⟩,sources.typed⟩
  | dropCommands after => exact aside rfl rfl rfl ⟨sources.output,sources.typed⟩
  | publish =>
      refine aside rfl rfl rfl ?_
      simp only [World.step,World.publish]
      split <;> exact ⟨sources.output,sources.typed⟩
  | dropInputReceiver =>
      refine aside rfl rfl rfl ?_
      simp only [World.step]
      split <;> exact ⟨sources.output,sources.typed⟩
  | dropEventSender =>
      refine aside rfl rfl rfl ?_
      simp only [World.step]
      split <;> exact ⟨sources.output,sources.typed⟩
  | bridge =>
      refine aside rfl rfl rfl ?_
      simp only [World.step,World.bridgeStep]
      split
      · split
        · exact ⟨sources.output,sources.typed⟩
        · split <;> exact ⟨sources.output,sources.typed⟩
      · split <;> exact ⟨sources.output,sources.typed⟩
      · exact sources
  | outbound taken =>
      refine aside rfl rfl rfl ?_
      simp only [World.step,World.outboundStep]
      split
      · exact sources
      · split
        · split
          · exact ⟨sources.output,sources.typed⟩
          · split <;> exact ⟨sources.output,sources.typed⟩
        · split <;> exact ⟨sources.output,sources.typed⟩
        · exact sources

theorem begun_sources (size : TerminalSize) : Sources (begun size : World T P) [] [] [] :=
  ⟨⟨[],rfl,fun _ => rfl⟩,[],rfl,fun _ => rfl⟩

theorem run_sources (w : World T P) (sources : Sources w stimuli bytes inputs) (moves : List Move) :
    Sources (moves.foldl World.step w) (stimuli ++ reached w moves) (bytes ++ moves.flatMap offered)
      (inputs ++ moves.flatMap spoken) := by
  induction moves generalizing w stimuli bytes inputs with
  | nil => simpa [reached] using sources
  | cons move rest ih =>
      have later := ih (w.step move) (step_sources w move sources)
      simpa only [reached,List.foldl_cons,List.flatMap_cons,List.append_assoc] using later

-- What a browser makes of the texts of its socket: it reads each and follows the events.
def browser (texts : List Json) : Option Replica := (texts.filterMap ProtocolEvent.read).foldl receive none

theorem texts_read {events : List ProtocolEvent} (known : ∀ event ∈ events, event.Known) :
    (events.map ProtocolEvent.serialize).filterMap ProtocolEvent.read = events := by
  induction events with
  | nil => rfl
  | cons event rest ih =>
      rw [List.map_cons,List.filterMap_cons_some (event.read_serialize (known event List.mem_cons_self)),
        ih fun later member => known later (List.mem_cons_of_mem _ member)]

-- Each text brings the browser to the console at some point of what has reached it, and never back.
structure Watches (V : Viewport S) (c : Console T) (stimuli : List Stimulus) (texts : List Json) (points : List Nat) :
    Prop where
  each : points.length = texts.length
  onward : points.Pairwise (· ≤ ·)
  inside : ∀ p ∈ points, p ≤ stimuli.length
  views : ∀ k p, points[k]? = some p → browser (texts.take (k+1)) = some ((c.after (stimuli.take p)).shown V)

theorem watches_part {V : Viewport S} {c : Console T} {told : List ProtocolEvent} (mirrors : Console.Mirrors V c stimuli told points)
    (known : ∀ event ∈ told, event.Known) (part : written <+: told) :
    Watches V c stimuli (written.map ProtocolEvent.serialize) (points.take written.length) := by
  have short : written.length ≤ points.length := by
    rw [mirrors.each]
    exact part.length_le
  refine ⟨?_,mirrors.onward.sublist (List.take_sublist _ _),fun p member => ?_,fun k p at_ => ?_⟩
  · rw [List.length_take,List.length_map,Nat.min_eq_left short]
  · exact mirrors.inside p (List.mem_of_mem_take member)
  · have inside : k < written.length := by
      have bound := (List.getElem?_eq_some_iff.mp at_).1
      rw [List.length_take] at bound
      exact Nat.lt_of_lt_of_le bound (Nat.min_le_left _ _)
    rw [List.getElem?_take_of_lt inside] at at_
    have view := mirrors.views k p at_
    have same : written.take (k+1) = told.take (k+1) := by
      obtain ⟨more,rfl⟩ := part
      rw [List.take_append_of_le_length inside]
    rw [browser,← List.map_take,same,texts_read fun event member => known event (List.mem_of_mem_take member)]
    exact view

-- The session of a running server follows the console through every move.
structure Plays (V : Viewport S) (c : Console T) (w : World T P) (stimuli : List Stimulus) : Prop where
  follows : ∃ points, Console.Follows V c stimuli points (w.session,w.running)
  known : ∀ event ∈ w.session.events.sent, event.Known

theorem step_plays {V : Viewport S} {c : Console T} {w : World T P} (plays : Plays V c w stimuli) (move : Move) :
    Plays V c (w.step move) (stimuli ++ stimuliOf w move) := by
  obtain ⟨points,follows⟩ := plays.follows
  have served := step_served w move
  generalize w.step move = next at served
  cases served with
  | handled message chosen ready session running =>
      rw [ready] at follows
      obtain ⟨more,handled⟩ := Console.handle_follows follows message
      rw [stimuliOf,chosen]
      refine ⟨⟨points ++ more,?_⟩,?_⟩
      · rw [session,running]
        exact handled
      · intro event member
        rw [session] at member
        have told := handle_emits known_common w.session message (fun _ _ _ => rowless_known rfl) event member
        exact told.elim (plays.known event) id
  | idle chosen room running gone session =>
      rw [stimuliOf,chosen,Option.elim,List.append_nil]
      obtain ⟨p,last,current⟩ := follows.last
      have heeded : ∀ going, Console.Heeded ({w.session with commands := ⟨w.session.commands.sent,room⟩},going) →
          Console.Heeded (w.session,going) := fun going => Or.imp id fun there none => there (gone none)
      refine ⟨⟨points,?_⟩,?_⟩
      · rw [session,running]
        exact ⟨follows.plays,follows.fits,follows.consumer,follows.part,fun now => follows.whole (heeded _ now),follows.mirrors,
          follows.agrees,p,last,fun now => current (heeded _ now)⟩
      · rw [session]
        exact plays.known

theorem run_plays {V : Viewport S} {c : Console T} {w : World T P} (plays : Plays V c w stimuli) (moves : List Move) :
    Plays V c (moves.foldl World.step w) (stimuli ++ reached w moves) := by
  induction moves generalizing w stimuli with
  | nil =>
      rw [reached,List.append_nil]
      exact plays
  | cons move rest ih =>
      rw [reached,← List.append_assoc]
      exact ih (step_plays plays move)

theorem begun_plays (V : Viewport S) (size : TerminalSize) : Plays V (.begun size) (begun size : World T P) [] := by
  refine ⟨⟨[0],Console.spawn_follows V size⟩,fun event member => ?_⟩
  have first := frame_known .new (TerminalEngine.new size : TerminalEngine T P).snapshot
    (TerminalEngine.new size : TerminalEngine T P).modes (TerminalEngine.new size : TerminalEngine T P).title [] false
    (snapshot_known _) fun row member => by cases member
  rw [List.mem_singleton.mp member]
  exact first

theorem begun_carries (size : TerminalSize) : Carries (begun size : World T P) :=
  ⟨rfl,List.nil_prefix,fun _ => List.append_nil _,fun gone => (by cases gone),fun _ ended => by cases ended⟩

-- Whatever backend and client do and in whatever order the threads take their turns: the browser
-- draws the terminal, at moments that follow each other, and the backend is told what the terminal
-- answers and what the client types; nothing reaches the terminal but the output of the backend and
-- the messages of the client, each in its order.
theorem server_is_terminal (V : Viewport S) (size : TerminalSize) (moves : List Move) :
    let start : World T P := begun size
    let w := moves.foldl World.step start
    let stimuli := reached start moves
    (∃ points, Watches V (.begun size) stimuli (w.written.map ProtocolEvent.serialize) points) ∧
      w.session.commands.sent <+: (Console.begun size : Console T).replied stimuli ∧
      (Console.Heeded (w.session,w.running) → w.session.commands.sent = (Console.begun size : Console T).replied stimuli) ∧
      stimuli.filterMap byteOf <+: moves.flatMap offered ∧ stimuli.filterMap inputOf <+: moves.flatMap spoken := by
  intro start w stimuli
  have plays : Plays V (.begun size) w stimuli := run_plays (begun_plays V size) moves
  have carries : Carries w := StepRuns.run_invariant Carries moves (begun_carries size) step_carries
  have sources : Sources w stimuli (moves.flatMap offered) (moves.flatMap spoken) := run_sources start (begun_sources size) moves
  obtain ⟨points,follows⟩ := plays.follows
  obtain ⟨_,bytes,_⟩ := sources.output
  obtain ⟨_,inputs,_⟩ := sources.typed
  refine ⟨⟨_,watches_part follows.mirrors plays.known carries.part⟩,follows.part,follows.whole,?_,?_⟩
  · rw [← bytes,List.append_assoc]
    exact List.prefix_append _ _
  · rw [← inputs,List.append_assoc]
    exact List.prefix_append _ _

end Perga.Browser

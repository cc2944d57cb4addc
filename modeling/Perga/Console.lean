import Perga.Transcript

namespace Perga

-- What reaches a terminal: a byte of the program that runs in it, or an action of its user.
inductive Stimulus where
  | byte (b : UInt8)
  | input (i : SessionInput)
  deriving DecidableEq, Repr

-- A terminal in its window, with no engine, encoder or channel between it and its user.
structure Console (T : Terminal) where
  term : T.State
  title : Option String
  size : TerminalSize

namespace Console
variable {T : Terminal}

def begun (size : TerminalSize) : Console T := ⟨T.new (.ofSize size),none,size⟩

def modes (c : Console T) : TerminalModes := .fromTermMode (T.mode c.term)

def retitled (title : Option String) : TermEvent → Option String
  | .title value => some value
  | .resetTitle => none
  | _ => title

def answer : TermEvent → Option (List UInt8)
  | .ptyWrite text => some text
  | _ => none

-- What an action of the user tells the program, in the modes that the program has set.
def typed (modes : TerminalModes) : SessionInput → List TransportCommand
  | .key k => [.write (InputEncoders.encodeKey k modes)]
  | .paste text => [.write (InputEncoders.encodePaste text modes)]
  | .mouse m => ((InputEncoders.encodeMouse m modes).map .write).toList
  | .focus gained => ((InputEncoders.encodeFocus gained modes).map .write).toList
  | .resize size => [.resize size]

def react (c : Console T) : Stimulus → Console T
  | .byte b => ⟨T.step c.term b,(T.emitted c.term b).foldl retitled c.title,c.size⟩
  | .input (.resize size) => ⟨T.resize c.term (.ofSize size),c.title,size⟩
  | .input _ => c

def replies (c : Console T) : Stimulus → List TransportCommand
  | .byte b => ((T.emitted c.term b).filterMap answer).map .write
  | .input i => typed c.modes i

def after (c : Console T) (stimuli : List Stimulus) : Console T := stimuli.foldl react c

def replied (c : Console T) : List Stimulus → List TransportCommand
  | [] => []
  | stimulus :: rest => c.replies stimulus ++ replied (c.react stimulus) rest

theorem after_append (c : Console T) (first second : List Stimulus) :
    c.after (first ++ second) = (c.after first).after second := List.foldl_append

theorem replied_append (c : Console T) (first second : List Stimulus) :
    c.replied (first ++ second) = c.replied first ++ (c.after first).replied second := by
  induction first generalizing c with
  | nil => rfl
  | cons stimulus rest ih =>
      rw [List.cons_append,replied,replied,ih,List.append_assoc]
      rfl

-- What its user sees.
def shown {S : Screens T} (V : Viewport S) (c : Console T) : ClientReplica.Replica where
  size := c.size
  cursor := translateCursor (T.renderableContent c.term).cursor 0
  grid := Transcript.translateLines (V.visible c.term)
  modes := c.modes
  title := c.title

-- What the listener has collected after some bytes: the answers in their order, the last title.
theorem sendEvent_answers (listener : ListenerState) (events : List TermEvent) :
    (events.foldl ListenerState.sendEvent listener).pendingWrites = listener.pendingWrites ++ events.filterMap answer ∧
      (events.foldl ListenerState.sendEvent listener).title = events.foldl retitled listener.title := by
  induction events generalizing listener with
  | nil => exact ⟨(List.append_nil _).symm,rfl⟩
  | cons event rest ih =>
      obtain ⟨answers,title⟩ := ih (listener.sendEvent event)
      rw [List.foldl_cons,answers,title]
      cases event with
      | ptyWrite text => exact ⟨by simp [ListenerState.sendEvent,answer],rfl⟩
      | title value => exact ⟨rfl,rfl⟩
      | resetTitle => exact ⟨rfl,rfl⟩
      | bell => exact ⟨rfl,rfl⟩
      | ignored => exact ⟨rfl,rfl⟩

theorem listen_answers (c : Console T) (listener : ListenerState) (bytes : List UInt8) (titled : listener.title = c.title) :
    ((T.listen c.term listener bytes).pendingWrites.map .write : List TransportCommand) =
        listener.pendingWrites.map .write ++ c.replied (bytes.map .byte) ∧
      (T.listen c.term listener bytes).title = (c.after (bytes.map .byte)).title ∧
      T.advance c.term bytes = (c.after (bytes.map .byte)).term ∧ (c.after (bytes.map .byte)).size = c.size := by
  induction bytes generalizing c listener with
  | nil => exact ⟨(List.append_nil _).symm,titled,rfl,rfl⟩
  | cons b rest ih =>
      obtain ⟨answers,title⟩ := sendEvent_answers listener (T.emitted c.term b)
      obtain ⟨later,last,term,size⟩ := ih (c.react (.byte b)) ((T.emitted c.term b).foldl ListenerState.sendEvent listener)
        (by rw [title,titled]; rfl)
      refine ⟨?_,last,term,size⟩
      refine later.trans ?_
      rw [answers,List.map_append,List.append_assoc]
      rfl

end Console

-- What a message of the loop brings to the terminal.
def Received.stimuli : Received → List Stimulus
  | .event (.output bytes) => bytes.map .byte
  | .input i => [.input i]
  | _ => []

namespace Console
open Session EventStream ClientReplica Transcript
variable {T : Terminal} {P : VteParser} {S : Screens T}

-- The engine holds the terminal of this console, and nothing waits in it.
structure Plays (c : Console T) (e : TerminalEngine T P) : Prop where
  term : e.term = c.term
  title : e.state.title = c.title
  size : e.size = c.size
  answered : e.state.pendingWrites = []
  settled : e.shell.pending = []

theorem begun_plays (size : TerminalSize) : Plays (begun size) (.new size : TerminalEngine T P) := ⟨rfl,rfl,rfl,rfl,rfl⟩

theorem plays_modes {c : Console T} {e : TerminalEngine T P} (plays : Plays c e) : e.modes = c.modes := by
  rw [TerminalEngine.modes,plays.term,Console.modes]

theorem feed_plays {c : Console T} {e : TerminalEngine T P} (plays : Plays c e) (bytes : List UInt8) :
    Plays (c.after (bytes.map .byte)) (e.feed bytes).drainPendingWrites.1 ∧
      (e.feed bytes).drainPendingWrites.2.map TransportCommand.write = c.replied (bytes.map .byte) := by
  obtain ⟨answers,title,term,size⟩ := listen_answers c e.state bytes plays.title
  have state : (e.feed bytes).state = T.listen e.term e.state bytes := Readings.feed_state plays.settled bytes
  rw [plays.term] at state
  refine ⟨⟨?_,?_,?_,rfl,Readings.feed_pending plays.settled bytes⟩,?_⟩
  · change (e.feed bytes).term = _
    rw [Readings.feed_term plays.settled,plays.term]
    exact term
  · change (e.feed bytes).state.title = _
    rw [state]
    exact title
  · change (e.feed bytes).size = _
    rw [Readings.feed_size plays.settled,size]
    exact plays.size
  · change (e.feed bytes).state.pendingWrites.map TransportCommand.write = _
    rw [state,answers,plays.answered]
    rfl

theorem drained_plays {c : Console T} {e : TerminalEngine T P} (plays : Plays c e) :
    Plays c e.drainCommandEnds.1.takeScrolledRows.1 := by
  rw [EngineRuns.takeScrolledRows_engine]
  exact ⟨plays.term,plays.title,plays.size,plays.answered,plays.settled⟩

theorem resize_plays {c : Console T} {e : TerminalEngine T P} (plays : Plays c e) (size : TerminalSize) :
    Plays (c.react (.input (.resize size))) (e.resize size) := by
  refine ⟨?_,plays.title,rfl,plays.answered,plays.settled⟩
  change T.resize e.term _ = T.resize c.term _
  rw [plays.term]

theorem react_dims (V : Viewport S) (c : Console T) (stimulus : Stimulus) (fits : V.dims c.term = .ofSize c.size) :
    V.dims (c.react stimulus).term = .ofSize (c.react stimulus).size := by
  cases stimulus with
  | byte b => exact (V.step_dims c.term b).trans fits
  | input i =>
      cases i with
      | resize size => exact V.resize_dims c.term _
      | key k => exact fits
      | paste text => exact fits
      | mouse m => exact fits
      | focus gained => exact fits

-- A frame of the engine is what the user of the console sees.
theorem frame_shown (V : Viewport S) {c : Console T} {e : TerminalEngine T P} (plays : Plays c e)
    (fits : V.dims c.term = .ofSize c.size) (scrolled : List Row) (cleared : Bool) :
    (frameOf e scrolled cleared).shown = c.shown V := by
  have dims : V.dims e.term = .ofSize e.size := by rw [plays.term,plays.size]; exact fits
  have grid := TerminalEngine.snapshot_visible V e dims
  have cursor : e.snapshot.cursor = translateCursor (T.renderableContent c.term).cursor 0 := by
    change translateCursor (T.renderableContent e.term).cursor _ = _
    rw [V.offset,plays.term]
    rfl
  have size : e.snapshot.size = c.size := plays.size
  rw [plays.term] at grid
  rw [Frame.shown,frameOf,shown]
  simp only [grid,cursor,size,plays_modes plays,TerminalEngine.title,plays.title,translateLines]

-- After each event the client sees the console at some point of its stimuli, and never goes back.
structure Mirrors (V : Viewport S) (c : Console T) (stimuli : List Stimulus) (told : List ProtocolEvent)
    (points : List Nat) : Prop where
  each : points.length = told.length
  onward : points.Pairwise (· ≤ ·)
  inside : ∀ p ∈ points, p ≤ stimuli.length
  views : ∀ k p, points[k]? = some p → (told.take (k+1)).foldl receive none = some ((c.after (stimuli.take p)).shown V)

theorem mirrors_heard {V : Viewport S} {c : Console T} {told : List ProtocolEvent} (mirrors : Mirrors V c stimuli told points) (more : List Stimulus) :
    Mirrors V c (stimuli ++ more) told points := by
  refine ⟨mirrors.each,mirrors.onward,fun p member => ?_,fun k p at_ => ?_⟩
  · rw [List.length_append]
    exact Nat.le_trans (mirrors.inside p member) (Nat.le_add_right _ _)
  · rw [List.take_append_of_le_length (mirrors.inside p (List.mem_of_getElem? at_))]
    exact mirrors.views k p at_

theorem mirrors_told {V : Viewport S} {c : Console T} {told : List ProtocolEvent} (mirrors : Mirrors V c stimuli told points) (event : ProtocolEvent)
    (p : Nat) (later : ∀ q ∈ points, q ≤ p) (inside : p ≤ stimuli.length)
    (view : (told ++ [event]).foldl receive none = some ((c.after (stimuli.take p)).shown V)) :
    Mirrors V c stimuli (told ++ [event]) (points ++ [p]) := by
  refine ⟨by simp [mirrors.each],?_,fun q member => ?_,fun k q at_ => ?_⟩
  · rw [List.pairwise_append]
    exact ⟨mirrors.onward,List.pairwise_singleton _ _,fun q member r last => List.mem_singleton.mp last ▸ later q member⟩
  · rcases List.mem_append.mp member with old | new
    · exact mirrors.inside q old
    · rw [List.mem_singleton.mp new]
      exact inside
  · by_cases old : k < points.length
    · rw [List.getElem?_append_left old] at at_
      rw [List.take_append_of_le_length (by rw [← mirrors.each]; exact old)]
      exact mirrors.views k q at_
    · have last : k = points.length ∧ q = p := by
        rw [List.getElem?_append_right (Nat.le_of_not_lt old)] at at_
        obtain ⟨zero,same⟩ := List.getElem?_eq_some_iff.mp at_
        simp only [List.length_singleton] at zero
        refine ⟨by omega,?_⟩
        rw [← same]
        exact List.getElem_singleton zero
      obtain ⟨rfl,rfl⟩ := last
      rw [List.take_of_length_le (by simp [mirrors.each])]
      exact view

-- A handler sends its commands in their order, as far as the backend takes them.
def Taken (s : Session T P) (commands : List TransportCommand) (next : Session T P × Bool) : Prop :=
  ∃ taken room, next.1 = {s with commands := ⟨s.commands.sent ++ taken,room⟩} ∧ taken <+: commands ∧
    (next.2 = true → taken = commands) ∧ (next.2 = false → room = some 0)

theorem taken_none (s : Session T P) : Taken s [] (s,true) :=
  ⟨[],s.commands.room,by rw [List.append_nil],List.prefix_refl _,fun _ => rfl,fun wrong => by cases wrong⟩

theorem taken_one (s : Session T P) (command : TransportCommand) : Taken s [command] (s.sendCommand command) := by
  unfold Taken sendCommand Outlet.send
  split
  · exact ⟨[command],none,rfl,List.prefix_refl _,fun _ => rfl,fun wrong => by cases wrong⟩
  · rename_i gone
    exact ⟨[],some 0,by rw [List.append_nil,← gone],List.nil_prefix,fun wrong => (by cases wrong),fun _ => rfl⟩
  · rename_i n _
    exact ⟨[command],some n,rfl,List.prefix_refl _,fun _ => rfl,fun wrong => by cases wrong⟩

theorem taken_writes (s : Session T P) (writes : List (List UInt8)) : Taken s (writes.map .write) (s.writeAll writes) := by
  induction writes generalizing s with
  | nil => exact taken_none s
  | cons w rest ih =>
      obtain ⟨taken,room,next,part,all,failed⟩ := taken_one s (.write w)
      rw [writeAll]
      split
      · rename_i later going
        rw [going] at next all
        obtain ⟨more,room',next',part',all',failed'⟩ := ih later
        have one : taken = [.write w] := all rfl
        cases next
        subst one
        refine ⟨.write w :: more,room',?_,?_,fun goes => (by rw [all' goes]; rfl),failed'⟩
        · rw [next']
          simp
        · exact List.cons_prefix_cons.mpr ⟨rfl,part'⟩
      · rename_i later stopped
        rw [stopped] at next failed
        refine ⟨taken,room,next,?_,fun wrong => (by cases wrong),failed⟩
        exact part.trans (List.cons_prefix_cons.mpr ⟨rfl,List.nil_prefix⟩)

-- The backend has refused nothing: the loop goes on, or it ended with the receiver still there.
def Heeded (s : Session T P × Bool) : Prop := s.2 = true ∨ s.1.commands.room ≠ some 0

-- The loop has done to its terminal what reached it; if nothing was refused it has said all that
-- the console says, and the client sees all that the console shows.
structure Follows (V : Viewport S) (c : Console T) (stimuli : List Stimulus) (points : List Nat) (s : Session T P × Bool) :
    Prop where
  plays : Plays (c.after stimuli) s.1.engine
  fits : V.dims (c.after stimuli).term = .ofSize (c.after stimuli).size
  consumer : s.1.events.room = none
  part : s.1.commands.sent <+: c.replied stimuli
  whole : Heeded s → s.1.commands.sent = c.replied stimuli
  mirrors : Mirrors V c stimuli s.1.events.sent points
  agrees : ∃ f, Agrees s.1.encoder (s.1.events.sent.foldl receive none) (some f)
  last : ∃ p, points.getLast? = some p ∧ (Heeded s → (c.after (stimuli.take p)).shown V = (c.after stimuli).shown V)

theorem mirrors_last {V : Viewport S} {c : Console T} {told : List ProtocolEvent} (mirrors : Mirrors V c stimuli told points)
    (last : points.getLast? = some p) : told.foldl receive none = some ((c.after (stimuli.take p)).shown V) := by
  obtain ⟨earlier,rfl⟩ := List.getLast?_eq_some_iff.mp last
  have view := mirrors.views earlier.length p (by simp)
  rwa [List.take_of_length_le (by rw [← mirrors.each]; simp)] at view

-- Events that no client looks at leave the point where it is.
theorem mirrors_aside {V : Viewport S} {c : Console T} {told : List ProtocolEvent} (mirrors : Mirrors V c stimuli told points)
    (last : points.getLast? = some p) (event : ProtocolEvent) (aside : ∀ client, receive client event = client) :
    Mirrors V c stimuli (told ++ [event]) (points ++ [p]) := by
  have view := mirrors_last mirrors last
  have member : p ∈ points := List.mem_of_getLast? last
  obtain ⟨earlier,rfl⟩ := List.getLast?_eq_some_iff.mp last
  refine mirrors_told mirrors event p ?_ (mirrors.inside p member) ?_
  · intro q member
    rcases List.mem_append.mp member with old | new
    · exact (List.pairwise_append.mp mirrors.onward).2.2 q old p (by simp)
    · exact Nat.le_of_eq (List.mem_singleton.mp new)
  · rw [List.foldl_append,List.foldl_cons,List.foldl_nil,aside,view]

theorem mirrors_ends {V : Viewport S} {c : Console T} {told : List ProtocolEvent} (mirrors : Mirrors V c stimuli told points)
    (last : points.getLast? = some p) (seq : Nat) (marks : List CommandMark) :
    ∃ more, Mirrors V c stimuli (told ++ endEvents seq marks) (points ++ more) := by
  induction marks generalizing told points seq with
  | nil => exact ⟨[],by rw [endEvents,List.append_nil,List.append_nil]; exact mirrors⟩
  | cons cmd rest ih =>
      have next := mirrors_aside mirrors last (.commandEnd (seq+1) cmd.exit cmd.line) fun client => by cases client <;> rfl
      obtain ⟨more,later⟩ := ih next List.getLast?_concat (seq+1)
      rw [List.append_assoc,List.append_assoc] at later
      exact ⟨p :: more,later⟩

-- A frame brings the client up to everything that has reached the terminal.
theorem mirrors_frame {V : Viewport S} {c : Console T} {told : List ProtocolEvent}
    (mirrors : Mirrors V c stimuli told points) (event : ProtocolEvent)
    (view : receive (told.foldl receive none) event = some ((c.after stimuli).shown V)) :
    Mirrors V c stimuli (told ++ [event]) (points ++ [stimuli.length]) := by
  refine mirrors_told mirrors event stimuli.length mirrors.inside (Nat.le_refl _) ?_
  rw [List.foldl_append,List.foldl_cons,List.foldl_nil,view,List.take_length]

theorem frame_follows {V : Viewport S} {c : Console T} {e : TerminalEngine T P} {told : List ProtocolEvent}
    {encoder : ProtocolEncoder} {last : Option Frame} {commands : Outlet TransportCommand} (plays : Plays (c.after stimuli) e)
    (fits : V.dims (c.after stimuli).term = .ofSize (c.after stimuli).size) (replied : commands.sent = c.replied stimuli)
    (mirrors : Mirrors V c stimuli told points) (agrees : Agrees encoder (told.foldl receive none) last)
    (scrolled : List Row) (cleared : Bool) :
    Follows V c stimuli (points ++ [stimuli.length])
      ((⟨e,encoder,commands,⟨told,none⟩⟩ : Session T P).emitFrame scrolled cleared) := by
  have next := call_agrees (.frame (frameOf e scrolled cleared)) agrees
  have view := next.2
  have frame : latest last (.frame (frameOf e scrolled cleared)) = some (frameOf e scrolled cleared) := rfl
  rw [frame,Option.map_some,frame_shown V plays fits] at view
  refine ⟨plays,fits,rfl,?_,fun _ => replied,mirrors_frame mirrors _ view,⟨frameOf e scrolled cleared,next.1,?_⟩,
    _,List.getLast?_concat,fun _ => ?_⟩
  · exact ⟨[],by rw [List.append_nil]; exact replied⟩
  · change (told ++ [_]).foldl receive none = _
    rw [List.foldl_append]
    exact next.2
  · rw [List.take_length]

-- A handler that the backend fails half-way has fed the terminal and has told the client nothing.
theorem stopped_follows {V : Viewport S} {c : Console T} {s : Session T P} {e : TerminalEngine T P}
    (follows : Follows V c stimuli points (s,true)) (more : List Stimulus) (plays : Plays (c.after (stimuli ++ more)) e)
    (fits : V.dims (c.after (stimuli ++ more)).term = .ofSize (c.after (stimuli ++ more)).size)
    (part : taken <+: (c.after stimuli).replied more) (gone : room = some 0) :
    Follows V c (stimuli ++ more) points ({s with engine := e,commands := ⟨s.commands.sent ++ taken,room⟩},false) := by
  have sent : s.commands.sent = c.replied stimuli := follows.whole (.inl rfl)
  obtain ⟨p,last,_⟩ := follows.last
  have refused : ¬ Heeded ({s with engine := e,commands := ⟨s.commands.sent ++ taken,room⟩},false) := by
    rw [gone]
    rintro (wrong | there)
    · cases wrong
    · exact there rfl
  refine ⟨plays,fits,follows.consumer,?_,fun heeded => absurd heeded refused,mirrors_heard follows.mirrors more,follows.agrees,
    p,last,fun heeded => absurd heeded refused⟩
  change s.commands.sent ++ taken <+: _
  rw [sent,replied_append]
  exact (List.prefix_append_right_inj _).mpr part

theorem after_fits {V : Viewport S} {c : Console T} (fits : V.dims (c.after stimuli).term = .ofSize (c.after stimuli).size)
    (more : List Stimulus) : V.dims (c.after (stimuli ++ more)).term = .ofSize (c.after (stimuli ++ more)).size := by
  rw [after_append]
  exact StepRuns.run_invariant (fun c : Console T => V.dims c.term = .ofSize c.size) more fits fun c stimulus =>
    react_dims V c stimulus

theorem output_follows {V : Viewport S} {c : Console T} {s : Session T P} (follows : Follows V c stimuli points (s,true))
    (bytes : List UInt8) :
    ∃ more, Follows V c (stimuli ++ bytes.map .byte) (points ++ more) (s.handleTransportEvent (.output bytes)) := by
  obtain ⟨fed,replies⟩ := feed_plays follows.plays bytes
  have fits := after_fits follows.fits (bytes.map .byte)
  have wrote := taken_writes {s with engine := (s.engine.feed bytes).drainPendingWrites.1} (s.engine.feed bytes).drainPendingWrites.2
  have sent : s.commands.sent = c.replied stimuli := follows.whole (.inl rfl)
  rw [← after_append] at fed
  rw [replies] at wrote
  obtain ⟨taken,room,next,part,all,failed⟩ := wrote
  rw [Session.handleTransportEvent]
  split
  · rename_i stopped written
    rw [written] at next failed
    cases next
    refine ⟨[],?_⟩
    rw [List.append_nil]
    exact stopped_follows follows _ fed fits part (failed rfl)
  · rename_i going written
    rw [written] at next all
    have whole := all rfl
    cases next
    subst whole
    obtain ⟨p,last,_⟩ := follows.last
    obtain ⟨f,agrees⟩ := follows.agrees
    have heard := mirrors_heard follows.mirrors (bytes.map .byte)
    have ended := endAll_alive ⟨(s.engine.feed bytes).drainPendingWrites.1.drainCommandEnds.1,s.encoder,
      ⟨s.commands.sent ++ (c.after stimuli).replied (bytes.map .byte),room⟩,s.events⟩ follows.consumer
      (s.engine.feed bytes).drainPendingWrites.1.drainCommandEnds.2
    simp only [ended]
    obtain ⟨more,told⟩ := mirrors_ends heard last s.encoder.seq (s.engine.feed bytes).drainPendingWrites.1.drainCommandEnds.2
    have client (seq : Nat) : Agrees ⟨seq,s.encoder.last⟩ ((s.events.sent ++ endEvents s.encoder.seq
        (s.engine.feed bytes).drainPendingWrites.1.drainCommandEnds.2).foldl receive none) (some f) := by
      rw [List.foldl_append,receive_ends]
      exact agrees
    refine ⟨more ++ [(stimuli ++ bytes.map Stimulus.byte).length],?_⟩
    rw [← List.append_assoc]
    refine frame_follows (drained_plays fed) fits ?_ told (client _) _ _
    change s.commands.sent ++ _ = _
    rw [replied_append,sent]

theorem resize_follows {V : Viewport S} {c : Console T} {s : Session T P} (follows : Follows V c stimuli points (s,true))
    (size : TerminalSize) :
    ∃ more, Follows V c (stimuli ++ [.input (.resize size)]) (points ++ more) (s.handleSessionInput (.resize size)) := by
  have plays := resize_plays follows.plays size
  have fits := after_fits follows.fits [.input (.resize size)]
  have joined : c.after (stimuli ++ [.input (.resize size)]) = (c.after stimuli).react (.input (.resize size)) := after_append _ _ _
  obtain ⟨taken,room,next,part,all,failed⟩ := taken_one {s with engine := s.engine.resize size} (.resize size)
  rw [← joined] at plays
  rw [Session.handleSessionInput]
  split
  · rename_i stopped written
    rw [written] at next failed
    cases next
    refine ⟨[],?_⟩
    rw [List.append_nil]
    exact stopped_follows follows _ plays fits part (failed rfl)
  · rename_i going written
    rw [written] at next all
    have whole : taken = [.resize size] := all rfl
    cases next
    subst whole
    obtain ⟨f,agrees⟩ := follows.agrees
    have sent : s.commands.sent = c.replied stimuli := follows.whole (.inl rfl)
    have consumer := follows.consumer
    have told : s.events = ⟨s.events.sent,none⟩ := by rw [← consumer]
    simp only
    rw [told]
    refine ⟨[_],frame_follows plays fits ?_ (mirrors_heard follows.mirrors _) agrees _ _⟩
    change s.commands.sent ++ _ = _
    rw [replied_append,sent]
    rfl

-- An input that only talks to the program leaves the console as it is.
theorem typed_follows {V : Viewport S} {c : Console T} {s : Session T P} (follows : Follows V c stimuli points (s,true))
    (i : SessionInput) (still : ∀ c : Console T, c.react (.input i) = c)
    (taken : Taken s (typed (c.after stimuli).modes i) (s.handleSessionInput i)) :
    Follows V c (stimuli ++ [.input i]) points (s.handleSessionInput i) := by
  have same : c.after (stimuli ++ [.input i]) = c.after stimuli := (after_append _ _ _).trans (still _)
  have grown : c.replied (stimuli ++ [.input i]) = c.replied stimuli ++ typed (c.after stimuli).modes i := by
    rw [replied_append]
    exact congrArg (_ ++ ·) (List.append_nil _)
  obtain ⟨p,last,current⟩ := follows.last
  obtain ⟨sent,room,next,part,all,failed⟩ := taken
  have before : s.commands.sent = c.replied stimuli := follows.whole (.inl rfl)
  have goes : Heeded (s.handleSessionInput i) → (s.handleSessionInput i).2 = true := by
    rintro (on | there)
    · exact on
    · by_contra stopped
      rw [next] at there
      exact there (failed (Bool.eq_false_iff.mpr stopped))
  have inside := follows.mirrors.inside p (List.mem_of_getLast? last)
  refine ⟨?_,by rw [same]; exact follows.fits,?_,?_,fun heeded => ?_,?_,?_,p,last,fun _ => ?_⟩
  · rw [same,next]
    exact follows.plays
  · rw [next]
    exact follows.consumer
  · rw [next,grown,before]
    exact (List.prefix_append_right_inj _).mpr part
  · rw [next,grown,before,all (goes heeded)]
  · rw [next]
    exact mirrors_heard follows.mirrors _
  · rw [next]
    exact follows.agrees
  · rw [same,List.take_append_of_le_length inside]
    exact current (.inl rfl)

theorem input_follows {V : Viewport S} {c : Console T} {s : Session T P} (follows : Follows V c stimuli points (s,true))
    (i : SessionInput) : ∃ more, Follows V c (stimuli ++ [.input i]) (points ++ more) (s.handleSessionInput i) := by
  have modes : s.engine.modes = (c.after stimuli).modes := plays_modes follows.plays
  have typing : (∀ c : Console T, c.react (.input i) = c) → Taken s (typed (c.after stimuli).modes i) (s.handleSessionInput i) →
      ∃ more, Follows V c (stimuli ++ [.input i]) (points ++ more) (s.handleSessionInput i) := by
    intro still taken
    refine ⟨[],?_⟩
    rw [List.append_nil]
    exact typed_follows follows i still taken
  cases i with
  | resize size => exact resize_follows follows size
  | key k =>
      refine typing (fun _ => rfl) ?_
      rw [Session.handleSessionInput,typed,modes,if_neg (by simpa using InputEncoders.encodeKey_nonempty k _)]
      exact taken_one s _
  | paste text =>
      refine typing (fun _ => rfl) ?_
      rw [Session.handleSessionInput,typed,modes]
      exact taken_one s _
  | mouse m =>
      refine typing (fun _ => rfl) ?_
      rw [Session.handleSessionInput,typed,modes]
      cases InputEncoders.encodeMouse m (c.after stimuli).modes with
      | some bytes => exact taken_one s _
      | none => exact taken_none s
  | focus gained =>
      refine typing (fun _ => rfl) ?_
      rw [Session.handleSessionInput,typed,modes]
      cases InputEncoders.encodeFocus gained (c.after stimuli).modes with
      | some bytes => exact taken_one s _
      | none => exact taken_none s

theorem exit_follows {V : Viewport S} {c : Console T} {s : Session T P} (follows : Follows V c stimuli points (s,true))
    (status : ExitStatus) : ∃ more, Follows V c stimuli (points ++ more) (s.handleTransportEvent (.exited status)) := by
  obtain ⟨p,last,current⟩ := follows.last
  obtain ⟨f,agrees⟩ := follows.agrees
  have aside : ∀ client, receive client (.exited (s.encoder.seq+1) status) = client := by
    intro client
    cases client <;> rfl
  have room : s.events.room = none := follows.consumer
  simp only [Session.handleTransportEvent,Outlet.send,room,ProtocolEncoder.encodeExited]
  refine ⟨[p],follows.plays,follows.fits,rfl,follows.part,fun _ => follows.whole (.inl rfl),mirrors_aside follows.mirrors last _ aside,
    ⟨f,agrees.1,?_⟩,p,List.getLast?_concat,fun _ => current (.inl rfl)⟩
  rw [List.foldl_append,agrees.2]
  exact aside _

theorem handle_follows {V : Viewport S} {c : Console T} {s : Session T P} (follows : Follows V c stimuli points (s,true))
    (message : Received) : ∃ more, Follows V c (stimuli ++ message.stimuli) (points ++ more) (s.handle message) := by
  have stays (going : Bool) : ∃ more, Follows V c (stimuli ++ []) (points ++ more) (s,going) := by
    refine ⟨[],?_⟩
    rw [List.append_nil,List.append_nil]
    obtain ⟨p,last,current⟩ := follows.last
    exact {follows with whole := fun _ => follows.whole (.inl rfl),last := ⟨p,last,fun _ => current (.inl rfl)⟩}
  cases message with
  | event ev =>
      cases ev with
      | output bytes => exact output_follows follows bytes
      | exited status =>
          obtain ⟨more,ended⟩ := exit_follows follows status
          rw [← List.append_nil stimuli] at ended
          exact ⟨more,ended⟩
      | error err => exact stays true
  | eventsClosed => exact stays false
  | input i => exact input_follows follows i
  | inputsClosed => exact stays false

theorem spawn_follows (V : Viewport S) (size : TerminalSize) :
    Follows V (begun size) [] [0] ((spawnWithTransport size : Session T P),true) := by
  have plays : Plays ((begun size).after []) (.new size : TerminalEngine T P) := begun_plays size
  have start : Mirrors V (begun size : Console T) [] [] [] :=
    ⟨rfl,List.Pairwise.nil,fun p member => (by cases member),fun k p at_ => (by cases at_)⟩
  have unsaid : (⟨[],none⟩ : Outlet TransportCommand).sent = (begun size : Console T).replied [] := rfl
  have client : Agrees .new (([] : List ProtocolEvent).foldl receive none) none := ⟨rfl,rfl⟩
  exact frame_follows plays (V.new_dims _) unsaid start client [] false

-- What has reached the terminal when the loop has handled these messages, or those before its end.
def heard (messages : List Received) : List Stimulus := (messages.takeWhile goesOn).flatMap Received.stimuli

theorem step_going (s : Session T P) (alive : Alive s) (message : Received) :
    (s.handle message).2 = goesOn message ∧ Alive (s.handle message).1 := by
  have handled := step_handles s alive message
  change Handles s message (s.handle message) at handled
  generalize s.handle message = next at handled
  cases handled with
  | output bytes => exact ⟨rfl,rfl,rfl⟩
  | exited status => exact ⟨rfl,alive.commands,rfl⟩
  | resize size => exact ⟨rfl,rfl,rfl⟩
  | quiet message more kind => exact ⟨(quiet_calls kind).2.symm,rfl,alive.events⟩
  | closed message kind => exact ⟨(closes_calls kind).2.symm,alive⟩

-- The program has been told all that the console tells it, and the client sees what the console shows.
def Upto (V : Viewport S) (c : Console T) (stimuli : List Stimulus) (s : Session T P) : Prop :=
  s.commands.sent = c.replied stimuli ∧ s.events.sent.foldl receive none = some ((c.after stimuli).shown V)

theorem follows_view {V : Viewport S} {c : Console T} {s : Session T P × Bool} (follows : Follows V c stimuli points s)
    (heeded : Heeded s) : s.1.events.sent.foldl receive none = some ((c.after stimuli).shown V) := by
  obtain ⟨p,last,current⟩ := follows.last
  rw [← current heeded]
  exact mirrors_last follows.mirrors last

theorem follows_upto {V : Viewport S} {c : Console T} {s : Session T P × Bool} (follows : Follows V c stimuli points s)
    (alive : Alive s.1) : Upto V c stimuli s.1 := by
  have heeded : Heeded s := .inr (by rw [alive.commands]; simp)
  exact ⟨follows.whole heeded,follows_view follows heeded⟩

-- The message that ends a loop brings nothing to the terminal.
theorem last_stimuli {message : Received} (last : goesOn message = false) : message.stimuli = [] := by
  cases message with
  | event ev => cases ev <;> first | rfl | cases last
  | eventsClosed => rfl
  | input i => cases last
  | inputsClosed => rfl

theorem run_upto {V : Viewport S} {c : Console T} {s : Session T P} (follows : Follows V c done points (s,true)) (alive : Alive s)
    (messages : List Received) : Upto V c (done ++ heard messages) (messages.foldl loopStep (s,true)).1 := by
  induction messages generalizing s done points with
  | nil =>
      rw [heard,List.takeWhile_nil,List.flatMap_nil,List.append_nil]
      exact follows_upto follows alive
  | cons message rest ih =>
      obtain ⟨running,still⟩ := step_going s alive message
      have step : loopStep (s,true) message = s.handle message := rfl
      obtain ⟨more,next⟩ := handle_follows follows message
      rw [List.foldl_cons,step]
      cases goes : goesOn message with
      | true =>
          rw [goes] at running
          rw [← Prod.eta (s.handle message),running] at next ⊢
          have split : heard (message :: rest) = message.stimuli ++ heard rest := by
            rw [heard,List.takeWhile_cons_of_pos goes]
            rfl
          rw [split,← List.append_assoc]
          exact ih next still
      | false =>
          rw [goes] at running
          have split : heard (message :: rest) = [] := by
            rw [heard,List.takeWhile_cons_of_neg (by simp [goes])]
            rfl
          have ended := follows_upto next still
          rw [last_stimuli goes,List.append_nil] at ended
          rw [← Prod.eta (s.handle message),running,loopStep_returned,split,List.append_nil]
          exact ended

-- A session is a plain terminal: the program is told what the terminal answers and what the user
-- types, and the client sees what the terminal shows. How the backend cuts its output, and what
-- else the loop handles in between, makes no difference to either.
theorem session_is_terminal (V : Viewport S) (size : TerminalSize) (messages : List Received) :
    let s : Session T P := ((spawnWithTransport size).runEngineLoop messages).1
    s.commands.sent = (begun size : Console T).replied (heard messages) ∧
      s.events.sent.foldl receive none = some (((begun size : Console T).after (heard messages)).shown V) := by
  intro s
  have run : Upto V (begun size) (heard messages) (messages.foldl loopStep ((spawnWithTransport size : Session T P),true)).1 :=
    run_upto (spawn_follows V size) ⟨rfl,rfl⟩ messages
  rwa [← runEngineLoop_steps] at run

end Console

end Perga

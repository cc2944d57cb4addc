import Perga.EventLoop

namespace Perga.EventStream
open Session EngineRuns
variable {T : Terminal} {P : VteParser}

def isInit : ProtocolEvent → Bool
  | .init _ => true
  | _ => false

def isPatch : ProtocolEvent → Bool
  | .patch _ => true
  | _ => false

-- What one message adds to the event channel of a running loop.
def Contribution (s : Session T P) (added : List ProtocolEvent) : Received → Prop
  | .event (.output bytes) =>
    ∃ patch, added = endEvents s.encoder.seq (s.engine.feed bytes).drainCommandEnds.2 ++ [.patch patch] ∧
      patch.scrolledRows = (s.engine.feed bytes).takeScrolledRows.2.map (fun r => encodeRow r.cells) ∧
      patch.cleared = (s.engine.feed bytes).scrollbackCleared
  | .event (.exited status) => added = [.exited (s.encoder.seq+1) status]
  | .input (.resize size) =>
    ∃ frame, added = [frame] ∧ (isInit frame = true ∨ isPatch frame = true) ∧
      (isInit frame = true ↔ size ≠ s.engine.size) ∧
      ∀ patch, frame = .patch patch → patch.scrolledRows = [] ∧ patch.cleared = false
  | _ => added = []

def Contributes (s : Session T P × Bool) (message : Received) : Prop :=
  ∃ added, (loopStep s message).1.events.sent = s.1.events.sent ++ added ∧
    if s.2 then Contribution s.1 added message else added = []

-- The encoder's cached size is the engine's at every loop head; this alone decides
-- that output never becomes an `init`, which would drop the scrolled rows.
structure Live (s : Session T P) : Prop where
  alive : Alive s
  settled : s.engine.shell.pending = []
  cached : ∃ last, s.encoder.last = some last ∧ last.size = s.engine.size
  counted : s.events.sent.length = s.encoder.seq
  unexited : ∀ seq status, .exited seq status ∉ s.events.sent

structure Stream (s : Session T P × Bool) : Prop where
  numbered : s.1.events.sent.map ProtocolEvent.seq = List.range' 1 s.1.events.sent.length
  first : ∃ f, s.1.events.sent.head? = some (.init f)
  last : ∀ earlier seq status later, s.1.events.sent = earlier ++ .exited seq status :: later → later = []
  live : s.2 = true → Live s.1

theorem endEvents_seq (seq : Nat) (marks : List CommandMark) :
    (endEvents seq marks).map ProtocolEvent.seq = List.range' (seq+1) marks.length := by
  induction marks generalizing seq with
  | nil => rfl
  | cons cmd rest ih =>
      rw [endEvents,List.map_cons,ih,List.length_cons,List.range'_succ]
      rfl

theorem endEvents_length (seq : Nat) (marks : List CommandMark) : (endEvents seq marks).length = marks.length := by
  have counted := congrArg List.length (endEvents_seq seq marks)
  rwa [List.length_map,List.length_range'] at counted

theorem endEvents_kind (seq : Nat) (marks : List CommandMark) (n : Nat) (status : ExitStatus) :
    .exited n status ∉ endEvents seq marks := by
  induction marks generalizing seq with
  | nil => simp [endEvents]
  | cons cmd rest ih => simp [endEvents,ih]

theorem frame_kind (e : ProtocolEncoder) (snapshot : Snapshot) (modes : TerminalModes) (title : Option String)
    (scrolled : List Row) (cleared : Bool) (n : Nat) (status : ExitStatus) :
    (e.encodeFrame snapshot modes title scrolled cleared).2 ≠ .exited n status := by
  unfold ProtocolEncoder.encodeFrame
  split
  · split <;> simp [ProtocolEncoder.initFrame]
  · simp [ProtocolEncoder.initFrame]

-- A frame is a patch exactly while the cached size is the engine's.
theorem frame_size {last : LastFrame} (e : ProtocolEncoder) (cached : e.last = some last) (snapshot : Snapshot)
    (modes : TerminalModes) (title : Option String) (scrolled : List Row) (cleared : Bool) :
    let frame := (e.encodeFrame snapshot modes title scrolled cleared).2
    (isInit frame = true ∨ isPatch frame = true) ∧ (isInit frame = true ↔ snapshot.size ≠ last.size) ∧
      ∀ patch, frame = .patch patch →
        patch.scrolledRows = scrolled.map (fun r => encodeRow r.cells) ∧ patch.cleared = cleared := by
  by_cases same : last.size = snapshot.size
  · rw [e.encodeFrame_patch cached same]
    refine ⟨.inr rfl,by simp [isInit,same],?_⟩
    intro patch given
    cases given
    exact ⟨rfl,rfl⟩
  · rw [e.encodeFrame_init (fun cache found => by rw [cached] at found; cases found; exact same)]
    refine ⟨.inl rfl,by simp [isInit,Ne.symm same],?_⟩
    intro patch given
    cases given

-- Whatever is appended with the next numbers and without an exit keeps the stream.
theorem stream_appended {s next : Session T P} (stream : Stream (s,true)) (added : List ProtocolEvent)
    (sent : next.events.sent = s.events.sent ++ added)
    (numbers : added.map ProtocolEvent.seq = List.range' (s.encoder.seq+1) added.length)
    (unexited : ∀ seq status, .exited seq status ∉ added) (alive : Alive next)
    (settled : next.engine.shell.pending = [])
    (cached : ∃ last, next.encoder.last = some last ∧ last.size = next.engine.size)
    (counted : next.encoder.seq = s.encoder.seq+added.length) : Stream (next,true) := by
  have live := stream.live rfl
  have absent : ∀ seq status, .exited seq status ∉ next.events.sent := by
    intro seq status member
    rw [sent] at member
    rcases List.mem_append.mp member with old | new
    · exact live.unexited seq status old
    · exact unexited seq status new
  refine ⟨?_,?_,?_,fun _ => ⟨alive,settled,cached,?_,absent⟩⟩
  · change next.events.sent.map ProtocolEvent.seq = _
    rw [sent,List.map_append,stream.numbered,numbers,List.length_append,← List.range'_append_1,live.counted,
      Nat.add_comm 1]
  · obtain ⟨f,head⟩ := stream.first
    refine ⟨f,?_⟩
    change next.events.sent.head? = _
    rw [sent,List.head?_append,head]
    rfl
  · intro earlier seq status later split
    exact absurd (by rw [split]; exact List.mem_append_right _ List.mem_cons_self) (absent seq status)
  · rw [sent,List.length_append,live.counted,counted]

theorem frame_counted (s : Session T P) (e : TerminalEngine T P) (ends : Nat) (scrolled : List Row) (cleared : Bool) :
    (frameAfter s e ends scrolled cleared).1.seq = s.encoder.seq+ends+1 ∧
      (frameAfter s e ends scrolled cleared).2.seq = s.encoder.seq+ends+1 ∧
      ∃ last, (frameAfter s e ends scrolled cleared).1.last = some last ∧ last.size = e.size := by
  obtain ⟨next,own⟩ := ProtocolEncoder.encodeFrame_seq {s.encoder with seq := s.encoder.seq+ends}
  exact ⟨next,own,_,ProtocolEncoder.encodeFrame_last _,rfl⟩

theorem frame_patch {last : LastFrame} (s : Session T P) (cached : s.encoder.last = some last)
    (e : TerminalEngine T P) (same : last.size = e.size) (ends : Nat) (scrolled : List Row) (cleared : Bool) :
    ∃ patch, (frameAfter s e ends scrolled cleared).2 = .patch patch ∧
      patch.scrolledRows = scrolled.map (fun r => encodeRow r.cells) ∧ patch.cleared = cleared :=
  ⟨_,ProtocolEncoder.encodeFrame_patch {s.encoder with seq := s.encoder.seq+ends} cached same,rfl,rfl⟩

theorem fedEngine_kept (e : TerminalEngine T P) (settled : e.shell.pending = []) (bytes : List UInt8) :
    (fedEngine e bytes).size = e.size ∧ (fedEngine e bytes).shell.pending = [] := by
  rw [fedEngine,EngineRuns.takeScrolledRows_engine]
  exact ⟨Readings.feed_size settled bytes,Readings.feed_pending settled bytes⟩

theorem output_stream {s : Session T P} (stream : Stream (s,true)) (bytes : List UInt8) :
    (∃ added, (afterOutput s bytes).events.sent = s.events.sent ++ added ∧
      Contribution s added (.event (.output bytes))) ∧ Stream (afterOutput s bytes,true) := by
  have live := stream.live rfl
  obtain ⟨last,cached,size⟩ := live.cached
  obtain ⟨sized,pending⟩ := fedEngine_kept s.engine live.settled bytes
  let ends := (s.engine.feed bytes).drainCommandEnds.2
  let rows := (s.engine.feed bytes).takeScrolledRows.2
  let cleared := (s.engine.feed bytes).scrollbackCleared
  obtain ⟨patch,patched,scrolled,flagged⟩ := frame_patch s cached (fedEngine s.engine bytes)
    (by rw [size,sized]) ends.length rows cleared
  obtain ⟨counted,numbered,after⟩ := frame_counted s (fedEngine s.engine bytes) ends.length rows cleared
  refine ⟨⟨_,List.append_assoc _ _ _,patch,?_,scrolled,flagged⟩,?_⟩
  · rw [← patched]
  · refine stream_appended stream (endEvents s.encoder.seq ends ++
      [(frameAfter s (fedEngine s.engine bytes) ends.length rows cleared).2]) (List.append_assoc _ _ _) ?_ ?_
      ⟨rfl,rfl⟩ pending after ?_
    · rw [List.map_append,endEvents_seq,List.length_append,endEvents_length,← List.range'_append_1,
        List.map_singleton,numbered,Nat.add_right_comm]
      rfl
    · intro seq status member
      rcases List.mem_append.mp member with end_ | frame
      · exact endEvents_kind _ _ _ _ end_
      · exact frame_kind _ _ _ _ _ _ _ _ (List.mem_singleton.mp frame).symm
    · rw [List.length_append,endEvents_length]
      exact counted

theorem resize_stream {s : Session T P} (stream : Stream (s,true)) (size : TerminalSize) :
    (∃ added, (afterResize s size).events.sent = s.events.sent ++ added ∧
      Contribution s added (.input (.resize size))) ∧ Stream (afterResize s size,true) := by
  have live := stream.live rfl
  obtain ⟨last,cached,same⟩ := live.cached
  have decided := frame_size {s.encoder with seq := s.encoder.seq+0} cached (s.engine.resize size).snapshot
    (s.engine.resize size).modes (s.engine.resize size).title [] false
  obtain ⟨counted,numbered,after⟩ := frame_counted s (s.engine.resize size) 0 [] false
  refine ⟨⟨_,rfl,_,rfl,decided.1,?_⟩,?_⟩
  · rw [← same]
    exact decided.2
  · refine stream_appended stream [(frameAfter s (s.engine.resize size) 0 [] false).2] rfl ?_ ?_ ⟨rfl,rfl⟩
      live.settled after counted
    · rw [List.map_singleton,numbered]
      rfl
    · intro seq status member
      exact frame_kind _ _ _ _ _ _ _ _ (List.mem_singleton.mp member).symm

theorem exit_stream {s : Session T P} (stream : Stream (s,true)) (status : ExitStatus) :
    Stream (afterExit s status,false) := by
  have live := stream.live rfl
  refine ⟨?_,?_,?_,fun running => by cases running⟩
  · change (s.events.sent ++ [_]).map ProtocolEvent.seq = List.range' 1 (s.events.sent ++ [_]).length
    rw [List.map_append,stream.numbered,List.length_append,← List.range'_append_1,live.counted,Nat.add_comm 1]
    rfl
  · obtain ⟨f,head⟩ := stream.first
    refine ⟨f,?_⟩
    change (s.events.sent ++ [_]).head? = _
    rw [List.head?_append,head]
    rfl
  · intro earlier seq code later split
    rcases StepRuns.grown_split split with ⟨none_left,_⟩ | ⟨rest,before,_⟩
    · exact none_left
    · have inside : .exited seq code ∈ s.events.sent := by
        rw [before]
        exact List.mem_append_right _ List.mem_cons_self
      exact absurd inside (live.unexited seq code)

-- A quiet message leaves engine, encoder and events alone.
theorem quiet_stream {s : Session T P} (stream : Stream (s,true)) (more : List TransportCommand) :
    Stream ({s with commands := ⟨s.commands.sent ++ more,none⟩},true) := by
  have live := stream.live rfl
  exact stream_appended stream [] (List.append_nil _).symm rfl (by simp) ⟨rfl,live.alive.events⟩ live.settled live.cached rfl

theorem quiet_contribution {s : Session T P} {message : Received} (kind : quiet message = true ∨ closes message = true) :
    Contribution s [] message := by
  cases message with
  | event ev => cases ev <;> simp [quiet,closes,Contribution] at kind ⊢
  | eventsClosed => rfl
  | inputsClosed => rfl
  | input i => cases i <;> simp [quiet,closes,Contribution] at kind ⊢

theorem step_stream (s : Session T P × Bool) (message : Received) (stream : Stream s) :
    Contributes s message ∧ Stream (loopStep s message) := by
  obtain ⟨s,running⟩ := s
  cases running with
  | false => exact ⟨⟨[],(List.append_nil _).symm,rfl⟩,stream⟩
  | true =>
      have handled := step_handles s (stream.live rfl).alive message
      rw [Contributes]
      generalize loopStep (s,true) message = next at handled ⊢
      cases handled with
      | output bytes => exact output_stream stream bytes
      | exited status => exact ⟨⟨_,rfl,rfl⟩,exit_stream stream status⟩
      | resize size => exact resize_stream stream size
      | quiet message more kind =>
          exact ⟨⟨[],(List.append_nil _).symm,quiet_contribution (.inl kind)⟩,quiet_stream stream more⟩
      | closed message kind =>
          refine ⟨⟨[],(List.append_nil _).symm,quiet_contribution (.inr kind)⟩,?_⟩
          exact ⟨stream.numbered,stream.first,stream.last,fun running => by cases running⟩

theorem spawn_stream (size : TerminalSize) : Stream ((spawnWithTransport size : Session T P),true) := by
  refine ⟨rfl,⟨_,rfl⟩,?_,fun _ => ⟨⟨rfl,rfl⟩,rfl,⟨_,rfl,rfl⟩,rfl,?_⟩⟩
  · intro earlier seq status later split
    cases earlier with
    | nil => cases split
    | cons event rest => exact (List.append_ne_nil_of_right_ne_nil rest (by simp) (List.cons.inj split).2.symm).elim
  · intro seq status member
    cases List.mem_singleton.mp member

-- The calls on the engine by which a running loop answers a message.
def operations : Received → List Operation
  | .event (.output bytes) => [.feed bytes,.drainPendingWrites,.drainCommandEnds,.takeScrolledRows]
  | .input (.resize size) => [.resize size]
  | _ => []

def goesOn : Received → Bool
  | .event (.exited _) => false
  | .eventsClosed => false
  | .inputsClosed => false
  | _ => true

-- The messages that a loop handles before the one that ends it.
def calls (messages : List Received) : List Operation := (messages.takeWhile goesOn).flatMap operations

def endOf : ProtocolEvent → Option CommandMark
  | .commandEnd _ exit line => some ⟨line,exit⟩
  | _ => none

def ends (events : List ProtocolEvent) : List CommandMark := events.filterMap endOf

theorem ends_append (first second : List ProtocolEvent) : ends (first ++ second) = ends first ++ ends second :=
  List.filterMap_append

theorem ends_marks (seq : Nat) (marks : List CommandMark) : ends (endEvents seq marks) = marks := by
  induction marks generalizing seq with
  | nil => rfl
  | cons cmd rest ih => exact congrArg (cmd :: ·) (ih (seq+1))

theorem ends_frame (e : ProtocolEncoder) (snapshot : Snapshot) (modes : TerminalModes) (title : Option String)
    (scrolled : List Row) (cleared : Bool) : ends [(e.encodeFrame snapshot modes title scrolled cleared).2] = [] := by
  unfold ProtocolEncoder.encodeFrame
  split
  · split <;> rfl
  · rfl

-- One message of a live loop, seen from its engine.
structure Serves (s : Session T P) (message : Received) (next : Session T P × Bool) : Prop where
  running : next.2 = goesOn message
  engine : next.1.engine = (operations message).foldl operate s.engine
  ended : ends next.1.events.sent = ends s.events.sent ++ reports s.engine (operations message)

theorem quiet_calls {message : Received} (kind : quiet message = true) :
    operations message = [] ∧ goesOn message = true := by
  cases message with
  | event ev => cases ev <;> simp [quiet,operations,goesOn] at kind ⊢
  | eventsClosed => cases kind
  | inputsClosed => cases kind
  | input i => cases i <;> simp [quiet,operations,goesOn] at kind ⊢

theorem last_calls {message : Received} (last : goesOn message = false) : operations message = [] := by
  cases message with
  | event ev => cases ev <;> first | rfl | cases last
  | eventsClosed => rfl
  | inputsClosed => rfl
  | input i => cases last

theorem closes_calls {message : Received} (kind : closes message = true) :
    operations message = [] ∧ goesOn message = false := by
  cases message with
  | eventsClosed => exact ⟨rfl,rfl⟩
  | inputsClosed => exact ⟨rfl,rfl⟩
  | event ev => cases kind
  | input i => cases kind

theorem step_serves {s : Session T P} (live : Live s) (message : Received) :
    Serves s message (loopStep (s,true) message) := by
  have still : ∀ events : List ProtocolEvent, ends events = ends events ++ [] := fun events => (List.append_nil _).symm
  have handled := step_handles s live.alive message
  generalize loopStep (s,true) message = next at handled ⊢
  cases handled with
  | output bytes =>
      refine ⟨rfl,rfl,?_⟩
      dsimp only [afterOutput]
      rw [ends_append,ends_append,ends_marks,frameAfter,ends_frame,List.append_nil]
      exact congrArg (ends s.events.sent ++ ·) (List.append_nil _).symm
  | exited status => exact ⟨rfl,rfl,ends_append _ _⟩
  | resize size =>
      refine ⟨rfl,rfl,?_⟩
      dsimp only [afterResize]
      rw [ends_append,frameAfter,ends_frame]
      rfl
  | quiet message more kind =>
      obtain ⟨none_called,on⟩ := quiet_calls kind
      exact ⟨on.symm,by rw [none_called]; rfl,by rw [none_called]; exact still _⟩
  | closed message kind =>
      obtain ⟨none_called,off⟩ := closes_calls kind
      exact ⟨off.symm,by rw [none_called]; rfl,by rw [none_called]; exact still _⟩

theorem run_serves {s : Session T P} (stream : Stream (s,true)) (messages : List Received) :
    (messages.foldl loopStep (s,true)).1.engine = (calls messages).foldl operate s.engine ∧
      ends (messages.foldl loopStep (s,true)).1.events.sent = ends s.events.sent ++ reports s.engine (calls messages) := by
  induction messages generalizing s with
  | nil => exact ⟨rfl,(List.append_nil _).symm⟩
  | cons message rest ih =>
      obtain ⟨running,engine,ended⟩ := step_serves (stream.live rfl) message
      have next := (step_stream (s,true) message stream).2
      rw [List.foldl_cons]
      cases on : goesOn message with
      | true =>
          rw [on] at running
          rw [← Prod.eta (loopStep (s,true) message),running] at next ⊢
          obtain ⟨later,told⟩ := ih next
          have split : calls (message :: rest) = operations message ++ calls rest := by
            rw [calls,List.takeWhile_cons_of_pos on]
            rfl
          rw [split,List.foldl_append,reports_append,later,told,engine,ended,List.append_assoc]
          exact ⟨rfl,rfl⟩
      | false =>
          rw [on] at running
          rw [last_calls on] at engine ended
          have split : calls (message :: rest) = [] := by
            rw [calls,List.takeWhile_cons_of_neg (by simp [on])]
            rfl
          rw [← Prod.eta (loopStep (s,true) message),running,loopStep_returned,split]
          exact ⟨engine,ended⟩

structure WellFormed (events : List ProtocolEvent) : Prop where
  first : ∃ f, events.head? = some (.init f) ∧ f.seq = 1
  numbered : events.map ProtocolEvent.seq = List.range' 1 events.length
  last : ∀ earlier seq status later, events = earlier ++ .exited seq status :: later → later = []

theorem stream_formed {s : Session T P × Bool} (stream : Stream s) : WellFormed s.1.events.sent := by
  refine ⟨?_,stream.numbered,stream.last⟩
  obtain ⟨f,head⟩ := stream.first
  obtain ⟨rest,sent⟩ := List.head?_eq_some_iff.mp head
  refine ⟨f,head,?_⟩
  have numbered := stream.numbered
  rw [sent,List.map_cons,List.length_cons,List.range'_succ] at numbered
  exact (List.cons.inj numbered).1

-- Every message of every run contributes what it should, the events are numbered from
-- an `init` on, and command ends come in the order in which their commands completed.
theorem stream_wellformed (size : TerminalSize) (messages : List Received) :
    StepRuns.Along loopStep Contributes ((spawnWithTransport size : Session T P),true) messages ∧
      WellFormed ((spawnWithTransport size : Session T P).runEngineLoop messages).1.events.sent ∧
      ends ((spawnWithTransport size : Session T P).runEngineLoop messages).1.events.sent =
        (PairMatching.pairs ((trace (.new size : TerminalEngine T P) (calls messages)).map Happening.op)).map reportOf ∧
      (PairMatching.pairs ((trace (.new size : TerminalEngine T P) (calls messages)).map Happening.op)).Pairwise
        (fun p q => p.2.1 < q.2.1) := by
  have start := spawn_stream (T := T) (P := P) size
  rw [runEngineLoop_steps]
  refine ⟨StepRuns.run_along Stream messages start fun s message stream => step_stream s message stream,
    stream_formed (StepRuns.run_invariant Stream messages start fun s message stream => (step_stream s message stream).2),
    ?_,PairMatching.pairs_ordered _⟩
  rw [(run_serves start messages).2,← reports_pairs]
  rfl

end Perga.EventStream

import Perga.Browser

namespace Perga

-- A transport as a session sees it: the channel of its events, and where its commands go. `queue` are
-- the commands on their way, `hands` those that a step carries out; `refuses` when the receiver of the
-- commands is gone, `outlives` the moves that wait for the engine to let go of its ends.
structure Backend where
  State : Type
  Move : Type
  step : State → Move → State
  accept : State → TransportCommand → State
  events : State → List TransportEvent
  senderless : State → Bool
  refuses : State → Bool
  outlives : Move → Bool
  obtained : State → List UInt8
  queue : State → List TransportCommand
  hands : State → Move → List TransportCommand
  Good : State → Prop
  Intact : State → Prop
  good_step : ∀ s m, Good s → Good (step s m)
  good_accept : ∀ s c, Good s → Good (accept s c)
  grows : ∀ s m, Good s → ∃ fresh, events (step s m) = events s ++ fresh
  accept_events : ∀ s c, events (accept s c) = events s
  -- the events hold what was obtained in its order, and all of it before an exit
  part : ∀ s, Good s → (delivered (events s)).flatten <+: obtained s
  before : ∀ s, Good s → ∀ earlier status later, events s = earlier ++ .exited status :: later →
    (delivered earlier).flatten = obtained s
  -- commands are carried out in their order, and none is lost while the backend is intact
  handed : ∀ s m, Good s → hands s m ++ queue (step s m) <+: queue s
  kept : ∀ s m, Good s → Intact (step s m) → Intact s ∧ hands s m ++ queue (step s m) = queue s
  accepts : ∀ s c, Good s → Intact s → c ≠ .shutdown → queue (accept s c) = queue s ++ [c]
  drops : ∀ s c, Good s → ¬ Intact s → queue (accept s c) = queue s ∧ ¬ Intact (accept s c)

namespace BackendSession

-- The engine thread of a session takes the backend's events one by one; `taken` is how many.
structure World (B : Backend) (T : Terminal) (P : VteParser) where
  backend : B.State
  taken : Nat
  session : Session T P
  running : Bool
  inputs : List SessionInput
  inputOpen : Bool

-- `after` is how many more commands get into the channel when the backend is about to drop it.
inductive Move (B : Backend) where
  | backend (m : B.Move) (after : Nat)
  | engineEvent
  | engineInput
  | input (i : SessionInput)
  | closeInput

variable {B : Backend} {T : Terminal} {P : VteParser} {S : Screens T}

namespace World

def serve (w : World B T P) (message : Received) : World B T P :=
  let next := w.session.handle message
  {w with
    session := next.1
    running := next.2
    backend := (next.1.commands.sent.drop w.session.commands.sent.length).foldl B.accept w.backend}

def engineEvent (w : World B T P) : World B T P :=
  if w.running then
    match (B.events w.backend)[w.taken]? with
    | some ev => {w with taken := w.taken+1}.serve (.event ev)
    | none => if B.senderless w.backend then w.serve .eventsClosed else w
  else w

def engineInput (w : World B T P) : World B T P :=
  if w.running then
    match w.inputs with
    | i :: rest => {w with inputs := rest}.serve (.input i)
    | [] => if w.inputOpen then w else w.serve .inputsClosed
  else w

def roomAfter (room : Option Nat) (after : Nat) : Option Nat := some ((room.map (min after)).getD after)

def backendStep (w : World B T P) (m : B.Move) (after : Nat) : World B T P :=
  if B.outlives m && w.running then w
  else if B.refuses (B.step w.backend m) then
    {w with
      backend := B.step w.backend m
      session := {w.session with commands := ⟨w.session.commands.sent,roomAfter w.session.commands.room after⟩}}
  else {w with backend := B.step w.backend m}

def step (w : World B T P) : Move B → World B T P
  | .backend m after => w.backendStep m after
  | .engineEvent => w.engineEvent
  | .engineInput => w.engineInput
  | .input i => if w.inputOpen then {w with inputs := w.inputs ++ [i]} else w
  | .closeInput => {w with inputOpen := false}
end World

def begun (start : B.State) (size : TerminalSize) : World B T P := ⟨start,0,Session.spawnWithTransport size,true,[],true⟩

-- Handling a message only ever adds to the commands, and asks for no shutdown.
def Says (s next : Session T P) : Prop := ∃ more, next.commands.sent = s.commands.sent ++ more ∧ ∀ c ∈ more, c ≠ .shutdown

theorem says_same {s next : Session T P} (same : next.commands = s.commands) : Says s next :=
  ⟨[],by rw [same,List.append_nil],fun c member => by cases member⟩

theorem says_taken {s : Session T P} {next : Session T P × Bool} (taken : Console.Taken s commands next)
    (kind : ∀ c ∈ commands, c ≠ TransportCommand.shutdown) : Says s next.1 := by
  obtain ⟨more,room,same,part,_⟩ := taken
  exact ⟨more,by rw [same],fun c member => kind c (part.subset member)⟩

theorem one_says (s : Session T P) (command : TransportCommand) (kind : command ≠ .shutdown) : Says s (s.sendCommand command).1 :=
  says_taken (Console.taken_one s command) fun _ member => List.mem_singleton.mp member ▸ kind

theorem event_says (s : Session T P) (ev : TransportEvent) : Says s (s.handleTransportEvent ev).1 := by
  cases ev with
  | output bytes =>
      have writes : ∀ c ∈ (s.engine.feed bytes).drainPendingWrites.2.map TransportCommand.write, c ≠ .shutdown := by
        intro c member
        obtain ⟨written,_,rfl⟩ := List.mem_map.mp member
        simp
      have wrote := says_taken (Console.taken_writes {s with engine := (s.engine.feed bytes).drainPendingWrites.1}
        (s.engine.feed bytes).drainPendingWrites.2) writes
      rw [Session.handleTransportEvent]
      split
      · rename_i stopped written
        rw [written] at wrote
        exact wrote
      · rename_i next written
        rw [written] at wrote
        obtain ⟨encoder,events,same⟩ := Session.endAll_frame {next with engine := next.engine.drainCommandEnds.1}
          next.engine.drainCommandEnds.2
        split
        · rename_i gone told
          rw [told] at same
          rw [same]
          exact wrote
        · rename_i later told
          rw [told] at same
          simp only at same
          rw [same]
          exact wrote
  | exited status => exact says_same rfl
  | error err => exact says_same rfl

theorem input_says (s : Session T P) (i : SessionInput) : Says s (s.handleSessionInput i).1 := by
  cases i with
  | key k =>
      rw [Session.handleSessionInput]
      split
      · exact says_same rfl
      · exact one_says s _ (by simp)
  | paste text => exact one_says s _ (by simp)
  | mouse m =>
      rw [Session.handleSessionInput]
      split
      · exact one_says s _ (by simp)
      · exact says_same rfl
  | focus gained =>
      rw [Session.handleSessionInput]
      split
      · exact one_says s _ (by simp)
      · exact says_same rfl
  | resize size =>
      have said := one_says {s with engine := s.engine.resize size} (.resize size) (by simp)
      rw [Session.handleSessionInput]
      split
      · rename_i stopped written
        rw [written] at said
        exact said
      · rename_i next written
        rw [written] at said
        exact said

theorem handle_says (s : Session T P) (message : Received) : Says s (s.handle message).1 := by
  cases message with
  | event ev => exact event_says s ev
  | eventsClosed => exact says_same rfl
  | input i => exact input_says s i
  | inputsClosed => exact says_same rfl

-- A frame or a command end is no exit.
def Unexited (event : ProtocolEvent) : Prop := ∀ seq status, event ≠ .exited seq status

theorem unexited_common : Browser.Common Unexited := by
  refine ⟨fun e snapshot modes title scrolled cleared _ _ => ?_,fun seq exit line code status => by simp⟩
  unfold ProtocolEncoder.encodeFrame
  split
  · split <;> exact fun code status => by simp [ProtocolEncoder.initFrame]
  · exact fun code status => by simp [ProtocolEncoder.initFrame]


-- The message that a move gives the engine to handle, and the commands that the backend carries out.
def picked (w : World B T P) : Move B → Option Received
  | .engineEvent =>
    if w.running then
      match (B.events w.backend)[w.taken]? with
      | some ev => some (.event ev)
      | none => if B.senderless w.backend then some .eventsClosed else none
    else none
  | .engineInput =>
    if w.running then
      match w.inputs with
      | i :: _ => some (.input i)
      | [] => if w.inputOpen then none else some .inputsClosed
    else none
  | _ => none

def handedBy (w : World B T P) : Move B → List TransportCommand
  | .backend m _ => if B.outlives m && w.running then [] else B.hands w.backend m
  | _ => []

def stimuliOf (w : World B T P) (move : Move B) : List Stimulus := (picked w move).elim [] Received.stimuli

def reached (w : World B T P) : List (Move B) → List Stimulus
  | [] => []
  | move :: rest => stimuliOf w move ++ reached (w.step move) rest

def handed (w : World B T P) : List (Move B) → List TransportCommand
  | [] => []
  | move :: rest => handedBy w move ++ handed (w.step move) rest

-- An exit that the client has been told of: the loop has ended, and everything that was obtained is
-- on the client's screen.
structure Ended (V : Viewport S) (c : Console T) (w : World B T P) (stimuli : List Stimulus) : Prop where
  stopped : w.running = false
  announced : ∃ earlier status later, B.events w.backend = earlier ++ .exited status :: later ∧
    stimuli.filterMap Browser.byteOf = (delivered earlier).flatten
  view : w.session.events.sent.foldl ClientReplica.receive none = some ((c.after stimuli).shown V)

structure Serves (V : Viewport S) (c : Console T) (w : World B T P) (stimuli : List Stimulus) (given : List TransportCommand) :
    Prop where
  good : B.Good w.backend
  follows : ∃ points, Console.Follows V c stimuli points (w.session,w.running)
  bytes : stimuli.filterMap Browser.byteOf = Browser.outputBytes ((B.events w.backend).take w.taken)
  inside : w.taken ≤ (B.events w.backend).length
  queued : given ++ B.queue w.backend <+: w.session.commands.sent
  intact : B.Intact w.backend → given ++ B.queue w.backend = w.session.commands.sent
  ended : ∀ seq status, .exited seq status ∈ w.session.events.sent → Ended V c w stimuli

theorem accept_all (s : B.State) (good : B.Good s) (commands : List TransportCommand) :
    B.Good (commands.foldl B.accept s) ∧ B.events (commands.foldl B.accept s) = B.events s := by
  induction commands generalizing s with
  | nil => exact ⟨good,rfl⟩
  | cons c rest ih =>
      obtain ⟨still,same⟩ := ih (B.accept s c) (B.good_accept s c good)
      exact ⟨still,same.trans (B.accept_events s c)⟩

theorem drop_all (s : B.State) (good : B.Good s) (broken : ¬ B.Intact s) (commands : List TransportCommand) :
    B.queue (commands.foldl B.accept s) = B.queue s ∧ ¬ B.Intact (commands.foldl B.accept s) := by
  induction commands generalizing s with
  | nil => exact ⟨rfl,broken⟩
  | cons c rest ih =>
      obtain ⟨same,still⟩ := B.drops s c good broken
      obtain ⟨later,last⟩ := ih (B.accept s c) (B.good_accept s c good) still
      exact ⟨later.trans same,last⟩

-- What the engine says in one go comes behind what it said before.
theorem accept_queue (s : B.State) (good : B.Good s) (commands : List TransportCommand) (kind : ∀ c ∈ commands, c ≠ .shutdown)
    (queued : given ++ B.queue s <+: sent) (intact : B.Intact s → given ++ B.queue s = sent) :
    given ++ B.queue (commands.foldl B.accept s) <+: sent ++ commands ∧
      (B.Intact (commands.foldl B.accept s) → given ++ B.queue (commands.foldl B.accept s) = sent ++ commands) := by
  induction commands generalizing s sent with
  | nil =>
      rw [List.append_nil]
      exact ⟨queued,intact⟩
  | cons c rest ih =>
      by_cases whole : B.Intact s
      · have grown := B.accepts s c good whole (kind c List.mem_cons_self)
        have all : given ++ B.queue (B.accept s c) = sent ++ [c] := by rw [grown,← List.append_assoc,intact whole]
        have later := ih (B.accept s c) (B.good_accept s c good) (fun d member => kind d (List.mem_cons_of_mem c member))
          ⟨[],by rw [List.append_nil,all]⟩ fun _ => all
        rwa [List.append_assoc] at later
      · obtain ⟨same,broken⟩ := drop_all s good whole (c :: rest)
        refine ⟨?_,fun still => absurd still broken⟩
        rw [same]
        exact queued.trans (List.prefix_append _ _)

-- The engine handles a message.
theorem handled_serves {V : Viewport S} {c : Console T} {w heard : World B T P} (serves : Serves V c w stimuli given)
    (message : Received) (running : w.running = true) (session : heard.session = w.session) (backend : heard.backend = w.backend)
    (inside : heard.taken ≤ (B.events w.backend).length)
    (bytes : (stimuli ++ message.stimuli).filterMap Browser.byteOf =
      Browser.outputBytes ((B.events w.backend).take heard.taken))
    (ended : ∀ status, message = .event (.exited status) →
      Ended V c (heard.serve message) (stimuli ++ message.stimuli)) :
    Serves V c (heard.serve message) (stimuli ++ message.stimuli) given := by
  obtain ⟨points,follows⟩ := serves.follows
  rw [running] at follows
  obtain ⟨more,handled⟩ := Console.handle_follows follows message
  obtain ⟨said,sent,kind⟩ := handle_says w.session message
  have fresh : (heard.serve message).backend = said.foldl B.accept w.backend := by
    simp only [World.serve,session,backend,sent]
    rw [List.drop_left]
  obtain ⟨good,events⟩ := accept_all w.backend serves.good said
  obtain ⟨queued,intact⟩ := accept_queue w.backend serves.good said kind serves.queued serves.intact
  have next : (heard.serve message).session = (w.session.handle message).1 := by simp only [World.serve,session]
  have goes : (heard.serve message).running = (w.session.handle message).2 := by simp only [World.serve,session]
  refine ⟨?_,⟨points ++ more,?_⟩,?_,?_,?_,?_,?_⟩
  · rw [fresh]
    exact good
  · rw [next,goes]
    exact handled
  · rw [fresh,events]
    exact bytes
  · rw [fresh,events]
    exact inside
  · rw [fresh,next,sent]
    exact queued
  · rw [fresh,next,sent]
    exact intact
  · intro seq status member
    rw [next] at member
    by_cases exit : ∃ status, message = .event (.exited status)
    · obtain ⟨code,same⟩ := exit
      exact ended code same
    · have told := Browser.handle_emits unexited_common w.session message (fun _ code same => absurd ⟨code,same⟩ exit) _ member
      rcases told with old | new
      · have stopped := (serves.ended seq status old).stopped
        rw [running] at stopped
        cases stopped
      · exact absurd rfl (new seq status)

theorem exit_ended {V : Viewport S} {c : Console T} {w : World B T P} (serves : Serves V c w stimuli given)
    (running : w.running = true) (next : (B.events w.backend)[w.taken]? = some (.exited status)) :
    Ended V c (({w with taken := w.taken+1} : World B T P).serve (.event (.exited status))) (stimuli ++ []) := by
  obtain ⟨points,follows⟩ := serves.follows
  have heeded : Console.Heeded (w.session,w.running) := .inl running
  have room : w.session.events.room = none := follows.consumer
  obtain ⟨inside,there⟩ := List.getElem?_eq_some_iff.mp next
  have split : B.events w.backend = (B.events w.backend).take w.taken ++ .exited status :: (B.events w.backend).drop (w.taken+1) := by
    rw [← there,List.getElem_cons_drop inside,List.take_append_drop]
  obtain ⟨_,events⟩ := accept_all w.backend serves.good
    ((w.session.handle (.event (.exited status))).1.commands.sent.drop w.session.commands.sent.length)
  rw [List.append_nil]
  refine ⟨rfl,⟨_,status,_,events.trans split,?_⟩,?_⟩
  · exact serves.bytes
  · have before := Console.follows_view follows heeded
    simp only [World.serve,Session.handle,Session.handleTransportEvent,Outlet.send,room]
    rw [List.foldl_append,before]
    rfl

theorem engineEvent_serves {V : Viewport S} {c : Console T} {w : World B T P} (serves : Serves V c w stimuli given) :
    Serves V c w.engineEvent (stimuli ++ stimuliOf w .engineEvent) given := by
  have still : picked w .engineEvent = none → Serves V c w (stimuli ++ stimuliOf w .engineEvent) given := by
    intro none
    rw [stimuliOf,none,Option.elim,List.append_nil]
    exact serves
  unfold World.engineEvent
  split
  · rename_i running
    split
    · rename_i ev next
      have chosen : stimuliOf w .engineEvent = Received.stimuli (.event ev) := by
        simp only [stimuliOf,picked,running,next,if_true,Option.elim]
      obtain ⟨inside,there⟩ := List.getElem?_eq_some_iff.mp next
      rw [chosen]
      refine handled_serves serves (.event ev) running rfl rfl inside ?_ ?_
      · change _ = Browser.outputBytes ((B.events w.backend).take (w.taken+1))
        have grown : (B.events w.backend).take (w.taken+1) = (B.events w.backend).take w.taken ++ [ev] := by
          rw [List.take_add_one,next]
          rfl
        rw [grown,Browser.outputBytes_concat,List.filterMap_append,serves.bytes,(Browser.event_bytes ev).1]
      · intro status same
        cases same
        exact exit_ended serves running next
    · rename_i empty
      split
      · rename_i none_left
        have chosen : stimuliOf w .engineEvent = Received.stimuli .eventsClosed := by
          simp only [stimuliOf,picked,running,empty,none_left,if_true,Option.elim]
        rw [chosen]
        refine handled_serves serves .eventsClosed running rfl rfl serves.inside ?_ fun status wrong => by cases wrong
        change (stimuli ++ []).filterMap Browser.byteOf = _
        rw [List.append_nil]
        exact serves.bytes
      · rename_i more
        exact still (by simp only [picked,running,empty,if_neg more,if_true])
  · rename_i stopped
    exact still (by simp only [picked,if_neg stopped])

theorem engineInput_serves {V : Viewport S} {c : Console T} {w : World B T P} (serves : Serves V c w stimuli given) :
    Serves V c w.engineInput (stimuli ++ stimuliOf w .engineInput) given := by
  have still : picked w .engineInput = none → Serves V c w (stimuli ++ stimuliOf w .engineInput) given := by
    intro none
    rw [stimuliOf,none,Option.elim,List.append_nil]
    exact serves
  unfold World.engineInput
  split
  · rename_i running
    split
    · rename_i i rest next
      have chosen : stimuliOf w .engineInput = Received.stimuli (.input i) := by
        simp only [stimuliOf,picked,running,next,if_true,Option.elim]
      rw [chosen]
      refine handled_serves serves (.input i) running rfl rfl serves.inside ?_ fun status wrong => by cases wrong
      rw [List.filterMap_append,Received.stimuli,List.filterMap_cons_none rfl,List.filterMap_nil,List.append_nil]
      exact serves.bytes
    · rename_i empty
      split
      · rename_i more
        exact still (by simp only [picked,running,empty,more,if_true])
      · rename_i closed
        have chosen : stimuliOf w .engineInput = Received.stimuli .inputsClosed := by
          simp only [stimuliOf,picked,running,empty,if_neg closed,if_true,Option.elim]
        rw [chosen]
        refine handled_serves serves .inputsClosed running rfl rfl serves.inside ?_ fun status wrong => by cases wrong
        change (stimuli ++ []).filterMap Browser.byteOf = _
        rw [List.append_nil]
        exact serves.bytes
  · rename_i stopped
    exact still (by simp only [picked,if_neg stopped])

-- A step of the backend, of which the engine sees what is new in the channel.
theorem backend_serves {V : Viewport S} {c : Console T} {w : World B T P} (serves : Serves V c w stimuli given)
    (m : B.Move) (room : Option Nat) (gone : w.session.commands.room = some 0 → room = some 0) :
    Serves V c {w with backend := B.step w.backend m,session := {w.session with commands := ⟨w.session.commands.sent,room⟩}} stimuli
      (given ++ B.hands w.backend m) := by
  obtain ⟨points,follows⟩ := serves.follows
  obtain ⟨p,last,current⟩ := follows.last
  have heeded : Console.Heeded ({w.session with commands := ⟨w.session.commands.sent,room⟩},w.running) →
      Console.Heeded (w.session,w.running) := Or.imp id fun there none => there (gone none)
  obtain ⟨fresh,grown⟩ := B.grows w.backend m serves.good
  refine ⟨B.good_step w.backend m serves.good,⟨points,?_⟩,?_,?_,?_,fun whole => ?_,fun seq status member => ?_⟩
  · exact ⟨follows.plays,follows.fits,follows.consumer,follows.part,fun now => follows.whole (heeded now),follows.mirrors,
      follows.agrees,p,last,fun now => current (heeded now)⟩
  · change _ = Browser.outputBytes ((B.events (B.step w.backend m)).take w.taken)
    rw [grown,List.take_append_of_le_length serves.inside]
    exact serves.bytes
  · change w.taken ≤ (B.events (B.step w.backend m)).length
    rw [grown,List.length_append]
    exact Nat.le_trans serves.inside (Nat.le_add_right _ _)
  · rw [List.append_assoc]
    exact ((List.prefix_append_right_inj _).mpr (B.handed w.backend m serves.good)).trans serves.queued
  · obtain ⟨before,same⟩ := B.kept w.backend m serves.good whole
    rw [List.append_assoc,same]
    exact serves.intact before
  · obtain ⟨stopped,⟨earlier,code,later,split,all⟩,view⟩ := serves.ended seq status member
    refine ⟨stopped,⟨earlier,code,later ++ fresh,?_,all⟩,view⟩
    exact grown.trans (by rw [split,List.append_assoc,List.cons_append])

theorem step_serves {V : Viewport S} {c : Console T} (w : World B T P) (move : Move B) (serves : Serves V c w stimuli given) :
    Serves V c (w.step move) (stimuli ++ stimuliOf w move) (given ++ handedBy w move) := by
  -- a move of another thread than the engine
  have aside : ∀ next : World B T P, picked w move = none → Serves V c next stimuli (given ++ handedBy w move) →
      Serves V c next (stimuli ++ stimuliOf w move) (given ++ handedBy w move) := by
    intro next quiet served
    rw [stimuliOf,quiet,Option.elim,List.append_nil]
    exact served
  have inputs : ∀ inputs open_, Serves V c {w with inputs := inputs,inputOpen := open_} stimuli (given ++ []) := by
    intro inputs open_
    rw [List.append_nil]
    refine ⟨serves.good,serves.follows,serves.bytes,serves.inside,serves.queued,serves.intact,fun seq status member => ?_⟩
    obtain ⟨stopped,announced,view⟩ := serves.ended seq status member
    exact ⟨stopped,announced,view⟩
  cases move with
  | backend m after =>
      refine aside _ rfl ?_
      simp only [World.step,World.backendStep,handedBy]
      split
      · rw [List.append_nil]
        exact serves
      · split
        · refine backend_serves serves m (World.roomAfter w.session.commands.room after) fun gone => ?_
          simp only [World.roomAfter,gone,Option.map_some,Nat.min_zero,Option.getD_some]
        · exact backend_serves serves m w.session.commands.room id
  | input i =>
      refine aside _ rfl ?_
      simp only [World.step]
      split
      · exact inputs _ w.inputOpen
      · exact inputs w.inputs w.inputOpen
  | closeInput => exact aside _ rfl (inputs w.inputs false)
  | engineEvent =>
      have served := engineEvent_serves serves
      rwa [← List.append_nil given] at served
  | engineInput =>
      have served := engineInput_serves serves
      rwa [← List.append_nil given] at served

theorem run_serves {V : Viewport S} {c : Console T} (w : World B T P) (serves : Serves V c w stimuli given) (moves : List (Move B)) :
    Serves V c (moves.foldl World.step w) (stimuli ++ reached w moves) (given ++ handed w moves) := by
  induction moves generalizing w stimuli given with
  | nil =>
      rw [reached,handed,List.append_nil,List.append_nil]
      exact serves
  | cons move rest ih =>
      rw [reached,handed,← List.append_assoc,← List.append_assoc]
      exact ih (w.step move) (step_serves w move serves)

-- A backend that has just been opened.
structure Fresh (start : B.State) : Prop where
  good : B.Good start
  silent : B.events start = []
  idle : B.queue start = []

theorem begun_serves (V : Viewport S) {start : B.State} (fresh : Fresh start) (size : TerminalSize) :
    Serves V (.begun size) (begun start size : World B T P) [] [] := by
  refine ⟨fresh.good,⟨[0],Console.spawn_follows V size⟩,?_,Nat.zero_le _,?_,fun _ => ?_,fun seq status member => ?_⟩
  · exact (congrArg Browser.outputBytes (List.take_zero)).symm
  · exact ⟨[],congrArg ([] ++ · ++ []) fresh.idle⟩
  · exact fresh.idle
  · have baseline : Unexited (ProtocolEncoder.new.encodeFrame (TerminalEngine.new size : TerminalEngine T P).snapshot
        (TerminalEngine.new size : TerminalEngine T P).modes (TerminalEngine.new size : TerminalEngine T P).title [] false).2 :=
      unexited_common.frame _ _ _ _ _ _ (Browser.snapshot_known _) fun row none => by cases none
    exact absurd (List.mem_singleton.mp member).symm (baseline seq status)

-- What a run of the engine thread and its backend has come to.
structure Served (V : Viewport S) (c : Console T) (w : World B T P) (stimuli : List Stimulus) (given : List TransportCommand) :
    Prop where
  -- the terminal was fed what the backend obtained
  fed : stimuli.filterMap Browser.byteOf <+: B.obtained w.backend
  -- the backend has carried out what the terminal answered and the user typed
  carried : given <+: c.replied stimuli
  whole : Console.Heeded (w.session,w.running) → B.Intact w.backend → given ++ B.queue w.backend = c.replied stimuli
  -- the client sees the terminal, and behind an exit it sees everything
  shown : Console.Heeded (w.session,w.running) →
    w.session.events.sent.foldl ClientReplica.receive none = some ((c.after stimuli).shown V)
  exited : ∀ seq status, .exited seq status ∈ w.session.events.sent →
    stimuli.filterMap Browser.byteOf = B.obtained w.backend ∧
      w.session.events.sent.foldl ClientReplica.receive none = some ((c.after stimuli).shown V)

theorem outputs_prefix {earlier events : List TransportEvent} (part : earlier <+: events) :
    Browser.outputBytes earlier <+: (delivered events).flatten := by
  obtain ⟨later,rfl⟩ := part
  rw [Browser.outputBytes,delivered,delivered,List.filterMap_append,List.flatten_append]
  exact List.prefix_append _ _

theorem session_served (V : Viewport S) {start : B.State} (fresh : Fresh start) (size : TerminalSize) (moves : List (Move B)) :
    Served V (.begun size) (moves.foldl World.step (begun start size : World B T P)) (reached (begun start size : World B T P) moves)
      (handed (begun start size : World B T P) moves) := by
  have serves := run_serves (T := T) (P := P) _ (begun_serves V fresh size) moves
  rw [List.nil_append,List.nil_append] at serves
  obtain ⟨points,follows⟩ := serves.follows
  refine ⟨?_,List.IsPrefix.trans (List.prefix_append _ _) (serves.queued.trans follows.part),fun heeded whole => ?_,
    fun heeded => Console.follows_view follows heeded,fun seq status member => ?_⟩
  · refine List.IsPrefix.trans ?_ (B.part _ serves.good)
    rw [serves.bytes]
    exact outputs_prefix (List.take_prefix _ _)
  · rw [serves.intact whole]
    exact follows.whole heeded
  · obtain ⟨_,⟨earlier,code,later,split,all⟩,view⟩ := serves.ended seq status member
    exact ⟨all.trans (B.before _ serves.good earlier code later split),view⟩

end BackendSession
end Perga

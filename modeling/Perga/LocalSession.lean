import Perga.BackendSession
import Perga.ExitedLast

namespace Perga.LocalSession
open ExitedLast BackendSession
variable {T : Terminal} {P : VteParser} {S : Screens T}

-- The backend's channel holds the chunks in the order in which they were read, and before an exit
-- it holds them all.
structure Chunks (w : PtySession.World) : Prop where
  barred : Barred w
  part : delivered w.events.sent <+: w.obtained
  before : ∀ earlier status later, w.events.sent = earlier ++ .exited status :: later → delivered earlier = w.obtained

-- What a step of the backend adds: at most one event, and nothing is read behind the end of the reader.
inductive Adds (w next : PtySession.World) : Prop where
  | still (sent : next.events.sent = w.events.sent) (more : w.obtained <+: next.obtained)
      (ended : w.reader = .finished → next.obtained = w.obtained)
  | told (ev : TransportEvent) (sent : next.events.sent = w.events.sent ++ [ev]) (room : next.events.room = none)
      (obtained : next.obtained = w.obtained)

theorem adds_sent {w next : PtySession.World} (barred : Barred w) (ev : TransportEvent) (events : next.events = (w.events.send ev).1)
    (obtained : next.obtained = w.obtained) : Adds w next := by
  rcases sends barred.room ev with ⟨_,sent⟩ | ⟨_,sent⟩
  · rw [sent] at events
    exact .told ev (by rw [events]) (by rw [events]) obtained
  · rw [sent] at events
    exact .still (by rw [events]) ⟨[],by rw [List.append_nil,obtained]⟩ fun _ => obtained

theorem adds_none {w next : PtySession.World} (sent : next.events.sent = w.events.sent) (obtained : next.obtained = w.obtained) :
    Adds w next := .still sent ⟨[],by rw [List.append_nil,obtained]⟩ fun _ => obtained

theorem step_adds (w : PtySession.World) (barred : Barred w) (move : PtySession.Move) : Adds w (w.step move) := by
  cases move with
  | reader result =>
      simp only [PtySession.World.step,PtySession.World.readerLoop]
      split
      · rename_i at_
        split
        · exact adds_none rfl rfl
        · refine .still rfl (List.prefix_append _ _) fun ended => ?_
          rw [at_] at ended
          cases ended
        · split <;> exact adds_none rfl rfl
      · exact adds_sent barred _ rfl rfl
      · exact adds_sent barred _ rfl rfl
      · exact adds_none rfl rfl
      · exact adds_none rfl rfl
  | writer written =>
      simp only [PtySession.World.step,PtySession.World.writerLoop]
      split
      · split
        · exact adds_none rfl rfl
        · exact adds_none rfl rfl
        · exact adds_none rfl rfl
        · split <;> exact adds_none rfl rfl
      · exact adds_none rfl rfl
      · exact adds_sent barred _ rfl rfl
      · exact adds_none rfl rfl
      · exact adds_none rfl rfl
      · exact adds_none rfl rfl
      · exact adds_none rfl rfl
  | waiter polled now =>
      simp only [PtySession.World.step,PtySession.World.waiterLoop]
      split
      · split <;> exact adds_none rfl rfl
      · split <;> exact adds_none rfl rfl
      · split
        · split <;> exact adds_none rfl rfl
        · exact adds_none rfl rfl
      · split <;> exact adds_none rfl rfl
      · exact adds_sent barred _ rfl rfl
      · exact adds_none rfl rfl
  | command c => simp only [PtySession.World.step]; split <;> exact adds_none rfl rfl
  | drop => simp only [PtySession.World.step,PtySession.World.dropStep]; split <;> exact adds_none rfl rfl
  | closeCommands => simp only [PtySession.World.step]; split <;> exact adds_none rfl rfl
  | dropReceiver => simp only [PtySession.World.step]; split <;> exact adds_none rfl rfl

theorem exit_announced {w : PtySession.World} (split : w.events.sent = earlier ++ .exited status :: later) :
    announced w = true := by
  rw [announced,split,List.any_append,List.any_cons]
  simp [TransportEvent.isExited]

theorem announced_ended {w : PtySession.World} (barred : Barred w) (found : announced w = true) : w.reader = .finished := by
  apply barred.barrier
  rw [(barred.exited found).1]
  rfl

theorem step_chunks (w : PtySession.World) (move : PtySession.Move) (chunks : Chunks w) : Chunks (w.step move) := by
  have barred := (step_barred w move chunks.barred).1
  have adds := step_adds w chunks.barred move
  generalize w.step move = next at barred adds
  cases adds with
  | still sent more ended =>
      refine ⟨barred,?_,fun earlier status later split => ?_⟩
      · rw [sent]
        exact chunks.part.trans more
      · rw [sent] at split
        rw [ended (announced_ended chunks.barred (exit_announced split))]
        exact chunks.before earlier status later split
  | told ev sent room obtained =>
      have whole := barred.chunks room
      refine ⟨barred,⟨_,whole⟩,fun earlier status later split => ?_⟩
      rw [sent] at split
      rcases StepRuns.grown_split split with ⟨rfl,rfl,rfl⟩ | ⟨rest,before,_⟩
      · have all := (barred.exited (exit_announced sent)).2
        rw [sent,delivered_append] at all
        exact (List.append_nil _).symm.trans all
      · rw [obtained]
        exact chunks.before earlier status rest before

-- The commands that wait for the writer; the handle's own `Shutdown` is none of the engine's.
def waiting (pty : PtySession.World) : List TransportCommand := pty.commands.filter (· ≠ .shutdown)

def takes (pty : PtySession.World) : List TransportCommand :=
  match pty.writer with
  | .receiving => (pty.commands.head?.filter (· ≠ .shutdown)).toList
  | _ => []

theorem reader_queue (pty : PtySession.World) (result : Except IoError (List UInt8)) :
    (pty.step (.reader result)).commands = pty.commands := by
  simp only [PtySession.World.step,PtySession.World.readerLoop]
  split
  · split
    · rfl
    · rfl
    · split <;> rfl
  · rfl
  · rfl
  · rfl
  · rfl

theorem waiter_queue (pty : PtySession.World) (polled : Except String (Option UInt32)) (now : Nat) :
    (pty.step (.waiter polled now)).commands = pty.commands := by
  simp only [PtySession.World.step,PtySession.World.waiterLoop]
  split
  · split <;> rfl
  · split <;> rfl
  · split
    · split <;> rfl
    · rfl
  · split <;> rfl
  · rfl
  · rfl

theorem writer_queue (pty : PtySession.World) (written : Bool) : takes pty ++ waiting (pty.step (.writer written)) = waiting pty := by
  simp only [PtySession.World.step,PtySession.World.writerLoop,takes,waiting]
  cases pty.writer with
  | receiving =>
      simp only
      split
      · rename_i data rest next
        rw [next]
        rfl
      · rename_i size rest next
        rw [next]
        rfl
      · rename_i rest next
        rw [next]
        rfl
      · rename_i empty
        split
        · rw [empty]
          rfl
        · simp only [empty]
          rfl
  | writing => rfl
  | failing => rfl
  | hangingUp => rfl
  | signalling => rfl
  | closing => rfl
  | finished => rfl

theorem drop_queue (pty : PtySession.World) : waiting (pty.step .drop) = waiting pty := by
  simp only [PtySession.World.step,PtySession.World.dropStep]
  split
  · simp [waiting]
  · rfl
  · rfl
  · rfl

theorem accept_chunks {w : PtySession.World} (chunks : Chunks w) (commands : List TransportCommand) :
    Chunks {w with commands := commands} := by
  have barred : Barred {w with commands := commands} :=
    ⟨chunks.barred.barrier,chunks.barred.exited,chunks.barred.chunks,chunks.barred.room⟩
  exact ⟨barred,chunks.part,chunks.before⟩

-- Nobody but the engine sends commands.
def Move : Type := {m : PtySession.Move // ∀ c, m ≠ .command c}

def taken (pty : PtySession.World) : PtySession.Move → List TransportCommand
  | .writer _ => takes pty
  | _ => []

theorem step_queue (pty : PtySession.World) (m : PtySession.Move) (other : ∀ c, m ≠ .command c) :
    taken pty m ++ waiting (pty.step m) = waiting pty := by
  cases m with
  | reader result => exact congrArg (List.filter _) (reader_queue pty result)
  | writer written => exact writer_queue pty written
  | waiter polled now => exact congrArg (List.filter _) (waiter_queue pty polled now)
  | command c => exact absurd rfl (other c)
  | drop => exact drop_queue pty
  | closeCommands => simp only [PtySession.World.step]; split <;> rfl
  | dropReceiver => simp only [PtySession.World.step]; split <;> rfl

-- The PTY backend: the reader, writer and waiter threads and the handle that ends them.
def backend : Backend where
  State := PtySession.World
  Move := Move
  step := fun w m => w.step m.1
  accept := fun w c => {w with commands := w.commands ++ [c]}
  events := fun w => w.events.sent
  senderless := fun w => w.reader == .finished && w.writer == .finished && (match w.waiter with | .finished => true | _ => false)
  refuses := fun w => w.writer == .finished
  outlives := fun m =>
    match m.1 with
    | .closeCommands => true
    | .dropReceiver => true
    | _ => false
  obtained := fun w => w.obtained.flatten
  queue := waiting
  hands := fun w m => taken w m.1
  Good := Chunks
  Intact := fun _ => True
  good_step := fun w m chunks => step_chunks w m.1 chunks
  good_accept := fun w c chunks => accept_chunks chunks (w.commands ++ [c])
  grows := by
    intro w m chunks
    have adds := step_adds w chunks.barred m.1
    generalize w.step m.1 = next at adds
    cases adds with
    | still sent _ _ => exact ⟨[],by rw [sent,List.append_nil]⟩
    | told ev sent _ _ => exact ⟨[ev],sent⟩
  accept_events := fun _ _ => rfl
  part := by
    intro w chunks
    obtain ⟨later,part⟩ := chunks.part
    rw [← part,List.flatten_append]
    exact List.prefix_append _ _
  before := fun _ chunks earlier status later split => congrArg List.flatten (chunks.before earlier status later split)
  handed := by
    intro w m _
    exact ⟨[],by rw [List.append_nil,step_queue w m.1 m.2]⟩
  kept := fun w m _ _ => ⟨trivial,step_queue w m.1 m.2⟩
  accepts := by
    intro w c _ _ kind
    simp [waiting,kind]
  drops := fun _ _ _ broken => absurd trivial broken

theorem spawn_fresh (pid pgid : Option Int) : Fresh (B := backend) (PtySession.spawn pid pgid) := by
  refine ⟨⟨spawn_barred pid pgid,List.prefix_refl _,fun earlier status later split => ?_⟩,rfl,rfl⟩
  cases earlier <;> cases split

-- However the three threads of the backend, the engine and the user interleave, the terminal is fed
-- what was read from the PTY, in order, and the writer is handed what the terminal answers and the
-- user types, in order and once; and when the client is told of the exit, it has on its screen
-- everything that was ever read.
theorem local_session (V : Viewport S) (pid pgid : Option Int) (size : TerminalSize) (moves : List (BackendSession.Move backend)) :
    let start : World backend T P := begun (PtySession.spawn pid pgid : PtySession.World) size
    Served V (.begun size) (moves.foldl World.step start) (reached start moves) (handed start moves) :=
  session_served V (spawn_fresh pid pgid) size moves

end Perga.LocalSession

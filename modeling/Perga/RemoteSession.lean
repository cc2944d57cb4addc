import Perga.BackendSession
import Perga.SshSession

namespace Perga.RemoteSession
open SshSession BackendSession
variable {T : Terminal} {P : VteParser} {S : Screens T}

structure Sound (w : SshSession.World) : Prop where
  chunks : Chunks w.shuttle
  sender : w.bridge ≠ .finished → w.shuttle.commandsOpen = true

theorem loop_open (w : Shuttle.World) (move : Shuttle.Move) (other : move ≠ .closeCommands) :
    (w.step move).commandsOpen = w.commandsOpen := by
  cases move with
  | command c => simp only [Shuttle.World.step]; split <;> rfl
  | closeCommands => exact absurd rfl other
  | message m => simp only [Shuttle.World.step]; split <;> rfl
  | endChannel => rfl
  | shutdown => rfl
  | dropReceiver => rfl
  | iterate failure => exact (iterate_queue w failure).2.1

theorem passed_sound {w : SshSession.World} (sound : Sound w) (move : Shuttle.Move) (other : move ≠ .closeCommands) :
    Sound {w with shuttle := w.shuttle.step move} :=
  ⟨step_chunks w.shuttle move sound.chunks,fun going => (loop_open w.shuttle move other).trans (sound.sender going)⟩

theorem endBridge_sound {w : SshSession.World} (sound : Sound w) : Sound w.endBridge :=
  ⟨step_chunks w.shuttle .closeCommands sound.chunks,fun wrong => absurd rfl wrong⟩

theorem step_sound (w : SshSession.World) (move : SshSession.Move) (sound : Sound w) : Sound (w.step move) := by
  cases move with
  | bridge shutdownFirst =>
      simp only [SshSession.World.step,SshSession.World.runBridgeLoop]
      split
      · rename_i at_
        have open_ : w.shuttle.commandsOpen = true := sound.sender (by rw [at_]; simp)
        split
        · exact endBridge_sound sound
        · split
          · exact ⟨sound.chunks,fun _ => open_⟩
          · split
            · exact endBridge_sound sound
            · exact sound
      · rename_i c at_
        split
        · exact endBridge_sound sound
        · have passed := passed_sound sound (.command c) (by simp)
          exact ⟨passed.chunks,fun _ => passed.sender (by rw [at_]; simp)⟩
      · exact sound
  | shuttle failure => exact passed_sound sound _ (by simp)
  | message m => exact passed_sound sound _ (by simp)
  | endChannel => exact passed_sound sound _ (by simp)
  | command c => simp only [SshSession.World.step]; split <;> exact ⟨sound.chunks,sound.sender⟩
  | drop =>
      simp only [SshSession.World.step,SshSession.World.dropStep]
      split
      · have passed := passed_sound sound .shutdown (by simp)
        exact ⟨passed.chunks,passed.sender⟩
      · exact ⟨sound.chunks,sound.sender⟩
      · exact ⟨sound.chunks,sound.sender⟩
      · exact sound
  | closeCommands => simp only [SshSession.World.step]; split <;> exact ⟨sound.chunks,sound.sender⟩
  | dropReceiver =>
      simp only [SshSession.World.step]
      split
      · exact passed_sound sound .dropReceiver (by simp)
      · exact sound

-- The commands that have left the engine and can still reach the remote end: those that wait for the
-- loop, the one in the bridge's hands and those before it.
def waiting (w : SshSession.World) : List TransportCommand :=
  if w.shuttle.ending.isSome then []
  else
    match w.bridge with
    | .receiving => w.shuttle.commands ++ w.commands
    | .holding c => w.shuttle.commands ++ c :: w.commands
    | .finished => w.shuttle.commands

def carried (w : SshSession.World) : SshSession.Move → List TransportCommand
  | .shuttle _ => taken w.shuttle
  | _ => []

-- Both threads are at work.
def Working (w : SshSession.World) : Prop := w.bridge ≠ .finished ∧ w.shuttle.ending.isSome = false

-- How a step leaves the way of the commands: whole, or cut off at its end for good.
structure Flows (w next : SshSession.World) (out : List TransportCommand) : Prop where
  onward : out ++ waiting next <+: waiting w
  whole : Working next → Working w ∧ out ++ waiting next = waiting w

theorem flows_same {w next : SshSession.World} (ending : next.shuttle.ending = w.shuttle.ending)
    (queue : next.shuttle.commands = w.shuttle.commands) (bridge : next.bridge = w.bridge) (commands : next.commands = w.commands) :
    Flows w next [] := by
  have same : waiting next = waiting w := by rw [waiting,waiting,ending,queue,bridge,commands]
  refine ⟨⟨[],by rw [List.nil_append,same,List.append_nil]⟩,fun working => ⟨?_,by rw [List.nil_append,same]⟩⟩
  rwa [Working,ending,bridge] at working

theorem bridge_flows {w : SshSession.World} (sound : Sound w) (shutdownFirst : Bool) :
    Flows w (w.step (.bridge shutdownFirst)) [] := by
  have cut : (∃ more, waiting w = (if w.shuttle.ending.isSome then [] else w.shuttle.commands) ++ more) → Flows w w.endBridge [] := by
    rintro ⟨more,all⟩
    have left : waiting w.endBridge = if w.shuttle.ending.isSome then [] else w.shuttle.commands := rfl
    exact ⟨by rw [List.nil_append,left,all]; exact List.prefix_append _ _,fun working => absurd rfl working.1⟩
  simp only [SshSession.World.step,SshSession.World.runBridgeLoop]
  cases at_ : w.bridge with
  | receiving =>
      have all : ∃ more, waiting w = (if w.shuttle.ending.isSome then [] else w.shuttle.commands) ++ more := by
        rw [waiting,at_]
        split
        · exact ⟨[],rfl⟩
        · exact ⟨w.commands,rfl⟩
      simp only
      split
      · exact cut all
      · split
        · rename_i c rest next
          have same : waiting {w with commands := rest,bridge := .holding c} = waiting w := by rw [waiting,waiting,at_,next]
          refine ⟨⟨[],by rw [List.nil_append,same,List.append_nil]⟩,fun working => ⟨⟨by rw [at_]; simp,working.2⟩,?_⟩⟩
          rw [List.nil_append,same]
        · split
          · exact cut all
          · exact flows_same rfl rfl rfl rfl
  | holding c =>
      simp only
      split
      · rename_i ended
        exact cut ⟨[],by rw [waiting,if_pos ended,if_pos ended]; rfl⟩
      · rename_i running
        have open_ := sound.sender (by rw [at_]; simp)
        have passed : w.shuttle.step (.command c) = {w.shuttle with commands := w.shuttle.commands ++ [c]} := by
          simp only [Shuttle.World.step,open_,if_true]
        have same : waiting {w with shuttle := w.shuttle.step (.command c),bridge := .receiving} = waiting w := by
          rw [passed,waiting,waiting,at_]
          simp only [List.append_assoc,List.cons_append,List.nil_append]
        refine ⟨⟨[],by rw [List.nil_append,same,List.append_nil]⟩,fun working => ⟨⟨by rw [at_]; simp,?_⟩,?_⟩⟩
        · exact Bool.eq_false_iff.mpr running
        · rw [List.nil_append,same]
  | finished => exact flows_same rfl rfl rfl rfl

theorem loop_flows (w : SshSession.World) (failure : Option String) :
    Flows w (w.step (.shuttle failure)) (taken w.shuttle) := by
  have queue := (iterate_queue w.shuttle failure).1
  cases ended : w.shuttle.ending.isSome with
  | true =>
      have same := ended_same ended failure
      have nothing : taken w.shuttle = [] := by simp only [taken,ended,Bool.true_or,if_true]
      rw [same,nothing]
      exact flows_same rfl rfl rfl rfl
  | false =>
      have before : waiting w = taken w.shuttle ++ (match w.bridge with
          | .receiving => (w.shuttle.iterate failure).commands ++ w.commands
          | .holding c => (w.shuttle.iterate failure).commands ++ c :: w.commands
          | .finished => (w.shuttle.iterate failure).commands) := by
        rw [waiting,ended,if_neg Bool.false_ne_true]
        cases w.bridge with
        | receiving => rw [← List.append_assoc,queue]
        | holding c => rw [← List.append_assoc,queue]
        | finished => rw [queue]
      cases stopped : (w.shuttle.iterate failure).ending.isSome with
      | true =>
          have none_left : waiting (w.step (.shuttle failure)) = [] := if_pos stopped
          refine ⟨?_,fun working => ?_⟩
          · rw [none_left,List.append_nil,before]
            exact List.prefix_append _ _
          · have running : (w.shuttle.iterate failure).ending.isSome = false := working.2
            rw [stopped] at running
            cases running
      | false =>
          have same : taken w.shuttle ++ waiting (w.step (.shuttle failure)) = waiting w := by
            rw [before]
            exact congrArg (taken w.shuttle ++ ·) (if_neg (Bool.eq_false_iff.mp stopped))
          exact ⟨⟨[],by rw [List.append_nil,same]⟩,fun working => ⟨⟨working.1,ended⟩,same⟩⟩

theorem drop_flows (w : SshSession.World) : Flows w (w.step .drop) [] := by
  simp only [SshSession.World.step,SshSession.World.dropStep]
  split
  · exact flows_same rfl rfl rfl rfl
  · exact flows_same rfl rfl rfl rfl
  · exact flows_same rfl rfl rfl rfl
  · exact flows_same rfl rfl rfl rfl

theorem step_flows {w : SshSession.World} (sound : Sound w) (move : SshSession.Move) (other : ∀ c, move ≠ .command c) :
    Flows w (w.step move) (carried w move) := by
  cases move with
  | bridge shutdownFirst => exact bridge_flows sound shutdownFirst
  | shuttle failure => exact loop_flows w failure
  | message m =>
      simp only [SshSession.World.step,Shuttle.World.step]
      split <;> exact flows_same rfl rfl rfl rfl
  | endChannel => exact flows_same rfl rfl rfl rfl
  | command c => exact absurd rfl (other c)
  | drop => exact drop_flows w
  | closeCommands => simp only [SshSession.World.step]; split <;> exact flows_same rfl rfl rfl rfl
  | dropReceiver => simp only [SshSession.World.step]; split <;> exact flows_same rfl rfl rfl rfl

-- The loop's step adds to what it has put into the channel of events.
theorem loop_grows (w : Shuttle.World) (steady : Shuttle.Steady w) (move : Shuttle.Move) :
    ∃ fresh, (w.step move).events.sent = w.events.sent ++ fresh := by
  have same : ∀ next : Shuttle.World, next.events.sent = w.events.sent → ∃ fresh, next.events.sent = w.events.sent ++ fresh :=
    fun next kept => ⟨[],kept.trans (List.append_nil _).symm⟩
  cases move with
  | command c => simp only [Shuttle.World.step]; split <;> exact same _ rfl
  | closeCommands => exact same _ rfl
  | message m => simp only [Shuttle.World.step]; split <;> exact same _ rfl
  | endChannel => exact same _ rfl
  | shutdown => exact same _ rfl
  | dropReceiver => exact same _ rfl
  | iterate failure =>
      change ∃ fresh, (w.iterate failure).events.sent = _
      rcases steady.1 with alive | gone
      · have round := Shuttle.iterate_rounds alive failure
        generalize w.iterate failure = next at round
        cases round <;> first | exact same _ rfl | exact ⟨_,rfl⟩
      · exact same _ (congrArg Outlet.sent (Shuttle.iterate_gone gone failure))

theorem step_grows {w : SshSession.World} (sound : Sound w) (move : SshSession.Move) :
    ∃ fresh, (w.step move).shuttle.events.sent = w.shuttle.events.sent ++ fresh := by
  have still : ∃ fresh, w.shuttle.events.sent = w.shuttle.events.sent ++ fresh := ⟨[],(List.append_nil _).symm⟩
  have passed := loop_grows w.shuttle sound.chunks.steady
  cases move with
  | bridge shutdownFirst =>
      simp only [SshSession.World.step,SshSession.World.runBridgeLoop]
      split
      · split
        · exact passed .closeCommands
        · split
          · exact still
          · split
            · exact passed .closeCommands
            · exact still
      · split
        · exact passed .closeCommands
        · exact passed _
      · exact still
  | shuttle failure => exact passed _
  | message m => exact passed _
  | endChannel => exact passed _
  | command c => simp only [SshSession.World.step]; split <;> exact still
  | drop =>
      simp only [SshSession.World.step,SshSession.World.dropStep]
      split
      · exact passed .shutdown
      · exact still
      · exact still
      · exact still
  | closeCommands => simp only [SshSession.World.step]; split <;> exact still
  | dropReceiver =>
      simp only [SshSession.World.step]
      split
      · exact passed .dropReceiver
      · exact still

-- Nobody but the engine sends commands.
def Move : Type := {m : SshSession.Move // ∀ c, m ≠ .command c}

-- The SSH backend: the bridge thread, the loop on the connection and the handle that ends them.
def backend : Backend where
  State := SshSession.World
  Move := Move
  step := fun w m => w.step m.1
  accept := fun w c => {w with commands := w.commands ++ [c]}
  events := fun w => w.shuttle.events.sent
  senderless := fun w => w.shuttle.ending.isSome
  refuses := fun w => w.bridge == .finished
  outlives := fun m => m.1 == .closeCommands || m.1 == .dropReceiver
  obtained := fun w => (obtained w.shuttle).flatten
  queue := waiting
  hands := fun w m => carried w m.1
  Good := Sound
  Intact := Working
  good_step := fun w m sound => step_sound w m.1 sound
  good_accept := fun _ _ sound => ⟨sound.chunks,sound.sender⟩
  grows := fun _ m sound => step_grows sound m.1
  accept_events := fun _ _ => rfl
  part := by
    intro w sound
    obtain ⟨later,part⟩ := sound.chunks.part
    rw [← part,List.flatten_append]
    exact List.prefix_append _ _
  before := fun _ sound earlier status later split => congrArg List.flatten (sound.chunks.before earlier status later split).2
  handed := fun _ m sound => (step_flows sound m.1 m.2).onward
  kept := fun _ m sound working => (step_flows sound m.1 m.2).whole working
  accepts := by
    intro w c _ working _
    obtain ⟨going,running⟩ := working
    rw [waiting,waiting,running,if_neg Bool.false_ne_true,if_neg Bool.false_ne_true]
    cases at_ : w.bridge with
    | receiving => simp
    | holding d => simp
    | finished => exact absurd at_ going
  drops := by
    intro w c _ idle
    refine ⟨?_,idle⟩
    cases ended : w.shuttle.ending.isSome with
    | true => rw [waiting,waiting,if_pos ended,if_pos ended]
    | false =>
        have finished : w.bridge = .finished := by_contra fun going => idle ⟨going,ended⟩
        rw [waiting,waiting,finished]

theorem begun_fresh : Fresh (B := backend) SshSession.begun := by
  refine ⟨⟨alive_chunks Shuttle.begun_steady rfl,fun _ => rfl⟩,rfl,rfl⟩

-- A session over SSH: however the bridge, the loop, the engine, the user and the remote end interleave,
-- the terminal is fed the data of the channel in order, the remote end is sent what the terminal
-- answers and the user types in order and once, all of it while both threads work; and behind an
-- exit the client has on its screen everything that came before it.
theorem remote_session (V : Viewport S) (size : TerminalSize) (moves : List (BackendSession.Move backend)) :
    let start : World backend T P := BackendSession.begun (SshSession.begun : SshSession.World) size
    Served V (.begun size) (moves.foldl World.step start) (reached start moves) (handed start moves) :=
  session_served V begun_fresh size moves

end Perga.RemoteSession

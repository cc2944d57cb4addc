import Perga.FairRounds
import Perga.ShuttleEvents

namespace Perga.SshSession

-- The bridge thread, between two rounds of its `select!` or with a command in hand.
inductive Bridge where
  | receiving
  | holding (c : TransportCommand)
  | finished
  deriving DecidableEq, Repr

-- `SshSession::drop` signals the loop, then the bridge, joins, and lets go of its ends.
inductive Handle where
  | held
  | loopSignalled
  | bridgeSignalled
  | released
  deriving DecidableEq, Repr

-- `commands` is the channel from outside to the bridge; the one from the bridge to the loop is the
-- loop's own. `signal` is what the bridge finds on its shutdown channel.
structure World where
  shuttle : Shuttle.World
  bridge : Bridge
  commands : List TransportCommand
  commandsOpen : Bool
  signal : Bool
  handle : Handle
  deriving DecidableEq, Repr

def begun : World := ⟨Shuttle.begun,.receiving,[],true,false,.held⟩

-- `shutdownFirst` is which arm the `select!` takes where both are ready.
inductive Move where
  | bridge (shutdownFirst : Bool)
  | shuttle (failure : Option String)
  | message (m : ChannelMsg)
  | endChannel
  | command (c : TransportCommand)
  | drop
  | closeCommands
  | dropReceiver
  deriving DecidableEq, Repr

namespace World

-- The thread's end takes the receiver of the commands and the loop's sender with it.
def endBridge (w : World) : World := {w with bridge := .finished,shuttle := w.shuttle.step .closeCommands}

def runBridgeLoop (w : World) (shutdownFirst : Bool) : World :=
  match w.bridge with
  | .receiving =>
    if w.signal && shutdownFirst then w.endBridge
    else
      match w.commands with
      | c :: rest => {w with commands := rest,bridge := .holding c}
      | [] => if w.signal || !w.commandsOpen then w.endBridge else w
  -- The loop has dropped its receiver once it has returned.
  | .holding c =>
    if w.shuttle.ending.isSome then w.endBridge
    else {w with shuttle := w.shuttle.step (.command c),bridge := .receiving}
  | .finished => w

def dropStep (w : World) : World :=
  match w.handle with
  | .held => {w with shuttle := w.shuttle.step .shutdown,handle := .loopSignalled}
  | .loopSignalled => {w with signal := true,handle := .bridgeSignalled}
  | .bridgeSignalled => {w with handle := .released}
  | .released => w

def step (w : World) : Move → World
  | .bridge shutdownFirst => w.runBridgeLoop shutdownFirst
  | .shuttle failure => {w with shuttle := w.shuttle.step (.iterate failure)}
  | .message m => {w with shuttle := w.shuttle.step (.message m)}
  | .endChannel => {w with shuttle := w.shuttle.step .endChannel}
  | .command c => if w.commandsOpen then {w with commands := w.commands ++ [c]} else w
  | .drop => w.dropStep
  | .closeCommands => if w.handle = .released then {w with commandsOpen := false} else w
  | .dropReceiver => if w.handle = .released then {w with shuttle := w.shuttle.step .dropReceiver} else w
end World

-- What a round of the loop takes from its channel of commands.
def taken (w : Shuttle.World) : List TransportCommand :=
  if w.ending.isSome || w.shutdown then [] else w.commands.head?.toList

theorem handleCommand_queue (w : Shuttle.World) (failure : Option String) (c : TransportCommand) :
    (w.handleCommand failure c).commands = w.commands ∧ (w.handleCommand failure c).commandsOpen = w.commandsOpen ∧
      (w.handleCommand failure c).shutdown = w.shutdown := by
  cases c with
  | write bytes => cases failure <;> exact ⟨rfl,rfl,rfl⟩
  | resize size => exact ⟨rfl,rfl,rfl⟩
  | shutdown => exact ⟨rfl,rfl,rfl⟩

theorem handleChannelMsg_queue (w : Shuttle.World) (m : ChannelMsg) :
    (w.handleChannelMsg m).commands = w.commands ∧ (w.handleChannelMsg m).commandsOpen = w.commandsOpen ∧
      (w.handleChannelMsg m).shutdown = w.shutdown := by
  have output : ∀ bytes, (w.handleOutput bytes).commands = w.commands ∧ (w.handleOutput bytes).commandsOpen = w.commandsOpen ∧
      (w.handleOutput bytes).shutdown = w.shutdown := by
    intro bytes
    unfold Shuttle.World.handleOutput
    split
    · rename_i sent; rw [← (Prod.mk.inj sent).1]; exact ⟨rfl,rfl,rfl⟩
    · rename_i sent; rw [← (Prod.mk.inj sent).1]; exact ⟨rfl,rfl,rfl⟩
  cases m with
  | data bytes => exact output bytes
  | extendedData bytes => exact output bytes
  | exitStatus status => exact ⟨rfl,rfl,rfl⟩
  | exitSignal signalName => exact ⟨rfl,rfl,rfl⟩
  | eof => exact ⟨rfl,rfl,rfl⟩
  | close => exact ⟨rfl,rfl,rfl⟩
  | other => exact ⟨rfl,rfl,rfl⟩

theorem iterate_queue (w : Shuttle.World) (failure : Option String) :
    taken w ++ (w.iterate failure).commands = w.commands ∧ (w.iterate failure).commandsOpen = w.commandsOpen ∧
      (w.iterate failure).shutdown = w.shutdown := by
  unfold Shuttle.World.iterate
  split
  · rename_i ended
    exact ⟨by simp [taken,ended],rfl,rfl⟩
  · rename_i running
    split
    · rename_i signalled
      exact ⟨by simp [taken,signalled,Shuttle.World.leave],rfl,rfl⟩
    · rename_i unsignalled
      have takes : taken w = w.commands.head?.toList := by simp [taken,running,unsignalled]
      rw [takes]
      split
      · rename_i c rest next
        obtain ⟨queue,open_,signal⟩ := handleCommand_queue {w with commands := rest} failure c
        exact ⟨by rw [queue,next]; rfl,open_,signal⟩
      · rename_i empty
        rw [empty]
        split
        · exact ⟨empty,rfl,rfl⟩
        · split
          · rename_i m rest _
            exact handleChannelMsg_queue {w with commands := [],messages := rest,received := w.received ++ [m]} m
          · split <;> exact ⟨empty,rfl,rfl⟩

-- What the loop has obtained from the remote end, and how it stands in the channel of events.
def obtained (w : Shuttle.World) : List (List UInt8) := w.received.filterMap ChannelMsg.bytes?

structure Chunks (w : Shuttle.World) : Prop where
  steady : Shuttle.Steady w
  part : delivered w.events.sent <+: obtained w
  before : ∀ earlier status later, w.events.sent = earlier ++ .exited status :: later →
    w.ending.isSome = true ∧ delivered earlier = obtained w

theorem delivered_outputs (messages : List ChannelMsg) : delivered (Shuttle.outputs messages) = messages.filterMap ChannelMsg.bytes? := by
  unfold Shuttle.outputs delivered
  rw [List.filterMap_map]
  exact List.filterMap_some

theorem outputs_silent (messages : List ChannelMsg) (status : ExitStatus) : .exited status ∉ Shuttle.outputs messages := by
  intro member
  obtain ⟨bytes,_,wrong⟩ := List.mem_map.mp member
  cases wrong

-- Behind the outputs stands at most one event, and it is no output.
theorem closes_tail {ending : Option Shuttle.Ending} {tail : List TransportEvent} (closes : Shuttle.Closes ending tail) :
    delivered tail = [] ∧ ∀ earlier status later, tail = earlier ++ .exited status :: later → earlier = [] ∧ ending.isSome = true := by
  have short : ∀ (event : TransportEvent) earlier status later, [event] = earlier ++ .exited status :: later → earlier = [] := by
    intro event earlier status later split
    cases earlier with
    | nil => rfl
    | cons first rest => cases rest <;> cases split
  cases closes with
  | running => exact ⟨rfl,fun earlier status later split => by cases earlier <;> cases split⟩
  | remoteEnded _ => exact ⟨rfl,fun earlier status later split => ⟨short _ earlier status later split,rfl⟩⟩
  | channelGone _ => exact ⟨rfl,fun earlier status later split => ⟨short _ earlier status later split,rfl⟩⟩
  | writeFailed _ => exact ⟨rfl,fun earlier status later split => ⟨short _ earlier status later split,rfl⟩⟩
  | shutdownSignal => exact ⟨rfl,fun earlier status later split => by cases earlier <;> cases split⟩
  | shutdownCommand => exact ⟨rfl,fun earlier status later split => by cases earlier <;> cases split⟩
  | commandsGone => exact ⟨rfl,fun earlier status later split => by cases earlier <;> cases split⟩

-- What stands in the channel while the consumer is there.
theorem alive_chunks {w : Shuttle.World} (steady : Shuttle.Steady w) (alive : w.events.room = none) : Chunks w := by
  obtain ⟨tail,sent,closes⟩ := steady.2.sent alive
  obtain ⟨silent,exits⟩ := closes_tail closes
  have whole : delivered w.events.sent = obtained w := by
    rw [sent,delivered,List.filterMap_append]
    change delivered (Shuttle.outputs w.received) ++ delivered tail = _
    rw [silent,List.append_nil,delivered_outputs]
    rfl
  refine ⟨steady,⟨[],by rw [List.append_nil,whole]⟩,fun earlier status later split => ?_⟩
  rw [sent] at split
  rcases List.append_eq_append_iff.mp split with ⟨more,rfl,exit⟩ | ⟨more,outputs,exit⟩
  · obtain ⟨rfl,ended⟩ := exits more status later exit
    rw [List.append_nil]
    exact ⟨ended,delivered_outputs w.received⟩
  · cases more with
    | nil =>
        rw [List.append_nil] at outputs
        exact ⟨(exits [] status later exit.symm).2,by rw [← outputs]; exact delivered_outputs w.received⟩
    | cons first rest =>
        have inside : .exited status ∈ Shuttle.outputs w.received := by
          rw [outputs,(List.cons.inj exit).1]
          exact List.mem_append_right _ List.mem_cons_self
        exact absurd inside (outputs_silent w.received status)

-- Messages are only ever added to the ones received, and none behind the loop's end.
theorem iterate_received (w : Shuttle.World) (failure : Option String) :
    (∃ more, (w.iterate failure).received = w.received ++ more) ∧ (w.ending.isSome = true → w.iterate failure = w) :=
  ⟨⟨_,Shuttle.iterate_takes w failure⟩,fun ended => by simp only [Shuttle.World.iterate,ended,if_true]⟩

theorem step_chunks (w : Shuttle.World) (move : Shuttle.Move) (chunks : Chunks w) : Chunks (w.step move) := by
  have steady := Shuttle.step_steady w move chunks.steady
  rcases steady.1 with alive | gone
  · exact alive_chunks steady alive
  -- nobody listens any more: the channel stays as it is
  · have aside : ∀ next : Shuttle.World, Shuttle.Steady next → next.events.sent = w.events.sent → next.received = w.received →
        next.ending = w.ending → Chunks next := by
      intro next kept sent received ending
      refine ⟨kept,?_,fun earlier status later split => ?_⟩
      · rw [sent,obtained,received]
        exact chunks.part
      · rw [sent] at split
        rw [ending,obtained,received]
        exact chunks.before earlier status later split
    cases move with
    | command c => refine aside _ steady ?_ ?_ ?_ <;> (simp only [Shuttle.World.step]; split <;> rfl)
    | closeCommands => exact aside _ steady rfl rfl rfl
    | message m => refine aside _ steady ?_ ?_ ?_ <;> (simp only [Shuttle.World.step]; split <;> rfl)
    | endChannel => exact aside _ steady rfl rfl rfl
    | shutdown => exact aside _ steady rfl rfl rfl
    | dropReceiver => exact aside _ steady rfl rfl rfl
    | iterate failure =>
        obtain ⟨⟨more,received⟩,ended⟩ := iterate_received w failure
        rcases chunks.steady.1 with open_ | closed
        · have still := Shuttle.rounds_alive open_ (Shuttle.iterate_rounds open_ failure)
          change (w.iterate failure).events.room = some 0 at gone
          rw [still] at gone
          cases gone
        · have same : (w.iterate failure).events = w.events := Shuttle.iterate_gone closed failure
          refine ⟨steady,?_,fun earlier status later split => ?_⟩
          · change delivered (w.iterate failure).events.sent <+: (w.iterate failure).received.filterMap _
            rw [same,received,List.filterMap_append]
            exact chunks.part.trans (List.prefix_append _ _)
          · change (w.iterate failure).events.sent = _ at split
            rw [same] at split
            obtain ⟨done,all⟩ := chunks.before earlier status later split
            change (w.iterate failure).ending.isSome = true ∧ _ = obtained (w.iterate failure)
            rw [ended done]
            exact ⟨done,all⟩

-- The moves of the loop's world keep its end and its shutdown signal.
theorem loop_keeps (w : Shuttle.World) (move : Shuttle.Move) :
    (w.ending.isSome = true → (w.step move).ending.isSome = true) ∧ (w.shutdown = true → (w.step move).shutdown = true) ∧
      ((∀ failure, move ≠ .iterate failure) → (w.step move).ending = w.ending) := by
  cases move with
  | command c => simp only [Shuttle.World.step]; split <;> exact ⟨id,id,fun _ => rfl⟩
  | closeCommands => exact ⟨id,id,fun _ => rfl⟩
  | message m => simp only [Shuttle.World.step]; split <;> exact ⟨id,id,fun _ => rfl⟩
  | endChannel => exact ⟨id,id,fun _ => rfl⟩
  | shutdown => exact ⟨id,fun _ => rfl,fun _ => rfl⟩
  | dropReceiver => exact ⟨id,id,fun _ => rfl⟩
  | iterate failure =>
      refine ⟨fun ended => ?_,fun signalled => ?_,fun other => absurd rfl (other failure)⟩
      · change (w.iterate failure).ending.isSome = true
        rw [(iterate_received w failure).2 ended]
        exact ended
      · exact (iterate_queue w failure).2.2.trans signalled

-- Both signals are out once the handle has sent them.
structure Signals (w : World) : Prop where
  loop : w.handle ≠ .held → w.shuttle.shutdown = true
  bridge : w.handle ≠ .held → w.handle ≠ .loopSignalled → w.signal = true

theorem signals_shuttle {w : World} (signals : Signals w) (move : Shuttle.Move) : Signals {w with shuttle := w.shuttle.step move} :=
  ⟨fun sent => (loop_keeps w.shuttle move).2.1 (signals.loop sent),signals.bridge⟩

theorem endBridge_signals {w : World} (signals : Signals w) : Signals w.endBridge :=
  ⟨fun sent => (loop_keeps w.shuttle .closeCommands).2.1 (signals.loop sent),signals.bridge⟩

theorem step_signals (w : World) (move : Move) (signals : Signals w) : Signals (w.step move) := by
  cases move with
  | bridge shutdownFirst =>
      simp only [World.step,World.runBridgeLoop]
      split
      · split
        · exact endBridge_signals signals
        · split
          · exact ⟨signals.loop,signals.bridge⟩
          · split
            · exact endBridge_signals signals
            · exact signals
      · rename_i c _
        split
        · exact endBridge_signals signals
        · have passed := signals_shuttle signals (.command c)
          exact ⟨passed.loop,passed.bridge⟩
      · exact signals
  | shuttle failure => exact signals_shuttle signals _
  | message m => exact signals_shuttle signals _
  | endChannel => exact signals_shuttle signals _
  | command c => simp only [World.step]; split <;> exact ⟨signals.loop,signals.bridge⟩
  | drop =>
      simp only [World.step,World.dropStep]
      split
      · exact ⟨fun _ => rfl,fun _ wrong => absurd rfl wrong⟩
      · rename_i at_
        exact ⟨fun _ => signals.loop (by rw [at_]; simp),fun _ _ => rfl⟩
      · rename_i at_
        exact ⟨fun _ => signals.loop (by rw [at_]; simp),fun _ _ => signals.bridge (by rw [at_]; simp) (by rw [at_]; simp)⟩
      · exact signals
  | closeCommands => simp only [World.step]; split <;> exact ⟨signals.loop,signals.bridge⟩
  | dropReceiver =>
      simp only [World.step]
      split
      · exact signals_shuttle signals _
      · exact signals

theorem begun_signals : Signals begun := ⟨fun wrong => absurd rfl wrong,fun wrong => absurd rfl wrong⟩

inductive Thread where
  | loop
  | bridge
  deriving DecidableEq, Repr

def Turn : Thread → Move → Prop
  | .loop,move => ∃ failure, move = .shuttle failure
  | .bridge,move => ∃ shutdownFirst, move = .bridge shutdownFirst

-- Both threads have been told to end.
structure Stopping (w : World) : Prop where
  loop : w.shuttle.shutdown = true
  bridge : w.signal = true

-- How many turns the two threads need at most: the loop one, and the bridge, which may be holding a
-- command for a loop that is no longer there, two more behind it.
def left (w : World) : Nat :=
  if w.shuttle.ending.isSome then
    match w.bridge with
    | .receiving => 2
    | .holding _ => 1
    | .finished => 0
  else if w.bridge = .finished then 1 else 3

theorem loop_turn {w : World} (stopping : Stopping w) (running : w.shuttle.ending.isSome = false) (failure : Option String) :
    left (w.step (.shuttle failure)) < left w := by
  have ended : (w.shuttle.step (.iterate failure)).ending = some .shutdownSignal := by
    simp only [Shuttle.World.step,Shuttle.World.iterate,running,stopping.loop,if_true,Shuttle.World.leave]
    rfl
  simp only [World.step,left,ended,Option.isSome_some,if_true,running,Bool.false_eq_true,if_false]
  cases w.bridge with
  | receiving => decide
  | holding c => simp
  | finished => decide

theorem bridge_turn {w : World} (stopping : Stopping w) (ended : w.shuttle.ending.isSome = true) (going : w.bridge ≠ .finished)
    (shutdownFirst : Bool) : left (w.step (.bridge shutdownFirst)) < left w := by
  have finished : left w.endBridge = 0 := by
    have still : (w.shuttle.step .closeCommands).ending.isSome = true := ended
    simp only [left,World.endBridge,still,if_true]
  simp only [World.step,World.runBridgeLoop]
  split
  · rename_i at_
    have two : left w = 2 := by simp only [left,ended,if_true,at_]
    split
    · omega
    · split
      · rename_i c rest _
        have one : left {w with commands := rest,bridge := .holding c} = 1 := by simp only [left,ended,if_true]
        omega
      · simp only [stopping.bridge,Bool.true_or,if_true]
        omega
  · rename_i c at_
    have one : left w = 1 := by simp only [left,ended,if_true,at_]
    rw [if_pos ended]
    omega
  · rename_i at_
    exact absurd at_ going

-- All but the two threads leave alone where these stand.
theorem others_left (w : World) (move : Move) (loop : ¬ Turn .loop move) (bridge : ¬ Turn .bridge move) :
    (w.step move).shuttle.ending = w.shuttle.ending ∧ (w.step move).bridge = w.bridge := by
  have passed : ∀ m : Shuttle.Move, (∀ failure, m ≠ .iterate failure) → (w.shuttle.step m).ending = w.shuttle.ending :=
    fun m other => (loop_keeps w.shuttle m).2.2 other
  cases move with
  | bridge shutdownFirst => exact absurd ⟨shutdownFirst,rfl⟩ bridge
  | shuttle failure => exact absurd ⟨failure,rfl⟩ loop
  | message m => exact ⟨passed _ (by simp),rfl⟩
  | endChannel => exact ⟨passed _ (by simp),rfl⟩
  | command c => simp only [World.step]; split <;> exact ⟨rfl,rfl⟩
  | drop =>
      simp only [World.step,World.dropStep]
      split
      · exact ⟨passed _ (by simp),rfl⟩
      · exact ⟨rfl,rfl⟩
      · exact ⟨rfl,rfl⟩
      · exact ⟨rfl,rfl⟩
  | closeCommands => simp only [World.step]; split <;> exact ⟨rfl,rfl⟩
  | dropReceiver =>
      simp only [World.step]
      split
      · exact ⟨passed _ (by simp),rfl⟩
      · exact ⟨rfl,rfl⟩

-- While the loop runs, the bridge can go round and round, but not back from its end.
theorem running_bridge {w : World} (running : w.shuttle.ending.isSome = false) (shutdownFirst : Bool) :
    (w.step (.bridge shutdownFirst)).shuttle.ending.isSome = false ∧
      (w.bridge = .finished → (w.step (.bridge shutdownFirst)).bridge = .finished) := by
  have passed : ∀ m : Shuttle.Move, (∀ failure, m ≠ .iterate failure) → (w.shuttle.step m).ending.isSome = false := by
    intro m other
    rw [(loop_keeps w.shuttle m).2.2 other]
    exact running
  simp only [World.step,World.runBridgeLoop]
  split
  · rename_i at_
    rw [at_]
    split
    · exact ⟨passed _ (by simp),fun wrong => by cases wrong⟩
    · split
      · exact ⟨running,fun wrong => by cases wrong⟩
      · split
        · exact ⟨passed _ (by simp),fun wrong => by cases wrong⟩
        · exact ⟨running,by rw [at_]; simp⟩
  · rename_i c at_
    rw [at_]
    split
    · exact ⟨passed _ (by simp),fun wrong => by cases wrong⟩
    · exact ⟨passed _ (by simp),fun wrong => by cases wrong⟩
  · exact ⟨running,id⟩

theorem left_running {w : World} (running : w.shuttle.ending.isSome = false) : left w = if w.bridge = .finished then 1 else 3 := by
  simp only [left,running,Bool.false_eq_true,if_false]

theorem left_same {w next : World} (ending : next.shuttle.ending = w.shuttle.ending) (bridge : next.bridge = w.bridge) :
    left next = left w := by
  rw [left,left,ending,bridge]

theorem finished_same {w : World} (finished : w.bridge = .finished) (shutdownFirst : Bool) : w.step (.bridge shutdownFirst) = w := by
  simp only [World.step,World.runBridgeLoop,finished]

theorem ended_same {w : World} (ended : w.shuttle.ending.isSome = true) (failure : Option String) : w.step (.shuttle failure) = w := by
  have same : w.shuttle.step (.iterate failure) = w.shuttle := (iterate_received w.shuttle failure).2 ended
  simp only [World.step,same]

theorem turn_shrinks {w : World} (stopping : Stopping w) (move : Move) : left (w.step move) ≤ left w := by
  by_cases loop : Turn .loop move
  · obtain ⟨failure,rfl⟩ := loop
    cases ended : w.shuttle.ending.isSome with
    | true => exact Nat.le_of_eq (congrArg left (ended_same ended failure))
    | false => exact Nat.le_of_lt (loop_turn stopping ended failure)
  · by_cases bridge : Turn .bridge move
    · obtain ⟨shutdownFirst,rfl⟩ := bridge
      cases ended : w.shuttle.ending.isSome with
      | true =>
          by_cases finished : w.bridge = .finished
          · exact Nat.le_of_eq (congrArg left (finished_same finished shutdownFirst))
          · exact Nat.le_of_lt (bridge_turn stopping ended finished shutdownFirst)
      | false =>
          obtain ⟨running,stays⟩ := running_bridge ended shutdownFirst
          rw [left_running ended,left_running running]
          split
          · split <;> decide
          · rename_i going
            exact Nat.le_of_eq (if_neg fun finished => going (stays finished)).symm
    · obtain ⟨ending,same⟩ := others_left w move loop bridge
      exact Nat.le_of_eq (left_same ending same)

-- The handle is past its two signals.
structure Told (w : World) : Prop where
  signals : Signals w
  loop : w.handle ≠ .held
  bridge : w.handle ≠ .loopSignalled

theorem told_stopping {w : World} (told : Told w) : Stopping w :=
  ⟨told.signals.loop told.loop,told.signals.bridge told.loop told.bridge⟩

theorem step_handle (w : World) (move : Move) (other : move ≠ .drop) : (w.step move).handle = w.handle := by
  cases move with
  | bridge shutdownFirst =>
      simp only [World.step,World.runBridgeLoop]
      split
      · split
        · rfl
        · split
          · rfl
          · split <;> rfl
      · split <;> rfl
      · rfl
  | shuttle failure => rfl
  | message m => rfl
  | endChannel => rfl
  | command c => simp only [World.step]; split <;> rfl
  | drop => exact absurd rfl other
  | closeCommands => simp only [World.step]; split <;> rfl
  | dropReceiver => simp only [World.step]; split <;> rfl

theorem step_told {w : World} (told : Told w) (move : Move) : Told (w.step move) := by
  have signals := step_signals w move told.signals
  by_cases dropping : move = .drop
  · subst dropping
    have gone : (w.step .drop).handle = .released := by
      simp only [World.step,World.dropStep]
      split
      · rename_i at_
        exact absurd at_ told.loop
      · rename_i at_
        exact absurd at_ told.bridge
      · rfl
      · assumption
    exact ⟨signals,by rw [gone]; simp,by rw [gone]; simp⟩
  · have same := step_handle w move dropping
    exact ⟨signals,same ▸ told.loop,same ▸ told.bridge⟩

-- The loop is due first; the bridge is once the loop has returned.
def Due (w : World) : Thread → Prop
  | .loop => w.shuttle.ending.isSome = false
  | .bridge => w.shuttle.ending.isSome = true ∧ w.bridge ≠ .finished

theorem due_waits {w : World} (stopping : Stopping w) (move : Move) (thread : Thread) (due : Due w thread)
    (same : left (w.step move) = left w) : Due (w.step move) thread := by
  by_cases loop : Turn .loop move
  · obtain ⟨failure,rfl⟩ := loop
    cases thread with
    | loop => exact absurd same (Nat.ne_of_lt (loop_turn stopping due failure))
    | bridge => rwa [ended_same due.1]
  · by_cases bridge : Turn .bridge move
    · obtain ⟨shutdownFirst,rfl⟩ := bridge
      cases thread with
      | loop => exact (running_bridge due shutdownFirst).1
      | bridge => exact absurd same (Nat.ne_of_lt (bridge_turn stopping due.1 due.2 shutdownFirst))
    · obtain ⟨ending,kept⟩ := others_left w move loop bridge
      cases thread with
      | loop =>
          rw [Due,ending]
          exact due
      | bridge =>
          rw [Due,ending,kept]
          exact due

theorem threads_drain : FairRounds.Drains World.step Told (fun _ => True) [Thread.loop,Thread.bridge] Turn Due left where
  keeps := fun _ move told _ => step_told told move
  shrinks := fun _ move told _ => turn_shrinks (told_stopping told) move
  helps := by
    intro w _ busy
    cases ended : w.shuttle.ending.isSome with
    | false => exact ⟨.loop,by simp,ended⟩
    | true =>
        refine ⟨.bridge,by simp,ended,fun finished => ?_⟩
        rw [left,if_pos ended,finished] at busy
        cases busy
  works := by
    intro w move thread told due turn
    cases thread with
    | loop =>
        obtain ⟨failure,rfl⟩ := turn
        exact loop_turn (told_stopping told) due failure
    | bridge =>
        obtain ⟨shutdownFirst,rfl⟩ := turn
        exact bridge_turn (told_stopping told) due.1 due.2 shutdownFirst
  waits := fun _ move thread told _ due same => due_waits (told_stopping told) move thread due same

-- Both threads have returned.
structure Joined (w : World) : Prop where
  loop : w.shuttle.ending.isSome = true
  bridge : w.bridge = .finished

end Perga.SshSession

import Perga.Shuttle

namespace Perga

def ChannelMsg.bytes? : ChannelMsg → Option (List UInt8)
  | .data bytes => some bytes
  | .extendedData bytes => some bytes
  | _ => none

def ChannelMsg.ends : ChannelMsg → Bool
  | .eof => true
  | .close => true
  | _ => false

namespace Shuttle

def outputs (messages : List ChannelMsg) : List TransportEvent :=
  (messages.filterMap ChannelMsg.bytes?).map .output

-- What stands behind the outputs once the loop has ended so.
inductive Closes : Option Ending → List TransportEvent → Prop where
  | running : Closes none []
  | remoteEnded (status : ExitStatus) : Closes (some .remoteEnded) [.exited status]
  | channelGone (status : ExitStatus) : Closes (some .channelGone) [.exited status]
  | writeFailed (message : String) : Closes (some .writeFailed) [.error (.write message)]
  | shutdownSignal : Closes (some .shutdownSignal) []
  | shutdownCommand : Closes (some .shutdownCommand) []
  | commandsGone : Closes (some .commandsGone) []

structure Ordered (w : World) : Prop where
  sent : w.events.room = none → ∃ tail, w.events.sent = outputs w.received ++ tail ∧ Closes w.ending tail
  remote : w.ending = some .remoteEnded ↔ ∃ m ∈ w.received, m.ends = true

def arrives (w : World) : Move → List ChannelMsg
  | .message m => if w.channelOpen then [m] else []
  | _ => []

-- The round turns to the remote: no signal, no command, and a command may still come.
def listens (w : World) : Bool := !w.shutdown && w.commands.isEmpty && w.commandsOpen

def takes (w : World) : Move → List ChannelMsg
  | .iterate _ => if w.ending.isNone && listens w then w.messages.take 1 else []
  | _ => []

-- What a running loop's round finds when it ends the loop so, one condition for each way out.
def Ends (w : World) (failure : Option String) : Ending → Prop
  | .shutdownSignal => w.shutdown = true
  | .shutdownCommand => w.shutdown = false ∧ ∃ rest, w.commands = .shutdown :: rest
  | .writeFailed => w.shutdown = false ∧ failure ≠ none ∧ ∃ bytes rest, w.commands = .write bytes :: rest
  | .commandsGone => w.shutdown = false ∧ w.commands = [] ∧ w.commandsOpen = false
  | .remoteEnded => listens w = true ∧ ∃ m rest, w.messages = m :: rest ∧ m.ends = true
  | .channelGone => listens w = true ∧ w.messages = [] ∧ w.channelOpen = false
  | .consumerGone => listens w = true ∧ ∃ m rest, w.messages = m :: rest ∧ m.bytes?.isSome = true ∧ w.events.room = some 0

def Leaves (w : World) (move : Move) (ending : Ending) : Prop :=
  w.ending = none ∧ ∃ failure, move = .iterate failure ∧ Ends w failure ending

-- No message is lost, doubled or moved, a round that turns to the remote takes the first, a
-- loop that has ended emits nothing, and it ends so exactly where a round finds the
-- condition of that way out.
structure Keeps (w : World) (move : Move) : Prop where
  messages : (w.step move).received ++ (w.step move).messages = w.received ++ w.messages ++ arrives w move
  taken : (w.step move).received = w.received ++ takes w move
  silent : w.ending.isSome = true → (w.step move).events.sent = w.events.sent
  ended : ∀ ending, (w.step move).ending = some ending ↔ w.ending = some ending ∨ Leaves w move ending

def pendingAfter (pending : Option ExitStatus) : ChannelMsg → Option ExitStatus
  | .exitStatus status => some ⟨if status.toNat < 2147483648 then some status.toNat else none,none⟩
  | .exitSignal signalName => some ⟨none,sigToNumber signalName⟩
  | .eof => none
  | .close => none
  | _ => pending

def emitted (pending : Option ExitStatus) : ChannelMsg → List TransportEvent
  | .data bytes => [.output bytes]
  | .extendedData bytes => [.output bytes]
  | .eof => [.exited (pending.getD ⟨none,none⟩)]
  | .close => [.exited (pending.getD ⟨none,none⟩)]
  | _ => []

theorem outputs_append (messages : List ChannelMsg) (m : ChannelMsg) :
    outputs (messages ++ [m]) = outputs messages ++ m.bytes?.toList.map .output := by
  simp only [outputs,List.filterMap_append,List.map_append]
  cases m <;> rfl

theorem emit_alive {w : World} (alive : w.events.room = none) (event : TransportEvent) :
    w.emit event = ({w with events := ⟨w.events.sent ++ [event],none⟩},true) := by
  simp only [World.emit,Outlet.send,alive]

theorem handleChannelMsg_alive {w : World} (alive : w.events.room = none) (m : ChannelMsg) :
    w.handleChannelMsg m =
      {w with
        pendingExit := pendingAfter w.pendingExit m
        events := ⟨w.events.sent ++ emitted w.pendingExit m,none⟩
        ending := if m.ends then some .remoteEnded else w.ending} := by
  have same : w.events = ⟨w.events.sent ++ [],none⟩ := by rw [List.append_nil,← alive]
  cases m with
  | data bytes => simp only [World.handleChannelMsg,World.handleOutput,emit_alive alive]; rfl
  | extendedData bytes => simp only [World.handleChannelMsg,World.handleOutput,emit_alive alive]; rfl
  | exitStatus status => simp only [World.handleChannelMsg,emitted,← same]; rfl
  | exitSignal signalName => simp only [World.handleChannelMsg,emitted,← same]; rfl
  | eof => simp only [World.handleChannelMsg,World.emit,Outlet.send,alive,World.leave]; rfl
  | close => simp only [World.handleChannelMsg,World.emit,Outlet.send,alive,World.leave]; rfl
  | other => simp only [World.handleChannelMsg,emitted,← same]; rfl

-- What one round does to a running loop whose consumer is there, reason included.
inductive Rounds (w : World) (failure : Option String) : World → Prop where
  | ended (already : w.ending.isSome = true) : Rounds w failure w
  | shutdownSignal (running : w.ending = none) (signalled : w.shutdown = true) : Rounds w failure (w.leave .shutdownSignal)
  | commandsGone (running : w.ending = none) (gone : w.commandsOpen = false) : Rounds w failure (w.leave .commandsGone)
  | shutdownCommand (rest : List TransportCommand) (running : w.ending = none) (next : w.commands = .shutdown :: rest) :
      Rounds w failure ({w with commands := rest}.leave .shutdownCommand)
  | writeFailed (bytes : List UInt8) (rest : List TransportCommand) (e : String) (running : w.ending = none)
      (next : w.commands = .write bytes :: rest) (failed : failure = some e) :
      Rounds w failure
        {w with
          commands := rest
          events := ⟨w.events.sent ++ [.error (.write ("ssh channel write: " ++ e))],none⟩
          ending := some .writeFailed}
  | commanded (c : TransportCommand) (rest : List TransportCommand) (running : w.ending = none) (next : w.commands = c :: rest) :
      Rounds w failure {w with commands := rest}
  | message (m : ChannelMsg) (rest : List ChannelMsg) (running : w.ending = none) (idle : w.commands = [])
      (next : w.messages = m :: rest) :
      Rounds w failure
        {w with
          messages := rest
          received := w.received ++ [m]
          pendingExit := pendingAfter w.pendingExit m
          events := ⟨w.events.sent ++ emitted w.pendingExit m,none⟩
          ending := if m.ends then some .remoteEnded else none}
  | channelGone (running : w.ending = none) (idle : w.commands = []) (empty : w.messages = []) (gone : w.channelOpen = false) :
      Rounds w failure
        {w with
          events := ⟨w.events.sent ++ [.exited (w.pendingExit.getD ⟨none,none⟩)],none⟩
          ending := some .channelGone}
  | waits (running : w.ending = none) (idle : w.commands = []) (empty : w.messages = []) (open_ : w.channelOpen = true) :
      Rounds w failure w

theorem iterate_rounds {w : World} (alive : w.events.room = none) (failure : Option String) :
    Rounds w failure (w.iterate failure) := by
  obtain ⟨pending,commands,commandsOpen,messages,channelOpen,shutdown,⟨sent,room⟩,ending,received⟩ := w
  have alive : room = none := alive
  subst alive
  cases ending with
  | some ending => exact .ended rfl
  | none =>
      cases shutdown with
      | true => exact .shutdownSignal rfl rfl
      | false =>
          cases commands with
          | cons c rest =>
              cases c with
              | write bytes =>
                  cases failure with
                  | none => exact .commanded (.write bytes) rest rfl rfl
                  | some e => exact .writeFailed bytes rest e rfl rfl rfl
              | resize size => exact .commanded (.resize size) rest rfl rfl
              | shutdown => exact .shutdownCommand rest rfl rfl
          | nil =>
              cases commandsOpen with
              | false => exact .commandsGone rfl rfl
              | true =>
                  cases messages with
                  | cons m rest =>
                      have handled := handleChannelMsg_alive
                        (w := ⟨pending,[],true,rest,channelOpen,false,⟨sent,none⟩,none,received ++ [m]⟩) rfl m
                      change Rounds _ failure (World.handleChannelMsg ⟨pending,[],true,rest,channelOpen,false,⟨sent,none⟩,none,received ++ [m]⟩ m)
                      rw [handled]
                      exact .message m rest rfl rfl rfl
                  | nil =>
                      cases channelOpen with
                      | true => exact .waits rfl rfl rfl rfl
                      | false => exact .channelGone rfl rfl rfl rfl

theorem emit_gone {w : World} (gone : w.events.room = some 0) (event : TransportEvent) :
    w.emit event = (w,false) := by
  obtain ⟨pending,commands,commandsOpen,messages,channelOpen,shutdown,⟨sent,room⟩,ending,received⟩ := w
  have gone : room = some 0 := gone
  subst gone
  rfl

theorem iterate_gone {w : World} (gone : w.events.room = some 0) (failure : Option String) :
    (w.iterate failure).events = w.events := by
  have command : ∀ (w : World) (c : TransportCommand), w.events.room = some 0 → (w.handleCommand failure c).events = w.events := by
    intro w c gone
    cases c with
    | write bytes =>
        cases failure with
        | none => rfl
        | some e => simp only [World.handleCommand,emit_gone gone,World.leave]
    | resize size => rfl
    | shutdown => rfl
  have message : ∀ (w : World) (m : ChannelMsg), w.events.room = some 0 → (w.handleChannelMsg m).events = w.events := by
    intro w m gone
    cases m with
    | data bytes => simp only [World.handleChannelMsg,World.handleOutput,emit_gone gone,World.leave]
    | extendedData bytes => simp only [World.handleChannelMsg,World.handleOutput,emit_gone gone,World.leave]
    | eof => simp only [World.handleChannelMsg,World.leave]; rw [emit_gone (w := {w with pendingExit := none}) gone]
    | close => simp only [World.handleChannelMsg,World.leave]; rw [emit_gone (w := {w with pendingExit := none}) gone]
    | exitStatus status => rfl
    | exitSignal signalName => rfl
    | other => rfl
  unfold World.iterate
  split
  · rfl
  · split
    · rfl
    · split
      · exact command _ _ gone
      · split
        · rfl
        · split
          · exact message _ _ gone
          · split
            · rfl
            · simp only [emit_gone gone,World.leave]

theorem closes_emitted (pending : Option ExitStatus) (m : ChannelMsg) :
    ∃ tail, emitted pending m = m.bytes?.toList.map .output ++ tail ∧
      Closes (if m.ends then some .remoteEnded else none) tail := by
  cases m with
  | data bytes => exact ⟨[],rfl,.running⟩
  | extendedData bytes => exact ⟨[],rfl,.running⟩
  | exitStatus status => exact ⟨[],rfl,.running⟩
  | exitSignal signalName => exact ⟨[],rfl,.running⟩
  | eof => exact ⟨_,rfl,.remoteEnded _⟩
  | close => exact ⟨_,rfl,.remoteEnded _⟩
  | other => exact ⟨[],rfl,.running⟩

-- Before its end the loop has sent the outputs and nothing else.
theorem running_sent {w : World} {tail : List TransportEvent} (running : w.ending = none)
    (sent : w.events.sent = outputs w.received ++ tail) (closes : Closes w.ending tail) :
    w.events.sent = outputs w.received := by
  rw [running] at closes
  cases closes
  rw [sent,List.append_nil]

theorem rounds_sent {w next : World} (alive : w.events.room = none) (ordered : Ordered w)
    {failure : Option String} (round : Rounds w failure next) :
    ∃ tail, next.events.sent = outputs next.received ++ tail ∧ Closes next.ending tail := by
  obtain ⟨tail,sent,closes⟩ := ordered.sent alive
  -- Every round but the first and the last finds the loop running and changes one thing.
  have ends : ∀ (next : World) (ending : Ending) (tail : List TransportEvent), w.ending = none → next.received = w.received →
      next.ending = some ending → next.events.sent = w.events.sent ++ tail → Closes (some ending) tail →
      ∃ tail, next.events.sent = outputs next.received ++ tail ∧ Closes next.ending tail := by
    intro next ending tail running received ended grown closed
    refine ⟨tail,?_,ended ▸ closed⟩
    rw [grown,received,running_sent running sent closes]
  cases round with
  | ended already => exact ⟨tail,sent,closes⟩
  | shutdownSignal running signalled => exact ends _ .shutdownSignal [] running rfl rfl (List.append_nil _).symm .shutdownSignal
  | commandsGone running gone => exact ends _ .commandsGone [] running rfl rfl (List.append_nil _).symm .commandsGone
  | shutdownCommand rest running next => exact ends _ .shutdownCommand [] running rfl rfl (List.append_nil _).symm .shutdownCommand
  | writeFailed bytes rest e running next failed => exact ends _ .writeFailed _ running rfl rfl rfl (.writeFailed _)
  | commanded c rest running next => exact ⟨tail,sent,closes⟩
  | message m rest running idle next =>
      obtain ⟨closing,found,closed⟩ := closes_emitted w.pendingExit m
      refine ⟨closing,?_,closed⟩
      change w.events.sent ++ emitted w.pendingExit m = outputs (w.received ++ [m]) ++ closing
      rw [running_sent running sent closes,found,outputs_append,List.append_assoc]
  | channelGone running idle empty gone => exact ends _ .channelGone _ running rfl rfl rfl (.channelGone _)
  | waits running idle empty open_ => exact ⟨tail,sent,closes⟩

theorem handleCommand_keeps (w : World) (failure : Option String) (c : TransportCommand) :
    (w.handleCommand failure c).received = w.received ∧ (w.handleCommand failure c).messages = w.messages := by
  cases c with
  | write bytes => cases failure <;> exact ⟨rfl,rfl⟩
  | resize size => exact ⟨rfl,rfl⟩
  | shutdown => exact ⟨rfl,rfl⟩

theorem handleChannelMsg_keeps (w : World) (m : ChannelMsg) :
    (w.handleChannelMsg m).received = w.received ∧ (w.handleChannelMsg m).messages = w.messages := by
  have output : ∀ bytes, (w.handleOutput bytes).received = w.received ∧ (w.handleOutput bytes).messages = w.messages := by
    intro bytes
    unfold World.handleOutput
    split
    · rename_i sent; rw [← (Prod.mk.inj sent).1]; exact ⟨rfl,rfl⟩
    · rename_i sent; rw [← (Prod.mk.inj sent).1]; exact ⟨rfl,rfl⟩
  cases m with
  | data bytes => exact output bytes
  | extendedData bytes => exact output bytes
  | exitStatus status => exact ⟨rfl,rfl⟩
  | exitSignal signalName => exact ⟨rfl,rfl⟩
  | eof => exact ⟨rfl,rfl⟩
  | close => exact ⟨rfl,rfl⟩
  | other => exact ⟨rfl,rfl⟩

theorem iterate_keeps (w : World) (failure : Option String) :
    (w.iterate failure).received ++ (w.iterate failure).messages = w.received ++ w.messages := by
  unfold World.iterate
  split
  · rfl
  · split
    · rfl
    · split
      · rename_i c rest next
        obtain ⟨received,messages⟩ := handleCommand_keeps {w with commands := rest} failure c
        rw [received,messages]
      · split
        · rfl
        · split
          · rename_i m rest next
            obtain ⟨received,messages⟩ := handleChannelMsg_keeps {w with messages := rest,received := w.received ++ [m]} m
            rw [received,messages,next,List.append_assoc]
            rfl
          · split <;> rfl

theorem iterate_takes (w : World) (failure : Option String) :
    (w.iterate failure).received = w.received ++ takes w (.iterate failure) := by
  have none_taken : ∀ next : World, next.received = w.received → takes w (.iterate failure) = [] →
      next.received = w.received ++ takes w (.iterate failure) := by
    intro next kept nothing
    rw [kept,nothing,List.append_nil]
  unfold World.iterate
  split
  · rename_i ended
    exact none_taken _ rfl (by simp [takes,Option.isNone_eq_false_iff.mpr ended])
  · rename_i active
    have running : w.ending = none := Option.not_isSome_iff_eq_none.mp active
    split
    · rename_i signalled
      exact none_taken _ rfl (by simp [takes,listens,signalled])
    · rename_i quiet
      split
      · rename_i c rest next
        exact none_taken _ (handleCommand_keeps {w with commands := rest} failure c).1 (by simp [takes,listens,next])
      · rename_i idle
        split
        · rename_i gone
          exact none_taken _ rfl (by simpa [takes,listens,running,quiet,idle] using fun open_ => absurd gone (by simp [open_]))
        · rename_i open_
          split
          · rename_i m rest next
            rw [(handleChannelMsg_keeps {w with messages := rest,received := w.received ++ [m]} m).1]
            have open_ : w.commandsOpen = true := by simpa using open_
            simp [takes,listens,running,quiet,idle,open_,next]
          · rename_i empty
            split
            · exact none_taken _ rfl (by simp [takes,empty])
            · exact none_taken _ rfl (by simp [takes,empty])

-- A message ends the loop as the remote's end or, where its bytes reach nobody, as a lost consumer.
theorem handleChannelMsg_ending {w : World} (running : w.ending = none) (m : ChannelMsg) (ending : Ending) :
    (w.handleChannelMsg m).ending = some ending ↔ (ending = .remoteEnded ∧ m.ends = true) ∨
      (ending = .consumerGone ∧ m.bytes?.isSome = true ∧ w.events.room = some 0) := by
  obtain ⟨pending,commands,commandsOpen,messages,channelOpen,shutdown,⟨sent,room⟩,last,received⟩ := w
  have running : last = none := running
  subst running
  have output : ∀ bytes, (World.handleOutput ⟨pending,commands,commandsOpen,messages,channelOpen,shutdown,⟨sent,room⟩,none,received⟩
      bytes).ending = some ending ↔ ending = .consumerGone ∧ room = some 0 := by
    intro bytes
    cases room with
    | none => simp [World.handleOutput,World.emit,Outlet.send]
    | some n => cases n <;> simp [World.handleOutput,World.emit,Outlet.send,World.leave,eq_comm]
  cases m with
  | data bytes => simpa [World.handleChannelMsg,ChannelMsg.ends,ChannelMsg.bytes?] using output bytes
  | extendedData bytes => simpa [World.handleChannelMsg,ChannelMsg.ends,ChannelMsg.bytes?] using output bytes
  | exitStatus status => simp [World.handleChannelMsg,ChannelMsg.ends,ChannelMsg.bytes?]
  | exitSignal signalName => simp [World.handleChannelMsg,ChannelMsg.ends,ChannelMsg.bytes?]
  | eof => simp [World.handleChannelMsg,World.leave,ChannelMsg.ends,ChannelMsg.bytes?,eq_comm]
  | close => simp [World.handleChannelMsg,World.leave,ChannelMsg.ends,ChannelMsg.bytes?,eq_comm]
  | other => simp [World.handleChannelMsg,ChannelMsg.ends,ChannelMsg.bytes?]

-- Whatever way out a round takes, it has found that way's condition.
theorem iterate_finds {w : World} (running : w.ending = none) {failure : Option String} {ending : Ending}
    (ended : (w.iterate failure).ending = some ending) : Ends w failure ending := by
  unfold World.iterate at ended
  rw [if_neg (by simp [running])] at ended
  split at ended
  · rename_i signalled
    cases ended
    exact signalled
  · rename_i quiet
    have quiet : w.shutdown = false := Bool.eq_false_iff.mpr quiet
    split at ended
    · rename_i c rest next
      cases c with
      | write bytes =>
          cases failure with
          | none => cases running.symm.trans ended
          | some e =>
              cases ended
              exact ⟨quiet,Option.some_ne_none e,bytes,rest,next⟩
      | resize size => cases running.symm.trans ended
      | shutdown =>
          cases ended
          exact ⟨quiet,rest,next⟩
    · rename_i idle
      split at ended
      · rename_i gone
        cases ended
        exact ⟨quiet,idle,by simpa using gone⟩
      · rename_i open_
        have turned : listens w = true := by simpa [listens,quiet,idle] using open_
        split at ended
        · rename_i m rest next
          have running : ({w with messages := rest,received := w.received ++ [m]} : World).ending = none := running
          rcases (handleChannelMsg_ending running m ending).mp ended with ⟨rfl,last⟩ | ⟨rfl,bytes,gone⟩
          · exact ⟨turned,m,rest,next,last⟩
          · exact ⟨turned,m,rest,next,bytes,gone⟩
        · rename_i empty
          split at ended
          · cases running.symm.trans ended
          · rename_i closed
            cases ended
            exact ⟨turned,empty,Bool.eq_false_iff.mpr closed⟩

theorem listens_parts {w : World} : listens w = true ↔ w.shutdown = false ∧ w.commands = [] ∧ w.commandsOpen = true := by
  simp [listens,and_assoc]

theorem iterate_message {w : World} (running : w.ending = none) (turned : listens w = true) (failure : Option String)
    {m : ChannelMsg} {rest : List ChannelMsg} (next : w.messages = m :: rest) :
    w.iterate failure = {w with messages := rest,received := w.received ++ [m]}.handleChannelMsg m := by
  obtain ⟨quiet,idle,open_⟩ := listens_parts.mp turned
  simp [World.iterate,running,quiet,idle,open_,next]

theorem iterate_leaves {w : World} (running : w.ending = none) {failure : Option String} {ending : Ending}
    (ends : Ends w failure ending) : (w.iterate failure).ending = some ending := by
  cases ending with
  | shutdownSignal =>
      have signalled : w.shutdown = true := ends
      simp [World.iterate,running,signalled,World.leave]
  | commandsGone =>
      obtain ⟨quiet,idle,gone⟩ := ends
      simp [World.iterate,running,quiet,idle,gone,World.leave]
  | shutdownCommand =>
      obtain ⟨quiet,rest,next⟩ := ends
      simp [World.iterate,running,quiet,next,World.handleCommand,World.leave]
  | writeFailed =>
      obtain ⟨quiet,failed,bytes,rest,next⟩ := ends
      obtain ⟨e,rfl⟩ := Option.ne_none_iff_exists'.mp failed
      simp [World.iterate,running,quiet,next,World.handleCommand,World.leave]
  | remoteEnded =>
      obtain ⟨turned,m,rest,next,last⟩ := ends
      rw [iterate_message running turned failure next]
      exact (handleChannelMsg_ending (w := {w with messages := rest,received := w.received ++ [m]}) running m _).mpr
        (.inl ⟨rfl,last⟩)
  | channelGone =>
      obtain ⟨turned,empty,closed⟩ := ends
      obtain ⟨quiet,idle,open_⟩ := listens_parts.mp turned
      simp [World.iterate,running,quiet,idle,open_,empty,closed,World.leave]
  | consumerGone =>
      obtain ⟨turned,m,rest,next,bytes,gone⟩ := ends
      rw [iterate_message running turned failure next]
      exact (handleChannelMsg_ending (w := {w with messages := rest,received := w.received ++ [m]}) running m _).mpr
        (.inr ⟨rfl,bytes,gone⟩)

theorem iterate_ended (w : World) (failure : Option String) (ending : Ending) :
    (w.iterate failure).ending = some ending ↔ w.ending = some ending ∨ Leaves w (.iterate failure) ending := by
  cases last : w.ending with
  | some earlier =>
      have still : w.iterate failure = w := by simp [World.iterate,last]
      simp [still,last,Leaves]
  | none =>
      constructor
      · intro ended
        exact .inr ⟨last,failure,rfl,iterate_finds last ended⟩
      · intro either
        rcases either with impossible | ⟨_,_,same,ends⟩
        · cases impossible
        · cases same
          exact iterate_leaves last ends

theorem step_keeps (w : World) (move : Move) : Keeps w move := by
  have quiet : arrives w move = [] → (∀ failure, move ≠ .iterate failure) → (w.step move).received = w.received →
      (w.step move).messages = w.messages → (w.step move).events.sent = w.events.sent → (w.step move).ending = w.ending →
      Keeps w move := by
    intro none_arrives other received messages sent ending
    have none_taken : takes w move = [] := by
      cases move with
      | iterate failure => exact absurd rfl (other failure)
      | _ => rfl
    refine ⟨by rw [none_arrives,received,messages,List.append_nil],by rw [none_taken,received,List.append_nil],fun _ => sent,?_⟩
    intro last
    rw [ending]
    exact ⟨.inl,fun either => either.resolve_right fun leaves => leaves.2.elim fun failure found => other failure found.1⟩
  cases move with
  | command c => apply quiet rfl (fun _ same => by cases same) <;> simp only [World.step] <;> split <;> rfl
  | closeCommands => exact quiet rfl (fun _ same => by cases same) rfl rfl rfl rfl
  | message m =>
      by_cases open_ : w.channelOpen = true
      · have after : w.step (.message m) = {w with messages := w.messages ++ [m]} := if_pos open_
        have arrival : arrives w (.message m) = [m] := if_pos open_
        refine ⟨?_,?_,fun _ => by rw [after],fun last => ?_⟩
        · rw [after,arrival,List.append_assoc]
        · rw [after]
          exact (List.append_nil _).symm
        · rw [after]
          exact ⟨.inl,fun either => either.resolve_right fun leaves => leaves.2.elim fun _ found => by cases found.1⟩
      · have after : w.step (.message m) = w := if_neg open_
        exact quiet (if_neg open_) (fun _ same => by cases same) (by rw [after]) (by rw [after]) (by rw [after]) (by rw [after])
  | endChannel => exact quiet rfl (fun _ same => by cases same) rfl rfl rfl rfl
  | shutdown => exact quiet rfl (fun _ same => by cases same) rfl rfl rfl rfl
  | dropReceiver => exact quiet rfl (fun _ same => by cases same) rfl rfl rfl rfl
  | iterate failure =>
      refine ⟨(iterate_keeps w failure).trans (List.append_nil _).symm,iterate_takes w failure,fun ended => ?_,iterate_ended w failure⟩
      simp only [World.step,World.iterate,ended,if_true]

theorem leaves_takes (w : World) (move : Move) : Leaves w move .remoteEnded ↔ ∃ m ∈ takes w move, m.ends = true := by
  constructor
  · intro given
    obtain ⟨running,failure,rfl,turned,m,rest,next,last⟩ := given
    exact ⟨m,by simp [takes,running,turned,next],last⟩
  · intro given
    obtain ⟨m,member,last⟩ := given
    cases move with
    | iterate failure =>
        simp only [takes] at member
        split at member
        · rename_i active
          rw [Bool.and_eq_true,Option.isNone_iff_eq_none] at active
          cases next : w.messages with
          | nil => rw [next] at member; cases member
          | cons first rest =>
              rw [next,List.take_succ_cons,List.take_zero,List.mem_singleton] at member
              exact ⟨active.1,failure,rfl,active.2,first,rest,next,member ▸ last⟩
        · cases member
    | _ => cases member

def Steady (w : World) : Prop := (w.events.room = none ∨ w.events.room = some 0) ∧ Ordered w

theorem rounds_alive {w next : World} (alive : w.events.room = none) {failure : Option String} (round : Rounds w failure next) :
    next.events.room = none := by
  cases round <;> first | exact alive | rfl

theorem step_remote (w : World) (move : Move) (ordered : Ordered w) :
    (w.step move).ending = some .remoteEnded ↔ ∃ m ∈ (w.step move).received, m.ends = true := by
  have keeps := step_keeps w move
  rw [keeps.ended,keeps.taken,ordered.remote,leaves_takes]
  simp only [List.mem_append,or_and_right,exists_or]

theorem step_steady (w : World) (move : Move) (steady : Steady w) : Steady (w.step move) := by
  obtain ⟨room,ordered⟩ := steady
  have remote := step_remote w move ordered
  have aside : ∀ next : World, next = w.step move → next.events = w.events → next.received = w.received → next.ending = w.ending →
      Steady (w.step move) := by
    intro next same events received ending
    subst same
    refine ⟨by rw [events]; exact room,fun alive => ?_,remote⟩
    rw [events,received,ending]
    exact ordered.sent (events ▸ alive)
  cases move with
  | command c => apply aside _ rfl <;> simp only [World.step] <;> split <;> rfl
  | closeCommands => exact aside _ rfl rfl rfl rfl
  | message m => apply aside _ rfl <;> simp only [World.step] <;> split <;> rfl
  | endChannel => exact aside _ rfl rfl rfl rfl
  | shutdown => exact aside _ rfl rfl rfl rfl
  | dropReceiver => exact ⟨.inr rfl,fun alive => (by cases alive),remote⟩
  | iterate failure =>
      rcases room with alive | gone
      · have round := iterate_rounds alive failure
        exact ⟨.inl (rounds_alive alive round),fun _ => rounds_sent alive ordered round,remote⟩
      · have same : (w.step (.iterate failure)).events = w.events := iterate_gone gone failure
        refine ⟨.inr (same ▸ gone),fun alive => ?_,remote⟩
        rw [same,gone] at alive
        cases alive

theorem begun_steady : Steady begun :=
  ⟨.inl rfl,fun _ => ⟨[],rfl,.running⟩,⟨fun same => (by cases same),fun found => found.elim fun _ inside => (by cases inside.1)⟩⟩

-- In every interleaving: while the consumer is there, the outputs that were received, in
-- their order, then what the ending calls for, and nothing behind it. A taken `Eof` or
-- `Close` ends the loop as the remote's end, and each way out is taken on its condition alone.
theorem events_ordered (moves : List Move) :
    StepRuns.Throughout World.step Ordered begun moves ∧ StepRuns.Along World.step Keeps begun moves := by
  constructor
  · exact StepRuns.run_throughout Steady moves begun_steady step_steady fun _ steady => steady.2
  · exact StepRuns.run_along (fun _ => True) moves trivial fun w move _ => ⟨step_keeps w move,trivial⟩

end Shuttle
end Perga

import Perga.ShuttleEvents

namespace Perga.Shuttle

-- What an exit message says, the number of a signal being what the code can name.
def derived : ChannelMsg → Option ExitStatus
  | .exitStatus status => some (.fromCode status.toNat)
  | .exitSignal signalName => some ⟨none,sigToNumber signalName⟩
  | _ => none

def reported (messages : List ChannelMsg) : ExitStatus := (messages.filterMap derived).head?.getD ⟨none,none⟩

def status? : TransportEvent → Option ExitStatus
  | .exited status => some status
  | _ => none

def exits (events : List TransportEvent) : List ExitStatus := events.filterMap status?

def arrived (w : World) : List ChannelMsg := w.received ++ w.messages

-- A run without a shutdown from above and without a failed write.
def Calm : Move → Prop
  | .command c => c ≠ .shutdown
  | .closeCommands => False
  | .message _ => True
  | .endChannel => True
  | .shutdown => False
  | .dropReceiver => False
  | .iterate failure => failure = none

-- The messages that a server may send, all of them.
structure Conversation (w : World) : Prop where
  once : ((arrived w).filterMap derived).length ≤ 1
  bounded : ∀ status, ChannelMsg.exitStatus status ∈ arrived w → status.toNat < 2147483648
  eofOnce : (arrived w).count .eof ≤ 1
  closeLast : ∀ before after, arrived w = before ++ .close :: after → after = []
  ended : ChannelMsg.close ∈ arrived w ∨ w.channelOpen = false

def ExitFirst (messages : List ChannelMsg) : Prop :=
  ∀ before after, messages = before ++ .eof :: after → after.filterMap derived = []

-- The status that the loop settles on when it takes these messages one after another.
def settled (pending : Option ExitStatus) : List ChannelMsg → ExitStatus
  | [] => pending.getD ⟨none,none⟩
  | m :: rest => if m.ends then pending.getD ⟨none,none⟩ else settled (pendingAfter pending m) rest

theorem pendingAfter_derived (pending : Option ExitStatus) (m : ChannelMsg) (other : m.ends = false)
    (bounded : ∀ status, m = .exitStatus status → status.toNat < 2147483648) :
    pendingAfter pending m = (derived m).or pending := by
  cases m with
  | exitStatus status => exact congrArg (fun code => some (ExitStatus.mk code none)) (if_pos (bounded status rfl))
  | data bytes => rfl
  | extendedData bytes => rfl
  | exitSignal signalName => rfl
  | eof => cases other
  | close => cases other
  | other => rfl

theorem settled_last (messages : List ChannelMsg) (pending : Option ExitStatus)
    (bounded : ∀ status, ChannelMsg.exitStatus status ∈ messages → status.toNat < 2147483648)
    (closeLast : ∀ before after, messages = before ++ .close :: after → after = []) (first : ExitFirst messages) :
    settled pending messages = ((messages.filterMap derived).getLast?.or pending).getD ⟨none,none⟩ := by
  induction messages generalizing pending with
  | nil => rfl
  | cons m rest ih =>
      have later := fun pending => ih pending (fun status member => bounded status (List.mem_cons_of_mem m member))
        (fun before after split => closeLast (m :: before) after (by rw [split,List.cons_append]))
        (fun before after split => first (m :: before) after (by rw [split,List.cons_append]))
      rw [settled]
      cases ends : m.ends with
      | true =>
          have silent : derived m = none ∧ rest.filterMap derived = [] := by
            cases m with
            | eof => exact ⟨rfl,first [] rest rfl⟩
            | close => exact ⟨rfl,by rw [closeLast [] rest rfl]; rfl⟩
            | data bytes => cases ends
            | extendedData bytes => cases ends
            | exitStatus status => cases ends
            | exitSignal signalName => cases ends
            | other => cases ends
          rw [List.filterMap_cons,silent.1,silent.2]
          rfl
      | false =>
          simp only [Bool.false_eq_true,if_false]
          rw [later,pendingAfter_derived pending m ends fun status same => bounded status (same ▸ List.mem_cons_self),
            List.filterMap_cons]
          cases found : derived m with
          | none => rfl
          | some status =>
              rw [List.getLast?_cons]
              cases (rest.filterMap derived).getLast? <;> rfl

theorem settled_reported (messages : List ChannelMsg) (once : (messages.filterMap derived).length ≤ 1)
    (bounded : ∀ status, ChannelMsg.exitStatus status ∈ messages → status.toNat < 2147483648)
    (closeLast : ∀ before after, messages = before ++ .close :: after → after = []) (first : ExitFirst messages) :
    settled none messages = reported messages := by
  rw [settled_last messages none bounded closeLast first,reported]
  generalize messages.filterMap derived = found at once
  match found,once with
  | [],_ => rfl
  | [status],_ => rfl

-- Only a signal outside the table leaves an exit message without a number.
theorem derived_blank {m : ChannelMsg} (blank : derived m = some ⟨none,none⟩) : ∃ name, m = .exitSignal (.custom name) := by
  cases m with
  | exitSignal signalName =>
      cases signalName with
      | custom name => exact ⟨name,rfl⟩
      | _ => cases blank
  | _ => cases blank

theorem reported_blank {messages : List ChannelMsg} (blank : reported messages = ⟨none,none⟩) :
    messages.filterMap derived = [] ∨ ∃ name, ChannelMsg.exitSignal (.custom name) ∈ messages := by
  cases found : messages.filterMap derived with
  | nil => exact .inl rfl
  | cons status rest =>
      rw [reported,found] at blank
      have blank : status = ⟨none,none⟩ := blank
      have member : status ∈ messages.filterMap derived := found ▸ List.mem_cons_self
      obtain ⟨m,sent,named⟩ := List.mem_filterMap.mp member
      obtain ⟨name,rfl⟩ := derived_blank (blank ▸ named)
      exact .inr ⟨name,sent⟩

-- What is still to be read decides the status as the whole conversation does.
structure Listening (w : World) : Prop where
  room : w.events.room = none
  shutdown : w.shutdown = false
  commandsOpen : w.commandsOpen = true
  commands : TransportCommand.shutdown ∉ w.commands
  unended : w.ending = none → ∀ m ∈ w.received, m.ends = false
  running : w.ending = none →
    exits w.events.sent = [] ∧ ∀ more, settled w.pendingExit (w.messages ++ more) = settled none (arrived w ++ more)
  finished : w.ending.isSome = true →
    exits w.events.sent = [settled none (arrived w)] ∧
      (w.channelOpen = true → ∀ more, settled none (arrived w ++ more) = settled none (arrived w))

theorem exits_append (first second : List TransportEvent) : exits (first ++ second) = exits first ++ exits second :=
  List.filterMap_append

theorem emitted_exits (pending : Option ExitStatus) (m : ChannelMsg) :
    exits (emitted pending m) = if m.ends then [pending.getD ⟨none,none⟩] else [] := by
  cases m <;> rfl

-- The environment adds commands and messages; the loop has not moved.
theorem aside_listening {w next : World} (listening : Listening w) (events : next.events = w.events)
    (ending : next.ending = w.ending) (received : next.received = w.received) (pending : next.pendingExit = w.pendingExit)
    (shutdown : next.shutdown = w.shutdown) (commandsOpen : next.commandsOpen = w.commandsOpen)
    (commands : TransportCommand.shutdown ∉ next.commands) (more : List ChannelMsg) (messages : next.messages = w.messages ++ more)
    (channel : next.channelOpen = true → w.channelOpen = true) (open_ : more = [] ∨ w.channelOpen = true) : Listening next := by
  have grown : arrived next = arrived w ++ more := by rw [arrived,received,messages,← List.append_assoc]; rfl
  refine ⟨events ▸ listening.room,shutdown ▸ listening.shutdown,commandsOpen ▸ listening.commandsOpen,commands,?_,?_,?_⟩
  · rw [ending,received]
    exact listening.unended
  · intro running
    obtain ⟨silent,same⟩ := listening.running (ending ▸ running)
    refine ⟨events ▸ silent,fun others => ?_⟩
    rw [grown,pending,messages,List.append_assoc,List.append_assoc]
    exact same (more ++ others)
  · intro finished
    obtain ⟨told,fixed⟩ := listening.finished (ending ▸ finished)
    rcases open_ with rfl | open_
    · rw [events,grown,List.append_nil]
      exact ⟨told,fun still => fixed (channel still)⟩
    · refine ⟨?_,fun _ others => ?_⟩
      · rw [events,grown,fixed open_]
        exact told
      · rw [grown,List.append_assoc,fixed open_,fixed open_]

-- Taking a message moves it from what is to be read to what decides.
theorem message_listening {w : World} (listening : Listening w) (running : w.ending = none) (next : w.messages = m :: rest) :
    Listening
      {w with
        messages := rest
        received := w.received ++ [m]
        pendingExit := pendingAfter w.pendingExit m
        events := ⟨w.events.sent ++ emitted w.pendingExit m,none⟩
        ending := if m.ends then some .remoteEnded else none} := by
  obtain ⟨silent,same⟩ := listening.running running
  have whole : w.received ++ [m] ++ rest = arrived w := by
    rw [arrived,next,List.append_assoc]
    rfl
  have told : exits (w.events.sent ++ emitted w.pendingExit m) = if m.ends then [w.pendingExit.getD ⟨none,none⟩] else [] := by
    rw [exits_append,silent,emitted_exits]
    rfl
  have step : ∀ more, settled none (arrived w ++ more) =
      if m.ends then w.pendingExit.getD ⟨none,none⟩ else settled (pendingAfter w.pendingExit m) (rest ++ more) := by
    intro more
    rw [← same more,next,List.cons_append,settled]
  cases last : m.ends with
  | false =>
      rw [last] at told
      refine ⟨rfl,listening.shutdown,listening.commandsOpen,listening.commands,fun _ found member => ?_,fun _ => ⟨told,fun more => ?_⟩,
        fun finished => (by cases finished)⟩
      · rcases List.mem_append.mp member with old | new
        · exact listening.unended running found old
        · rw [List.mem_singleton.mp new]
          exact last
      · have later := step more
        rw [last] at later
        rw [arrived,whole]
        exact later.symm
  | true =>
      rw [last] at told
      have fixed : ∀ more, settled none (arrived w ++ more) = w.pendingExit.getD ⟨none,none⟩ := by
        intro more
        rw [step,last]
        rfl
      have now : settled none (arrived w) = w.pendingExit.getD ⟨none,none⟩ := by
        have end_ := fixed []
        rwa [List.append_nil] at end_
      refine ⟨rfl,listening.shutdown,listening.commandsOpen,listening.commands,fun going => (by cases going),
        fun going => (by cases going),fun _ => ?_⟩
      rw [arrived,whole]
      refine ⟨?_,fun _ more => (fixed more).trans now.symm⟩
      rw [now]
      exact told

theorem rounds_listening {w next : World} (listening : Listening w) (round : Rounds w none next) : Listening next := by
  cases round with
  | ended already => exact listening
  | shutdownSignal running signalled => rw [listening.shutdown] at signalled; cases signalled
  | commandsGone running gone => rw [listening.commandsOpen] at gone; cases gone
  | shutdownCommand rest running next => exact absurd (next ▸ List.mem_cons_self) listening.commands
  | writeFailed bytes rest e running next failed => cases failed
  | commanded c rest running next =>
      refine aside_listening listening rfl rfl rfl rfl rfl rfl (fun found => ?_) [] (List.append_nil _).symm id (.inl rfl)
      exact listening.commands (next ▸ List.mem_cons_of_mem c found)
  | message m rest running idle next => exact message_listening listening running next
  | channelGone running idle empty gone =>
      obtain ⟨silent,same⟩ := listening.running running
      have now : settled none (arrived w) = w.pendingExit.getD ⟨none,none⟩ := by
        have end_ := same []
        rw [List.append_nil,List.append_nil,empty] at end_
        exact end_.symm
      refine ⟨rfl,listening.shutdown,listening.commandsOpen,listening.commands,fun going => (by cases going),
        fun going => (by cases going),fun _ => ⟨?_,fun open_ => ?_⟩⟩
      · change exits (w.events.sent ++ [_]) = [settled none (arrived w)]
        rw [exits_append,silent,now]
        rfl
      · have open_ : w.channelOpen = true := open_
        rw [gone] at open_
        cases open_
  | waits running idle empty open_ => exact listening

theorem step_listening (w : World) (move : Move) (listening : Listening w) (calm : Calm move) : Listening (w.step move) := by
  cases move with
  | command c =>
      simp only [World.step]
      split
      · refine aside_listening listening rfl rfl rfl rfl rfl rfl (fun found => ?_) [] (List.append_nil _).symm id (.inl rfl)
        rcases List.mem_append.mp found with old | new
        · exact listening.commands old
        · exact calm (List.mem_singleton.mp new).symm
      · exact listening
  | closeCommands => exact calm.elim
  | message m =>
      simp only [World.step]
      split
      · rename_i open_
        exact aside_listening listening rfl rfl rfl rfl rfl rfl listening.commands [m] rfl id (.inr open_)
      · exact listening
  | endChannel =>
      exact aside_listening listening rfl rfl rfl rfl rfl rfl listening.commands [] (List.append_nil _).symm
        (fun open_ => by cases open_) (.inl rfl)
  | shutdown => exact calm.elim
  | dropReceiver => exact calm.elim
  | iterate outcome =>
      cases calm
      exact rounds_listening listening (iterate_rounds listening.room none)

def iterations (n : Nat) : List Move := List.replicate n (.iterate none)

-- The end of the conversation is still to be read.
def Due (w : World) : Prop := (∃ m ∈ w.messages, m.ends = true) ∨ w.channelOpen = false

theorem rounds_progress {w next : World} (due : w.ending = none → Due w) (round : Rounds w none next) :
    next.ending.isSome = true ∨
      Due next ∧ next.commands.length+next.messages.length < w.commands.length+w.messages.length := by
  cases round with
  | ended already => exact .inl already
  | shutdownSignal running signalled => exact .inl rfl
  | commandsGone running gone => exact .inl rfl
  | shutdownCommand rest running next => exact .inl rfl
  | writeFailed bytes rest e running next failed => exact .inl rfl
  | commanded c rest running next =>
      refine .inr ⟨due running,?_⟩
      rw [next]
      exact Nat.add_lt_add_right (Nat.lt_succ_self rest.length) w.messages.length
  | message m rest running idle next =>
      cases last : m.ends with
      | true => exact .inl rfl
      | false =>
          refine .inr ⟨?_,?_⟩
          · rcases due running with ⟨found,member,ends⟩ | gone
            · rw [next] at member
              rcases List.mem_cons.mp member with rfl | later
              · rw [last] at ends
                cases ends
              · exact .inl ⟨found,later,ends⟩
            · exact .inr gone
          · rw [next]
            exact Nat.add_lt_add_left (Nat.lt_succ_self rest.length) w.commands.length
  | channelGone running idle empty gone => exact .inl rfl
  | waits running idle empty open_ =>
      rcases due running with ⟨found,member,ends⟩ | gone
      · rw [empty] at member
        cases member
      · rw [gone] at open_
        cases open_

theorem iterations_listening (n : Nat) {w : World} (listening : Listening w) :
    Listening ((iterations n).foldl World.step w) ∧ arrived ((iterations n).foldl World.step w) = arrived w := by
  induction n generalizing w with
  | zero => exact ⟨listening,rfl⟩
  | succ n ih =>
      obtain ⟨later,same⟩ := ih (step_listening w (.iterate none) listening rfl)
      exact ⟨later,same.trans ((step_keeps w (.iterate none)).messages.trans (List.append_nil _))⟩

theorem iterations_ended (n : Nat) {w : World} (ended : w.ending.isSome = true) : (iterations n).foldl World.step w = w := by
  induction n with
  | zero => rfl
  | succ n ih =>
      have still : w.step (.iterate none) = w := by simp only [World.step,World.iterate,ended,if_true]
      change (iterations n).foldl World.step (w.step (.iterate none)) = w
      rw [still]
      exact ih

-- Each round takes a command or a message, until it takes the one that ends the loop.
theorem iterations_end (n : Nat) {w : World} (listening : Listening w) (due : w.ending = none → Due w)
    (enough : w.commands.length+w.messages.length < n) : ((iterations n).foldl World.step w).ending.isSome = true := by
  induction n generalizing w with
  | zero => cases enough
  | succ n ih =>
      change ((iterations n).foldl World.step (w.iterate none)).ending.isSome = true
      have next := step_listening w (.iterate none) listening rfl
      rcases rounds_progress due (iterate_rounds listening.room none) with ended | ⟨due,fewer⟩
      · rw [iterations_ended n ended]
        exact ended
      · exact ih next (fun _ => due) (Nat.lt_of_lt_of_le fewer (Nat.le_of_lt_succ enough))

theorem begun_listening : Listening begun :=
  ⟨rfl,rfl,rfl,by simp [begun],fun _ _ member => (by cases member),fun _ => ⟨rfl,fun _ => rfl⟩,fun finished => (by cases finished)⟩

theorem conversation_due {w : World} (listening : Listening w) (talk : Conversation w) (running : w.ending = none) : Due w := by
  rcases talk.ended with close | gone
  · rcases List.mem_append.mp close with taken | waiting
    · cases listening.unended running _ taken
    · exact .inl ⟨.close,waiting,rfl⟩
  · exact .inr gone

-- Whatever else runs in between, the loop comes to its end with one exit; with no exit
-- message behind the `Eof` that exit carries what the exit message says.
theorem exit_reported (moves : List Move) (calm : StepRuns.Along World.step (fun _ move => Calm move) begun moves)
    (talk : Conversation (moves.foldl World.step begun)) (n : Nat)
    (enough : (moves.foldl World.step begun).commands.length+(moves.foldl World.step begun).messages.length < n) :
    ((moves ++ iterations n).foldl World.step begun).ending.isSome = true ∧
      ∃ status, exits ((moves ++ iterations n).foldl World.step begun).events.sent = [status] ∧
        (ExitFirst (arrived (moves.foldl World.step begun)) →
          status = reported (arrived (moves.foldl World.step begun)) ∧
            (status = ⟨none,none⟩ → (arrived (moves.foldl World.step begun)).filterMap derived = [] ∨
              ∃ name, ChannelMsg.exitSignal (.custom name) ∈ arrived (moves.foldl World.step begun))) := by
  have listening := StepRuns.run_kept Listening calm begun_listening step_listening
  rw [List.foldl_append]
  have ended := iterations_end n listening (conversation_due listening talk) enough
  obtain ⟨after,same⟩ := iterations_listening n listening
  refine ⟨ended,_,(after.finished ended).1,fun first => ?_⟩
  rw [same,settled_reported _ talk.once talk.bounded talk.closeLast first]
  exact ⟨rfl,reported_blank⟩

def small : ChannelMsg → Bool
  | .exitStatus status => status.toNat < 2147483648
  | _ => true

theorem conversation_closed {w : World} (init : List ChannelMsg) (whole : arrived w = init ++ [.close])
    (open_ : ChannelMsg.close ∉ init) (once : ((arrived w).filterMap derived).length ≤ 1)
    (bounded : (arrived w).all small = true) (eofOnce : (arrived w).count .eof ≤ 1) : Conversation w := by
  refine ⟨once,fun status member => ?_,eofOnce,fun before after split => ?_,.inl ?_⟩
  · exact of_decide_eq_true (List.all_eq_true.mp bounded _ member)
  · rw [whole] at split
    rcases StepRuns.grown_split split with ⟨last,_,_⟩ | ⟨rest,early,_⟩
    · exact last
    · exact absurd (early ▸ List.mem_append_right before List.mem_cons_self) open_
  · rw [whole]
    exact List.mem_append_right init List.mem_cons_self

theorem exitFirst_closed {first last : List ChannelMsg} (open_ : ChannelMsg.eof ∉ first) (silent : last.filterMap derived = []) :
    ExitFirst (first ++ last) := by
  intro before after split
  have behind : ∀ m : List ChannelMsg, last = m ++ .eof :: after → after.filterMap derived = [] := by
    intro m tail
    rw [tail,List.filterMap_append] at silent
    exact (List.append_eq_nil_iff.mp silent).2
  rcases List.append_eq_append_iff.mp split with ⟨middle,_,tail⟩ | ⟨middle,early,tail⟩
  · exact behind middle tail
  · cases middle with
    | nil => exact behind [] tail.symm
    | cons m rest =>
        cases (List.cons.inj tail).1
        exact absurd (early ▸ List.mem_append_right before List.mem_cons_self) open_

-- A shell that writes a line and exits with 3.
def exitsWithThree : List Move :=
  [.command (.resize ⟨24,80⟩),.message (.data [104,10]),.message (.exitStatus 3),.message .eof,.message .close]

theorem exit_reported_three :
    ∃ status, exits ((exitsWithThree ++ iterations 6).foldl World.step begun).events.sent = [status] ∧ status = .fromCode 3 := by
  have calm : StepRuns.Along World.step (fun _ move => Calm move) begun exitsWithThree :=
    ⟨by simp [Calm],trivial,trivial,trivial,trivial,trivial⟩
  have talk : Conversation (exitsWithThree.foldl World.step begun) :=
    conversation_closed [.data [104,10],.exitStatus 3,.eof] rfl (by decide) (by decide) (by decide) (by decide)
  obtain ⟨_,status,told,fits⟩ := exit_reported exitsWithThree calm talk 6 (by decide)
  have first : ExitFirst ([.data [104,10],.exitStatus 3] ++ [.eof,.close]) := exitFirst_closed (by decide) rfl
  exact ⟨status,told,(fits first).1⟩

-- RFC 4254 lets the exit status come behind the `Eof`; and a signal may have a name of its own.
def exitsBehindEof : List Move := [.message .eof,.message (.exitStatus 3),.message .close]

def exitsByCustom : List Move := [.message (.exitSignal (.custom "WINCH")),.message .eof,.message .close]

theorem exit_lost :
    (StepRuns.Along World.step (fun _ move => Calm move) begun exitsBehindEof ∧
      Conversation (exitsBehindEof.foldl World.step begun) ∧
      ((exitsBehindEof ++ iterations 4).foldl World.step begun).events.sent = [.exited ⟨none,none⟩] ∧
      reported (arrived (exitsBehindEof.foldl World.step begun)) = .fromCode 3) ∧
    (StepRuns.Along World.step (fun _ move => Calm move) begun exitsByCustom ∧
      Conversation (exitsByCustom.foldl World.step begun) ∧
      ((exitsByCustom ++ iterations 4).foldl World.step begun).events.sent = [.exited ⟨none,none⟩] ∧
      ChannelMsg.exitSignal (.custom "WINCH") ∈ arrived (exitsByCustom.foldl World.step begun)) :=
  ⟨⟨⟨trivial,trivial,trivial,trivial⟩,
      conversation_closed [.eof,.exitStatus 3] rfl (by decide) (by decide) (by decide) (by decide),by decide,by decide⟩,
    ⟨trivial,trivial,trivial,trivial⟩,
      conversation_closed [.exitSignal (.custom "WINCH"),.eof] rfl (by decide) (by decide) (by decide) (by decide),by decide,by decide⟩

end Perga.Shuttle

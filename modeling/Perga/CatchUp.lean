import Perga.Browser
import Perga.FairRounds

namespace Perga.CatchUp
open ServerSession EventDelivery Browser
variable {T : Terminal} {P : VteParser} {S : Screens T}

-- The moves that neither give the engine a message nor end one of the two futures.
def undisturbed : Move → Bool
  | .engineEvent => false
  | .engineInput => false
  | .inbound => false
  | .outbound taken => taken
  | _ => true

-- Who carries the events: the engine thread, the bridge thread and the outbound future.
def carriers : List Move := [.publish,.bridge,.outbound true]

-- How many moves the events on their way still need.
def lag (w : World T P) : Nat :=
  5*w.unsent.length+4*w.channel.length+3*(inBridge w.bridge).length+2*w.queue.length+(inOutbound w.outbound).length

structure Flowing (w : World T P) : Prop where
  carries : Carries w
  listening : w.inbound = true
  ended : w.outbound = .finished → lag w = 0 ∧ w.written = w.session.events.sent

theorem rest_empty {w : World T P} (rest : lag w = 0) :
    w.unsent = [] ∧ w.channel = [] ∧ inBridge w.bridge = [] ∧ w.queue = [] ∧ inOutbound w.outbound = [] := by
  unfold lag at rest
  refine ⟨?_,?_,?_,?_,?_⟩ <;> exact List.eq_nil_of_length_eq_zero (by omega)

-- Nothing on its way: everything has been written.
theorem rest_written {w : World T P} (flowing : Flowing w) (rest : lag w = 0) : w.written = w.session.events.sent := by
  by_cases finished : w.outbound = .finished
  · exact (flowing.ended finished).2
  · obtain ⟨unsent,channel,bridge,queue,outbound⟩ := rest_empty rest
    have whole := flowing.carries.whole finished
    rw [unsent,channel,bridge,queue,outbound] at whole
    simpa only [List.append_nil] using whole

-- A carrier with nothing to do at most sees that no more will come.
structure Idle (w next : World T P) : Prop where
  unsent : next.unsent = w.unsent
  channel : next.channel = w.channel
  queue : next.queue = w.queue
  outbound : next.outbound = w.outbound
  bridge : next.bridge = w.bridge ∨ (w.bridge = .receiving ∧ w.channel = [] ∧ next.bridge = .finished)

theorem idle_lag {w next : World T P} (idle : Idle w next) : lag next = lag w := by
  have held : inBridge next.bridge = inBridge w.bridge := by
    rcases idle.bridge with same | ⟨receiving,_,finished⟩
    · rw [same]
    · rw [receiving,finished]
      rfl
  rw [lag,lag,idle.unsent,idle.channel,idle.queue,idle.outbound,held]

theorem publish_turn (w : World T P) :
    (w.unsent ≠ [] ∧ lag w.publish < lag w) ∨ (w.unsent = [] ∧ Idle w w.publish) := by
  unfold World.publish
  split
  · rename_i ev rest next
    refine .inl ⟨by rw [next]; exact List.cons_ne_nil ev rest,?_⟩
    simp only [lag,next,List.length_append,List.length_cons,List.length_nil]
    omega
  · rename_i empty
    exact .inr ⟨empty,rfl,rfl,rfl,rfl,.inl rfl⟩

-- What the bridge thread can take up.
def Bridging (w : World T P) : Prop := (w.bridge = .receiving ∧ w.channel ≠ []) ∨ inBridge w.bridge ≠ []

theorem bridge_turn {w : World T P} (flowing : Flowing w) :
    (Bridging w ∧ lag w.bridgeStep < lag w) ∨ (¬ Bridging w ∧ Idle w w.bridgeStep) := by
  unfold World.bridgeStep
  split
  · rename_i at_
    split
    · rename_i ev rest next
      refine .inl ⟨.inl ⟨at_,by rw [next]; exact List.cons_ne_nil ev rest⟩,?_⟩
      simp only [lag,at_,next,inBridge,List.length_cons,List.length_nil]
      omega
    · rename_i empty
      have nothing : ¬ Bridging w := by
        rintro (⟨_,more⟩ | held)
        · exact more empty
        · exact held (by rw [at_]; rfl)
      split
      · exact .inr ⟨nothing,rfl,rfl,rfl,rfl,.inl rfl⟩
      · exact .inr ⟨nothing,rfl,rfl,rfl,rfl,.inr ⟨at_,empty,rfl⟩⟩
  · rename_i ev at_
    have holds : Bridging w := .inr (by rw [at_]; exact List.cons_ne_nil ev [])
    split
    · rename_i finished
      have none := (rest_empty (flowing.ended finished).1).2.2.1
      rw [at_] at none
      cases none
    · refine .inl ⟨holds,?_⟩
      simp only [lag,at_,inBridge,List.length_append,List.length_cons,List.length_nil]
      omega
  · rename_i at_
    refine .inr ⟨?_,rfl,rfl,rfl,rfl,.inl rfl⟩
    rintro (⟨receiving,_⟩ | held)
    · rw [at_] at receiving
      cases receiving
    · exact held (by rw [at_]; rfl)

-- What the outbound future can take up.
def Sending (w : World T P) : Prop := (w.outbound = .receiving ∧ w.queue ≠ []) ∨ inOutbound w.outbound ≠ []

theorem outbound_turn {w : World T P} (flowing : Flowing w) :
    (Sending w ∧ lag (w.outboundStep true) < lag w ∧ (w.outboundStep true).outbound ≠ .finished ∧
        (w.outboundStep true).inbound = w.inbound) ∨
      (¬ Sending w ∧ (w.outboundStep true = w ∨ (w.outboundStep true = {w with outbound := .finished} ∧ lag w = 0 ∧
        w.outbound ≠ .finished))) := by
  unfold World.outboundStep
  split
  · rename_i dropped
    have finished : w.outbound = .finished := by
      rw [World.dropped,flowing.listening,Bool.not_true,Bool.or_false] at dropped
      exact eq_of_beq dropped
    refine .inr ⟨?_,.inl rfl⟩
    rintro (⟨receiving,_⟩ | held)
    · rw [finished] at receiving
      cases receiving
    · exact held (by rw [finished]; rfl)
  · split
    · rename_i at_
      split
      · rename_i ev rest next
        refine .inl ⟨.inl ⟨at_,by rw [next]; exact List.cons_ne_nil ev rest⟩,?_,(fun wrong => by cases wrong),rfl⟩
        simp only [lag,at_,next,inOutbound,List.length_cons,List.length_nil]
        omega
      · rename_i empty
        have nothing : ¬ Sending w := by
          rintro (⟨_,more⟩ | held)
          · exact more empty
          · exact held (by rw [at_]; rfl)
        split
        · rename_i ended
          have going : w.outbound ≠ .finished := by rw [at_]; simp
          obtain ⟨channel,gone⟩ := flowing.carries.bridge going ended
          have unsent := (flowing.carries.engine gone).2
          refine .inr ⟨nothing,.inr ⟨rfl,?_,going⟩⟩
          simp only [lag,unsent,channel,ended,empty,at_,inBridge,inOutbound,List.length_nil]
        · exact .inr ⟨nothing,.inl rfl⟩
    · rename_i ev at_
      refine .inl ⟨.inr (by rw [at_]; exact List.cons_ne_nil ev []),?_,(fun wrong => by cases wrong),rfl⟩
      simp only [lag,at_,inOutbound,if_true,List.length_cons,List.length_nil]
      omega
    · rename_i at_
      refine .inr ⟨?_,.inl rfl⟩
      rintro (⟨receiving,_⟩ | held)
      · rw [at_] at receiving
        cases receiving
      · exact held (by rw [at_]; rfl)

-- The other undisturbed moves touch nothing on the way.
structure Aside (w next : World T P) : Prop where
  idle : Idle w next
  listening : next.inbound = w.inbound
  written : next.written = w.written
  events : next.session.events = w.session.events

theorem others_aside (w : World T P) (move : Move) (quiet : undisturbed move = true) (other : move ∉ carriers) :
    Aside w (w.step move) := by
  have same : ∀ next : World T P, next.unsent = w.unsent → next.channel = w.channel → next.queue = w.queue →
      next.outbound = w.outbound → next.bridge = w.bridge → next.inbound = w.inbound → next.written = w.written →
      next.session.events = w.session.events → Aside w next :=
    fun next unsent channel queue outbound bridge listening written events =>
      ⟨⟨unsent,channel,queue,outbound,.inl bridge⟩,listening,written,events⟩
  cases move with
  | backend ev => simp only [World.step]; split <;> exact same _ rfl rfl rfl rfl rfl rfl rfl rfl
  | endBackend => exact same _ rfl rfl rfl rfl rfl rfl rfl rfl
  | dropCommands after => exact same _ rfl rfl rfl rfl rfl rfl rfl rfl
  | frame f => exact same _ rfl rfl rfl rfl rfl rfl rfl rfl
  | engineEvent => cases quiet
  | engineInput => cases quiet
  | publish => exact absurd (by decide) other
  | dropInputReceiver => simp only [World.step]; split <;> exact same _ rfl rfl rfl rfl rfl rfl rfl rfl
  | dropEventSender => simp only [World.step]; split <;> exact same _ rfl rfl rfl rfl rfl rfl rfl rfl
  | bridge => exact absurd (by decide) other
  | outbound taken =>
      cases quiet
      exact absurd (by decide) other
  | inbound => cases quiet

theorem unpicked (w : World T P) {move : Move} (quiet : undisturbed move = true) : picked w move = none := by
  cases move <;> first | rfl | cases quiet

theorem events_kept (w : World T P) {move : Move} (quiet : undisturbed move = true) :
    (w.step move).session.events = w.session.events := by
  have served := step_served w move
  generalize w.step move = next at served
  cases served with
  | handled message chosen ready session running =>
      rw [unpicked w quiet] at chosen
      cases chosen
  | idle chosen room running gone session => rw [session]

theorem carrier_keeps {w next : World T P} (flowing : Flowing w) (carries : Carries next) (listening : next.inbound = w.inbound)
    (outbound : next.outbound = w.outbound) (written : next.written = w.written) (events : next.session.events = w.session.events)
    (less : lag next ≤ lag w) : Flowing next := by
  refine ⟨carries,listening.trans flowing.listening,fun finished => ?_⟩
  obtain ⟨rest,all⟩ := flowing.ended (outbound ▸ finished)
  exact ⟨Nat.eq_zero_of_le_zero (rest ▸ less),by rw [written,events,all]⟩

theorem step_shrinks {w : World T P} (flowing : Flowing w) {move : Move} (quiet : undisturbed move = true) :
    lag (w.step move) ≤ lag w := by
  by_cases carrier : move ∈ carriers
  · simp only [carriers,List.mem_cons,List.not_mem_nil,or_false] at carrier
    rcases carrier with rfl | rfl | rfl
    · exact (publish_turn w).elim (fun busy => Nat.le_of_lt busy.2) fun none => Nat.le_of_eq (idle_lag none.2)
    · exact (bridge_turn flowing).elim (fun busy => Nat.le_of_lt busy.2) fun none => Nat.le_of_eq (idle_lag none.2)
    · rcases outbound_turn flowing with busy | ⟨_,same | ⟨last,rest,_⟩⟩
      · exact Nat.le_of_lt busy.2.1
      · exact Nat.le_of_eq (congrArg lag same)
      · change lag (w.outboundStep true) ≤ _
        obtain ⟨unsent,channel,bridge,queue,_⟩ := rest_empty rest
        rw [last,lag,unsent,channel,bridge,queue]
        exact Nat.zero_le _
  · exact Nat.le_of_eq (idle_lag (others_aside w move quiet carrier).idle)

theorem outbound_keeps {w : World T P} (flowing : Flowing w) : Flowing (w.outboundStep true) := by
  have carries := outbound_carries flowing.carries true
  rcases outbound_turn flowing with ⟨_,_,going,listening⟩ | ⟨_,same | ⟨last,rest,_⟩⟩
  · exact ⟨carries,listening.trans flowing.listening,fun finished => absurd finished going⟩
  · rw [same]
    exact flowing
  · have all := rest_written flowing rest
    obtain ⟨unsent,channel,bridge,queue,_⟩ := rest_empty rest
    rw [last] at carries ⊢
    refine ⟨carries,flowing.listening,fun _ => ⟨?_,all⟩⟩
    simp only [lag,unsent,channel,bridge,queue,inOutbound,List.length_nil]

theorem step_keeps {w : World T P} (flowing : Flowing w) {move : Move} (quiet : undisturbed move = true) :
    Flowing (w.step move) := by
  have less := step_shrinks flowing quiet
  have carries := step_carries w move flowing.carries
  have events := events_kept w quiet
  by_cases carrier : move ∈ carriers
  · simp only [carriers,List.mem_cons,List.not_mem_nil,or_false] at carrier
    rcases carrier with rfl | rfl | rfl
    · have others := others_end w .publish (by simp) (by simp)
      exact carrier_keeps flowing carries others.2.2 others.2.1 others.1 events less
    · have others := others_end w .bridge (by simp) (by simp)
      exact carrier_keeps flowing carries others.2.2 others.2.1 others.1 events less
    · exact outbound_keeps flowing
  · have aside := others_aside w move quiet carrier
    exact carrier_keeps flowing carries aside.listening aside.idle.outbound aside.written events less

-- A carrier that can do something still can when another had nothing to do.
theorem idle_waits {w next : World T P} (flowing : Flowing w) (later : Flowing next) (idle : Idle w next) {b : Move}
    (helper : b ∈ carriers) (helping : lag (w.step b) < lag w) : lag (next.step b) < lag next := by
  simp only [carriers,List.mem_cons,List.not_mem_nil,or_false] at helper
  rcases helper with rfl | rfl | rfl
  · rcases publish_turn w with ⟨busy,_⟩ | ⟨_,none⟩
    · rcases publish_turn next with ⟨_,less⟩ | ⟨empty,_⟩
      · exact less
      · exact absurd (idle.unsent ▸ empty) busy
    · exact absurd (idle_lag none) (Nat.ne_of_lt helping)
  · rcases bridge_turn flowing with ⟨busy,_⟩ | ⟨_,none⟩
    · have still : Bridging next := by
        rcases idle.bridge with same | ⟨receiving,empty,_⟩
        · rw [Bridging,same,idle.channel]
          exact busy
        · rcases busy with ⟨_,more⟩ | held
          · exact absurd empty more
          · exact absurd (by rw [receiving]; rfl) held
      exact (bridge_turn later).elim (fun turn => turn.2) fun turn => absurd still turn.1
    · exact absurd (idle_lag none) (Nat.ne_of_lt helping)
  · rcases outbound_turn flowing with ⟨busy,_⟩ | ⟨_,same | ⟨_,rest,_⟩⟩
    · have still : Sending next := by
        rw [Sending,idle.outbound,idle.queue]
        exact busy
      exact (outbound_turn later).elim (fun turn => turn.2.1) fun turn => absurd still turn.1
    · exact absurd (congrArg lag same) (Nat.ne_of_lt helping)
    · rw [rest] at helping
      cases helping

theorem step_idle {w : World T P} (flowing : Flowing w) {move : Move} (quiet : undisturbed move = true)
    (same : lag (w.step move) = lag w) (busy : 0 < lag w) : Idle w (w.step move) := by
  by_cases carrier : move ∈ carriers
  · simp only [carriers,List.mem_cons,List.not_mem_nil,or_false] at carrier
    rcases carrier with rfl | rfl | rfl
    · exact (publish_turn w).elim (fun turn => absurd same (Nat.ne_of_lt turn.2)) fun turn => turn.2
    · exact (bridge_turn flowing).elim (fun turn => absurd same (Nat.ne_of_lt turn.2)) fun turn => turn.2
    · rcases outbound_turn flowing with ⟨_,less,_⟩ | ⟨_,unchanged | ⟨_,rest,_⟩⟩
      · exact absurd same (Nat.ne_of_lt less)
      · change Idle w (w.outboundStep true)
        rw [unchanged]
        exact ⟨rfl,rfl,rfl,rfl,.inl rfl⟩
      · omega
  · exact (others_aside w move quiet carrier).idle

theorem carriers_help {w : World T P} (flowing : Flowing w) (busy : 0 < lag w) : ∃ b ∈ carriers, lag (w.step b) < lag w := by
  rcases publish_turn w with ⟨_,less⟩ | ⟨unsent,_⟩
  · exact ⟨.publish,by decide,less⟩
  · rcases bridge_turn flowing with ⟨_,less⟩ | ⟨unheld,_⟩
    · exact ⟨.bridge,by decide,less⟩
    · rcases outbound_turn flowing with ⟨_,less,_⟩ | ⟨unsending,_⟩
      · exact ⟨.outbound true,by decide,less⟩
      · exfalso
        have held : inBridge w.bridge = [] := by_contra fun more => unheld (.inr more)
        have waiting : inOutbound w.outbound = [] := by_contra fun more => unsending (.inr more)
        have going : w.outbound ≠ .finished := by
          intro finished
          rw [(flowing.ended finished).1] at busy
          cases busy
        have receiving : w.outbound = .receiving := by
          cases at_ : w.outbound with
          | receiving => rfl
          | sending ev => rw [at_] at waiting; cases waiting
          | finished => exact absurd at_ going
        have queue : w.queue = [] := by_contra fun more => unsending (.inl ⟨receiving,more⟩)
        have channel : w.channel = [] := by
          by_contra more
          cases at_ : w.bridge with
          | receiving => exact unheld (.inl ⟨at_,more⟩)
          | holding ev => rw [at_] at held; cases held
          | finished => exact more (flowing.carries.bridge going at_).1
        rw [lag,unsent,channel,held,queue,waiting] at busy
        cases busy

-- A carrier's turn is the one move that it has, and it is due when the move gets an event on.
theorem carriers_drain : FairRounds.Drains (World.step (T := T) (P := P)) Flowing (fun move => undisturbed move = true) carriers
    (fun carrier move => move = carrier) (fun w carrier => carrier ∈ carriers ∧ lag (w.step carrier) < lag w) lag where
  keeps := fun _ _ flowing quiet => step_keeps flowing quiet
  shrinks := fun _ _ flowing quiet => step_shrinks flowing quiet
  helps := by
    intro w flowing busy
    obtain ⟨b,carrier,less⟩ := carriers_help flowing busy
    exact ⟨b,carrier,carrier,less⟩
  works := fun _ _ _ _ owed own => own ▸ owed.2
  waits := by
    intro w move b flowing quiet owed same
    have busy : 0 < lag w := Nat.lt_of_le_of_lt (Nat.zero_le _) owed.2
    exact ⟨owed.1,idle_waits flowing (step_keeps flowing quiet) (step_idle flowing quiet same busy) owed.1 owed.2⟩

-- Each event on its way needs five moves at most.
theorem lag_bounded {w : World T P} (flowing : Flowing w) : lag w ≤ 5*(w.session.events.sent.length-w.written.length) := by
  by_cases finished : w.outbound = .finished
  · rw [(flowing.ended finished).1]
    exact Nat.zero_le _
  · have whole := congrArg List.length (flowing.carries.whole finished)
    simp only [List.length_append] at whole
    unfold lag
    omega

theorem run_events (w : World T P) (moves : List Move) (quiet : ∀ move ∈ moves, undisturbed move = true) :
    (moves.foldl World.step w).session.events = w.session.events := by
  induction moves generalizing w with
  | nil => rfl
  | cons move rest ih =>
      rw [List.foldl_cons,ih _ fun later member => quiet later (List.mem_cons_of_mem move member)]
      exact events_kept w (quiet move List.mem_cons_self)

-- Once the engine rests, the browser catches up: after five rounds for each event not yet written,
-- in which every carrier has a turn, it shows the terminal with all that has reached it.
theorem browser_catches_up (V : Viewport S) (size : TerminalSize) (moves : List Move) (rounds : List (List Move))
    (going : (moves.foldl World.step (begun size : World T P)).dropped = false)
    (quiet : ∀ round ∈ rounds, ∀ move ∈ round, undisturbed move = true)
    (fair : ∀ round ∈ rounds, ∀ move ∈ carriers, move ∈ round)
    (enough : 5*((moves.foldl World.step (begun size : World T P)).session.events.sent.length-
      (moves.foldl World.step (begun size : World T P)).written.length) ≤ rounds.length) :
    let start : World T P := begun size
    let w := moves.foldl World.step start
    let last := rounds.flatten.foldl World.step w
    last.written = w.session.events.sent ∧
      (Console.Heeded (w.session,w.running) → browser (last.written.map ProtocolEvent.serialize) =
        some (((Console.begun size : Console T).after (reached start moves)).shown V)) := by
  intro start w last
  have plays : Plays V (.begun size) w (reached start moves) := run_plays (begun_plays V size) moves
  have carries : Carries w := StepRuns.run_invariant Carries moves (begun_carries size) step_carries
  obtain ⟨unfinished,listening⟩ := Bool.or_eq_false_iff.mp going
  have flowing : Flowing w := by
    refine ⟨carries,by simpa using listening,fun finished => ?_⟩
    rw [finished] at unfinished
    cases unfinished
  have drained := FairRounds.rounds_rest carriers_drain flowing rounds quiet
    (fun round member carrier inside => ⟨carrier,fair round member carrier inside,rfl⟩) (Nat.le_trans (lag_bounded flowing) enough)
  have events : last.session.events = w.session.events := by
    refine run_events w rounds.flatten fun move member => ?_
    obtain ⟨round,inside,there⟩ := List.mem_flatten.mp member
    exact quiet round inside move there
  have written : last.written = w.session.events.sent := by rw [← events]; exact rest_written drained.1 drained.2
  refine ⟨written,fun heeded => ?_⟩
  obtain ⟨points,follows⟩ := plays.follows
  rw [written,browser,texts_read plays.known]
  exact Console.follows_view follows heeded

open LineTerminal

-- Two letters, and then nothing but the carriers, each in its turn.
theorem two_letters_shown :
    let moves : List Move := [.backend (.output [72,105]),.engineEvent]
    let rounds := List.replicate 10 carriers
    let w := moves.foldl World.step (begun ⟨2,4⟩ : World terminal sideParser)
    let last := rounds.flatten.foldl World.step w
    last.written = w.session.events.sent ∧
      (Console.Heeded (w.session,w.running) → browser (last.written.map ProtocolEvent.serialize) =
        some (((Console.begun ⟨2,4⟩ : Console terminal).after (reached (begun ⟨2,4⟩ : World terminal sideParser) moves)).shown
          viewport)) :=
  browser_catches_up viewport ⟨2,4⟩ [.backend (.output [72,105]),.engineEvent] (List.replicate 10 carriers) (by decide +kernel)
    (by decide) (by decide) (by decide +kernel)

end Perga.CatchUp

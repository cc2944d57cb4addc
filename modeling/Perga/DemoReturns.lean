import Perga.PtyDemo

namespace Perga.PtyDemo
open PtySession PtyTeardown PtyEnding

inductive Party where
  | thread (t : Thread)
  | output
  | main
  deriving DecidableEq, Repr

def partyOf : Move → Option Party
  | .thread m => (turnOf m).map .thread
  | .output _ => some .output
  | .main _ _ _ => some .main
  | .sigwinch _ => none

-- The child has gone, and no signal interrupts the poll.
def Calm : Move → Prop
  | .thread m => Gone m
  | .main polled _ _ => polled ≠ .error eintr
  | _ => True

-- What the turns of `main` and of the signal thread leave alone.
structure Beside (w next : World) : Prop where
  reader : next.pty.reader = w.pty.reader
  writer : next.pty.writer = w.pty.writer
  waiter : next.pty.waiter = w.pty.waiter
  sent : next.pty.events.sent = w.pty.events.sent
  taken : next.taken = w.taken
  output : next.output = w.output

theorem beside_step (w : World) {m : PtySession.Move} (aside : Aside m) {next : World} (pty : next.pty = w.pty.step m)
    (taken : next.taken = w.taken) (output : next.output = w.output) : Beside w next := by
  obtain ⟨reader,writer,waiter,sent,_⟩ := aside_same w.pty aside
  exact ⟨by rw [pty,reader],by rw [pty,writer],by rw [pty,waiter],by rw [pty,sent],taken,output⟩

theorem beside_same (w : World) {next : World} (pty : next.pty = w.pty) (taken : next.taken = w.taken) (output : next.output = w.output) :
    Beside w next := ⟨by rw [pty],by rw [pty],by rw [pty],by rw [pty],taken,output⟩

theorem beside_then {w middle next : World} (one : Beside w middle) (two : Beside middle next) : Beside w next :=
  ⟨two.reader.trans one.reader,two.writer.trans one.writer,two.waiter.trans one.waiter,two.sent.trans one.sent,two.taken.trans one.taken,
    two.output.trans one.output⟩

theorem pump_beside {w next : World} (pumps : Pumps w next) : Beside w next := by
  have dropped : Beside w {w with pty := w.pty.step .drop} := beside_step w (m := .drop) trivial rfl rfl rfl
  cases pumps with
  | waits => exact beside_same w rfl rfl rfl
  | turns _ _ _ _ => exact beside_same w rfl rfl rfl
  | reads _ data => exact beside_same w rfl rfl rfl
  | sends _ => exact beside_step w (m := .command _) trivial rfl rfl rfl
  | fails _ _ => exact beside_same w rfl rfl rfl
  | signals _ _ => exact dropped
  | releases _ _ _ =>
      cases w.output.past with
      | true => exact beside_then dropped (beside_step {w with pty := w.pty.step .drop} (m := .dropReceiver) trivial rfl rfl rfl)
      | false => exact beside_then dropped (beside_same _ rfl rfl rfl)
  | returns _ _ => exact beside_same w rfl rfl rfl

theorem resize_beside {w next : World} (resizes : Resizes w next) : Beside w next := by
  cases resizes with
  | waits => exact beside_same w rfl rfl rfl
  | sends _ => exact beside_step w (m := .command _) trivial rfl rfl rfl
  | fails => exact beside_same w rfl rfl rfl

def listening : Output → Nat
  | .receiving => 1
  | .writing _ => 2
  | .finished _ => 0

-- How far the output thread is from the last event, once the child has gone.
def unheard (w : World) : Nat :=
  if w.main.past || w.output.past then 0 else speech w.pty-2*w.taken+listening w.output

theorem unheard_open {w : World} (busy : 0 < unheard w) : w.main.past = false ∧ w.output.past = false ∧
    unheard w = speech w.pty-2*w.taken+listening w.output := by
  unfold unheard at *
  cases main : w.main.past with
  | true => simp [main] at busy
  | false =>
      cases output : w.output.past with
      | true => simp [main,output] at busy
      | false => exact ⟨rfl,rfl,rfl⟩

theorem unheard_most (w : World) : unheard w ≤ speech w.pty-2*w.taken+listening w.output := by
  unfold unheard
  split
  · exact Nat.zero_le _
  · exact Nat.le_refl _

theorem unheard_past {w : World} (past : w.output.past = true) : unheard w = 0 := by
  unfold unheard
  rw [past,Bool.or_true]
  rfl

-- A turn that does not bring the output thread closer leaves it, the reader and the waiter where they are.
structure Still (w next : World) : Prop where
  reader : next.pty.reader = w.pty.reader
  waiter : next.pty.waiter = w.pty.waiter
  sent : ∃ more, next.pty.events.sent = w.pty.events.sent ++ more
  taken : next.taken = w.taken
  output : next.output = w.output

def Nearer (w next : World) : Prop := unheard next < unheard w ∨ unheard next = unheard w ∧ Still w next

theorem beside_nearer {w next : World} (busy : 0 < unheard w) (beside : Beside w next) : Nearer w next := by
  obtain ⟨_,_,amount⟩ := unheard_open busy
  have same : speech next.pty = speech w.pty := by
    rw [speech,unsaid,beside.reader,beside.writer,beside.waiter,beside.sent]
    rfl
  have most := unheard_most next
  rw [same,beside.taken,beside.output] at most
  rcases Nat.lt_or_ge (unheard next) (unheard w) with less | more
  · exact .inl less
  · exact .inr ⟨by omega,beside.reader,beside.waiter,⟨[],by rw [List.append_nil,beside.sent]⟩,beside.taken,beside.output⟩

def afterThread (w : World) (m : PtySession.Move) : World :=
  {w with pty := w.pty.step m,handed := w.handed ++ LocalSession.taken w.pty m}

theorem speech_nearer {w : World} (shows : Shows w) (busy : 0 < unheard w) (m : PtySession.Move) (less : speech (w.pty.step m) < speech w.pty) :
    unheard (afterThread w m) < unheard w := by
  obtain ⟨_,_,amount⟩ := unheard_open busy
  have most := unheard_most (afterThread w m)
  change unheard (afterThread w m) ≤ speech (w.pty.step m)-2*w.taken+listening w.output at most
  obtain ⟨more,grown⟩ := sent_grows shows.chunks.barred m
  have said : 2*w.taken ≤ speech (w.pty.step m) := by
    have inside := shows.inside
    rw [speech,grown,List.length_append]
    omega
  omega

theorem thread_nearer {w : World} (shows : Shows w) (busy : 0 < unheard w) {m : PtySession.Move} (thread : (turnOf m).isSome = true)
    (gone : Gone m) : Nearer w (afterThread w m) := by
  obtain ⟨least,rest⟩ := thread_speech w.pty m gone thread
  rcases Nat.lt_or_eq_of_le least with less | same
  · exact .inl (speech_nearer shows busy m less)
  · have amount : unheard (afterThread w m) = unheard w := by
      change (if w.main.past || w.output.past then 0 else speech (w.pty.step m)-2*w.taken+listening w.output) = unheard w
      rw [same]
      rfl
    refine .inr ⟨amount,?_,?_,sent_grows shows.chunks.barred m,rfl,rfl⟩
    · change (w.pty.step m).reader = w.pty.reader
      cases m with
      | writer written =>
          obtain ⟨_,_,_,_,_,frame⟩ := writer_frame w.pty written
          rw [PtySession.World.step,frame]
      | reader result =>
          rw [(rest (by simp [turnOf])).resolve_left fun less => absurd same (Nat.ne_of_lt less)]
      | waiter polled now =>
          rw [(rest (by simp [turnOf])).resolve_left fun less => absurd same (Nat.ne_of_lt less)]
      | _ => cases thread
    · change (w.pty.step m).waiter = w.pty.waiter
      cases m with
      | writer written =>
          obtain ⟨_,_,_,_,_,frame⟩ := writer_frame w.pty written
          rw [PtySession.World.step,frame]
      | reader result =>
          rw [(rest (by simp [turnOf])).resolve_left fun less => absurd same (Nat.ne_of_lt less)]
      | waiter polled now =>
          rw [(rest (by simp [turnOf])).resolve_left fun less => absurd same (Nat.ne_of_lt less)]
      | _ => cases thread

-- The output thread has something to write or to receive.
def Able (w : World) : Prop := (∃ data, w.output = .writing data) ∨ w.output = .receiving ∧ w.taken < w.pty.events.sent.length

theorem leave_unheard (w : World) (why : Why) : unheard (w.leave why) = 0 := unheard_past rfl

theorem forward_able {w : World} (busy : 0 < unheard w) (able : Able w) (written : Option Nat) :
    unheard (w.forwardOutput written) < unheard w := by
  obtain ⟨_,_,amount⟩ := unheard_open busy
  unfold World.forwardOutput
  rcases able with ⟨data,at_⟩ | ⟨at_,inside⟩
  · rw [at_]
    cases written with
    | none =>
        have most := unheard_most {w with stdout := w.stdout ++ data,output := .receiving}
        change _ ≤ speech w.pty-2*w.taken+1 at most
        rw [at_] at amount
        change _ = _+2 at amount
        dsimp only
        omega
    | some n =>
        dsimp only
        rw [leave_unheard]
        exact busy
  · rw [at_,List.getElem?_eq_getElem inside]
    have said : 2*(w.taken+1) ≤ speech w.pty := by
      unfold speech
      omega
    cases w.pty.events.sent[w.taken] with
    | output data =>
        have most := unheard_most {w with taken := w.taken+1,output := .writing data}
        change _ ≤ speech w.pty-2*(w.taken+1)+2 at most
        rw [at_] at amount
        change _ = _+1 at amount
        dsimp only
        omega
    | exited status =>
        dsimp only
        rw [leave_unheard]
        exact busy
    | error err =>
        dsimp only
        rw [leave_unheard]
        exact busy

theorem forward_nearer {w : World} (busy : 0 < unheard w) (written : Option Nat) : Nearer w (w.forwardOutput written) := by
  by_cases able : Able w
  · exact .inl (forward_able busy able written)
  · obtain ⟨_,open_,_⟩ := unheard_open busy
    have still : Nearer w w := .inr ⟨rfl,rfl,rfl,⟨[],(List.append_nil _).symm⟩,rfl,rfl⟩
    unfold World.forwardOutput
    cases at_ : w.output with
    | writing data => exact absurd (.inl ⟨data,at_⟩) able
    | finished why => rw [at_] at open_; cases open_
    | receiving =>
        have empty : w.pty.events.sent[w.taken]? = none :=
          List.getElem?_eq_none (Nat.le_of_not_lt fun inside => able (.inr ⟨at_,inside⟩))
        rw [empty]
        dsimp only
        split
        · exact .inl (by rw [leave_unheard]; exact busy)
        · exact still

theorem step_nearer {w : World} (sound : Sound w) (busy : 0 < unheard w) {move : Move} (calm : Calm move) : Nearer w (w.step move) := by
  obtain ⟨main,_,_⟩ := unheard_open busy
  have still : Nearer w w := .inr ⟨rfl,rfl,rfl,⟨[],(List.append_nil _).symm⟩,rfl,rfl⟩
  unfold World.step
  rw [if_neg (by rw [main]; exact Bool.false_ne_true)]
  cases move with
  | thread m =>
      dsimp only
      split
      · rename_i thread
        exact thread_nearer sound.shows busy thread calm
      · exact still
  | output written => exact forward_nearer busy written
  | main polled read late => exact beside_nearer busy (pump_beside (pump_cases w polled read late))
  | sigwinch winsize => exact beside_nearer busy (resize_beside (sigwinch_cases w winsize))

def needs (w : World) : Party → Prop
  | .thread .reader => w.pty.reader ≠ .finished
  | .thread .waiter => due w.pty .waiter
  | .output => Able w
  | _ => False

def listeners : List Party := [.thread .reader,.thread .waiter,.output]

theorem needs_turn {w : World} (sound : Sound w) (busy : 0 < unheard w) {party : Party} (needed : needs w party) {move : Move}
    (own : partyOf move = some party) (calm : Calm move) : unheard (w.step move) < unheard w := by
  obtain ⟨main,_,_⟩ := unheard_open busy
  unfold World.step
  rw [if_neg (by rw [main]; exact Bool.false_ne_true)]
  cases move with
  | thread m =>
      cases m with
      | reader result =>
          cases own
          exact speech_nearer sound.shows busy _ (reader_speech calm needed)
      | writer written =>
          cases own
          exact absurd needed id
      | waiter polled now =>
          cases own
          exact speech_nearer sound.shows busy _ (waiter_speech calm needed)
      | _ => cases own
  | output written =>
      cases own
      exact forward_able busy needed written
  | main polled read late =>
      cases own
      exact absurd needed id
  | sigwinch winsize => cases own

theorem still_needs {w next : World} (still : Still w next) {party : Party} (needed : needs w party) : needs next party := by
  cases party with
  | thread t =>
      cases t with
      | reader => exact fun rests => needed (still.reader ▸ rests)
      | writer => exact needed
      | waiter =>
          unfold needs due
          rw [still.reader,still.waiter]
          exact needed
  | output =>
      obtain ⟨more,grown⟩ := still.sent
      unfold needs Able
      rw [still.output,still.taken,grown,List.length_append]
      exact needed.imp id fun able => ⟨able.1,Nat.lt_of_lt_of_le able.2 (Nat.le_add_right _ _)⟩
  | main => exact needed

-- The reader and the waiter come to their ends, and then the waiter's last word is ahead of the output thread.
theorem someone_needed {w : World} (shows : Shows w) (busy : 0 < unheard w) : ∃ party ∈ listeners, needs w party := by
  obtain ⟨_,open_,_⟩ := unheard_open busy
  by_cases reads : w.pty.reader = .finished
  · by_cases waits : w.pty.waiter = .finished
    · refine ⟨.output,by decide,?_⟩
      cases at_ : w.output with
      | writing data => exact .inl ⟨data,at_⟩
      | finished why => rw [at_] at open_; cases open_
      | receiving =>
          refine .inr ⟨at_,Nat.lt_of_not_le fun beyond => ?_⟩
          exact never_disconnected shows open_ (List.getElem?_eq_none beyond) waits
    · exact ⟨.thread .waiter,by decide,waits,.inl reads⟩
  · exact ⟨.thread .reader,by decide,reads⟩

theorem output_stays {w : World} (past : w.output.past = true) (move : Move) : (w.step move).output.past = true := by
  unfold World.step
  split
  · exact past
  · cases move with
    | thread m => dsimp only; split <;> exact past
    | output written =>
        cases at_ : w.output with
        | finished why => simp only [World.forwardOutput,at_]; rfl
        | receiving => rw [at_] at past; cases past
        | writing data => rw [at_] at past; cases past
    | main polled read late => exact (congrArg Output.past (pump_beside (pump_cases w polled read late)).output).trans past
    | sigwinch winsize => exact (congrArg Output.past (resize_beside (sigwinch_cases w winsize)).output).trans past

theorem unheard_stays {w : World} (rest : unheard w = 0) (move : Move) : unheard (w.step move) = 0 := by
  cases main : w.main.past with
  | true =>
      have same : w.step move = w := if_pos main
      rw [same]
      exact rest
  | false =>
      refine unheard_past (output_stays ?_ move)
      cases at_ : w.output with
      | finished why => rfl
      | receiving => simp [unheard,main,at_,Output.past,listening] at rest
      | writing data => simp [unheard,main,at_,Output.past,listening] at rest

theorem output_ends : FairRounds.Drains World.step Sound Calm listeners (fun party move => partyOf move = some party ∧ Calm move)
    (fun w party => 0 < unheard w ∧ needs w party) unheard := by
  refine ⟨fun w move sound _ => step_sound w move sound,fun w move sound calm => ?_,fun w sound busy => ?_,
    fun w move party sound owed own => needs_turn sound owed.1 owed.2 own.1 own.2,fun w move party sound calm owed same => ?_⟩
  · rcases Nat.eq_zero_or_pos (unheard w) with rest | busy
    · exact Nat.le_of_eq ((unheard_stays rest move).trans rest.symm)
    · rcases step_nearer sound busy calm with less | ⟨same,_⟩
      · exact Nat.le_of_lt less
      · exact Nat.le_of_eq same
  · obtain ⟨party,member,needed⟩ := someone_needed sound.shows busy
    exact ⟨party,member,busy,needed⟩
  · rcases step_nearer sound owed.1 calm with less | ⟨_,still⟩
    · rw [same] at less
      exact absurd less (Nat.lt_irrefl _)
    · exact ⟨same ▸ owed.1,still_needs still owed.2⟩

-- How far `main` is from the join of the session's threads, once the output thread is over.
def handleLeft : Handle → Nat
  | .held => 2
  | .commanded => 1
  | _ => 0

def mainLeft (w : World) : Nat :=
  match w.main with
  | .reading _ => 5
  | .sending _ _ => 4
  | .polling => 3
  | .dropping _ => handleLeft w.pty.handle
  | _ => 0

structure Leaving (w : World) : Prop where
  sound : Sound w
  past : w.output.past = true

theorem step_leaving (w : World) (move : Move) (leaving : Leaving w) : Leaving (w.step move) :=
  ⟨step_sound w move leaving.sound,output_stays leaving.past move⟩

theorem others_main (w : World) {move : Move} (other : partyOf move ≠ some .main) :
    (w.step move).main = w.main ∧ (w.step move).pty.handle = w.pty.handle := by
  have leaves (taken : Nat) (stdout : List UInt8) (why : Why) :
      (World.leave {w with taken := taken,stdout := stdout} why).main = w.main ∧
        (World.leave {w with taken := taken,stdout := stdout} why).pty.handle = w.pty.handle :=
    ⟨rfl,handle_same w.pty .dropReceiver (by simp)⟩
  unfold World.step
  split
  · exact ⟨rfl,rfl⟩
  · cases move with
    | thread m =>
        dsimp only
        split
        · rename_i thread
          exact ⟨rfl,(threads_channel w.pty thread).2.1⟩
        · exact ⟨rfl,rfl⟩
    | output written =>
        have forwards := forward_cases w written
        dsimp only
        generalize w.forwardOutput written = next at forwards ⊢
        cases forwards with
        | waits => exact ⟨rfl,rfl⟩
        | takes _ _ => exact ⟨rfl,rfl⟩
        | stops _ _ _ => exact leaves _ w.stdout _
        | disconnects _ _ _ => exact leaves w.taken w.stdout _
        | writes _ => exact ⟨rfl,rfl⟩
        | breaks _ n => exact leaves w.taken _ _
    | main polled read late => exact absurd rfl other
    | sigwinch winsize =>
        have resizes := sigwinch_cases w winsize
        dsimp only
        generalize w.onSigwinch winsize = next at resizes ⊢
        cases resizes with
        | waits => exact ⟨rfl,rfl⟩
        | sends _ => exact ⟨rfl,handle_same w.pty (.command _) (by simp)⟩
        | fails => exact ⟨rfl,rfl⟩

theorem dropSession_left {w : World} {result : Except Errno Unit} (at_ : w.main = .dropping result) (late : Bool) (busy : 0 < mainLeft w) :
    mainLeft (w.dropSession result late) < mainLeft w := by
  have amount : mainLeft w = handleLeft w.pty.handle := by rw [mainLeft,at_]
  rw [amount] at busy ⊢
  have dropped : mainLeft {w with pty := w.pty.step .drop} = handleLeft (w.pty.step .drop).handle := by
    unfold mainLeft
    rw [at_]
  unfold World.dropSession
  cases handle : w.pty.handle with
  | held =>
      dsimp only
      rw [dropped,drop_handle,handle]
      decide
  | commanded =>
      dsimp only
      rw [dropped,drop_handle,handle]
      decide
  | signalled => rw [handle] at busy; cases busy
  | released => rw [handle] at busy; cases busy

theorem main_left {w : World} (leaving : Leaving w) (busy : 0 < mainLeft w) {polled : Except Errno Revents} (calm : polled ≠ .error eintr)
    (read : Except Errno (List UInt8)) (late : Bool) : mainLeft (w.pumpStdin polled read late) < mainLeft w := by
  have held (pumps : w.main.pumping = true) : w.pty.handle = .held := leaving.sound.stands.pumping pumps
  have drops (pumps : w.main.pumping = true) (result : Except Errno Unit) (typed : List (List UInt8)) :
      mainLeft {w with main := .dropping result,typed := typed} = 2 := by
    change handleLeft w.pty.handle = 2
    rw [held pumps]
    rfl
  unfold World.pumpStdin
  cases at_ : w.main with
  | polling =>
      have three : mainLeft w = 3 := by rw [mainLeft,at_]
      have out (result : Except Errno Unit) : mainLeft {w with main := .dropping result} < mainLeft w := by
        rw [three,drops (by rw [at_]; rfl) result w.typed]
        decide
      cases polled with
      | error e =>
          have other : e ≠ eintr := fun same => calm (by rw [same])
          dsimp only
          rw [if_neg other]
          exact out _
      | ok revents =>
          dsimp only
          rw [if_pos leaving.past]
          exact out _
  | reading hangup =>
      have five : mainLeft w = 5 := by rw [mainLeft,at_]
      have out (result : Except Errno Unit) : mainLeft {w with main := .dropping result} < mainLeft w := by
        rw [five,drops (by rw [at_]; rfl) result w.typed]
        decide
      dsimp only
      split
      · exact out _
      · rw [five]
        exact (by decide : 4 < 5)
      · split
        · rw [five]
          exact (by decide : 3 < 5)
        · exact out _
  | sending data hangup =>
      have four : mainLeft w = 4 := by rw [mainLeft,at_]
      have pumps : w.main.pumping = true := by rw [at_]; rfl
      dsimp only [World.send]
      by_cases gone : w.pty.writer = .finished
      · rw [if_pos gone,four]
        exact Nat.lt_of_le_of_lt (Nat.le_of_eq (drops pumps _ w.typed)) (by decide)
      · rw [if_neg gone,four]
        have handle : (w.pty.step (.command (.write data))).handle = .held := (handle_same w.pty (.command _) (by simp)).trans (held pumps)
        cases hangup with
        | true =>
            change handleLeft (w.pty.step (.command (.write data))).handle < 4
            rw [handle]
            decide
        | false => exact (by decide : 3 < 4)
  | dropping result => exact dropSession_left at_ late busy
  | joining => rw [mainLeft,at_] at busy; cases busy
  | finished result => rw [mainLeft,at_] at busy; cases busy

theorem mainLeft_past {w : World} (busy : 0 < mainLeft w) : w.main.past = false := by
  cases at_ : w.main with
  | finished result => rw [mainLeft,at_] at busy; cases busy
  | _ => rfl

theorem left_stays {w : World} (rest : mainLeft w = 0) (polled : Except Errno Revents) (read : Except Errno (List UInt8)) (late : Bool) :
    mainLeft (w.pumpStdin polled read late) = 0 := by
  unfold World.pumpStdin
  cases at_ : w.main with
  | polling => simp [mainLeft,at_] at rest
  | reading hangup => simp [mainLeft,at_] at rest
  | sending data hangup => simp [mainLeft,at_] at rest
  | dropping result =>
      dsimp only [World.dropSession]
      cases handle : w.pty.handle with
      | held => simp [mainLeft,at_,handle,handleLeft] at rest
      | commanded => simp [mainLeft,at_,handle,handleLeft] at rest
      | signalled =>
          dsimp only
          split
          · cases result <;> rfl
          · exact rest
      | released =>
          dsimp only
          split
          · cases result <;> rfl
          · exact rest
  | joining =>
      dsimp only
      split
      · rfl
      · exact rest
  | finished result => exact rest

theorem rest_stays {w : World} (rest : mainLeft w = 0) (move : Move) : mainLeft (w.step move) = 0 := by
  by_cases own : partyOf move = some .main
  · cases move with
    | main polled read late =>
        unfold World.step
        split
        · exact rest
        · exact left_stays rest polled read late
    | _ => simp [partyOf] at own
  · obtain ⟨main,handle⟩ := others_main w own
    rw [mainLeft,main,handle]
    exact rest

theorem main_leaves : FairRounds.Drains World.step Leaving Calm [Party.main] (fun party move => partyOf move = some party ∧ Calm move)
    (fun w party => party = .main ∧ 0 < mainLeft w) mainLeft := by
  have turn (w : World) (move : Move) (leaving : Leaving w) (busy : 0 < mainLeft w) (own : partyOf move = some .main) (calm : Calm move) :
      mainLeft (w.step move) < mainLeft w := by
    cases move with
    | main polled read late =>
        have same : w.step (.main polled read late) = w.pumpStdin polled read late :=
          if_neg (by rw [mainLeft_past busy]; exact Bool.false_ne_true)
        rw [same]
        exact main_left leaving busy calm read late
    | thread m =>
        cases turns : turnOf m <;> simp [partyOf,turns] at own
    | output written => cases own
    | sigwinch winsize => cases own
  have aside (w : World) (move : Move) (other : partyOf move ≠ some .main) : mainLeft (w.step move) = mainLeft w := by
    obtain ⟨main,handle⟩ := others_main w other
    rw [mainLeft,mainLeft,main,handle]
  refine ⟨fun w move leaving _ => step_leaving w move leaving,fun w move leaving calm => ?_,fun w leaving busy => ?_,
    fun w move party leaving owed own => ?_,fun w move party leaving calm owed same => ⟨owed.1,same ▸ owed.2⟩⟩
  · by_cases own : partyOf move = some .main
    · rcases Nat.eq_zero_or_pos (mainLeft w) with rest | busy
      · exact Nat.le_of_eq ((rest_stays rest move).trans rest.symm)
      · exact Nat.le_of_lt (turn w move leaving busy own calm)
    · exact Nat.le_of_eq (aside w move own)
  · exact ⟨.main,List.mem_cons_self,rfl,busy⟩
  · obtain ⟨rfl,busy⟩ := owed
    exact turn w move leaving busy own.1 own.2

-- Behind the session's signals: the session's threads end, `main` has joined them and returns.
structure Closing (w : World) : Prop where
  leaving : Leaving w
  rest : mainLeft w = 0

def mainRest : Main → Nat
  | .dropping _ => 2
  | .joining => 1
  | _ => 0

def unclosed (w : World) : Nat := if w.main.past then 0 else left w.pty+mainRest w.main

theorem closing_joined {w : World} (closing : Closing w) : w.main.past = true ∨ w.main.pumping = false ∧ joined w.pty.handle = true := by
  have rest := closing.rest
  have stands := closing.leaving.sound.stands
  cases at_ : w.main with
  | polling => simp [mainLeft,at_] at rest
  | reading hangup => simp [mainLeft,at_] at rest
  | sending data hangup => simp [mainLeft,at_] at rest
  | dropping result =>
      refine .inr ⟨rfl,?_⟩
      cases handle : w.pty.handle with
      | held => simp [mainLeft,at_,handle,handleLeft] at rest
      | commanded => simp [mainLeft,at_,handle,handleLeft] at rest
      | signalled => rfl
      | released => rfl
  | joining =>
      refine .inr ⟨rfl,?_⟩
      rw [stands.released (by rw [at_]; rfl) fun result wrong => by rw [at_] at wrong; cases wrong]
      rfl
  | finished result => exact .inl rfl

theorem unclosed_open {w : World} (busy : 0 < unclosed w) : w.main.past = false ∧ unclosed w = left w.pty+mainRest w.main := by
  unfold unclosed at *
  cases past : w.main.past with
  | true => simp [past] at busy
  | false => exact ⟨rfl,rfl⟩

theorem unclosed_most (w : World) : unclosed w ≤ left w.pty+mainRest w.main := by
  unfold unclosed
  split
  · exact Nat.zero_le _
  · exact Nat.le_refl _

theorem closing_stopping {w : World} (closing : Closing w) (open_ : w.main.past = false) :
    Stopping w.pty ∧ w.main.pumping = false := by
  obtain ⟨pumps,joins⟩ := (closing_joined closing).resolve_left (by rw [open_]; exact Bool.false_ne_true)
  exact ⟨⟨closing.leaving.sound.stands.announced,joins⟩,pumps⟩

-- What a turn that closes nothing leaves alone.
structure Kept (w next : World) : Prop where
  idle : Idle w.pty next.pty
  main : next.main = w.main

def Closer (w next : World) : Prop := unclosed next < unclosed w ∨ unclosed next = unclosed w ∧ Kept w next

theorem kept_closer {w next : World} (kept : Kept w next) : Closer w next := by
  refine .inr ⟨?_,kept⟩
  unfold unclosed
  rw [kept.main,kept.idle.left]

theorem idle_refl (w : PtySession.World) : Idle w w := ⟨rfl,rfl,rfl,rfl⟩

theorem idle_trans {w middle next : PtySession.World} (one : Idle w middle) (two : Idle middle next) : Idle w next :=
  ⟨two.left.trans one.left,two.reader.trans one.reader,two.writer.trans one.writer,two.waiter.trans one.waiter⟩

theorem aside_idle {w : PtySession.World} (stopping : Stopping w) {m : PtySession.Move} (aside : Aside m) : Idle w (w.step m) := by
  refine undue_idle stopping m fun thread own => ?_
  cases m with
  | command c => cases own
  | drop => cases own
  | dropReceiver => cases own
  | _ => exact absurd aside id

theorem ended_senderless {w : PtySession.World} (ended : Ended w) : LocalSession.backend.senderless w = true := by
  obtain ⟨reads,written,waits⟩ := ended
  change (w.reader == .finished && w.writer == .finished && _) = true
  rw [reads,written,waits]
  rfl

-- The threads are joined, or the time for it is over: `main` goes on, and nothing is left open by it.
theorem release_closer {w : World} (closing : Closing w) (busy : 0 < unclosed w) {result : Except Errno Unit} (at_ : w.main = .dropping result)
    {late : Bool} (done : (LocalSession.backend.senderless w.pty || late) = true) : unclosed (w.dropSession result late) < unclosed w := by
  obtain ⟨open_,amount⟩ := unclosed_open busy
  obtain ⟨stopping,_⟩ := closing_stopping closing open_
  have dropped := aside_idle stopping (m := .drop) trivial
  have next := step_stopping w.pty .drop stopping
  have released (past : Bool) : Idle w.pty (if past then (w.pty.step .drop).step .dropReceiver else w.pty.step .drop) := by
    cases past with
    | true => exact idle_trans dropped (aside_idle next (m := .dropReceiver) trivial)
    | false => exact dropped
  have joins := stopping.joining
  rw [amount,at_]
  unfold World.dropSession
  have less (main : Main) (fewer : mainRest main ≤ 1) :
      unclosed {w with pty := if w.output.past then (w.pty.step .drop).step .dropReceiver else w.pty.step .drop,main := main} <
        left w.pty+mainRest (.dropping result) := by
    refine Nat.lt_of_le_of_lt (unclosed_most _) ?_
    change left (if w.output.past then (w.pty.step .drop).step .dropReceiver else w.pty.step .drop)+mainRest main < left w.pty+2
    rw [(released w.output.past).left]
    omega
  cases handle : w.pty.handle with
  | held => rw [handle] at joins; cases joins
  | commanded => rw [handle] at joins; cases joins
  | signalled =>
      dsimp only
      rw [if_pos done]
      cases result with
      | ok _ => exact less .joining (by decide)
      | error e => exact less (.finished (.error e)) (Nat.zero_le 1)
  | released => exact absurd handle (closing.leaving.sound.stands.dropping result at_)

theorem main_closer {w : World} (closing : Closing w) (busy : 0 < unclosed w) (polled : Except Errno Revents) (read : Except Errno (List UInt8))
    (late : Bool) : Closer w (w.pumpStdin polled read late) ∧
      (w.main = .joining ∨ (∃ result, w.main = .dropping result) ∧ Ended w.pty → unclosed (w.pumpStdin polled read late) < unclosed w) := by
  obtain ⟨open_,amount⟩ := unclosed_open busy
  obtain ⟨stopping,out⟩ := closing_stopping closing open_
  unfold World.pumpStdin
  cases at_ : w.main with
  | polling => rw [at_] at out; cases out
  | reading hangup => rw [at_] at out; cases out
  | sending data hangup => rw [at_] at out; cases out
  | finished result => rw [at_] at open_; cases open_
  | joining =>
      have less : unclosed {w with main := .finished (.ok ())} < unclosed w := by
        rw [amount,at_]
        exact Nat.succ_pos _
      dsimp only
      rw [if_pos closing.leaving.past]
      exact ⟨.inl less,fun _ => less⟩
  | dropping result =>
      dsimp only
      by_cases done : (LocalSession.backend.senderless w.pty || late) = true
      · have less := release_closer closing busy at_ done
        exact ⟨.inl less,fun _ => less⟩
      · have waits : w.dropSession result late = w := by
          have joins := stopping.joining
          unfold World.dropSession
          cases handle : w.pty.handle with
          | held => rw [handle] at joins; cases joins
          | commanded => rw [handle] at joins; cases joins
          | signalled => exact if_neg done
          | released => exact if_neg done
        rw [waits]
        refine ⟨kept_closer ⟨idle_refl _,rfl⟩,fun owed => ?_⟩
        rcases owed with wrong | ⟨_,ended⟩
        · cases wrong
        · exact absurd (by rw [ended_senderless ended,Bool.true_or]) done

theorem step_closer {w : World} (closing : Closing w) (busy : 0 < unclosed w) {move : Move} (calm : Calm move) : Closer w (w.step move) := by
  obtain ⟨open_,amount⟩ := unclosed_open busy
  obtain ⟨stopping,out⟩ := closing_stopping closing open_
  have same : Closer w w := kept_closer ⟨idle_refl _,rfl⟩
  unfold World.step
  rw [if_neg (by rw [open_]; exact Bool.false_ne_true)]
  cases move with
  | thread m =>
      dsimp only
      split
      · rcases turn_shrinks stopping m calm with less | idle
        · refine .inl ?_
          rw [amount]
          exact Nat.lt_of_le_of_lt (unclosed_most _) (Nat.add_lt_add_right less _)
        · exact kept_closer ⟨idle,rfl⟩
      · exact same
  | output written =>
      have past := closing.leaving.past
      cases at_ : w.output with
      | receiving => rw [at_] at past; cases past
      | writing data => rw [at_] at past; cases past
      | finished why =>
          simp only [World.forwardOutput,at_]
          exact same
  | main polled read late => exact (main_closer closing busy polled read late).1
  | sigwinch winsize =>
      dsimp only [World.onSigwinch,World.send]
      split
      · exact same
      · split
        · exact same
        · split
          · exact kept_closer ⟨idle_refl _,rfl⟩
          · exact kept_closer ⟨aside_idle stopping (m := .command _) trivial,rfl⟩

def closes (w : World) : Party → Prop
  | .thread t => due w.pty t
  | .main => w.main = .joining ∨ (∃ result, w.main = .dropping result) ∧ Ended w.pty
  | .output => False

def closers : List Party := [.thread .reader,.thread .writer,.thread .waiter,.main]

theorem closes_turn {w : World} (closing : Closing w) (busy : 0 < unclosed w) {party : Party} (owed : closes w party) {move : Move}
    (own : partyOf move = some party) (calm : Calm move) : unclosed (w.step move) < unclosed w := by
  obtain ⟨open_,amount⟩ := unclosed_open busy
  obtain ⟨stopping,_⟩ := closing_stopping closing open_
  unfold World.step
  rw [if_neg (by rw [open_]; exact Bool.false_ne_true)]
  cases move with
  | thread m =>
      cases turns : turnOf m with
      | none => simp [partyOf,turns] at own
      | some t =>
          simp only [partyOf,turns,Option.map_some,Option.some.injEq] at own
          subst own
          have less := due_turn stopping owed m turns calm
          dsimp only
          rw [if_pos (by rw [turns]; rfl),amount]
          exact Nat.lt_of_le_of_lt (unclosed_most _) (Nat.add_lt_add_right less _)
  | output written =>
      cases own
      exact absurd owed id
  | main polled read late =>
      cases own
      exact (main_closer closing busy polled read late).2 owed
  | sigwinch winsize => cases own

theorem closing_helps {w : World} (closing : Closing w) (busy : 0 < unclosed w) : ∃ party ∈ closers, closes w party := by
  obtain ⟨open_,amount⟩ := unclosed_open busy
  obtain ⟨stopping,out⟩ := closing_stopping closing open_
  rcases Nat.eq_zero_or_pos (left w.pty) with rest | more
  · refine ⟨.main,by decide,?_⟩
    cases at_ : w.main with
    | polling => rw [at_] at out; cases out
    | reading hangup => rw [at_] at out; cases out
    | sending data hangup => rw [at_] at out; cases out
    | finished result => rw [at_] at open_; cases open_
    | joining => exact .inl at_
    | dropping result => exact .inr ⟨⟨result,at_⟩,left_ended rest⟩
  · obtain ⟨t,_,owed⟩ := PtyTeardown.closes.helps w.pty stopping more
    refine ⟨.thread t,?_,owed⟩
    cases t <;> decide

theorem kept_closes {w next : World} (kept : Kept w next) {party : Party} (owed : closes w party) : closes next party := by
  obtain ⟨reads,wrote,waits⟩ : next.pty.reader = w.pty.reader ∧ next.pty.writer = w.pty.writer ∧ next.pty.waiter = w.pty.waiter :=
    ⟨kept.idle.reader,kept.idle.writer,kept.idle.waiter⟩
  cases party with
  | thread t =>
      cases t with
      | reader => exact fun rests => owed (reads ▸ rests)
      | writer => exact fun rests => owed (wrote ▸ rests)
      | waiter =>
          unfold closes due
          rw [reads,waits]
          exact owed
  | main =>
      unfold closes Ended
      rw [kept.main,reads,wrote,waits]
      exact owed
  | output => exact owed

theorem closed_past {w : World} (closing : Closing w) (rest : unclosed w = 0) : w.main.past = true := by
  rcases closing_joined closing with past | ⟨out,_⟩
  · exact past
  · cases at_ : w.main with
    | polling => rw [at_] at out; cases out
    | reading hangup => rw [at_] at out; cases out
    | sending data hangup => rw [at_] at out; cases out
    | dropping result => simp [unclosed,at_,Main.past,mainRest] at rest
    | joining => simp [unclosed,at_,Main.past,mainRest] at rest
    | finished result => rfl

theorem session_closes : FairRounds.Drains World.step Closing Calm closers (fun party move => partyOf move = some party ∧ Calm move)
    (fun w party => 0 < unclosed w ∧ closes w party) unclosed := by
  refine ⟨fun w move closing _ => ⟨step_leaving w move closing.leaving,rest_stays closing.rest move⟩,fun w move closing calm => ?_,
    fun w closing busy => ?_,fun w move party closing owed own => closes_turn closing owed.1 owed.2 own.1 own.2,
    fun w move party closing calm owed same => ?_⟩
  · rcases Nat.eq_zero_or_pos (unclosed w) with rest | busy
    · have same : w.step move = w := if_pos (closed_past closing rest)
      exact Nat.le_of_eq (congrArg unclosed same)
    · rcases step_closer closing busy calm with less | ⟨same,_⟩
      · exact Nat.le_of_lt less
      · exact Nat.le_of_eq same
  · obtain ⟨party,member,owed⟩ := closing_helps closing busy
    exact ⟨party,member,busy,owed⟩
  · rcases step_closer closing owed.1 calm with less | ⟨_,kept⟩
    · rw [same] at less
      exact absurd less (Nat.lt_irrefl _)
    · exact ⟨same ▸ owed.1,kept_closes kept owed.2⟩

theorem frozen {w : World} (past : w.main.past = true) (moves : List Move) : moves.foldl World.step w = w := by
  induction moves with
  | nil => rfl
  | cons move rest ih =>
      have same : w.step move = w := if_pos past
      rw [List.foldl_cons,same]
      exact ih

def parties : List Party := [.thread .reader,.thread .writer,.thread .waiter,.output,.main]

-- Rounds in which each party has a turn at least, the child has gone and no signal interrupts a poll.
structure Fair (rounds : List (List Move)) : Prop where
  turns : ∀ round ∈ rounds, ∀ party ∈ parties, ∃ move ∈ round, partyOf move = some party
  calm : ∀ round ∈ rounds, ∀ move ∈ round, Calm move

theorem fair_part {rounds part : List (List Move)} (fair : Fair rounds) (inside : part ⊆ rounds) : Fair part :=
  ⟨fun round member => fair.turns round (inside member),fun round member => fair.calm round (inside member)⟩

theorem fair_turns {rounds : List (List Move)} (fair : Fair rounds) {some_ : List Party} (inside : some_ ⊆ parties) :
    ∀ round ∈ rounds, ∀ party ∈ some_, ∃ move ∈ round, partyOf move = some party ∧ Calm move := by
  intro round member party known
  obtain ⟨move,there,own⟩ := fair.turns round member party (inside known)
  exact ⟨move,there,own,fair.calm round member move there⟩

theorem unheard_bounded (w : World) : unheard w ≤ 32+2*(w.pty.events.sent.length-w.taken) := by
  have most := unheard_most w
  have few := unsaid_bounded w.pty
  have two : listening w.output ≤ 2 := by
    unfold listening
    split <;> decide
  unfold speech at most
  omega

theorem mainLeft_bounded (w : World) : mainLeft w ≤ 5 := by
  unfold mainLeft handleLeft
  split
  · decide
  · decide
  · decide
  · split <;> decide
  · decide

theorem unclosed_bounded (w : World) : unclosed w ≤ 16+2*w.pty.commands.length := by
  have most := unclosed_most w
  have few := left_bounded w.pty
  have two : mainRest w.main ≤ 2 := by
    unfold mainRest
    split <;> decide
  omega

-- The output thread sees the last event, and `main` comes to the joins behind it.
theorem opening_closing {w : World} (sound : Sound w) {opening : List (List Move)} (fair : Fair opening)
    (enough : 37+2*(w.pty.events.sent.length-w.taken) ≤ opening.length) :
    (opening.flatten.foldl World.step w).main.past = true ∨ Closing (opening.flatten.foldl World.step w) := by
  have split := List.take_append_drop (opening.length-5) opening
  have first := fair_part fair (List.take_subset (opening.length-5) opening)
  have second := fair_part fair (List.drop_subset (opening.length-5) opening)
  have long : unheard w ≤ (opening.take (opening.length-5)).length := by
    have bounded := unheard_bounded w
    rw [List.length_take]
    omega
  obtain ⟨sound,rest⟩ := FairRounds.rounds_rest output_ends sound _ first.calm (fair_turns first (by decide)) long
  rw [← split,List.flatten_append,List.foldl_append]
  generalize (opening.take (opening.length-5)).flatten.foldl World.step w = middle at sound rest
  cases past : middle.main.past with
  | true => exact .inl (by rw [frozen past]; exact past)
  | false =>
      have heard : middle.output.past = true := by
        cases at_ : middle.output with
        | finished why => rfl
        | receiving => simp [unheard,past,at_,Output.past,listening] at rest
        | writing data => simp [unheard,past,at_,Output.past,listening] at rest
      have five : mainLeft middle ≤ (opening.drop (opening.length-5)).length := by
        have bounded := mainLeft_bounded middle
        rw [List.length_drop]
        omega
      obtain ⟨leaving,done⟩ := FairRounds.rounds_rest main_leaves ⟨sound,heard⟩ _ second.calm (fair_turns second (by decide)) five
      exact .inr ⟨leaving,done⟩

theorem demo_returns (pid pgid : Option Int) (moves : List Move) (opening closing : List (List Move)) (fair : Fair (opening ++ closing)) :
    let w := moves.foldl World.step (begun pid pgid)
    let opened := opening.flatten.foldl World.step w
    let last := closing.flatten.foldl World.step opened
    37+2*(w.pty.events.sent.length-w.taken) ≤ opening.length → 16+2*opened.pty.commands.length ≤ closing.length →
      ∃ result, last.main = .finished result := by
  intro w opened last enough rest
  have sound : Sound w := reached_sound pid pgid moves
  have past : last.main.past = true := by
    rcases opening_closing sound (fair_part fair (List.subset_append_left _ _)) enough with past | started
    · change (closing.flatten.foldl World.step opened).main.past = true
      rw [frozen past]
      exact past
    · have later := fair_part fair (List.subset_append_right opening closing)
      obtain ⟨closed,done⟩ := FairRounds.rounds_rest session_closes started closing later.calm (fair_turns later (by decide))
        (Nat.le_trans (unclosed_bounded opened) rest)
      exact closed_past closed done
  cases at_ : last.main with
  | finished result => exact ⟨result,rfl⟩
  | _ => rw [at_] at past; cases past

-- The child says two letters and goes, while a key is on its way to it and the window changes.
def lastTurns : List Move :=
  [.thread (.reader (.error ⟨some 5,false⟩)),.thread (.writer true),.thread (.waiter (.ok (some 0)) 0),.output none,
    .main (.ok ⟨false,false⟩) (.ok [97]) false]

theorem demo_returns_greeting :
    let moves : List Move := [.thread (.reader (.ok [104,105])),.main (.ok ⟨true,false⟩) (.ok []) false,.sigwinch (some (24,80))]
    let w := moves.foldl World.step (begun (some 7) none)
    let last := (List.replicate 18 lastTurns).flatten.foldl World.step ((List.replicate 37 lastTurns).flatten.foldl World.step w)
    (∃ result, last.main = .finished result) ∧ last.stdout = [104,105] ∧ last.typed = [[97]] := by
  intro moves w last
  have fair : Fair (List.replicate 37 lastTurns ++ List.replicate 18 lastTurns) := by
    have every : ∀ round ∈ List.replicate 37 lastTurns ++ List.replicate 18 lastTurns, round = lastTurns := fun round member =>
      (List.mem_append.mp member).elim (fun early => (List.mem_replicate.mp early).2) fun late => (List.mem_replicate.mp late).2
    refine ⟨fun round member => ?_,fun round member move inside => ?_⟩
    · rw [every round member]
      decide
    · rw [every round member] at inside
      simp only [lastTurns,List.mem_cons,List.not_mem_nil,or_false] at inside
      rcases inside with rfl | rfl | rfl | rfl | rfl
      · exact fun data wrong => by cases wrong
      · trivial
      · exact fun wrong => by cases wrong
      · trivial
      · exact fun wrong => by cases wrong
  have returned := demo_returns (some 7) none moves _ _ fair (by decide +kernel) (by decide +kernel)
  exact ⟨returned,by decide +kernel,by decide +kernel⟩

end Perga.PtyDemo

import Perga.PtyEnding

namespace Perga.PtyDemo
open PtySession PtyTeardown PtyEnding

abbrev Errno := Int
def eintr : Errno := 4

-- Why `forward_output` is over.
inductive Why where
  | ended (ev : TransportEvent)
  | broken
  | disconnected
  deriving DecidableEq, Repr

inductive Output where
  | receiving
  | writing (data : List UInt8)
  | finished (why : Why)
  deriving DecidableEq, Repr

def Output.past : Output → Bool
  | .finished _ => true
  | _ => false

-- `main` in `pump_stdin`, in the session's destructor, at the join of the output thread, and returned.
inductive Main where
  | polling
  | reading (hangup : Bool)
  | sending (data : List UInt8) (hangup : Bool)
  | dropping (result : Except Errno Unit)
  | joining
  | finished (result : Except Errno Unit)

def Main.pumping : Main → Bool
  | .polling => true
  | .reading _ => true
  | .sending _ _ => true
  | _ => false

def Main.past : Main → Bool
  | .finished _ => true
  | _ => false

-- Readable, and hung up or in error.
structure Revents where
  readable : Bool
  hangup : Bool
  deriving DecidableEq, Repr

-- `typed`, `sent` and `handed` are records of what was read from the standard input, sent to the
-- session and taken by its writer; no code reads them.
structure World where
  pty : PtySession.World
  taken : Nat
  output : Output
  stdout : List UInt8
  main : Main
  sigwinch : Bool
  typed : List (List UInt8)
  sent : List TransportCommand
  handed : List TransportCommand

def begun (pid pgid : Option Int) : World where
  pty := spawn pid pgid
  taken := 0
  output := .receiving
  stdout := []
  main := .polling
  sigwinch := true
  typed := []
  sent := []
  handed := []

-- Each call brings its result: `written` is how far a write of the standard output came that failed,
-- `late` that the time for joining the session's threads is over, and `winsize` what the ioctl said.
inductive Move where
  | thread (m : PtySession.Move)
  | output (written : Option Nat)
  | main (polled : Except Errno Revents) (read : Except Errno (List UInt8)) (late : Bool)
  | sigwinch (winsize : Option (UInt16 × UInt16))

def termSizeFromFd : Option (UInt16 × UInt16) → Option TerminalSize
  | none => none
  | some (rows,cols) => if rows = 0 ∨ cols = 0 then none else some ⟨rows,cols⟩

namespace World

-- The channel goes with the last receiver, and the wake pipe with this thread.
def leave (w : World) (why : Why) : World := {w with pty := w.pty.step .dropReceiver,output := .finished why}

def forwardOutput (w : World) (written : Option Nat) : World :=
  match w.output with
  | .receiving =>
    match w.pty.events.sent[w.taken]? with
    | some (.output data) => {w with taken := w.taken+1,output := .writing data}
    | some ev => {w with taken := w.taken+1}.leave (.ended ev)
    | none => if LocalSession.backend.senderless w.pty then w.leave .disconnected else w
  | .writing data =>
    match written with
    | none => {w with stdout := w.stdout ++ data,output := .receiving}
    | some n => {w with stdout := w.stdout ++ data.take n}.leave .broken
  | .finished _ => w

-- `send` fails once the writer has let go of its receiver.
def send (w : World) (command : TransportCommand) : World × Bool :=
  if w.pty.writer = .finished then (w,false)
  else ({w with pty := w.pty.step (.command command),sent := w.sent ++ [command]},true)

-- Behind the joins the session lets go of its receiver, and the output thread is joined where the pump
-- returned no error.
def release (w : World) (result : Except Errno Unit) : World :=
  {w with
    pty := if w.output.past then (w.pty.step .drop).step .dropReceiver else w.pty.step .drop
    main := match result with
      | .ok () => .joining
      | .error e => .finished (.error e)}

def dropSession (w : World) (result : Except Errno Unit) (late : Bool) : World :=
  match w.pty.handle with
  | .held => {w with pty := w.pty.step .drop}
  | .commanded => {w with pty := w.pty.step .drop}
  | _ => if LocalSession.backend.senderless w.pty || late then w.release result else w

def pumpStdin (w : World) (polled : Except Errno Revents) (read : Except Errno (List UInt8)) (late : Bool) : World :=
  match w.main with
  | .polling =>
    match polled with
    | .error e => if e = eintr then w else {w with main := .dropping (.error e)}
    | .ok revents =>
      if w.output.past then {w with main := .dropping (.ok ())}
      else if revents.readable then {w with main := .reading revents.hangup}
      else if revents.hangup then {w with main := .dropping (.ok ())}
      else w
  | .reading hangup =>
    match read with
    | .ok [] => {w with main := .dropping (.ok ())}
    | .ok data => {w with main := .sending data hangup,typed := w.typed ++ [data]}
    | .error e => if e = eintr then {w with main := .polling} else {w with main := .dropping (.error e)}
  | .sending data hangup =>
    let sent := w.send (.write data)
    if sent.2 then {sent.1 with main := if hangup then .dropping (.ok ()) else .polling}
    else {w with main := .dropping (.ok ())}
  | .dropping result => w.dropSession result late
  | .joining => if w.output.past then {w with main := .finished (.ok ())} else w
  | .finished _ => w

def onSigwinch (w : World) (winsize : Option (UInt16 × UInt16)) : World :=
  if !w.sigwinch then w else
  match termSizeFromFd winsize with
  | none => w
  | some size =>
    let sent := w.send (.resize size)
    if sent.2 then sent.1 else {w with sigwinch := false}

-- The process is gone with `main`.
def step (w : World) (move : Move) : World :=
  if w.main.past then w else
  match move with
  | .thread m =>
    if (turnOf m).isSome then {w with pty := w.pty.step m,handed := w.handed ++ LocalSession.taken w.pty m} else w
  | .output written => w.forwardOutput written
  | .main polled read late => w.pumpStdin polled read late
  | .sigwinch winsize => w.onSigwinch winsize

end World

def Aside : PtySession.Move → Prop
  | .command _ => True
  | .drop => True
  | .dropReceiver => True
  | _ => False

-- What `main` and the signal thread do to the session leaves its threads and what they have sent alone.
theorem aside_same (w : PtySession.World) {m : PtySession.Move} (aside : Aside m) :
    (w.step m).reader = w.reader ∧ (w.step m).writer = w.writer ∧ (w.step m).waiter = w.waiter ∧
      (w.step m).events.sent = w.events.sent ∧ (w.step m).obtained = w.obtained := by
  cases m with
  | command c => simp only [PtySession.World.step]; split <;> exact ⟨rfl,rfl,rfl,rfl,rfl⟩
  | drop => simp only [PtySession.World.step,World.dropStep]; split <;> exact ⟨rfl,rfl,rfl,rfl,rfl⟩
  | dropReceiver => simp only [PtySession.World.step]; split <;> exact ⟨rfl,rfl,rfl,rfl,rfl⟩
  | _ => exact absurd aside id

def writes (commands : List TransportCommand) : List (List UInt8) :=
  commands.filterMap fun c =>
    match c with
    | .write data => some data
    | _ => none

theorem writes_append (first second : List TransportCommand) : writes (first ++ second) = writes first ++ writes second :=
  List.filterMap_append

def inHand : Main → List (List UInt8)
  | .sending data _ => [data]
  | _ => []

-- What a step of the output thread can be.
inductive Forwards (w : World) : World → Prop where
  | waits : Forwards w w
  | takes {data : List UInt8} (at_ : w.output = .receiving) (next : w.pty.events.sent[w.taken]? = some (.output data)) :
      Forwards w {w with taken := w.taken+1,output := .writing data}
  | stops {ev : TransportEvent} (at_ : w.output = .receiving) (next : w.pty.events.sent[w.taken]? = some ev) (last : final ev = true) :
      Forwards w ({w with taken := w.taken+1}.leave (.ended ev))
  | disconnects (at_ : w.output = .receiving) (next : w.pty.events.sent[w.taken]? = none)
      (gone : LocalSession.backend.senderless w.pty = true) : Forwards w (w.leave .disconnected)
  | writes {data : List UInt8} (at_ : w.output = .writing data) : Forwards w {w with stdout := w.stdout ++ data,output := .receiving}
  | breaks {data : List UInt8} (at_ : w.output = .writing data) (n : Nat) : Forwards w ({w with stdout := w.stdout ++ data.take n}.leave .broken)

theorem forward_cases (w : World) (written : Option Nat) : Forwards w (w.forwardOutput written) := by
  unfold World.forwardOutput
  cases at_ : w.output with
  | receiving =>
      cases next : w.pty.events.sent[w.taken]? with
      | none =>
          dsimp only
          split
          · exact .disconnects at_ next ‹_›
          · exact .waits
      | some ev =>
          cases ev with
          | output data => exact .takes at_ next
          | exited status => exact .stops at_ next rfl
          | error err => exact .stops at_ next rfl
  | writing data =>
      cases written with
      | none => exact .writes at_
      | some n => exact .breaks at_ n
  | finished why => exact .waits

-- What a step of `main` can be: in the pump it goes on with nothing in its hand, or it takes a chunk
-- from the standard input to the session; then it signals, joins, and returns.
inductive Pumps (w : World) : World → Prop where
  | waits : Pumps w w
  | turns {main : Main} (pumps : w.main.pumping = true) (empty : inHand w.main = []) (idle : inHand main = [])
      (leads : main.pumping = true ∨ ∃ result, main = .dropping result) : Pumps w {w with main := main}
  | reads {hangup : Bool} (at_ : w.main = .reading hangup) (data : List UInt8) :
      Pumps w {w with main := .sending data hangup,typed := w.typed ++ [data]}
  | sends {data : List UInt8} {hangup : Bool} (at_ : w.main = .sending data hangup) :
      Pumps w {w with
        pty := w.pty.step (.command (.write data))
        sent := w.sent ++ [.write data]
        main := if hangup then .dropping (.ok ()) else .polling}
  | fails {data : List UInt8} {hangup : Bool} (at_ : w.main = .sending data hangup) (gone : w.pty.writer = .finished) :
      Pumps w {w with main := .dropping (.ok ())}
  | signals {result : Except Errno Unit} (at_ : w.main = .dropping result) (before : joined w.pty.handle = false) :
      Pumps w {w with pty := w.pty.step .drop}
  | releases {result : Except Errno Unit} {main : Main} (at_ : w.main = .dropping result) (behind : joined w.pty.handle = true)
      (leads : main = .joining ∨ ∃ e, main = .finished (.error e)) :
      Pumps w {w with pty := if w.output.past then (w.pty.step .drop).step .dropReceiver else w.pty.step .drop,main := main}
  | returns (at_ : w.main = .joining) (past : w.output.past = true) : Pumps w {w with main := .finished (.ok ())}

theorem release_cases {w : World} {result : Except Errno Unit} (at_ : w.main = .dropping result) (behind : joined w.pty.handle = true) :
    Pumps w (w.release result) := by
  cases result with
  | ok _ => exact .releases at_ behind (.inl rfl)
  | error e => exact .releases at_ behind (.inr ⟨e,rfl⟩)

theorem dropSession_cases {w : World} {result : Except Errno Unit} (at_ : w.main = .dropping result) (late : Bool) :
    Pumps w (w.dropSession result late) := by
  unfold World.dropSession
  cases handle : w.pty.handle with
  | held => exact .signals at_ (by rw [handle]; rfl)
  | commanded => exact .signals at_ (by rw [handle]; rfl)
  | signalled =>
      dsimp only
      split
      · exact release_cases at_ (by rw [handle]; rfl)
      · exact .waits
  | released =>
      dsimp only
      split
      · exact release_cases at_ (by rw [handle]; rfl)
      · exact .waits

theorem pump_cases (w : World) (polled : Except Errno Revents) (read : Except Errno (List UInt8)) (late : Bool) :
    Pumps w (w.pumpStdin polled read late) := by
  unfold World.pumpStdin
  cases at_ : w.main with
  | polling =>
      have goes {main : Main} (idle : inHand main = []) (leads : main.pumping = true ∨ ∃ result, main = .dropping result) :
          Pumps w {w with main := main} := .turns (by rw [at_]; rfl) (by rw [at_]; rfl) idle leads
      cases polled with
      | error e =>
          dsimp only
          split
          · exact .waits
          · exact goes rfl (.inr ⟨_,rfl⟩)
      | ok revents =>
          dsimp only
          split
          · exact goes rfl (.inr ⟨_,rfl⟩)
          · split
            · exact goes rfl (.inl rfl)
            · split
              · exact goes rfl (.inr ⟨_,rfl⟩)
              · exact .waits
  | reading hangup =>
      have goes {main : Main} (idle : inHand main = []) (leads : main.pumping = true ∨ ∃ result, main = .dropping result) :
          Pumps w {w with main := main} := .turns (by rw [at_]; rfl) (by rw [at_]; rfl) idle leads
      cases read with
      | error e =>
          dsimp only
          split
          · exact goes rfl (.inl rfl)
          · exact goes rfl (.inr ⟨_,rfl⟩)
      | ok data =>
          cases data with
          | nil => exact goes rfl (.inr ⟨_,rfl⟩)
          | cons b rest => exact .reads at_ (b :: rest)
  | sending data hangup =>
      dsimp only [World.send]
      by_cases gone : w.pty.writer = .finished
      · rw [if_pos gone]
        exact .fails at_ gone
      · rw [if_neg gone]
        exact .sends at_
  | dropping result => exact dropSession_cases at_ late
  | joining =>
      dsimp only
      split
      · exact .returns at_ ‹_›
      · exact .waits
  | finished result => exact .waits

-- What a step of the signal thread can be.
inductive Resizes (w : World) : World → Prop where
  | waits : Resizes w w
  | sends {size : TerminalSize} (sized : size.rows ≠ 0 ∧ size.cols ≠ 0) :
      Resizes w {w with pty := w.pty.step (.command (.resize size)),sent := w.sent ++ [.resize size]}
  | fails : Resizes w {w with sigwinch := false}

theorem termSize_positive {winsize : Option (UInt16 × UInt16)} {size : TerminalSize} (found : termSizeFromFd winsize = some size) :
    size.rows ≠ 0 ∧ size.cols ≠ 0 := by
  unfold termSizeFromFd at found
  split at found
  · cases found
  · split at found
    · cases found
    · rename_i positive
      cases found
      exact not_or.mp positive

theorem sigwinch_cases (w : World) (winsize : Option (UInt16 × UInt16)) : Resizes w (w.onSigwinch winsize) := by
  unfold World.onSigwinch
  split
  · exact .waits
  · split
    · exact .waits
    · rename_i size found
      dsimp only [World.send]
      by_cases gone : w.pty.writer = .finished
      · rw [if_pos gone]
        exact .fails
      · rw [if_neg gone]
        exact .sends (termSize_positive found)

-- The events that the output thread has received.
def heard (w : World) : List TransportEvent := w.pty.events.sent.take w.taken

def Shown (w : World) : Prop :=
  match w.output with
  | .receiving => w.stdout = (delivered (heard w)).flatten
  | .writing data => w.stdout ++ data = (delivered (heard w)).flatten
  | .finished (.ended ev) => w.stdout = (delivered (heard w)).flatten ∧ final ev = true ∧ ∃ earlier, heard w = earlier ++ [ev]
  | .finished .broken => w.stdout <+: (delivered (heard w)).flatten
  | .finished .disconnected => False

structure Shows (w : World) : Prop where
  chunks : LocalSession.Chunks w.pty
  told : Told w.pty
  inside : w.taken ≤ w.pty.events.sent.length
  room : w.output.past = false → w.pty.events.room = none
  calm : w.output.past = false → ∀ ev ∈ heard w, final ev = false
  shown : Shown w

theorem begun_shows (pid pgid : Option Int) : Shows (begun pid pgid) := by
  refine ⟨(LocalSession.spawn_fresh pid pgid).good,spawn_told pid pgid,Nat.le_refl _,fun _ => rfl,fun _ ev member => ?_,rfl⟩
  cases member

-- A step of the session beside the output thread.
theorem pty_shows {w next : World} (shows : Shows w) (m : PtySession.Move) (pty : next.pty = w.pty.step m) (taken : next.taken = w.taken)
    (output : next.output = w.output) (stdout : next.stdout = w.stdout) (kept : m = .dropReceiver → w.output.past = true) : Shows next := by
  obtain ⟨more,grown⟩ := sent_grows shows.chunks.barred m
  have same : heard next = heard w := by
    rw [heard,pty,taken,grown,List.take_append_of_le_length shows.inside]
    rfl
  refine ⟨?_,?_,?_,fun open_ => ?_,?_,?_⟩
  · rw [pty]
    exact LocalSession.step_chunks w.pty m shows.chunks
  · rw [pty]
    exact step_told shows.chunks.barred m shows.told
  · rw [pty,taken,grown,List.length_append]
    exact Nat.le_trans shows.inside (Nat.le_add_right _ _)
  · rw [output] at open_
    have other : m ≠ .dropReceiver := fun drops => by rw [kept drops] at open_; cases open_
    rw [pty]
    exact (room_same m other).mpr (shows.room open_)
  · rw [output,same]
    exact shows.calm
  · rw [Shown,output,stdout,same]
    exact shows.shown

theorem same_shows {w next : World} (shows : Shows w) (pty : next.pty = w.pty) (taken : next.taken = w.taken)
    (output : next.output = w.output) (stdout : next.stdout = w.stdout) : Shows next := by
  have same : heard next = heard w := by rw [heard,pty,taken]; rfl
  refine ⟨by rw [pty]; exact shows.chunks,by rw [pty]; exact shows.told,by rw [pty,taken]; exact shows.inside,?_,?_,?_⟩
  · rw [pty,output]
    exact shows.room
  · rw [output,same]
    exact shows.calm
  · rw [Shown,output,stdout,same]
    exact shows.shown

-- The output thread is over, for a reason that fits what it has written.
theorem leave_shows {w : World} (chunks : LocalSession.Chunks w.pty) (told : Told w.pty) (inside : w.taken ≤ w.pty.events.sent.length)
    {why : Why} (shown : Shown (w.leave why)) : Shows (w.leave why) := by
  have sent : (w.leave why).pty.events.sent = w.pty.events.sent := (aside_same w.pty (m := .dropReceiver) trivial).2.2.2.1
  exact ⟨LocalSession.step_chunks w.pty .dropReceiver chunks,step_told chunks.barred .dropReceiver told,by rw [sent]; exact inside,
    fun wrong => (by cases wrong),fun wrong => (by cases wrong),shown⟩

theorem leave_heard (w : World) (why : Why) : heard (w.leave why) = heard w :=
  congrArg (List.take w.taken) (aside_same w.pty (m := .dropReceiver) trivial).2.2.2.1

theorem heard_next {w : World} {ev : TransportEvent} (next : w.pty.events.sent[w.taken]? = some ev) :
    heard {w with taken := w.taken+1} = heard w ++ [ev] := by
  obtain ⟨inside,rfl⟩ := List.getElem?_eq_some_iff.mp next
  exact List.take_succ_eq_append_getElem inside

-- The waiter's last word is in the channel before the senders are gone.
theorem never_disconnected {w : World} (shows : Shows w) (open_ : w.output.past = false) (empty : w.pty.events.sent[w.taken]? = none) :
    w.pty.waiter ≠ .finished := by
  intro waits
  obtain ⟨ev,member,last⟩ := List.any_eq_true.mp (shows.told waits (shows.room open_))
  have all : heard w = w.pty.events.sent := List.take_of_length_le (List.getElem?_eq_none_iff.mp empty)
  rw [shows.calm open_ ev (by rw [all]; exact member)] at last
  cases last


theorem forward_shows {w next : World} (shows : Shows w) (forwards : Forwards w next) : Shows next := by
  have shown := shows.shown
  cases forwards with
  | waits => exact shows
  | takes at_ next =>
      rename_i data
      rw [Shown,at_] at shown
      have open_ : w.output.past = false := by rw [at_]; rfl
      have more := heard_next next
      refine ⟨shows.chunks,shows.told,(List.getElem?_eq_some_iff.mp next).1,fun _ => shows.room open_,fun _ ev member => ?_,?_⟩
      · have there : ev ∈ heard w ++ [.output data] := by
          rw [← more]
          exact member
        rcases List.mem_append.mp there with before | last
        · exact shows.calm open_ ev before
        · rw [List.mem_singleton.mp last]
          rfl
      · change w.stdout ++ data = (delivered (heard {w with taken := w.taken+1})).flatten
        rw [more,ExitedLast.delivered_append,List.flatten_append,shown]
        exact congrArg _ (List.append_nil data).symm
  | stops at_ next last =>
      rename_i ev
      rw [Shown,at_] at shown
      have all : heard ({w with taken := w.taken+1}.leave (.ended ev)) = heard w ++ [ev] :=
        (leave_heard {w with taken := w.taken+1} (.ended ev)).trans (heard_next next)
      have whole : w.stdout = (delivered (heard w ++ [ev])).flatten := by
        rw [ExitedLast.delivered_append,List.flatten_append]
        cases ev with
        | output data => cases last
        | exited status => exact shown.trans (List.append_nil _).symm
        | error err => exact shown.trans (List.append_nil _).symm
      have stopped : Shown ({w with taken := w.taken+1}.leave (.ended ev)) := ⟨by rw [all]; exact whole,last,heard w,all⟩
      exact leave_shows (w := {w with taken := w.taken+1}) shows.chunks shows.told (List.getElem?_eq_some_iff.mp next).1 stopped
  | disconnects at_ next gone =>
      refine absurd ?_ (never_disconnected shows (by rw [at_]; rfl) next)
      have last := (Bool.and_eq_true_iff.mp gone).2
      cases waits : w.pty.waiter <;> rw [waits] at last <;> first | rfl | cases last
  | writes at_ =>
      rename_i data
      rw [Shown,at_] at shown
      have open_ : w.output.past = false := by rw [at_]; rfl
      exact ⟨shows.chunks,shows.told,shows.inside,fun _ => shows.room open_,fun _ => shows.calm open_,shown⟩
  | breaks at_ n =>
      rename_i data
      rw [Shown,at_] at shown
      have part : w.stdout ++ data.take n <+: (delivered (heard w)).flatten := by
        rw [← shown]
        exact (List.prefix_append_right_inj _).mpr (List.take_prefix n data)
      have stopped : Shown ({w with stdout := w.stdout ++ data.take n}.leave .broken) := by
        change w.stdout ++ data.take n <+: (delivered (heard ({w with stdout := w.stdout ++ data.take n}.leave .broken))).flatten
        rw [leave_heard]
        exact part
      exact leave_shows (w := {w with stdout := w.stdout ++ data.take n}) shows.chunks shows.told shows.inside stopped

theorem pump_shows {w next : World} (shows : Shows w) (pumps : Pumps w next) : Shows next := by
  have dropped : Shows {w with pty := w.pty.step .drop} := pty_shows shows .drop rfl rfl rfl rfl fun wrong => by cases wrong
  cases pumps with
  | waits => exact shows
  | turns _ _ _ _ => exact same_shows shows rfl rfl rfl rfl
  | reads _ data => exact same_shows shows rfl rfl rfl rfl
  | sends at_ => exact pty_shows shows (.command _) rfl rfl rfl rfl fun wrong => by cases wrong
  | fails _ _ => exact same_shows shows rfl rfl rfl rfl
  | signals _ _ => exact dropped
  | releases _ _ _ =>
      cases past : w.output.past with
      | true => exact pty_shows dropped .dropReceiver rfl rfl rfl rfl fun _ => past
      | false => exact same_shows dropped rfl rfl rfl rfl
  | returns _ _ => exact same_shows shows rfl rfl rfl rfl

theorem resize_shows {w next : World} (shows : Shows w) (resizes : Resizes w next) : Shows next := by
  cases resizes with
  | waits => exact shows
  | sends sized => exact pty_shows shows (.command _) rfl rfl rfl rfl fun wrong => by cases wrong
  | fails => exact same_shows shows rfl rfl rfl rfl

theorem step_shows (w : World) (move : Move) (shows : Shows w) : Shows (w.step move) := by
  unfold World.step
  split
  · exact shows
  · cases move with
    | thread m =>
        dsimp only
        split
        · rename_i thread
          exact pty_shows shows m rfl rfl rfl rfl fun same => by rw [same] at thread; cases thread
        · exact shows
    | output written => exact forward_shows shows (forward_cases w written)
    | main polled read late => exact pump_shows shows (pump_cases w polled read late)
    | sigwinch winsize => exact resize_shows shows (sigwinch_cases w winsize)

-- What was typed has been sent, but for a chunk in hand and for one that found no writer any more.
def AllSent (w : World) : Prop :=
  w.typed = writes w.sent ++ inHand w.main ∨
    w.pty.writer = .finished ∧ w.main.pumping = false ∧ ∃ data, w.typed = writes w.sent ++ [data]

structure Tells (w : World) : Prop where
  queue : w.handed ++ LocalSession.waiting w.pty = w.sent
  typed : AllSent w
  sizes : ∀ size, .resize size ∈ w.sent → size.rows ≠ 0 ∧ size.cols ≠ 0
  channel : w.pty.commandsOpen = true

theorem begun_tells (pid pgid : Option Int) : Tells (begun pid pgid) :=
  ⟨rfl,.inl rfl,fun size member => (by cases member),rfl⟩

theorem threads_channel (w : PtySession.World) {m : PtySession.Move} (thread : (turnOf m).isSome = true) :
    (w.step m).commandsOpen = w.commandsOpen ∧ (w.step m).handle = w.handle ∧ (w.writer = .finished → (w.step m).writer = .finished) := by
  cases m with
  | reader result =>
      obtain ⟨_,_,_,same⟩ := reader_frame w result
      rw [PtySession.World.step,same]
      exact ⟨rfl,rfl,id⟩
  | writer written =>
      obtain ⟨_,_,_,_,_,same⟩ := writer_frame w written
      refine ⟨by rw [PtySession.World.step,same],by rw [PtySession.World.step,same],fun rests => ?_⟩
      simp only [PtySession.World.step,PtySession.World.writerLoop,rests]
  | waiter polled now =>
      obtain ⟨_,_,_,_,_,_,same⟩ := waiter_frame w polled now
      rw [PtySession.World.step,same]
      exact ⟨rfl,rfl,id⟩
  | _ => cases thread

theorem aside_tells {w next : World} (tells : Tells w) (queue : LocalSession.waiting next.pty = LocalSession.waiting w.pty)
    (channel : next.pty.commandsOpen = w.pty.commandsOpen) (writer : next.pty.writer = w.pty.writer) (handed : next.handed = w.handed)
    (sent : next.sent = w.sent) (typed : AllSent {next with pty := w.pty,sent := w.sent}) : Tells next := by
  refine ⟨by rw [queue,handed,sent]; exact tells.queue,?_,by rw [sent]; exact tells.sizes,channel.trans tells.channel⟩
  unfold AllSent at *
  rw [sent,writer]
  exact typed

theorem thread_tells {w : World} (tells : Tells w) {m : PtySession.Move} (thread : (turnOf m).isSome = true) :
    Tells {w with pty := w.pty.step m,handed := w.handed ++ LocalSession.taken w.pty m} := by
  obtain ⟨channel,_,stays⟩ := threads_channel w.pty thread
  have other : ∀ c, m ≠ .command c := fun c same => by rw [same] at thread; cases thread
  refine ⟨?_,?_,tells.sizes,channel.trans tells.channel⟩
  · rw [List.append_assoc,LocalSession.step_queue w.pty m other]
    exact tells.queue
  · exact tells.typed.imp id fun lost => ⟨stays lost.1,lost.2⟩

theorem command_queue {w : PtySession.World} (channel : w.commandsOpen = true) {c : TransportCommand} (kind : c ≠ .shutdown) :
    LocalSession.waiting (w.step (.command c)) = LocalSession.waiting w ++ [c] ∧ (w.step (.command c)).commandsOpen = w.commandsOpen := by
  simp only [PtySession.World.step,channel,if_true,LocalSession.waiting]
  simp [kind]

-- A command that the session accepts is the last one sent.
theorem send_tells {w : World} (tells : Tells w) {c : TransportCommand} (kind : c ≠ .shutdown)
    (sized : ∀ size, c = .resize size → size.rows ≠ 0 ∧ size.cols ≠ 0) {main : Main}
    (typed : w.typed = writes (w.sent ++ [c]) ++ inHand main ∨
      w.pty.writer = .finished ∧ main.pumping = false ∧ ∃ data, w.typed = writes (w.sent ++ [c]) ++ [data]) :
    Tells {w with pty := w.pty.step (.command c),sent := w.sent ++ [c],main := main} := by
  obtain ⟨queue,channel⟩ := command_queue tells.channel kind
  have writer : (w.pty.step (.command c)).writer = w.pty.writer := (aside_same w.pty (m := .command c) trivial).2.1
  refine ⟨?_,?_,fun size member => ?_,channel.trans tells.channel⟩
  · rw [queue,← List.append_assoc,tells.queue]
  · unfold AllSent
    rw [writer]
    exact typed
  · rcases List.mem_append.mp member with before | last
    · exact tells.sizes size before
    · exact sized size (List.mem_singleton.mp last).symm

theorem drop_tells {w : World} (tells : Tells w) {main : Main} (idle : inHand main = inHand w.main)
    (still : w.main.pumping = false → main.pumping = false) :
    Tells {w with pty := w.pty.step .drop,main := main} := by
  refine aside_tells tells (LocalSession.drop_queue w.pty) ?_ (aside_same w.pty (m := .drop) trivial).2.1 rfl rfl ?_
  · simp only [PtySession.World.step,PtySession.World.dropStep]
    split <;> rfl
  · exact tells.typed.imp (fun all => by rw [all,idle]) fun lost => ⟨lost.1,still lost.2.1,lost.2.2⟩

theorem receiver_tells {w : World} (tells : Tells w) : Tells {w with pty := w.pty.step .dropReceiver} := by
  refine aside_tells tells ?_ ?_ (aside_same w.pty (m := .dropReceiver) trivial).2.1 rfl rfl tells.typed
  · simp only [PtySession.World.step]
    split <;> rfl
  · simp only [PtySession.World.step]
    split <;> rfl

theorem leave_tells {w : World} (tells : Tells w) (why : Why) : Tells (w.leave why) := by
  have next := receiver_tells tells
  exact ⟨next.queue,next.typed,next.sizes,next.channel⟩

theorem forward_tells {w next : World} (tells : Tells w) (forwards : Forwards w next) : Tells next := by
  have same (taken : Nat) (output : Output) (stdout : List UInt8) : Tells {w with taken := taken,output := output,stdout := stdout} :=
    ⟨tells.queue,tells.typed,tells.sizes,tells.channel⟩
  cases forwards with
  | waits => exact tells
  | takes _ _ => exact same _ _ _
  | stops _ _ _ => exact leave_tells (same _ w.output _) _
  | disconnects _ _ _ => exact leave_tells tells _
  | writes _ => exact same _ _ _
  | breaks _ n => exact leave_tells (same _ w.output _) _

theorem pumping_all {w : World} (tells : Tells w) (pumps : w.main.pumping = true) : w.typed = writes w.sent ++ inHand w.main := by
  refine tells.typed.resolve_right fun lost => ?_
  rw [pumps] at lost
  cases lost.2.1

theorem pump_tells {w next : World} (tells : Tells w) (pumps : Pumps w next) : Tells next := by
  cases pumps with
  | waits => exact tells
  | turns pumps empty idle _ =>
      have all := pumping_all tells pumps
      rw [empty] at all
      exact ⟨tells.queue,.inl (by rw [idle]; exact all),tells.sizes,tells.channel⟩
  | reads at_ data =>
      have all := pumping_all tells (by rw [at_]; rfl)
      rw [at_] at all
      refine ⟨tells.queue,.inl ?_,tells.sizes,tells.channel⟩
      change w.typed ++ [data] = writes w.sent ++ [data]
      rw [all]
      exact congrArg (· ++ _) (List.append_nil _)
  | sends at_ =>
      rename_i data hangup
      have all := pumping_all tells (by rw [at_]; rfl)
      rw [at_] at all
      have given : writes (w.sent ++ [.write data]) = writes w.sent ++ [data] := writes_append _ _
      have idle : inHand (if hangup then .dropping (.ok ()) else .polling) = [] := by cases hangup <;> rfl
      exact send_tells tells (by simp) (fun size wrong => by cases wrong) (.inl (by rw [given,idle,List.append_nil]; exact all))
  | fails at_ gone =>
      rename_i data hangup
      have all := pumping_all tells (by rw [at_]; rfl)
      rw [at_] at all
      exact ⟨tells.queue,.inr ⟨gone,rfl,data,all⟩,tells.sizes,tells.channel⟩
  | signals _ _ => exact drop_tells tells rfl id
  | releases at_ behind leads =>
      rename_i result main
      have idle : inHand main = [] ∧ main.pumping = false := by
        rcases leads with rfl | ⟨e,rfl⟩ <;> exact ⟨rfl,rfl⟩
      have dropped : Tells {w with pty := w.pty.step .drop,main := main} :=
        drop_tells tells (by rw [at_]; exact idle.1) fun _ => idle.2
      cases w.output.past with
      | true => exact receiver_tells dropped
      | false => exact dropped
  | returns at_ _ =>
      refine ⟨tells.queue,?_,tells.sizes,tells.channel⟩
      exact tells.typed.imp (fun all => by rw [all,at_]; rfl) fun lost => ⟨lost.1,rfl,lost.2.2⟩

theorem resize_tells {w next : World} (tells : Tells w) (resizes : Resizes w next) : Tells next := by
  cases resizes with
  | waits => exact tells
  | sends sized =>
      rename_i size
      have given : writes (w.sent ++ [.resize size]) = writes w.sent := (writes_append _ _).trans (List.append_nil _)
      have typed : w.typed = writes (w.sent ++ [.resize size]) ++ inHand w.main ∨
          w.pty.writer = .finished ∧ w.main.pumping = false ∧ ∃ data, w.typed = writes (w.sent ++ [.resize size]) ++ [data] := by
        rw [given]
        exact tells.typed
      refine send_tells tells (by simp) (fun other same => ?_) typed
      cases same
      exact sized
  | fails => exact ⟨tells.queue,tells.typed,tells.sizes,tells.channel⟩

theorem step_tells (w : World) (move : Move) (tells : Tells w) : Tells (w.step move) := by
  unfold World.step
  split
  · exact tells
  · cases move with
    | thread m =>
        dsimp only
        split
        · rename_i thread
          exact thread_tells tells thread
        · exact tells
    | output written => exact forward_tells tells (forward_cases w written)
    | main polled read late => exact pump_tells tells (pump_cases w polled read late)
    | sigwinch winsize => exact resize_tells tells (sigwinch_cases w winsize)

-- Where `main` stands and what it has done to the session.
structure Stands (w : World) : Prop where
  announced : Announced w.pty
  pumping : w.main.pumping = true → w.pty.handle = .held
  dropping : ∀ result, w.main = .dropping result → w.pty.handle ≠ .released
  released : w.main.pumping = false → (∀ result, w.main ≠ .dropping result) → w.pty.handle = .released
  joined : w.main = .finished (.ok ()) → w.output.past = true

theorem begun_stands (pid pgid : Option Int) : Stands (begun pid pgid) :=
  ⟨spawn_announced pid pgid,fun _ => rfl,fun result wrong => (by cases wrong),fun wrong => (by cases wrong),fun wrong => (by cases wrong)⟩

-- A step that leaves `main` and the handle alone.
theorem aside_stands {w next : World} (stands : Stands w) (announced : Announced next.pty) (handle : next.pty.handle = w.pty.handle)
    (main : next.main = w.main) (past : w.output.past = true → next.output.past = true) : Stands next := by
  refine ⟨announced,?_,?_,?_,fun ended => past (stands.joined (main ▸ ended))⟩
  · rw [main,handle]
    exact stands.pumping
  · rw [main,handle]
    exact stands.dropping
  · rw [main,handle]
    exact stands.released

theorem handle_same (w : PtySession.World) (m : PtySession.Move) (other : m ≠ .drop) : (w.step m).handle = w.handle := by
  cases m with
  | reader result => exact (threads_channel w (m := .reader result) rfl).2.1
  | writer written => exact (threads_channel w (m := .writer written) rfl).2.1
  | waiter polled now => exact (threads_channel w (m := .waiter polled now) rfl).2.1
  | drop => exact absurd rfl other
  | command c => simp only [PtySession.World.step]; split <;> rfl
  | closeCommands => simp only [PtySession.World.step]; split <;> rfl
  | dropReceiver => simp only [PtySession.World.step]; split <;> rfl

theorem forward_stands {w next : World} (stands : Stands w) (forwards : Forwards w next) : Stands next := by
  have same (taken : Nat) (stdout : List UInt8) {output : Output} (open_ : w.output.past = false) :
      Stands {w with taken := taken,output := output,stdout := stdout} :=
    aside_stands stands stands.announced rfl rfl fun past => by rw [past] at open_; cases open_
  have leaves (taken : Nat) (stdout : List UInt8) (why : Why) : Stands (World.leave {w with taken := taken,stdout := stdout} why) :=
    aside_stands stands (step_announced w.pty .dropReceiver stands.announced) (handle_same w.pty .dropReceiver (by simp)) rfl fun _ => rfl
  cases forwards with
  | waits => exact stands
  | takes at_ _ => exact same _ _ (by rw [at_]; rfl)
  | stops _ _ _ => exact leaves _ w.stdout _
  | disconnects _ _ _ => exact leaves w.taken w.stdout _
  | writes at_ => exact same w.taken _ (by rw [at_]; rfl)
  | breaks _ n => exact leaves w.taken _ _

-- `main` goes on in the pump, or it comes to the session's destructor.
theorem main_stands {w : World} (stands : Stands w) (pumps : w.main.pumping = true) {main : Main} {typed : List (List UInt8)}
    (goes : main.pumping = true ∨ ∃ result, main = .dropping result) : Stands {w with main := main,typed := typed} := by
  have held := stands.pumping pumps
  refine ⟨stands.announced,fun _ => held,fun result _ released => ?_,fun out other => ?_,fun ended => ?_⟩
  · change w.pty.handle = .released at released
    rw [held] at released
    cases released
  · rcases goes with pumping | ⟨result,same⟩
    · change main.pumping = false at out
      rw [pumping] at out
      cases out
    · exact absurd same (other result)
  · change main = _ at ended
    rcases goes with pumping | ⟨result,same⟩
    · rw [ended] at pumping
      cases pumping
    · rw [ended] at same
      cases same

theorem drop_handle (w : PtySession.World) : (w.step .drop).handle =
    match w.handle with
    | .held => .commanded
    | .commanded => .signalled
    | .signalled => .released
    | .released => .released := by
  simp only [PtySession.World.step,PtySession.World.dropStep]
  cases at_ : w.handle <;> simp [at_]

theorem drop_joined {w : PtySession.World} (before : joined w.handle = false) : (w.step .drop).handle ≠ .released := by
  rw [drop_handle]
  cases handle : w.handle <;> simp [handle,joined] at *

theorem pump_stands {w next : World} (stands : Stands w) (pumps : Pumps w next) : Stands next := by
  have announced := step_announced w.pty .drop stands.announced
  cases pumps with
  | waits => exact stands
  | turns pumps _ _ leads => exact main_stands stands pumps leads
  | reads at_ data => exact main_stands stands (by rw [at_]; rfl) (.inl rfl)
  | sends at_ =>
      rename_i data hangup
      have sent : Stands {w with pty := w.pty.step (.command (.write data)),sent := w.sent ++ [.write data]} :=
        aside_stands stands (step_announced w.pty (.command _) stands.announced) (handle_same w.pty (.command _) (by simp)) rfl id
      refine main_stands sent (by rw [at_]; rfl) ?_
      cases hangup with
      | true => exact .inr ⟨_,rfl⟩
      | false => exact .inl rfl
  | fails at_ _ => exact main_stands stands (by rw [at_]; rfl) (.inr ⟨_,rfl⟩)
  | signals at_ before =>
      rename_i result
      refine ⟨announced,fun pumps => ?_,fun _ _ => drop_joined before,fun _ other => absurd at_ (other result),fun ended => ?_⟩
      · change w.main.pumping = true at pumps
        rw [at_] at pumps
        cases pumps
      · change w.main = _ at ended
        rw [at_] at ended
        cases ended
  | releases at_ behind leads =>
      rename_i result main
      have released : (w.pty.step .drop).handle = .released := by
        rw [drop_handle]
        cases handle : w.pty.handle <;> simp [handle,joined] at *
      have both (past : Bool) : Announced (if past then (w.pty.step .drop).step .dropReceiver else w.pty.step .drop) ∧
          (if past then (w.pty.step .drop).step .dropReceiver else w.pty.step .drop).handle = .released := by
        cases past with
        | true => exact ⟨step_announced (w.pty.step .drop) .dropReceiver announced,(handle_same _ .dropReceiver (by simp)).trans released⟩
        | false => exact ⟨announced,released⟩
      obtain ⟨still,handle⟩ := both w.output.past
      rcases leads with rfl | ⟨e,rfl⟩
      · exact ⟨still,fun wrong => (by cases wrong),fun result wrong => (by cases wrong),fun _ _ => handle,fun wrong => (by cases wrong)⟩
      · exact ⟨still,fun wrong => (by cases wrong),fun result wrong => (by cases wrong),fun _ _ => handle,fun wrong => (by cases wrong)⟩
  | returns at_ past =>
      refine ⟨stands.announced,fun wrong => (by cases wrong),fun result wrong => (by cases wrong),fun _ _ => ?_,fun _ => past⟩
      exact stands.released (by rw [at_]; rfl) fun result wrong => by rw [at_] at wrong; cases wrong

theorem resize_stands {w next : World} (stands : Stands w) (resizes : Resizes w next) : Stands next := by
  cases resizes with
  | waits => exact stands
  | sends sized => exact aside_stands stands (step_announced w.pty (.command _) stands.announced) (handle_same w.pty (.command _) (by simp)) rfl id
  | fails => exact aside_stands stands stands.announced rfl rfl id

theorem step_stands (w : World) (move : Move) (stands : Stands w) : Stands (w.step move) := by
  unfold World.step
  split
  · exact stands
  · cases move with
    | thread m =>
        dsimp only
        split
        · rename_i thread
          exact aside_stands stands (step_announced w.pty m stands.announced) (threads_channel w.pty thread).2.1 rfl id
        · exact stands
    | output written => exact forward_stands stands (forward_cases w written)
    | main polled read late => exact pump_stands stands (pump_cases w polled read late)
    | sigwinch winsize => exact resize_stands stands (sigwinch_cases w winsize)

structure Sound (w : World) : Prop where
  shows : Shows w
  tells : Tells w
  stands : Stands w

theorem step_sound (w : World) (move : Move) (sound : Sound w) : Sound (w.step move) :=
  ⟨step_shows w move sound.shows,step_tells w move sound.tells,step_stands w move sound.stands⟩

theorem reached_sound (pid pgid : Option Int) (moves : List Move) : Sound (moves.foldl World.step (begun pid pgid)) :=
  StepRuns.run_invariant Sound moves ⟨begun_shows pid pgid,begun_tells pid pgid,begun_stands pid pgid⟩ step_sound

theorem heard_delivered (w : World) : delivered (heard w) <+: delivered w.pty.events.sent := by
  have whole := List.take_append_drop w.taken w.pty.events.sent
  exact ⟨delivered (w.pty.events.sent.drop w.taken),List.filterMap_append.symm.trans (congrArg delivered whole)⟩

theorem flatten_prefix {first second : List (List UInt8)} (part : first <+: second) : first.flatten <+: second.flatten := by
  obtain ⟨rest,rfl⟩ := part
  exact ⟨rest.flatten,List.flatten_append.symm⟩

theorem shows_onward {w : World} (shows : Shows w) : w.stdout <+: w.pty.obtained.flatten := by
  have part : (delivered (heard w)).flatten <+: w.pty.obtained.flatten :=
    flatten_prefix ((heard_delivered w).trans shows.chunks.part)
  have shown := shows.shown
  unfold Shown at shown
  split at shown
  · rw [shown]
    exact part
  · exact (List.prefix_append _ _).trans (shown ▸ part)
  · rw [shown.1]
    exact part
  · exact shown.trans part
  · exact absurd shown id

-- Behind an exit there is nothing left to show.
theorem exited_whole {w : World} (shows : Shows w) {status : ExitStatus} (ended : w.output = .finished (.ended (.exited status))) :
    w.stdout = w.pty.obtained.flatten := by
  have shown := shows.shown
  rw [Shown,ended] at shown
  obtain ⟨same,_,earlier,all⟩ := shown
  have split : w.pty.events.sent = earlier ++ .exited status :: w.pty.events.sent.drop w.taken := by
    have whole := List.take_append_drop w.taken w.pty.events.sent
    rw [heard] at all
    rw [all] at whole
    rw [List.append_cons]
    exact whole.symm
  have before := shows.chunks.before _ _ _ split
  rw [same,all,ExitedLast.delivered_append,before]
  exact congrArg List.flatten (List.append_nil _)

structure Transparent (w : World) : Prop where
  shown : w.stdout <+: w.pty.obtained.flatten
  taken : w.handed ++ LocalSession.waiting w.pty = w.sent
  typed : AllSent w
  sizes : ∀ size, .resize size ∈ w.sent → size.rows ≠ 0 ∧ size.cols ≠ 0
  ended : w.main = .finished (.ok ()) → w.output = .finished .broken ∨ (∃ err, w.output = .finished (.ended (.error err))) ∨
    w.stdout = w.pty.obtained.flatten

-- Over its threads the demo is a pipe: the standard output holds what the child wrote, from its first
-- byte on and nothing else, the child is handed what was typed and the sizes of the window, in order
-- and once, and where `main` returns without an error, everything that was read has been shown unless
-- the output or the session broke.
theorem demo_transparent (pid pgid : Option Int) (moves : List Move) : Transparent (moves.foldl World.step (begun pid pgid)) := by
  obtain ⟨shows,tells,stands⟩ := reached_sound pid pgid moves
  refine ⟨shows_onward shows,tells.queue,tells.typed,tells.sizes,fun ended => ?_⟩
  have past := stands.joined ended
  cases at_ : (moves.foldl World.step (begun pid pgid)).output with
  | receiving => rw [at_] at past; cases past
  | writing data => rw [at_] at past; cases past
  | finished why =>
      cases why with
      | broken => exact .inl rfl
      | disconnected =>
          have shown := shows.shown
          rw [Shown,at_] at shown
          exact absurd shown id
      | ended ev =>
          cases ev with
          | output data =>
              have shown := shows.shown
              rw [Shown,at_] at shown
              cases shown.2.1
          | exited status => exact .inr (.inr (exited_whole shows at_))
          | error err => exact .inr (.inl ⟨err,rfl⟩)

end Perga.PtyDemo

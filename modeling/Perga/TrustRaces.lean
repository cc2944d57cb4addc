import Mathlib.Logic.Function.Basic
import Perga.KnownHosts

namespace Perga.TrustRaces
open KnownHosts
variable {R : KnownHosts} {ι : Type u}

-- `check_server_key` reads the known_hosts file in one call and writes it in another:
-- an attempt that has found its host unknown has yet to write.
inductive Stage where
  | waiting
  | unknown
  | accepted
  | refused
  deriving DecidableEq, Repr

structure World (R : KnownHosts) (ι : Type u) where
  file : R.File
  stage : ι → Stage

-- Other programs write the file too, as `ssh` does.
inductive Move (R : KnownHosts) (ι : Type u) where
  | check (i : ι)
  | learn (i : ι)
  | elsewhere (host : String) (port : UInt16) (key : R.Key) (fault : Option String)

def World.start (file : R.File) : World R ι := ⟨file,fun _ => .waiting⟩

def checked (file : R.File) (call : Call R) : Stage :=
  match R.checkKnownHostsPath call.checkFault call.handler.host call.handler.port call.serverPublicKey file with
  | .ok true => .accepted
  | .ok false => .unknown
  | .error _ => .refused

def learned (file : R.File) (call : Call R) : R.File × Stage :=
  match R.learnKnownHostsPath call.learnFault call.handler.host call.handler.port call.serverPublicKey file with
  | (file,.ok _) => (file,.accepted)
  | (file,.error _) => (file,.refused)

-- All keys of the presented one's algorithm that are on record for its host are the presented one.
def Agrees (file : R.File) (call : Call R) : Prop :=
  ∀ k ∈ keysOf file call, R.algorithm k = R.algorithm call.serverPublicKey → k = call.serverPublicKey

def Kept (file later : R.File) : Prop := ∀ host port, ∀ k ∈ R.recorded file host port, k ∈ R.recorded later host port

theorem Kept.refl (file : R.File) : Kept file file := fun _ _ _ found => found

theorem Kept.trans {file middle later : R.File} (first : Kept file middle) (second : Kept middle later) : Kept file later :=
  fun host port k found => second host port k (first host port k found)

theorem Kept.agrees {file later : R.File} {call : Call R} (kept : Kept file later) (agrees : Agrees later call) : Agrees file call :=
  fun k found => agrees k (kept _ _ k found)

-- What a call for one attempt does with the file, by what is on record.
inductive Turn (call : Call R) (file : R.File) : Stage → R.File × Stage → Prop where
  | known (agrees : Agrees file call) (member : call.serverPublicKey ∈ keysOf file call) : Turn call file .waiting (file,.accepted)
  | unknown (agrees : Agrees file call) : Turn call file .waiting (file,.unknown)
  | changed (reason : call.checkFault ≠ none ∨ ¬ Agrees file call) : Turn call file .waiting (file,.refused)
  | learned {later : R.File} (kept : Kept file later) (member : call.serverPublicKey ∈ keysOf later call) :
      Turn call file .unknown (later,.accepted)
  | unlearned {later : R.File} (kept : Kept file later) (unwritable : call.learnFault ≠ none) :
      Turn call file .unknown (later,.refused)

theorem checked_turn (file : R.File) (call : Call R) : Turn call file .waiting (file,checked file call) := by
  obtain ⟨⟨host,port⟩,key,checkFault,learnFault⟩ := call
  cases checkFault with
  | some e =>
      simp only [checked,R.check_fails]
      exact .changed (.inl fun absent => by cases absent)
  | none =>
      by_cases agrees : ∀ k ∈ R.recorded file host port, R.algorithm k = R.algorithm key → k = key
      · by_cases member : key ∈ R.recorded file host port
        · simp only [checked,R.check_known host port key file agrees member]
          exact .known agrees member
        · simp only [checked,R.check_unknown host port key file agrees member]
          exact .unknown agrees
      · have differs : ∃ k ∈ R.recorded file host port, R.algorithm k = R.algorithm key ∧ k ≠ key := by
          apply Classical.byContradiction
          intro none_differs
          exact agrees fun k found kind => Classical.byContradiction fun other => none_differs ⟨k,found,kind,other⟩
        obtain ⟨k,found,kind,other⟩ := differs
        obtain ⟨line,changed⟩ := R.check_changed host port key file k found kind other
        simp only [checked,changed]
        exact .changed (.inr agrees)

theorem learned_turn (file : R.File) (call : Call R) : Turn call file .unknown (learned file call) := by
  obtain ⟨⟨host,port⟩,key,checkFault,learnFault⟩ := call
  have kept := R.learn_keeps learnFault host port key file
  unfold learned
  cases learnFault with
  | none =>
      obtain ⟨written,member⟩ := R.learn_records host port key file
      generalize R.learnKnownHostsPath none host port key file = outcome at written member kept ⊢
      obtain ⟨later,result⟩ := outcome
      cases written
      exact .learned kept member
  | some e =>
      have unwritten := R.learn_fails e host port key file
      generalize R.learnKnownHostsPath (some e) host port key file = outcome at unwritten kept ⊢
      obtain ⟨later,result⟩ := outcome
      cases unwritten
      exact .unlearned kept fun absent => by cases absent

-- Two attempts at one host whose servers show keys of one algorithm.
def Alike (one other : Call R) : Prop :=
  one.handler = other.handler ∧ R.algorithm one.serverPublicKey = R.algorithm other.serverPublicKey

theorem alike_agrees {file : R.File} {one other : Call R} (member : one.serverPublicKey ∈ keysOf file one)
    (alike : Alike one other) (agrees : Agrees file other) : one.serverPublicKey = other.serverPublicKey := by
  have here : one.serverPublicKey ∈ keysOf file other := by
    unfold keysOf at member ⊢
    rw [← alike.1]
    exact member
  exact agrees _ here alike.2

theorem Turn.kept {call : Call R} {file later : R.File} {before after : Stage} (turn : Turn call file before (later,after)) :
    Kept file later := by
  cases turn with
  | learned kept _ => exact kept
  | unlearned kept _ => exact kept
  | _ => exact .refl file

theorem Turn.member {call : Call R} {file later : R.File} {before : Stage} (turn : Turn call file before (later,.accepted)) :
    call.serverPublicKey ∈ keysOf later call := by
  cases turn with
  | known _ member => exact member
  | learned _ member => exact member

theorem Turn.from {call : Call R} {file : R.File} {before : Stage} {after : R.File × Stage} (turn : Turn call file before after) :
    before = .waiting ∨ before = .unknown := by
  cases turn with
  | learned _ _ => exact .inr rfl
  | unlearned _ _ => exact .inr rfl
  | _ => exact .inl rfl

theorem Turn.onward {call : Call R} {file later : R.File} {before after : Stage} (turn : Turn call file before (later,after)) :
    after ≠ .waiting := by
  cases turn <;> exact fun wrong => by cases wrong

theorem Turn.agrees {call : Call R} {file later : R.File} {after : Stage} (turn : Turn call file .waiting (later,after))
    (passed : after = .unknown ∨ after = .accepted) : Agrees file call := by
  cases turn with
  | known agrees _ => exact agrees
  | unknown agrees => exact agrees
  | changed _ => rcases passed with wrong | wrong <;> cases wrong

theorem Turn.reason {call : Call R} {file later : R.File} {before : Stage} (turn : Turn call file before (later,.refused)) :
    call.checkFault ≠ none ∨ call.learnFault ≠ none ∨ ¬ Agrees later call := by
  cases turn with
  | changed reason => exact reason.imp id .inr
  | unlearned _ unwritable => exact .inr (.inl unwritable)

-- How a state goes on from an earlier one.
structure Follows (calls : ι → Call R) (w later : World R ι) : Prop where
  kept : Kept w.file later.file
  settled : ∀ i, w.stage i = .accepted ∨ w.stage i = .refused → later.stage i = w.stage i
  asked : ∀ i, later.stage i = .waiting → w.stage i = .waiting
  agreed : ∀ i, w.stage i = .waiting → later.stage i = .unknown ∨ later.stage i = .accepted → Agrees w.file (calls i)
  pinned : ∀ i, later.stage i = .accepted → w.stage i = .accepted ∨ (calls i).serverPublicKey ∈ keysOf later.file (calls i)
  reasoned : ∀ i, later.stage i = .refused →
    w.stage i = .refused ∨ (calls i).checkFault ≠ none ∨ (calls i).learnFault ≠ none ∨ ¬ Agrees later.file (calls i)

theorem Follows.refl (calls : ι → Call R) (w : World R ι) : Follows calls w w where
  kept := .refl w.file
  settled _ _ := rfl
  asked _ waiting := waiting
  agreed i waiting other := by rcases other with other | other <;> rw [waiting] at other <;> cases other
  pinned _ accepted := .inl accepted
  reasoned _ refused := .inl refused

variable [DecidableEq ι]

def World.step (calls : ι → Call R) (w : World R ι) : Move R ι → World R ι
  | .check i =>
    match w.stage i with
    | .waiting => {w with stage := Function.update w.stage i (checked w.file (calls i))}
    | _ => w
  | .learn i =>
    match w.stage i with
    | .unknown =>
      let (file,stage) := learned w.file (calls i)
      ⟨file,Function.update w.stage i stage⟩
    | _ => w
  | .elsewhere host port key fault => {w with file := (R.learnKnownHostsPath fault host port key w.file).1}

def run (calls : ι → Call R) (w : World R ι) (moves : List (Move R ι)) : World R ι := moves.foldl (World.step calls) w

inductive Steps (calls : ι → Call R) (w : World R ι) : World R ι → Prop where
  | idle : Steps calls w w
  | turn (i : ι) {file : R.File} {stage : Stage} (turn : Turn (calls i) w.file (w.stage i) (file,stage)) :
      Steps calls w ⟨file,Function.update w.stage i stage⟩
  | elsewhere {file : R.File} (kept : Kept w.file file) : Steps calls w {w with file := file}

theorem step_cases (calls : ι → Call R) (w : World R ι) (move : Move R ι) : Steps calls w (w.step calls move) := by
  cases move with
  | check i =>
      have turn := checked_turn w.file (calls i)
      cases at_ : w.stage i with
      | waiting =>
          simp only [World.step,at_]
          exact .turn i (at_ ▸ turn)
      | _ =>
          simp only [World.step,at_]
          exact .idle
  | learn i =>
      have turn := learned_turn w.file (calls i)
      cases at_ : w.stage i with
      | unknown =>
          simp only [World.step,at_]
          exact .turn i (at_ ▸ turn)
      | _ =>
          simp only [World.step,at_]
          exact .idle
  | elsewhere host port key fault => exact .elsewhere (R.learn_keeps fault host port key w.file)

theorem turn_follows {calls : ι → Call R} {w later : World R ι} (follows : Follows calls w later) {i : ι} {file : R.File} {stage : Stage}
    (turn : Turn (calls i) later.file (later.stage i) (file,stage)) : Follows calls w ⟨file,Function.update later.stage i stage⟩ := by
  have kept := turn.kept
  have others : ∀ j, j ≠ i → Function.update later.stage i stage j = later.stage j := fun j other => Function.update_of_ne other _ _
  have own : Function.update later.stage i stage i = stage := Function.update_self _ _ _
  refine ⟨follows.kept.trans kept,fun j ended => ?_,fun j waiting => ?_,fun j waiting passed => ?_,fun j accepted => ?_,fun j refused => ?_⟩
  · by_cases same : j = i
    · subst same
      have still := follows.settled j ended
      rcases turn.from with open_ | open_ <;> rw [still] at open_ <;> rw [open_] at ended <;> rcases ended with wrong | wrong <;> cases wrong
    · exact (others j same).trans (follows.settled j ended)
  · by_cases same : j = i
    · subst same
      exact absurd (own.symm.trans waiting) turn.onward
    · exact follows.asked j ((others j same).symm.trans waiting)
  · by_cases same : j = i
    · subst same
      rcases turn.from with open_ | open_
      · rw [open_] at turn
        exact follows.kept.agrees (turn.agrees (own ▸ passed))
      · exact follows.agreed j waiting (.inl open_)
    · exact follows.agreed j waiting (others j same ▸ passed)
  · by_cases same : j = i
    · subst same
      have accepts : stage = .accepted := own.symm.trans accepted
      subst accepts
      exact .inr turn.member
    · exact (follows.pinned j ((others j same).symm.trans accepted)).imp id (kept _ _ _)
  · by_cases same : j = i
    · subst same
      have refuses : stage = .refused := own.symm.trans refused
      subst refuses
      exact .inr turn.reason
    · rcases follows.reasoned j ((others j same).symm.trans refused) with old | fault | fault | differs
      · exact .inl old
      · exact .inr (.inl fault)
      · exact .inr (.inr (.inl fault))
      · exact .inr (.inr (.inr fun agrees => differs (kept.agrees agrees)))

theorem step_follows {calls : ι → Call R} {w later : World R ι} (move : Move R ι) (follows : Follows calls w later) :
    Follows calls w (later.step calls move) := by
  have steps := step_cases calls later move
  generalize later.step calls move = next at steps ⊢
  cases steps with
  | idle => exact follows
  | turn i turn => exact turn_follows follows turn
  | elsewhere kept =>
      refine ⟨follows.kept.trans kept,follows.settled,follows.asked,follows.agreed,fun i accepted => ?_,fun i refused => ?_⟩
      · exact (follows.pinned i accepted).imp id (kept _ _ _)
      · rcases follows.reasoned i refused with old | fault | fault | differs
        · exact .inl old
        · exact .inr (.inl fault)
        · exact .inr (.inr (.inl fault))
        · exact .inr (.inr (.inr fun agrees => differs (kept.agrees agrees)))

theorem run_follows (calls : ι → Call R) (w : World R ι) (moves : List (Move R ι)) : Follows calls w (run calls w moves) :=
  StepRuns.run_invariant (Follows calls w) moves (.refl calls w) fun _ move follows => step_follows move follows

-- With nothing between its two calls, an attempt is one call of `check_server_key`.
def Alone (calls : ι → Call R) (w : World R ι) (i : ι) : Prop :=
  (run calls w [.check i,.learn i]).file = (checkServerKey w.file (calls i)).1 ∧
    ((run calls w [.check i,.learn i]).stage i = .accepted ↔ (checkServerKey w.file (calls i)).2 = true)

theorem waiting_alone (calls : ι → Call R) (w : World R ι) (i : ι) (waiting : w.stage i = .waiting) : Alone calls w i := by
  have both : run calls w [.check i,.learn i] = (w.step calls (.check i)).step calls (.learn i) := rfl
  have first : w.step calls (.check i) = {w with stage := Function.update w.stage i (checked w.file (calls i))} := by
    simp only [World.step,waiting]
  unfold Alone
  rw [both,first]
  generalize at_ : calls i = call
  cases answer : R.checkKnownHostsPath call.checkFault call.handler.host call.handler.port call.serverPublicKey w.file with
  | error e =>
      have same : checkServerKey w.file call = (w.file,false) := by cases e <;> simp only [checkServerKey,answer]
      simp [World.step,checked,answer,same]
  | ok known =>
      cases known with
      | true =>
          have same : checkServerKey w.file call = (w.file,true) := by simp only [checkServerKey,answer]
          simp [World.step,checked,answer,same]
      | false =>
          simp only [World.step,checked,answer,Function.update_self,learned,at_,checkServerKey]
          generalize R.learnKnownHostsPath call.learnFault call.handler.host call.handler.port call.serverPublicKey w.file = written
          obtain ⟨file,result⟩ := written
          cases result <;> simp

structure Trust (calls : ι → Call R) (w later : World R ι) : Prop where
  alone : ∀ i, w.stage i = .waiting → Alone calls w i
  pinned : ∀ i, w.stage i = .accepted → later.stage i = .accepted ∧ (calls i).serverPublicKey ∈ keysOf later.file (calls i)
  agreed : ∀ i, w.stage i = .waiting → later.stage i = .accepted → Agrees w.file (calls i)
  first : ∀ i j, w.stage i = .accepted → w.stage j = .waiting → later.stage j = .accepted → Alike (calls i) (calls j) →
    (calls j).serverPublicKey = (calls i).serverPublicKey
  closed : ∀ i j k, w.stage i = .accepted → w.stage j = .accepted → (calls i).serverPublicKey ≠ (calls j).serverPublicKey →
    Alike (calls i) (calls k) → Alike (calls j) (calls k) → w.stage k = .waiting → later.stage k ≠ .accepted
  refused : ∀ i, later.stage i = .refused →
    (calls i).checkFault ≠ none ∨ (calls i).learnFault ≠ none ∨ ¬ Agrees later.file (calls i)

-- Trust on first use, whatever comes between the two calls of an attempt: who is let in is on record
-- from then on; whoever asks later is let in with that very key only, or with one of another
-- algorithm; and where two attempts have raced and both were let in, nobody is any more.
theorem first_use_raced (calls : ι → Call R) (file : R.File) (before after : List (Move R ι)) :
    Trust calls (run calls (.start file) before) (run calls (run calls (.start file) before) after) := by
  have start := run_follows calls (.start file) before
  have follows := run_follows calls (run calls (.start file) before) after
  have whole := run_follows calls (.start file) (before ++ after)
  have parts : run calls (.start file) (before ++ after) = run calls (run calls (.start file) before) after := List.foldl_append
  rw [parts] at whole
  generalize run calls (.start file) before = w at start follows whole ⊢
  generalize run calls w after = later at follows whole ⊢
  have recorded : ∀ i, w.stage i = .accepted → (calls i).serverPublicKey ∈ keysOf w.file (calls i) := by
    intro i accepted
    rcases start.pinned i accepted with wrong | member
    · cases wrong
    · exact member
  refine ⟨waiting_alone calls w,fun i accepted => ?_,fun i waiting accepted => follows.agreed i waiting (.inr accepted),
    fun i j accepted waiting passed alike => ?_,fun i j k one other apart left right waiting passed => ?_,fun i refused => ?_⟩
  · exact ⟨(follows.settled i (.inl accepted)).trans accepted,follows.kept _ _ _ (recorded i accepted)⟩
  · exact (alike_agrees (recorded i accepted) alike (follows.agreed j waiting (.inr passed))).symm
  · have agrees := follows.agreed k waiting (.inr passed)
    exact apart ((alike_agrees (recorded i one) left agrees).trans (alike_agrees (recorded j other) right agrees).symm)
  · rcases whole.reasoned i refused with wrong | reason
    · cases wrong
    · exact reason

def twins (second : Bool) : Call plain := ⟨⟨"build.local",22⟩,⟨"ssh-ed25519",if second then 2 else 1⟩,none,none⟩

example : (run twins (.start []) [.check false,.check true,.learn false,.learn true]).stage = fun _ => Stage.accepted := by
  funext second
  cases second <;> decide

end Perga.TrustRaces

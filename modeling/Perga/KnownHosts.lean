import Perga.Runs

namespace Perga

inductive KeysError where
  | keyChanged (line : Nat)
  | other (message : String)
  deriving DecidableEq, Repr

-- russh's known_hosts store. `recorded` are the keys of the lines for a host and port,
-- and a fault is what the file system lets a call fail with.
structure KnownHosts where
  File : Type
  Key : Type
  Algorithm : Type
  algorithm : Key → Algorithm
  recorded : File → String → UInt16 → List Key
  checkKnownHostsPath : Option String → String → UInt16 → Key → File → Except KeysError Bool
  learnKnownHostsPath : Option String → String → UInt16 → Key → File → File × Except KeysError Unit
  check_fails : ∀ e host port key file, checkKnownHostsPath (some e) host port key file = .error (.other e)
  check_changed : ∀ host port key file, ∀ k ∈ recorded file host port, algorithm k = algorithm key → k ≠ key →
    ∃ line, checkKnownHostsPath none host port key file = .error (.keyChanged line)
  check_known : ∀ host port key file, (∀ k ∈ recorded file host port, algorithm k = algorithm key → k = key) →
    key ∈ recorded file host port → checkKnownHostsPath none host port key file = .ok true
  check_unknown : ∀ host port key file, (∀ k ∈ recorded file host port, algorithm k = algorithm key → k = key) →
    key ∉ recorded file host port → checkKnownHostsPath none host port key file = .ok false
  learn_fails : ∀ e host port key file, (learnKnownHostsPath (some e) host port key file).2 = .error (.other e)
  learn_records : ∀ host port key file, (learnKnownHostsPath none host port key file).2 = .ok () ∧
    key ∈ recorded (learnKnownHostsPath none host port key file).1 host port
  learn_keeps : ∀ fault host port key file h p, ∀ k ∈ recorded file h p,
    k ∈ recorded (learnKnownHostsPath fault host port key file).1 h p

structure PergaHandler where
  host : String
  port : UInt16
  deriving DecidableEq, Repr

namespace KnownHosts
variable {R : KnownHosts}

structure Call (R : KnownHosts) where
  handler : PergaHandler
  serverPublicKey : R.Key
  checkFault : Option String
  learnFault : Option String

def checkServerKey (file : R.File) (call : Call R) : R.File × Bool :=
  match R.checkKnownHostsPath call.checkFault call.handler.host call.handler.port call.serverPublicKey file with
  | .ok true => (file,true)
  | .ok false =>
    match R.learnKnownHostsPath call.learnFault call.handler.host call.handler.port call.serverPublicKey file with
    | (file,.ok _) => (file,true)
    | (file,.error _) => (file,false)
  | .error (.keyChanged _) => (file,false)
  | .error (.other _) => (file,false)

def step (file : R.File) (call : Call R) : R.File := (checkServerKey file call).1

def keysOf (file : R.File) (call : Call R) : List R.Key := R.recorded file call.handler.host call.handler.port

-- A key is accepted that is recorded already, or that is the first one of its host.
def Pinned (file : R.File) (call : Call R) : Prop :=
  (checkServerKey file call).2 = true → call.serverPublicKey ∈ keysOf file call ∨ keysOf file call = []

-- The store can compare the key with one of its kind, or has none, or cannot be used.
def Comparable (file : R.File) (call : Call R) : Prop :=
  (∃ k ∈ keysOf file call, R.algorithm k = R.algorithm call.serverPublicKey) ∨ keysOf file call = [] ∨
    call.checkFault ≠ none ∨ call.learnFault ≠ none

-- An accepted key is on record, and no record is ever taken back.
def Keeps (file : R.File) (call : Call R) : Prop :=
  ((checkServerKey file call).2 = true → call.serverPublicKey ∈ keysOf (step file call) call) ∧
    ∀ host port, ∀ k ∈ R.recorded file host port, k ∈ R.recorded (step file call) host port

-- What a call that the file system lets through does, by what is on record.
inductive Decides (file : R.File) (call : Call R) : R.File × Bool → Prop where
  | recorded (member : call.serverPublicKey ∈ keysOf file call) : Decides file call (file,true)
  | rejected (reason : call.checkFault ≠ none ∨ ∃ k ∈ keysOf file call, R.algorithm k = R.algorithm call.serverPublicKey) :
      Decides file call (file,false)
  | learned (unknown : ∀ k ∈ keysOf file call, R.algorithm k ≠ R.algorithm call.serverPublicKey)
      (readable : call.checkFault = none) (writable : call.learnFault = none) :
      Decides file call
        ((R.learnKnownHostsPath none call.handler.host call.handler.port call.serverPublicKey file).1,true)
  | unlearned (unwritable : call.learnFault ≠ none) :
      Decides file call
        ((R.learnKnownHostsPath call.learnFault call.handler.host call.handler.port call.serverPublicKey file).1,false)

theorem checkServerKey_decides (file : R.File) (call : Call R) : Decides file call (checkServerKey file call) := by
  obtain ⟨⟨host,port⟩,key,checkFault,learnFault⟩ := call
  cases checkFault with
  | some e =>
      simp only [checkServerKey,R.check_fails]
      exact .rejected (.inl fun absent => by cases absent)
  | none =>
      by_cases differs : ∃ k ∈ R.recorded file host port, R.algorithm k = R.algorithm key ∧ k ≠ key
      · obtain ⟨k,member,kind,other⟩ := differs
        obtain ⟨line,changed⟩ := R.check_changed host port key file k member kind other
        simp only [checkServerKey,changed]
        exact .rejected (.inr ⟨k,member,kind⟩)
      · have same : ∀ k ∈ R.recorded file host port, R.algorithm k = R.algorithm key → k = key := by
          intro k member kind
          apply Classical.byContradiction
          intro other
          exact differs ⟨k,member,kind,other⟩
        by_cases member : key ∈ R.recorded file host port
        · simp only [checkServerKey,R.check_known host port key file same member]
          exact .recorded member
        · have unknown : ∀ k ∈ R.recorded file host port, R.algorithm k ≠ R.algorithm key := by
            intro k found kind
            exact member (same k found kind ▸ found)
          simp only [checkServerKey,R.check_unknown host port key file same member]
          cases learnFault with
          | none =>
              have written := (R.learn_records host port key file).1
              have learned : Decides file ⟨⟨host,port⟩,key,none,none⟩ _ := .learned unknown rfl rfl
              generalize R.learnKnownHostsPath none host port key file = outcome at written learned ⊢
              obtain ⟨after,result⟩ := outcome
              cases written
              exact learned
          | some e =>
              have unwritten := R.learn_fails e host port key file
              have unlearned : Decides file ⟨⟨host,port⟩,key,none,some e⟩ _ := .unlearned fun absent => by cases absent
              generalize R.learnKnownHostsPath (some e) host port key file = outcome at unwritten unlearned ⊢
              obtain ⟨after,result⟩ := outcome
              cases unwritten
              exact unlearned

theorem pinned_iff (file : R.File) (call : Call R) : Pinned file call ↔ Comparable file call := by
  have decides := checkServerKey_decides file call
  unfold Pinned
  generalize checkServerKey file call = outcome at decides ⊢
  cases decides with
  | recorded member => exact iff_of_true (fun _ => .inl member) (.inl ⟨_,member,rfl⟩)
  | rejected reason =>
      apply iff_of_true
      · intro accepted
        cases accepted
      · rcases reason with fault | same
        · exact .inr (.inr (.inl fault))
        · exact .inl same
  | learned unknown readable writable =>
      constructor
      · intro pinned
        rcases pinned rfl with member | empty
        · exact absurd rfl (unknown _ member)
        · exact .inr (.inl empty)
      · intro comparable _
        rcases comparable with ⟨k,member,kind⟩ | empty | fault | fault
        · exact absurd kind (unknown k member)
        · exact .inr empty
        · exact absurd readable fault
        · exact absurd writable fault
  | unlearned unwritable =>
      apply iff_of_true
      · intro accepted
        cases accepted
      · exact .inr (.inr (.inr unwritable))

theorem keeps (file : R.File) (call : Call R) : Keeps file call := by
  have decides := checkServerKey_decides file call
  unfold Keeps step
  generalize checkServerKey file call = outcome at decides ⊢
  cases decides with
  | recorded member => exact ⟨fun _ => member,fun _ _ _ found => found⟩
  | rejected reason => exact ⟨fun accepted => (by cases accepted),fun _ _ _ found => found⟩
  | learned unknown readable writable =>
      exact ⟨fun _ => (R.learn_records _ _ _ file).2,fun host port k found => R.learn_keeps none _ _ _ file host port k found⟩
  | unlearned unwritable =>
      exact ⟨fun accepted => (by cases accepted),fun host port k found => R.learn_keeps call.learnFault _ _ _ file host port k found⟩

-- Over any calls: every accepted key is pinned exactly when the store can compare each
-- presented key with one of its kind; and what is accepted is on record from then on.
theorem keys_pinned (file : R.File) (calls : List (Call R)) :
    (StepRuns.Along step Pinned file calls ↔ StepRuns.Along step Comparable file calls) ∧
      StepRuns.Along step Keeps file calls := by
  have inside : StepRuns.Along step (fun (_ : R.File) (_ : Call R) => True) file calls :=
    StepRuns.run_along (fun _ => True) calls trivial fun file call _ => ⟨trivial,trivial⟩
  refine ⟨?_,StepRuns.run_along (fun _ => True) calls trivial fun file call _ => ⟨keeps file call,trivial⟩⟩
  exact StepRuns.along_iff (fun _ => True) trivial inside (fun file call _ _ => pinned_iff file call) fun _ _ _ _ _ => trivial

structure PlainKey where
  algorithm : String
  fingerprint : Nat
  deriving DecidableEq, Repr

structure PlainLine where
  host : String
  port : UInt16
  key : PlainKey
  deriving DecidableEq, Repr

def plainKeys (file : List PlainLine) (host : String) (port : UInt16) : List PlainKey :=
  (file.filter fun line => line.host = host ∧ line.port = port).map PlainLine.key

-- A known_hosts file of plain lines, without patterns or hashed names.
def plain : KnownHosts where
  File := List PlainLine
  Key := PlainKey
  Algorithm := String
  algorithm := PlainKey.algorithm
  recorded := plainKeys
  checkKnownHostsPath fault host port key file :=
    match fault with
    | some e => .error (.other e)
    | none =>
      if (plainKeys file host port).any fun k => k.algorithm = key.algorithm ∧ k ≠ key then .error (.keyChanged 1)
      else .ok ((plainKeys file host port).contains key)
  learnKnownHostsPath fault host port key file :=
    match fault with
    | some e => (file,.error (.other e))
    | none => (file ++ [⟨host,port,key⟩],.ok ())
  check_fails e host port key file := rfl
  check_changed host port key file k member kind other := by
    refine ⟨1,if_pos (List.any_eq_true.mpr ⟨k,member,?_⟩)⟩
    exact decide_eq_true ⟨kind,other⟩
  check_known host port key file same member := by
    rw [if_neg,List.contains_iff_mem.mpr member]
    intro found
    obtain ⟨k,recorded,differs⟩ := List.any_eq_true.mp found
    exact (of_decide_eq_true differs).2 (same k recorded (of_decide_eq_true differs).1)
  check_unknown host port key file same member := by
    have absent : (plainKeys file host port).contains key = false := by
      apply Bool.eq_false_iff.mpr
      exact fun found => member (List.contains_iff_mem.mp found)
    rw [if_neg,absent]
    intro found
    obtain ⟨k,recorded,differs⟩ := List.any_eq_true.mp found
    exact (of_decide_eq_true differs).2 (same k recorded (of_decide_eq_true differs).1)
  learn_fails e host port key file := rfl
  learn_records host port key file := by
    refine ⟨rfl,List.mem_map.mpr ⟨⟨host,port,key⟩,List.mem_filter.mpr ⟨?_,?_⟩,rfl⟩⟩
    · exact List.mem_append_right file List.mem_cons_self
    · exact decide_eq_true ⟨rfl,rfl⟩
  learn_keeps fault host port key file h p k member := by
    cases fault with
    | some e => exact member
    | none =>
        simp only [plainKeys,List.filter_append,List.map_append] at member ⊢
        exact List.mem_append_left _ member

def recordedHost : PlainLine := ⟨"build.local",22,⟨"ssh-rsa",1⟩⟩

def impostor : Call plain := ⟨⟨"build.local",22⟩,⟨"ssh-ed25519",2⟩,none,none⟩

-- The host has an RSA key on record; whoever shows an Ed25519 key is let in.
theorem other_kind_accepted :
    ¬ StepRuns.Along step Pinned (σ := plain.File) [recordedHost] [impostor] ∧
      (checkServerKey (R := plain) [recordedHost] impostor).2 = true := by
  have accepted : (checkServerKey (R := plain) [recordedHost] impostor).2 = true := by decide
  have apart : (⟨"ssh-ed25519",2⟩ : PlainKey) ∉ plainKeys [recordedHost] "build.local" 22 := by decide
  have some_recorded : plainKeys [recordedHost] "build.local" 22 ≠ [] := by decide
  refine ⟨fun along => ?_,accepted⟩
  rcases along.1 accepted with member | empty
  · exact apart member
  · exact some_recorded empty

end KnownHosts
end Perga

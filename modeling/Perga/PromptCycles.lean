import Perga.ByteReaders
import Perga.EventStream
import Perga.LineTerminal

namespace Perga.PromptCycles
open ByteReaders

-- What an OSC 133 of the two scripts looks like on the wire.
def emit (body : List UInt8) : List UInt8 := [27,93,49,51,51,59] ++ body ++ [27,92]

-- A hook of the prompt sees `$?`; it writes something and returns a status.
abbrev Hook := UInt8 → List UInt8 × UInt8

-- `__perga_precmd` of both scripts.
def precmd : Hook := fun exit => (emit ([68,59] ++ decimal exit.toNat),exit)

-- bash older than 4.4 knows no PS0, and from 5.1 on PROMPT_COMMAND may be an array. In a string a
-- hook sees what the one before it returned; each element of an array, and each hook of zsh, sees
-- the command's status.
inductive Shell where
  | bash (expandsPs0 : Bool)
  | bashArray
  | zsh
  deriving DecidableEq, Repr

-- What the user enters runs a command, or leaves `$?` at some status without one (an empty line, a
-- Ctrl-C, a syntax error).
inductive Line where
  | runs (output : List UInt8) (exit : UInt8)
  | nothing (status : UInt8)
  deriving DecidableEq, Repr

-- One round of an interactive shell: the user's own hooks (in zsh, `precmd` runs ahead of
-- `precmd_functions`), the prompt each time it is drawn with the line editor's echo behind it,
-- what the user's PS0 or preexec hooks write, and the line.
structure Round where
  ahead : List Hook
  hooks : List Hook
  drawings : List (List UInt8 × List UInt8)
  preexec : List UInt8
  line : Line

namespace Shell
def carries : Shell → Bool
  | bash _ => true
  | bashArray => false
  | zsh => false

def ahead : Shell → Round → List Hook
  | bash _,_ => []
  | bashArray,_ => []
  | zsh,r => r.ahead

def hooks (shell : Shell) (r : Round) : List Hook := shell.ahead r ++ precmd :: r.hooks

def announces : Shell → Bool
  | bash expandsPs0 => expandsPs0
  | bashArray => true
  | zsh => true

-- PS0 of bash with the mark in front, the preexec hooks of zsh with the mark at the end.
def preexec : Shell → List UInt8 → List UInt8
  | bash true,text => emit [67] ++ text
  | bash false,_ => []
  | bashArray,text => emit [67] ++ text
  | zsh,text => text ++ emit [67]
end Shell

-- What the hooks have seen, and what they have written.
def runHooks (carries : Bool) (status : UInt8) : List Hook → List UInt8 × List UInt8
  | [] => ([],[])
  | hook :: rest =>
    let later := runHooks carries (if carries then (hook status).2 else status) rest
    (status :: later.1,(hook status).1 ++ later.2)

def Line.status : Line → UInt8
  | .runs _ exit => exit
  | .nothing status => status

namespace Round
def drawn (r : Round) : List UInt8 := r.drawings.flatMap fun d => emit [65] ++ d.1 ++ emit [66] ++ d.2

def ran (shell : Shell) (r : Round) : List UInt8 :=
  match r.line with
  | .runs output _ => shell.preexec r.preexec ++ output
  | .nothing _ => []

def bytes (shell : Shell) (last : UInt8) (r : Round) : List UInt8 :=
  (runHooks shell.carries last (shell.hooks r)).2 ++ r.drawn ++ r.ran shell
end Round

def stream (shell : Shell) (last : UInt8) : List Round → List UInt8
  | [] => []
  | r :: rest => r.bytes shell last ++ stream shell r.line.status rest

-- The status of a command that has run, told where the shell announces commands at all.
def Round.exit (shell : Shell) (r : Round) : Option (Option Int) :=
  match r.line with
  | .runs _ exit => if shell.announces then some (some exit.toNat) else none
  | .nothing _ => none

section parser
variable (P : VteParser)

def dispatched (p : P.State) : List UInt8 → List Dispatch
  | [] => []
  | b :: rest => (P.advance p b).2 ++ dispatched (P.next p b) rest

def oscBytes (params : List (List UInt8)) : List UInt8 := [27,93] ++ List.intercalate [59] params ++ [27,92]

-- What vte says of itself: between two sequences it is in its ground state, and an OSC of printable
-- parameters is dispatched with them.
structure Grounded (ground : P.State → Prop) : Prop where
  begins : ground P.new
  osc : ∀ p, ground p → ∀ params : List (List UInt8), params ≠ [] → params.length ≤ 16 →
    (∀ param ∈ params, ∀ b ∈ param, 32 ≤ b ∧ b < 127 ∧ b ≠ 59) →
    ground (FeedCuts.parsed P p (oscBytes params)) ∧ dispatched P p (oscBytes params) = [.osc params]

def finds (p : P.State) (bytes : List UInt8) : List RawScan := (dispatched P p bytes).filterMap Dispatch.scan

-- From ground to ground with these finds on the way.
def Passes (ground : P.State → Prop) (bytes : List UInt8) (scans : List RawScan) : Prop :=
  ∀ p, ground p → ground (FeedCuts.parsed P p bytes) ∧ finds P p bytes = scans

def Plain (ground : P.State → Prop) (text : List UInt8) : Prop := Passes P ground text []

structure Round.Plain (ground : P.State → Prop) (shell : Shell) (r : Round) : Prop where
  hooks : ∀ hook ∈ shell.ahead r ++ r.hooks, ∀ status, PromptCycles.Plain P ground (hook status).1
  drawings : ∀ d ∈ r.drawings, PromptCycles.Plain P ground d.1 ∧ PromptCycles.Plain P ground d.2
  preexec : PromptCycles.Plain P ground r.preexec
  line : ∀ output exit, r.line = .runs output exit → PromptCycles.Plain P ground output
end parser

def Round.marks (shell : Shell) (last : UInt8) (r : Round) : List RawMark :=
  .commandEnd (some last.toNat) :: (r.drawings.map fun _ => .promptStart) ++
    (if (r.exit shell).isSome then [.commandStart] else [])

section passes
variable {P : VteParser} {ground : P.State → Prop}

theorem passes_nil : Passes P ground [] [] := fun _ inside => ⟨inside,rfl⟩

theorem dispatched_append (p : P.State) (first second : List UInt8) :
    dispatched P p (first ++ second) = dispatched P p first ++ dispatched P (FeedCuts.parsed P p first) second := by
  induction first generalizing p with
  | nil => rfl
  | cons b rest ih =>
      rw [List.cons_append,dispatched,ih,dispatched,List.append_assoc]
      rfl

theorem passes_append {first second : List UInt8} {found more : List RawScan} (one : Passes P ground first found)
    (two : Passes P ground second more) : Passes P ground (first ++ second) (found ++ more) := by
  intro p inside
  obtain ⟨still,scans⟩ := one p inside
  obtain ⟨last,later⟩ := two _ still
  refine ⟨?_,?_⟩
  · rw [FeedCuts.parsed,List.foldl_append]
    exact last
  · rw [finds,dispatched_append,List.filterMap_append]
    exact congr (congrArg _ scans) later

theorem emit_passes (grounded : Grounded P ground) (params : List (List UInt8)) (scan : Option RawScan) {body : List UInt8}
    (few : params.length ≤ 15) (joined : 27 :: 93 :: 49 :: 51 :: 51 :: 59 :: body = [27,93] ++ List.intercalate [59] ([49,51,51] :: params))
    (printable : ∀ param ∈ params, ∀ b ∈ param, 32 ≤ b ∧ b < 127 ∧ b ≠ 59) (meant : oscDispatch ([49,51,51] :: params) = scan) :
    Passes P ground (emit body) scan.toList := by
  intro p inside
  have plain : ∀ param ∈ [49,51,51] :: params, ∀ b ∈ param, 32 ≤ b ∧ b < 127 ∧ b ≠ 59 :=
    List.forall_mem_cons.mpr ⟨by simp,printable⟩
  have whole : emit body = oscBytes ([49,51,51] :: params) := by
    rw [oscBytes,← joined]
    rfl
  have read := grounded.osc p inside _ (List.cons_ne_nil _ _) (Nat.succ_le_succ few) plain
  rw [← whole] at read
  refine ⟨read.1,?_⟩
  rw [finds,read.2]
  have told : (Dispatch.osc ([49,51,51] :: params)).scan = scan := meant
  rw [List.filterMap_cons,told]
  cases scan <;> rfl

theorem digits_numberFrom {bytes : List UInt8} (all : ∀ b ∈ bytes, 48 ≤ b ∧ b ≤ 57) (n : Nat) :
    digits n bytes = some (numberFrom n bytes).1 := by
  induction bytes generalizing n with
  | nil => rfl
  | cons b rest ih =>
      obtain ⟨first,later⟩ := List.forall_mem_cons.mp all
      have digit : digit? b = some (b.toNat-48) := if_pos first
      rw [digits,if_pos first,ih later,numberFrom,digit]

-- `str::parse` undoes the shell's `$?`.
theorem decimal_parsed {n : Nat} (small : n < 2147483648) : parseI32 (decimal n) = some (n : Int) := by
  have whole := number_decimal n [] rfl
  have all := decimal_bytes n
  cases bytes : decimal n with
  | nil => rw [bytes] at whole; cases whole
  | cons b rest =>
      rw [bytes] at whole all
      obtain ⟨first,later⟩ := List.forall_mem_cons.mp all
      have digit : digit? b = some (b.toNat-48) := if_pos first
      rw [List.append_nil,number,digit,Option.map_some,Option.some.injEq] at whole
      have value : digits 0 (b :: rest) = some n := by
        rw [digits,if_pos first,Nat.mul_zero,Nat.zero_add,digits_numberFrom later,whole]
      unfold parseI32
      split
      · next sign =>
          obtain ⟨rfl,-⟩ := List.cons.inj sign
          exact absurd first.1 (by decide)
      · next sign =>
          obtain ⟨rfl,-⟩ := List.cons.inj sign
          exact absurd first.1 (by decide)
      · simp only [value]
        exact if_pos small

theorem number_printable (n : UInt8) : (∀ b ∈ decimal n.toNat, 32 ≤ b ∧ b < 127 ∧ b ≠ 59) ∧
    parseI32 (decimal n.toNat) = some (n.toNat : Int) := by
  refine ⟨fun b member => ?_,decimal_parsed (by have := n.toNat_lt; omega)⟩
  obtain ⟨low,high⟩ := decimal_bytes n.toNat b member
  refine ⟨UInt8.le_trans (by decide) low,UInt8.lt_of_le_of_lt high (by decide),?_⟩
  rintro rfl
  exact absurd high (by decide)

variable (grounded : Grounded P ground)
include grounded

theorem prompt_passes : Passes P ground (emit [65]) [.mark .promptStart] ∧ Passes P ground (emit [66]) [] ∧
    Passes P ground (emit [67]) [.mark .commandStart] :=
  ⟨emit_passes grounded [[65]] (some (.mark .promptStart)) (by decide) rfl (by simp) rfl,
    emit_passes grounded [[66]] none (by decide) rfl (by simp) rfl,
    emit_passes grounded [[67]] (some (.mark .commandStart)) (by decide) rfl (by simp) rfl⟩

theorem precmd_passes (exit : UInt8) : Passes P ground (precmd exit).1 [.mark (.commandEnd (some exit.toNat))] := by
  obtain ⟨printable,parsed⟩ := number_printable exit
  have plain : ∀ param ∈ [[68],decimal exit.toNat], ∀ b ∈ param, 32 ≤ b ∧ b < 127 ∧ b ≠ 59 := by
    intro param member
    obtain rfl | same := List.mem_cons.mp member
    · simp
    · rw [List.mem_singleton.mp same]
      exact printable
  have joined : 27 :: 93 :: 49 :: 51 :: 51 :: 59 :: ([68,59] ++ decimal exit.toNat) =
      [27,93] ++ List.intercalate [59] [[49,51,51],[68],decimal exit.toNat] := by simp [List.intercalate]
  refine emit_passes grounded [[68],decimal exit.toNat] (some (.mark (.commandEnd (some exit.toNat)))) (by decide : 2 ≤ 15) joined
    plain ?_
  change some (RawScan.mark (.commandEnd (parseI32 (decimal exit.toNat)))) = _
  rw [parsed]

omit grounded in
theorem hooks_plain (carries : Bool) (status : UInt8) {hooks : List Hook}
    (plain : ∀ hook ∈ hooks, ∀ status, Plain P ground (hook status).1) : Plain P ground (runHooks carries status hooks).2 := by
  induction hooks generalizing status with
  | nil => exact passes_nil
  | cons hook rest ih =>
      obtain ⟨first,later⟩ := List.forall_mem_cons.mp plain
      exact passes_append (first status) (ih _ later)

-- The mark comes with the status of the command, although other hooks run ahead of it in zsh.
theorem hooks_pass (shell : Shell) (last : UInt8) {r : Round} (plain : r.Plain P ground shell) :
    Passes P ground (runHooks shell.carries last (shell.hooks r)).2 [.mark (.commandEnd (some last.toNat))] := by
  have behind (carries : Bool) : Passes P ground (runHooks carries last (precmd :: r.hooks)).2
      [.mark (.commandEnd (some last.toNat))] :=
    passes_append (precmd_passes grounded last) (hooks_plain carries _ fun hook member =>
      plain.hooks hook (List.mem_append_right _ member))
  have ahead (hooks : List Hook) (quiet : ∀ hook ∈ hooks, ∀ status, Plain P ground (hook status).1) :
      Passes P ground (runHooks false last (hooks ++ precmd :: r.hooks)).2 [.mark (.commandEnd (some last.toNat))] := by
    induction hooks with
    | nil => exact behind false
    | cons hook rest ih =>
        obtain ⟨first,later⟩ := List.forall_mem_cons.mp quiet
        exact passes_append (first last) (ih later)
  cases shell with
  | bash expandsPs0 => exact behind true
  | bashArray => exact behind false
  | zsh => exact ahead r.ahead fun hook member => plain.hooks hook (List.mem_append_left _ member)

theorem drawings_pass {drawings : List (List UInt8 × List UInt8)}
    (plain : ∀ d ∈ drawings, Plain P ground d.1 ∧ Plain P ground d.2) :
    Passes P ground (drawings.flatMap fun d => emit [65] ++ d.1 ++ emit [66] ++ d.2)
      (drawings.map fun _ => .mark .promptStart) := by
  obtain ⟨prompt,input,-⟩ := prompt_passes grounded
  induction drawings with
  | nil => exact passes_nil
  | cons d rest ih =>
      obtain ⟨⟨shown,echo⟩,later⟩ := List.forall_mem_cons.mp plain
      exact passes_append (passes_append (passes_append (passes_append prompt shown) input) echo) (ih later)

theorem ran_passes (shell : Shell) {r : Round} (plain : r.Plain P ground shell) :
    Passes P ground (r.ran shell) (if (r.exit shell).isSome then [.mark .commandStart] else []) := by
  obtain ⟨-,-,start⟩ := prompt_passes grounded
  unfold Round.ran Round.exit
  cases line : r.line with
  | nothing status => exact passes_nil
  | runs output exit =>
      have wrote := plain.line output exit line
      cases shell with
      | bashArray => exact passes_append (passes_append start plain.preexec) wrote
      | bash expandsPs0 =>
          cases expandsPs0 with
          | true => exact passes_append (passes_append start plain.preexec) wrote
          | false => exact wrote
      | zsh => exact passes_append (passes_append plain.preexec start) wrote

theorem round_passes (shell : Shell) (last : UInt8) {r : Round} (plain : r.Plain P ground shell) :
    Passes P ground (r.bytes shell last) ((r.marks shell last).map .mark) := by
  have whole := passes_append (passes_append (hooks_pass grounded shell last plain) (drawings_pass grounded plain.drawings))
    (ran_passes grounded shell plain)
  have same : (r.marks shell last).map RawScan.mark = [.mark (.commandEnd (some last.toNat))] ++
      (r.drawings.map fun _ => .mark .promptStart) ++ (if (r.exit shell).isSome then [.mark .commandStart] else []) := by
    unfold Round.marks
    split <;> simp
  rw [same]
  exact whole
end passes

def marks (shell : Shell) (last : UInt8) : List Round → List RawMark
  | [] => []
  | r :: rest => r.marks shell last ++ marks shell r.line.status rest

theorem stream_passes {P : VteParser} {ground : P.State → Prop} (grounded : Grounded P ground) (shell : Shell) (last : UInt8)
    {rounds : List Round} (plain : ∀ r ∈ rounds, r.Plain P ground shell) :
    Passes P ground (stream shell last rounds) ((marks shell last rounds).map .mark) := by
  induction rounds generalizing last with
  | nil => exact passes_nil
  | cons r rest ih =>
      obtain ⟨first,later⟩ := List.forall_mem_cons.mp plain
      rw [stream,marks,List.map_append]
      exact passes_append (round_passes grounded shell last first) (ih _ later)

-- The user's hooks see what they would see without the mark between them.
theorem hooks_unaware (shell : Shell) (status : UInt8) (r : Round) :
    (runHooks shell.carries status (shell.hooks r)).1.eraseIdx (shell.ahead r).length =
      (runHooks shell.carries status (shell.ahead r ++ r.hooks)).1 := by
  cases shell with
  | bash expandsPs0 => rfl
  | bashArray => rfl
  | zsh =>
      change (runHooks false status (r.ahead ++ precmd :: r.hooks)).1.eraseIdx r.ahead.length =
        (runHooks false status (r.ahead ++ r.hooks)).1
      induction r.ahead with
      | nil => rfl
      | cons hook rest ih => exact congrArg (status :: ·) ih

-- The terminal stays on its primary screen while it reads these bytes and loses no scrollback.
def Unbroken (T : Terminal) (s : T.State) : List UInt8 → Prop
  | [] => T.alt s = false
  | b :: rest => T.alt s = false ∧ T.historySize s ≤ T.historySize (T.step s b) ∧ Unbroken T (T.step s b) rest

instance (T : Terminal) : (s : T.State) → (bytes : List UInt8) → Decidable (Unbroken T s bytes)
  | s,[] => inferInstanceAs (Decidable (T.alt s = false))
  | s,b :: rest =>
    have := instDecidableUnbroken T (T.step s b) rest
    inferInstanceAs (Decidable (T.alt s = false ∧ T.historySize s ≤ T.historySize (T.step s b) ∧ Unbroken T (T.step s b) rest))

section trace
open FeedCuts Readings EngineRuns PairMatching
variable {T : Terminal} {P : VteParser}

theorem unbroken_append {s : T.State} {first second : List UInt8} (unbroken : Unbroken T s (first ++ second)) :
    Unbroken T s first ∧ Unbroken T (T.advance s first) second := by
  induction first generalizing s with
  | nil =>
      refine ⟨?_,unbroken⟩
      cases second with
      | nil => exact unbroken
      | cons b rest => exact unbroken.1
  | cons b rest ih =>
      obtain ⟨primary,kept,later⟩ := unbroken
      obtain ⟨one,two⟩ := ih later
      exact ⟨⟨primary,kept,one⟩,two⟩

theorem unbroken_ends {s : T.State} {bytes : List UInt8} (unbroken : Unbroken T s bytes) :
    T.alt s = false ∧ T.alt (T.advance s bytes) = false ∧ T.historySize s ≤ T.historySize (T.advance s bytes) := by
  induction bytes generalizing s with
  | nil => exact ⟨unbroken,unbroken,Nat.le_refl _⟩
  | cons b rest ih =>
      obtain ⟨primary,kept,later⟩ := unbroken
      obtain ⟨-,last,grown⟩ := ih later
      exact ⟨primary,last,Nat.le_trans kept grown⟩

theorem unbroken_rests {s : T.State} {bytes : List UInt8} (unbroken : Unbroken T s bytes) :
    Happening.op (.segment (⟨s,bytes⟩ : Piece T)) = .pass := by
  obtain ⟨primary,last,grown⟩ := unbroken_ends unbroken
  have calm : Piece.resets (⟨s,bytes⟩ : Piece T) = false := by
    unfold Piece.resets Piece.reading Piece.finish
    simp only [primary,last,grown,Bool.or_self,Bool.false_eq_true,if_false,if_true,Bool.not_false,Bool.and_true,Bool.or_false]
    rfl
  rw [Happening.op,calm]
  rfl

-- What the marks do to the slot, without their lines.
def slotOf (mark : RawMark) : Op Unit (Option Int) :=
  match mark with
  | .promptStart => .cancel
  | .commandStart => .opens ()
  | .commandEnd exit => .closes exit

theorem op_slot (mark : RawMark) (abs : Nat) : (mark.op abs).slot = some (slotOf mark) := by
  cases mark <;> rfl

theorem cut_scans (p : P.State) (held bytes : List UInt8) : (cuts P p held bytes).1.map Cut.scan = finds P p bytes := by
  induction bytes generalizing p held with
  | nil => rfl
  | cons b rest ih =>
      have here : finds P p (b :: rest) = P.scans p b ++ finds P (P.next p b) rest := List.filterMap_append
      rw [here,cuts]
      cases scans : P.scans p b with
      | nil => exact ih _ _
      | cons first more =>
          simp only [List.map_cons,List.map_append,List.map_map,ih]
          rw [show Cut.scan ∘ Cut.mk [] = id from rfl,List.map_id]

theorem cuts_slots {e : TerminalEngine T P} (found : List Cut) (last : List UInt8)
    (unbroken : Unbroken T e.term ((found.map Cut.segment).flatten ++ last)) :
    ((cutHappenings e found last).map Happening.op).filterMap Op.slot =
      ((found.map Cut.scan).filterMap RawScan.mark?).map slotOf ∧
    .discard ∉ (cutHappenings e found last).map Happening.op := by
  induction found generalizing e with
  | nil =>
      have rests := unbroken_rests unbroken
      rw [List.map_nil,List.flatten_nil,List.nil_append] at rests
      rw [cutHappenings,List.map_singleton,rests]
      exact ⟨rfl,by simp⟩
  | cons cut rest ih =>
      rw [List.map_cons,List.flatten_cons,List.append_assoc] at unbroken
      obtain ⟨first,later⟩ := unbroken_append unbroken
      obtain ⟨slots,kept⟩ := ih (e := atCut e cut) (by rw [atCut_term]; exact later)
      have primary := (unbroken_ends first).2.1
      have here : (scanned (crossSegment e cut.segment) cut.scan).op = cut.scan.mark?.elim .pass fun mark =>
          mark.op ((crossSegment e cut.segment).scrollTotal+(crossSegment e cut.segment).cursorLine) := by
        cases cut.scan with
        | altScreenEnter => rfl
        | mark mark =>
            simp only [scanned,Happening.op,crossSegment_term,primary]
            rfl
      rw [cutHappenings,List.map_cons,List.map_cons,unbroken_rests first,here,List.map_cons]
      cases marked : cut.scan.mark? with
      | none =>
          rw [List.filterMap_cons_none marked]
          exact ⟨slots,by simpa using kept⟩
      | some mark =>
          rw [List.filterMap_cons_some marked,List.map_cons,Option.elim_some]
          refine ⟨?_,?_⟩
          · rw [List.filterMap_cons_none rfl,List.filterMap_cons_some (op_slot mark _),slots]
          · have other : ∀ abs, mark.op abs ≠ .discard := fun abs => by cases mark <;> exact fun wrong => by cases wrong
            intro member
            obtain same | later := List.mem_cons.mp (List.mem_of_ne_of_mem (by simp) member)
            · exact other _ same.symm
            · exact kept later

-- The bytes that these calls feed.
def fed : List Operation → List UInt8
  | [] => []
  | .feed bytes :: rest => bytes ++ fed rest
  | _ :: rest => fed rest

theorem finds_append (p : P.State) (first second : List UInt8) :
    finds P p (first ++ second) = finds P p first ++ finds P (parsed P p first) second := by
  rw [finds,dispatched_append,List.filterMap_append]
  rfl

theorem rows_aside (e : TerminalEngine T P) :
    (operate e .takeScrolledRows).shell = e.shell ∧ (operate e .takeScrolledRows).term = e.term := by
  rw [operate,takeScrolledRows_engine]
  exact ⟨rfl,rfl⟩

theorem trace_slots {e : TerminalEngine T P} (settled : Settled e) (ops : List Operation)
    (unresized : ∀ size, .resize size ∉ ops) (unbroken : Unbroken T e.term (fed ops)) :
    ((trace e ops).map Happening.op).filterMap Op.slot =
      ((finds P e.shell.parser (fed ops)).filterMap RawScan.mark?).map slotOf ∧
    .discard ∉ (trace e ops).map Happening.op := by
  induction ops generalizing e with
  | nil => exact ⟨rfl,by simp [trace]⟩
  | cons op rest ih =>
      have others : ∀ size, .resize size ∉ rest := fun size member => unresized size (List.mem_cons_of_mem _ member)
      have next := operate_settled e op settled
      cases op with
      | feed bytes =>
          obtain ⟨first,later⟩ := unbroken_append unbroken
          have landed : (operate e (.feed bytes)).term = T.advance e.term bytes := feed_term settled bytes
          have read : (operate e (.feed bytes)).shell.parser = parsed P e.shell.parser bytes := feed_parsed settled bytes
          obtain ⟨slots,kept⟩ := ih next others (by rw [landed]; exact later)
          have whole := cuts_flatten (P := P) e.shell.parser [] bytes
          rw [List.nil_append] at whole
          obtain ⟨here,quiet⟩ := cuts_slots (e := opened e bytes) (cuts P e.shell.parser [] bytes).1 (cuts P e.shell.parser [] bytes).2
            (by rw [whole]; exact first)
          rw [cut_scans] at here
          rw [trace,happenings,List.map_append,List.filterMap_append,here,slots,read,fed,finds_append,List.filterMap_append,
            List.map_append]
          exact ⟨rfl,fun member => (List.mem_append.mp member).elim quiet kept⟩
      | resize size => exact absurd List.mem_cons_self (unresized size)
      | drainPendingWrites => exact ih next others unbroken
      | drainCommandEnds =>
          obtain ⟨slots,kept⟩ := ih next others unbroken
          rw [trace,happenings,List.map_append,List.filterMap_append]
          exact ⟨slots,fun member => (List.mem_append.mp member).elim (by simp [Happening.op]) kept⟩
      | takeScrolledRows =>
          obtain ⟨shell,term⟩ := rows_aside e
          obtain ⟨slots,kept⟩ := ih next others (by rw [term]; exact unbroken)
          rw [shell] at slots
          exact ⟨slots,kept⟩

theorem cancels_answered {γ β : Type} (prompts : List γ) (rest : List (Op Unit β)) :
    answered false ((prompts.map fun _ => Op.cancel) ++ rest) = answered false rest := by
  induction prompts with
  | nil => rfl
  | cons _ more ih => exact ih

-- The statuses of the commands that have ended: the last round's is told only by the round after it.
def ended (shell : Shell) (rounds : List Round) : List (Option Int) := rounds.dropLast.filterMap (Round.exit shell)

theorem exit_told (shell : Shell) (r : Round) :
    (r.exit shell).toList = if (r.exit shell).isSome then [some (r.line.status.toNat : Int)] else [] := by
  unfold Round.exit
  cases r.line with
  | nothing status => rfl
  | runs output exit => cases shell.announces <;> rfl

theorem round_answered (shell : Shell) (last : UInt8) (filled : Bool) (r : Round) (rest : List RawMark) :
    answered filled ((r.marks shell last ++ rest).map slotOf) =
      (if filled then [some (last.toNat : Int)] else []) ++ answered (r.exit shell).isSome (rest.map slotOf) := by
  have opened : answered false (((if (r.exit shell).isSome then [RawMark.commandStart] else []) ++ rest).map slotOf) =
      answered (r.exit shell).isSome (rest.map slotOf) := by
    cases (r.exit shell).isSome <;> rfl
  rw [Round.marks,List.cons_append,List.cons_append,List.append_assoc,List.map_cons,List.map_append,List.map_map]
  change _ ++ answered false ((r.drawings.map fun _ => Op.cancel) ++ _) = _
  rw [cancels_answered,opened]

theorem marks_answered (shell : Shell) (last : UInt8) (filled : Bool) (r : Round) (rest : List Round) :
    answered filled ((marks shell last (r :: rest)).map slotOf) =
      (if filled then [some (last.toNat : Int)] else []) ++ ended shell (r :: rest) := by
  induction rest generalizing last filled r with
  | nil => exact round_answered shell last filled r []
  | cons next more ih =>
      have split : ended shell (r :: next :: more) = (r.exit shell).toList ++ ended shell (next :: more) := by
        rw [ended,List.dropLast_cons_cons,List.filterMap_cons]
        cases r.exit shell <;> rfl
      rw [marks,round_answered,ih,split,exit_told]

theorem run_kept (e : TerminalEngine T P) (settled : Settled e) (ops : List Operation) (shows : e.shell.Shows m) :
    (ops.foldl operate e).shell.Shows (run m ((trace e ops).map Happening.op)) := by
  induction ops generalizing e m with
  | nil => exact shows
  | cons op rest ih =>
      rw [trace,List.map_append,run_append]
      exact ih _ (operate_settled e op settled) (operate_shows e settled op shows).1

theorem reports_ended {ground : P.State → Prop} (grounded : Grounded P ground) (shell : Shell) (last : UInt8) {rounds : List Round}
    (plain : ∀ r ∈ rounds, r.Plain P ground shell) (size : TerminalSize) (ops : List Operation) (unresized : ∀ size, .resize size ∉ ops)
    (whole : fed ops = stream shell last rounds) (unbroken : Unbroken T (T.new (.ofSize size)) (stream shell last rounds))
    (empty : (ops.foldl operate (.new size : TerminalEngine T P)).shell.resolved = []) :
    (reports (.new size : TerminalEngine T P) ops).map CommandMark.exit = ended shell rounds := by
  let e : TerminalEngine T P := .new size
  have settled : Settled e := rfl
  obtain ⟨slots,kept⟩ := trace_slots settled ops unresized (by rw [whole]; exact unbroken)
  have finds : finds P P.new (stream shell last rounds) = (marks shell last rounds).map .mark :=
    (stream_passes grounded shell last plain P.new grounded.begins).2
  have shown := run_kept e settled ops ShellIntegration.shows_new
  have waiting : (run PairMatching.empty ((trace e ops).map Happening.op)).ready = [] := by
    have none_left := shown.ready
    rw [empty] at none_left
    exact List.map_eq_nil_iff.mp none_left.symm
  have told := outputs_answered PairMatching.empty _ kept
  have marked : ((marks shell last rounds).map RawScan.mark).filterMap RawScan.mark? = marks shell last rounds := by
    rw [List.filterMap_map]
    exact List.filterMap_some
  have read : e.shell.parser = P.new := rfl
  rw [waiting,slots,whole,read,finds,marked] at told
  rw [run_shows e settled ops ShellIntegration.shows_new,List.map_map]
  have exits : CommandMark.exit ∘ (CommandMark.ofRegion ∘ region) = Prod.snd := rfl
  rw [exits]
  rw [List.map_nil,List.append_nil] at told
  rw [told]
  cases rounds with
  | nil => rfl
  | cons r rest => exact marks_answered shell last false r rest

theorem fed_append (first second : List Operation) : fed (first ++ second) = fed first ++ fed second := by
  induction first with
  | nil => rfl
  | cons op rest ih =>
      cases op with
      | feed bytes => rw [List.cons_append,fed,fed,ih,List.append_assoc]
      | _ => exact ih

-- As long as the shell has not come to the end, some of these statuses have been told.
theorem reports_upto {ground : P.State → Prop} (grounded : Grounded P ground) (shell : Shell) (last : UInt8) {rounds : List Round}
    (plain : ∀ r ∈ rounds, r.Plain P ground shell) (size : TerminalSize) (ops : List Operation) (unresized : ∀ size, .resize size ∉ ops)
    (part : fed ops <+: stream shell last rounds) (unbroken : Unbroken T (T.new (.ofSize size)) (stream shell last rounds)) :
    (reports (.new size : TerminalEngine T P) ops).map CommandMark.exit <+: ended shell rounds := by
  obtain ⟨rest,whole⟩ := part
  have more := reports_ended grounded shell last plain size (ops ++ [.feed rest,.drainCommandEnds])
    (fun size member => (List.mem_append.mp member).elim (unresized size) (by simp))
    (by rw [fed_append,← whole]; exact congrArg _ (List.append_nil rest)) unbroken (by rw [List.foldl_append]; rfl)
  rw [← more,reports_append,List.map_append]
  exact List.prefix_append _ _

open Session EventStream

theorem message_drained {e : TerminalEngine T P} (empty : e.shell.resolved = []) (message : Received) :
    ((operations message).foldl operate e).shell.resolved = [] := by
  cases message with
  | event ev =>
      cases ev with
      | output bytes =>
          change (operate _ .takeScrolledRows).shell.resolved = []
          rw [(rows_aside _).1]
          rfl
      | exited status => exact empty
      | error err => exact empty
  | input i =>
      cases i with
      | resize size => rfl
      | _ => exact empty
  | eventsClosed => exact empty
  | inputsClosed => exact empty

theorem messages_drained {e : TerminalEngine T P} (empty : e.shell.resolved = []) (messages : List Received) :
    ((messages.flatMap operations).foldl operate e).shell.resolved = [] := by
  induction messages generalizing e with
  | nil => exact empty
  | cons message rest ih =>
      rw [List.flatMap_cons,List.foldl_append]
      exact ih (message_drained empty message)

-- What a shell with the script writes, however it is cut into chunks and whatever the user types
-- meanwhile, tells the client each command that has ended, once and in order, with its status, and
-- nothing else; and the user's own hooks see the statuses that they would see without the script.
theorem commands_reported {ground : P.State → Prop} (grounded : Grounded P ground) (shell : Shell) (last : UInt8)
    (rounds : List Round) (plain : ∀ r ∈ rounds, r.Plain P ground shell) (size : TerminalSize) (messages : List Received)
    (unresized : ∀ size, .resize size ∉ calls messages) (part : fed (calls messages) <+: stream shell last rounds)
    (unbroken : Unbroken T (T.new (.ofSize size)) (stream shell last rounds)) :
    let told := (ends ((spawnWithTransport size : Session T P).runEngineLoop messages).1.events.sent).map CommandMark.exit
    told <+: ended shell rounds ∧ (fed (calls messages) = stream shell last rounds → told = ended shell rounds) ∧
      ∀ r ∈ rounds, ∀ status, (runHooks shell.carries status (shell.hooks r)).1.eraseIdx (shell.ahead r).length =
        (runHooks shell.carries status (shell.ahead r ++ r.hooks)).1 := by
  have served := (run_serves (spawn_stream (T := T) (P := P) size) messages).2
  rw [← runEngineLoop_steps] at served
  have told : ends ((spawnWithTransport size : Session T P).runEngineLoop messages).1.events.sent =
      reports (.new size : TerminalEngine T P) (calls messages) := served
  rw [told]
  refine ⟨reports_upto grounded shell last plain size _ unresized part unbroken,fun whole => ?_,
    fun r _ status => hooks_unaware shell status r⟩
  exact reports_ended grounded shell last plain size _ unresized whole unbroken (messages_drained rfl _)

end trace

open LineTerminal

def Moves (P : VteParser) (p : P.State) (bytes : List UInt8) (q : P.State) (found : List Dispatch) : Prop :=
  FeedCuts.parsed P p bytes = q ∧ dispatched P p bytes = found

theorem moves_append {P : VteParser} {p q r : P.State} {first second : List UInt8} {found more : List Dispatch}
    (one : Moves P p first q found) (two : Moves P q second r more) : Moves P p (first ++ second) r (found ++ more) := by
  obtain ⟨rfl,rfl⟩ := one
  obtain ⟨rfl,rfl⟩ := two
  exact ⟨List.foldl_append,dispatched_append p first second⟩

theorem param_lexed (params : List (List UInt8)) (current param : List UInt8) (plain : ∀ b ∈ param, 32 ≤ b ∧ b < 127 ∧ b ≠ 59) :
    Moves sideParser (.osc params current : Lexer) param (.osc params (current ++ param) : Lexer) [] := by
  induction param generalizing current with
  | nil => exact ⟨by rw [List.append_nil]; rfl,rfl⟩
  | cons b rest ih =>
      obtain ⟨⟨low,high,other⟩,later⟩ := List.forall_mem_cons.mp plain
      have bell : b ≠ 7 := by rintro rfl; exact absurd low (by decide)
      have escape : b ≠ 27 := by rintro rfl; exact absurd low (by decide)
      have step : lex (.osc params current) b = (.osc params (current ++ [b]),[]) := by
        simp only [lex,if_neg bell,if_neg escape,if_neg other]
      have one : Moves sideParser (.osc params current : Lexer) [b] (.osc params (current ++ [b]) : Lexer) [] :=
        ⟨congrArg Prod.fst step,by
          change (lex (.osc params current) b).2.filterMap Token.dispatch ++ [] = []
          rw [step]
          rfl⟩
      have more := ih (current ++ [b]) later
      rw [List.append_assoc] at more
      exact moves_append one more

theorem params_lexed (before : List (List UInt8)) (first : List UInt8) (params : List (List UInt8))
    (plain : ∀ param ∈ first :: params, ∀ b ∈ param, 32 ≤ b ∧ b < 127 ∧ b ≠ 59) :
    ∃ given last, Moves sideParser (.osc before [] : Lexer) (List.intercalate [59] (first :: params)) (.osc given last : Lexer) [] ∧
      given ++ [last] = before ++ first :: params := by
  induction params generalizing before first with
  | nil =>
      have only : List.intercalate [59] [first] = first := by simp [List.intercalate]
      rw [only]
      exact ⟨before,first,param_lexed before [] first (plain first List.mem_cons_self),rfl⟩
  | cons next rest ih =>
      obtain ⟨here,later⟩ := List.forall_mem_cons.mp plain
      obtain ⟨given,last,moves,joined⟩ := ih (before ++ [first]) next later
      have split : List.intercalate [59] (first :: next :: rest) = first ++ ([59] ++ List.intercalate [59] (next :: rest)) := by
        simp [List.intercalate]
      have between : Moves sideParser (.osc before first : Lexer) [59] (.osc (before ++ [first]) [] : Lexer) [] := ⟨rfl,rfl⟩
      rw [split]
      exact ⟨given,last,moves_append (param_lexed before [] first here) (moves_append between moves),
        by rw [joined,List.append_assoc]; rfl⟩

theorem sideParser_grounded : Grounded sideParser (fun p => p = (.ground : Lexer)) := by
  refine ⟨rfl,?_⟩
  rintro p rfl params filled few plain
  obtain ⟨first,rest,rfl⟩ := List.exists_cons_of_ne_nil filled
  obtain ⟨given,last,moves,joined⟩ := params_lexed [] first rest plain
  have opens : Moves sideParser (.ground : Lexer) [27,93] (.osc [] [] : Lexer) [] := ⟨rfl,rfl⟩
  have closes : Moves sideParser (.osc given last : Lexer) [27,92] (.ground : Lexer) [.osc (given ++ [last])] := ⟨rfl,rfl⟩
  rw [joined] at closes
  exact moves_append (moves_append opens moves) closes

theorem text_lexed {text : List UInt8} (free : 27 ∉ text) : Moves sideParser (.ground : Lexer) text (.ground : Lexer) [] := by
  induction text with
  | nil => exact ⟨rfl,rfl⟩
  | cons b rest ih =>
      have later : 27 ∉ rest := fun member => free (List.mem_cons_of_mem b member)
      have here : b ≠ 27 := fun same => free (by rw [same]; exact List.mem_cons_self)
      have step : lex .ground b = (.ground,[.byte b]) := if_neg here
      have one : Moves sideParser (.ground : Lexer) [b] (.ground : Lexer) [] :=
        ⟨congrArg Prod.fst step,by
          change (lex .ground b).2.filterMap Token.dispatch ++ [] = []
          rw [step]
          rfl⟩
      exact moves_append one (ih later)

theorem text_plain {text : List UInt8} (free : 27 ∉ text) : Plain sideParser (fun p => p = (.ground : Lexer)) text := by
  rintro p rfl
  obtain ⟨still,quiet⟩ := text_lexed free
  have none_found : (dispatched sideParser (.ground : Lexer) text).filterMap Dispatch.scan = [] := by rw [quiet]; rfl
  exact ⟨still,none_found⟩

-- A command that ends with 3 and an empty line behind it, cut inside a mark, with a key in between.
theorem commands_reported_one :
    let shell : Shell := .bash true
    let rounds : List Round := [⟨[],[fun _ => ([46],0)],[([36,32],[108,115])],[],.runs [97,13,10] 3⟩,
      ⟨[],[fun _ => ([46],0)],[([36,32],[])],[],.nothing 3⟩]
    let bytes := stream shell 0 rounds
    let messages : List Received := [.event (.output (bytes.take 7)),.input (.key ⟨.enter,⟨false,false,false⟩⟩),
      .event (.output (bytes.drop 7))]
    (EventStream.ends ((Session.spawnWithTransport ⟨2,4⟩ : Session terminal sideParser).runEngineLoop messages).1.events.sent).map
      CommandMark.exit = [some 3] := by
  intro shell rounds bytes messages
  have quiet (text : List UInt8) (free : 27 ∉ text) := text_plain free
  have hooks : ∀ hook ∈ [(fun _ => ([46],0) : Hook)], ∀ status, Plain sideParser (fun p => p = (.ground : Lexer)) (hook status).1 := by
    intro hook member status
    rw [List.mem_singleton.mp member]
    exact quiet [46] (by decide)
  have drawings : ∀ d ∈ [([36,32],[108,115]),(([36,32],[]) : List UInt8 × List UInt8)],
      Plain sideParser (fun p => p = (.ground : Lexer)) d.1 ∧ Plain sideParser (fun p => p = (.ground : Lexer)) d.2 := by
    intro d member
    have free : 27 ∉ d.1 ∧ 27 ∉ d.2 := by
      revert d
      decide
    exact ⟨quiet _ free.1,quiet _ free.2⟩
  have plain : ∀ r ∈ rounds, r.Plain sideParser (fun p => p = (.ground : Lexer)) shell := by
    refine List.forall_mem_cons.mpr ⟨⟨hooks,?_,quiet [] (by decide),?_⟩,List.forall_mem_singleton.mpr ⟨hooks,?_,quiet [] (by decide),?_⟩⟩
    · exact fun d member => drawings d (List.mem_cons.mpr (.inl (List.mem_singleton.mp member)))
    · intro output exit line
      cases line
      exact quiet [97,13,10] (by decide)
    · exact fun d member => drawings d (List.mem_cons_of_mem _ member)
    · intro output exit line
      cases line
  have whole : fed (EventStream.calls messages) = stream shell 0 rounds := by decide +kernel
  have unbroken : Unbroken terminal (terminal.new (.ofSize ⟨2,4⟩)) (stream shell 0 rounds) := by decide +kernel
  have called : EventStream.calls messages = [.feed (bytes.take 7),.drainPendingWrites,.drainCommandEnds,.takeScrolledRows,
    .feed (bytes.drop 7),.drainPendingWrites,.drainCommandEnds,.takeScrolledRows] := rfl
  have told := commands_reported sideParser_grounded shell 0 rounds plain ⟨2,4⟩ messages (by rw [called]; simp)
    ⟨[],by rw [List.append_nil,whole]⟩ unbroken
  exact told.2.1 whole

end Perga.PromptCycles

import Perga.PairMatching

namespace Perga

inductive RawMark where
  | promptStart
  | commandStart
  | commandEnd (exit : Option Int)
  deriving DecidableEq, Repr

inductive RawScan where
  | mark (mark : RawMark)
  | altScreenEnter
  deriving DecidableEq, Repr

def RawScan.mark? : RawScan → Option RawMark
  | .mark found => some found
  | .altScreenEnter => none

-- What vte hands to a `Perform` that overrides these two callbacks only. A CSI
-- parameter is the list of its subparameters.
inductive Dispatch where
  | osc (params : List (List UInt8))
  | csi (params : List (List UInt16)) (intermediates : List UInt8) (action : Char)
  deriving DecidableEq, Repr

-- `vte::Parser` is not part of this repository: a machine driven one byte at a time.
structure VteParser where
  State : Type
  new : State
  advance : State → UInt8 → State × List Dispatch

def digits : Nat → List UInt8 → Option Nat
  | n,[] => some n
  | n,b :: rest => if 48 ≤ b ∧ b ≤ 57 then digits (10*n+(b.toNat-48)) rest else none

-- `str::parse::<i32>` after `str::from_utf8`: an optional sign and at least one
-- digit, in range. Bytes that are not UTF-8 hold a byte that is no digit.
def parseI32 (s : List UInt8) : Option Int :=
  let signed : Bool × List UInt8 := match s with
    | 45 :: body => (true,body)
    | 43 :: body => (false,body)
    | body => (false,body)
  if signed.2 = [] then none else
  match digits 0 signed.2 with
  | none => none
  | some n =>
    if signed.1 then if n ≤ 2147483648 then some (-(n : Int)) else none
    else if n < 2147483648 then some n else none

def oscDispatch (params : List (List UInt8)) : Option RawScan :=
  if params.head? ≠ some [49,51,51] then none else
  match (params[1]?.bind List.head? : Option UInt8) with
  | some 65 => some (.mark .promptStart)
  | some 67 => some (.mark .commandStart)
  | some 68 => some (.mark (.commandEnd (params[2]?.bind parseI32)))
  | _ => none

-- Only the first subparameter of the first parameter decides.
def csiDispatch (params : List (List UInt16)) (intermediates : List UInt8) (action : Char) : Option RawScan :=
  if action ≠ 'h' ∨ intermediates ≠ [63] then none else
  match (params.head?.bind List.head? : Option UInt16) with
  | some 1049 => some .altScreenEnter
  | some 1047 => some .altScreenEnter
  | some 47 => some .altScreenEnter
  | _ => none

def Dispatch.scan : Dispatch → Option RawScan
  | .osc params => oscDispatch params
  | .csi params intermediates action => csiDispatch params intermediates action

-- `SidePerform.events` as `scan_segment` drains it after each byte.
def VteParser.scans (P : VteParser) (p : P.State) (b : UInt8) : List RawScan :=
  (P.advance p b).2.filterMap Dispatch.scan

def VteParser.next (P : VteParser) (p : P.State) (b : UInt8) : P.State := (P.advance p b).1

structure ScanPoint where
  offset : Nat
  isMark : Bool
  deriving DecidableEq, Repr

structure CommandRegion where
  line : Nat
  exit : Option Int
  deriving DecidableEq, Repr

inductive MarkState where
  | idle
  | executing (commandAbs : Nat)
  deriving DecidableEq, Repr

structure ShellIntegration (P : VteParser) where
  parser : P.State
  pending : List RawMark
  state : MarkState
  resolved : List CommandRegion

namespace ShellIntegration
variable {P : VteParser}

def new : ShellIntegration P := ⟨P.new,[],.idle,[]⟩

def pushScans (s : ShellIntegration P) (offset : Nat) (scans : List RawScan) :
    ShellIntegration P × List ScanPoint :=
  ({s with pending := s.pending ++ scans.filterMap RawScan.mark?},
   scans.map fun scan => ⟨offset,scan.mark?.isSome⟩)

def scanFrom (s : ShellIntegration P) (i : Nat) : List UInt8 → ShellIntegration P × List ScanPoint
  | [] => (s,[])
  | b :: rest =>
    let pushed := {s with parser := P.next s.parser b}.pushScans (i+1) (P.scans s.parser b)
    let others := pushed.1.scanFrom (i+1) rest
    (others.1,pushed.2 ++ others.2)

def scanSegment (s : ShellIntegration P) (bytes : List UInt8) : ShellIntegration P × List ScanPoint :=
  s.scanFrom 0 bytes

-- The state machine that `resolve_pending` drives with the mark at the queue's head.
def applyMark (s : ShellIntegration P) (mark : RawMark) (abs : Nat) : ShellIntegration P :=
  match mark with
  | .promptStart => {s with state := .idle}
  | .commandStart => {s with state := .executing abs}
  | .commandEnd exit =>
    match s.state with
    | .executing commandAbs =>
      {s with state := .idle,resolved := s.resolved ++ [⟨commandAbs-1,exit⟩]}
    | .idle => s

def resolvePending (s : ShellIntegration P) (abs : Nat) : ShellIntegration P :=
  match s.pending with
  | [] => s
  | mark :: rest => {s with pending := rest}.applyMark mark abs

def skipPending (s : ShellIntegration P) : ShellIntegration P := {s with pending := s.pending.tail}

def drainRegions (s : ShellIntegration P) : ShellIntegration P × List CommandRegion :=
  ({s with resolved := []},s.resolved)

-- The queue of marks and the parser survive: both belong to the byte stream.
def reset (s : ShellIntegration P) : ShellIntegration P := {s with state := .idle,resolved := []}

@[simp] theorem applyMark_pending (s : ShellIntegration P) (mark : RawMark) (abs : Nat) :
    (s.applyMark mark abs).pending = s.pending := by
  unfold applyMark
  cases mark with
  | promptStart => rfl
  | commandStart => rfl
  | commandEnd exit => cases s.state <;> rfl

@[simp] theorem applyMark_parserKept (s : ShellIntegration P) (mark : RawMark) (abs : Nat) :
    (s.applyMark mark abs).parser = s.parser := by
  unfold applyMark
  cases mark with
  | promptStart => rfl
  | commandStart => rfl
  | commandEnd exit => cases s.state <;> rfl

-- Setting the queue commutes with the state machine, which never reads it.
theorem applyMark_queue (s : ShellIntegration P) (queue : List RawMark) (mark : RawMark) (abs : Nat) :
    {s with pending := queue}.applyMark mark abs = {s.applyMark mark abs with pending := queue} := by
  obtain ⟨parser,pending,state,resolved⟩ := s
  cases mark with
  | promptStart => rfl
  | commandStart => rfl
  | commandEnd exit => cases state <;> rfl
end ShellIntegration

def region (matched : Nat × Option Int) : CommandRegion := ⟨matched.1-1,matched.2⟩

-- The mark machine is the one-slot matcher: a prompt cancels, a command start opens
-- at its absolute line, a command end closes with its exit code.
structure ShellIntegration.Shows (s : ShellIntegration P) (m : PairMatching.Matcher Nat (Option Int)) : Prop where
  slot : s.state = match m.inflight with
    | some abs => .executing abs
    | none => .idle
  ready : s.resolved = m.ready.map region

def RawMark.op (abs : Nat) : RawMark → PairMatching.Op Nat (Option Int)
  | .promptStart => .cancel
  | .commandStart => .opens abs
  | .commandEnd exit => .closes exit

namespace ShellIntegration
variable {P : VteParser} {s : ShellIntegration P} {m : PairMatching.Matcher Nat (Option Int)}

theorem shows_new : (new : ShellIntegration P).Shows PairMatching.empty := ⟨rfl,rfl⟩

theorem shows_mark (shows : s.Shows m) (mark : RawMark) (abs : Nat) :
    (s.applyMark mark abs).Shows (m.act (mark.op abs)) := by
  obtain ⟨slot,ready⟩ := shows
  cases mark with
  | promptStart => exact ⟨rfl,ready⟩
  | commandStart => exact ⟨rfl,ready⟩
  | commandEnd exit =>
      cases opened : m.inflight with
      | none =>
          rw [opened] at slot
          have idle : s.state = .idle := slot
          refine ⟨?_,?_⟩ <;> simp [applyMark,RawMark.op,PairMatching.Matcher.act,opened,idle,ready]
      | some commandAbs =>
          rw [opened] at slot
          have executing : s.state = .executing commandAbs := slot
          refine ⟨?_,?_⟩ <;>
            simp [applyMark,RawMark.op,PairMatching.Matcher.act,opened,executing,ready,region]

theorem shows_reset (s : ShellIntegration P) (m : PairMatching.Matcher Nat (Option Int)) :
    s.reset.Shows (m.act .discard) := ⟨rfl,rfl⟩

theorem shows_drain (shows : s.Shows m) :
    s.drainRegions.1.Shows (m.act .collect) ∧ s.drainRegions.2 = (m.handed .collect).map region :=
  ⟨⟨shows.slot,rfl⟩,shows.ready⟩
end ShellIntegration

end Perga

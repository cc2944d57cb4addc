import Perga.EngineRuns
import Perga.LineTerminal
import Perga.MarkMachine

namespace Perga.FeedAssertions
open FeedCuts EngineRuns
variable {T : Terminal} {P : VteParser}

-- What stops a build with assertions: a range outside of its slice, or one of the
-- three `debug_assert`s on the queue of marks.
inductive Panic where
  | sliceRange (start stop length : Nat)
  | scanBeforePaired
  | resolveUnpaired
  | skipUnpaired
  deriving DecidableEq, Repr

-- What a feed does to the terminal and to the mark machine after its scan.
inductive Action where
  | advance (segment : List UInt8)
  | resolve (mark : RawMark) (abs : Nat)
  | skip (mark : RawMark)
  | reset
  deriving DecidableEq, Repr

def sliced (bytes : List UInt8) (start stop : Nat) : Except Panic (List UInt8) :=
  if start ≤ stop ∧ stop ≤ bytes.length then .ok (TerminalEngine.slice bytes start stop)
  else .error (.sliceRange start stop bytes.length)

def scanSegment (s : ShellIntegration P) (bytes : List UInt8) : Except Panic (ShellIntegration P × List ScanPoint) :=
  if s.pending = [] then .ok (s.scanSegment bytes) else .error .scanBeforePaired

def resolvePending (s : ShellIntegration P) (abs : Nat) : Except Panic (ShellIntegration P × List Action) :=
  match s.pending with
  | [] => .error .resolveUnpaired
  | mark :: _ => .ok (s.resolvePending abs,[.resolve mark abs])

def skipPending (s : ShellIntegration P) : Except Panic (ShellIntegration P × List Action) :=
  match s.pending with
  | [] => .error .skipUnpaired
  | mark :: _ => .ok (s.skipPending,[.skip mark])

def resetIf (lost : Bool) : List Action := if lost then [.reset] else []

-- A scrollback that shrank, and the alternate screen when it is entered, reset the mark machine.
def advanceAlacritty (e : TerminalEngine T P) (segment : List UInt8) : TerminalEngine T P × List Action :=
  (e.advanceAlacritty segment,.advance segment :: resetIf (Readings.Piece.reading (T := T) ⟨e.term,segment⟩ == .cleared))

def noticeAlt (e : TerminalEngine T P) (alt : Bool) : TerminalEngine T P × List Action :=
  (e.noticeAlt alt,resetIf (e.isAltScreen && !alt))

-- At a cut point that is a mark, the head of the queue is skipped or gets its line.
def consume (e : TerminalEngine T P) (isMark : Bool) : Except Panic (TerminalEngine T P × List Action) :=
  if !isMark then .ok (e,[])
  else if e.isAltScreen then (skipPending e.shell).map fun skipped => ({e with shell := skipped.1},skipped.2)
  else (resolvePending e.shell (e.scrollTotal+e.cursorLine)).map fun resolved =>
    ({e with shell := resolved.1},resolved.2)

def feedLoop (bytes : List UInt8) (e : TerminalEngine T P) (start : Nat) (alt : Bool) :
    List ScanPoint → Except Panic ((TerminalEngine T P × Nat × Bool) × List Action)
  | [] => return ((e,start,alt),[])
  | point :: points => do
    let segment ← sliced bytes start point.offset
    let advanced := advanceAlacritty e segment
    let noticed := noticeAlt advanced.1 alt
    let met ← consume noticed.1 point.isMark
    let later ← feedLoop bytes met.1 point.offset noticed.1.isAltScreen points
    return (later.1,advanced.2 ++ noticed.2 ++ met.2 ++ later.2)

def feed (e : TerminalEngine T P) (bytes : List UInt8) : Except Panic (TerminalEngine T P × List Action) := do
  let e := {e with pendingScrolled := 0,scrollbackClearedThisFeed := false}
  let scanned ← scanSegment e.shell bytes
  let e := {e with shell := scanned.1}
  let looped ← feedLoop bytes e 0 e.isAltScreen scanned.2
  let last ← sliced bytes looped.1.2.1 bytes.length
  let advanced := advanceAlacritty looped.1.1 last
  let noticed := noticeAlt advanced.1 looped.1.2.2
  return (noticed.1,looped.2 ++ advanced.2 ++ noticed.2)

-- The calls of a run; a resize resets the mark machine, and the drains assert nothing.
def operate (e : TerminalEngine T P) : Operation → Except Panic (TerminalEngine T P × List Action)
  | .feed bytes => feed e bytes
  | .resize size => return (e.resize size,[.reset])
  | op => return (EngineRuns.operate e op,[])

def run (e : TerminalEngine T P) : List Operation → Except Panic (TerminalEngine T P × List Action)
  | [] => return (e,[])
  | op :: rest => do
    let first ← operate e op
    let later ← run first.1 rest
    return (later.1,first.2 ++ later.2)

def forwarded (log : List Action) : List UInt8 :=
  (log.filterMap fun
    | .advance segment => some segment
    | _ => none).flatten

-- The marks that were resolved or skipped, each with the number of bytes forwarded before.
def consumed (count : Nat) : List Action → List (Nat × RawMark)
  | [] => []
  | .advance segment :: rest => consumed (count+segment.length) rest
  | .resolve mark _ :: rest => (count,mark) :: consumed count rest
  | .skip mark :: rest => (count,mark) :: consumed count rest
  | .reset :: rest => consumed count rest

def Action.call : Action → Option MarkMachine.Call
  | .advance _ => none
  | .resolve _ abs => some (.resolvePending abs)
  | .skip _ => some .skipPending
  | .reset => some .reset

def replay (s : ShellIntegration P) (log : List Action) : ShellIntegration P :=
  (log.filterMap Action.call).foldl MarkMachine.call s

theorem forwarded_append (first second : List Action) :
    forwarded (first ++ second) = forwarded first ++ forwarded second := by
  rw [forwarded,List.filterMap_append,List.flatten_append]
  rfl

theorem replay_append (s : ShellIntegration P) (first second : List Action) :
    replay s (first ++ second) = replay (replay s first) second := by
  rw [replay,List.filterMap_append,List.foldl_append]
  rfl

theorem consumed_append (count : Nat) (first second : List Action) :
    consumed count (first ++ second) = consumed count first ++ consumed (count+(forwarded first).length) second := by
  induction first generalizing count with
  | nil => rfl
  | cons action rest ih =>
      cases action with
      | advance segment =>
          have length : (forwarded (.advance segment :: rest)).length = segment.length+(forwarded rest).length :=
            List.length_append
          rw [List.cons_append,consumed,ih,consumed,length,Nat.add_assoc]
      | resolve mark abs => exact congrArg (_ :: ·) (ih count)
      | skip mark => exact congrArg (_ :: ·) (ih count)
      | reset => exact ih count

theorem resetIf_log (s : ShellIntegration P) (lost : Bool) :
    forwarded (resetIf lost) = [] ∧ (∀ count, consumed count (resetIf lost) = []) ∧
      replay s (resetIf lost) = if lost then s.reset else s := by
  cases lost with
  | true => exact ⟨rfl,fun _ => rfl,rfl⟩
  | false => exact ⟨rfl,fun _ => rfl,rfl⟩

theorem advance_shell (e : TerminalEngine T P) (segment : List UInt8) :
    (e.advanceAlacritty segment).shell =
      if Readings.Piece.reading (T := T) ⟨e.term,segment⟩ == .cleared then e.shell.reset else e.shell := by
  unfold TerminalEngine.advanceAlacritty Readings.Piece.reading Readings.Piece.finish
  simp only [TerminalEngine.isAltScreen_alt]
  by_cases frozen : (T.alt e.term || T.alt (T.advance e.term segment)) = true
  · simp [frozen]
  · by_cases grown : T.historySize e.term ≤ T.historySize (T.advance e.term segment)
    · simp [frozen,grown]
    · simp [frozen,grown]

theorem notice_shell (e : TerminalEngine T P) (alt : Bool) :
    (e.noticeAlt alt).shell = if e.isAltScreen && !alt then e.shell.reset else e.shell := by
  unfold TerminalEngine.noticeAlt
  split <;> rfl

-- One segment with its two possible resets: the terminal gets the segment, and no mark is touched.
structure Crossed (e next : TerminalEngine T P) (segment : List UInt8) (log : List Action) : Prop where
  forwards : forwarded log = segment
  consumes : ∀ count, consumed count log = []
  replays : replay e.shell log = next.shell
  keeps : next.shell.pending = e.shell.pending

def crossing (e : TerminalEngine T P) (segment : List UInt8) (alt : Bool) : List Action :=
  (advanceAlacritty e segment).2 ++ (noticeAlt (e.advanceAlacritty segment) alt).2

theorem segment_crossed (e : TerminalEngine T P) (segment : List UInt8) (alt : Bool) :
    Crossed e ((e.advanceAlacritty segment).noticeAlt alt) segment (crossing e segment alt) := by
  have advanced := advance_shell e segment
  have noticed := notice_shell (e.advanceAlacritty segment) alt
  obtain ⟨quiet,untouched,cleared⟩ := resetIf_log e.shell (Readings.Piece.reading (T := T) ⟨e.term,segment⟩ == .cleared)
  obtain ⟨quiet',untouched',entered⟩ :=
    resetIf_log (e.advanceAlacritty segment).shell ((e.advanceAlacritty segment).isAltScreen && !alt)
  have kept (s : ShellIntegration P) (lost : Bool) : (if lost then s.reset else s).pending = s.pending := by
    cases lost <;> rfl
  refine ⟨?_,fun count => ?_,?_,?_⟩
  · rw [crossing,forwarded_append]
    change segment ++ forwarded (resetIf _) ++ forwarded (resetIf _) = segment
    rw [quiet,quiet',List.append_nil,List.append_nil]
  · rw [crossing,consumed_append]
    change consumed (count+segment.length) (resetIf _) ++ consumed _ (resetIf _) = []
    rw [untouched,untouched']
    rfl
  · rw [crossing,replay_append]
    change replay (replay e.shell (resetIf _)) (resetIf _) = _
    rw [cleared,← advanced,entered,noticed]
  · rw [noticed,kept,advanced,kept]

-- A mark at the head of the queue leaves it, whichever screen is active.
structure Met (e next : TerminalEngine T P) (scan : RawScan) (queue : List RawMark) (log : List Action) : Prop where
  forwards : forwarded log = []
  consumes : ∀ count, consumed count log = (scan.mark?.map (count,·)).toList
  replays : replay e.shell log = next.shell
  left : next.shell.pending = queue

def consumedBy (e : TerminalEngine T P) (isMark : Bool) : TerminalEngine T P :=
  if isMark then
    if e.isAltScreen then {e with shell := e.shell.skipPending}
    else {e with shell := e.shell.resolvePending (e.scrollTotal+e.cursorLine)}
  else e

theorem consume_met (e : TerminalEngine T P) (scan : RawScan) (queue : List RawMark)
    (waiting : e.shell.pending = scan.mark?.toList ++ queue) :
    ∃ log, consume e scan.mark?.isSome = .ok (consumedBy e scan.mark?.isSome,log) ∧
      Met e (consumedBy e scan.mark?.isSome) scan queue log := by
  cases scan with
  | altScreenEnter => exact ⟨[],rfl,rfl,fun _ => rfl,rfl,waiting⟩
  | mark mark =>
      have head : e.shell.pending = mark :: queue := waiting
      unfold consume consumedBy skipPending resolvePending
      rw [head]
      cases e.isAltScreen with
      | true =>
          refine ⟨[.skip mark],rfl,rfl,fun _ => rfl,rfl,?_⟩
          exact congrArg List.tail head
      | false =>
          refine ⟨[.resolve mark (e.scrollTotal+e.cursorLine)],rfl,rfl,fun _ => rfl,rfl,?_⟩
          simp [RawScan.mark?,ShellIntegration.resolvePending,head]

-- Where the walk stands, where it is to stop, and the items between, in their order.
def Ordered (start stop : Nat) : List (Nat × RawScan) → Prop
  | [] => start ≤ stop
  | item :: rest => start ≤ item.1 ∧ Ordered item.1 stop rest

theorem ordered_ends (ordered : Ordered start stop found) : start ≤ stop := by
  induction found generalizing start with
  | nil => exact ordered
  | cons item rest ih => exact Nat.le_trans ordered.1 (ih ordered.2)

theorem ordered_from (ordered : Ordered later stop found) (earlier : start ≤ later) : Ordered start stop found := by
  cases found with
  | nil => exact Nat.le_trans earlier ordered
  | cons item rest => exact ⟨Nat.le_trans earlier ordered.1,ordered.2⟩

-- Every item that one byte ends has the same place.
theorem ordered_same (ordered : Ordered offset stop found) (scans : List RawScan) :
    Ordered offset stop (scans.map (offset,·) ++ found) := by
  induction scans with
  | nil => exact ordered
  | cons scan more ih => exact ⟨Nat.le_refl offset,ih⟩

theorem located_ordered (p : P.State) (i : Nat) (bytes : List UInt8) :
    Ordered i (i+bytes.length) (located P p i bytes) := by
  induction bytes generalizing p i with
  | nil => exact Nat.le_refl i
  | cons b rest ih =>
      have later := ih (P.next p b) (i+1)
      have whole : i+1+rest.length = i+(b :: rest).length := by
        rw [List.length_cons]
        omega
      rw [whole] at later
      exact ordered_from (ordered_same later _) (Nat.le_succ i)

def markAt (item : Nat × RawScan) : Option (Nat × RawMark) := item.2.mark?.map (item.1,·)

structure Walked (bytes : List UInt8) (e : TerminalEngine T P) (start : Nat) (found : List (Nat × RawScan))
    (looped : TerminalEngine T P × Nat × Bool) (log : List Action) : Prop where
  onward : start ≤ looped.2.1
  inside : looped.2.1 ≤ bytes.length
  forwards : forwarded log = TerminalEngine.slice bytes start looped.2.1
  consumes : consumed start log = found.filterMap markAt
  replays : replay e.shell log = looped.1.shell
  left : looped.1.shell.pending = []

theorem sliced_inside (bytes : List UInt8) (onward : start ≤ stop) (inside : stop ≤ bytes.length) :
    sliced bytes start stop = .ok (TerminalEngine.slice bytes start stop) := if_pos ⟨onward,inside⟩

theorem slice_length (bytes : List UInt8) (inside : stop ≤ bytes.length) :
    (TerminalEngine.slice bytes start stop).length = stop-start := by
  rw [TerminalEngine.slice,List.length_drop,List.length_take,Nat.min_eq_left inside]

theorem slice_join (bytes : List UInt8) (onward : start ≤ middle) (further : middle ≤ stop) (inside : stop ≤ bytes.length) :
    TerminalEngine.slice bytes start middle ++ TerminalEngine.slice bytes middle stop =
      TerminalEngine.slice bytes start stop := by
  have first : bytes.take middle = (bytes.take stop).take middle := by
    rw [List.take_take,Nat.min_eq_left further]
  have long : start ≤ ((bytes.take stop).take middle).length := by
    rw [← first,List.length_take]
    omega
  unfold TerminalEngine.slice
  rw [first,← List.drop_append_of_le_length long,List.take_append_drop]

theorem feedLoop_step {e middle : TerminalEngine T P} {segment : List UInt8} {point : ScanPoint} {points : List ScanPoint}
    {one log : List Action}
    (range : sliced bytes start point.offset = .ok segment)
    (met : consume ((e.advanceAlacritty segment).noticeAlt alt) point.isMark = .ok (middle,one))
    (walked : feedLoop bytes middle point.offset ((e.advanceAlacritty segment).noticeAlt alt).isAltScreen points =
      .ok (looped,log)) :
    feedLoop bytes e start alt (point :: points) = .ok (looped,crossing e segment alt ++ one ++ log) := by
  rw [feedLoop,range]
  simp only [bind,Except.bind,advanceAlacritty,noticeAlt,met,walked]
  rfl

-- The walk keeps its place in the bytes and in the queue together: a mark is consumed when
-- exactly the bytes before its cut point have gone to the terminal.
theorem feedLoop_walks (bytes : List UInt8) (e : TerminalEngine T P) (start : Nat) (alt : Bool)
    (found : List (Nat × RawScan)) (ordered : Ordered start bytes.length found)
    (waiting : e.shell.pending = found.filterMap markOf) :
    ∃ log, feedLoop bytes e start alt (found.map point) = .ok (TerminalEngine.feedLoop bytes e start alt (found.map point),log) ∧
      Walked bytes e start found (TerminalEngine.feedLoop bytes e start alt (found.map point)) log := by
  induction found generalizing e start alt with
  | nil =>
      refine ⟨[],rfl,Nat.le_refl start,ordered,?_,rfl,rfl,waiting⟩
      exact List.drop_take_self.symm
  | cons item rest ih =>
      obtain ⟨offset,scan⟩ := item
      obtain ⟨onward,later⟩ := ordered
      have inside : offset ≤ bytes.length := ordered_ends later
      let segment := TerminalEngine.slice bytes start offset
      let next := (e.advanceAlacritty segment).noticeAlt alt
      have crossed : Crossed e next segment (crossing e segment alt) := segment_crossed e segment alt
      have queue : next.shell.pending = scan.mark?.toList ++ rest.filterMap markOf := by
        rw [crossed.keeps,waiting]
        cases scan <;> rfl
      obtain ⟨one,consumes,met⟩ := consume_met next scan _ queue
      obtain ⟨log,walked,well⟩ := ih (consumedBy next scan.mark?.isSome) offset next.isAltScreen later met.left
      have reached : start+segment.length = offset := by
        rw [slice_length bytes inside]
        exact Nat.add_sub_of_le onward
      refine ⟨crossing e segment alt ++ one ++ log,feedLoop_step (sliced_inside bytes onward inside) consumes walked,?_⟩
      refine ⟨Nat.le_trans onward well.onward,well.inside,?_,?_,?_,well.left⟩
      · rw [forwarded_append,forwarded_append,crossed.forwards,met.forwards,well.forwards,List.append_nil]
        exact slice_join bytes onward well.onward well.inside
      · rw [consumed_append,consumed_append,forwarded_append,crossed.forwards,crossed.consumes,met.consumes,met.forwards,
          List.append_nil,reached,well.consumes]
        cases scan <;> rfl
      · rw [replay_append,replay_append,crossed.replays,met.replays]
        exact well.replays

-- What one feed owes: every byte once, every mark of its scan once and in order at its place, and
-- no mark that waits for the next scan. The log holds all that the mark machine went through.
structure FedOnce (e : TerminalEngine T P) (bytes : List UInt8) (log : List Action) : Prop where
  whole : forwarded log = bytes
  marks : (consumed 0 log).map Prod.snd = (e.shell.scanSegment bytes).1.pending
  places : (consumed 0 log).map Prod.fst =
    ((e.shell.scanSegment bytes).2.filter ScanPoint.isMark).map ScanPoint.offset
  replays : replay (e.shell.scanSegment bytes).1 log = (e.feed bytes).shell
  settled : Settled (e.feed bytes)

theorem markAt_scanned (found : List (Nat × RawScan)) :
    (found.filterMap markAt).map Prod.snd = found.filterMap markOf ∧
      (found.filterMap markAt).map Prod.fst = ((found.map point).filter ScanPoint.isMark).map ScanPoint.offset := by
  induction found with
  | nil => exact ⟨rfl,rfl⟩
  | cons item rest ih =>
      obtain ⟨offset,scan⟩ := item
      cases scan with
      | altScreenEnter => exact ih
      | mark mark => exact ⟨congrArg (mark :: ·) ih.1,congrArg (offset :: ·) ih.2⟩

def opening (e : TerminalEngine T P) (bytes : List UInt8) : TerminalEngine T P :=
  {e with pendingScrolled := 0,scrollbackClearedThisFeed := false,shell := (e.shell.scanSegment bytes).1}

theorem feed_step {e : TerminalEngine T P} {looped : TerminalEngine T P × Nat × Bool} (settled : Settled e)
    (walked : feedLoop bytes (opening e bytes) 0 (opening e bytes).isAltScreen (e.shell.scanSegment bytes).2 =
      .ok (looped,log))
    (range : sliced bytes looped.2.1 bytes.length = .ok last) :
    feed e bytes =
      .ok ((looped.1.advanceAlacritty last).noticeAlt looped.2.2,log ++ crossing looped.1 last looped.2.2) := by
  have scans : scanSegment e.shell bytes = .ok (e.shell.scanSegment bytes) := if_pos settled
  unfold opening at walked
  unfold feed
  simp only [bind,Except.bind,scans,walked,range,advanceAlacritty,noticeAlt,crossing,List.append_assoc]
  rfl

theorem feed_once (e : TerminalEngine T P) (settled : Settled e) (bytes : List UInt8) :
    ∃ log, feed e bytes = .ok (e.feed bytes,log) ∧ FedOnce e bytes log := by
  let found := located P e.shell.parser 0 bytes
  have scanned : e.shell.scanSegment bytes =
      ({e.shell with parser := parsed P e.shell.parser bytes,pending := found.filterMap markOf},found.map point) := by
    rw [ShellIntegration.scanSegment,scanFrom_located,settled]
    rfl
  have marks : (e.shell.scanSegment bytes).1.pending = found.filterMap markOf := by rw [scanned]
  have points : (e.shell.scanSegment bytes).2 = found.map point := by rw [scanned]
  have ordered : Ordered 0 bytes.length found := by
    have placed := located_ordered (P := P) e.shell.parser 0 bytes
    rwa [Nat.zero_add] at placed
  obtain ⟨log,walked,well⟩ := feedLoop_walks bytes (opening e bytes) 0 (opening e bytes).isAltScreen found ordered marks
  rw [← points] at walked well
  let looped := TerminalEngine.feedLoop bytes (opening e bytes) 0 (opening e bytes).isAltScreen (e.shell.scanSegment bytes).2
  let last := TerminalEngine.slice bytes looped.2.1 bytes.length
  have tail : last = bytes.drop looped.2.1 := by
    change (bytes.take bytes.length).drop looped.2.1 = bytes.drop looped.2.1
    rw [List.take_length]
  have crossed := segment_crossed looped.1 last looped.2.2
  have fed : (looped.1.advanceAlacritty last).noticeAlt looped.2.2 = e.feed bytes := by
    rw [tail]
    rfl
  rw [fed] at crossed
  refine ⟨log ++ crossing looped.1 last looped.2.2,?_,?_,?_,?_,?_,?_⟩
  · rw [← fed]
    exact feed_step settled walked (sliced_inside bytes well.inside (Nat.le_refl _))
  · rw [forwarded_append,well.forwards,crossed.forwards,slice_join bytes (Nat.zero_le _) well.inside (Nat.le_refl _)]
    exact congrArg (List.drop 0) List.take_length
  · rw [consumed_append,crossed.consumes,List.append_nil,well.consumes,(markAt_scanned found).1,marks]
  · rw [consumed_append,crossed.consumes,List.append_nil,well.consumes,(markAt_scanned found).2,points]
  · have replayed : replay (e.shell.scanSegment bytes).1 log = looped.1.shell := well.replays
    rw [replay_append,replayed,crossed.replays]
  · exact crossed.keeps.trans well.left

theorem operate_passes (e : TerminalEngine T P) (settled : Settled e) (op : Operation) :
    ∃ log, operate e op = .ok (EngineRuns.operate e op,log) := by
  cases op with
  | feed bytes =>
      obtain ⟨log,fed,_⟩ := feed_once e settled bytes
      exact ⟨log,fed⟩
  | resize size => exact ⟨[.reset],rfl⟩
  | drainPendingWrites => exact ⟨[],rfl⟩
  | drainCommandEnds => exact ⟨[],rfl⟩
  | takeScrolledRows => exact ⟨[],rfl⟩

theorem run_passes (e : TerminalEngine T P) (settled : Settled e) (ops : List Operation) :
    ∃ log, run e ops = .ok (ops.foldl EngineRuns.operate e,log) := by
  induction ops generalizing e with
  | nil => exact ⟨[],rfl⟩
  | cons op rest ih =>
      obtain ⟨first,passed⟩ := operate_passes e settled op
      obtain ⟨later,ran⟩ := ih _ (operate_settled e op settled)
      refine ⟨first ++ later,?_⟩
      rw [run,passed]
      simp only [bind,Except.bind,ran]
      rfl

-- No range and no assertion fails in any run, and in every state that a run reaches a feed forwards
-- every byte once and consumes every mark of its scan once, whatever resets there are in between.
theorem feed_pairs_every_mark (size : TerminalSize) (ops : List Operation) :
    (∃ log, run (.new size : TerminalEngine T P) ops = .ok (ops.foldl EngineRuns.operate (.new size),log)) ∧
      ∀ bytes, ∃ log,
        feed (ops.foldl EngineRuns.operate (.new size : TerminalEngine T P)) bytes =
          .ok ((ops.foldl EngineRuns.operate (.new size : TerminalEngine T P)).feed bytes,log) ∧
        FedOnce (ops.foldl EngineRuns.operate (.new size : TerminalEngine T P)) bytes log := by
  have settled : Settled (ops.foldl EngineRuns.operate (.new size : TerminalEngine T P)) :=
    StepRuns.run_invariant Settled ops rfl fun e op settled => operate_settled e op settled
  exact ⟨run_passes (.new size) rfl ops,fun bytes => feed_once _ settled bytes⟩

open LineTerminal

-- The erase and the alternate screen reset the mark machine between its marks, and none is lost.
example :
    (feed (engine 2 4) (lines 3 ++ commandStart ++ eraseSaved ++ commandEnd ++ enterAlt ++ commandStart)).toOption.map Prod.snd =
      some [.advance (lines 3 ++ commandStart),.resolve .commandStart 3,.advance (eraseSaved ++ commandEnd),.reset,
        .resolve (.commandEnd (some 1)) 1,.advance enterAlt,.reset,.advance commandStart,.skip .commandStart,.advance []] := by
  decide +kernel

end Perga.FeedAssertions

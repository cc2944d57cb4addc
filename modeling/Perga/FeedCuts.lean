import Perga.Engine

namespace Perga.FeedCuts
variable {T : Terminal} {P : VteParser}

-- A chunk falls into segments that end where the side parser found something, and
-- one last segment. `held` is the part of the current segment already read.
structure Cut where
  segment : List UInt8
  scan : RawScan
  deriving DecidableEq, Repr

def cuts (P : VteParser) (p : P.State) (held : List UInt8) : List UInt8 → List Cut × List UInt8
  | [] => ([],held)
  | b :: rest =>
    match P.scans p b with
    | [] => cuts P (P.next p b) (held ++ [b]) rest
    | first :: more =>
      let later := cuts P (P.next p b) [] rest
      (⟨held ++ [b],first⟩ :: more.map (⟨[],·⟩) ++ later.1,later.2)

def parsed (P : VteParser) (p : P.State) (bytes : List UInt8) : P.State := bytes.foldl P.next p

-- One segment with its alternate-screen check, then one found item.
def crossSegment (e : TerminalEngine T P) (segment : List UInt8) : TerminalEngine T P :=
  (e.advanceAlacritty segment).noticeAlt e.isAltScreen

def receiveScan (e : TerminalEngine T P) : RawScan → TerminalEngine T P
  | .altScreenEnter => e
  | .mark mark =>
    if e.isAltScreen then e
    else {e with shell := e.shell.applyMark mark (e.scrollTotal+e.cursorLine)}

def atCut (e : TerminalEngine T P) (cut : Cut) : TerminalEngine T P := receiveScan (crossSegment e cut.segment) cut.scan

def opened (e : TerminalEngine T P) (bytes : List UInt8) : TerminalEngine T P :=
  {e with
    pendingScrolled := 0
    scrollbackClearedThisFeed := false
    shell := {e.shell with parser := parsed P e.shell.parser bytes}}

-- The scan with the offset at which each item was found, and the walk of `feed`
-- along these offsets.
def located (P : VteParser) (p : P.State) (i : Nat) : List UInt8 → List (Nat × RawScan)
  | [] => []
  | b :: rest => (P.scans p b).map (i+1,·) ++ located P (P.next p b) (i+1) rest

def markOf (found : Nat × RawScan) : Option RawMark := found.2.mark?

def point (found : Nat × RawScan) : ScanPoint := ⟨found.1,found.2.mark?.isSome⟩

def cutsAlong (bytes : List UInt8) : Nat → List (Nat × RawScan) → List Cut × Nat
  | start,[] => ([],start)
  | start,found :: rest =>
    let later := cutsAlong bytes found.1 rest
    (⟨TerminalEngine.slice bytes start found.1,found.2⟩ :: later.1,later.2)

theorem pushScans_located (s : ShellIntegration P) (offset : Nat) (scans : List RawScan) :
    s.pushScans offset scans =
      ({s with pending := s.pending ++ (scans.map (offset,·)).filterMap markOf},(scans.map (offset,·)).map point) := by
  rw [List.filterMap_map,List.map_map]
  rfl

theorem scanFrom_located (s : ShellIntegration P) (i : Nat) (bytes : List UInt8) :
    s.scanFrom i bytes =
      ({s with parser := parsed P s.parser bytes,
               pending := s.pending ++ (located P s.parser i bytes).filterMap markOf},
       (located P s.parser i bytes).map point) := by
  induction bytes generalizing s i with
  | nil => simp [ShellIntegration.scanFrom,located,parsed]
  | cons b rest ih =>
      simp only [ShellIntegration.scanFrom,pushScans_located,ih,located,parsed,List.foldl_cons,
        List.filterMap_append,List.map_append,List.append_assoc]

-- The queue of marks rides along: only the head of it is read, and only at a mark.
def queued (e : TerminalEngine T P) (queue : List RawMark) : TerminalEngine T P :=
  {e with shell := {e.shell with pending := queue}}

theorem advance_queued (e : TerminalEngine T P) (queue : List RawMark) (segment : List UInt8) :
    (queued e queue).advanceAlacritty segment = queued (e.advanceAlacritty segment) queue := by
  have alt : (queued e queue).isAltScreen = e.isAltScreen := rfl
  have after : ({queued e queue with term := T.advance e.term segment,state := T.listen e.term e.state segment} :
      TerminalEngine T P).isAltScreen = T.alt (T.advance e.term segment) := rfl
  unfold TerminalEngine.advanceAlacritty
  simp only [TerminalEngine.isAltScreen_alt,queued]
  by_cases frozen : (T.alt e.term || T.alt (T.advance e.term segment)) = true
  · simp only [frozen,if_true]
  · simp only [frozen]
    by_cases grown : T.historySize e.term ≤ T.historySize (T.advance e.term segment)
    · simp only [grown,if_true]
      rfl
    · simp only [grown,if_false]
      rfl

theorem notice_queued (e : TerminalEngine T P) (queue : List RawMark) (alt : Bool) :
    (queued e queue).noticeAlt alt = queued (e.noticeAlt alt) queue := by
  unfold TerminalEngine.noticeAlt
  by_cases entered : (e.isAltScreen && !alt) = true
  · rw [if_pos entered]
    exact if_pos entered
  · rw [if_neg entered]
    exact if_neg entered

theorem cross_queued (e : TerminalEngine T P) (queue : List RawMark) (segment : List UInt8) :
    ((queued e queue).advanceAlacritty segment).noticeAlt e.isAltScreen = queued (crossSegment e segment) queue := by
  rw [advance_queued,notice_queued]
  rfl

@[simp] theorem receiveScan_term (e : TerminalEngine T P) (scan : RawScan) : (receiveScan e scan).term = e.term := by
  cases scan with
  | altScreenEnter => rfl
  | mark mark => unfold receiveScan; dsimp only; split <;> rfl

theorem receiveScan_alt (e : TerminalEngine T P) (scan : RawScan) :
    (receiveScan e scan).isAltScreen = e.isAltScreen := by
  simp only [TerminalEngine.isAltScreen_alt,receiveScan_term]

theorem receive_queued (e : TerminalEngine T P) (offset : Nat) (scan : RawScan) (rest : List (Nat × RawScan)) :
    (let q := queued e (((offset,scan) :: rest).filterMap markOf)
     if scan.mark?.isSome then
       if e.isAltScreen then {q with shell := q.shell.skipPending}
       else {q with shell := q.shell.resolvePending (e.scrollTotal+e.cursorLine)}
     else q) = queued (receiveScan e scan) (rest.filterMap markOf) := by
  cases scan with
  | altScreenEnter => rfl
  | mark mark =>
      by_cases alt : e.isAltScreen = true
      · simp only [receiveScan,alt,if_true]
        rfl
      · simp only [receiveScan,alt]
        simp only [RawScan.mark?,Option.isSome_some,if_true,queued,List.filterMap_cons,markOf,
          ShellIntegration.resolvePending,ShellIntegration.applyMark_queue]
        rfl

theorem feedLoop_cuts (bytes : List UInt8) (e : TerminalEngine T P) (start : Nat) (found : List (Nat × RawScan)) :
    TerminalEngine.feedLoop bytes (queued e (found.filterMap markOf)) start e.isAltScreen (found.map point) =
      (queued ((cutsAlong bytes start found).1.foldl atCut e) [],(cutsAlong bytes start found).2,
        ((cutsAlong bytes start found).1.foldl atCut e).isAltScreen) := by
  induction found generalizing e start with
  | nil => rfl
  | cons head rest ih =>
      obtain ⟨offset,scan⟩ := head
      have walked := ih (receiveScan (crossSegment e (TerminalEngine.slice bytes start offset)) scan) offset
      rw [← receive_queued _ offset,receiveScan_alt] at walked
      rw [List.map_cons,TerminalEngine.feedLoop]
      simp only [point,cross_queued]
      exact walked

theorem cutsAlong_same (bytes : List UInt8) (start : Nat) (more : List RawScan) (found : List (Nat × RawScan)) :
    cutsAlong bytes start (more.map (start,·) ++ found) =
      (more.map (⟨[],·⟩) ++ (cutsAlong bytes start found).1,(cutsAlong bytes start found).2) := by
  induction more with
  | nil => rfl
  | cons scan more ih =>
      have nothing : TerminalEngine.slice bytes start start = [] :=
        List.drop_eq_nil_of_le (by rw [List.length_take]; omega)
      simp only [List.map_cons,List.cons_append,cutsAlong,ih,nothing]

-- Cutting by offsets and cutting byte by byte give the same segments: `done` was
-- consumed by earlier segments, `held` belongs to the one that is being read.
theorem cutsAlong_located (p : P.State) (done held rest : List UInt8) :
    let along := cutsAlong (done ++ held ++ rest) done.length (located P p (done.length+held.length) rest)
    (along.1,(done ++ held ++ rest).drop along.2) = cuts P p held rest := by
  induction rest generalizing p done held with
  | nil => simp [located,cutsAlong,cuts]
  | cons b rest ih =>
      have whole : done ++ held ++ b :: rest = done ++ (held ++ [b]) ++ rest := by simp
      cases scans : P.scans p b with
      | nil =>
          have later := ih (P.next p b) done (held ++ [b])
          rw [List.length_append,List.length_singleton,← Nat.add_assoc] at later
          simp only [located,cuts,scans,List.map_nil,List.nil_append,whole]
          exact later
      | cons first more =>
          have later := ih (P.next p b) (done ++ (held ++ [b])) []
          have position : (done ++ (held ++ [b])).length = done.length+held.length+1 := by
            simp only [List.length_append,List.length_singleton,Nat.add_assoc]
          have segment : TerminalEngine.slice (done ++ (held ++ [b]) ++ rest) done.length
              (done.length+held.length+1) = held ++ [b] := by
            rw [TerminalEngine.slice,← position,List.take_left',List.drop_left']
            · rfl
            · rfl
          simp only [List.append_nil,List.length_nil,Nat.add_zero] at later
          rw [position] at later
          simp only [located,cuts,scans,List.map_cons,List.cons_append,whole,cutsAlong,cutsAlong_same,segment]
          rw [← later]

theorem scan_cuts (p : P.State) (bytes : List UInt8) :
    ((cutsAlong bytes 0 (located P p 0 bytes)).1,bytes.drop (cutsAlong bytes 0 (located P p 0 bytes)).2) =
      cuts P p [] bytes := cutsAlong_located p [] [] bytes

@[simp] theorem crossSegment_pending (e : TerminalEngine T P) (segment : List UInt8) :
    (crossSegment e segment).shell.pending = e.shell.pending := by
  have whole : crossSegment e segment = queued (crossSegment e segment) e.shell.pending :=
    cross_queued e e.shell.pending segment
  rw [whole]
  rfl

@[simp] theorem receiveScan_pending (e : TerminalEngine T P) (scan : RawScan) :
    (receiveScan e scan).shell.pending = e.shell.pending := by
  cases scan with
  | altScreenEnter => rfl
  | mark mark =>
      unfold receiveScan
      dsimp only
      split
      · rfl
      · exact ShellIntegration.applyMark_pending _ _ _

theorem cuts_pending (e : TerminalEngine T P) (settled : e.shell.pending = []) (found : List Cut) :
    (found.foldl atCut e).shell.pending = [] :=
  StepRuns.run_invariant (fun e : TerminalEngine T P => e.shell.pending = []) found settled
    (fun e cut settled => by simp only [atCut,receiveScan_pending,crossSegment_pending,settled])

theorem queued_settled (e : TerminalEngine T P) (settled : e.shell.pending = []) : queued e [] = e := by
  rw [queued,← settled]

-- What a feed computes: with an empty queue of marks, every cut in turn and then the
-- last segment.
theorem feed_cuts (e : TerminalEngine T P) (settled : e.shell.pending = []) (bytes : List UInt8) :
    e.feed bytes = crossSegment ((cuts P e.shell.parser [] bytes).1.foldl atCut (opened e bytes))
      (cuts P e.shell.parser [] bytes).2 := by
  have start : {opened e bytes with shell := (e.shell.scanSegment bytes).1} =
      queued (opened e bytes) ((located P e.shell.parser 0 bytes).filterMap markOf) := by
    rw [ShellIntegration.scanSegment,scanFrom_located,settled]
    rfl
  have points : (e.shell.scanSegment bytes).2 = (located P e.shell.parser 0 bytes).map point := by
    rw [ShellIntegration.scanSegment,scanFrom_located]
  have walked := feedLoop_cuts bytes (opened e bytes) 0 (located P e.shell.parser 0 bytes)
  rw [← start,← points] at walked
  have fed : e.feed bytes =
      (((TerminalEngine.feedLoop bytes {opened e bytes with shell := (e.shell.scanSegment bytes).1} 0
        (opened e bytes).isAltScreen (e.shell.scanSegment bytes).2).1.advanceAlacritty
          (bytes.drop (TerminalEngine.feedLoop bytes {opened e bytes with shell := (e.shell.scanSegment bytes).1} 0
            (opened e bytes).isAltScreen (e.shell.scanSegment bytes).2).2.1)).noticeAlt
        (TerminalEngine.feedLoop bytes {opened e bytes with shell := (e.shell.scanSegment bytes).1} 0
            (opened e bytes).isAltScreen (e.shell.scanSegment bytes).2).2.2) := rfl
  rw [fed,walked,cross_queued,queued_settled,← scan_cuts]
  rw [crossSegment_pending]
  exact cuts_pending (opened e bytes) settled _

end Perga.FeedCuts

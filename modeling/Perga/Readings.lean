import Perga.FeedCuts

namespace Perga.Readings
open FeedCuts
variable {T : Terminal} {P : VteParser}

def segments (P : VteParser) (p : P.State) (bytes : List UInt8) : List (List UInt8) :=
  (cuts P p [] bytes).1.map Cut.segment ++ [(cuts P p [] bytes).2]

theorem cuts_flatten (p : P.State) (held bytes : List UInt8) :
    ((cuts P p held bytes).1.map Cut.segment).flatten ++ (cuts P p held bytes).2 = held ++ bytes := by
  induction bytes generalizing p held with
  | nil => simp [cuts]
  | cons b rest ih =>
      cases scans : P.scans p b with
      | nil =>
          simp only [cuts,scans]
          rw [ih]
          simp
      | cons first more =>
          have others : ((more.map (Cut.mk [])).map Cut.segment).flatten = ([] : List UInt8) := by
            simp
          simp only [cuts,scans,List.cons_append,List.map_cons,List.map_append,List.flatten_cons,
            List.flatten_append,others,List.nil_append,List.append_assoc]
          rw [ih]
          simp

theorem segments_flatten (p : P.State) (bytes : List UInt8) : (segments P p bytes).flatten = bytes := by
  rw [segments,List.flatten_append,List.flatten_singleton,cuts_flatten,List.nil_append]

-- A segment together with the terminal state in which it is read.
structure Piece (T : Terminal) where
  start : T.State
  bytes : List UInt8

def Piece.finish (p : Piece T) : T.State := T.advance p.start p.bytes

def piecesFrom (s : T.State) : List (List UInt8) → List (Piece T)
  | [] => []
  | segment :: rest => ⟨s,segment⟩ :: piecesFrom (T.advance s segment) rest

def pieces (e : TerminalEngine T P) (bytes : List UInt8) : List (Piece T) :=
  piecesFrom e.term (segments P e.shell.parser bytes)

-- What the engine concludes from the two samples around a segment.
inductive Reading where
  | frozen
  | grew (lines : Nat)
  | cleared
  deriving DecidableEq, Repr

def Piece.reading (p : Piece T) : Reading :=
  if T.alt p.start || T.alt p.finish then .frozen
  else if T.historySize p.start ≤ T.historySize p.finish then
    .grew (T.historySize p.finish-T.historySize p.start)
  else .cleared

-- The two conditions under which a segment resets the mark machine.
def Piece.resets (p : Piece T) : Bool :=
  p.reading == .cleared || (T.alt p.finish && !T.alt p.start)

structure Tally where
  total : Nat
  pending : Nat
  cleared : Bool
  deriving DecidableEq, Repr

def Tally.read (t : Tally) : Reading → Tally
  | .frozen => t
  | .grew lines => {t with total := t.total+lines,pending := t.pending+lines}
  | .cleared => ⟨0,0,true⟩

def tally (e : TerminalEngine T P) : Tally := ⟨e.scrollTotal,e.pendingScrolled,e.scrollbackClearedThisFeed⟩

-- One segment: the terminal reads it, the tally reads its reading, and the mark
-- machine is reset or left alone.
theorem cross_spec (e : TerminalEngine T P) (segment : List UInt8) :
    (crossSegment e segment).term = T.advance e.term segment ∧
      (crossSegment e segment).size = e.size ∧
      tally (crossSegment e segment) = (tally e).read (Piece.reading ⟨e.term,segment⟩) ∧
      (crossSegment e segment).shell =
        if Piece.resets (T := T) ⟨e.term,segment⟩ then e.shell.reset else e.shell := by
  unfold crossSegment TerminalEngine.advanceAlacritty TerminalEngine.noticeAlt Piece.resets Piece.reading Piece.finish
  simp only [TerminalEngine.isAltScreen_alt]
  cases before : T.alt e.term <;> cases after : T.alt (T.advance e.term segment)
  · by_cases grown : T.historySize e.term ≤ T.historySize (T.advance e.term segment)
    · simp [grown,tally,Tally.read,after]
    · simp [grown,tally,Tally.read,after]
  · simp [tally,Tally.read,after]
  · simp [tally,Tally.read,after]
  · simp [tally,Tally.read,after]

@[simp] theorem crossSegment_term (e : TerminalEngine T P) (segment : List UInt8) :
    (crossSegment e segment).term = T.advance e.term segment := (cross_spec e segment).1

theorem receive_tally (e : TerminalEngine T P) (scan : RawScan) : tally (receiveScan e scan) = tally e := by
  cases scan with
  | altScreenEnter => rfl
  | mark mark => unfold receiveScan; dsimp only; split <;> rfl

theorem receive_size (e : TerminalEngine T P) (scan : RawScan) : (receiveScan e scan).size = e.size := by
  cases scan with
  | altScreenEnter => rfl
  | mark mark => unfold receiveScan; dsimp only; split <;> rfl

@[simp] theorem receive_parserKept (e : TerminalEngine T P) (scan : RawScan) :
    (receiveScan e scan).shell.parser = e.shell.parser := by
  cases scan with
  | altScreenEnter => rfl
  | mark mark =>
      unfold receiveScan
      dsimp only
      split
      · rfl
      · exact ShellIntegration.applyMark_parserKept _ _ _

theorem cross_parserKept (e : TerminalEngine T P) (segment : List UInt8) :
    (crossSegment e segment).shell.parser = e.shell.parser := by
  rw [(cross_spec e segment).2.2.2]
  split <;> rfl

theorem atCut_term (e : TerminalEngine T P) (cut : Cut) : (atCut e cut).term = T.advance e.term cut.segment := by
  rw [atCut,receiveScan_term,crossSegment_term]

theorem cuts_tally (e : TerminalEngine T P) (found : List Cut) (last : List UInt8) :
    tally (crossSegment (found.foldl atCut e) last) =
      ((piecesFrom e.term (found.map Cut.segment ++ [last])).map Piece.reading).foldl Tally.read (tally e) := by
  induction found generalizing e with
  | nil => exact (cross_spec e last).2.2.1
  | cons cut rest ih =>
      have later := ih (atCut e cut)
      have first : tally (atCut e cut) = (tally e).read (Piece.reading ⟨e.term,cut.segment⟩) := by
        rw [atCut,receive_tally]
        exact (cross_spec e cut.segment).2.2.1
      rw [atCut_term,first] at later
      simpa only [List.foldl_cons,List.map_cons,List.cons_append,piecesFrom] using later

theorem cuts_term (e : TerminalEngine T P) (found : List Cut) :
    (found.foldl atCut e).term = T.advance e.term (found.map Cut.segment).flatten := by
  induction found generalizing e with
  | nil => rfl
  | cons cut rest ih =>
      rw [List.foldl_cons,ih,atCut_term,List.map_cons,List.flatten_cons,T.advance_append]

theorem cuts_keep (e : TerminalEngine T P) (found : List Cut) :
    (found.foldl atCut e).size = e.size ∧ (found.foldl atCut e).shell.parser = e.shell.parser := by
  induction found generalizing e with
  | nil => exact ⟨rfl,rfl⟩
  | cons cut rest ih =>
      obtain ⟨size,parser⟩ := ih (atCut e cut)
      rw [List.foldl_cons,size,parser,atCut,receive_size,receive_parserKept,cross_parserKept]
      exact ⟨(cross_spec e cut.segment).2.1,rfl⟩

theorem cross_state (e : TerminalEngine T P) (segment : List UInt8) :
    (crossSegment e segment).state = T.listen e.term e.state segment := by
  have advanced : (e.advanceAlacritty segment).state = T.listen e.term e.state segment := by
    unfold TerminalEngine.advanceAlacritty
    dsimp only
    split
    · rfl
    · split <;> rfl
  rw [crossSegment,TerminalEngine.noticeAlt]
  split <;> exact advanced

theorem receive_state (e : TerminalEngine T P) (scan : RawScan) : (receiveScan e scan).state = e.state := by
  cases scan with
  | altScreenEnter => rfl
  | mark mark => unfold receiveScan; dsimp only; split <;> rfl

theorem cuts_state (e : TerminalEngine T P) (found : List Cut) (last : List UInt8) :
    (crossSegment (found.foldl atCut e) last).state =
      T.listen e.term e.state ((found.map Cut.segment).flatten ++ last) := by
  induction found generalizing e with
  | nil => exact cross_state e last
  | cons cut rest ih =>
      rw [List.foldl_cons,ih,atCut_term,atCut,receive_state,cross_state,List.map_cons,List.flatten_cons,
        List.append_assoc,← T.listen_append]

section feed
variable {e : TerminalEngine T P} (settled : e.shell.pending = []) (bytes : List UInt8)
include settled

theorem feed_term : (e.feed bytes).term = T.advance e.term bytes := by
  rw [feed_cuts e settled,crossSegment_term,cuts_term,← T.advance_append]
  have whole := cuts_flatten e.shell.parser [] bytes
  rw [List.nil_append] at whole
  rw [whole]
  rfl

theorem feed_state : (e.feed bytes).state = T.listen e.term e.state bytes := by
  rw [feed_cuts e settled,cuts_state]
  have whole := cuts_flatten e.shell.parser [] bytes
  rw [List.nil_append] at whole
  rw [whole]
  rfl

theorem feed_tally :
    tally (e.feed bytes) = ((pieces e bytes).map Piece.reading).foldl Tally.read ⟨e.scrollTotal,0,false⟩ := by
  rw [feed_cuts e settled]
  exact cuts_tally (opened e bytes) _ _

theorem feed_size : (e.feed bytes).size = e.size := by
  rw [feed_cuts e settled,(cross_spec _ _).2.1]
  exact (cuts_keep (opened e bytes) _).1

theorem feed_parsed : (e.feed bytes).shell.parser = parsed P e.shell.parser bytes := by
  rw [feed_cuts e settled,cross_parserKept]
  exact (cuts_keep (opened e bytes) _).2

theorem feed_pending : (e.feed bytes).shell.pending = [] := by
  rw [feed_cuts e settled,crossSegment_pending]
  exact cuts_pending (opened e bytes) settled _
end feed

-- Counting starts anew at a clear, for the total and for the rows of this feed.
theorem tally_split (readings : List Reading) (total : Nat) :
    let t := readings.foldl Tally.read ⟨total,0,false⟩
    t.total = if t.cleared then t.pending else total+t.pending := by
  refine StepRuns.run_invariant (fun t : Tally => t.total = if t.cleared then t.pending else total+t.pending)
    readings (by simp) ?_
  intro t reading same
  cases reading with
  | frozen => exact same
  | cleared => rfl
  | grew lines =>
      simp only [Tally.read,same]
      split <;> omega

theorem tally_cleared (readings : List Reading) (t : Tally) :
    (readings.foldl Tally.read t).cleared = true ↔ t.cleared = true ∨ .cleared ∈ readings := by
  induction readings generalizing t with
  | nil => simp
  | cons reading rest ih =>
      rw [List.foldl_cons,ih]
      cases reading with
      | frozen => simp [Tally.read]
      | cleared => simp [Tally.read]
      | grew lines => simp [Tally.read]

end Perga.Readings

import Perga.Readings

namespace Perga.EngineRuns
open FeedCuts Readings
variable {T : Terminal} {P : VteParser}

-- The calls by which the session changes an engine.
inductive Operation where
  | feed (bytes : List UInt8)
  | resize (size : TerminalSize)
  | drainPendingWrites
  | drainCommandEnds
  | takeScrolledRows
  deriving DecidableEq, Repr

def operate (e : TerminalEngine T P) : Operation → TerminalEngine T P
  | .feed bytes => e.feed bytes
  | .resize size => e.resize size
  | .drainPendingWrites => e.drainPendingWrites.1
  | .drainCommandEnds => e.drainCommandEnds.1
  | .takeScrolledRows => e.takeScrolledRows.1

def drained (e : TerminalEngine T P) : Operation → List CommandMark
  | .drainCommandEnds => e.drainCommandEnds.2
  | _ => []

def reports (e : TerminalEngine T P) : List Operation → List CommandMark
  | [] => []
  | op :: rest => drained e op ++ reports (operate e op) rest

-- No mark waits for its line outside of a feed.
def Settled (e : TerminalEngine T P) : Prop := e.shell.pending = []

theorem takeScrolledRows_engine (e : TerminalEngine T P) :
    e.takeScrolledRows.1 = {e with pendingScrolled := 0} := by
  unfold TerminalEngine.takeScrolledRows
  dsimp only
  split <;> rfl

theorem operate_settled (e : TerminalEngine T P) (op : Operation) (settled : Settled e) : Settled (operate e op) := by
  cases op with
  | feed bytes => exact feed_pending settled bytes
  | resize size => exact settled
  | drainPendingWrites => exact settled
  | drainCommandEnds => exact settled
  | takeScrolledRows => rw [operate,takeScrolledRows_engine]; exact settled

-- What happens to the mark machine, in stream order, with the terminal state that
-- each segment and each mark met.
inductive Happening (T : Terminal) where
  | segment (piece : Piece T)
  | mark (mark : RawMark) (seen : T.State) (abs : Nat)
  | noticed
  | resized (size : TerminalSize)
  | drained

def scanned (e : TerminalEngine T P) : RawScan → Happening T
  | .altScreenEnter => .noticed
  | .mark mark => .mark mark e.term (e.scrollTotal+e.cursorLine)

def cutHappenings (e : TerminalEngine T P) : List Cut → List UInt8 → List (Happening T)
  | [],last => [.segment ⟨e.term,last⟩]
  | cut :: rest,last =>
    .segment ⟨e.term,cut.segment⟩ :: scanned (crossSegment e cut.segment) cut.scan ::
      cutHappenings (atCut e cut) rest last

def happenings (e : TerminalEngine T P) : Operation → List (Happening T)
  | .feed bytes =>
    cutHappenings (opened e bytes) (cuts P e.shell.parser [] bytes).1 (cuts P e.shell.parser [] bytes).2
  | .resize size => [.resized size]
  | .drainCommandEnds => [.drained]
  | _ => []

def trace (e : TerminalEngine T P) : List Operation → List (Happening T)
  | [] => []
  | op :: rest => happenings e op ++ trace (operate e op) rest

theorem trace_append (e : TerminalEngine T P) (first second : List Operation) :
    trace e (first ++ second) = trace e first ++ trace (first.foldl operate e) second := by
  induction first generalizing e with
  | nil => rfl
  | cons op rest ih => simp only [List.cons_append,trace,ih,List.foldl_cons,List.append_assoc]

theorem reports_append (e : TerminalEngine T P) (first second : List Operation) :
    reports e (first ++ second) = reports e first ++ reports (first.foldl operate e) second := by
  induction first generalizing e with
  | nil => rfl
  | cons op rest ih => simp only [List.cons_append,reports,ih,List.foldl_cons,List.append_assoc]

-- A mark met on the alternate screen is skipped; a segment counts only by its reset.
def Happening.op : Happening T → PairMatching.Op Nat (Option Int)
  | .segment piece => if piece.resets then .discard else .pass
  | .mark found seen abs => if T.alt seen then .pass else found.op abs
  | .noticed => .pass
  | .resized _ => .discard
  | .drained => .collect

theorem cross_shows (e : TerminalEngine T P) (segment : List UInt8) (shows : e.shell.Shows m) :
    (crossSegment e segment).shell.Shows (m.act (Happening.op (.segment ⟨e.term,segment⟩))) := by
  rw [(cross_spec e segment).2.2.2,Happening.op]
  by_cases resets : Piece.resets (T := T) ⟨e.term,segment⟩ = true
  · simp only [resets,if_true]
    exact ShellIntegration.shows_reset _ m
  · simp only [resets]
    exact shows

theorem receive_shows (e : TerminalEngine T P) (scan : RawScan) (shows : e.shell.Shows m) :
    (receiveScan e scan).shell.Shows (m.act (scanned e scan).op) := by
  cases scan with
  | altScreenEnter => exact shows
  | mark mark =>
      unfold receiveScan scanned Happening.op
      dsimp only
      rw [TerminalEngine.isAltScreen_alt]
      by_cases alt : T.alt e.term = true
      · simp only [alt,if_true]
        exact shows
      · simp only [alt]
        exact ShellIntegration.shows_mark shows mark _

theorem handed_other (h : Happening T) (other : h ≠ .drained) (m : PairMatching.Matcher Nat (Option Int)) :
    m.handed h.op = [] := by
  cases h with
  | segment piece => unfold Happening.op; dsimp only; split <;> rfl
  | mark mark seen abs =>
      unfold Happening.op
      dsimp only
      split
      · rfl
      · cases mark <;> rfl
  | noticed => rfl
  | resized size => rfl
  | drained => exact absurd rfl other

theorem scanned_other (e : TerminalEngine T P) (scan : RawScan) : scanned e scan ≠ .drained := by
  cases scan <;> simp [scanned]

theorem cuts_shows (e : TerminalEngine T P) (found : List Cut) (last : List UInt8) (shows : e.shell.Shows m) :
    (crossSegment (found.foldl atCut e) last).shell.Shows
        (PairMatching.run m ((cutHappenings e found last).map Happening.op)) ∧
      PairMatching.outputs m ((cutHappenings e found last).map Happening.op) = [] := by
  induction found generalizing e m with
  | nil =>
      refine ⟨cross_shows e last shows,?_⟩
      rw [cutHappenings,List.map_singleton,PairMatching.outputs,handed_other _ (by simp)]
      rfl
  | cons cut rest ih =>
      have next := receive_shows _ cut.scan (cross_shows e cut.segment shows)
      obtain ⟨later,quiet⟩ := ih (atCut e cut) next
      refine ⟨later,?_⟩
      rw [cutHappenings,List.map_cons,List.map_cons,PairMatching.outputs,PairMatching.outputs,
        handed_other _ (by simp),handed_other _ (scanned_other _ _),List.nil_append,List.nil_append]
      exact quiet

theorem operate_shows (e : TerminalEngine T P) (settled : Settled e) (op : Operation) (shows : e.shell.Shows m) :
    (operate e op).shell.Shows (PairMatching.run m ((happenings e op).map Happening.op)) ∧
      drained e op = (PairMatching.outputs m ((happenings e op).map Happening.op)).map
        (CommandMark.ofRegion ∘ region) := by
  cases op with
  | feed bytes =>
      have walked := cuts_shows (opened e bytes) (cuts P e.shell.parser [] bytes).1
        (cuts P e.shell.parser [] bytes).2 (m := m) ⟨shows.slot,shows.ready⟩
      rw [← feed_cuts e settled] at walked
      refine ⟨walked.1,?_⟩
      simp only [happenings,walked.2,List.map_nil]
      rfl
  | resize size => exact ⟨ShellIntegration.shows_reset _ m,rfl⟩
  | drainPendingWrites => exact ⟨shows,rfl⟩
  | drainCommandEnds =>
      obtain ⟨after,given⟩ := ShellIntegration.shows_drain shows
      refine ⟨after,?_⟩
      simp only [drained,TerminalEngine.drainCommandEnds,given,happenings,List.map_cons,List.map_nil,
        Happening.op,PairMatching.outputs,List.append_nil,List.map_map]
  | takeScrolledRows =>
      rw [operate,takeScrolledRows_engine]
      exact ⟨shows,rfl⟩

theorem run_shows (e : TerminalEngine T P) (settled : Settled e) (ops : List Operation) (shows : e.shell.Shows m) :
    reports e ops = (PairMatching.outputs m ((trace e ops).map Happening.op)).map (CommandMark.ofRegion ∘ region) := by
  induction ops generalizing e m with
  | nil => rfl
  | cons op rest ih =>
      obtain ⟨after,given⟩ := operate_shows e settled op shows
      rw [reports,trace,List.map_append,PairMatching.outputs_append,List.map_append,given,
        ih _ (operate_settled e op settled) after]

def reportOf (matched : (Nat × Nat) × (Nat × Option Int)) : CommandMark := ⟨matched.1.2-1,matched.2.2⟩

-- From a new engine, the marks handed out are the matched pairs of the trace.
theorem reports_pairs (size : TerminalSize) (ops : List Operation) :
    reports (.new size : TerminalEngine T P) ops =
      (PairMatching.pairs ((trace (.new size : TerminalEngine T P) ops).map Happening.op)).map reportOf := by
  have whole := run_shows (.new size : TerminalEngine T P) rfl ops ShellIntegration.shows_new
  rw [PairMatching.outputs_pairs,List.map_map] at whole
  exact whole

-- The terminal state threads through the trace.
def lands (s : T.State) : Happening T → T.State
  | .segment piece => piece.finish
  | .resized size => T.resize s (.ofSize size)
  | _ => s

def Linked (s : T.State) : List (Happening T) → Prop
  | [] => True
  | .segment piece :: rest => piece.start = s ∧ Linked piece.finish rest
  | .mark _ seen _ :: rest => seen = s ∧ Linked s rest
  | .resized size :: rest => Linked (T.resize s (.ofSize size)) rest
  | _ :: rest => Linked s rest

theorem linked_append (first second : List (Happening T)) :
    Linked s (first ++ second) ↔ Linked s first ∧ Linked (first.foldl lands s) second := by
  induction first generalizing s with
  | nil => simp [Linked]
  | cons h rest ih => cases h <;> simp [Linked,ih,lands,and_assoc]

theorem cuts_linked (e : TerminalEngine T P) (found : List Cut) (last : List UInt8) :
    Linked e.term (cutHappenings e found last) ∧
      (cutHappenings e found last).foldl lands e.term = (crossSegment (found.foldl atCut e) last).term := by
  induction found generalizing e with
  | nil => exact ⟨⟨rfl,trivial⟩,by rw [List.foldl_nil,crossSegment_term]; rfl⟩
  | cons cut rest ih =>
      obtain ⟨linked,landed⟩ := ih (atCut e cut)
      have next : lands (T.advance e.term cut.segment) (scanned (crossSegment e cut.segment) cut.scan) =
          (atCut e cut).term := by
        rw [atCut_term]
        cases cut.scan <;> rfl
      have here : Linked (T.advance e.term cut.segment)
          (scanned (crossSegment e cut.segment) cut.scan :: cutHappenings (atCut e cut) rest last) := by
        rw [atCut_term] at linked
        cases scan : cut.scan with
        | altScreenEnter => exact linked
        | mark mark => exact ⟨crossSegment_term e cut.segment,linked⟩
      refine ⟨⟨rfl,here⟩,?_⟩
      rw [List.foldl_cons,← landed,← next]
      rfl

theorem operate_linked (e : TerminalEngine T P) (settled : Settled e) (op : Operation) :
    Linked e.term (happenings e op) ∧ (happenings e op).foldl lands e.term = (operate e op).term := by
  cases op with
  | feed bytes =>
      have walked := cuts_linked (opened e bytes) (cuts P e.shell.parser [] bytes).1 (cuts P e.shell.parser [] bytes).2
      rw [← feed_cuts e settled] at walked
      exact walked
  | resize size => exact ⟨trivial,rfl⟩
  | drainPendingWrites => exact ⟨trivial,rfl⟩
  | drainCommandEnds => exact ⟨trivial,rfl⟩
  | takeScrolledRows => rw [operate,takeScrolledRows_engine]; exact ⟨trivial,rfl⟩

theorem trace_linked (e : TerminalEngine T P) (settled : Settled e) (ops : List Operation) :
    Linked e.term (trace e ops) := by
  induction ops generalizing e with
  | nil => trivial
  | cons op rest ih =>
      obtain ⟨linked,landed⟩ := operate_linked e settled op
      rw [trace,linked_append]
      refine ⟨linked,?_⟩
      rw [landed]
      exact ih _ (operate_settled e op settled)

-- The segments of a trace are the pieces of its feeds.
theorem cuts_pieces (e : TerminalEngine T P) (found : List Cut) (last : List UInt8) (p : Piece T)
    (member : .segment p ∈ cutHappenings e found last) : p ∈ piecesFrom e.term (found.map Cut.segment ++ [last]) := by
  induction found generalizing e with
  | nil =>
      rcases List.mem_singleton.mp member with same
      cases same
      exact List.mem_cons_self
  | cons cut rest ih =>
      rcases List.mem_cons.mp member with same | later
      · cases same
        exact List.mem_cons_self
      · rcases List.mem_cons.mp later with wrong | inside
        · cases scan : cut.scan <;> rw [scan] at wrong <;> cases wrong
        · have found := ih (atCut e cut) inside
          rw [atCut_term] at found
          exact List.mem_cons_of_mem _ found

def EachPiece (good : Piece T → Prop) (e : TerminalEngine T P) : Operation → Prop
  | .feed bytes => ∀ p ∈ pieces e bytes, good p
  | _ => True

instance [∀ p : Piece T, Decidable (good p)] (e : TerminalEngine T P) :
    (op : Operation) → Decidable (EachPiece good e op)
  | .feed bytes => inferInstanceAs (Decidable (∀ p ∈ pieces e bytes, good p))
  | .resize _ => inferInstanceAs (Decidable True)
  | .drainPendingWrites => inferInstanceAs (Decidable True)
  | .drainCommandEnds => inferInstanceAs (Decidable True)
  | .takeScrolledRows => inferInstanceAs (Decidable True)

theorem trace_pieces (e : TerminalEngine T P) (ops : List Operation) {good : Piece T → Prop}
    (all : StepRuns.Along operate (EachPiece good) e ops) (p : Piece T) (member : .segment p ∈ trace e ops) : good p := by
  induction ops generalizing e with
  | nil => cases member
  | cons op rest ih =>
      rcases List.mem_append.mp member with here | later
      · cases op with
        | feed bytes => exact all.1 p (cuts_pieces (opened e bytes) _ _ p here)
        | resize size => simp [happenings] at here
        | drainPendingWrites => simp [happenings] at here
        | drainCommandEnds => simp [happenings] at here
        | takeScrolledRows => simp [happenings] at here
      · exact ih _ all.2 later

end Perga.EngineRuns

import Perga.ClientHistory

namespace Perga.Ledger
open FeedCuts Readings ScrollCounting ClientHistory
variable {T : Terminal} {P : VteParser} (S : Screens T)

-- What client and engine should jointly know after each byte, read off the terminal's
-- own events: no sample is taken and no chunk has an end.
structure Book (T : Terminal) where
  term : T.State
  total : Nat
  history : List Row
  state : MarkState
  resolved : List CommandRegion

def visits (s : T.State) (bytes : List UInt8) : Bool := (T.passed s bytes).any T.alt

def Book.read (r : Book T) (bytes : List UInt8) : Book T :=
  let next := T.advance r.term bytes
  let wiped := wipedIn S r.term bytes
  { r with
    term := next
    total := if wiped then (S.view next).scrollback.length
      else r.total+((S.view next).scrollback.length-(S.view r.term).scrollback.length)
    history := if wiped then kept S next
      else r.history ++ ((S.view next).scrollback.drop (S.view r.term).scrollback.length).map translateRow
    state := if wiped || visits r.term bytes then .idle else r.state }

def cursorRow (s : T.State) : Nat := (max (T.renderableContent s).cursor.line 0).toNat

def Book.meet (r : Book T) : RawScan → Book T
  | .altScreenEnter => r
  | .mark mark =>
    if T.alt r.term then r else
    match mark with
    | .promptStart => {r with state := .idle}
    | .commandStart => {r with state := .executing (r.total+cursorRow r.term)}
    | .commandEnd exit =>
      match r.state with
      | .executing commandAbs => {r with state := .idle,resolved := r.resolved ++ [⟨commandAbs-1,exit⟩]}
      | .idle => r

def run (P : VteParser) (p : P.State) (r : Book T) : List UInt8 → Book T
  | [] => r
  | b :: rest => run P (P.next p b) ((P.scans p b).foldl Book.meet (r.read S [b])) rest

@[simp] theorem read_term (r : Book T) (bytes : List UInt8) : (r.read S bytes).term = T.advance r.term bytes := rfl

@[simp] theorem meet_term (r : Book T) (scan : RawScan) : (r.meet scan).term = r.term := by
  cases scan with
  | altScreenEnter => rfl
  | mark mark =>
      unfold Book.meet
      dsimp only
      split
      · rfl
      · cases mark with
        | promptStart => rfl
        | commandStart => rfl
        | commandEnd exit => cases r.state <;> rfl

theorem meets_term (r : Book T) (scans : List RawScan) : (scans.foldl Book.meet r).term = r.term := by
  induction scans generalizing r with
  | nil => rfl
  | cons scan rest ih => rw [List.foldl_cons,ih,meet_term]

theorem wiped_nil (s : T.State) : wipedIn S s [] = false := rfl

@[simp] theorem read_nil (r : Book T) : r.read S [] = r := by
  simp [Book.read,wiped_nil,visits,Terminal.passed]

theorem read_unwiped (r : Book T) (bytes : List UInt8) (unwiped : wipedIn S r.term bytes = false)
    (grown : (S.view (T.advance r.term bytes)).scrollback = (S.view r.term).scrollback ++ added) :
    r.read S bytes = ⟨T.advance r.term bytes,r.total+added.length,r.history ++ added.map translateRow,
      if visits r.term bytes then .idle else r.state,r.resolved⟩ := by
  simp [Book.read,unwiped,grown]

theorem read_wiped (r : Book T) (bytes : List UInt8) (wiped : wipedIn S r.term bytes = true) :
    r.read S bytes = ⟨T.advance r.term bytes,(S.view (T.advance r.term bytes)).scrollback.length,
      kept S (T.advance r.term bytes),.idle,r.resolved⟩ := by
  simp [Book.read,wiped]

-- Reading in two steps and at once is the same: the notion has no cut points.
theorem read_append (r : Book T) (first second : List UInt8) (below : BelowIn S r.term (first ++ second)) :
    (r.read S first).read S second = r.read S (first ++ second) := by
  rw [below_append] at below
  have visited : visits r.term (first ++ second) =
      (visits r.term first || visits (T.advance r.term first) second) := by
    rw [visits,T.passed_append,List.any_append]
    rfl
  cases wipedSecond : wipedIn S (T.advance r.term first) second with
  | true =>
      simp [Book.read,wiped_append,wipedSecond,T.advance_append]
  | false =>
      obtain ⟨added,grown,_⟩ := kept_grows S below.2 wipedSecond
      cases wipedFirst : wipedIn S r.term first with
      | true =>
          simp [Book.read,wiped_append,wipedSecond,wipedFirst,T.advance_append,grown,kept]
      | false =>
          obtain ⟨before,grew,_⟩ := kept_grows S below.1 wipedFirst
          simp only [Book.read,wiped_append,wipedSecond,wipedFirst,T.advance_append,grown,grew,visited]
          simp
          cases visits r.term first <;> cases visits (T.advance r.term first) second <;> simp <;> omega

theorem run_append (p : P.State) (r : Book T) (first second : List UInt8) :
    run S P p r (first ++ second) = run S P (parsed P p first) (run S P p r first) second := by
  induction first generalizing p r with
  | nil => rfl
  | cons b rest ih => exact ih _ _

def Book.atCut (r : Book T) (cut : Cut) : Book T := (r.read S cut.segment).meet cut.scan

-- The byte-by-byte run is the walk along the cuts that the engine stops at.
theorem run_cuts (p : P.State) (r : Book T) (held bytes : List UInt8) (below : BelowIn S r.term (held ++ bytes)) :
    run S P p (r.read S held) bytes =
      (((cuts P p held bytes).1.foldl (Book.atCut S) r).read S (cuts P p held bytes).2) := by
  induction bytes generalizing p r held with
  | nil => rfl
  | cons b rest ih =>
      have whole : held ++ b :: rest = (held ++ [b]) ++ rest := by simp
      rw [whole] at below
      have split := (below_append S _ _ _).mp below
      have joined := read_append S r held [b] split.1
      cases scans : P.scans p b with
      | nil =>
          simp only [run,cuts,scans,List.foldl_nil,joined]
          exact ih (P.next p b) r (held ++ [b]) below
      | cons first more =>
          have empties : ∀ (more : List RawScan) (r : Book T),
              (more.map (Cut.mk [])).foldl (Book.atCut S) r = more.foldl Book.meet r := by
            intro more
            induction more with
            | nil => intro r; rfl
            | cons scan more later =>
                intro r
                rw [List.map_cons,List.foldl_cons,List.foldl_cons,later,Book.atCut,read_nil]
          simp only [run,cuts,scans,List.foldl_cons,List.cons_append,List.foldl_append,joined,empties]
          rw [← ih]
          · rw [read_nil]; rfl
          · rw [meets_term,List.nil_append]
            simpa [Book.atCut] using split.2

end Perga.Ledger

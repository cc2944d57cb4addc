import Perga.Terminal
import Perga.ShellIntegration

namespace Perga

-- The u64 counters only grow by lines that a terminal scrolled, so they are natural
-- numbers. `processor` and `term` are one machine here.
structure TerminalEngine (T : Terminal) (P : VteParser) where
  term : T.State
  state : ListenerState
  size : TerminalSize
  shell : ShellIntegration P
  scrollTotal : Nat
  pendingScrolled : Nat
  scrollbackClearedThisFeed : Bool

structure CommandMark where
  line : Nat
  exit : Option Int
  deriving DecidableEq, Repr

def CommandMark.ofRegion (r : CommandRegion) : CommandMark := ⟨r.line,r.exit⟩

def blankRow (cols : Nat) : Row := ⟨List.replicate cols blankCell⟩

namespace TerminalEngine
variable {T : Terminal} {P : VteParser}

def new (size : TerminalSize) : TerminalEngine T P :=
  ⟨T.new (.ofSize size),.default,size,.new,0,0,false⟩

def modes (e : TerminalEngine T P) : TerminalModes := .fromTermMode (T.mode e.term)

def isAltScreen (e : TerminalEngine T P) : Bool := e.modes.altScreen

def cursorLine (e : TerminalEngine T P) : Nat := (max (T.renderableContent e.term).cursor.line 0).toNat

def advanceAlacritty (e : TerminalEngine T P) (segment : List UInt8) : TerminalEngine T P :=
  let altBefore := e.isAltScreen
  let before := T.historySize e.term
  let e := {e with term := T.advance e.term segment,state := T.listen e.term e.state segment}
  let after := T.historySize e.term
  if altBefore || e.isAltScreen then e
  else if before ≤ after then
    {e with scrollTotal := e.scrollTotal+(after-before),pendingScrolled := e.pendingScrolled+(after-before)}
  else
    {e with scrollTotal := 0,pendingScrolled := 0,scrollbackClearedThisFeed := true,shell := e.shell.reset}

-- Entering the alternate screen drops the command in flight.
def noticeAlt (e : TerminalEngine T P) (alt : Bool) : TerminalEngine T P :=
  if e.isAltScreen && !alt then {e with shell := e.shell.reset} else e

def slice (bytes : List UInt8) (start stop : Nat) : List UInt8 := (bytes.take stop).drop start

def feedLoop (bytes : List UInt8) (e : TerminalEngine T P) (start : Nat) (alt : Bool) :
    List ScanPoint → TerminalEngine T P × Nat × Bool
  | [] => (e,start,alt)
  | point :: points =>
    let e := (e.advanceAlacritty (slice bytes start point.offset)).noticeAlt alt
    let altNow := e.isAltScreen
    let e := if point.isMark then
        if altNow then {e with shell := e.shell.skipPending}
        else {e with shell := e.shell.resolvePending (e.scrollTotal+e.cursorLine)}
      else e
    feedLoop bytes e point.offset altNow points

def feed (e : TerminalEngine T P) (bytes : List UInt8) : TerminalEngine T P :=
  let e := {e with pendingScrolled := 0,scrollbackClearedThisFeed := false}
  let scanned := e.shell.scanSegment bytes
  let e := {e with shell := scanned.1}
  let looped := feedLoop bytes e 0 e.isAltScreen scanned.2
  (looped.1.advanceAlacritty (bytes.drop looped.2.1)).noticeAlt looped.2.2

def resize (e : TerminalEngine T P) (size : TerminalSize) : TerminalEngine T P :=
  {e with term := T.resize e.term (.ofSize size),size := size,scrollTotal := 0,shell := e.shell.reset}

-- Cells outside the viewport are dropped; the grid was filled with blanks before.
def placeCell (rowsCount colsCount : Nat) (displayOffset : Int) (rows : List Row) (indexed : Indexed) : List Row :=
  let viewportLine := indexed.line+displayOffset
  if viewportLine < 0 ∨ rowsCount ≤ viewportLine.toNat then rows
  else if colsCount ≤ indexed.column then rows
  else rows.modify viewportLine.toNat fun row => ⟨row.cells.set indexed.column (translateCell indexed.cell)⟩

def snapshot (e : TerminalEngine T P) : Snapshot :=
  let rc := T.renderableContent e.term
  let rowsCount := e.size.rows.toNat
  let colsCount := e.size.cols.toNat
  { size := e.size
    cursor := translateCursor rc.cursor rc.displayOffset
    rows := rc.displayIter.foldl (placeCell rowsCount colsCount rc.displayOffset)
      (List.replicate rowsCount (blankRow colsCount)) }

def drainPendingWrites (e : TerminalEngine T P) : TerminalEngine T P × List (List UInt8) :=
  ({e with state := {e.state with pendingWrites := []}},e.state.pendingWrites)

def title (e : TerminalEngine T P) : Option String := e.state.title

def translateGridRow (e : TerminalEngine T P) (gridLine : Int) : Row :=
  let clamped := min (max gridLine (T.topmostLine e.term)) (T.bottommostLine e.term)
  if clamped ≠ gridLine then blankRow e.size.cols.toNat
  else translateRow (T.gridLine e.term clamped)

def drainCommandEnds (e : TerminalEngine T P) : TerminalEngine T P × List CommandMark :=
  ({e with shell := e.shell.drainRegions.1},e.shell.drainRegions.2.map .ofRegion)

-- The cast of the count to i32 is exact: a backend's chunk is a few thousand bytes.
def takeScrolledRows (e : TerminalEngine T P) : TerminalEngine T P × List Row :=
  let n := e.pendingScrolled
  let e := {e with pendingScrolled := 0}
  if e.scrollbackClearedThisFeed || n == 0 then (e,[])
  else (e,(List.range n).map fun (k : Nat) => e.translateGridRow ((k : Int)-n))

def scrollbackCleared (e : TerminalEngine T P) : Bool := e.scrollbackClearedThisFeed

variable {e : TerminalEngine T P}

theorem isAltScreen_alt (e : TerminalEngine T P) : e.isAltScreen = T.alt e.term := rfl

theorem placeCell_shape (rowsCount cols : Nat) (offset : Int) (rows : List Row) (indexed : Indexed)
    (shaped : rows.length = rowsCount ∧ ∀ row ∈ rows, row.cells.length = cols) :
    (placeCell rowsCount cols offset rows indexed).length = rowsCount ∧
      ∀ row ∈ placeCell rowsCount cols offset rows indexed, row.cells.length = cols := by
  unfold placeCell
  dsimp only
  split
  · exact shaped
  · split
    · exact shaped
    · refine ⟨by rw [List.length_modify]; exact shaped.1,?_⟩
      intro row member
      obtain ⟨i,found⟩ := List.mem_iff_getElem?.mp member
      rw [List.getElem?_modify] at found
      obtain ⟨old,inside,rfl⟩ := Option.map_eq_some_iff.mp found
      have length := shaped.2 old (List.mem_of_getElem? inside)
      split <;> simpa using length

theorem snapshot_shaped (e : TerminalEngine T P) : e.snapshot.Shaped := by
  have blank : (List.replicate e.size.rows.toNat (blankRow e.size.cols.toNat)).length = e.size.rows.toNat ∧
      ∀ row ∈ List.replicate e.size.rows.toNat (blankRow e.size.cols.toNat),
        row.cells.length = e.size.cols.toNat := by
    refine ⟨List.length_replicate,fun row member => ?_⟩
    rw [List.eq_of_mem_replicate member]
    exact List.length_replicate
  have filled := StepRuns.run_invariant
    (fun rows : List Row => rows.length = e.size.rows.toNat ∧ ∀ row ∈ rows, row.cells.length = e.size.cols.toNat)
    (T.renderableContent e.term).displayIter blank
    (fun rows indexed shaped => placeCell_shape _ _ (T.renderableContent e.term).displayOffset rows indexed shaped)
  exact ⟨filled.1,filled.2⟩

-- What the rows handed out are: nothing in a cleared feed, else one row per line.
theorem takeScrolledRows_length (e : TerminalEngine T P) :
    e.takeScrolledRows.2.length = if e.scrollbackClearedThisFeed then 0 else e.pendingScrolled := by
  unfold takeScrolledRows
  cases cleared : e.scrollbackClearedThisFeed with
  | true => simp
  | false =>
      by_cases none : e.pendingScrolled = 0
      · simp [none]
      · simp [none]

-- Replies and marks that were taken before have no part in the rows.
theorem takeScrolledRows_aside (e : TerminalEngine T P) (state : ListenerState) (shell : ShellIntegration P) :
    ({e with state := state,shell := shell} : TerminalEngine T P).takeScrolledRows.2 = e.takeScrolledRows.2 := by
  unfold takeScrolledRows
  dsimp only
  split <;> rfl

theorem takeScrolledRows_cleared (cleared : e.scrollbackClearedThisFeed = true) : e.takeScrolledRows.2 = [] := by
  simp [takeScrolledRows,cleared]

theorem translateGridRow_kept (S : Screens T) (primary : T.alt e.term = false) (k : Nat)
    (inside : k < (S.view e.term).scrollback.length) :
    e.translateGridRow ((k : Int)-(S.view e.term).scrollback.length) = translateRow (S.view e.term).scrollback[k] := by
  have view : (S.view e.term).alt = false := by rw [← S.alt_screen]; exact primary
  have size : T.historySize e.term = (S.view e.term).scrollback.length := by rw [S.history_size,view]; rfl
  have top := S.topmost e.term
  have bottom := S.bottommost e.term
  have clamped : min (max ((k : Int)-(S.view e.term).scrollback.length) (T.topmostLine e.term))
      (T.bottommostLine e.term) = (k : Int)-(S.view e.term).scrollback.length := by
    rw [top,size]
    omega
  unfold translateGridRow
  dsimp only
  rw [clamped,if_neg (by simp),S.line _ _ view inside]

-- On the primary screen the last `pendingScrolled` lines of the scrollback go out.
theorem takeScrolledRows_kept (S : Screens T) (primary : T.alt e.term = false)
    (uncleared : e.scrollbackClearedThisFeed = false)
    (enough : e.pendingScrolled ≤ (S.view e.term).scrollback.length) :
    e.takeScrolledRows.2 = ((S.view e.term).scrollback.drop
      ((S.view e.term).scrollback.length-e.pendingScrolled)).map translateRow := by
  unfold takeScrolledRows
  by_cases none : e.pendingScrolled = 0
  · simp [none]
  · have some : (e.scrollbackClearedThisFeed || e.pendingScrolled == 0) = false := by simp [uncleared,none]
    simp only [some,Bool.false_eq_true,if_false]
    apply List.ext_getElem
    · simp; omega
    · intro i left right
      simp only [List.length_map,List.length_range] at left
      simp only [List.getElem_map,List.getElem_range,List.getElem_drop]
      have shifted : ((i : Int)-e.pendingScrolled) =
          (((S.view e.term).scrollback.length-e.pendingScrolled+i : Nat) : Int)-(S.view e.term).scrollback.length := by
        omega
      rw [shifted]
      exact translateGridRow_kept (e := {e with pendingScrolled := 0}) S primary _ (by change _ < (S.view e.term).scrollback.length; omega)

end TerminalEngine

end Perga

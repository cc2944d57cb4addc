import Perga.ScrollCounting

namespace Perga.ClientHistory
open FeedCuts Readings ScrollCounting
variable {T : Terminal} {P : VteParser} (S : Screens T)

-- An engine with the client that receives what each feed yields: the session drains
-- command ends, reads the cleared flag, takes the scrolled rows, in this order.
structure Delivery (T : Terminal) (P : VteParser) where
  engine : TerminalEngine T P
  history : List Row
  marks : List CommandMark

def deliver (d : Delivery T P) (bytes : List UInt8) : Delivery T P :=
  let ends := (d.engine.feed bytes).drainCommandEnds
  let cleared := ends.1.scrollbackCleared
  let rows := ends.1.takeScrolledRows
  ⟨rows.1,(if cleared then [] else d.history) ++ rows.2,d.marks ++ ends.2⟩

def begun (size : TerminalSize) : Delivery T P := ⟨.new size,[],[]⟩

def kept (s : T.State) : List Row := (S.view s).scrollback.map translateRow

theorem deliver_engine (d : Delivery T P) (bytes : List UInt8) :
    (deliver d bytes).engine = {(d.engine.feed bytes).drainCommandEnds.1 with pendingScrolled := 0} :=
  EngineRuns.takeScrolledRows_engine _

theorem deliver_term (d : Delivery T P) (settled : d.engine.shell.pending = []) (bytes : List UInt8) :
    (deliver d bytes).engine.term = T.advance d.engine.term bytes := by
  rw [deliver_engine]
  exact feed_term settled bytes

theorem deliver_settled (d : Delivery T P) (settled : d.engine.shell.pending = []) (bytes : List UInt8) :
    (deliver d bytes).engine.shell.pending = [] := by
  rw [deliver_engine]
  exact feed_pending settled bytes

theorem deliver_cleared (d : Delivery T P) (bytes : List UInt8)
    (cleared : (d.engine.feed bytes).scrollbackClearedThisFeed = true) : (deliver d bytes).history = [] := by
  have nothing := TerminalEngine.takeScrolledRows_cleared (e := (d.engine.feed bytes).drainCommandEnds.1) cleared
  simp only [deliver,TerminalEngine.scrollbackCleared,nothing,List.append_nil]
  exact if_pos cleared

theorem deliver_still (d : Delivery T P) (bytes : List UInt8)
    (uncleared : (d.engine.feed bytes).scrollbackClearedThisFeed = false)
    (still : (d.engine.feed bytes).pendingScrolled = 0) : (deliver d bytes).history = d.history := by
  have flag : (d.engine.feed bytes).drainCommandEnds.1.scrollbackClearedThisFeed = false := uncleared
  have none : (d.engine.feed bytes).drainCommandEnds.1.pendingScrolled = 0 := still
  simp [deliver,TerminalEngine.scrollbackCleared,TerminalEngine.takeScrolledRows,flag,none]

-- Without a clear, the rows are the newest lines of the scrollback, as many as the
-- feed counted, and the client appends them.
theorem feed_rows {e : TerminalEngine T P} (settled : e.shell.pending = []) (bytes : List UInt8)
    (uncleared : (e.feed bytes).scrollbackClearedThisFeed = false) (primary : T.alt (T.advance e.term bytes) = false)
    (grown : (S.view (T.advance e.term bytes)).scrollback = (S.view e.term).scrollback ++ added)
    (counted : (e.feed bytes).pendingScrolled = added.length) :
    (e.feed bytes).takeScrolledRows.2 = added.map translateRow := by
  have term : (e.feed bytes).term = T.advance e.term bytes := feed_term settled bytes
  have rows := TerminalEngine.takeScrolledRows_kept (e := e.feed bytes) S (by rw [term]; exact primary) uncleared
    (by rw [term,grown,List.length_append]; omega)
  rwa [term,grown,List.length_append,counted,Nat.add_sub_cancel,List.drop_left] at rows

theorem deliver_grown (d : Delivery T P) (settled : d.engine.shell.pending = []) (bytes : List UInt8)
    (uncleared : (d.engine.feed bytes).scrollbackClearedThisFeed = false)
    (primary : T.alt (T.advance d.engine.term bytes) = false)
    (grown : (S.view (T.advance d.engine.term bytes)).scrollback = (S.view d.engine.term).scrollback ++ added)
    (counted : (d.engine.feed bytes).pendingScrolled = added.length) :
    (deliver d bytes).history = d.history ++ added.map translateRow := by
  have aside : (d.engine.feed bytes).drainCommandEnds.1.takeScrolledRows.2 = (d.engine.feed bytes).takeScrolledRows.2 :=
    TerminalEngine.takeScrolledRows_aside (d.engine.feed bytes) _ _
  have flag : (d.engine.feed bytes).drainCommandEnds.1.scrollbackClearedThisFeed = false := uncleared
  simp only [deliver,TerminalEngine.scrollbackCleared,aside,feed_rows S settled bytes uncleared primary grown counted,
    flag,Bool.false_eq_true,if_false]

-- A stretch on the primary screen: it starts there and no event enters the other one.
def Primary (s : T.State) (bytes : List UInt8) : Prop :=
  T.alt s = false ∧ ∀ event ∈ S.trace s bytes, event ≠ .entered

instance : Decidable (Primary S s bytes) :=
  inferInstanceAs (Decidable (T.alt s = false ∧ ∀ event ∈ S.trace s bytes, event ≠ .entered))

theorem primary_after {s : T.State} {bytes : List UInt8} (primary : Primary S s bytes) :
    T.alt (T.advance s bytes) = false := by
  rw [S.alt_screen,S.advance_view]
  exact ScreenHistory.stays_primary (by rw [← S.alt_screen]; exact primary.1) primary.2

theorem primary_append {s : T.State} {first second : List UInt8} (primary : Primary S s (first ++ second)) :
    Primary S s first ∧ Primary S (T.advance s first) second := by
  obtain ⟨start,never⟩ := primary
  rw [S.trace_append] at never
  have here : Primary S s first := ⟨start,fun event member => never event (List.mem_append_left _ member)⟩
  exact ⟨here,primary_after S here,fun event member => never event (List.mem_append_right _ member)⟩

theorem piece_primary {s : T.State} {segment : List UInt8} (primary : Primary S s segment) :
    Piece.touchesAlt (T := T) ⟨s,segment⟩ = false := by
  rw [Piece.touchesAlt,primary.1]
  exact primary_after S primary

-- Reading without a wipe, the segments of a primary feed never clear.
theorem pieces_uncleared (s : T.State) (segs : List (List UInt8)) (primary : Primary S s segs.flatten)
    (below : BelowIn S s segs.flatten) (unwiped : wipedIn S s segs.flatten = false) :
    .cleared ∉ (piecesFrom s segs).map Piece.reading := by
  induction segs generalizing s with
  | nil => simp [piecesFrom]
  | cons seg rest ih =>
      rw [List.flatten_cons] at primary below unwiped
      rw [below_append] at below
      rw [wiped_append,Bool.or_eq_false_iff] at unwiped
      have stays := primary_append S primary
      have first := reading_grew S (piece_primary S stays.1) below.1 unwiped.1
      have later := ih _ stays.2 below.2 unwiped.2
      simp only [piecesFrom,List.map_cons,List.mem_cons,first,not_or]
      exact ⟨by simp,later⟩

-- Without a clear and with nothing left at the end, there was nothing at any cut.
theorem pieces_empty (s : T.State) (segs : List (List UInt8)) (primary : Primary S s segs.flatten)
    (final : (S.view (T.advance s segs.flatten)).scrollback = [])
    (uncleared : .cleared ∉ (piecesFrom s segs).map Piece.reading) :
    (S.view s).scrollback = [] ∧ ∀ p ∈ piecesFrom s segs, (S.view p.start).scrollback = [] := by
  induction segs generalizing s with
  | nil => exact ⟨final,by simp [piecesFrom]⟩
  | cons seg rest ih =>
      rw [List.flatten_cons] at primary final
      rw [T.advance_append] at final
      simp only [piecesFrom,List.map_cons,List.mem_cons,not_or] at uncleared
      have stays := primary_append S primary
      obtain ⟨next,others⟩ := ih _ stays.2 final uncleared.2
      have here : (S.view s).scrollback = [] := by
        by_cases longer : (S.view s).scrollback.length ≤ (S.view (T.advance s seg)).scrollback.length
        · rw [next] at longer
          exact List.eq_nil_of_length_eq_zero (by simpa using longer)
        · have reading : Piece.reading (T := T) ⟨s,seg⟩ = .cleared :=
            (reading_primary S (piece_primary S stays.1)).trans (if_neg longer)
          exact absurd reading.symm uncleared.1
      refine ⟨here,?_⟩
      intro p member
      rcases List.mem_cons.mp member with rfl | inside
      · exact here
      · exact others p inside

-- What a feed on the primary screen owes its client: the flag tells of every wipe and
-- of nothing else, and the client's history is the scrollback, oldest line first.
structure Faithful (d : Delivery T P) (bytes : List UInt8) : Prop where
  flag : (d.engine.feed bytes).scrollbackCleared = wipedIn S d.engine.term bytes
  history : (deliver d bytes).history = kept S (deliver d bytes).engine.term

-- The feed wipes nothing, or it ends with an empty scrollback that held a line at the
-- feed's start or at one of its cut points.
def Recognised (d : Delivery T P) (bytes : List UInt8) : Prop :=
  wipedIn S d.engine.term bytes = false ∨
    ((S.view (T.advance d.engine.term bytes)).scrollback = [] ∧
      ∃ p ∈ pieces d.engine bytes, (S.view p.start).scrollback ≠ [])

def Inside (d : Delivery T P) (bytes : List UInt8) : Prop :=
  Primary S d.engine.term bytes ∧ BelowIn S d.engine.term bytes

structure Synced (d : Delivery T P) : Prop where
  settled : d.engine.shell.pending = []
  history : d.history = kept S d.engine.term

theorem flag_cleared (e : TerminalEngine T P) (settled : e.shell.pending = []) (bytes : List UInt8) :
    (e.feed bytes).scrollbackClearedThisFeed = true ↔ .cleared ∈ (pieces e bytes).map Piece.reading := by
  have fed := congrArg Tally.cleared (feed_tally settled bytes)
  change (e.feed bytes).scrollbackClearedThisFeed = _ at fed
  rw [fed,tally_cleared]
  simp

theorem pieces_untouched (s : T.State) (segs : List (List UInt8)) (primary : Primary S s segs.flatten) :
    ∀ p ∈ piecesFrom s segs, Piece.touchesAlt p = false := by
  induction segs generalizing s with
  | nil => intro p member; cases member
  | cons seg rest ih =>
      rw [List.flatten_cons] at primary
      have stays := primary_append S primary
      intro p member
      rcases List.mem_cons.mp member with rfl | inside
      · exact piece_primary S stays.1
      · exact ih _ stays.2 p inside

theorem primary_undivided {e : TerminalEngine T P} {bytes : List UInt8} (primary : Primary S e.term bytes) :
    Undivided S e bytes := by
  intro p member touches
  have untouched := pieces_untouched S e.term (segments P e.shell.parser bytes)
    (by rw [segments_flatten]; exact primary) p member
  rw [Piece.touchesAlt,Bool.or_eq_false_iff] at untouched
  simp [untouched] at touches

-- While nothing is cleared, what a feed counts and what it hands out are one number.
theorem pending_total {e : TerminalEngine T P} (settled : e.shell.pending = []) (bytes : List UInt8)
    (uncleared : (e.feed bytes).scrollbackClearedThisFeed = false) :
    (e.feed bytes).scrollTotal = e.scrollTotal+(e.feed bytes).pendingScrolled := by
  have split := tally_split ((pieces e bytes).map Piece.reading) e.scrollTotal
  rw [← feed_tally settled bytes] at split
  simpa [tally,uncleared] using split

-- A feed on the primary screen that wipes nothing clears nothing and counts every line
-- that it moved.
theorem unwiped_counts {e : TerminalEngine T P} (settled : e.shell.pending = []) {bytes : List UInt8}
    (primary : Primary S e.term bytes) (below : BelowIn S e.term bytes) (unwiped : wipedIn S e.term bytes = false) :
    (e.feed bytes).scrollbackClearedThisFeed = false ∧
      ∃ added, (S.view (T.advance e.term bytes)).scrollback = (S.view e.term).scrollback ++ added ∧
        (e.feed bytes).pendingScrolled = added.length := by
  have whole := segments_flatten (P := P) e.shell.parser bytes
  have uncleared : (e.feed bytes).scrollbackClearedThisFeed = false := by
    rw [← Bool.not_eq_true,flag_cleared _ settled]
    exact pieces_uncleared S _ _ (by rw [whole]; exact primary) (by rw [whole]; exact below)
      (by rw [whole]; exact unwiped)
  obtain ⟨added,grown,count⟩ := kept_grows S below unwiped
  have counted : Counted S e bytes :=
    (counted_exact S settled ⟨unwiped,below⟩).mpr (primary_undivided S primary)
  have total := pending_total settled bytes uncleared
  rw [Counted] at counted
  exact ⟨uncleared,added,grown,by omega⟩

theorem unwiped_faithful {d : Delivery T P} (synced : Synced S d) {bytes : List UInt8} (inside : Inside S d bytes)
    (unwiped : wipedIn S d.engine.term bytes = false) : Faithful S d bytes := by
  obtain ⟨uncleared,added,grown,pending⟩ := unwiped_counts S synced.settled inside.1 inside.2 unwiped
  refine ⟨uncleared.trans unwiped.symm,?_⟩
  rw [deliver_grown S d synced.settled bytes uncleared (primary_after S inside.1) grown pending,synced.history,
    kept,kept,deliver_term d synced.settled,grown,List.map_append]

-- A wiping feed is told of correctly only by a clear that nothing scrolled after.
theorem wiped_faithful {d : Delivery T P} (synced : Synced S d) {bytes : List UInt8}
    (wiped : wipedIn S d.engine.term bytes = true) :
    Faithful S d bytes ↔ (d.engine.feed bytes).scrollbackClearedThisFeed = true ∧
      (S.view (T.advance d.engine.term bytes)).scrollback = [] := by
  constructor
  · intro given
    rcases given with ⟨flag,history⟩
    have cleared : (d.engine.feed bytes).scrollbackClearedThisFeed = true := flag.trans wiped
    refine ⟨cleared,?_⟩
    rw [deliver_cleared d bytes cleared,kept,deliver_term d synced.settled] at history
    exact List.map_eq_nil_iff.mp history.symm
  · intro given
    rcases given with ⟨cleared,nothing⟩
    refine ⟨cleared.trans wiped.symm,?_⟩
    rw [deliver_cleared d bytes cleared,kept,deliver_term d synced.settled,nothing]
    rfl

theorem cleared_recognised {d : Delivery T P} (synced : Synced S d) {bytes : List UInt8} (inside : Inside S d bytes)
    (nothing : (S.view (T.advance d.engine.term bytes)).scrollback = []) :
    (d.engine.feed bytes).scrollbackClearedThisFeed = true ↔
      ∃ p ∈ pieces d.engine bytes, (S.view p.start).scrollback ≠ [] := by
  have whole := segments_flatten (P := P) d.engine.shell.parser bytes
  rw [flag_cleared _ synced.settled]
  constructor
  · intro cleared
    obtain ⟨p,member,reading⟩ := List.mem_map.mp cleared
    refine ⟨p,member,?_⟩
    intro started
    have untouched := pieces_untouched S _ _ (by rw [whole]; exact inside.1) p member
    rw [reading_primary S untouched,started,List.length_nil,if_pos (Nat.zero_le _)] at reading
    cases reading
  · intro given
    rcases given with ⟨p,member,held⟩
    apply Classical.byContradiction
    intro uncleared
    exact held ((pieces_empty S _ _ (by rw [whole]; exact inside.1) (by rw [whole]; exact nothing) uncleared).2 p member)

theorem faithful_exact {d : Delivery T P} (synced : Synced S d) {bytes : List UInt8} (inside : Inside S d bytes) :
    Faithful S d bytes ↔ Recognised S d bytes := by
  cases wiped : wipedIn S d.engine.term bytes with
  | false => exact ⟨fun _ => .inl wiped,fun _ => unwiped_faithful S synced inside wiped⟩
  | true =>
      rw [wiped_faithful S synced wiped,Recognised,wiped]
      constructor
      · intro given
        rcases given with ⟨cleared,nothing⟩
        exact .inr ⟨nothing,(cleared_recognised S synced inside nothing).mp cleared⟩
      · intro either
        rcases either with impossible | ⟨nothing,held⟩
        · cases impossible
        · exact ⟨(cleared_recognised S synced inside nothing).mpr held,nothing⟩

-- For every run of feeds on the primary screen and below the cap, with erases
-- anywhere: all feeds are faithful exactly when all are recognised.
theorem erase_exact (size : TerminalSize) (chunks : List (List UInt8))
    (inside : StepRuns.Along deliver (Inside S) (begun size : Delivery T P) chunks) :
    StepRuns.Along deliver (Faithful S) (begun size : Delivery T P) chunks ↔
      StepRuns.Along deliver (Recognised S) (begun size : Delivery T P) chunks := by
  refine StepRuns.along_iff (Synced S) ⟨rfl,?_⟩ inside
    (fun _ _ synced inside => faithful_exact S synced inside) ?_
  · change [] = kept S (T.new (.ofSize size))
    rw [kept,S.new_view]
    rfl
  · intro d bytes synced _ faithful
    exact ⟨deliver_settled d synced.settled bytes,faithful.history⟩

open LineTerminal

instance : Decidable (Inside S d bytes) :=
  inferInstanceAs (Decidable (Primary S d.engine.term bytes ∧ BelowIn S d.engine.term bytes))

instance : Decidable (Faithful S d bytes) :=
  decidable_of_iff ((d.engine.feed bytes).scrollbackCleared = wipedIn S d.engine.term bytes ∧
    (deliver d bytes).history = kept S (deliver d bytes).engine.term)
    ⟨fun both => ⟨both.1,both.2⟩,fun faithful => ⟨faithful.flag,faithful.history⟩⟩

instance : Decidable (Recognised S d bytes) :=
  inferInstanceAs (Decidable (wipedIn S d.engine.term bytes = false ∨
    ((S.view (T.advance d.engine.term bytes)).scrollback = [] ∧
      ∃ p ∈ pieces d.engine bytes, (S.view p.start).scrollback ≠ [])))

theorem erase_exact_cut :
    StepRuns.Along deliver (Faithful screens) (begun ⟨2,4⟩ : Delivery terminal sideParser)
      [lines 4,lines 1 ++ eraseSaved,lines 3] :=
  (erase_exact screens ⟨2,4⟩ [lines 4,lines 1 ++ eraseSaved,lines 3] (by decide +kernel)).mpr (by decide +kernel)

def scrolledOnce : Delivery terminal sideParser := deliver (begun ⟨2,4⟩) (lines 2)

-- One kept line is erased. Two line feeds in the same segment hide the erase; a mark
-- and a line feed behind it reveal the erase but the new line never goes out.
theorem erase_misread :
    (StepRuns.Along deliver (Inside screens) (begun ⟨2,4⟩ : Delivery terminal sideParser) [lines 2,eraseSaved ++ lines 2] ∧
      ¬ StepRuns.Along deliver (Faithful screens) (begun ⟨2,4⟩ : Delivery terminal sideParser)
        [lines 2,eraseSaved ++ lines 2] ∧
      wipedIn screens scrolledOnce.engine.term (eraseSaved ++ lines 2) = true ∧
      (scrolledOnce.engine.feed (eraseSaved ++ lines 2)).scrollbackCleared = false) ∧
    (StepRuns.Along deliver (Inside screens) (begun ⟨2,4⟩ : Delivery terminal sideParser) [lines 2,eraseSaved ++ commandStart ++ lines 1] ∧
      ¬ StepRuns.Along deliver (Faithful screens) (begun ⟨2,4⟩ : Delivery terminal sideParser)
        [lines 2,eraseSaved ++ commandStart ++ lines 1] ∧
      (deliver scrolledOnce (eraseSaved ++ commandStart ++ lines 1)).history = [] ∧
      (kept screens (deliver scrolledOnce (eraseSaved ++ commandStart ++ lines 1)).engine.term).length = 1) := by
  decide +kernel

end Perga.ClientHistory

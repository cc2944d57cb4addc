import Mathlib.Algebra.GroupWithZero.Nat
import Perga.ScrollCounting

namespace Perga.ScrolledRows
open FeedCuts Readings EngineRuns ScrollCounting
variable {T : Terminal} {P : VteParser} (S : Screens T)

def depth (s : T.State) : Nat := (S.view s).scrollback.length

-- The grid lines that `take_scrolled_rows` asks for.
def requested (e : TerminalEngine T P) : List Int :=
  (List.range e.pendingScrolled).map fun (k : Nat) => (k : Int)-e.pendingScrolled

-- The rows are the newest lines that the primary screen keeps, and none of them is a substitute.
structure RealRows (e : TerminalEngine T P) : Prop where
  count : e.takeScrolledRows.2.length = e.pendingScrolled
  kept : e.pendingScrolled ≤ depth S e.term
  newest : e.takeScrolledRows.2 =
    ((S.view e.term).scrollback.drop (depth S e.term-e.pendingScrolled)).map translateRow
  inside : ∀ line ∈ requested e, T.topmostLine e.term ≤ line ∧ line ≤ T.bottommostLine e.term

theorem depth_grows {s : T.State} {bytes : List UInt8} (unwiped : wipedIn S s bytes = false) :
    depth S s ≤ depth S (T.advance s bytes) := by
  unfold depth
  rw [S.advance_view]
  exact ScreenHistory.play_not_shorter (S.bounded s) unwiped

def grownIn (p : Piece T) : Nat := if Piece.touchesAlt p then 0 else depth S p.finish-depth S p.start

def grownAlong (parts : List (Piece T)) : Nat := (parts.map (grownIn S)).sum

theorem reading_unwiped {p : Piece T} (t : Tally) (unwiped : wipedIn S p.start p.bytes = false) :
    t.read p.reading = {t with total := t.total+grownIn S p,pending := t.pending+grownIn S p} := by
  unfold grownIn
  cases touches : Piece.touchesAlt p with
  | true => rw [reading_frozen touches]; rfl
  | false =>
      have grows : (S.view p.start).scrollback.length ≤ (S.view p.finish).scrollback.length := depth_grows S unwiped
      rw [reading_primary S touches,if_pos grows]
      rfl

-- What the segments of a feed count is at most what the scrollback has got longer by.
theorem pieces_counted (s : T.State) (segs : List (List UInt8)) (t : Tally) (unwiped : wipedIn S s segs.flatten = false) :
    let after := ((piecesFrom s segs).map Piece.reading).foldl Tally.read t
    after.cleared = t.cleared ∧ after.pending = t.pending+grownAlong S (piecesFrom s segs) ∧
      grownAlong S (piecesFrom s segs)+depth S s ≤ depth S (T.advance s segs.flatten) := by
  induction segs generalizing s t with
  | nil => exact ⟨rfl,rfl,by simp [piecesFrom,grownAlong]⟩
  | cons seg rest ih =>
      rw [List.flatten_cons] at unwiped
      rw [wiped_append,Bool.or_eq_false_iff] at unwiped
      have first := reading_unwiped S (p := ⟨s,seg⟩) t unwiped.1
      have cleared : (t.read (Piece.reading ⟨s,seg⟩)).cleared = t.cleared := by rw [first]
      have pending : (t.read (Piece.reading ⟨s,seg⟩)).pending = t.pending+grownIn S ⟨s,seg⟩ := by rw [first]
      have longer : depth S s ≤ depth S (T.advance s seg) := depth_grows S unwiped.1
      have bound : grownIn S ⟨s,seg⟩+depth S s ≤ depth S (T.advance s seg) := by
        change (if Piece.touchesAlt _ then 0 else depth S (T.advance s seg)-depth S s)+depth S s ≤ _
        split <;> omega
      obtain ⟨kept,counted,depths⟩ := ih (T.advance s seg) (t.read (Piece.reading ⟨s,seg⟩)) unwiped.2
      simp only [piecesFrom,List.map_cons,List.foldl_cons,List.flatten_cons,T.advance_append,grownAlong,List.sum_cons]
        at counted depths ⊢
      exact ⟨kept.trans cleared,by omega,by omega⟩

section feed
variable {e : TerminalEngine T P} {bytes : List UInt8}

theorem feed_counted (settled : Settled e) (unwiped : wipedIn S e.term bytes = false) :
    (e.feed bytes).scrollbackClearedThisFeed = false ∧ (e.feed bytes).pendingScrolled = grownAlong S (pieces e bytes) ∧
      (e.feed bytes).pendingScrolled ≤ depth S (e.feed bytes).term := by
  have whole := segments_flatten (P := P) e.shell.parser bytes
  obtain ⟨cleared,pending,depths⟩ := pieces_counted S e.term (segments P e.shell.parser bytes) ⟨e.scrollTotal,0,false⟩
    (by rw [whole]; exact unwiped)
  have fed := feed_tally settled bytes
  rw [whole] at depths
  rw [feed_term settled]
  have counts : (e.feed bytes).pendingScrolled = grownAlong S (pieces e bytes) := by
    have same := congrArg Tally.pending fed
    rw [pieces,pending,Nat.zero_add] at same
    exact same
  refine ⟨(congrArg Tally.cleared fed).trans cleared,counts,?_⟩
  rw [counts,pieces]
  omega

-- The rows are read on the screen that the feed ends on, so it must be the primary one,
-- unless no segment that stays on the primary screen has made its scrollback longer.
def Shown (e : TerminalEngine T P) (bytes : List UInt8) : Prop :=
  T.alt (T.advance e.term bytes) = false ∨
    ∀ p ∈ pieces e bytes, T.alt p.start = false → T.alt p.finish = false → depth S p.finish ≤ depth S p.start

theorem grown_nothing (parts : List (Piece T)) : grownAlong S parts = 0 ↔
    ∀ p ∈ parts, T.alt p.start = false → T.alt p.finish = false → depth S p.finish ≤ depth S p.start := by
  induction parts with
  | nil => simp [grownAlong]
  | cons p rest ih =>
      unfold grownAlong at ih ⊢
      rw [List.map_cons,List.sum_cons,Nat.add_eq_zero_iff,ih,List.forall_mem_cons]
      refine and_congr_left fun _ => ?_
      unfold grownIn Piece.touchesAlt
      cases T.alt p.start <;> cases T.alt p.finish <;> simp [Nat.sub_eq_zero_iff_le]

theorem primary_real (primary : T.alt e.term = false) (uncleared : e.scrollbackClearedThisFeed = false)
    (kept : e.pendingScrolled ≤ depth S e.term) : RealRows S e := by
  have top := S.topmost e.term
  have bottom := S.bottommost e.term
  have size : T.historySize e.term = depth S e.term := history_primary S primary
  refine ⟨?_,kept,TerminalEngine.takeScrolledRows_kept S primary uncleared kept,fun line member => ?_⟩
  · rw [TerminalEngine.takeScrolledRows_length,uncleared]
    rfl
  · obtain ⟨k,within,rfl⟩ := List.mem_map.mp member
    have below := List.mem_range.mp within
    omega

theorem nothing_real (none : e.pendingScrolled = 0) : RealRows S e := by
  have rows : e.takeScrolledRows.2 = [] := by simp [TerminalEngine.takeScrolledRows,none]
  refine ⟨by rw [rows,none]; rfl,by omega,?_,by simp [requested,none]⟩
  rw [rows,none,Nat.sub_zero]
  exact (congrArg (List.map translateRow) List.drop_length).symm

-- On the alternate screen the first line asked for is already above the top.
theorem alt_real (alternate : T.alt e.term = true) (real : RealRows S e) : e.pendingScrolled = 0 := by
  have size : T.historySize e.term = 0 := by rw [S.history_size,← S.alt_screen,alternate]; rfl
  have top := S.topmost e.term
  refine Decidable.byContradiction fun some => ?_
  have first : ((0 : Nat) : Int)-e.pendingScrolled ∈ requested e :=
    List.mem_map_of_mem (List.mem_range.mpr (Nat.pos_of_ne_zero some))
  have above := (real.inside _ first).1
  omega

theorem feed_real (settled : Settled e) (unwiped : wipedIn S e.term bytes = false) :
    RealRows S (e.feed bytes) ↔ Shown S e bytes := by
  obtain ⟨uncleared,pending,kept⟩ := feed_counted S settled unwiped
  have term : (e.feed bytes).term = T.advance e.term bytes := feed_term settled bytes
  rw [Shown,← grown_nothing,← pending]
  cases alt : T.alt (T.advance e.term bytes) with
  | false => exact iff_of_true (primary_real S (by rw [term]; exact alt) uncleared kept) (.inl rfl)
  | true =>
      refine ⟨fun real => .inr (alt_real S (by rw [term]; exact alt) real),fun shown => ?_⟩
      exact nothing_real S (shown.resolve_left (by simp))
end feed

-- The statement about a step speaks of the feeds in which nothing is erased.
def RowsReal (e : TerminalEngine T P) : Operation → Prop
  | .feed bytes => wipedIn S e.term bytes = false → RealRows S (e.feed bytes)
  | _ => True

def RowsShown (e : TerminalEngine T P) : Operation → Prop
  | .feed bytes => wipedIn S e.term bytes = false → Shown S e bytes
  | _ => True

theorem operate_real (e : TerminalEngine T P) (op : Operation) (settled : Settled e) :
    RowsReal S e op ↔ RowsShown S e op := by
  cases op with
  | feed bytes => exact forall_congr' fun unwiped => feed_real S settled unwiped
  | resize size => exact Iff.rfl
  | drainPendingWrites => exact Iff.rfl
  | drainCommandEnds => exact Iff.rfl
  | takeScrolledRows => exact Iff.rfl

-- In every run the feeds hand out their real rows exactly when each of them shows its rows.
theorem scrolled_rows_real (size : TerminalSize) (ops : List Operation) :
    StepRuns.Along operate (RowsReal S) (.new size : TerminalEngine T P) ops ↔
      StepRuns.Along operate (RowsShown S) (.new size : TerminalEngine T P) ops := by
  have inside : StepRuns.Along operate (fun _ _ => True) (.new size : TerminalEngine T P) ops :=
    StepRuns.run_along (fun _ => True) ops trivial fun _ _ _ => ⟨trivial,trivial⟩
  exact StepRuns.along_iff Settled rfl inside (fun e op settled _ => operate_real S e op settled)
    fun e op settled _ _ => operate_settled e op settled

open LineTerminal

-- Two lines scroll out, a mark ends their segment, and the same feed enters the alternate
-- screen: the client gets two blank rows for them.
theorem switch_blanks_rows :
    let bytes := [97,10,98,10,99,10] ++ commandStart ++ enterAlt
    let e := engine 2 4
    wipedIn screens e.term bytes = false ∧ (screens.view e.term).scrollback.length < screens.cap ∧
      (e.feed bytes).takeScrolledRows.2 = [blankRow 4,blankRow 4] ∧
      ¬ RealRows screens (e.feed bytes) := by
  intro bytes e
  have rows : (e.feed bytes).takeScrolledRows.2 = [blankRow 4,blankRow 4] := by decide +kernel
  refine ⟨by decide +kernel,by decide +kernel,rows,fun real => ?_⟩
  have lost : ((screens.view (e.feed bytes).term).scrollback.drop
      (depth screens (e.feed bytes).term-(e.feed bytes).pendingScrolled)).map translateRow ≠ [blankRow 4,blankRow 4] := by
    decide +kernel
  exact lost (real.newest.symm.trans rows)

end Perga.ScrolledRows

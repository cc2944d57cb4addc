import Mathlib.Data.List.Forall2
import Perga.ScrolledRows
import Perga.CommandMarks

namespace Perga.SyncMarks
open FeedCuts Readings EngineRuns ScrollCounting ScrolledRows CommandMarks

-- vte's `Processor` in front of a terminal `D` that applies every byte at once. In a synchronised
-- update it holds bytes back; it lets them through in their order, and all readings are `D`'s.
structure Processor (T D : Terminal) where
  applied : T.State → D.State
  held : T.State → List UInt8
  new_applied : ∀ dims, applied (T.new dims) = D.new dims
  new_held : ∀ dims, held (T.new dims) = []
  step : ∀ s b, ∃ now, held s ++ [b] = now ++ held (T.step s b) ∧ applied (T.step s b) = D.advance (applied s) now
  mode : ∀ s, T.mode s = D.mode (applied s)
  history_size : ∀ s, T.historySize s = D.historySize (applied s)
  cursor : ∀ s, (T.renderableContent s).cursor = (D.renderableContent (applied s)).cursor

variable {T D : Terminal} {P : VteParser} (B : Processor T D) (S : Screens D)

theorem Processor.advance (s : T.State) (bytes : List UInt8) :
    ∃ now, B.held s ++ bytes = now ++ B.held (T.advance s bytes) ∧
      B.applied (T.advance s bytes) = D.advance (B.applied s) now := by
  induction bytes generalizing s with
  | nil => exact ⟨[],by simp,rfl⟩
  | cons b rest ih =>
      obtain ⟨first,kept,stepped⟩ := B.step s b
      obtain ⟨later,left,walked⟩ := ih (T.step s b)
      refine ⟨first ++ later,?_,?_⟩
      · change B.held s ++ b :: rest = _ ++ B.held (T.advance (T.step s b) rest)
        rw [← List.singleton_append,← List.append_assoc,kept,List.append_assoc,left,List.append_assoc]
      · change B.applied (T.advance (T.step s b) rest) = _
        rw [walked,stepped,D.advance_append]

theorem Processor.alt (s : T.State) : T.alt s = D.alt (B.applied s) := by
  unfold Terminal.alt
  rw [B.mode]

def viewportRow (s : D.State) : Nat := (max (D.renderableContent s).cursor.line 0).toNat

-- The row that the cursor is in after exactly these bytes, counted from the first line of the stream.
def directRow (dims : AlacrittyDims) (bytes : List UInt8) : Nat :=
  movedIn S (D.new dims) bytes+viewportRow (D.advance (D.new dims) bytes)

-- The same from what the processor has let through.
def appliedRow (dims : AlacrittyDims) (bytes : List UInt8) : Nat :=
  depth S (B.applied (T.advance (T.new dims) bytes))+viewportRow (B.applied (T.advance (T.new dims) bytes))

-- The stream stays on the primary screen, wipes nothing and keeps the scrollback below its cap.
structure Calm (dims : AlacrittyDims) (stream : List UInt8) : Prop where
  primary : ∀ s ∈ D.moments (D.new dims) stream, D.alt s = false
  unwiped : wipedIn S (D.new dims) stream = false
  below : BelowIn S (D.new dims) stream

theorem Processor.through (dims : AlacrittyDims) (done : List UInt8) :
    ∃ now, done = now ++ B.held (T.advance (T.new dims) done) ∧
      B.applied (T.advance (T.new dims) done) = D.advance (D.new dims) now := by
  obtain ⟨now,kept,walked⟩ := B.advance (T.new dims) done
  rw [B.new_held,List.nil_append] at kept
  rw [B.new_applied] at walked
  exact ⟨now,kept,walked⟩

section calm
variable {S} {dims : AlacrittyDims} {stream : List UInt8} (calm : Calm S dims stream)
include calm

theorem Calm.before {now : List UInt8} (within : now <+: stream) : Calm S dims now := by
  obtain ⟨later,rfl⟩ := within
  obtain ⟨primary,unwiped,below⟩ := calm
  rw [wiped_append,Bool.or_eq_false_iff] at unwiped
  refine ⟨fun s member => primary s ?_,unwiped.1,((below_append S _ _ _).mp below).1⟩
  rw [Terminal.moments,D.passed_append]
  exact List.mem_append_left (D.passed _ later) member

include B in
theorem Calm.stays {done : List UInt8} (within : done <+: stream) : T.alt (T.advance (T.new dims) done) = false := by
  obtain ⟨now,kept,walked⟩ := B.through dims done
  have passed := (calm.before within).before ⟨_,kept.symm⟩
  rw [B.alt,walked]
  exact passed.primary _ (D.advance_moment _ now)

-- What a segment lets through never makes the scrollback shorter.
theorem Calm.deepens {done segment : List UInt8} (within : done ++ segment <+: stream) :
    depth S (B.applied (T.advance (T.new dims) done)) ≤ depth S (B.applied (T.advance (T.new dims) (done ++ segment))) := by
  obtain ⟨first,kept,walked⟩ := B.through dims done
  obtain ⟨now,left,further⟩ := B.advance (T.advance (T.new dims) done) segment
  rw [← T.advance_append] at left further
  have whole : done ++ segment = (first ++ now) ++ B.held (T.advance (T.new dims) (done ++ segment)) := by
    rw [List.append_assoc,← left,← List.append_assoc,← kept]
  have unwiped := ((calm.before within).before ⟨_,whole.symm⟩).unwiped
  rw [wiped_append,Bool.or_eq_false_iff,← walked] at unwiped
  rw [further]
  exact depth_grows S unwiped.2

-- The row after the whole prefix is the applied one with what the held bytes still do to it.
theorem Calm.direct {done : List UInt8} (within : done <+: stream) :
    directRow S dims done = depth S (B.applied (T.advance (T.new dims) done))+
      (movedIn S (B.applied (T.advance (T.new dims) done)) (B.held (T.advance (T.new dims) done))+
        viewportRow (D.advance (B.applied (T.advance (T.new dims) done)) (B.held (T.advance (T.new dims) done)))) := by
  obtain ⟨now,kept,walked⟩ := B.through dims done
  have passed := (calm.before within).before ⟨_,kept.symm⟩
  obtain ⟨added,grown,count⟩ := kept_grows S passed.below passed.unwiped
  rw [S.new_view,List.nil_append] at grown
  have deep : depth S (D.advance (D.new dims) now) = movedIn S (D.new dims) now := by rw [depth,grown,count]
  have whole : directRow S dims done = directRow S dims (now ++ B.held (T.advance (T.new dims) done)) := by rw [← kept]
  rw [whole,directRow,moved_append,D.advance_append,walked,deep,Nat.add_assoc]

end calm

-- The held bytes leave the cursor in its row; rows 0 and 1 both make a mark of line 0.
def Still (s : T.State) : Prop :=
  let later := movedIn S (B.applied s) (B.held s)+viewportRow (D.advance (B.applied s) (B.held s))
  later = viewportRow (B.applied s) ∨
    depth S (B.applied s)+later ≤ 1 ∧ depth S (B.applied s)+viewportRow (B.applied s) ≤ 1

theorem still_unheld {s : T.State} (unheld : B.held s = []) : Still B S s := by
  left
  rw [unheld]
  exact Nat.zero_add _

-- An engine that has read `done`, with the applied scrollback as its total.
structure Stands (dims : AlacrittyDims) (e : TerminalEngine T P) (done : List UInt8) : Prop where
  term : e.term = T.advance (T.new dims) done
  total : e.scrollTotal = depth S (B.applied e.term)

-- The marks of a trace on the primary screen, each with the number of bytes before it.
def entriesFrom (n : Nat) : List (Happening T) → List (Nat × RawMark × Nat)
  | [] => []
  | .segment piece :: rest => entriesFrom (n+piece.bytes.length) rest
  | .mark mark seen abs :: rest => if T.alt seen then entriesFrom n rest else (n,mark,abs) :: entriesFrom n rest
  | _ :: rest => entriesFrom n rest

def width : Happening T → Nat
  | .segment piece => piece.bytes.length
  | _ => 0

theorem entries_append (n : Nat) (first second : List (Happening T)) :
    entriesFrom n (first ++ second) = entriesFrom n first ++ entriesFrom (n+(first.map width).sum) second := by
  induction first generalizing n with
  | nil => rfl
  | cons h rest ih =>
      cases h with
      | segment piece => simp only [List.cons_append,entriesFrom,ih,List.map_cons,List.sum_cons,width,Nat.add_assoc]
      | mark mark seen abs =>
          simp only [List.cons_append,entriesFrom,ih,List.map_cons,List.sum_cons,width,Nat.zero_add]
          split <;> simp
      | noticed => simp only [List.cons_append,entriesFrom,ih,List.map_cons,List.sum_cons,width,Nat.zero_add]
      | resized size => simp only [List.cons_append,entriesFrom,ih,List.map_cons,List.sum_cons,width,Nat.zero_add]
      | drained => simp only [List.cons_append,entriesFrom,ih,List.map_cons,List.sum_cons,width,Nat.zero_add]

theorem quiet_entries (n : Nat) (hs : List (Happening T)) (quiet : ∀ h ∈ hs, h.op.Quiet) : entriesFrom n hs = [] := by
  induction hs generalizing n with
  | nil => rfl
  | cons h rest ih =>
      have others : ∀ h ∈ rest, h.op.Quiet := fun h member => quiet h (List.mem_cons_of_mem _ member)
      have first := quiet h List.mem_cons_self
      cases h with
      | segment piece => exact ih _ others
      | mark mark seen abs =>
          have alt : T.alt seen = true := by
            cases alt : T.alt seen with
            | true => rfl
            | false => cases mark <;> simp [Happening.op,alt,RawMark.op,PairMatching.Op.Quiet] at first
          rw [entriesFrom,alt]
          exact ih n others
      | noticed => exact ih n others
      | resized size => exact ih n others
      | drained => exact ih n others

-- A found mark of the stream, with the row that the engine samples for it.
def rowed (dims : AlacrittyDims) (stream : List UInt8) (found : Nat × RawScan) : Option (Nat × RawMark × Nat) :=
  found.2.mark?.map fun mark => (found.1,mark,appliedRow B S dims (stream.take found.1))

section stands
variable {B S} {dims : AlacrittyDims} {stream : List UInt8} (calm : Calm S dims stream)
  {e : TerminalEngine T P} {done : List UInt8} (stands : Stands B S dims e done)
include calm stands

theorem cross_stands {segment : List UInt8} (within : done ++ segment <+: stream) :
    Stands B S dims (crossSegment e segment) (done ++ segment) := by
  obtain ⟨term,total⟩ := stands
  have finish : T.advance e.term segment = T.advance (T.new dims) (done ++ segment) := by rw [term,← T.advance_append]
  have start : T.alt e.term = false := by
    rw [term]
    exact calm.stays B ((List.prefix_append done segment).trans within)
  have stop : T.alt (T.advance e.term segment) = false := by
    rw [finish]
    exact calm.stays B within
  have size (s : T.State) (primary : T.alt s = false) : T.historySize s = depth S (B.applied s) := by
    rw [B.history_size,history_primary S (by rw [← B.alt]; exact primary)]
    rfl
  have grows : depth S (B.applied e.term) ≤ depth S (B.applied (T.advance e.term segment)) := by
    rw [finish,term]
    exact calm.deepens B within
  have reading : Piece.reading (T := T) ⟨e.term,segment⟩ =
      .grew (depth S (B.applied (T.advance e.term segment))-depth S (B.applied e.term)) := by
    rw [Piece.reading,Piece.finish,start,stop,size _ start,size _ stop,if_neg (by simp),if_pos grows]
  have counted := congrArg Tally.total (cross_spec e segment).2.2.1
  rw [reading] at counted
  refine ⟨(crossSegment_term e segment).trans finish,?_⟩
  rw [crossSegment_term]
  change _ = e.scrollTotal+_ at counted
  change (crossSegment e segment).scrollTotal = _ at counted
  omega

omit calm in
theorem receive_stands (scan : RawScan) : Stands B S dims (receiveScan e scan) done := by
  have total := congrArg Tally.total (receive_tally e scan)
  refine ⟨by rw [receiveScan_term]; exact stands.term,?_⟩
  rw [receiveScan_term]
  exact total.trans stands.total

omit calm in
theorem stands_row : e.scrollTotal+e.cursorLine = appliedRow B S dims done := by
  rw [stands.total,stands.term,TerminalEngine.cursorLine,stands.term,B.cursor]
  rfl

-- An operation that reads nothing leaves the engine where it stands.
omit calm in
theorem carried_stands {next : TerminalEngine T P} (term : next.term = e.term) (total : next.scrollTotal = e.scrollTotal) :
    Stands B S dims next (done ++ []) := by
  rw [List.append_nil]
  exact ⟨term.trans stands.term,by rw [total,term]; exact stands.total⟩

theorem cut_entries {segment : List UInt8} (within : done ++ segment <+: stream) (scan : RawScan) (others : List Cut)
    (last : List UInt8) :
    entriesFrom done.length (cutHappenings e (⟨segment,scan⟩ :: others) last) =
      (rowed B S dims stream ((done ++ segment).length,scan)).toList ++
        entriesFrom (done ++ segment).length (cutHappenings (atCut e ⟨segment,scan⟩) others last) := by
  have crossed := cross_stands calm stands within
  have read : stream.take (done ++ segment).length = done ++ segment := (List.prefix_iff_eq_take.mp within).symm
  rw [cutHappenings,entriesFrom,← List.length_append,rowed,read]
  cases scan with
  | altScreenEnter => rfl
  | mark mark =>
      have primary : T.alt (crossSegment e segment).term = false := by
        rw [crossed.term]
        exact calm.stays B within
      rw [scanned,entriesFrom,primary,stands_row crossed]
      rfl

theorem same_entries (more : List RawScan) (within : done <+: stream) (others : List Cut) (last : List UInt8) :
    ∃ next : TerminalEngine T P, Stands B S dims next done ∧
      entriesFrom done.length (cutHappenings e (more.map (⟨[],·⟩) ++ others) last) =
        (more.map (done.length,·)).filterMap (rowed B S dims stream) ++
          entriesFrom done.length (cutHappenings next others last) := by
  induction more generalizing e with
  | nil => exact ⟨e,stands,rfl⟩
  | cons scan more ih =>
      have nothing : done ++ [] <+: stream := by rw [List.append_nil]; exact within
      have crossed := receive_stands (cross_stands calm stands nothing) scan
      have first := cut_entries calm stands nothing scan (more.map (⟨[],·⟩) ++ others) last
      rw [List.append_nil] at crossed first
      obtain ⟨next,reached,later⟩ := ih crossed
      refine ⟨next,reached,?_⟩
      rw [List.map_cons,List.cons_append,first]
      change _ ++ entriesFrom done.length (cutHappenings (receiveScan (crossSegment e []) scan) _ last) = _
      rw [later,List.map_cons,List.filterMap_cons]
      cases rowed B S dims stream (done.length,scan) <;> rfl

theorem cuts_stand (found : List Cut) (within : done ++ (found.map Cut.segment).flatten <+: stream) :
    Stands B S dims (found.foldl atCut e) (done ++ (found.map Cut.segment).flatten) := by
  induction found generalizing e done with
  | nil =>
      rw [List.map_nil,List.flatten_nil,List.append_nil]
      exact stands
  | cons cut rest ih =>
      rw [List.map_cons,List.flatten_cons,← List.append_assoc] at within ⊢
      have first := cross_stands calm stands ((List.prefix_append _ _).trans within)
      exact ih (receive_stands first cut.scan) within

theorem feed_stands (settled : Settled e) {bytes : List UInt8} (within : done ++ bytes <+: stream) :
    Stands B S dims (e.feed bytes) (done ++ bytes) := by
  have fresh : Stands B S dims (opened e bytes) done := ⟨stands.term,stands.total⟩
  have whole := cuts_flatten e.shell.parser [] bytes
  rw [List.nil_append] at whole
  rw [← whole,← List.append_assoc] at within
  have cut := cuts_stand calm fresh _ ((List.prefix_append _ _).trans within)
  have last := cross_stands calm cut within
  rw [List.append_assoc,whole] at last
  rw [feed_cuts e settled]
  exact last

-- Cutting byte by byte, the marks of a feed are those the scan of the stream locates.
theorem cuts_entries (p : P.State) (held bytes : List UInt8) (within : done ++ (held ++ bytes) <+: stream) :
    entriesFrom done.length (cutHappenings e (cuts P p held bytes).1 (cuts P p held bytes).2) =
      (located P p (done.length+held.length) bytes).filterMap (rowed B S dims stream) := by
  induction bytes generalizing e p done held with
  | nil => rfl
  | cons b rest ih =>
      have position : done.length+held.length+1 = (done ++ (held ++ [b])).length := by
        simp only [List.length_append,List.length_singleton,Nat.add_assoc]
      have further : done ++ (held ++ [b]) ++ rest <+: stream := by
        rw [List.append_assoc,List.append_assoc]
        exact within
      cases scans : P.scans p b with
      | nil =>
          have later := ih stands (P.next p b) (held ++ [b]) (by rw [← List.append_assoc]; exact further)
          simp only [cuts,located,scans,List.map_nil,List.nil_append]
          rw [later,List.length_append,List.length_singleton,Nat.add_assoc]
      | cons first more =>
          have here : done ++ (held ++ [b]) <+: stream := (List.prefix_append _ rest).trans further
          have crossed := receive_stands (cross_stands calm stands here) first
          obtain ⟨next,reached,same⟩ := same_entries calm crossed more here (cuts P (P.next p b) [] rest).1
            (cuts P (P.next p b) [] rest).2
          have later := ih reached (P.next p b) [] further
          simp only [cuts,located,scans,List.cons_append]
          rw [cut_entries calm stands here]
          change _ ++ entriesFrom _ (cutHappenings (receiveScan (crossSegment e (held ++ [b])) first) _ _) = _
          rw [same,later,List.map_cons,position,List.length_nil,Nat.add_zero,List.cons_append,List.filterMap_cons,
            List.filterMap_append]
          cases rowed B S dims stream ((done ++ (held ++ [b])).length,first) <;> rfl

end stands

theorem located_append (p : P.State) (i : Nat) (first second : List UInt8) :
    located P p i (first ++ second) = located P p i first ++ located P (parsed P p first) (i+first.length) second := by
  induction first generalizing p i with
  | nil => rfl
  | cons b rest ih =>
      rw [List.cons_append,located,ih,located,List.append_assoc,List.length_cons,Nat.add_right_comm,Nat.add_assoc]
      rfl

theorem cuts_width (e : TerminalEngine T P) (found : List Cut) (last : List UInt8) :
    ((cutHappenings e found last).map width).sum = ((found.map Cut.segment).flatten ++ last).length := by
  induction found generalizing e with
  | nil => simp [cutHappenings,width]
  | cons cut rest ih =>
      have nothing : width (scanned (crossSegment e cut.segment) cut.scan) = 0 := by cases cut.scan <;> rfl
      have first : width (.segment (⟨e.term,cut.segment⟩ : Piece T)) = cut.segment.length := rfl
      simp only [cutHappenings,List.map_cons,List.sum_cons,ih,first,nothing,List.flatten_cons,List.length_append]
      omega

def read : Operation → List UInt8
  | .feed bytes => bytes
  | _ => []

def streamOf (ops : List Operation) : List UInt8 := ops.flatMap read

def Unresized (ops : List Operation) : Prop := ∀ size, .resize size ∉ ops

-- All marks of a byte stream, whatever the chunks, each at the byte that ends it.
def streamMarks (P : VteParser) (stream : List UInt8) : List (Nat × RawMark) :=
  (located P P.new 0 stream).filterMap fun found => found.2.mark?.map (found.1,·)

theorem happenings_width (e : TerminalEngine T P) (op : Operation) :
    ((happenings e op).map width).sum = (read op).length := by
  cases op with
  | feed bytes =>
      rw [happenings,cuts_width,cuts_flatten]
      rfl
  | resize size => rfl
  | drainPendingWrites => rfl
  | drainCommandEnds => rfl
  | takeScrolledRows => rfl

theorem trace_entries {S : Screens D} {dims : AlacrittyDims} {stream : List UInt8} (calm : Calm S dims stream)
    {e : TerminalEngine T P} {done : List UInt8} (stands : Stands B S dims e done) (settled : Settled e)
    (ops : List Operation) (unresized : Unresized ops) (within : done ++ streamOf ops <+: stream) :
    entriesFrom done.length (trace e ops) =
      (located P e.shell.parser done.length (streamOf ops)).filterMap (rowed B S dims stream) := by
  induction ops generalizing e done with
  | nil => rfl
  | cons op rest ih =>
      have others : Unresized rest := fun size member => unresized size (List.mem_cons_of_mem _ member)
      have whole : done ++ read op ++ streamOf rest <+: stream := by rw [List.append_assoc]; exact within
      have here : done ++ read op <+: stream := (List.prefix_append _ _).trans whole
      have step : Stands B S dims (operate e op) (done ++ read op) ∧
          (operate e op).shell.parser = parsed P e.shell.parser (read op) ∧
          entriesFrom done.length (happenings e op) =
            (located P e.shell.parser done.length (read op)).filterMap (rowed B S dims stream) := by
        cases op with
        | feed bytes =>
            have fresh : Stands B S dims (opened e bytes) done := ⟨stands.term,stands.total⟩
            exact ⟨feed_stands calm stands settled here,feed_parsed settled bytes,
              cuts_entries calm fresh e.shell.parser [] bytes here⟩
        | resize size => exact absurd List.mem_cons_self (unresized size)
        | drainPendingWrites => exact ⟨carried_stands stands rfl rfl,rfl,rfl⟩
        | drainCommandEnds => exact ⟨carried_stands stands rfl rfl,rfl,rfl⟩
        | takeScrolledRows =>
            rw [operate,takeScrolledRows_engine]
            exact ⟨carried_stands stands rfl rfl,rfl,rfl⟩
      obtain ⟨next,parser,first⟩ := step
      have later := ih next (operate_settled e op settled) others whole
      rw [parser,List.length_append] at later
      rw [trace,entries_append,first,happenings_width,later,← List.filterMap_append,← located_append]
      rfl

theorem run_entries {S : Screens D} (size : TerminalSize) (ops : List Operation) (unresized : Unresized ops)
    (calm : Calm S (.ofSize size) (streamOf ops)) :
    entriesFrom 0 (trace (.new size : TerminalEngine T P) ops) =
      (streamMarks P (streamOf ops)).map fun found =>
        (found.1,found.2,appliedRow B S (.ofSize size) ((streamOf ops).take found.1)) := by
  have start : Stands B S (.ofSize size) (.new size : TerminalEngine T P) [] := by
    refine ⟨rfl,?_⟩
    change 0 = (S.view (B.applied (T.new (.ofSize size)))).scrollback.length
    rw [B.new_applied,S.new_view]
    rfl
  rw [streamMarks,List.map_filterMap]
  refine (trace_entries B calm start rfl ops unresized (List.prefix_refl _)).trans ?_
  refine List.filterMap_congr fun found _ => ?_
  rw [rowed,Option.map_map]
  rfl

-- A pair of the trace is two neighbouring entries, the first of them with the paired line.
def entryIndex (hs : List (Happening T)) (k : Nat) : Nat := (entriesFrom 0 (hs.take k)).length

theorem entries_at {hs : List (Happening T)} {k row : Nat} {seen : T.State} (found : hs[k]? = some (.mark mark seen row))
    (primary : T.alt seen = false) (n : Nat) : ∃ offset, entriesFrom n hs =
      entriesFrom n (hs.take k) ++ (offset,mark,row) :: entriesFrom offset (hs.drop (k+1)) := by
  refine ⟨n+((hs.take k).map width).sum,?_⟩
  have whole := congrArg (entriesFrom n) (split_at found)
  rw [entries_append,entriesFrom,primary] at whole
  exact whole

theorem entryIndex_later {hs : List (Happening T)} {i k row : Nat} {seen : T.State}
    (found : hs[i]? = some (.mark mark seen row)) (primary : T.alt seen = false) (later : i < k) :
    entryIndex hs i < entryIndex hs k := by
  have inside : (hs.take k)[i]? = some (.mark mark seen row) := by rw [List.getElem?_take_of_lt later,found]
  obtain ⟨offset,split⟩ := entries_at inside primary 0
  have shorter : (hs.take k).take i = hs.take i := by rw [List.take_take,Nat.min_eq_left (by omega)]
  rw [entryIndex,entryIndex,split,shorter,List.length_append,List.length_cons]
  omega

theorem matched_entries {hs : List (Happening T)} {i j a : Nat} {exit : Option Int}
    (matched : PairMatching.Matched (hs.map Happening.op) i a j exit) :
    ∃ start finish abs, (entriesFrom 0 hs)[entryIndex hs i]? = some (start,.commandStart,a) ∧
      (entriesFrom 0 hs)[entryIndex hs i+1]? = some (finish,.commandEnd exit,abs) := by
  obtain ⟨ordered,opens,closes,quiet⟩ := matched
  obtain ⟨start,startAt,startOp⟩ := ops_at opens
  obtain ⟨finish,finishAt,finishOp⟩ := ops_at closes
  obtain ⟨seen,rfl,seenPrimary⟩ := op_opens startOp
  obtain ⟨ended,abs,rfl,endedPrimary⟩ := op_closes finishOp
  obtain ⟨offset,split⟩ := entries_at startAt seenPrimary 0
  have finishIn : (hs.drop (i+1))[j-(i+1)]? = some (.mark (.commandEnd exit) ended abs) := by
    rw [List.getElem?_drop,Nat.add_sub_cancel' ordered]
    exact finishAt
  obtain ⟨last,rest⟩ := entries_at finishIn endedPrimary offset
  have silent : entriesFrom offset ((hs.drop (i+1)).take (j-(i+1))) = [] := by
    refine quiet_entries offset _ fun h inside => ?_
    obtain ⟨k,after,before,found⟩ := between_mem inside
    exact quiet k h.op after before (at_ops found)
  rw [silent,List.nil_append] at rest
  rw [rest] at split
  refine ⟨offset,last,abs,?_,?_⟩
  · rw [split,List.getElem?_append_right (by exact Nat.le_refl _),entryIndex,Nat.sub_self]
    rfl
  · rw [split,List.getElem?_append_right (by rw [entryIndex]; omega),entryIndex,Nat.add_sub_cancel_left]
    rfl

theorem matched_indices {hs : List (Happening T)} {p q : (Nat × Nat) × (Nat × Option Int)}
    (first : PairMatching.Matched (hs.map Happening.op) p.1.1 p.1.2 p.2.1 p.2.2)
    (second : PairMatching.Matched (hs.map Happening.op) q.1.1 q.1.2 q.2.1 q.2.2) (later : p.2.1 < q.2.1) :
    entryIndex hs p.1.1 < entryIndex hs q.1.1 := by
  obtain ⟨ordered,opens,closes,_⟩ := first
  have apart : p.2.1 ≤ q.1.1 := by
    refine Nat.le_of_not_lt fun inside => ?_
    exact second.2.2.2 p.2.1 _ inside later closes
  obtain ⟨start,startAt,startOp⟩ := ops_at opens
  obtain ⟨seen,rfl,primary⟩ := op_opens startOp
  exact entryIndex_later startAt primary (by omega)

-- In a calm run without resizes the reports are those of an increasing list of commands of the
-- stream, a C mark with the D mark next to it; each has its exit, and its line is that of the
-- cursor's row after the C mark exactly when the bytes held back there leave the row still.
theorem reports_named (S : Screens D) (size : TerminalSize) (ops : List Operation) (unresized : Unresized ops)
    (calm : Calm S (.ofSize size) (streamOf ops)) :
    ∃ found : List Nat, found.Pairwise (· < ·) ∧
      List.Forall₂ (fun (report : CommandMark) i => ∃ start finish,
        (streamMarks P (streamOf ops))[i]? = some (start,.commandStart) ∧
        (streamMarks P (streamOf ops))[i+1]? = some (finish,.commandEnd report.exit) ∧
        (report.line = directRow S (.ofSize size) ((streamOf ops).take start)-1 ↔
          Still B S (T.advance (T.new (.ofSize size)) ((streamOf ops).take start))))
        (reports (.new size : TerminalEngine T P) ops) found := by
  let hs := trace (.new size : TerminalEngine T P) ops
  have entries := run_entries (P := P) B size ops unresized calm
  have matched : ∀ p ∈ PairMatching.pairs (hs.map Happening.op),
      PairMatching.Matched (hs.map Happening.op) p.1.1 p.1.2 p.2.1 p.2.2 := fun p member =>
    ((PairMatching.mem_pairs _ p.1.1 p.1.2 p.2.1 p.2.2).mp member).1
  refine ⟨(PairMatching.pairs (hs.map Happening.op)).map fun p => entryIndex hs p.1.1,?_,?_⟩
  · refine List.pairwise_map.mpr (List.Pairwise.imp_of_mem ?_ (PairMatching.pairs_ordered (hs.map Happening.op)))
    exact fun first second later => matched_indices (matched _ first) (matched _ second) later
  · rw [reports_pairs,List.forall₂_map_left_iff,List.forall₂_map_right_iff,List.forall₂_same]
    rintro ⟨⟨i,a⟩,j,exit⟩ member
    obtain ⟨start,finish,abs,startAt,finishAt⟩ := matched_entries (matched _ member)
    rw [entries,List.getElem?_map,Option.map_eq_some_iff] at startAt finishAt
    obtain ⟨⟨opened,mark⟩,markAt,same⟩ := startAt
    obtain ⟨⟨ended,close⟩,closeAt,closes⟩ := finishAt
    cases same
    cases closes
    have inside : (streamOf ops).take opened <+: streamOf ops := List.take_prefix opened _
    refine ⟨opened,ended,markAt,closeAt,?_⟩
    change appliedRow B S (.ofSize size) ((streamOf ops).take opened)-1 = _ ↔ _
    rw [calm.direct B inside,appliedRow,Still]
    omega

open LineTerminal

-- vte's processor over any terminal: `CSI ? 2026 h` starts to hold bytes, and `CSI ? 2026 l` or a
-- full buffer lets them through.
structure Buffered (D : Terminal) where
  applied : D.State
  watch : Lexer
  held : Option (List UInt8)

def syncBufferSize : Nat := 2097152

def switches (action : Char) (tokens : List Token) : Bool := tokens.any fun
  | .csi params intermediates found => intermediates == [63] && found == action && params.contains 2026
  | _ => false

-- What a byte lets through and what is held after it.
def Buffered.taken (s : Buffered D) (b : UInt8) : List UInt8 × Option (List UInt8) :=
  let tokens := (lex s.watch b).2
  match s.held with
  | none => ([b],if switches 'h' tokens then some [] else none)
  | some held =>
    if switches 'l' tokens || decide (syncBufferSize ≤ held.length+1) then (held ++ [b],none) else ([],some (held ++ [b]))

def Buffered.step (s : Buffered D) (b : UInt8) : Buffered D :=
  ⟨D.advance s.applied (s.taken b).1,(lex s.watch b).1,(s.taken b).2⟩

def emittedAlong (D : Terminal) (s : D.State) : List UInt8 → List TermEvent
  | [] => []
  | b :: rest => D.emitted s b ++ emittedAlong D (D.step s b) rest

def processor (D : Terminal) : Terminal where
  State := Buffered D
  new dims := ⟨D.new dims,.ground,none⟩
  step := Buffered.step
  emitted s b := emittedAlong D s.applied (s.taken b).1
  resize s dims := {s with applied := D.resize s.applied dims}
  mode s := D.mode s.applied
  historySize s := D.historySize s.applied
  topmostLine s := D.topmostLine s.applied
  bottommostLine s := D.bottommostLine s.applied
  gridLine s := D.gridLine s.applied
  renderableContent s := D.renderableContent s.applied

theorem taken_kept (s : Buffered D) (b : UInt8) :
    s.held.getD [] ++ [b] = (s.taken b).1 ++ (s.taken b).2.getD [] := by
  unfold Buffered.taken
  dsimp only
  cases s.held with
  | none => dsimp only; split <;> rfl
  | some held => dsimp only; split <;> simp

def buffering (D : Terminal) : Processor (processor D) D where
  applied := Buffered.applied
  held s := s.held.getD []
  new_applied _ := rfl
  new_held _ := rfl
  step s b := ⟨(s.taken b).1,taken_kept s b,rfl⟩
  mode _ := rfl
  history_size _ := rfl
  cursor _ := rfl

def holdUpdate : List UInt8 := [27,91,63,50,48,50,54,104]
def showUpdate : List UInt8 := [27,91,63,50,48,50,54,108]

def redraw : List Operation :=
  [.feed (lines 3 ++ commandStart ++ holdUpdate ++ [97]),.feed (lines 2 ++ showUpdate ++ commandEnd),.drainCommandEnds]

theorem reports_named_redraw :
    ∃ found : List Nat, found.Pairwise (· < ·) ∧
      List.Forall₂ (fun (report : CommandMark) i => ∃ start finish,
        (streamMarks sideParser (streamOf redraw))[i]? = some (start,.commandStart) ∧
        (streamMarks sideParser (streamOf redraw))[i+1]? = some (finish,.commandEnd report.exit) ∧
        (report.line = directRow screens (.ofSize ⟨2,4⟩) ((streamOf redraw).take start)-1 ↔
          Still (buffering terminal) screens
            ((processor terminal).advance ((processor terminal).new (.ofSize ⟨2,4⟩)) ((streamOf redraw).take start))))
        (reports (.new ⟨2,4⟩ : TerminalEngine (processor terminal) sideParser) redraw) found :=
  reports_named (buffering terminal) screens ⟨2,4⟩ redraw (by simp [Unresized,redraw])
    ⟨by decide +kernel,by decide +kernel,by decide +kernel⟩

-- Three line feeds and a whole command inside one synchronised update: nothing of it is applied
-- when the C mark is sampled.
def drawnAtOnce : List Operation :=
  [.feed (holdUpdate ++ lines 3 ++ commandStart ++ commandEnd ++ showUpdate),.drainCommandEnds]

theorem held_back_row :
    Calm screens (.ofSize ⟨2,4⟩) (streamOf drawnAtOnce) ∧
      streamMarks sideParser (streamOf drawnAtOnce) = [(19,.commandStart),(29,.commandEnd (some 1))] ∧
      directRow screens (.ofSize ⟨2,4⟩) ((streamOf drawnAtOnce).take 19)-1 = 2 ∧
      reports (.new ⟨2,4⟩ : TerminalEngine (processor terminal) sideParser) drawnAtOnce = [⟨0,some 1⟩] :=
  ⟨⟨by decide +kernel,by decide +kernel,by decide +kernel⟩,by decide +kernel,by decide +kernel,by decide +kernel⟩

end Perga.SyncMarks

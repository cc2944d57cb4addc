import Perga.CommandMarks
import Perga.EventStream

namespace Perga.CommandEnds
open FeedCuts Readings EngineRuns ScrollCounting CommandMarks Session EventStream
variable {T : Terminal} {P : VteParser} (S : Screens T)

def starts (a : Nat) : Happening T → Bool
  | .mark .commandStart seen abs => !T.alt seen && abs == a
  | _ => false

def finishes (exit : Option Int) : Happening T → Bool
  | .mark (.commandEnd given) seen _ => !T.alt seen && given == exit
  | _ => false

-- No resize, no other mark, no wiped scrollback and no moment on the alternate screen.
def undisturbed : Happening T → Bool
  | .segment piece => !onAlt (.segment piece) && !wipedIn S piece.start piece.bytes
  | .mark _ _ _ => false
  | .resized _ => false
  | _ => true

-- A command that ran through: a C mark at `i`, its D mark at `j`, and what lies between.
structure Completed (hs : List (Happening T)) (i : Nat) (a : Nat) (j : Nat) (exit : Option Int) : Prop where
  ordered : i < j
  start : ∃ h ∈ hs[i]?, starts a h = true
  finish : ∃ h ∈ hs[j]?, finishes exit h = true
  between : ∀ h ∈ (hs.drop (i+1)).take (j-(i+1)), undisturbed S h = true

theorem starts_op {h : Happening T} (start : starts a h = true) : h.op = .opens a := by
  cases h with
  | mark mark seen abs =>
      cases mark with
      | commandStart =>
          simp only [starts,Bool.and_eq_true,Bool.not_eq_true',beq_iff_eq] at start
          obtain ⟨primary,rfl⟩ := start
          simp only [Happening.op,primary]
          rfl
      | _ => cases start
  | _ => cases start

theorem finishes_op {h : Happening T} (finish : finishes exit h = true) : h.op = .closes exit := by
  cases h with
  | mark mark seen abs =>
      cases mark with
      | commandEnd given =>
          simp only [finishes,Bool.and_eq_true,Bool.not_eq_true',beq_iff_eq] at finish
          obtain ⟨primary,rfl⟩ := finish
          simp only [Happening.op,primary]
          rfl
      | _ => cases finish
  | _ => cases finish

theorem undisturbed_resets {piece : Piece T} (primary : onAlt (.segment piece) = false)
    (unwiped : wipedIn S piece.start piece.bytes = false) : piece.resets = false := by
  have moments : ∀ t ∈ T.moments piece.start piece.bytes, T.alt t = false := by
    intro t member
    simpa using List.any_eq_false.mp primary t member
  have start := moments piece.start List.mem_cons_self
  have finish : T.alt piece.finish = false := moments _ (T.advance_moment piece.start piece.bytes)
  have longer := ScreenHistory.play_not_shorter (S.bounded piece.start) unwiped
  rw [← S.advance_view] at longer
  have reading := reading_primary S (p := piece) (by rw [Piece.touchesAlt,start,finish]; rfl)
  rw [Piece.finish,if_pos longer] at reading
  rw [Piece.resets,reading,start,finish]
  rfl

theorem undisturbed_quiet {h : Happening T} (calm : undisturbed S h = true) : h.op.Quiet := by
  cases h with
  | segment piece =>
      simp only [undisturbed,Bool.and_eq_true,Bool.not_eq_true'] at calm
      rw [Happening.op,undisturbed_resets S calm.1 calm.2]
      trivial
  | mark mark seen abs => cases calm
  | resized size => cases calm
  | noticed => trivial
  | drained => trivial

theorem completed_matched {hs : List (Happening T)} (completed : Completed S hs i a j exit) :
    PairMatching.Matched (hs.map Happening.op) i a j exit := by
  obtain ⟨ordered,⟨start,startAt,starting⟩,⟨finish,finishAt,finishing⟩,between⟩ := completed
  refine ⟨ordered,?_,?_,?_⟩
  · rw [at_ops startAt,starts_op starting]
  · rw [at_ops finishAt,finishes_op finishing]
  · intro k op after before found
    obtain ⟨h,here,rfl⟩ := ops_at found
    exact undisturbed_quiet S (between h (List.mem_of_getElem? (between_at after before here)))

theorem op_collect {h : Happening T} (collects : h.op = .collect) : h = .drained := by
  cases h with
  | segment piece => unfold Happening.op at collects; dsimp only at collects; split at collects <;> cases collects
  | mark mark seen abs =>
      unfold Happening.op at collects
      dsimp only at collects
      split at collects
      · cases collects
      · cases mark <;> cases collects
  | noticed => cases collects
  | resized size => cases collects
  | drained => rfl

def resetting : Happening T → Bool
  | .segment piece => piece.resets
  | _ => false

theorem resetting_op {h : Happening T} (resets : resetting h = true) : h.op = .discard := by
  cases h with
  | segment piece =>
      rw [Happening.op]
      exact if_pos resets
  | _ => cases resets

theorem op_discard {h : Happening T} (discards : h.op = .discard) :
    resetting h = true ∨ ∃ size, h = .resized size := by
  cases h with
  | segment piece =>
      unfold Happening.op at discards
      dsimp only at discards
      split at discards
      · rename_i resets
        exact .inl resets
      · cases discards
  | mark mark seen abs =>
      unfold Happening.op at discards
      dsimp only at discards
      split at discards
      · cases discards
      · cases mark <;> cases discards
  | noticed => cases discards
  | resized size => exact .inr ⟨size,rfl⟩
  | drained => cases discards

-- What happens inside one chunk is neither a drain nor a resize.
theorem chunk_inner (e : TerminalEngine T P) (found : List Cut) (last : List UInt8) :
    ∀ h ∈ cutHappenings e found last, h ≠ .drained ∧ ∀ size, h ≠ .resized size := by
  induction found generalizing e with
  | nil =>
      intro h member
      rw [List.mem_singleton.mp member]
      exact ⟨by simp,by simp⟩
  | cons cut rest ih =>
      intro h member
      rcases List.mem_cons.mp member with rfl | later
      · exact ⟨by simp,by simp⟩
      · rcases List.mem_cons.mp later with rfl | inside
        · cases cut.scan <;> simp [scanned]
        · exact ih _ h inside

def handled (P : VteParser) (size : TerminalSize) (messages : List Received) : List (Happening T) :=
  trace (.new size : TerminalEngine T P) (calls messages)

-- Everything that happens in a run whose last message is this chunk.
def upTo (P : VteParser) (size : TerminalSize) (before : List Received) (bytes : List UInt8) : List (Happening T) :=
  handled P size (before ++ [.event (.output bytes)])

-- Behind `j`, no segment up to the end of the chunk resets the mark machine.
def Unreset (hs : List (Happening T)) (j : Nat) : Prop := ∀ h ∈ hs.drop (j+1), resetting h = false

-- Exactly one command end stands for the D mark at `j` in the whole run, and it goes
-- out with the chunk of that mark, ahead of its patch.
structure EndedOnce (T : Terminal) (P : VteParser) (size : TerminalSize) (before : List Received) (bytes : List UInt8)
    (after : List Received) (i a j : Nat) (exit : Option Int) : Prop where
  once : (PairMatching.pairs ((handled (T := T) P size (before ++ .event (.output bytes) :: after)).map Happening.op)).filter
    (fun pair => pair.2.1 == j) = [((i,a),(j,exit))]
  placed : ∃ fresh patch, ((i,a),(j,exit)) ∈ fresh ∧
    PairMatching.pairs ((upTo (T := T) P size before bytes).map Happening.op) =
      PairMatching.pairs ((handled (T := T) P size before).map Happening.op) ++ fresh ∧
    ((spawnWithTransport size : Session T P).runEngineLoop (before ++ [.event (.output bytes)])).1.events.sent =
      ((spawnWithTransport size : Session T P).runEngineLoop before).1.events.sent ++
        (endEvents ((spawnWithTransport size : Session T P).runEngineLoop before).1.encoder.seq (fresh.map reportOf) ++
          [.patch patch])

section chunk
variable (size : TerminalSize) {before : List Received} (going : ∀ m ∈ before, goesOn m = true) (bytes : List UInt8)
include going

theorem calls_append (rest : List Received) : calls (before ++ rest) = calls before ++ calls rest := by
  rw [calls,List.takeWhile_append_of_pos going,List.flatMap_append]
  congr 1
  rw [calls,List.takeWhile_eq_self_iff.mpr going]

theorem upTo_split : upTo (T := T) P size before bytes =
    (handled P size before ++
      happenings ((calls before).foldl operate (.new size : TerminalEngine T P)) (.feed bytes)) ++ [Happening.drained] := by
  rw [upTo,handled,calls_append going,trace_append,List.append_assoc]
  rfl

theorem handled_split (after : List Received) :
    ∃ more, handled (T := T) P size (before ++ .event (.output bytes) :: after) = upTo P size before bytes ++ more := by
  have split : before ++ .event (.output bytes) :: after = (before ++ [.event (.output bytes)]) ++ after := by simp
  have goes : ∀ m ∈ before ++ [.event (.output bytes)], goesOn m = true := by
    intro m member
    rcases List.mem_append.mp member with old | last
    · exact going m old
    · rw [List.mem_singleton.mp last]
      rfl
  rw [split,handled,calls_append goes,trace_append]
  exact ⟨_,rfl⟩

-- The message of the chunk reports the pairs that are new with it.
theorem chunk_reports : ∃ fresh,
    PairMatching.pairs ((upTo (T := T) P size before bytes).map Happening.op) =
      PairMatching.pairs ((handled (T := T) P size before).map Happening.op) ++ fresh ∧
    (((calls before).foldl operate (.new size : TerminalEngine T P)).feed bytes).drainCommandEnds.2 = fresh.map reportOf := by
  have split := upTo_split (T := T) (P := P) size going bytes
  rw [List.append_assoc] at split
  obtain ⟨fresh,more⟩ := PairMatching.pairs_append ((handled (T := T) P size before).map Happening.op)
    ((happenings ((calls before).foldl operate (.new size : TerminalEngine T P)) (.feed bytes) ++ [Happening.drained]).map Happening.op)
  rw [← List.map_append,← split] at more
  refine ⟨fresh,more,?_⟩
  have whole := reports_pairs (T := T) (P := P) size (calls (before ++ [.event (.output bytes)]))
  change _ = (PairMatching.pairs ((upTo (T := T) P size before bytes).map Happening.op)).map reportOf at whole
  rw [more,List.map_append,calls_append going,reports_append,reports_pairs] at whole
  have last := List.append_cancel_left whole
  rw [← last]
  exact (List.append_nil _).symm

theorem going_running {s : Session T P} (stream : Stream (s,true)) : (before.foldl loopStep (s,true)).2 = true := by
  induction before generalizing s with
  | nil => rfl
  | cons message rest ih =>
      have served := (step_serves (stream.live rfl) message).running
      rw [going message List.mem_cons_self] at served
      have next := (step_stream (s,true) message stream).2
      rw [← Prod.eta (loopStep (s,true) message),served] at next
      rw [List.foldl_cons,← Prod.eta (loopStep (s,true) message),served]
      exact ih (fun m member => going m (List.mem_cons_of_mem _ member)) next

-- A run of messages that go on leaves the loop running.
theorem going_runs : ∃ s : Session T P, (spawnWithTransport size : Session T P).runEngineLoop before = (s,true) ∧
    Stream (s,true) ∧ s.engine = (calls before).foldl operate (.new size : TerminalEngine T P) := by
  have start := spawn_stream (T := T) (P := P) size
  have stream := StepRuns.run_invariant Stream before start fun s message stream => (step_stream s message stream).2
  have shape : before.foldl loopStep ((spawnWithTransport size : Session T P),true) =
      ((before.foldl loopStep ((spawnWithTransport size : Session T P),true)).1,true) :=
    Prod.ext rfl (going_running going start)
  rw [runEngineLoop_steps]
  exact ⟨_,shape,(congrArg EventStream.Stream shape).mp stream,(run_serves start before).1⟩

theorem chunk_placed : ∃ fresh patch,
    PairMatching.pairs ((upTo (T := T) P size before bytes).map Happening.op) =
      PairMatching.pairs ((handled (T := T) P size before).map Happening.op) ++ fresh ∧
    ((spawnWithTransport size : Session T P).runEngineLoop (before ++ [.event (.output bytes)])).1.events.sent =
      ((spawnWithTransport size : Session T P).runEngineLoop before).1.events.sent ++
        (endEvents ((spawnWithTransport size : Session T P).runEngineLoop before).1.encoder.seq (fresh.map reportOf) ++
          [.patch patch]) := by
  obtain ⟨s,ran,stream,engine⟩ := going_runs (T := T) (P := P) size going
  obtain ⟨fresh,more,reported⟩ := chunk_reports (T := T) (P := P) size going bytes
  obtain ⟨added,sent,patch,rfl,_,_⟩ := (step_stream (s,true) (.event (.output bytes)) stream).1
  have last : (spawnWithTransport size : Session T P).runEngineLoop (before ++ [.event (.output bytes)]) =
      loopStep (s,true) (.event (.output bytes)) := by
    rw [runEngineLoop_steps] at ran ⊢
    rw [List.foldl_append,ran]
    rfl
  refine ⟨fresh,patch,more,?_⟩
  rw [last,ran,sent,← reported,← engine]

theorem chunk_collected {j : Nat} (here : (handled (T := T) P size before).length ≤ j)
    (inside : j < (upTo (T := T) P size before bytes).length) (mark : (upTo (T := T) P size before bytes)[j]? ≠ some .drained)
    (more : List (Happening T)) :
    PairMatching.Collected ((upTo (T := T) P size before bytes ++ more).map Happening.op) j ↔
      Unreset (upTo (T := T) P size before bytes) j := by
  have split := upTo_split (T := T) (P := P) size going bytes
  let e := (calls before).foldl operate (.new size : TerminalEngine T P)
  let heads := handled (T := T) P size before ++ happenings e (.feed bytes)
  have shape : upTo (T := T) P size before bytes = heads ++ [.drained] := split
  have bound : j < heads.length := by
    rw [shape,List.length_append,List.length_singleton] at inside
    rcases Nat.lt_or_ge j heads.length with before | beyond
    · exact before
    · have last : j = heads.length := by omega
      refine absurd ?_ mark
      rw [shape,last]
      simp
  have chunk : ∀ h ∈ heads.drop (j+1), h ≠ .drained ∧ ∀ size, h ≠ .resized size := by
    intro h member
    rw [List.drop_append,List.drop_eq_nil_of_le (Nat.le_succ_of_le here),List.nil_append] at member
    exact chunk_inner _ _ _ h (List.mem_of_mem_drop member)
  have uncollected : .collect ∉ (heads.map Happening.op).drop (j+1) := by
    rw [← List.map_drop]
    intro member
    obtain ⟨h,inner,collects⟩ := List.mem_map.mp member
    exact (chunk h inner).1 (op_collect collects)
  have ops : (upTo (T := T) P size before bytes ++ more).map Happening.op =
      heads.map Happening.op ++ .collect :: more.map Happening.op := by
    rw [shape,List.map_append,List.map_append,List.append_assoc]
    rfl
  have rest : (upTo (T := T) P size before bytes).drop (j+1) = heads.drop (j+1) ++ [.drained] := by
    rw [shape,List.drop_append_of_le_length bound]
  rw [ops,PairMatching.collected_before (by rw [List.length_map]; exact bound) uncollected,← List.map_drop,Unreset,rest]
  constructor
  · intro kept h member
    rcases List.mem_append.mp member with inner | last
    · cases resets : resetting h with
      | false => rfl
      | true => exact absurd (List.mem_map.mpr ⟨h,inner,resetting_op resets⟩) kept
    · rw [List.mem_singleton.mp last]
      rfl
  · intro still member
    obtain ⟨h,inner,discards⟩ := List.mem_map.mp member
    rcases op_discard discards with resets | ⟨size,rfl⟩
    · rw [still h (List.mem_append_left _ inner)] at resets
      cases resets
    · exact (chunk _ inner).2 size rfl

end chunk

-- For every run and every completed command of one of its chunks: the command ends of
-- the run are the matched pairs in the order of their D marks, and this command is
-- among them exactly once exactly when nothing behind its D mark in the chunk resets
-- the mark machine.
theorem ended_exactly (size : TerminalSize) (before : List Received) (going : ∀ m ∈ before, goesOn m = true)
    (bytes : List UInt8) (after : List Received)
    (completed : Completed S (upTo (T := T) P size before bytes) i a j exit)
    (here : (handled (T := T) P size before).length ≤ j) :
    ends ((spawnWithTransport size : Session T P).runEngineLoop (before ++ .event (.output bytes) :: after)).1.events.sent =
        (PairMatching.pairs ((handled (T := T) P size (before ++ .event (.output bytes) :: after)).map Happening.op)).map reportOf ∧
      (PairMatching.pairs ((handled (T := T) P size (before ++ .event (.output bytes) :: after)).map Happening.op)).Pairwise
        (fun p q => p.2.1 < q.2.1) ∧
      (EndedOnce T P size before bytes after i a j exit ↔ Unreset (upTo (T := T) P size before bytes) j) := by
  obtain ⟨finish,finishAt,finishing⟩ := completed.finish
  have inside : j < (upTo (T := T) P size before bytes).length := (List.getElem?_eq_some_iff.mp finishAt).1
  have mark : (upTo (T := T) P size before bytes)[j]? ≠ some .drained := by
    intro drained
    rw [finishAt] at drained
    cases drained
    cases finishing
  have matched := completed_matched S completed
  have collected := chunk_collected (T := T) (P := P) size going bytes here inside mark
  obtain ⟨more,whole⟩ := handled_split (T := T) (P := P) size going bytes after
  refine ⟨?_,PairMatching.pairs_ordered _,?_,?_⟩
  · rw [runEngineLoop_steps,(run_serves (spawn_stream (T := T) (P := P) size) _).2,handled,← reports_pairs]
    rfl
  · intro ended
    have member : ((i,a),(j,exit)) ∈ PairMatching.pairs ((upTo (T := T) P size before bytes ++ more).map Happening.op) := by
      rw [← whole]
      exact (List.mem_filter.mp (by rw [ended.once]; exact List.mem_singleton_self _)).1
    exact (collected more).mp ((PairMatching.mem_pairs _ i a j exit).mp member).2
  · intro unreset
    refine ⟨?_,?_⟩
    · rw [whole]
      refine PairMatching.collected_once ?_ ((collected more).mpr unreset)
      rw [List.map_append]
      exact PairMatching.matched_append matched
    · obtain ⟨fresh,patch,split,sent⟩ := chunk_placed (T := T) (P := P) size going bytes
      refine ⟨fresh,patch,?_,split,sent⟩
      have alone := (collected []).mpr unreset
      rw [List.append_nil] at alone
      have member := (PairMatching.mem_pairs _ i a j exit).mpr ⟨matched,alone⟩
      rw [split] at member
      rcases List.mem_append.mp member with old | new
      · have bound := (PairMatching.closes_ordered ((handled (T := T) P size before).map Happening.op)).2 _
          (List.mem_append_left _ old)
        rw [List.length_map] at bound
        exact absurd bound (Nat.not_lt.mpr here)
      · exact new

open LineTerminal

instance (hs : List (Happening T)) (i a j : Nat) (exit : Option Int) : Decidable (Completed S hs i a j exit) :=
  decidable_of_iff (i < j ∧ (∃ h ∈ hs[i]?, starts a h = true) ∧ (∃ h ∈ hs[j]?, finishes exit h = true) ∧
    ∀ h ∈ (hs.drop (i+1)).take (j-(i+1)), undisturbed S h = true)
    ⟨fun ⟨ordered,start,finish,between⟩ => ⟨ordered,start,finish,between⟩,
      fun completed => ⟨completed.ordered,completed.start,completed.finish,completed.between⟩⟩

instance (hs : List (Happening T)) (j : Nat) : Decidable (Unreset hs j) :=
  inferInstanceAs (Decidable (∀ h ∈ hs.drop (j+1), resetting h = false))

theorem ended_exactly_scrolled :
    EndedOnce terminal sideParser ⟨2,4⟩ [.event (.output (lines 1))] (commandStart ++ lines 1 ++ commandEnd)
      [.event (.output enterAlt)] 3 1 5 (some 1) :=
  (ended_exactly screens ⟨2,4⟩ [.event (.output (lines 1))] (by decide) (commandStart ++ lines 1 ++ commandEnd)
    [.event (.output enterAlt)] (by decide +kernel) (by decide +kernel)).2.2.mpr (by decide +kernel)

def screenAfterEnd : List UInt8 := commandStart ++ commandEnd ++ enterAlt

-- The command has ended when the chunk goes on to the alternate screen; it is lost.
theorem entry_drops_ended :
    Completed screens (upTo (T := terminal) sideParser ⟨2,4⟩ [] screenAfterEnd) 1 0 3 (some 1) ∧
      ¬ EndedOnce terminal sideParser ⟨2,4⟩ [] screenAfterEnd [] 1 0 3 (some 1) ∧
      ends ((spawnWithTransport ⟨2,4⟩ : Session terminal sideParser).runEngineLoop
        [.event (.output screenAfterEnd)]).1.events.sent = [] := by
  refine ⟨by decide +kernel,fun ended => ?_,by decide +kernel⟩
  have lost : PairMatching.pairs ((handled (T := terminal) sideParser ⟨2,4⟩
      ([] ++ .event (.output screenAfterEnd) :: [])).map Happening.op) = [] := by decide +kernel
  have once := ended.once
  rw [lost] at once
  cases once

end Perga.CommandEnds

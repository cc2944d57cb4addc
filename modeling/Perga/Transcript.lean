import Perga.Viewport
import Perga.ClientReplica
import Perga.ClientHistory
import Perga.EventStream
import Perga.LineTerminal

namespace Perga.Transcript
open Session EventStream EngineRuns ScrollCounting ClientHistory ClientReplica
variable {T : Terminal} {P : VteParser} {S : Screens T} (V : Viewport S)

-- A client keeps the scrolled rows of every patch; an `init` leaves its history alone.
def hear (history : List (List Cell)) : ProtocolEvent → List (List Cell)
  | .patch patch => (if patch.cleared then [] else history) ++ patch.scrolledRows.map expand
  | _ => history

def heard (events : List ProtocolEvent) : List (List Cell) := events.foldl hear []

def shown (events : List ProtocolEvent) : List (List Cell) := ((events.foldl receive none).map Replica.grid).getD []

def translateLines (lines : List (List AlacrittyCell)) : List (List Cell) := lines.map fun line => line.map translateCell

-- The client's history and grid are the terminal's scrollback and viewport.
def Whole (s : Session T P × Bool) : Prop :=
  heard s.1.events.sent ++ shown s.1.events.sent =
    translateLines ((S.view s.1.engine.term).scrollback ++ V.visible s.1.engine.term)

theorem hear_ends (seq : Nat) (marks : List CommandMark) (history : List (List Cell)) :
    (endEvents seq marks).foldl hear history = history := by
  induction marks generalizing seq with
  | nil => rfl
  | cons cmd rest ih => exact ih (seq+1)

theorem receive_ends (seq : Nat) (marks : List CommandMark) (client : Option Replica) :
    (endEvents seq marks).foldl receive client = client := by
  induction marks generalizing seq with
  | nil => rfl
  | cons cmd rest ih =>
      have first : receive client (.commandEnd (seq+1) cmd.exit cmd.line) = client := by cases client <;> rfl
      rw [endEvents,List.foldl_cons,first,ih]

def frameOf (e : TerminalEngine T P) (scrolled : List Row) (cleared : Bool) : Frame :=
  ⟨e.snapshot,e.snapshot_shaped,e.modes,e.title,scrolled,cleared⟩

-- The replica shows the engine's snapshot, and the engine's size is the terminal's.
structure Followed (s : Session T P × Bool) : Prop where
  stream : Stream s
  dims : V.dims s.1.engine.term = .ofSize s.1.engine.size
  mirrored : ∃ scrolled cleared,
    Agrees s.1.encoder (s.1.events.sent.foldl receive none) (some (frameOf s.1.engine scrolled cleared))

theorem frame_mirrored {s : Session T P} {client : Option Replica} {last : Option Frame}
    (agrees : Agrees s.encoder client last) (e : TerminalEngine T P) (ends : Nat) (scrolled : List Row) (cleared : Bool) :
    Agrees (frameAfter s e ends scrolled cleared).1 (receive client (frameAfter s e ends scrolled cleared).2)
      (some (frameOf e scrolled cleared)) :=
  call_agrees (e := {s.encoder with seq := s.encoder.seq+ends}) (.frame (frameOf e scrolled cleared)) ⟨agrees.1,agrees.2⟩

theorem advance_dims (s : T.State) (bytes : List UInt8) : V.dims (T.advance s bytes) = V.dims s :=
  StepRuns.run_invariant (fun t => V.dims t = V.dims s) bytes rfl fun t b same => (V.step_dims t b).trans same

theorem step_followed (s : Session T P × Bool) (message : Received) (followed : Followed V s) :
    Followed V (loopStep s message) := by
  have stream := (step_stream s message followed.stream).2
  obtain ⟨s,running⟩ := s
  cases running with
  | false => exact followed
  | true =>
      have live := followed.stream.live rfl
      obtain ⟨scrolled,cleared,agrees⟩ := followed.mirrored
      have handled := step_handles s live.alive message
      generalize loopStep (s,true) message = next at handled stream ⊢
      cases handled with
      | output bytes =>
          refine ⟨stream,?_,(s.engine.feed bytes).takeScrolledRows.2,(s.engine.feed bytes).scrollbackCleared,?_⟩
          · change V.dims (fedEngine s.engine bytes).term = .ofSize (fedEngine s.engine bytes).size
            rw [(fedEngine_kept s.engine live.settled bytes).1,fedEngine,takeScrolledRows_engine]
            change V.dims (s.engine.feed bytes).term = _
            rw [Readings.feed_term live.settled,advance_dims]
            exact followed.dims
          · change Agrees _ ((s.events.sent ++ endEvents _ _ ++ [_]).foldl receive none) _
            rw [List.foldl_append,List.foldl_append,receive_ends]
            exact frame_mirrored agrees _ _ _ _
      | exited status =>
          refine ⟨stream,followed.dims,scrolled,cleared,agrees.1,?_⟩
          change (s.events.sent ++ [_]).foldl receive none = _
          rw [List.foldl_append,agrees.2]
          rfl
      | resize size =>
          refine ⟨stream,V.resize_dims _ _,[],false,?_⟩
          change Agrees _ ((s.events.sent ++ [_]).foldl receive none) _
          rw [List.foldl_append]
          exact frame_mirrored agrees _ _ _ _
      | quiet message more kind => exact ⟨stream,followed.dims,scrolled,cleared,agrees⟩
      | closed message kind => exact ⟨stream,followed.dims,scrolled,cleared,agrees⟩

theorem spawn_followed (size : TerminalSize) : Followed V ((spawnWithTransport size : Session T P),true) := by
  refine ⟨spawn_stream size,V.new_dims _,[],false,?_⟩
  have start : Agrees .new none none := ⟨rfl,rfl⟩
  exact call_agrees (.frame (frameOf (.new size : TerminalEngine T P) [] false)) start

theorem followed_shown {s : Session T P × Bool} (followed : Followed V s) :
    shown s.1.events.sent = translateLines (V.visible s.1.engine.term) := by
  obtain ⟨scrolled,cleared,agrees⟩ := followed.mirrored
  rw [shown,agrees.2]
  exact TerminalEngine.snapshot_visible V s.1.engine followed.dims

-- The grid always shows the viewport, so only the history can differ.
theorem whole_history {s : Session T P × Bool} (followed : Followed V s) :
    Whole V s ↔ heard s.1.events.sent = translateLines (S.view s.1.engine.term).scrollback := by
  rw [Whole,followed_shown V followed,translateLines,translateLines,translateLines,List.map_append,
    List.append_cancel_right_eq]

variable (S) in
theorem kept_width {s : T.State} (primary : T.alt s = false) (line : List AlacrittyCell)
    (member : line ∈ (S.view s).scrollback) : line.length < 65536 := by
  obtain ⟨k,inside,rfl⟩ := List.getElem_of_mem member
  rw [← S.line s k (by rw [← S.alt_screen]; exact primary) inside]
  exact S.width s _

theorem expand_rows (lines : List (List AlacrittyCell)) (short : ∀ line ∈ lines, line.length < 65536) :
    ((lines.map translateRow).map fun r => encodeRow r.cells).map expand = translateLines lines := by
  rw [List.map_map,List.map_map]
  apply List.map_congr_left
  intro line member
  apply expand_encodeRow (line.map translateCell)
  rw [List.length_map]
  exact short line member

-- Output stays on the primary screen below the cap and wipes nothing; a resize there
-- changes only the number of rows.
variable (S) in
def RowsOnly (s : Session T P × Bool) : Received → Prop
  | .event (.output bytes) => s.2 = true → Primary S s.1.engine.term bytes ∧ BelowIn S s.1.engine.term bytes ∧
      wipedIn S s.1.engine.term bytes = false
  | .input (.resize size) => s.2 = true → T.alt s.1.engine.term = false ∧ size.cols = s.1.engine.size.cols ∧
      (S.view (T.resize s.1.engine.term (.ofSize size))).scrollback.length < S.cap
  | _ => True

-- No resize moves a line across the border: fewer rows still hold the cursor's row,
-- and more rows find no scrollback.
variable (S) in
def Still (s : Session T P × Bool) : Received → Prop
  | .input (.resize size) => s.2 = true →
      (size.rows.toNat < s.1.engine.size.rows.toNat → s.1.engine.cursorLine+1 ≤ size.rows.toNat) ∧
      (s.1.engine.size.rows.toNat < size.rows.toNat → (S.view s.1.engine.term).scrollback = [])
  | _ => True

theorem output_whole {s : Session T P} (followed : Followed V (s,true)) (whole : Whole V (s,true)) (bytes : List UInt8)
    (primary : Primary S s.engine.term bytes) (below : BelowIn S s.engine.term bytes)
    (unwiped : wipedIn S s.engine.term bytes = false) : Whole V (loopStep (s,true) (.event (.output bytes))) := by
  have live := followed.stream.live rfl
  have before := (whole_history V followed).mp whole
  rw [whole_history V (step_followed V _ _ followed)]
  obtain ⟨uncleared,added,grown,counted⟩ := unwiped_counts S live.settled primary below unwiped
  have rows := feed_rows S live.settled bytes uncleared (primary_after S primary) grown counted
  obtain ⟨_,sent,patch,rfl,scrolled,cleared⟩ := (step_stream (s,true) (.event (.output bytes)) followed.stream).1
  have term : (loopStep (s,true) (.event (.output bytes))).1.engine.term = T.advance s.engine.term bytes := by
    rw [(step_serves live (.event (.output bytes))).engine]
    simp only [operations,List.foldl_cons,List.foldl_nil,operate,takeScrolledRows_engine]
    exact Readings.feed_term live.settled bytes
  have flag : patch.cleared = false := cleared.trans uncleared
  have short : ∀ line ∈ added, line.length < 65536 := fun line member =>
    kept_width S (primary_after S primary) line (by rw [grown]; exact List.mem_append_right _ member)
  rw [sent,heard,List.foldl_append,List.foldl_append,hear_ends,List.foldl_cons,List.foldl_nil,hear,flag,scrolled,rows,
    expand_rows added short,term,grown]
  change heard s.events.sent ++ translateLines added = _
  rw [before]
  exact (List.map_append ..).symm

theorem resize_whole {s : Session T P} (followed : Followed V (s,true)) (whole : Whole V (s,true)) (size : TerminalSize)
    (primary : T.alt s.engine.term = false) (cols : size.cols = s.engine.size.cols)
    (below : (S.view (T.resize s.engine.term (.ofSize size))).scrollback.length < S.cap) :
    Whole V (loopStep (s,true) (.input (.resize size))) ↔
      (size.rows.toNat < s.engine.size.rows.toNat → s.engine.cursorLine+1 ≤ size.rows.toNat) ∧
      (s.engine.size.rows.toNat < size.rows.toNat → (S.view s.engine.term).scrollback = []) := by
  have live := followed.stream.live rfl
  have before := (whole_history V followed).mp whole
  have dims : V.dims s.engine.term = .ofSize s.engine.size := followed.dims
  have visible : (V.visible s.engine.term).length = s.engine.size.rows.toNat := by rw [V.rows,dims]; rfl
  obtain ⟨_,sent,frame,rfl,_,_,empty⟩ := (step_stream (s,true) (.input (.resize size)) followed.stream).1
  have term : (loopStep (s,true) (.input (.resize size))).1.engine.term = T.resize s.engine.term (.ofSize size) := by
    rw [(step_serves live (.input (.resize size))).engine]
    rfl
  have silent : hear (heard s.events.sent) frame = heard s.events.sent := by
    cases frame with
    | patch patch =>
        obtain ⟨rows,cleared⟩ := empty patch rfl
        simp [hear,rows,cleared]
    | _ => rfl
  have kept := V.resized s.engine.term (.ofSize size) primary (by rw [dims]; exact congrArg UInt16.toNat cols)
  rw [kept] at below
  rw [whole_history V (step_followed V _ _ followed),sent,heard,List.foldl_append,List.foldl_cons,List.foldl_nil]
  change hear (heard s.events.sent) frame = _ ↔ _
  rw [silent,before,term,kept,← visible]
  constructor
  · intro same
    have lengths := congrArg List.length same
    rw [translateLines,translateLines,List.length_map,List.length_map] at lengths
    exact ScreenHistory.resizedKept_moved _ _ below lengths.symm
  · intro given
    rcases given with ⟨fits,none_kept⟩
    have still := ScreenHistory.resizedKept_still _ _ (S.bounded s.engine.term) fits none_kept
    exact congrArg translateLines still.symm

theorem step_whole (s : Session T P × Bool) (message : Received) (whole : Whole V s)
    (within : Followed V s ∧ RowsOnly S s message) : Whole V (loopStep s message) ↔ Still S s message := by
  obtain ⟨followed,rows⟩ := within
  obtain ⟨s,running⟩ := s
  cases running with
  | false =>
      apply iff_of_true whole
      cases message with
      | input i =>
          cases i with
          | resize size => intro running; cases running
          | _ => trivial
      | _ => trivial
  | true =>
      have unheard : operations message = [] →
          (∃ added, (loopStep (s,true) message).1.events.sent = s.events.sent ++ added ∧
            ∀ history, added.foldl hear history = history) → Whole V (loopStep (s,true) message) := by
        intro none_called given
        rcases given with ⟨added,sent,kept⟩
        have engine := (step_serves (followed.stream.live rfl) message).engine
        rw [none_called] at engine
        rw [whole_history V (step_followed V _ _ followed),engine,sent,heard,List.foldl_append,kept]
        exact (whole_history V followed).mp whole
      obtain ⟨added,sent,contributed⟩ := (step_stream (s,true) message followed.stream).1
      have silent : added = [] → ∃ added, (loopStep (s,true) message).1.events.sent = s.events.sent ++ added ∧
          ∀ history, added.foldl hear history = history := by
        intro same
        rcases same with rfl
        exact ⟨[],sent,fun _ => rfl⟩
      cases message with
      | event ev =>
          cases ev with
          | output bytes =>
              obtain ⟨primary,below,unwiped⟩ := rows rfl
              exact iff_of_true (output_whole V followed whole bytes primary below unwiped) trivial
          | exited status =>
              refine iff_of_true (unheard rfl ⟨added,sent,fun history => ?_⟩) trivial
              have only : added = [.exited (s.encoder.seq+1) status] := contributed
              rw [only]
              rfl
          | error err => exact iff_of_true (unheard rfl (silent contributed)) trivial
      | eventsClosed => exact iff_of_true (unheard rfl (silent contributed)) trivial
      | inputsClosed => exact iff_of_true (unheard rfl (silent contributed)) trivial
      | input i =>
          cases i with
          | resize size =>
              obtain ⟨primary,cols,below⟩ := rows rfl
              exact (resize_whole V followed whole size primary cols below).trans
                ⟨fun still _ => still,fun still => still rfl⟩
          | _ => exact iff_of_true (unheard rfl (silent contributed)) trivial

-- For every run of output and of resizes that change only the rows: history and grid
-- are the terminal's lines after each message exactly when no resize moves a line.
theorem transcript_exact (size : TerminalSize) (messages : List Received)
    (inside : StepRuns.Along loopStep (RowsOnly S) ((spawnWithTransport size : Session T P),true) messages) :
    StepRuns.Throughout loopStep (Whole V) ((spawnWithTransport size : Session T P),true) messages ↔
      StepRuns.Along loopStep (Still S) ((spawnWithTransport size : Session T P),true) messages := by
  have followed := spawn_followed (P := P) V size
  refine StepRuns.throughout_iff_along (Whole V) ?_
    (StepRuns.along_and inside (StepRuns.run_along (Followed V) messages followed fun s message followed =>
      ⟨followed,step_followed V s message followed⟩)) fun s message whole both => step_whole V s message whole ⟨both.2,both.1⟩
  rw [whole_history V followed]
  change [] = translateLines (S.view (T.new (.ofSize size))).scrollback
  rw [S.new_view]
  rfl

open LineTerminal

instance (s : Session T P × Bool) : Decidable (Whole V s) := inferInstanceAs (Decidable
  (heard s.1.events.sent ++ shown s.1.events.sent =
    translateLines ((S.view s.1.engine.term).scrollback ++ V.visible s.1.engine.term)))

instance (s : Session T P × Bool) : (message : Received) → Decidable (RowsOnly S s message)
  | .event (.output bytes) => inferInstanceAs (Decidable (s.2 = true → Primary S s.1.engine.term bytes ∧
      BelowIn S s.1.engine.term bytes ∧ wipedIn S s.1.engine.term bytes = false))
  | .input (.resize size) => inferInstanceAs (Decidable (s.2 = true → T.alt s.1.engine.term = false ∧
      size.cols = s.1.engine.size.cols ∧ (S.view (T.resize s.1.engine.term (.ofSize size))).scrollback.length < S.cap))
  | .event (.exited _) | .event (.error _) | .eventsClosed | .inputsClosed
  | .input (.key _) | .input (.paste _) | .input (.mouse _) | .input (.focus _) => inferInstanceAs (Decidable True)

instance (s : Session T P × Bool) : (message : Received) → Decidable (Still S s message)
  | .input (.resize size) => inferInstanceAs (Decidable (s.2 = true →
      (size.rows.toNat < s.1.engine.size.rows.toNat → s.1.engine.cursorLine+1 ≤ size.rows.toNat) ∧
      (s.1.engine.size.rows.toNat < size.rows.toNat → (S.view s.1.engine.term).scrollback = [])))
  | .event _ | .eventsClosed | .inputsClosed
  | .input (.key _) | .input (.paste _) | .input (.mouse _) | .input (.focus _) => inferInstanceAs (Decidable True)

def started : Session terminal sideParser × Bool := (spawnWithTransport ⟨3,4⟩,true)

theorem transcript_exact_fitting :
    StepRuns.Throughout loopStep (Whole viewport) started
      [.event (.output (lines 1)),.input (.resize ⟨2,4⟩),.event (.output (lines 3))] :=
  (transcript_exact viewport ⟨3,4⟩ [.event (.output (lines 1)),.input (.resize ⟨2,4⟩),.event (.output (lines 3))]
    (by decide +kernel)).mpr (by decide +kernel)

-- Shrinking below the cursor pushes a line into the scrollback that no patch carries;
-- growing pulls a line back that the client has in its history already.
theorem resize_moves :
    (StepRuns.Along loopStep (RowsOnly screens) started [.event (.output (lines 2)),.input (.resize ⟨2,4⟩)] ∧
      ¬ StepRuns.Throughout loopStep (Whole viewport) started [.event (.output (lines 2)),.input (.resize ⟨2,4⟩)]) ∧
    (StepRuns.Along loopStep (RowsOnly screens) started [.event (.output (lines 3)),.input (.resize ⟨4,4⟩)] ∧
      ¬ StepRuns.Throughout loopStep (Whole viewport) started [.event (.output (lines 3)),.input (.resize ⟨4,4⟩)]) := by
  decide +kernel

end Perga.Transcript

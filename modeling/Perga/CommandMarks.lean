import Perga.ScrollCounting

namespace Perga.CommandMarks
open FeedCuts Readings EngineRuns ScrollCounting
variable {T : Terminal} {P : VteParser}

-- On the alternate screen at some moment of this happening.
def onAlt : Happening T → Bool
  | .segment piece => (T.moments piece.start piece.bytes).any T.alt
  | .mark _ seen _ => T.alt seen
  | _ => false

-- A visit that both samples of a segment miss.
def Hidden (p : Piece T) : Prop :=
  T.alt p.start = false ∧ T.alt p.finish = false ∧ onAlt (.segment p) = true

theorem segment_stays (p : Piece T) (primary : T.alt p.start = false) (quiet : (Happening.op (.segment p)).Quiet)
    (visible : ¬ Hidden p) : onAlt (.segment p) = false ∧ T.alt p.finish = false := by
  have still : p.resets = false := by
    cases resets : p.resets with
    | false => rfl
    | true => rw [Happening.op,if_pos resets] at quiet; exact quiet.elim
  have finish : T.alt p.finish = false := by
    rw [Piece.resets,Bool.or_eq_false_iff,primary] at still
    simpa using still.2
  refine ⟨?_,finish⟩
  cases visit : onAlt (.segment p) with
  | false => rfl
  | true => exact absurd ⟨primary,finish,visit⟩ visible

-- Between two marks on the primary screen with nothing loud in between, the terminal
-- never leaves it.
theorem stays_between (between : List (Happening T)) (linked : Linked s between) (primary : T.alt s = false)
    (quiet : ∀ h ∈ between, h.op.Quiet) (visible : ∀ p, .segment p ∈ between → ¬ Hidden p) :
    ∀ h ∈ between, onAlt h = false := by
  induction between generalizing s with
  | nil => intro h member; cases member
  | cons head rest ih =>
      have others : ∀ h ∈ rest, h.op.Quiet := fun h member => quiet h (List.mem_cons_of_mem _ member)
      have unseen : ∀ p, .segment p ∈ rest → ¬ Hidden p := fun p member => visible p (List.mem_cons_of_mem _ member)
      have first := quiet head List.mem_cons_self
      have walk : onAlt head = false ∧ ∀ h ∈ rest, onAlt h = false := by
        cases head with
        | segment piece =>
            obtain ⟨rfl,later⟩ := linked
            have stays := segment_stays piece primary first (visible piece List.mem_cons_self)
            exact ⟨stays.1,ih later stays.2 others unseen⟩
        | mark mark seen abs =>
            obtain ⟨rfl,later⟩ := linked
            exact ⟨primary,ih later primary others unseen⟩
        | noticed => exact ⟨rfl,ih linked primary others unseen⟩
        | resized size => exact first.elim
        | drained => exact ⟨rfl,ih linked primary others unseen⟩
      intro h member
      rcases List.mem_cons.mp member with rfl | inside
      · exact walk.1
      · exact walk.2 h inside

theorem op_opens {h : Happening T} (opens : h.op = .opens a) :
    ∃ seen, h = .mark .commandStart seen a ∧ T.alt seen = false := by
  cases h with
  | segment piece => unfold Happening.op at opens; dsimp only at opens; split at opens <;> cases opens
  | mark mark seen abs =>
      unfold Happening.op at opens
      dsimp only at opens
      split at opens
      · cases opens
      · rename_i primary
        cases mark with
        | promptStart => cases opens
        | commandStart => cases opens; exact ⟨seen,rfl,by simpa using primary⟩
        | commandEnd exit => cases opens
  | noticed => cases opens
  | resized size => cases opens
  | drained => cases opens

theorem op_closes {h : Happening T} (closes : h.op = .closes exit) :
    ∃ seen abs, h = .mark (.commandEnd exit) seen abs ∧ T.alt seen = false := by
  cases h with
  | segment piece => unfold Happening.op at closes; dsimp only at closes; split at closes <;> cases closes
  | mark mark seen abs =>
      unfold Happening.op at closes
      dsimp only at closes
      split at closes
      · cases closes
      · rename_i primary
        cases mark with
        | promptStart => cases closes
        | commandStart => cases closes
        | commandEnd exit => cases closes; exact ⟨seen,abs,rfl,by simpa using primary⟩
  | noticed => cases closes
  | resized size => cases closes
  | drained => cases closes

-- A list around one of its positions, and what lies strictly between two of them.
theorem split_at {α : Type u} {items : List α} {i : Nat} {x : α} (found : items[i]? = some x) :
    items = items.take i ++ x :: items.drop (i+1) := by
  obtain ⟨inside,rfl⟩ := List.getElem?_eq_some_iff.mp found
  rw [← List.drop_eq_getElem_cons inside,List.take_append_drop]

theorem between_at {α : Type u} {items : List α} {i j k : Nat} {x : α} (after : i < k) (before : k < j)
    (found : items[k]? = some x) : ((items.drop (i+1)).take (j-(i+1)))[k-(i+1)]? = some x := by
  rw [List.getElem?_take_of_lt (by omega),List.getElem?_drop]
  have same : i+1+(k-(i+1)) = k := by omega
  rw [same]
  exact found

theorem between_mem {α : Type u} {items : List α} {i j : Nat} {x : α}
    (member : x ∈ (items.drop (i+1)).take (j-(i+1))) : ∃ k, i < k ∧ k < j ∧ items[k]? = some x := by
  obtain ⟨n,found⟩ := List.mem_iff_getElem?.mp member
  have inside : n < j-(i+1) := by
    have bound := (List.getElem?_eq_some_iff.mp found).1
    rw [List.length_take] at bound
    omega
  rw [List.getElem?_take_of_lt inside,List.getElem?_drop] at found
  exact ⟨i+1+n,by omega,by omega,found⟩

-- A reported pair of a run: its two marks, and everything from one to the other.
structure Clean (hs : List (Happening T)) (pair : (Nat × Nat) × (Nat × Option Int)) : Prop where
  ordered : pair.1.1 < pair.2.1
  start : ∃ seen, hs[pair.1.1]? = some (.mark .commandStart seen pair.1.2)
  finish : ∃ seen abs, hs[pair.2.1]? = some (.mark (.commandEnd pair.2.2) seen abs)
  primary : ∀ k h, pair.1.1 ≤ k → k ≤ pair.2.1 → hs[k]? = some h → onAlt h = false

theorem linked_from {hs : List (Happening T)} {i row : Nat} (linked : Linked s hs)
    (found : hs[i]? = some (.mark mark seen row)) :
    Linked seen (hs.drop (i+1)) := by
  have whole := split_at found
  rw [whole,linked_append] at linked
  obtain ⟨_,rfl,later⟩ := linked
  exact later

theorem linked_take {hs : List (Happening T)} (n : Nat) (linked : Linked s hs) : Linked s (hs.take n) := by
  rw [← List.take_append_drop n hs,linked_append] at linked
  exact linked.1

theorem ops_at {hs : List (Happening T)} {k : Nat} (found : (hs.map Happening.op)[k]? = some op) :
    ∃ h, hs[k]? = some h ∧ h.op = op := by
  rw [List.getElem?_map] at found
  exact Option.map_eq_some_iff.mp found

theorem at_ops {hs : List (Happening T)} {k : Nat} {h : Happening T} (found : hs[k]? = some h) : (hs.map Happening.op)[k]? = some h.op := by
  rw [List.getElem?_map,found]
  rfl

-- Whatever its segments hide: a pair that a run reports begins and ends with marks that met
-- the primary screen.
theorem pair_marks {hs : List (Happening T)} {i j a : Nat} {b : Option Int}
    (member : ((i,a),(j,b)) ∈ PairMatching.pairs (hs.map Happening.op)) :
    i < j ∧ (∃ seen, hs[i]? = some (.mark .commandStart seen a) ∧ T.alt seen = false) ∧
      ∃ ended abs, hs[j]? = some (.mark (.commandEnd b) ended abs) ∧ T.alt ended = false := by
  obtain ⟨ordered,opens,closes,_⟩ := ((PairMatching.mem_pairs _ i a j b).mp member).1
  obtain ⟨start,startAt,startOp⟩ := ops_at opens
  obtain ⟨finish,finishAt,finishOp⟩ := ops_at closes
  obtain ⟨seen,rfl,seenPrimary⟩ := op_opens startOp
  obtain ⟨ended,abs,rfl,endedPrimary⟩ := op_closes finishOp
  exact ⟨ordered,⟨seen,startAt,seenPrimary⟩,ended,abs,finishAt,endedPrimary⟩

-- In every run of feeds cut anywhere, in which no segment hides a visit, a reported
-- command never touches the alternate screen between its two marks.
theorem reported_primary (size : TerminalSize) (ops : List Operation)
    (visible : StepRuns.Along operate (EachPiece fun p => ¬ Hidden p) (.new size : TerminalEngine T P) ops) :
    reports (.new size : TerminalEngine T P) ops =
        (PairMatching.pairs ((trace (.new size : TerminalEngine T P) ops).map Happening.op)).map reportOf ∧
      ∀ pair ∈ PairMatching.pairs ((trace (.new size : TerminalEngine T P) ops).map Happening.op),
        Clean (trace (.new size : TerminalEngine T P) ops) pair := by
  refine ⟨reports_pairs size ops,?_⟩
  intro given member
  rcases given with ⟨⟨i,a⟩,j,b⟩
  have linked := trace_linked (.new size : TerminalEngine T P) rfl ops
  have unseen : ∀ p, .segment p ∈ trace (.new size : TerminalEngine T P) ops → ¬ Hidden p :=
    trace_pieces (.new size : TerminalEngine T P) ops visible
  obtain ⟨ordered,⟨seen,startAt,seenPrimary⟩,ended,abs,finishAt,endedPrimary⟩ := pair_marks member
  have quiet := ((PairMatching.mem_pairs _ i a j b).mp member).1.2.2.2
  have between := stays_between (((trace (.new size : TerminalEngine T P) ops).drop (i+1)).take (j-(i+1)))
    (linked_take _ (linked_from linked startAt)) seenPrimary
    (by
      intro h inside
      obtain ⟨k,after,before,found⟩ := between_mem inside
      exact quiet k h.op after before (at_ops found))
    (fun p inside => unseen p (List.mem_of_mem_drop (List.mem_of_mem_take inside)))
  refine ⟨ordered,⟨seen,startAt⟩,⟨ended,abs,finishAt⟩,?_⟩
  intro k h from_i to_j found
  dsimp only at from_i to_j
  rcases Nat.eq_or_lt_of_le from_i with rfl | after
  · rw [startAt] at found
    cases found
    exact seenPrimary
  · rcases Nat.eq_or_lt_of_le to_j with rfl | before
    · rw [finishAt] at found
      cases found
      exact endedPrimary
    · exact between h (List.mem_of_getElem? (between_at after before found))

-- Every byte that takes the terminal to the alternate screen ends something the side
-- parser reports, such as a `CSI ? Pm h` whose first parameter is 1049, 1047 or 47.
def Announced (P : VteParser) (s : T.State) (p : P.State) : List UInt8 → Prop
  | [] => True
  | b :: rest =>
    (T.alt s = false → T.alt (T.step s b) = true → P.scans p b ≠ []) ∧ Announced P (T.step s b) (P.next p b) rest

theorem advance_concat (s : T.State) (held : List UInt8) (b : UInt8) :
    T.advance s (held ++ [b]) = T.step (T.advance s held) b := T.advance_append s held [b]

theorem moments_concat (s : T.State) (held : List UInt8) (b : UInt8) :
    T.moments s (held ++ [b]) = T.moments s held ++ [T.step (T.advance s held) b] := by
  rw [Terminal.moments,Terminal.moments,T.passed_append]
  rfl

theorem announced_cuts (s : T.State) (p : P.State) (held bytes : List UInt8)
    (announced : Announced P (T.advance s held) p bytes)
    (primary : T.alt s = false → ∀ t ∈ T.moments s held, T.alt t = false) :
    ∀ piece ∈ piecesFrom s ((cuts P p held bytes).1.map Cut.segment ++ [(cuts P p held bytes).2]), ¬ Hidden piece := by
  have clear : ∀ (s : T.State) (bytes : List UInt8), (T.alt s = false → ∀ t ∈ T.moments s bytes, T.alt t = false) →
      ¬ Hidden ⟨s,bytes⟩ := by
    intro s bytes primary given
    rcases given with ⟨start,_,visit⟩
    obtain ⟨t,member,alt⟩ := List.any_eq_true.mp visit
    rw [primary start t member] at alt
    cases alt
  induction bytes generalizing s p held with
  | nil =>
      intro piece member
      rw [List.mem_singleton.mp member]
      exact clear s held primary
  | cons b rest ih =>
      obtain ⟨entry,later⟩ := announced
      have step : T.advance s (held ++ [b]) = T.step (T.advance s held) b := advance_concat s held b
      cases scans : P.scans p b with
      | nil =>
          simp only [cuts,scans]
          apply ih s (P.next p b) (held ++ [b]) (by rw [step]; exact later)
          intro start t member
          rw [moments_concat] at member
          rcases List.mem_append.mp member with old | last
          · exact primary start t old
          · rw [List.mem_singleton.mp last]
            cases alt : T.alt (T.step (T.advance s held) b) with
            | false => rfl
            | true => exact absurd scans (entry (primary start _ (T.advance_moment s held)) alt)
      | cons first more =>
          have empties : ∀ (more : List RawScan) (others : List (List UInt8)) (t : T.State) (piece : Piece T),
              piece ∈ piecesFrom t ((more.map (Cut.mk [])).map Cut.segment ++ others) →
                piece = ⟨t,[]⟩ ∨ piece ∈ piecesFrom t others := by
            intro more others t piece
            induction more with
            | nil => exact .inr
            | cons scan more rest =>
                intro member
                rcases List.mem_cons.mp member with same | inside
                · exact .inl same
                · exact rest inside
          have nothing : ∀ t : T.State, ¬ Hidden (⟨t,[]⟩ : Piece T) := fun t => clear t [] fun start u member => by
            rw [List.mem_singleton.mp member]
            exact start
          intro piece member
          simp only [cuts,scans,List.cons_append,List.map_cons,List.map_append,List.append_assoc] at member
          rcases List.mem_cons.mp member with rfl | inside
          · intro given
            rcases given with ⟨start,finish,visit⟩
            obtain ⟨t,visited,alt⟩ := List.any_eq_true.mp visit
            rw [moments_concat] at visited
            rcases List.mem_append.mp visited with old | last
            · rw [primary start t old] at alt
              cases alt
            · rw [List.mem_singleton.mp last,← step] at alt
              rw [Piece.finish,alt] at finish
              cases finish
          · rw [step] at inside
            rcases empties _ _ _ _ inside with rfl | further
            · exact nothing _
            · refine ih (T.step (T.advance s held) b) (P.next p b) [] later ?_ piece further
              intro start t member
              rw [List.mem_singleton.mp member]
              exact start

-- Entries that the side parser recognises are cut points, so no visit stays hidden.
theorem announced_visible (e : TerminalEngine T P) (bytes : List UInt8)
    (announced : Announced P e.term e.shell.parser bytes) : EachPiece (fun p => ¬ Hidden p) e (.feed bytes) :=
  announced_cuts e.term e.shell.parser [] bytes announced fun start t member => by
    rw [List.mem_singleton.mp member]
    exact start

open LineTerminal

instance (p : Piece T) : Decidable (Hidden p) := inferInstanceAs (Decidable
  (T.alt p.start = false ∧ T.alt p.finish = false ∧ onAlt (.segment p) = true))

def fullScreen : List Operation :=
  [.feed (commandStart ++ enterAlt ++ commandEnd),.feed (leaveAlt ++ commandEnd ++ commandStart ++ commandEnd),
    .drainCommandEnds]

theorem reported_primary_fullScreen :
    reports (engine 2 4) fullScreen = (PairMatching.pairs ((trace (engine 2 4) fullScreen).map Happening.op)).map reportOf ∧
      ∀ pair ∈ PairMatching.pairs ((trace (engine 2 4) fullScreen).map Happening.op),
        Clean (trace (engine 2 4) fullScreen) pair :=
  reported_primary ⟨2,4⟩ fullScreen (by decide +kernel)

-- `CSI ? 25 ; 1049 h` enters the alternate screen, but its first parameter is 25.
def secondParameter : List Operation :=
  [.feed (commandStart ++ [27,91,63,50,53,59,49,48,52,57,104] ++ leaveAlt ++ commandEnd),.drainCommandEnds]

theorem second_parameter_crosses :
    reports (engine 2 4) secondParameter = [⟨0,some 1⟩] ∧
      ((1,0),(3,some 1)) ∈ PairMatching.pairs ((trace (engine 2 4) secondParameter).map Happening.op) ∧
      (trace (engine 2 4) secondParameter)[2]?.map onAlt = some true ∧
      ¬ Clean (trace (engine 2 4) secondParameter) ((1,0),(3,some 1)) := by
  have visit : (trace (engine 2 4) secondParameter)[2]?.map onAlt = some true := by decide +kernel
  refine ⟨by decide +kernel,by decide +kernel,visit,?_⟩
  intro clean
  obtain ⟨h,found,alt⟩ := Option.map_eq_some_iff.mp visit
  rw [clean.primary 2 h (by decide) (by decide) found] at alt
  cases alt

end Perga.CommandMarks

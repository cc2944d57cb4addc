import Perga.Ledger
import Mathlib.Data.List.Basic

namespace Perga.Chunking
open FeedCuts Readings ScrollCounting ClientHistory Ledger EngineRuns
variable {T : Terminal} {P : VteParser} (S : Screens T)

-- Three kinds of segment from whose two samples the engine reads the truth.
def Calm (p : Piece T) : Prop :=
  (∀ s ∈ T.moments p.start p.bytes, T.alt s = false) ∧ wipedIn S p.start p.bytes = false

def Erasing (p : Piece T) : Prop :=
  (∀ s ∈ T.moments p.start p.bytes, T.alt s = false) ∧
    (S.view p.start).scrollback ≠ [] ∧ (S.view p.finish).scrollback = []

def Frozen (p : Piece T) : Prop :=
  Piece.touchesAlt p = true ∧ movedIn S p.start p.bytes = 0 ∧ wipedIn S p.start p.bytes = false

-- The mark machine read as a matcher: the running command holds its slot, and those
-- that ended wait in it.
def matcher (s : ShellIntegration P) : PairMatching.Matcher Nat (Option Int) :=
  ⟨match s.state with
    | .executing commandAbs => some commandAbs
    | .idle => none,
   s.resolved.map fun ended => (ended.line+1,ended.exit)⟩

theorem matcher_shows (s : ShellIntegration P) : s.Shows (matcher s) := by
  refine ⟨?_,?_⟩
  · unfold matcher
    cases s.state <;> rfl
  · have back : region ∘ (fun ended : CommandRegion => (ended.line+1,ended.exit)) = id := by
      funext ended
      simp [region]
    rw [matcher,List.map_map,back,List.map_id]

-- No segment resets the mark machine while a command that ended waits to be drained.
def Unhurried (m : PairMatching.Matcher Nat (Option Int)) : List (Happening T) → Prop
  | [] => True
  | h :: rest => (h.op = .discard → m.ready = []) ∧ Unhurried (m.act h.op) rest

structure Separable (d : Delivery T P) (bytes : List UInt8) : Prop where
  kinds : ∀ p ∈ pieces d.engine bytes, Calm S p ∨ Erasing S p ∨ Frozen S p
  erased : (∃ p ∈ pieces d.engine bytes, Erasing S p) →
    (S.view (T.advance d.engine.term bytes)).scrollback = []
  ended : T.alt (T.advance d.engine.term bytes) = true →
    ∀ p ∈ pieces d.engine bytes, Calm S p → movedIn S p.start p.bytes = 0
  unhurried : Unhurried (matcher d.engine.shell) (happenings d.engine (.feed bytes))

def toRegion (m : CommandMark) : CommandRegion := ⟨m.line,m.exit⟩

-- What a delivery already amounts to: drained marks and those still waiting are one list.
def book (d : Delivery T P) : Book T :=
  ⟨d.engine.term,d.engine.scrollTotal,d.history,d.engine.shell.state,d.marks.map toRegion ++ d.engine.shell.resolved⟩

-- Inside a feed of the delivery `d`: the engine has reached `e` and the book `r`.
structure Tracks (d : Delivery T P) (e : TerminalEngine T P) (r : Book T) : Prop where
  term : r.term = e.term
  total : r.total = e.scrollTotal
  state : r.state = e.shell.state
  resolved : r.resolved = d.marks.map toRegion ++ e.shell.resolved
  idle : T.alt e.term = true → e.shell.state = .idle
  cleared : e.scrollbackClearedThisFeed = true → r.history = kept S e.term
  uncleared : e.scrollbackClearedThisFeed = false → ∃ added,
    (S.view e.term).scrollback = (S.view d.engine.term).scrollback ++ added ∧
      r.history = d.history ++ added.map translateRow ∧ added.length = e.pendingScrolled

variable {S} {d : Delivery T P} {e : TerminalEngine T P} {r : Book T}

theorem moments_unvisited {s : T.State} {bytes : List UInt8}
    (primary : ∀ t ∈ T.moments s bytes, T.alt t = false) : visits s bytes = false := by
  rw [visits,List.any_eq_false]
  intro t member
  rw [primary t (List.mem_cons_of_mem _ member)]
  decide

theorem moments_untouched {p : Piece T} (primary : ∀ t ∈ T.moments p.start p.bytes, T.alt t = false) :
    Piece.touchesAlt p = false := by
  rw [Piece.touchesAlt,primary _ List.mem_cons_self]
  exact primary _ (T.advance_moment p.start p.bytes)

theorem calm_tracks (tracks : Tracks S d e r) (segment : List UInt8) (below : BelowIn S e.term segment)
    (calm : Calm S ⟨e.term,segment⟩) :
    Tracks S d (crossSegment e segment) (r.read S segment) := by
  obtain ⟨rTerm,rTotal,rHistory,rState,rResolved⟩ := r
  obtain ⟨rfl,rfl,rfl,rfl,idle,cleared,uncleared⟩ := tracks
  obtain ⟨primary,unwiped⟩ := calm
  have untouched := moments_untouched (p := ⟨e.term,segment⟩) primary
  have reading := reading_grew S untouched below unwiped
  obtain ⟨added,grown,count⟩ := kept_grows S below unwiped
  obtain ⟨term,size,counts,shell⟩ := cross_spec e segment
  have still : Piece.resets (T := T) ⟨e.term,segment⟩ = false := by
    rw [Piece.touchesAlt,Bool.or_eq_false_iff] at untouched
    simp [Piece.resets,reading,untouched]
  rw [if_neg (by simp [still])] at shell
  rw [reading,← count] at counts
  simp only [tally,Tally.read,Tally.mk.injEq] at counts
  obtain ⟨total,pending,flag⟩ := counts
  have alt : T.alt (T.advance e.term segment) = false := primary _ (T.advance_moment e.term segment)
  rw [read_unwiped S _ segment unwiped grown,moments_unvisited primary]
  refine ⟨term.symm,total.symm,by rw [shell]; rfl,by rw [shell],?_,?_,?_⟩
  · rw [term,alt]
    intro impossible
    cases impossible
  · intro clear
    rw [flag] at clear
    have known : rHistory = kept S e.term := cleared clear
    rw [known,term,kept,kept,grown,List.map_append]
  · intro unclear
    rw [flag] at unclear
    obtain ⟨before,held,history,length⟩ := uncleared unclear
    refine ⟨before ++ added,?_,?_,?_⟩
    · rw [term,grown,held,List.append_assoc]
    · simp only at history
      simp only [history,List.map_append,List.append_assoc]
    · rw [List.length_append,length,pending]

theorem erasing_wiped (p : Piece T) (below : BelowIn S p.start p.bytes) (erasing : Erasing S p) :
    wipedIn S p.start p.bytes = true := by
  obtain ⟨_,held,nothing⟩ := erasing
  cases wiped : wipedIn S p.start p.bytes with
  | true => rfl
  | false =>
      obtain ⟨added,grown,_⟩ := kept_grows S below wiped
      rw [Piece.finish] at nothing
      rw [nothing] at grown
      exact absurd (List.append_eq_nil_iff.mp grown.symm).1 held

theorem erasing_tracks (tracks : Tracks S d e r) (segment : List UInt8) (below : BelowIn S e.term segment)
    (erasing : Erasing S ⟨e.term,segment⟩)
    (unhurried : Piece.resets (T := T) ⟨e.term,segment⟩ = true → e.shell.resolved = []) :
    Tracks S d (crossSegment e segment) (r.read S segment) := by
  obtain ⟨rTerm,rTotal,rHistory,rState,rResolved⟩ := r
  obtain ⟨rfl,rfl,rfl,rfl,idle,cleared,uncleared⟩ := tracks
  have wiped := erasing_wiped _ below erasing
  obtain ⟨primary,held,nothing⟩ := erasing
  have untouched := moments_untouched (p := ⟨e.term,segment⟩) primary
  have reading : Piece.reading (T := T) ⟨e.term,segment⟩ = .cleared := by
    rw [reading_primary S untouched,nothing,if_neg]
    exact Nat.not_le.mpr (List.length_pos_iff.mpr held)
  obtain ⟨term,size,counts,shell⟩ := cross_spec e segment
  have resets : Piece.resets (T := T) ⟨e.term,segment⟩ = true := by simp [Piece.resets,reading]
  have drained := unhurried resets
  rw [if_pos resets] at shell
  rw [reading] at counts
  simp only [tally,Tally.read,Tally.mk.injEq] at counts
  obtain ⟨total,pending,flag⟩ := counts
  have final : (S.view (T.advance e.term segment)).scrollback = [] := nothing
  rw [read_wiped S _ segment wiped]
  refine ⟨term.symm,?_,by rw [shell]; rfl,?_,fun _ => by rw [shell]; rfl,fun _ => by rw [term],?_⟩
  · rw [total,final]
    rfl
  · rw [shell,drained]
    rfl
  · rw [flag]
    intro impossible
    cases impossible

theorem frozen_tracks (tracks : Tracks S d e r) (segment : List UInt8) (below : BelowIn S e.term segment)
    (frozen : Frozen S ⟨e.term,segment⟩)
    (unhurried : Piece.resets (T := T) ⟨e.term,segment⟩ = true → e.shell.resolved = []) :
    Tracks S d (crossSegment e segment) (r.read S segment) := by
  obtain ⟨rTerm,rTotal,rHistory,rState,rResolved⟩ := r
  obtain ⟨rfl,rfl,rfl,rfl,idle,cleared,uncleared⟩ := tracks
  obtain ⟨touches,unmoved,unwiped⟩ := frozen
  obtain ⟨added,grown,count⟩ := kept_grows S below unwiped
  simp only [unmoved] at count
  obtain ⟨term,size,counts,shell⟩ := cross_spec e segment
  rw [reading_frozen touches] at counts
  simp only [tally,Tally.read,Tally.mk.injEq] at counts
  obtain ⟨total,pending,flag⟩ := counts
  have nothing : added = [] := List.eq_nil_of_length_eq_zero count
  rw [nothing,List.append_nil] at grown
  -- Either the segment starts on the alternate screen, where the machine is idle
  -- already, or it enters it and is reset with nothing waiting.
  have settledShell : (crossSegment e segment).shell.resolved = e.shell.resolved ∧
      (crossSegment e segment).shell.state = (if visits e.term segment then .idle else e.shell.state) ∧
      (T.alt (T.advance e.term segment) = true → (crossSegment e segment).shell.state = .idle) := by
    rw [shell]
    cases started : T.alt e.term with
    | true =>
        have still : Piece.resets (T := T) ⟨e.term,segment⟩ = false := by
          simp [Piece.resets,reading_frozen touches,started]
        simp [still,idle started]
    | false =>
        have finished : T.alt (T.advance e.term segment) = true := by
          simpa [Piece.touchesAlt,started,Piece.finish] using touches
        have resets : Piece.resets (T := T) ⟨e.term,segment⟩ = true := by
          simp [Piece.resets,started,Piece.finish,finished]
        have visited : visits e.term segment = true := by
          rw [visits,List.any_eq_true]
          rcases List.mem_cons.mp (T.advance_moment e.term segment) with same | inside
          · rw [same,started] at finished
            cases finished
          · exact ⟨_,inside,finished⟩
        have drained := unhurried resets
        simp [resets,visited,drained,ShellIntegration.reset]
  obtain ⟨resolved,state,stays⟩ := settledShell
  rw [read_unwiped S _ segment unwiped (by rw [grown,List.append_nil])]
  refine ⟨term.symm,by rw [total]; rfl,state.symm,by rw [resolved],by rw [term]; exact stays,?_,?_⟩
  · intro clear
    rw [flag] at clear
    have known : rHistory = kept S e.term := cleared clear
    simp only [List.map_nil,List.append_nil,known,kept,term,grown]
  · intro unclear
    rw [flag] at unclear
    obtain ⟨before,held,history,length⟩ := uncleared unclear
    refine ⟨before,by rw [term,grown,held],?_,by rw [length,pending]⟩
    simpa using history

theorem segment_tracks (tracks : Tracks S d e r) (segment : List UInt8) (below : BelowIn S e.term segment)
    (kind : Calm S ⟨e.term,segment⟩ ∨ Erasing S ⟨e.term,segment⟩ ∨ Frozen S ⟨e.term,segment⟩)
    (unhurried : Happening.op (T := T) (.segment ⟨e.term,segment⟩) = .discard → e.shell.resolved = []) :
    Tracks S d (crossSegment e segment) (r.read S segment) := by
  have resets : Piece.resets (T := T) ⟨e.term,segment⟩ = true → e.shell.resolved = [] :=
    fun resets => unhurried (if_pos resets)
  rcases kind with calm | erasing | frozen
  · exact calm_tracks tracks segment below calm
  · exact erasing_tracks tracks segment below erasing resets
  · exact frozen_tracks tracks segment below frozen resets

theorem scan_tracks (tracks : Tracks S d e r) (scan : RawScan) : Tracks S d (receiveScan e scan) (r.meet scan) := by
  cases scan with
  | altScreenEnter => exact tracks
  | mark mark =>
      obtain ⟨rTerm,rTotal,rHistory,rState,rResolved⟩ := r
      obtain ⟨rfl,rfl,rfl,rfl,idle,cleared,uncleared⟩ := tracks
      cases alt : T.alt e.term with
      | true =>
          simp only [receiveScan,TerminalEngine.isAltScreen_alt,alt,Book.meet,if_true]
          exact ⟨rfl,rfl,rfl,rfl,idle,cleared,uncleared⟩
      | false =>
          simp only [receiveScan,TerminalEngine.isAltScreen_alt,alt,Book.meet,Bool.false_eq_true,if_false]
          have primary : ∀ {p : Prop}, T.alt e.term = true → p := by
            intro p impossible
            rw [alt] at impossible
            cases impossible
          cases mark with
          | promptStart => exact ⟨rfl,rfl,rfl,rfl,primary,cleared,uncleared⟩
          | commandStart => exact ⟨rfl,rfl,rfl,rfl,primary,cleared,uncleared⟩
          | commandEnd exit =>
              cases state : e.shell.state with
              | idle =>
                  simp only [ShellIntegration.applyMark,state]
                  exact ⟨rfl,rfl,state.symm,rfl,primary,cleared,uncleared⟩
              | executing commandAbs =>
                  simp only [ShellIntegration.applyMark,state]
                  exact ⟨rfl,rfl,rfl,by rw [List.append_assoc],primary,cleared,uncleared⟩

theorem nothing_waits {s : ShellIntegration P} {m : PairMatching.Matcher Nat (Option Int)} (shows : s.Shows m)
    (empty : m.ready = []) : s.resolved = [] := by
  rw [shows.ready,empty]
  rfl

-- The matcher goes along with the engine and says at each reset whether a command waits.
theorem cuts_track (found : List Cut) (last : List UInt8) (tracks : Tracks S d e r) (shows : e.shell.Shows m)
    (below : BelowIn S e.term ((found.map Cut.segment).flatten ++ last))
    (kinds : ∀ p ∈ piecesFrom e.term (found.map Cut.segment ++ [last]), Calm S p ∨ Erasing S p ∨ Frozen S p)
    (unhurried : Unhurried m (cutHappenings e found last)) :
    Tracks S d (crossSegment (found.foldl atCut e) last) ((found.foldl (Book.atCut S) r).read S last) := by
  induction found generalizing e r m with
  | nil =>
      exact segment_tracks tracks last below (kinds _ List.mem_cons_self) fun resets => nothing_waits shows (unhurried.1 resets)
  | cons cut rest ih =>
      rw [List.map_cons,List.flatten_cons,List.append_assoc,below_append] at below
      have crossed := segment_tracks tracks cut.segment below.1 (kinds _ List.mem_cons_self) fun resets =>
        nothing_waits shows (unhurried.1 resets)
      have met := scan_tracks crossed cut.scan
      have next := receive_shows _ cut.scan (cross_shows e cut.segment shows)
      refine ih met next ?_ ?_ unhurried.2.2
      · rw [atCut_term]
        exact below.2
      · intro p member
        rw [atCut_term] at member
        exact kinds p (List.mem_cons_of_mem _ member)

-- What holds of every reachable engine between two calls.
structure Ready (e : TerminalEngine T P) : Prop where
  settled : e.shell.pending = []
  idle : T.alt e.term = true → e.shell.state = .idle

theorem cross_idle (e : TerminalEngine T P) (segment : List UInt8) (idle : T.alt e.term = true → e.shell.state = .idle)
    (alt : T.alt (T.advance e.term segment) = true) : (crossSegment e segment).shell.state = .idle := by
  rw [(cross_spec e segment).2.2.2]
  cases started : T.alt e.term with
  | true =>
      split
      · rfl
      · exact idle started
  | false => rw [if_pos (by simp [Piece.resets,Piece.finish,started,alt])]; rfl

theorem receive_idle (e : TerminalEngine T P) (scan : RawScan) (alt : T.alt e.term = true) : receiveScan e scan = e := by
  cases scan with
  | altScreenEnter => rfl
  | mark mark => simp only [receiveScan,TerminalEngine.isAltScreen_alt,alt,if_true]

theorem cuts_idle (e : TerminalEngine T P) (found : List Cut) (idle : T.alt e.term = true → e.shell.state = .idle) :
    T.alt (found.foldl atCut e).term = true → (found.foldl atCut e).shell.state = .idle := by
  refine StepRuns.run_invariant (fun e : TerminalEngine T P => T.alt e.term = true → e.shell.state = .idle)
    found idle ?_
  intro e cut idle alt
  rw [atCut_term] at alt
  rw [atCut,receive_idle _ _ (by rw [crossSegment_term]; exact alt)]
  exact cross_idle e cut.segment idle alt

theorem feed_ready (e : TerminalEngine T P) (ready : Ready e) (bytes : List UInt8) : Ready (e.feed bytes) := by
  refine ⟨feed_pending ready.settled bytes,?_⟩
  rw [feed_cuts e ready.settled,crossSegment_term]
  exact cross_idle _ _ (cuts_idle (opened e bytes) _ ready.idle)

theorem operate_ready (e : TerminalEngine T P) (op : Operation) (ready : Ready e) : Ready (operate e op) := by
  cases op with
  | feed bytes => exact feed_ready e ready bytes
  | resize size => exact ⟨ready.settled,fun _ => rfl⟩
  | drainPendingWrites => exact ⟨ready.settled,ready.idle⟩
  | drainCommandEnds => exact ⟨ready.settled,ready.idle⟩
  | takeScrolledRows => rw [operate,takeScrolledRows_engine]; exact ⟨ready.settled,ready.idle⟩

theorem deliver_ready (d : Delivery T P) (ready : Ready d.engine) (bytes : List UInt8) :
    Ready (deliver d bytes).engine := by
  rw [deliver_engine]
  exact ⟨(feed_ready _ ready bytes).settled,(feed_ready _ ready bytes).idle⟩

theorem pieces_below (s : T.State) (segs : List (List UInt8)) (below : BelowIn S s segs.flatten) :
    ∀ p ∈ piecesFrom s segs, BelowIn S p.start p.bytes := by
  induction segs generalizing s with
  | nil => intro p member; cases member
  | cons seg rest ih =>
      rw [List.flatten_cons,below_append] at below
      intro p member
      rcases List.mem_cons.mp member with rfl | inside
      · exact below.1
      · exact ih _ below.2 p inside

theorem reading_kind (p : Piece T) (below : BelowIn S p.start p.bytes) (kind : Calm S p ∨ Erasing S p ∨ Frozen S p) :
    (Calm S p ∧ p.reading = .grew (movedIn S p.start p.bytes)) ∨ (Erasing S p ∧ p.reading = .cleared) ∨
      p.reading = .frozen := by
  rcases kind with calm | erasing | frozen
  · exact .inl ⟨calm,reading_grew S (moments_untouched calm.1) below calm.2⟩
  · refine .inr (.inl ⟨erasing,?_⟩)
    rw [reading_primary S (moments_untouched erasing.1),erasing.2.2,if_neg]
    exact Nat.not_le.mpr (List.length_pos_iff.mpr erasing.2.1)
  · exact .inr (.inr (reading_frozen frozen.1))

theorem tally_still (readings : List Reading) (t : Tally) (none : t.pending = 0)
    (still : ∀ n, .grew n ∈ readings → n = 0) : (readings.foldl Tally.read t).pending = 0 := by
  induction readings generalizing t with
  | nil => exact none
  | cons reading rest ih =>
      refine ih _ ?_ fun n member => still n (List.mem_cons_of_mem _ member)
      cases reading with
      | frozen => exact none
      | cleared => rfl
      | grew n => simp [Tally.read,none,still n List.mem_cons_self]

theorem feed_tracks (d : Delivery T P) (ready : Ready d.engine) (bytes : List UInt8)
    (below : BelowIn S d.engine.term bytes) (separable : Separable S d bytes) :
    Tracks S d (d.engine.feed bytes) (run S P d.engine.shell.parser (book d) bytes) := by
  have walk := run_cuts S d.engine.shell.parser (book d) [] bytes below
  have whole := cuts_flatten d.engine.shell.parser [] bytes
  rw [read_nil] at walk
  rw [walk,feed_cuts d.engine ready.settled]
  have start : Tracks S d (opened d.engine bytes) (book d) := by
    refine ⟨rfl,rfl,rfl,rfl,ready.idle,?_,fun _ => ⟨[],?_,?_,rfl⟩⟩
    · intro impossible
      cases impossible
    · rw [List.append_nil]; rfl
    · rw [List.map_nil,List.append_nil]; rfl
  have shows := matcher_shows d.engine.shell
  refine cuts_track _ _ start ⟨shows.slot,shows.ready⟩ ?_ separable.kinds separable.unhurried
  rw [whole]
  exact below

-- One delivered feed does to client and engine what the book records for its bytes.
theorem deliver_book (d : Delivery T P) (ready : Ready d.engine) (bytes : List UInt8)
    (below : BelowIn S d.engine.term bytes) (separable : Separable S d bytes) :
    book (deliver d bytes) = run S P d.engine.shell.parser (book d) bytes := by
  have tracks := feed_tracks d ready bytes below separable
  have term := feed_term (e := d.engine) ready.settled bytes
  have pieceBelow : ∀ p ∈ pieces d.engine bytes, BelowIn S p.start p.bytes :=
    pieces_below _ _ (by rw [segments_flatten]; exact below)
  have history : (deliver d bytes).history = (run S P d.engine.shell.parser (book d) bytes).history := by
    cases flag : (d.engine.feed bytes).scrollbackClearedThisFeed with
    | true =>
        obtain ⟨p,member,reading⟩ := List.mem_map.mp ((flag_cleared d.engine ready.settled bytes).mp flag)
        have erasing : Erasing S p := by
          rcases reading_kind p (pieceBelow p member) (separable.kinds p member) with calm | erasing | frozen
          · rw [reading] at calm; cases calm.2
          · exact erasing.1
          · rw [reading] at frozen; cases frozen
        rw [deliver_cleared d bytes flag,tracks.cleared flag,kept,term,separable.erased ⟨p,member,erasing⟩]
        rfl
    | false =>
        obtain ⟨added,grown,rows,count⟩ := tracks.uncleared flag
        rw [term] at grown
        cases alt : T.alt (T.advance d.engine.term bytes) with
        | false => rw [deliver_grown S d ready.settled bytes flag alt grown count.symm,rows]
        | true =>
            have still : (d.engine.feed bytes).pendingScrolled = 0 := by
              have fed := congrArg Tally.pending (feed_tally (e := d.engine) ready.settled bytes)
              refine fed.trans (tally_still _ _ rfl ?_)
              intro n member
              obtain ⟨p,inside,reading⟩ := List.mem_map.mp member
              rcases reading_kind p (pieceBelow p inside) (separable.kinds p inside) with calm | erasing | frozen
              · have moved := separable.ended alt p inside calm.1
                rw [calm.2,moved] at reading
                cases reading
                rfl
              · rw [erasing.2] at reading; cases reading
              · rw [frozen] at reading; cases reading
            have nothing : added = [] := List.eq_nil_of_length_eq_zero (count.trans still)
            rw [deliver_still d bytes flag still,rows,nothing]
            simp
  have marks : (book (deliver d bytes)).resolved = (run S P d.engine.shell.parser (book d) bytes).resolved := by
    rw [tracks.resolved,book,deliver_engine]
    simp only [deliver,TerminalEngine.drainCommandEnds,ShellIntegration.drainRegions,List.map_append,List.append_nil,
      List.map_map]
    congr 1
    exact List.map_id _
  have engine := deliver_engine d bytes
  cases reached : run S P d.engine.shell.parser (book d) bytes with
  | mk rTerm rTotal rHistory rState rResolved =>
      rw [reached] at tracks history marks
      obtain ⟨rfl,rfl,rfl,_⟩ := tracks
      simp only [book,Book.mk.injEq] at history marks ⊢
      refine ⟨?_,?_,history,?_,marks⟩
      · rw [engine]; rfl
      · rw [engine]; rfl
      · rw [engine]; rfl

-- Two runs over one byte string, each cut so that every feed is separable, meet in
-- the book of the whole string.
theorem delivers_book (d : Delivery T P) (ready : Ready d.engine) (chunks : List (List UInt8))
    (below : BelowIn S d.engine.term chunks.flatten) (separable : StepRuns.Along deliver (Separable S) d chunks) :
    book (chunks.foldl deliver d) = run S P d.engine.shell.parser (book d) chunks.flatten := by
  induction chunks generalizing d with
  | nil => rfl
  | cons bytes rest ih =>
      rw [List.flatten_cons,below_append] at below
      have first := deliver_book d ready bytes below.1 separable.1
      have parser : (deliver d bytes).engine.shell.parser = parsed P d.engine.shell.parser bytes := by
        rw [deliver_engine]
        exact feed_parsed ready.settled bytes
      have later := ih (deliver d bytes) (deliver_ready d ready bytes)
        (by rw [deliver_term d ready.settled]; exact below.2) separable.2
      rw [List.foldl_cons,later,first,parser,List.flatten_cons,run_append]

theorem drained_marks (d : Delivery T P) (chunks : List (List UInt8)) (some : chunks ≠ []) :
    (chunks.foldl deliver d).engine.shell.resolved = [] := by
  obtain ⟨earlier,last,rfl⟩ := List.eq_nil_or_concat chunks |>.resolve_left some
  rw [List.concat_eq_append,List.foldl_append,List.foldl_cons,List.foldl_nil,deliver_engine]
  rfl

theorem toRegion_injective : Function.Injective toRegion := by
  intro given other same
  rcases given with ⟨line,exit⟩
  rcases other with ⟨line',exit'⟩
  simpa [toRegion] using same

-- Every reachable engine, with whatever its client holds.
def reached (size : TerminalSize) (operations : List Operation) (history : List Row) (marks : List CommandMark) :
    Delivery T P := ⟨operations.foldl operate (.new size),history,marks⟩

open LineTerminal

instance : Decidable (Calm S p) := inferInstanceAs (Decidable
  ((∀ s ∈ T.moments p.start p.bytes, T.alt s = false) ∧ wipedIn S p.start p.bytes = false))

instance : Decidable (Erasing S p) := inferInstanceAs (Decidable
  ((∀ s ∈ T.moments p.start p.bytes, T.alt s = false) ∧
    (S.view p.start).scrollback ≠ [] ∧ (S.view p.finish).scrollback = []))

instance : Decidable (Frozen S p) := inferInstanceAs (Decidable
  (Piece.touchesAlt p = true ∧ movedIn S p.start p.bytes = 0 ∧ wipedIn S p.start p.bytes = false))

instance decideUnhurried (m : PairMatching.Matcher Nat (Option Int)) : (hs : List (Happening T)) → Decidable (Unhurried m hs)
  | [] => inferInstanceAs (Decidable True)
  | h :: rest =>
    have := decideUnhurried (m.act h.op) rest
    inferInstanceAs (Decidable ((h.op = .discard → m.ready = []) ∧ Unhurried (m.act h.op) rest))

instance : Decidable (Separable S d bytes) :=
  decidable_of_iff ((∀ p ∈ pieces d.engine bytes, Calm S p ∨ Erasing S p ∨ Frozen S p) ∧
    ((∃ p ∈ pieces d.engine bytes, Erasing S p) → (S.view (T.advance d.engine.term bytes)).scrollback = []) ∧
    (T.alt (T.advance d.engine.term bytes) = true → ∀ p ∈ pieces d.engine bytes, Calm S p → movedIn S p.start p.bytes = 0) ∧
    Unhurried (matcher d.engine.shell) (happenings d.engine (.feed bytes)))
    ⟨fun all => ⟨all.1,all.2.1,all.2.2.1,all.2.2.2⟩,fun s => ⟨s.kinds,s.erased,s.ended,s.unhurried⟩⟩

def scrolled : Delivery terminal sideParser := reached ⟨2,4⟩ [.feed (lines 3)] [] []

-- The last command end of both cuts ends nothing, so nothing waits when the screen switches.
def fewFeeds : List (List UInt8) :=
  [lines 2 ++ commandStart ++ lines 1,commandEnd ++ lines 1,eraseSaved ++ commandEnd ++ commandStart ++ enterAlt,leaveAlt,lines 1]

def manyFeeds : List (List UInt8) :=
  [lines 2,commandStart ++ lines 1 ++ commandEnd ++ lines 1 ++ [27],eraseSaved.tail,commandEnd ++ commandStart,
    enterAlt,leaveAlt,lines 1]

end Perga.Chunking

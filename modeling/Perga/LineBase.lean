import Perga.EventStream
import Perga.LineTerminal

namespace Perga.LineBase
open Session EventStream EngineRuns Readings
variable {T : Terminal} {P : VteParser}

-- The base of absolute lines that a client can keep from the events alone.
def counter (r : Nat) : ProtocolEvent → Nat
  | .init _ => 0
  | .patch patch => (if patch.cleared then 0 else r)+patch.scrolledRows.length
  | _ => r

def base (events : List ProtocolEvent) : Nat := events.foldl counter 0

def Agree (s : Session T P × Bool) : Prop := base s.1.events.sent = s.1.engine.scrollTotal

theorem counter_ends (seq : Nat) (marks : List CommandMark) (r : Nat) : (endEvents seq marks).foldl counter r = r := by
  induction marks generalizing seq with
  | nil => rfl
  | cons cmd rest ih => exact ih (seq+1)

-- The readings behind the last clear, newest first.
def sinceClear (readings : List Reading) : List Reading := readings.reverse.takeWhile (· != .cleared)

def still : Reading → Bool
  | .grew lines => lines == 0
  | _ => true

def RestsAfterClear (readings : List Reading) : Prop :=
  .cleared ∈ readings → ∀ reading ∈ sinceClear readings, still reading = true

theorem sinceClear_cleared (readings : List Reading) : sinceClear (readings ++ [.cleared]) = [] := by
  simp [sinceClear]

theorem sinceClear_other (readings : List Reading) {last : Reading} (other : last ≠ .cleared) :
    sinceClear (readings ++ [last]) = last :: sinceClear readings := by
  simp [sinceClear,other]

theorem tally_rests (readings : List Reading) (t : Tally) (uncleared : t.cleared = false) :
    ((readings.foldl Tally.read t).cleared = true → (readings.foldl Tally.read t).pending = 0) ↔
      RestsAfterClear readings := by
  have flag : ∀ readings : List Reading, (readings.foldl Tally.read t).cleared = true ↔ .cleared ∈ readings := by
    intro readings
    rw [tally_cleared,uncleared]
    simp
  induction readings using List.reverseRecOn with
  | nil => simp [RestsAfterClear,uncleared]
  | append_singleton readings last ih =>
      rw [List.foldl_append,List.foldl_cons,List.foldl_nil]
      cases last with
      | cleared => simp [Tally.read,RestsAfterClear,sinceClear_cleared]
      | frozen =>
          have same : RestsAfterClear (readings ++ [.frozen]) ↔ RestsAfterClear readings := by
            simp [RestsAfterClear,sinceClear_other,still]
          exact ih.trans same.symm
      | grew lines =>
          have more : RestsAfterClear (readings ++ [.grew lines]) ↔
              RestsAfterClear readings ∧ (.cleared ∈ readings → lines = 0) := by
            simp [RestsAfterClear,sinceClear_other,still,imp_and,and_comm]
          refine Iff.trans ?_ more.symm
          constructor
          · intro resting
            have both : .cleared ∈ readings → (readings.foldl Tally.read t).pending = 0 ∧ lines = 0 := fun member =>
              Nat.add_eq_zero_iff.mp (resting ((flag readings).mpr member))
            exact ⟨ih.mp fun cleared => (both ((flag readings).mp cleared)).1,fun member => (both member).2⟩
          · intro given cleared
            rcases given with ⟨resting,nothing⟩
            exact Nat.add_eq_zero_iff.mpr ⟨ih.mpr resting cleared,nothing ((flag readings).mp cleared)⟩

-- Where the client's base stays right: a chunk counts nothing after its last clear,
-- and a resize to the current size meets a base of zero.
def Tracked (s : Session T P × Bool) : Received → Prop
  | .event (.output bytes) => s.2 = true → RestsAfterClear ((pieces s.1.engine bytes).map Piece.reading)
  | .input (.resize size) => s.2 = true → size ≠ s.1.engine.size ∨ s.1.engine.scrollTotal = 0
  | _ => True

theorem output_base {s : Session T P} (stream : Stream (s,true)) (agree : Agree (s,true)) (bytes : List UInt8) :
    Agree (loopStep (s,true) (.event (.output bytes))) ↔
      RestsAfterClear ((pieces s.engine bytes).map Piece.reading) := by
  have live := stream.live rfl
  obtain ⟨added,sent,patch,events,rows,cleared⟩ := (step_stream (s,true) (.event (.output bytes)) stream).1
  have engine := (step_serves live (.event (.output bytes))).engine
  have total : (loopStep (s,true) (.event (.output bytes))).1.engine.scrollTotal = (s.engine.feed bytes).scrollTotal := by
    rw [engine]
    simp only [operations,List.foldl_cons,List.foldl_nil,operate,takeScrolledRows_engine]
    rfl
  have told := feed_tally live.settled bytes
  have split := tally_split ((pieces s.engine bytes).map Piece.reading) s.engine.scrollTotal
  have rests := tally_rests ((pieces s.engine bytes).map Piece.reading) ⟨s.engine.scrollTotal,0,false⟩ rfl
  rw [← told] at split rests
  change (_ = if (s.engine.feed bytes).scrollbackClearedThisFeed then _ else _) at split
  have agreed : base s.events.sent = s.engine.scrollTotal := agree
  have count : patch.scrolledRows.length =
      if (s.engine.feed bytes).scrollbackClearedThisFeed then 0 else (s.engine.feed bytes).pendingScrolled := by
    rw [rows,List.length_map,TerminalEngine.takeScrolledRows_length]
  refine Iff.trans ?_ rests
  rw [Agree,total,sent,events,base,List.foldl_append,List.foldl_append,counter_ends,List.foldl_cons,List.foldl_nil,counter,
    count,cleared,TerminalEngine.scrollbackCleared]
  change (if _ then 0 else base s.events.sent) + _ = _ ↔ _
  rw [agreed]
  simp only [tally] at split ⊢
  rw [split]
  cases (s.engine.feed bytes).scrollbackClearedThisFeed with
  | true => simp [eq_comm]
  | false => simp

theorem resize_base {s : Session T P} (stream : Stream (s,true)) (agree : Agree (s,true)) (size : TerminalSize) :
    Agree (loopStep (s,true) (.input (.resize size))) ↔ size ≠ s.engine.size ∨ s.engine.scrollTotal = 0 := by
  have live := stream.live rfl
  obtain ⟨added,sent,frame,rfl,kind,decided,empty⟩ := (step_stream (s,true) (.input (.resize size)) stream).1
  have engine := (step_serves live (.input (.resize size))).engine
  have agreed : base s.events.sent = s.engine.scrollTotal := agree
  have total : (loopStep (s,true) (.input (.resize size))).1.engine.scrollTotal = 0 := by
    rw [engine]
    rfl
  have after : base (s.events.sent ++ [frame]) = counter s.engine.scrollTotal frame := by
    rw [base,List.foldl_append,List.foldl_cons,List.foldl_nil,← agreed]
    rfl
  rw [Agree,total,sent,after]
  cases frame with
  | init frame => exact iff_of_true rfl (.inl (decided.mp rfl))
  | patch patch =>
      obtain ⟨rows,cleared⟩ := empty patch rfl
      have same : size = s.engine.size := Classical.byContradiction fun other => Bool.false_ne_true (decided.mpr other)
      simp [counter,rows,cleared,same]
  | exited seq status => simp [isInit,isPatch] at kind
  | commandEnd seq exit line => simp [isInit,isPatch] at kind
  | sessionError seq reason => simp [isInit,isPatch] at kind

theorem step_base (s : Session T P × Bool) (message : Received) (agree : Agree s) (stream : Stream s) :
    Agree (loopStep s message) ↔ Tracked s message := by
  obtain ⟨s,running⟩ := s
  cases running with
  | false =>
      apply iff_of_true agree
      cases message with
      | event ev =>
          cases ev with
          | output bytes => intro running; cases running
          | _ => trivial
      | input i =>
          cases i with
          | resize size => intro running; cases running
          | _ => trivial
      | _ => trivial
  | true =>
      have live := stream.live rfl
      obtain ⟨added,sent,contributed⟩ := (step_stream (s,true) message stream).1
      have engine := (step_serves live message).engine
      have unmoved : operations message = [] → added.foldl counter (base s.events.sent) = base s.events.sent →
          Agree (loopStep (s,true) message) := by
        intro none_called kept
        rw [none_called] at engine
        rw [Agree,engine,sent,base,List.foldl_append]
        exact kept.trans agree
      have silent : added = [] → added.foldl counter (base s.events.sent) = base s.events.sent := by
        intro same
        rcases same with rfl
        rfl
      cases message with
      | event ev =>
          cases ev with
          | output bytes => exact (output_base stream agree bytes).trans ⟨fun rests _ => rests,fun rests => rests rfl⟩
          | exited status =>
              refine iff_of_true (unmoved rfl ?_) trivial
              have only : added = [.exited (s.encoder.seq+1) status] := contributed
              rw [only]
              rfl
          | error err => exact iff_of_true (unmoved rfl (silent contributed)) trivial
      | eventsClosed => exact iff_of_true (unmoved rfl (silent contributed)) trivial
      | inputsClosed => exact iff_of_true (unmoved rfl (silent contributed)) trivial
      | input i =>
          cases i with
          | resize size => exact (resize_base stream agree size).trans ⟨fun fits _ => fits,fun fits => fits rfl⟩
          | _ => exact iff_of_true (unmoved rfl (silent contributed)) trivial

-- In every run of the loop, the client's base is the engine's after each message
-- exactly when each message before it is tracked.
theorem base_agrees (size : TerminalSize) (messages : List Received) :
    StepRuns.Throughout loopStep Agree ((spawnWithTransport size : Session T P),true) messages ↔
      StepRuns.Along loopStep Tracked ((spawnWithTransport size : Session T P),true) messages :=
  StepRuns.throughout_iff_along Agree rfl
    (StepRuns.run_along Stream messages (spawn_stream size) fun s message stream =>
      ⟨stream,(step_stream s message stream).2⟩)
    step_base

open LineTerminal

instance (s : Session T P × Bool) : Decidable (Agree s) :=
  inferInstanceAs (Decidable (base s.1.events.sent = s.1.engine.scrollTotal))

def spawned : Session terminal sideParser × Bool := (spawnWithTransport ⟨2,4⟩,true)

-- A resize to the current size rebases only the engine; so does an erase that a mark
-- separates from a line feed behind it.
theorem base_drifts :
    (¬ StepRuns.Throughout loopStep Agree spawned [.event (.output (lines 2)),.input (.resize ⟨2,4⟩)] ∧
      StepRuns.Throughout loopStep Agree spawned [.event (.output (lines 2)),.input (.resize ⟨2,5⟩)]) ∧
    ¬ StepRuns.Throughout loopStep Agree spawned
      [.event (.output (lines 2)),.event (.output (eraseSaved ++ commandStart ++ lines 1))] := by
  decide +kernel

end Perga.LineBase

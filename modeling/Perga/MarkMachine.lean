import Perga.FeedCuts

namespace Perga.MarkMachine
variable {P : VteParser}

inductive Call where
  | scanSegment (bytes : List UInt8)
  | resolvePending (abs : Nat)
  | skipPending
  | drainRegions
  | reset
  deriving DecidableEq, Repr

def call (s : ShellIntegration P) : Call → ShellIntegration P
  | .scanSegment bytes => (s.scanSegment bytes).1
  | .resolvePending abs => s.resolvePending abs
  | .skipPending => s.skipPending
  | .drainRegions => s.drainRegions.1
  | .reset => s.reset

def returned (s : ShellIntegration P) : Call → List CommandRegion
  | .drainRegions => s.drainRegions.2
  | _ => []

def drains (s : ShellIntegration P) : List Call → List CommandRegion
  | [] => []
  | c :: rest => returned s c ++ drains (call s c) rest

-- What a call did; a resolve or a skip without a waiting mark does nothing.
inductive Entry where
  | scanned
  | resolved (mark : RawMark) (abs : Nat)
  | skipped (mark : RawMark)
  | idle
  | drained
  | reset
  deriving DecidableEq, Repr

def entry (s : ShellIntegration P) : Call → Entry
  | .scanSegment _ => .scanned
  | .resolvePending abs =>
    match s.pending with
    | [] => .idle
    | mark :: _ => .resolved mark abs
  | .skipPending =>
    match s.pending with
    | [] => .idle
    | mark :: _ => .skipped mark
  | .drainRegions => .drained
  | .reset => .reset

def log (s : ShellIntegration P) : List Call → List Entry
  | [] => []
  | c :: rest => entry s c :: log (call s c) rest

def Entry.isResolved : Entry → Bool
  | .resolved _ _ => true
  | _ => false

-- A command: a C resolved at a line, and a later D with no resolved mark and no reset between them.
structure Command where
  start : Nat
  abs : Nat
  finish : Nat
  exit : Option Int
  deriving DecidableEq, Repr

def Command.region (c : Command) : CommandRegion := ⟨c.abs-1,c.exit⟩

structure Closed (entries : List Entry) (c : Command) : Prop where
  before : c.start < c.finish
  starts : entries[c.start]? = some (.resolved .commandStart c.abs)
  finishes : ∃ abs, entries[c.finish]? = some (.resolved (.commandEnd c.exit) abs)
  alone : ∀ k entry, c.start < k → k < c.finish → entries[k]? = some entry → entry.isResolved = false ∧ entry ≠ .reset

-- The next drain after the D comes before any reset.
def HandedOut (entries : List Entry) (finish : Nat) : Prop :=
  ∃ d, finish < d ∧ entries[d]? = some .drained ∧
    ∀ k, finish < k → k < d → entries[k]? ≠ some .reset ∧ entries[k]? ≠ some .drained

def Entry.op : Entry → PairMatching.Op Nat (Option Int)
  | .resolved mark abs => mark.op abs
  | .reset => .discard
  | .drained => .collect
  | _ => .pass

variable {s : ShellIntegration P} {m : PairMatching.Matcher Nat (Option Int)}

theorem call_shows (shows : s.Shows m) (c : Call) :
    (call s c).Shows (m.act (entry s c).op) ∧ returned s c = (m.handed (entry s c).op).map region := by
  cases c with
  | scanSegment bytes =>
      rw [call,ShellIntegration.scanSegment,FeedCuts.scanFrom_located]
      exact ⟨⟨shows.slot,shows.ready⟩,rfl⟩
  | resolvePending abs =>
      unfold call ShellIntegration.resolvePending entry
      cases s.pending with
      | nil => exact ⟨shows,rfl⟩
      | cons mark rest =>
          have waiting : ({s with pending := rest} : ShellIntegration P).Shows m := ⟨shows.slot,shows.ready⟩
          refine ⟨ShellIntegration.shows_mark waiting mark abs,?_⟩
          cases mark <;> rfl
  | skipPending =>
      unfold call entry
      cases s.pending with
      | nil => exact ⟨⟨shows.slot,shows.ready⟩,rfl⟩
      | cons mark rest => exact ⟨⟨shows.slot,shows.ready⟩,rfl⟩
  | drainRegions => exact ShellIntegration.shows_drain shows
  | reset => exact ⟨ShellIntegration.shows_reset s m,rfl⟩

theorem drains_outputs (shows : s.Shows m) (calls : List Call) :
    drains s calls = (PairMatching.outputs m ((log s calls).map Entry.op)).map region := by
  induction calls generalizing s m with
  | nil => rfl
  | cons c rest ih =>
      obtain ⟨next,given⟩ := call_shows shows c
      rw [drains,log,List.map_cons,PairMatching.outputs,List.map_append,given,ih next]

theorem op_opens (entry : Entry) (abs : Nat) : entry.op = .opens abs ↔ entry = .resolved .commandStart abs := by
  cases entry with
  | resolved mark at_ => cases mark <;> simp [Entry.op,RawMark.op]
  | _ => simp [Entry.op]

theorem op_closes (entry : Entry) (exit : Option Int) :
    entry.op = .closes exit ↔ ∃ abs, entry = .resolved (.commandEnd exit) abs := by
  cases entry with
  | resolved mark at_ => cases mark <;> simp [Entry.op,RawMark.op]
  | _ => simp [Entry.op]

theorem op_quiet (entry : Entry) : entry.op.Quiet ↔ entry.isResolved = false ∧ entry ≠ .reset := by
  cases entry with
  | resolved mark at_ => cases mark <;> simp [Entry.op,RawMark.op,PairMatching.Op.Quiet,Entry.isResolved]
  | _ => simp [Entry.op,PairMatching.Op.Quiet,Entry.isResolved]

theorem op_discard (entry : Entry) : entry.op = .discard ↔ entry = .reset := by
  cases entry with
  | resolved mark at_ => cases mark <;> simp [Entry.op,RawMark.op]
  | _ => simp [Entry.op]

theorem op_collect (entry : Entry) : entry.op = .collect ↔ entry = .drained := by
  cases entry with
  | resolved mark at_ => cases mark <;> simp [Entry.op,RawMark.op]
  | _ => simp [Entry.op]

theorem closed_matched (entries : List Entry) (c : Command) :
    Closed entries c ↔ PairMatching.Matched (entries.map Entry.op) c.start c.abs c.finish c.exit := by
  simp only [PairMatching.Matched,List.getElem?_map,Option.map_eq_some_iff,op_opens,op_closes]
  constructor
  · rintro ⟨before,starts,⟨abs,finishes⟩,alone⟩
    refine ⟨before,⟨_,starts,rfl⟩,⟨_,finishes,abs,rfl⟩,?_⟩
    rintro k op later earlier ⟨entry,found,rfl⟩
    exact (op_quiet entry).mpr (alone k entry later earlier found)
  · rintro ⟨before,⟨_,starts,rfl⟩,⟨_,finishes,abs,rfl⟩,quiet⟩
    refine ⟨before,starts,⟨abs,finishes⟩,fun k entry later earlier found => ?_⟩
    exact (op_quiet entry).mp (quiet k _ later earlier ⟨entry,found,rfl⟩)

theorem handedOut_collected (entries : List Entry) (finish : Nat) :
    HandedOut entries finish ↔ PairMatching.Collected (entries.map Entry.op) finish := by
  have at_op (k : Nat) (op : PairMatching.Op Nat (Option Int)) (entry : Entry) (same : ∀ e : Entry, e.op = op ↔ e = entry) :
      (entries.map Entry.op)[k]? = some op ↔ entries[k]? = some entry := by
    rw [List.getElem?_map,Option.map_eq_some_iff]
    simp only [same]
    exact ⟨fun ⟨_,found,rfl⟩ => found,fun found => ⟨_,found,rfl⟩⟩
  simp only [HandedOut,PairMatching.Collected,ne_eq,at_op _ _ _ op_collect,at_op _ _ _ op_discard]

def commandOf (p : (Nat × Nat) × (Nat × Option Int)) : Command := ⟨p.1.1,p.1.2,p.2.1,p.2.2⟩

def Entry.matters : Entry → Bool
  | .resolved _ _ => true
  | .reset => true
  | .drained => true
  | _ => false

theorem outputs_matter (m : PairMatching.Matcher Nat (Option Int)) (entries : List Entry) :
    PairMatching.outputs m ((entries.filter Entry.matters).map Entry.op) = PairMatching.outputs m (entries.map Entry.op) := by
  induction entries generalizing m with
  | nil => rfl
  | cons entry rest ih =>
      cases matters : entry.matters with
      | true => rw [List.filter_cons_of_pos matters,List.map_cons,List.map_cons,PairMatching.outputs,PairMatching.outputs,ih]
      | false =>
          have passes : entry.op = .pass := by cases entry <;> first | rfl | cases matters
          rw [List.filter_cons_of_neg (by simp [matters]),ih,List.map_cons,passes]
          rfl

-- What the drains of a run hand out are its closed commands that no reset took, each once, in the
-- order of their D marks; scans and skipped marks have no part in it.
theorem drains_closed_commands (calls : List Call) :
    (∃ found : List Command, drains (.new : ShellIntegration P) calls = found.map Command.region ∧
      found.Pairwise (fun c d => c.finish < d.finish) ∧
      ∀ c, c ∈ found ↔ Closed (log (.new : ShellIntegration P) calls) c ∧ HandedOut (log (.new : ShellIntegration P) calls) c.finish) ∧
    ∀ others : List Call, (log (.new : ShellIntegration P) others).filter Entry.matters =
      (log (.new : ShellIntegration P) calls).filter Entry.matters →
        drains (.new : ShellIntegration P) others = drains (.new : ShellIntegration P) calls := by
  have outputs (calls : List Call) := drains_outputs (ShellIntegration.shows_new (P := P)) calls
  refine ⟨?_,fun others same => ?_⟩
  · let ops := (log (.new : ShellIntegration P) calls).map Entry.op
    refine ⟨(PairMatching.pairs ops).map commandOf,?_,?_,fun c => ?_⟩
    · rw [outputs,PairMatching.outputs_pairs,List.map_map,List.map_map]
      rfl
    · exact List.pairwise_map.mpr (PairMatching.pairs_ordered ops)
    · rw [closed_matched,handedOut_collected,← PairMatching.mem_pairs,List.mem_map]
      constructor
      · rintro ⟨p,member,rfl⟩
        exact member
      · intro member
        exact ⟨_,member,rfl⟩
  · rw [outputs,outputs,← outputs_matter,same,outputs_matter]

end Perga.MarkMachine

import Perga.RowEntries

namespace Perga

structure DirtyRow where
  index : UInt16
  entries : List RowEntry
  deriving DecidableEq, Repr

inductive TitleChange where
  | set (value : String)
  | reset
  deriving DecidableEq, Repr

structure InitFrame where
  seq : Nat
  size : TerminalSize
  cursor : Cursor
  rows : List (List RowEntry)
  modes : TerminalModes
  title : Option String
  deriving DecidableEq, Repr

structure PatchFrame where
  seq : Nat
  cursor : Cursor
  dirtyRows : List DirtyRow
  scrolledRows : List (List RowEntry)
  cleared : Bool
  modes : Option TerminalModes
  title : Option TitleChange
  deriving DecidableEq, Repr

-- Sequence numbers are u64; a counter that starts at 0 and grows by one for each
-- event does not wrap in any run a machine can make, so they are natural numbers.
inductive ProtocolEvent where
  | init (frame : InitFrame)
  | patch (frame : PatchFrame)
  | exited (seq : Nat) (status : ExitStatus)
  | commandEnd (seq : Nat) (exit : Option Int) (line : Nat)
  | sessionError (seq : Nat) (reason : String)
  deriving DecidableEq, Repr

def ProtocolEvent.seq : ProtocolEvent → Nat
  | .init frame => frame.seq
  | .patch frame => frame.seq
  | .exited seq _ => seq
  | .commandEnd seq _ _ => seq
  | .sessionError seq _ => seq

structure LastFrame where
  size : TerminalSize
  rows : List Row
  modes : TerminalModes
  title : Option String
  deriving DecidableEq, Repr

structure ProtocolEncoder where
  seq : Nat
  last : Option LastFrame
  deriving DecidableEq, Repr

def dirtyRow (old : List Row) (numbered : Row × Nat) : Option DirtyRow :=
  let dirty := match old[numbered.2]? with
    | some o => o.cells != numbered.1.cells
    | none => true
  if dirty then some ⟨UInt16.ofNat numbered.2,encodeRow numbered.1.cells⟩ else none

def diffRows (old new : List Row) : List DirtyRow := new.zipIdx.filterMap (dirtyRow old)

def diffTitle (last current : Option String) : Option TitleChange :=
  if last == current then none else
  match current with
  | some s => some (.set s)
  | none => some .reset

namespace ProtocolEncoder
def new : ProtocolEncoder := ⟨0,none⟩

def initFrame (e : ProtocolEncoder) (snapshot : Snapshot) (modes : TerminalModes) (title : Option String) :
    ProtocolEncoder × ProtocolEvent :=
  ({seq := e.seq+1,last := some ⟨snapshot.size,snapshot.rows,modes,title⟩},
   .init ⟨e.seq+1,snapshot.size,snapshot.cursor,snapshot.rows.map (fun r => encodeRow r.cells),modes,title⟩)

-- An empty cache and a cache of another size both send `init`; only a patch
-- carries the scrolled rows and the cleared flag.
def encodeFrame (e : ProtocolEncoder) (snapshot : Snapshot) (modes : TerminalModes) (title : Option String)
    (scrolled : List Row) (cleared : Bool) : ProtocolEncoder × ProtocolEvent :=
  match e.last with
  | some last =>
    if last.size = snapshot.size then
      ({seq := e.seq+1,last := some {last with rows := snapshot.rows,modes := modes,title := title}},
       .patch ⟨e.seq+1,snapshot.cursor,diffRows last.rows snapshot.rows,
        scrolled.map (fun r => encodeRow r.cells),cleared,
        if last.modes ≠ modes then some modes else none,diffTitle last.title title⟩)
    else e.initFrame snapshot modes title
  | none => e.initFrame snapshot modes title

def encodeExited (e : ProtocolEncoder) (status : ExitStatus) : ProtocolEncoder × ProtocolEvent :=
  ({e with seq := e.seq+1},.exited (e.seq+1) status)

def encodeCommandEnd (e : ProtocolEncoder) (line : Nat) (exit : Option Int) : ProtocolEncoder × ProtocolEvent :=
  ({e with seq := e.seq+1},.commandEnd (e.seq+1) exit line)

-- What every later law reads off a frame: one number is taken, the cache holds the
-- frame, and the cached size alone decides between the two kinds.
theorem encodeFrame_seq (e : ProtocolEncoder) :
    (e.encodeFrame snapshot modes title scrolled cleared).1.seq = e.seq+1 ∧
      (e.encodeFrame snapshot modes title scrolled cleared).2.seq = e.seq+1 := by
  unfold encodeFrame
  split
  · split <;> exact ⟨rfl,rfl⟩
  · exact ⟨rfl,rfl⟩

theorem encodeFrame_last (e : ProtocolEncoder) :
    (e.encodeFrame snapshot modes title scrolled cleared).1.last =
      some ⟨snapshot.size,snapshot.rows,modes,title⟩ := by
  unfold encodeFrame
  split
  · split
    · rename_i same
      simp only [same]
    · rfl
  · rfl

theorem encodeFrame_patch {last : LastFrame} (e : ProtocolEncoder) (cached : e.last = some last)
    (same : last.size = snapshot.size) :
    (e.encodeFrame snapshot modes title scrolled cleared).2 =
      .patch ⟨e.seq+1,snapshot.cursor,diffRows last.rows snapshot.rows,
        scrolled.map (fun r => encodeRow r.cells),cleared,
        if last.modes ≠ modes then some modes else none,diffTitle last.title title⟩ := by
  simp only [encodeFrame,cached,if_pos same]

theorem encodeFrame_init (e : ProtocolEncoder)
    (other : ∀ cached, e.last = some cached → cached.size ≠ snapshot.size) :
    (e.encodeFrame snapshot modes title scrolled cleared).2 =
      .init ⟨e.seq+1,snapshot.size,snapshot.cursor,snapshot.rows.map (fun r => encodeRow r.cells),modes,title⟩ := by
  unfold encodeFrame
  cases cached : e.last with
  | none => rfl
  | some last =>
      simp only [if_neg (other last cached)]
      rfl
end ProtocolEncoder

end Perga

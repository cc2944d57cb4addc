import Perga.ProtocolEncoder
import Mathlib.Data.List.Induction

namespace Perga.ClientReplica

structure Replica where
  size : TerminalSize
  cursor : Cursor
  grid : List (List Cell)
  modes : TerminalModes
  title : Option String
  deriving DecidableEq, Repr

def overwrite (grid : List (List Cell)) (row : DirtyRow) : List (List Cell) :=
  grid.set row.index.toNat (expand row.entries)

def retitle (title : Option String) : Option TitleChange → Option String
  | none => title
  | some (.set value) => some value
  | some .reset => none

-- The client knows events only: it owns no snapshot and starts without a grid.
def receive : Option Replica → ProtocolEvent → Option Replica
  | _,.init f => some ⟨f.size,f.cursor,f.rows.map expand,f.modes,f.title⟩
  | some r,.patch f =>
    some {r with
      cursor := f.cursor
      grid := f.dirtyRows.foldl overwrite r.grid
      modes := f.modes.getD r.modes
      title := retitle r.title f.title}
  | replica,_ => replica

structure Frame where
  snapshot : Snapshot
  shaped : snapshot.Shaped
  modes : TerminalModes
  title : Option String
  scrolled : List Row
  cleared : Bool

def Frame.shown (f : Frame) : Replica :=
  ⟨f.snapshot.size,f.snapshot.cursor,f.snapshot.grid,f.modes,f.title⟩

def Frame.cached (f : Frame) : LastFrame := ⟨f.snapshot.size,f.snapshot.rows,f.modes,f.title⟩

inductive Call where
  | frame (f : Frame)
  | commandEnd (line : Nat) (exit : Option Int)
  | exited (status : ExitStatus)

def encodeCall (e : ProtocolEncoder) : Call → ProtocolEncoder × ProtocolEvent
  | .frame f => e.encodeFrame f.snapshot f.modes f.title f.scrolled f.cleared
  | .commandEnd line exit => e.encodeCommandEnd line exit
  | .exited status => e.encodeExited status

def encodeAll (e : ProtocolEncoder) : List Call → ProtocolEncoder × List ProtocolEvent
  | [] => (e,[])
  | call :: rest =>
    let one := encodeCall e call
    let others := encodeAll one.1 rest
    (others.1,one.2 :: others.2)

def latest (previous : Option Frame) : Call → Option Frame
  | .frame f => some f
  | _ => previous

def lastFrame (calls : List Call) : Option Frame := calls.foldl latest none

theorem encodeAll_concat (e : ProtocolEncoder) (calls : List Call) (call : Call) :
    encodeAll e (calls ++ [call]) =
      ((encodeCall (encodeAll e calls).1 call).1,
       (encodeAll e calls).2 ++ [(encodeCall (encodeAll e calls).1 call).2]) := by
  induction calls generalizing e with
  | nil => rfl
  | cons first rest ih => simp only [List.cons_append,encodeAll,ih]

theorem row_short (f : Frame) (row : Row) (member : row ∈ f.snapshot.rows) : row.cells.length < 65536 := by
  rw [f.shaped.cols row member]
  exact f.snapshot.size.cols.toNat_lt

theorem rows_short (f : Frame) : f.snapshot.rows.length < 65536 := by
  rw [f.shaped.rows]
  exact f.snapshot.size.rows.toNat_lt

theorem init_grid (f : Frame) :
    (f.snapshot.rows.map (fun r => encodeRow r.cells)).map expand = f.snapshot.grid := by
  rw [List.map_map]
  exact List.map_congr_left fun row member => expand_encodeRow row.cells (row_short f row member)

-- A row is dirty exactly where the two row lists disagree; the walk is over the new
-- rows, with the rows before position `k` already in place.
theorem dirtyRow_changed (old : List Row) (row : Row) (k : Nat) :
    dirtyRow old (row,k) =
      if (old.map Row.cells)[k]? ≠ some row.cells then some ⟨UInt16.ofNat k,encodeRow row.cells⟩ else none := by
  unfold dirtyRow
  cases found : old[k]? with
  | none => simp [List.getElem?_map,found]
  | some o => by_cases same : o.cells = row.cells <;> simp [List.getElem?_map,found,same]

theorem patch_suffix (old rest : List Row) (before : List (List Cell)) (left : List Row)
    (place : old.map Row.cells = before ++ left.map Row.cells) (same : left.length = rest.length)
    (done : List (List Cell)) (aligned : done.length = before.length)
    (bound : before.length + rest.length ≤ 65536) (short : ∀ row ∈ rest, row.cells.length < 65536) :
    ((rest.zipIdx before.length).filterMap (dirtyRow old)).foldl overwrite (done ++ left.map Row.cells) =
      done ++ rest.map Row.cells := by
  induction rest generalizing before left done with
  | nil => rw [List.eq_nil_of_length_eq_zero same]; rfl
  | cons row rest ih =>
      cases left with
      | nil => cases same
      | cons head left =>
          simp only [List.length_cons,Nat.add_right_cancel_iff] at same bound
          have later := ih (before ++ [head.cells]) left (by simpa using place) same
          have step : ∀ cells, (done ++ [cells]).length = (before ++ [head.cells]).length := by simp [aligned]
          have inside : (before ++ [head.cells]).length + rest.length ≤ 65536 := by simp; omega
          have others : ∀ r ∈ rest, r.cells.length < 65536 := fun r member => short r (List.mem_cons_of_mem _ member)
          have atHead : (old.map Row.cells)[before.length]? = some head.cells := by
            rw [place,List.getElem?_append_right (Nat.le_refl _)]
            simp
          rw [List.zipIdx_cons,List.filterMap_cons,dirtyRow_changed,atHead]
          by_cases equal : head.cells = row.cells
          · have next := later (done ++ [head.cells]) (step _) inside others
            simpa [equal] using next
          · have number : (UInt16.ofNat before.length).toNat = before.length :=
              UInt16.toNat_ofNat_of_lt' (by change before.length < 65536; omega)
            have replaced : overwrite (done ++ (head :: left).map Row.cells)
                ⟨UInt16.ofNat before.length,encodeRow row.cells⟩ = (done ++ [row.cells]) ++ left.map Row.cells := by
              rw [overwrite,number,expand_encodeRow _ (short row List.mem_cons_self),← aligned,
                List.set_append_right _ _ (Nat.le_refl _)]
              simp
            have next := later (done ++ [row.cells]) (step _) inside others
            simp only [ne_eq,Option.some.injEq,equal,not_false_eq_true,if_true,List.foldl_cons,replaced]
            simpa using next

theorem patch_grid (previous f : Frame) (same : previous.snapshot.size = f.snapshot.size) :
    (diffRows previous.snapshot.rows f.snapshot.rows).foldl overwrite previous.snapshot.grid =
      f.snapshot.grid := by
  have lengths : previous.snapshot.rows.length = f.snapshot.rows.length := by
    rw [previous.shaped.rows,f.shaped.rows,same]
  have bound := rows_short f
  have walked := patch_suffix previous.snapshot.rows f.snapshot.rows [] previous.snapshot.rows rfl lengths
    [] rfl (by simpa using Nat.le_of_lt bound) (row_short f)
  simpa [Snapshot.grid,diffRows] using walked

def indices (rows : List DirtyRow) : List Nat := rows.map fun row => row.index.toNat

theorem indices_suffix (old rest : List Row) (k : Nat) (bound : k + rest.length ≤ 65536) :
    (indices ((rest.zipIdx k).filterMap (dirtyRow old))).Pairwise (· < ·) ∧
      ∀ i, i ∈ indices ((rest.zipIdx k).filterMap (dirtyRow old)) ↔
        k ≤ i ∧ ∃ row, rest[i-k]? = some row ∧ (old.map Row.cells)[i]? ≠ some row.cells := by
  induction rest generalizing k with
  | nil => simp [indices]
  | cons row rest ih =>
      simp only [List.length_cons] at bound
      obtain ⟨ordered,members⟩ := ih (k+1) (by omega)
      have tail : ∀ i, (∃ r, (row :: rest)[i-k]? = some r ∧ (old.map Row.cells)[i]? ≠ some r.cells) ∧ k < i ↔
          k+1 ≤ i ∧ ∃ r, rest[i-(k+1)]? = some r ∧ (old.map Row.cells)[i]? ≠ some r.cells := by
        intro i
        by_cases after : k < i
        · have shifted : i-k = (i-(k+1))+1 := by omega
          rw [shifted,List.getElem?_cons_succ]
          exact ⟨fun ⟨found,_⟩ => ⟨after,found⟩,fun ⟨_,found⟩ => ⟨found,after⟩⟩
        · exact ⟨fun ⟨_,wrong⟩ => absurd wrong after,fun ⟨wrong,_⟩ => absurd wrong after⟩
      have head : ∀ i, i = k → ((∃ r, (row :: rest)[i-k]? = some r ∧ (old.map Row.cells)[i]? ≠ some r.cells) ↔
          (old.map Row.cells)[k]? ≠ some row.cells) := by
        intro i same
        rcases same with rfl
        simp
      have number : (UInt16.ofNat k).toNat = k := UInt16.toNat_ofNat_of_lt' (by change k < 65536; omega)
      rw [List.zipIdx_cons,List.filterMap_cons,dirtyRow_changed]
      by_cases changed : (old.map Row.cells)[k]? ≠ some row.cells
      · rw [if_pos changed]
        simp only [indices,List.map_cons,number,List.pairwise_cons,List.mem_cons]
        refine ⟨⟨fun i member => ((members i).mp member).1,ordered⟩,fun i => ?_⟩
        constructor
        · intro either
          rcases either with rfl | member
          · exact ⟨Nat.le_refl _,(head i rfl).mpr changed⟩
          · have found := (tail i).mpr ((members i).mp member)
            exact ⟨Nat.le_of_lt found.2,found.1⟩
        · intro given
          rcases given with ⟨from_k,found⟩
          rcases Nat.eq_or_lt_of_le from_k with rfl | after
          · exact .inl rfl
          · exact .inr ((members i).mpr ((tail i).mp ⟨found,after⟩))
      · rw [if_neg changed]
        refine ⟨ordered,fun i => ?_⟩
        rw [members i,← tail i]
        constructor
        · intro given
          rcases given with ⟨found,after⟩
          exact ⟨Nat.le_of_lt after,found⟩
        · intro given
          rcases given with ⟨from_k,found⟩
          rcases Nat.eq_or_lt_of_le from_k with rfl | after
          · exact absurd ((head k rfl).mp found) changed
          · exact ⟨found,after⟩

-- A patch says what changed since the frame before it and nothing else.
structure PatchExact (previous current : Frame) (p : PatchFrame) : Prop where
  size : previous.snapshot.size = current.snapshot.size
  increasing : (indices p.dirtyRows).Pairwise (· < ·)
  differing : ∀ i, i ∈ indices p.dirtyRows ↔ previous.snapshot.grid[i]? ≠ current.snapshot.grid[i]?
  modes : p.modes.isSome = true ↔ previous.modes ≠ current.modes
  title : p.title.isSome = true ↔ previous.title ≠ current.title

theorem patch_exact (previous f : Frame) (seq : Nat) (same : previous.snapshot.size = f.snapshot.size) :
    PatchExact previous f ⟨seq,f.snapshot.cursor,diffRows previous.snapshot.rows f.snapshot.rows,
      f.scrolled.map (fun r => encodeRow r.cells),f.cleared,
      if previous.modes ≠ f.modes then some f.modes else none,diffTitle previous.title f.title⟩ := by
  have lengths : previous.snapshot.rows.length = f.snapshot.rows.length := by
    rw [previous.shaped.rows,f.shaped.rows,same]
  have bound := rows_short f
  obtain ⟨ordered,members⟩ := indices_suffix previous.snapshot.rows f.snapshot.rows 0 (by omega)
  refine ⟨same,ordered,?_,?_,?_⟩
  · intro i
    refine (members i).trans ?_
    simp only [Nat.zero_le,true_and,Nat.sub_zero,Snapshot.grid,List.getElem?_map]
    by_cases inside : i < f.snapshot.rows.length
    · simp [List.getElem?_eq_getElem inside]
    · have missing : f.snapshot.rows[i]? = none := List.getElem?_eq_none (by omega)
      have missingOld : previous.snapshot.rows[i]? = none := List.getElem?_eq_none (by omega)
      simp [missing,missingOld]
  · by_cases changed : previous.modes = f.modes <;> simp [changed]
  · unfold diffTitle
    by_cases changed : previous.title = f.title
    · simp [changed]
    · cases value : f.title <;> simp_all

-- The encoder's cache and the client's replica are two views of the last frame.
def Agrees (e : ProtocolEncoder) (client : Option Replica) (last : Option Frame) : Prop :=
  e.last = last.map Frame.cached ∧ client = last.map Frame.shown

def FrameExact (previous : Option Frame) (current : Frame) : ProtocolEvent → Prop
  | .init f =>
    f.size = current.snapshot.size ∧ f.cursor = current.snapshot.cursor ∧ f.rows.map expand = current.snapshot.grid ∧
      f.modes = current.modes ∧ f.title = current.title ∧
      ∀ earlier, previous = some earlier → earlier.snapshot.size ≠ current.snapshot.size
  | .patch p => ∃ earlier, previous = some earlier ∧ PatchExact earlier current p
  | _ => False

theorem retitle_diff (previous current : Option String) : retitle previous (diffTitle previous current) = current := by
  unfold diffTitle
  by_cases same : previous = current
  · simp [same,retitle]
  · cases current <;> simp [same,retitle]

theorem frame_followed (f : Frame) (agrees : Agrees e client last) :
    receive client (encodeCall e (.frame f)).2 = some f.shown ∧ FrameExact last f (encodeCall e (.frame f)).2 := by
  obtain ⟨cached,rfl⟩ := agrees
  simp only [encodeCall]
  by_cases patched : ∃ earlier, last = some earlier ∧ earlier.snapshot.size = f.snapshot.size
  · obtain ⟨earlier,rfl,same⟩ := patched
    rw [e.encodeFrame_patch cached same]
    refine ⟨?_,earlier,rfl,patch_exact earlier f _ same⟩
    have modes : (if earlier.cached.modes ≠ f.modes then some f.modes else none).getD earlier.modes = f.modes := by
      by_cases changed : earlier.modes = f.modes <;> simp [Frame.cached,changed]
    simp only [receive,Option.map_some,Frame.shown,same,Option.some.injEq,Replica.mk.injEq,true_and]
    exact ⟨patch_grid earlier f same,modes,retitle_diff _ _⟩
  · have other : ∀ earlier, last = some earlier → earlier.snapshot.size ≠ f.snapshot.size :=
      fun earlier found same => patched ⟨earlier,found,same⟩
    rw [e.encodeFrame_init]
    · exact ⟨by simp only [receive,init_grid,Frame.shown],rfl,rfl,init_grid f,rfl,rfl,other⟩
    · intro cache found
      rw [cached] at found
      obtain ⟨earlier,isLast,rfl⟩ := Option.map_eq_some_iff.mp found
      exact other earlier isLast

theorem call_agrees (call : Call) (agrees : Agrees e client last) :
    Agrees (encodeCall e call).1 (receive client (encodeCall e call).2) (latest last call) := by
  cases call with
  | frame f => exact ⟨ProtocolEncoder.encodeFrame_last e,(frame_followed f agrees).1⟩
  | commandEnd line exit => exact ⟨agrees.1,agrees.2⟩
  | exited status => exact ⟨agrees.1,agrees.2⟩

theorem run_agrees (calls : List Call) :
    Agrees (encodeAll .new calls).1 ((encodeAll .new calls).2.foldl receive none) (lastFrame calls) := by
  induction calls using List.reverseRecOn with
  | nil => exact ⟨rfl,rfl⟩
  | append_singleton calls call ih =>
      rw [encodeAll_concat,lastFrame,List.foldl_append,List.foldl_append]
      exact call_agrees call ih

-- After every frame of every call sequence the client holds that frame, and the
-- event that carried it says exactly what changed since the frame before.
theorem replica_equals_frame (earlier : List Call) (f : Frame) :
    ∃ event, (encodeAll .new (earlier ++ [.frame f])).2 = (encodeAll .new earlier).2 ++ [event] ∧
      ((encodeAll .new earlier).2 ++ [event]).foldl receive none = some f.shown ∧
      FrameExact (lastFrame earlier) f event := by
  have followed := frame_followed f (run_agrees earlier)
  refine ⟨_,by rw [encodeAll_concat],?_,followed.2⟩
  rw [List.foldl_append]
  exact followed.1

end Perga.ClientReplica

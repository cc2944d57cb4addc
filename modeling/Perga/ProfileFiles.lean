import Perga.ProfileStore

namespace Perga.Profiles

abbrev Directory := String → Option (List UInt8 × UInt32)

-- A file while the call runs; it is fresh once the call has put bytes of the new body into it.
structure SavedFile where
  content : List UInt8
  mode : UInt32
  fresh : Bool
  deriving DecidableEq, Repr

abbrev SaveState := String → Option SavedFile

def unsaved (prior : Directory) : SaveState := fun name => (prior name).map fun file => ⟨file.1,file.2,false⟩

def SaveState.put (state : SaveState) (name : String) (file : SavedFile) : SaveState :=
  fun other => if other = name then some file else state other

def SaveState.rename (state : SaveState) (source target : String) : SaveState :=
  fun name => if name = target then state source else if name = source then none else state name

-- `fs::write` opens with mode 0666 less the umask; a file that is there keeps its mode.
def modeAtOpen (umask : UInt32) (prior : Directory) (name : String) : UInt32 :=
  match prior name with
  | some file => file.2
  | none => 0o666 &&& ~~~umask

-- Which step fails. A failing write leaves as many bytes behind as it says.
structure SaveFaults where
  createDir : Option String
  openFile : Option String
  write : Option (Nat × String)
  chmod : Option String
  rename : Option String
  deriving DecidableEq, Repr

def SaveFaults.none : SaveFaults := ⟨.none,.none,.none,.none,.none⟩

section
variable {F : Toml} (bytes : F.Text → List UInt8)

def filled (umask : UInt32) (prior : Directory) (temp : String) (content : List UInt8) : SaveState :=
  (unsaved prior).put temp ⟨content,modeAtOpen umask prior temp,!content.isEmpty⟩

def closed (prior : Directory) (temp : String) (content : List UInt8) : SaveState :=
  (unsaved prior).put temp ⟨content,0o600,!content.isEmpty⟩

-- The states from before the open to after the first `n` bytes.
def filling (umask : UInt32) (prior : Directory) (temp : String) (body : List UInt8) (n : Nat) : List SaveState :=
  unsaved prior :: (List.range (n+1)).map fun k => filled umask prior temp (body.take k)

-- `save_profiles_atomic` with every state of the directory on the way; the last one is what it leaves.
def saveFiles (profiles : List HostProfile) (place : Place) (faults : SaveFaults) (umask : UInt32) (prior : Directory) :
    List SaveState × Except ProfileError Unit :=
  match F.toString profiles with
  | .error e => ([unsaved prior],.error (.io ("serialize hosts.toml: " ++ e)))
  | .ok text =>
    match place.path.parent with
    | none => ([unsaved prior],.error (.io ("hosts.toml path has no parent: " ++ place.path.display)))
    | some parent =>
      let temp := place.temp parent
      let body := bytes text
      match faults.createDir with
      | some e => ([unsaved prior],.error (.io ("create_dir_all " ++ parent ++ ": " ++ e)))
      | none =>
        match faults.openFile with
        | some e => ([unsaved prior],.error (.io ("write " ++ temp ++ ": " ++ e)))
        | none =>
          match faults.write with
          | some (n,e) => (filling umask prior temp body n,.error (.io ("write " ++ temp ++ ": " ++ e)))
          | none =>
            let states := filling umask prior temp body body.length
            match faults.chmod with
            | some e => (states,.error (.io ("chmod 0600 " ++ temp ++ ": " ++ e)))
            | none =>
              match faults.rename with
              | some e => (states ++ [closed prior temp body],
                  .error (.io ("rename " ++ temp ++ " -> " ++ place.path.display ++ ": " ++ e)))
              | none => (states ++ [closed prior temp body,(closed prior temp body).rename temp place.path.display],.ok ())

-- Its outcome is that of the coarser model, which sees one fault for the open and the write.
def SaveFaults.coarse (faults : SaveFaults) : Faults :=
  ⟨.none,faults.createDir,faults.openFile.or (faults.write.map Prod.snd),faults.chmod,faults.rename⟩

theorem saveFiles_outcome (profiles : List HostProfile) (place : Place) (faults : SaveFaults) (umask : UInt32)
    (prior : Directory) (disk : Disk F) :
    (saveFiles bytes profiles place faults umask prior).2 = (saveProfilesAtomic profiles place faults.coarse disk).2 := by
  simp only [saveFiles,saveProfilesAtomic,stageProfiles,SaveFaults.coarse]
  cases F.toString profiles with
  | error e => rfl
  | ok text =>
      cases place.path.parent with
      | none => rfl
      | some parent =>
          cases faults.createDir with
          | some e => rfl
          | none =>
              cases faults.openFile with
              | some e => rfl
              | none =>
                  cases faults.write with
                  | some stopped => rfl
                  | none =>
                      cases faults.chmod with
                      | some e => rfl
                      | none => cases faults.rename <;> simp [renameProfiles,Disk.put]

def Hidden (state : SaveState) : Prop :=
  ∀ name file, state name = some file → file.fresh = true → file.mode = 0o600

def Stale (state : SaveState) : Prop := ∀ name file, state name = some file → file.fresh = false

-- In every state what the call wrote can be read by its user only, and a call that fails leaves none of it.
structure PasswordsGuarded (run : List SaveState × Except ProfileError Unit) : Prop where
  hidden : ∀ state ∈ run.1, Hidden state
  cleaned : ∀ e, run.2 = .error e → ∀ state ∈ run.1.getLast?, Stale state

def arriving (faults : SaveFaults) (body : List UInt8) : List UInt8 :=
  match faults.write with
  | some (n,_) => body.take n
  | none => body

-- Nothing of the body reaches the temporary file, or that file is private from the start and no later step fails.
def SavesPrivately (profiles : List HostProfile) (place : Place) (faults : SaveFaults) (umask : UInt32)
    (prior : Directory) : Prop :=
  match F.toString profiles,place.path.parent with
  | .ok text,some parent =>
      faults.createDir ≠ none ∨ faults.openFile ≠ none ∨ arriving faults (bytes text) = [] ∨
        (modeAtOpen umask prior (place.temp parent) = 0o600 ∧ faults.write = none ∧ faults.chmod = none ∧
          faults.rename = none)
  | _,_ => True

theorem stale_hidden {state : SaveState} (stale : Stale state) : Hidden state := by
  intro name file found fresh
  rw [stale name file found] at fresh
  cases fresh

theorem unsaved_stale (prior : Directory) : Stale (unsaved prior) := by
  intro name file found
  obtain ⟨entry,_,rfl⟩ := Option.map_eq_some_iff.mp found
  rfl

theorem put_stale {state : SaveState} (stale : Stale state) (name : String) {file : SavedFile} (old : file.fresh = false) :
    Stale (state.put name file) := by
  intro other entry found
  unfold SaveState.put at found
  split at found
  · cases found; exact old
  · exact stale other entry found

theorem put_hidden {state : SaveState} (stale : Stale state) (name : String) {file : SavedFile} (mode : file.mode = 0o600) :
    Hidden (state.put name file) := by
  intro other entry found fresh
  unfold SaveState.put at found
  split at found
  · cases found; exact mode
  · rw [stale other entry found] at fresh; cases fresh

theorem rename_all {P : SavedFile → Prop} {state : SaveState} (all : ∀ name file, state name = some file → P file)
    (source target : String) : ∀ name file, state.rename source target name = some file → P file := by
  intro name file found
  unfold SaveState.rename at found
  split at found
  · exact all source file found
  · split at found
    · cases found
    · exact all name file found

theorem put_at (state : SaveState) (name : String) (file : SavedFile) : state.put name file name = some file := if_pos rfl

theorem filling_last (umask : UInt32) (prior : Directory) (temp : String) (body : List UInt8) (n : Nat) :
    (filling umask prior temp body n).getLast? = some (filled umask prior temp (body.take n)) := by
  rw [filling,List.range_succ,List.map_append,← List.cons_append]
  exact List.getLast?_concat

theorem filling_states {umask : UInt32} {prior : Directory} {temp : String} {body : List UInt8} {n : Nat}
    {state : SaveState} (member : state ∈ filling umask prior temp body n) :
    state = unsaved prior ∨ ∃ k ≤ n, state = filled umask prior temp (body.take k) := by
  obtain rfl | later := List.mem_cons.mp member
  · exact .inl rfl
  · obtain ⟨k,within,rfl⟩ := List.mem_map.mp later
    exact .inr ⟨k,Nat.le_of_lt_succ (List.mem_range.mp within),rfl⟩

-- Each state of the write is stale as long as no byte has come, and hidden if the file is private.
theorem filling_stale {umask : UInt32} {prior : Directory} {temp : String} {body : List UInt8} {n : Nat}
    (none : body.take n = []) : ∀ state ∈ filling umask prior temp body n, Stale state := by
  intro state member
  obtain rfl | ⟨k,within,rfl⟩ := filling_states member
  · exact unsaved_stale prior
  · have empty : body.take k = [] := by
      rw [List.take_eq_nil_iff] at none ⊢
      exact none.imp (fun zero => by omega) id
    exact put_stale (unsaved_stale prior) temp (by rw [empty]; rfl)

theorem filling_hidden {umask : UInt32} {prior : Directory} {temp : String} {body : List UInt8} {n : Nat}
    (mode : modeAtOpen umask prior temp = 0o600) : ∀ state ∈ filling umask prior temp body n, Hidden state := by
  intro state member
  obtain rfl | ⟨k,within,rfl⟩ := filling_states member
  · exact stale_hidden (unsaved_stale prior)
  · exact put_hidden (unsaved_stale prior) temp mode

theorem last_member {states : List SaveState} {state : SaveState} (last : state ∈ states.getLast?) : state ∈ states :=
  List.mem_of_getLast? last

theorem stale_guarded {states : List SaveState} (outcome : Except ProfileError Unit) (stale : ∀ state ∈ states, Stale state) :
    PasswordsGuarded (states,outcome) :=
  ⟨fun state member => stale_hidden (stale state member),fun _ _ state last => stale state (last_member last)⟩

theorem unstarted_guarded (prior : Directory) (outcome : Except ProfileError Unit) :
    PasswordsGuarded ([unsaved prior],outcome) := by
  refine stale_guarded outcome fun state member => ?_
  rw [List.mem_singleton.mp member]
  exact unsaved_stale prior

theorem filled_fresh (umask : UInt32) (prior : Directory) (temp : String) {content : List UInt8} (arrived : content ≠ []) :
    ¬ Stale (filled umask prior temp content) := by
  intro stale
  have none := stale temp _ (put_at _ _ _)
  exact arrived (by simpa using none)

theorem closed_fresh (prior : Directory) (temp : String) {content : List UInt8} (arrived : content ≠ []) :
    ¬ Stale (closed prior temp content) := by
  intro stale
  have none := stale temp _ (put_at _ _ _)
  exact arrived (by simpa using none)

-- The state before the permissions are set shows the mode that the file was opened with.
theorem filled_mode {umask : UInt32} {prior : Directory} {temp : String} {content : List UInt8} (arrived : content ≠ [])
    (hidden : Hidden (filled umask prior temp content)) : modeAtOpen umask prior temp = 0o600 :=
  hidden temp _ (put_at _ _ _) (by simpa using arrived)

theorem filled_member (umask : UInt32) (prior : Directory) (temp : String) (body : List UInt8) (n : Nat) :
    filled umask prior temp (body.take n) ∈ filling umask prior temp body n :=
  List.mem_of_getLast? (filling_last umask prior temp body n)

-- A write that stops, and a chmod that fails, leave what has arrived.
theorem filling_guarded (umask : UInt32) (prior : Directory) (temp : String) (body : List UInt8) (n : Nat)
    (e : ProfileError) :
    PasswordsGuarded (filling umask prior temp body n,.error e) ↔ body.take n = [] := by
  constructor
  · intro guarded
    have stale := guarded.cleaned e rfl _ (filling_last umask prior temp body n)
    exact Decidable.byContradiction fun arrived => filled_fresh umask prior temp arrived stale
  · intro none
    exact stale_guarded _ (filling_stale none)

theorem unrenamed_guarded (umask : UInt32) (prior : Directory) (temp : String) (body : List UInt8) (e : ProfileError) :
    PasswordsGuarded (filling umask prior temp body body.length ++ [closed prior temp body],.error e) ↔ body = [] := by
  constructor
  · intro guarded
    have stale := guarded.cleaned e rfl _ List.getLast?_concat
    exact Decidable.byContradiction fun arrived => closed_fresh prior temp arrived stale
  · rintro rfl
    refine stale_guarded _ fun state member => ?_
    obtain before | last := List.mem_append.mp member
    · exact filling_stale rfl state before
    · rw [List.mem_singleton.mp last]
      exact put_stale (unsaved_stale prior) temp rfl

theorem renamed_guarded (umask : UInt32) (prior : Directory) (temp target : String) (body : List UInt8) :
    PasswordsGuarded (filling umask prior temp body body.length ++
        [closed prior temp body,(closed prior temp body).rename temp target],.ok ()) ↔
      body = [] ∨ modeAtOpen umask prior temp = 0o600 := by
  constructor
  · intro guarded
    refine Decidable.or_iff_not_imp_left.mpr fun arrived => ?_
    have member := filled_member umask prior temp body body.length
    rw [List.take_length] at member
    exact filled_mode arrived (guarded.hidden _ (List.mem_append_left _ member))
  · intro harmless
    refine ⟨fun state member => ?_,fun e failed => by cases failed⟩
    have private_ : Hidden (closed prior temp body) := put_hidden (unsaved_stale prior) temp rfl
    obtain before | last := List.mem_append.mp member
    · obtain rfl | mode := harmless
      · exact stale_hidden (filling_stale rfl state before)
      · exact filling_hidden mode state before
    · obtain rfl | last := List.mem_cons.mp last
      · exact private_
      · rw [List.mem_singleton.mp last]
        exact rename_all private_ temp target

theorem save_profiles_guarded (profiles : List HostProfile) (place : Place) (faults : SaveFaults) (umask : UInt32)
    (prior : Directory) :
    PasswordsGuarded (saveFiles bytes profiles place faults umask prior) ↔
      SavesPrivately bytes profiles place faults umask prior := by
  unfold saveFiles SavesPrivately
  cases F.toString profiles with
  | error e => exact iff_of_true (unstarted_guarded prior _) trivial
  | ok text =>
    cases place.path.parent with
    | none => exact iff_of_true (unstarted_guarded prior _) trivial
    | some parent =>
      cases faults.createDir with
      | some e => exact iff_of_true (unstarted_guarded prior _) (.inl (by simp))
      | none =>
        cases faults.openFile with
        | some e => exact iff_of_true (unstarted_guarded prior _) (.inr (.inl (by simp)))
        | none =>
          unfold arriving
          cases faults.write with
          | some stopped => simpa using filling_guarded umask prior (place.temp parent) (bytes text) stopped.1 _
          | none =>
            cases faults.chmod with
            | some e => simpa using filling_guarded umask prior (place.temp parent) (bytes text) (bytes text).length _
            | none =>
              cases faults.rename with
              | some e => simpa using unrenamed_guarded umask prior (place.temp parent) (bytes text) _
              | none => simpa using renamed_guarded umask prior (place.temp parent) place.path.display (bytes text)
end

-- One byte for each host, which is enough to see where the data is.
def marked (hosts : List HostProfile) : List UInt8 := hosts.map fun _ => 1

-- Nothing fails, and still all users can read the file until its permissions are set; with
-- a private umask a failing rename leaves the file behind.
theorem written_before_chmod :
    let place : Place := ⟨homePath,1,0⟩
    let temp := place.temp "/home/u/.perga"
    let run := saveFiles (F := plainToml) marked [agentHost "a"] place .none 0o022 fun _ => none
    let stopped := saveFiles (F := plainToml) marked [agentHost "a"] place
      {SaveFaults.none with rename := some "Permission denied"} 0o077 fun _ => none
    (run.2 = .ok () ∧ (∃ state ∈ run.1, state temp = some ⟨[1],0o644,true⟩) ∧ ¬ PasswordsGuarded run) ∧
      stopped.2.isOk = false ∧ (∃ state ∈ stopped.1.getLast?, state temp = some ⟨[1],0o600,true⟩) ∧
      ¬ PasswordsGuarded stopped := by
  intro place temp run stopped
  have shown : filled 0o022 (fun _ => none) temp [1] temp = some ⟨[1],0o644,true⟩ := put_at _ _ _
  have member : filled 0o022 (fun _ => none) temp [1] ∈ run.1 :=
    List.mem_cons_of_mem _ (List.mem_cons_of_mem _ List.mem_cons_self)
  have left : closed (fun _ => none) temp [1] ∈ stopped.1.getLast? := rfl
  have kept : closed (fun _ => none) temp [1] temp = some ⟨[1],0o600,true⟩ := put_at _ _ _
  refine ⟨⟨rfl,⟨_,member,shown⟩,fun guarded => ?_⟩,rfl,⟨_,left,kept⟩,fun guarded => ?_⟩
  · exact absurd (guarded.hidden _ member temp _ shown rfl) (by decide)
  · exact absurd (guarded.cleaned _ rfl _ left temp _ kept) (by decide)

end Perga.Profiles

namespace Perga

inductive AuthSpec where
  | agent
  | password (password : String)
  deriving DecidableEq, Repr

structure HostProfile where
  id : String
  name : String
  host : String
  port : UInt16
  user : String
  auth : AuthSpec
  deriving DecidableEq, Repr

inductive ProfileError where
  | io (message : String)
  | parse (message : String)
  | notFound (id : String)
  | conflict (message : String)
  | validation (message : String)
  deriving DecidableEq, Repr

-- The `toml` crate on `HostsFile` and `HostsFileOut`.
structure Toml where
  Text : Type
  toString : List HostProfile → Except String Text
  fromStr : Text → Except String (List HostProfile)
  roundtrip : ∀ hosts, ∃ text, toString hosts = .ok text ∧ fromStr text = .ok hosts

-- `parent` is what `path.parent()` displays as; `"/"` and the empty path have none.
structure HostsPath where
  display : String
  parent : Option String
  deriving DecidableEq, Repr

-- The target and the temporary files beside it, by their number.
structure Disk (F : Toml) where
  hosts : Option F.Text
  temps : Nat → Option F.Text

-- What the file system lets the steps of one call fail with.
structure Faults where
  read : Option String
  createDir : Option String
  write : Option String
  chmod : Option String
  rename : Option String
  deriving DecidableEq, Repr

def Faults.none : Faults := ⟨.none,.none,.none,.none,.none⟩

namespace Profiles
variable {F : Toml}

-- The characters of Unicode's `White_Space`, which `str::trim` takes off.
def whiteSpace (c : Char) : Bool :=
  let n := c.toNat
  (9 ≤ n && n ≤ 13) || n == 32 || n == 133 || n == 160 || n == 5760 || (8192 ≤ n && n ≤ 8202) || n == 8232 || n == 8233 ||
    n == 8239 || n == 8287 || n == 12288

def trimIsEmpty (s : String) : Bool := s.toList.all whiteSpace

def validateProfile (p : HostProfile) : Except ProfileError Unit :=
  if trimIsEmpty p.id then .error (.validation "id is empty")
  else if trimIsEmpty p.name then .error (.validation "name is empty")
  else if trimIsEmpty p.host then .error (.validation "host is empty")
  else if trimIsEmpty p.user then .error (.validation "user is empty")
  else if p.port == 0 then .error (.validation "port must be > 0")
  else
    match p.auth with
    | .password password =>
      if password.isEmpty then
        .error (.validation "password auth requires a non-empty password (leave field blank to use agent instead)")
      else .ok ()
    | .agent => .ok ()

def firstDuplicate (seen : List String) : List HostProfile → Option String
  | [] => none
  | h :: rest => if h.id ∈ seen then some h.id else firstDuplicate (h.id :: seen) rest

def loadProfilesFrom (path : HostsPath) (fault : Option String) (disk : Disk F) : Except ProfileError (List HostProfile) :=
  match fault with
  | some e => .error (.io ("read " ++ path.display ++ ": " ++ e))
  | none =>
    match disk.hosts with
    | none => .ok []
    | some text =>
      match F.fromStr text with
      | .error e => .error (.parse (path.display ++ ": " ++ e))
      | .ok hosts =>
        match firstDuplicate [] hosts with
        | some id => .error (.parse (path.display ++ ": duplicate host id '" ++ id ++ "'"))
        | none => .ok hosts

def findProfile (profiles : List HostProfile) (id : String) : Option HostProfile := profiles.find? fun p => p.id == id

-- The running number keeps two temporary files of the process apart.
def tempName (pid number : Nat) : String := ".perga-hosts.tmp." ++ toString pid ++ "." ++ toString number

def join (parent name : String) : String :=
  if parent.isEmpty then name else if parent.endsWith "/" then parent ++ name else parent ++ "/" ++ name

-- Where a call runs: the process and the number that its temporary file gets.
structure Place where
  path : HostsPath
  pid : Nat
  number : Nat
  deriving DecidableEq, Repr

def Place.temp (place : Place) (parent : String) : String := join parent (tempName place.pid place.number)

def Disk.put (disk : Disk F) (number : Nat) (text : Option F.Text) : Disk F :=
  {disk with temps := fun n => if n = number then text else disk.temps n}

-- `save_profiles_atomic` up to the temporary file with its permissions …
def stageProfiles (profiles : List HostProfile) (place : Place) (faults : Faults) (disk : Disk F) :
    Disk F × Except ProfileError String :=
  match F.toString profiles with
  | .error e => (disk,.error (.io ("serialize hosts.toml: " ++ e)))
  | .ok body =>
    match place.path.parent with
    | none => (disk,.error (.io ("hosts.toml path has no parent: " ++ place.path.display)))
    | some parent =>
      match faults.createDir with
      | some e => (disk,.error (.io ("create_dir_all " ++ parent ++ ": " ++ e)))
      | none =>
        match faults.write with
        | some e => (disk,.error (.io ("write " ++ place.temp parent ++ ": " ++ e)))
        | none =>
          match faults.chmod with
          | some e => (Disk.put disk place.number (some body),.error (.io ("chmod 0600 " ++ place.temp parent ++ ": " ++ e)))
          | none => (Disk.put disk place.number (some body),.ok (place.temp parent))

-- … and its renaming over the target.
def renameProfiles (temp : String) (place : Place) (faults : Faults) (disk : Disk F) : Disk F × Except ProfileError Unit :=
  let failed := fun e => ProfileError.io ("rename " ++ temp ++ " -> " ++ place.path.display ++ ": " ++ e)
  match faults.rename,disk.temps place.number with
  | some e,_ => (disk,.error (failed e))
  | none,none => (disk,.error (failed "No such file or directory (os error 2)"))
  | none,some body => ({Disk.put disk place.number none with hosts := some body},.ok ())

def saveProfilesAtomic (profiles : List HostProfile) (place : Place) (faults : Faults) (disk : Disk F) :
    Disk F × Except ProfileError Unit :=
  match stageProfiles profiles place faults disk with
  | (disk,.error e) => (disk,.error e)
  | (disk,.ok temp) => renameProfiles temp place faults disk

-- The three operations check their argument, load, change the list and save it.
def rewriteAt (check : Except ProfileError Unit) (change : List HostProfile → Except ProfileError (List HostProfile))
    (place : Place) (faults : Faults) (disk : Disk F) : Disk F × Except ProfileError Unit :=
  match check with
  | .error e => (disk,.error e)
  | .ok () =>
    match loadProfilesFrom place.path faults.read disk with
    | .error e => (disk,.error e)
    | .ok existing =>
      match change existing with
      | .error e => (disk,.error e)
      | .ok profiles => saveProfilesAtomic profiles place faults disk

def appended (profile : HostProfile) (existing : List HostProfile) : Except ProfileError (List HostProfile) :=
  if existing.any fun p => p.id == profile.id then
    .error (.conflict ("profile id '" ++ profile.id ++ "' already exists"))
  else .ok (existing ++ [profile])

def replaced (id : String) (updated : HostProfile) (existing : List HostProfile) : Except ProfileError (List HostProfile) :=
  match existing.findIdx? fun p => p.id == id with
  | none => .error (.notFound id)
  | some idx => .ok (existing.set idx updated)

def removed (id : String) (existing : List HostProfile) : Except ProfileError (List HostProfile) :=
  match existing.findIdx? fun p => p.id == id with
  | none => .error (.notFound id)
  | some idx => .ok (existing.eraseIdx idx)

def checkUpdate (id : String) (updated : HostProfile) : Except ProfileError Unit :=
  match validateProfile updated with
  | .error e => .error e
  | .ok () =>
    if updated.id ≠ id then
      .error (.validation ("cannot change profile id from '" ++ id ++ "' to '" ++ updated.id ++
        "' via update; delete + create instead"))
    else .ok ()

def createProfileAt (place : Place) (faults : Faults) (profile : HostProfile) (disk : Disk F) :
    Disk F × Except ProfileError HostProfile :=
  let out := rewriteAt (validateProfile profile) (appended profile) place faults disk
  (out.1,out.2.map fun _ => profile)

def updateProfileAt (place : Place) (faults : Faults) (id : String) (updated : HostProfile) (disk : Disk F) :
    Disk F × Except ProfileError HostProfile :=
  let out := rewriteAt (checkUpdate id updated) (replaced id updated) place faults disk
  (out.1,out.2.map fun _ => updated)

def deleteProfileAt (place : Place) (faults : Faults) (id : String) (disk : Disk F) : Disk F × Except ProfileError Unit :=
  rewriteAt (.ok ()) (removed id) place faults disk

inductive Request where
  | create (profile : HostProfile)
  | update (id : String) (updated : HostProfile)
  | delete (id : String)
  deriving DecidableEq, Repr

def Request.run (request : Request) (place : Place) (faults : Faults) (disk : Disk F) :
    Disk F × Except ProfileError (Option HostProfile) :=
  match request with
  | .create profile => ((createProfileAt place faults profile disk).1,(createProfileAt place faults profile disk).2.map some)
  | .update id updated =>
    ((updateProfileAt place faults id updated disk).1,(updateProfileAt place faults id updated disk).2.map some)
  | .delete id => ((deleteProfileAt place faults id disk).1,(deleteProfileAt place faults id disk).2.map fun _ => none)

def Request.check : Request → Except ProfileError Unit
  | .create profile => validateProfile profile
  | .update id updated => checkUpdate id updated
  | .delete _ => .ok ()

def Request.change : Request → List HostProfile → Except ProfileError (List HostProfile)
  | .create profile => appended profile
  | .update id updated => replaced id updated
  | .delete id => removed id

-- What a request that succeeds answers, which is also what it stores.
def Request.reply : Request → Option HostProfile
  | .create profile => some profile
  | .update _ updated => some updated
  | .delete _ => none

theorem run_rewrites (request : Request) (place : Place) (faults : Faults) (disk : Disk F) :
    request.run place faults disk =
      ((rewriteAt request.check request.change place faults disk).1,
        (rewriteAt request.check request.change place faults disk).2.map fun _ => request.reply) := by
  have twice : ∀ (outcome : Except ProfileError Unit) (profile : HostProfile),
      (outcome.map fun _ => profile).map some = outcome.map fun _ => some profile := by
    intro outcome profile
    cases outcome <;> rfl
  cases request with
  | create profile => simp only [Request.run,createProfileAt,twice]; rfl
  | update id updated => simp only [Request.run,updateProfileAt,twice]; rfl
  | delete id => rfl

-- What comes of writing the temporary file does not depend on what is on the disk.
theorem stageProfiles_spec (F : Toml) (profiles : List HostProfile) (place : Place) (faults : Faults) :
    (∃ e, ∀ disk : Disk F, ∃ after, stageProfiles profiles place faults disk = (after,.error e) ∧ after.hosts = disk.hosts ∧
      ∀ n, n ≠ place.number → after.temps n = disk.temps n) ∨
    ∃ temp body, F.toString profiles = .ok body ∧
      ∀ disk : Disk F, stageProfiles profiles place faults disk = (Disk.put disk place.number (some body),.ok temp) := by
  simp only [stageProfiles]
  cases F.toString profiles with
  | error e => exact .inl ⟨_,fun disk => ⟨disk,rfl,rfl,fun _ _ => rfl⟩⟩
  | ok body =>
      cases place.path.parent with
      | none => exact .inl ⟨_,fun disk => ⟨disk,rfl,rfl,fun _ _ => rfl⟩⟩
      | some parent =>
          cases faults.createDir with
          | some e => exact .inl ⟨_,fun disk => ⟨disk,rfl,rfl,fun _ _ => rfl⟩⟩
          | none =>
              cases faults.write with
              | some e => exact .inl ⟨_,fun disk => ⟨disk,rfl,rfl,fun _ _ => rfl⟩⟩
              | none =>
                  cases faults.chmod with
                  | some e => exact .inl ⟨_,fun disk => ⟨_,rfl,rfl,fun n other => if_neg other⟩⟩
                  | none => exact .inr ⟨_,body,rfl,fun disk => rfl⟩

-- A save that fails, at whatever step, has not touched the target; one that succeeds
-- has put the serialised list there.
inductive Saves (profiles : List HostProfile) (disk : Disk F) : Disk F × Except ProfileError Unit → Prop where
  | failed (after : Disk F) (e : ProfileError) (same : after.hosts = disk.hosts) : Saves profiles disk (after,.error e)
  | saved (after : Disk F) (body : F.Text) (written : F.toString profiles = .ok body) (put : after.hosts = some body) :
      Saves profiles disk (after,.ok ())

theorem saveProfilesAtomic_saves (profiles : List HostProfile) (place : Place) (faults : Faults) (disk : Disk F) :
    Saves profiles disk (saveProfilesAtomic profiles place faults disk) := by
  unfold saveProfilesAtomic
  rcases stageProfiles_spec F profiles place faults with ⟨e,failed⟩ | ⟨temp,body,written,staged⟩
  · obtain ⟨after,outcome,same,_⟩ := failed disk
    rw [outcome]
    exact .failed after e same
  · rw [staged]
    simp only [renameProfiles,Disk.put,if_true]
    cases faults.rename with
    | some e => exact .failed _ _ rfl
    | none => exact .saved _ body written rfl

inductive Rewrites (request : Request) (place : Place) (faults : Faults) (disk : Disk F) :
    Disk F × Except ProfileError Unit → Prop where
  | failed (after : Disk F) (e : ProfileError) (same : after.hosts = disk.hosts) : Rewrites request place faults disk (after,.error e)
  | saved (after : Disk F) (existing profiles : List HostProfile) (body : F.Text) (checked : request.check = .ok ())
      (loaded : loadProfilesFrom place.path faults.read disk = .ok existing) (changed : request.change existing = .ok profiles)
      (written : F.toString profiles = .ok body) (put : after.hosts = some body) : Rewrites request place faults disk (after,.ok ())

theorem rewriteAt_rewrites (request : Request) (place : Place) (faults : Faults) (disk : Disk F) :
    Rewrites request place faults disk (rewriteAt request.check request.change place faults disk) := by
  unfold rewriteAt
  cases checked : request.check with
  | error e => exact .failed _ _ rfl
  | ok done =>
      cases loaded : loadProfilesFrom place.path faults.read disk with
      | error e => exact .failed _ _ rfl
      | ok existing =>
          cases changed : request.change existing with
          | error e => simp only [changed]; exact .failed _ _ rfl
          | ok profiles =>
              simp only [changed]
              have saves := saveProfilesAtomic_saves profiles place faults disk
              generalize saveProfilesAtomic profiles place faults disk = outcome at saves
              cases saves with
              | failed after e same => exact .failed after e same
              | saved after body written put => exact .saved after existing profiles body checked loaded changed written put

-- No step fails, and the target has a directory to be written in.
def Undisturbed (path : HostsPath) (faults : Faults) : Prop := path.parent ≠ none ∧ faults = .none

theorem saveProfilesAtomic_undisturbed (profiles : List HostProfile) (place : Place) (faults : Faults)
    (calm : Undisturbed place.path faults) (disk : Disk F) : (saveProfilesAtomic profiles place faults disk).2 = .ok () := by
  obtain ⟨placed,rfl⟩ := calm
  obtain ⟨body,written,_⟩ := F.roundtrip profiles
  simp only [saveProfilesAtomic,stageProfiles,written,Faults.none]
  cases found : place.path.parent with
  | none => exact absurd found placed
  | some parent => simp only [renameProfiles,Disk.put,if_true]

theorem rewriteAt_undisturbed (request : Request) (place : Place) (faults : Faults) (calm : Undisturbed place.path faults)
    (disk : Disk F) (loaded : loadProfilesFrom place.path none disk = .ok existing) :
    (rewriteAt request.check request.change place faults disk).2 =
      request.check.bind fun _ => (request.change existing).map fun _ => () := by
  have read : faults.read = none := by rw [calm.2]; rfl
  unfold rewriteAt
  cases request.check with
  | error e => rfl
  | ok done =>
      rw [read,loaded]
      cases changed : request.change existing with
      | error e => simp only [changed]; rfl
      | ok profiles => simp only [changed]; exact saveProfilesAtomic_undisturbed profiles place faults calm disk

end Profiles
end Perga

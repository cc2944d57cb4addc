import Perga.Profiles
import Perga.Runs

namespace Perga.Profiles
variable {F : Toml}

def load (path : HostsPath) (disk : Disk F) : Except ProfileError (List HostProfile) := loadProfilesFrom path none disk

def ids (profiles : List HostProfile) : List String := profiles.map HostProfile.id

structure Call where
  request : Request
  pid : Nat
  number : Nat
  faults : Faults
  deriving DecidableEq, Repr

def Call.run (call : Call) (path : HostsPath) (disk : Disk F) : Disk F × Except ProfileError (Option HostProfile) :=
  call.request.run ⟨path,call.pid,call.number⟩ call.faults disk

def step (path : HostsPath) (disk : Disk F) (call : Call) : Disk F := (call.run path disk).1

def Distinct (path : HostsPath) (disk : Disk F) : Prop := ∃ existing, load path disk = .ok existing ∧ (ids existing).Nodup

-- The list as an ordered map from ids: an entry at the end, in its place, or gone.
def Effect (existing next : List HostProfile) : Request → Prop
  | .create profile => next = existing ++ [profile]
  | .update id updated => ∃ before old after, existing = before ++ old :: after ∧ old.id = id ∧ next = before ++ updated :: after
  | .delete id => ∃ before old after, existing = before ++ old :: after ∧ old.id = id ∧ next = before ++ after

inductive Verdict where
  | accepted
  | validation
  | conflict
  | notFound
  | failure
  deriving DecidableEq, Repr

def verdict (existing : List HostProfile) : Request → Verdict
  | .create profile =>
    match validateProfile profile with
    | .error _ => .validation
    | .ok _ => if profile.id ∈ ids existing then .conflict else .accepted
  | .update id updated =>
    match validateProfile updated with
    | .error _ => .validation
    | .ok _ => if updated.id ≠ id then .validation else if id ∈ ids existing then .accepted else .notFound
  | .delete id => if id ∈ ids existing then .accepted else .notFound

def outcome {α : Type} : Except ProfileError α → Verdict
  | .ok _ => .accepted
  | .error (.validation _) => .validation
  | .error (.conflict _) => .conflict
  | .error (.notFound _) => .notFound
  | .error (.io _) => .failure
  | .error (.parse _) => .failure

def Request.target : Request → String
  | .create profile => profile.id
  | .update id _ => id
  | .delete id => id

-- What one call does to a store that loads.
def Lawful (path : HostsPath) (disk : Disk F) (call : Call) : Prop :=
  ∀ existing, load path disk = .ok existing →
    (∀ reply, (call.run path disk).2 = .ok reply →
      reply = call.request.reply ∧ (∀ profile, reply = some profile → validateProfile profile = .ok ()) ∧
        ∃ next, load path (call.run path disk).1 = .ok next ∧ Effect existing next call.request ∧
          findProfile next call.request.target = reply ∧
          ∀ other, other ≠ call.request.target → findProfile next other = findProfile existing other) ∧
    (∀ e, (call.run path disk).2 = .error e → load path (call.run path disk).1 = load path disk) ∧
    (Undisturbed path call.faults → outcome (call.run path disk).2 = verdict existing call.request)

theorem load_same (path : HostsPath) (first second : Disk F) (same : first.hosts = second.hosts) :
    load path first = load path second := by
  simp only [load,loadProfilesFrom,same]

theorem firstDuplicate_none (seen : List String) (hosts : List HostProfile) :
    firstDuplicate seen hosts = none ↔ (ids hosts).Nodup ∧ ∀ h ∈ hosts, h.id ∉ seen := by
  induction hosts generalizing seen with
  | nil => exact iff_of_true rfl ⟨.nil,fun h member => (by cases member)⟩
  | cons h rest ih =>
      simp only [firstDuplicate]
      split
      · rename_i repeated
        exact iff_of_false (by simp) fun distinct => distinct.2 h List.mem_cons_self repeated
      · rename_i fresh
        rw [ih]
        constructor
        · intro rest_distinct
          obtain ⟨nodup,apart⟩ := rest_distinct
          refine ⟨List.nodup_cons.mpr ⟨fun found => ?_,nodup⟩,fun p member => ?_⟩
          · obtain ⟨p,member,same⟩ := List.mem_map.mp found
            exact apart p member (same ▸ List.mem_cons_self)
          · rcases List.mem_cons.mp member with rfl | later
            · exact fresh
            · exact fun found => apart p later (List.mem_cons_of_mem _ found)
        · intro distinct
          obtain ⟨nodup,apart⟩ := distinct
          obtain ⟨first,nodup⟩ := List.nodup_cons.mp nodup
          refine ⟨nodup,fun p member found => ?_⟩
          rcases List.mem_cons.mp found with same | old
          · exact first (same ▸ List.mem_map.mpr ⟨p,member,rfl⟩)
          · exact apart p (List.mem_cons_of_mem _ member) old

theorem load_written {path : HostsPath} {disk : Disk F} {body : F.Text} {profiles : List HostProfile}
    (put : disk.hosts = some body) (written : F.toString profiles = .ok body) (nodup : (ids profiles).Nodup) :
    load path disk = .ok profiles := by
  obtain ⟨text,same,parsed⟩ := F.roundtrip profiles
  cases written.symm.trans same
  simp only [load,loadProfilesFrom,put,parsed,(firstDuplicate_none [] profiles).mpr ⟨nodup,fun _ _ => List.not_mem_nil⟩]

theorem load_distinct {path : HostsPath} {disk : Disk F} (loaded : load path disk = .ok existing) : (ids existing).Nodup := by
  simp only [load,loadProfilesFrom] at loaded
  split at loaded
  · cases loaded; exact .nil
  · split at loaded
    · cases loaded
    · split at loaded
      · cases loaded
      · rename_i unique
        cases loaded
        exact ((firstDuplicate_none [] existing).mp unique).1

theorem read_load {path : HostsPath} {fault : Option String} {disk : Disk F}
    (loaded : loadProfilesFrom path fault disk = .ok existing) : load path disk = .ok existing := by
  cases fault with
  | some e => cases loaded
  | none => exact loaded

-- The index that a search by id yields splits the list at the entry with that id.
theorem found_split {id : String} (found : existing.findIdx? (fun (p : HostProfile) => p.id == id) = some idx) :
    ∃ before old after, existing = before ++ old :: after ∧ old.id = id ∧ before.length = idx := by
  obtain ⟨bound,same,_⟩ := List.findIdx?_eq_some_iff_getElem.mp found
  refine ⟨existing.take idx,existing[idx],existing.drop (idx+1),?_,eq_of_beq same,?_⟩
  · rw [← List.drop_eq_getElem_cons bound,List.take_append_drop]
  · exact List.length_take_of_le (Nat.le_of_lt bound)

theorem found_none {id : String} (absent : existing.findIdx? (fun (p : HostProfile) => p.id == id) = none) :
    id ∉ ids existing := by
  intro found
  obtain ⟨p,member,same⟩ := List.mem_map.mp found
  have other := List.findIdx?_eq_none_iff.mp absent p member
  rw [same,beq_self_eq_true] at other
  cases other

theorem appended_effect (changed : appended profile existing = .ok next) (unique : (ids existing).Nodup) :
    next = existing ++ [profile] ∧ (ids next).Nodup := by
  simp only [appended] at changed
  split at changed
  · cases changed
  · rename_i absent
    cases changed
    refine ⟨rfl,?_⟩
    simp only [ids,List.map_append,List.map_cons,List.map_nil]
    refine List.nodup_append.mpr ⟨unique,List.nodup_cons.mpr ⟨List.not_mem_nil,.nil⟩,fun id old other new same => ?_⟩
    obtain ⟨p,member,rfl⟩ := List.mem_map.mp old
    cases List.mem_singleton.mp new
    exact absent (List.any_eq_true.mpr ⟨p,member,beq_iff_eq.mpr same⟩)

theorem replaced_effect {id : String} (changed : replaced id updated existing = .ok next) (kept : updated.id = id)
    (unique : (ids existing).Nodup) : Effect existing next (.update id updated) ∧ (ids next).Nodup := by
  simp only [replaced] at changed
  split at changed
  · cases changed
  · rename_i idx found
    cases changed
    obtain ⟨before,old,after,rfl,same,rfl⟩ := found_split found
    have put : (before ++ old :: after).set before.length updated = before ++ updated :: after := by
      rw [List.set_append_right _ _ (Nat.le_refl _),Nat.sub_self]
      rfl
    rw [put]
    refine ⟨⟨before,old,after,rfl,same,rfl⟩,?_⟩
    have ids_same : ids (before ++ updated :: after) = ids (before ++ old :: after) := by
      simp only [ids,List.map_append,List.map_cons,same,kept]
    rw [ids_same]
    exact unique

theorem removed_effect {id : String} (changed : removed id existing = .ok next) (unique : (ids existing).Nodup) :
    Effect existing next (.delete id) ∧ (ids next).Nodup := by
  simp only [removed] at changed
  split at changed
  · cases changed
  · rename_i idx found
    cases changed
    obtain ⟨before,old,after,rfl,same,rfl⟩ := found_split found
    have out : (before ++ old :: after).eraseIdx before.length = before ++ after := by
      rw [List.eraseIdx_append_of_length_le (Nat.le_refl _),Nat.sub_self]
      rfl
    rw [out]
    refine ⟨⟨before,old,after,rfl,same,rfl⟩,?_⟩
    have thinner : (before ++ after).Sublist (before ++ old :: after) := (List.sublist_cons_self old after).append_left before
    exact List.Nodup.sublist (thinner.map HostProfile.id) unique

theorem checkUpdate_ok {id : String} (checked : checkUpdate id updated = .ok ()) :
    validateProfile updated = .ok () ∧ updated.id = id := by
  simp only [checkUpdate] at checked
  split at checked
  · cases checked
  · rename_i valid
    split at checked
    · cases checked
    · rename_i same
      exact ⟨valid,Decidable.of_not_not same⟩

theorem checked_valid (request : Request) (checked : request.check = .ok ()) (stored : request.reply = some profile) :
    validateProfile profile = .ok () := by
  cases request with
  | create p => cases stored; exact checked
  | update id updated => cases stored; exact (checkUpdate_ok checked).1
  | delete id => cases stored

theorem change_effect (request : Request) (checked : request.check = .ok ()) (changed : request.change existing = .ok next)
    (unique : (ids existing).Nodup) : Effect existing next request ∧ (ids next).Nodup := by
  cases request with
  | create profile => exact appended_effect changed unique
  | update id updated => exact replaced_effect changed (checkUpdate_ok checked).2 unique
  | delete id => exact removed_effect changed unique

theorem validateProfile_error (failed : validateProfile profile = .error e) : ∃ message, e = .validation message := by
  simp only [validateProfile] at failed
  repeat' split at failed
  all_goals first | exact ⟨_,(Except.error.inj failed).symm⟩ | cases failed

theorem found_verdict {id : String} (change : Except ProfileError (List HostProfile))
    (absent : existing.findIdx? (fun (p : HostProfile) => p.id == id) = none → change = .error (.notFound id))
    (present : ∀ idx, existing.findIdx? (fun (p : HostProfile) => p.id == id) = some idx → ∃ next, change = .ok next) :
    outcome (change.map fun _ => ()) = if id ∈ ids existing then .accepted else .notFound := by
  cases found : existing.findIdx? fun (p : HostProfile) => p.id == id with
  | none =>
      rw [absent found,if_neg (found_none found)]
      rfl
  | some idx =>
      obtain ⟨next,changed⟩ := present idx found
      obtain ⟨before,old,after,rfl,same,_⟩ := found_split found
      have member : id ∈ ids (before ++ old :: after) :=
        List.mem_map.mpr ⟨old,List.mem_append_right before List.mem_cons_self,same⟩
      rw [changed,if_pos member]
      rfl

-- Which of the four answers the two checks of a request come to.
theorem checks_verdict (request : Request) (existing : List HostProfile) :
    outcome (request.check.bind fun _ => (request.change existing).map fun _ => ()) = verdict existing request := by
  cases request with
  | create profile =>
      simp only [Request.check,Request.change,verdict]
      cases checked : validateProfile profile with
      | error e =>
          obtain ⟨message,rfl⟩ := validateProfile_error checked
          rfl
      | ok done =>
          have present : (existing.any fun p => p.id == profile.id) = true ↔ profile.id ∈ ids existing := by
            simp only [List.any_eq_true,beq_iff_eq,ids,List.mem_map]
          by_cases old : profile.id ∈ ids existing
          · simp only [Except.bind,appended,present.mpr old,old,if_true]
            rfl
          · simp only [Except.bind,appended,mt present.mp old,old,if_false]
            rfl
  | update id updated =>
      simp only [Request.check,Request.change,verdict,checkUpdate]
      cases checked : validateProfile updated with
      | error e =>
          obtain ⟨message,rfl⟩ := validateProfile_error checked
          rfl
      | ok done =>
          by_cases kept : updated.id = id
          · simp only [kept,ne_eq,not_true_eq_false,if_false]
            apply found_verdict (replaced id updated existing)
            · intro absent
              simp only [replaced,absent]
            · intro idx found
              exact ⟨existing.set idx updated,by simp only [replaced,found]⟩
          · simp only [kept,ne_eq,not_false_eq_true,if_true]
            rfl
  | delete id =>
      apply found_verdict (removed id existing)
      · intro absent
        simp only [removed,absent]
      · intro idx found
        exact ⟨existing.eraseIdx idx,by simp only [removed,found]⟩

theorem findProfile_absent {id : String} (missing : id ∉ ids profiles) : findProfile profiles id = none := by
  apply List.find?_eq_none.mpr
  intro p member same
  exact missing (List.mem_map.mpr ⟨p,member,eq_of_beq same⟩)

theorem findProfile_append (first second : List HostProfile) (id : String) :
    findProfile (first ++ second) id = (findProfile first id).or (findProfile second id) := List.find?_append

theorem findProfile_cons (p : HostProfile) (rest : List HostProfile) (id : String) :
    findProfile (p :: rest) id = if p.id = id then some p else findProfile rest id := by
  simp only [findProfile,List.find?_cons]
  by_cases same : p.id = id
  · rw [if_pos same,beq_iff_eq.mpr same]
  · rw [if_neg same,beq_eq_false_iff_ne.mpr same]

-- The lookup by id after a request: what it stored under its id, all else as before.
theorem findProfile_effect (request : Request) (checked : request.check = .ok ()) (effect : Effect existing next request)
    (unique : (ids existing).Nodup) (still : (ids next).Nodup) :
    findProfile next request.target = request.reply ∧
      ∀ other, other ≠ request.target → findProfile next other = findProfile existing other := by
  have around : ∀ (before : List HostProfile) (old : HostProfile) after, (ids (before ++ old :: after)).Nodup →
      old.id ∉ ids before ∧ old.id ∉ ids after := by
    intro before old after distinct
    simp only [ids,List.map_append,List.map_cons] at distinct
    obtain ⟨_,tail,apart⟩ := List.nodup_append.mp distinct
    exact ⟨fun found => apart _ found _ List.mem_cons_self rfl,(List.nodup_cons.mp tail).1⟩
  cases request with
  | create profile =>
      cases effect
      have new := (around existing profile [] still).1
      refine ⟨?_,fun other apart => ?_⟩
      · rw [findProfile_append,findProfile_cons,Request.target,findProfile_absent new,if_pos rfl]
        rfl
      · have other_id : profile.id ≠ other := Ne.symm apart
        rw [findProfile_append,findProfile_cons,if_neg other_id]
        exact Option.or_none
  | update id updated =>
      obtain ⟨before,old,after,rfl,rfl,rfl⟩ := effect
      have kept := (checkUpdate_ok checked).2
      have apart := (around before old after unique).1
      refine ⟨?_,fun other differs => ?_⟩
      · rw [findProfile_append,findProfile_cons,Request.target,findProfile_absent apart,if_pos kept]
        rfl
      · have other_id : old.id ≠ other := Ne.symm differs
        have other_new : updated.id ≠ other := kept ▸ other_id
        rw [findProfile_append,findProfile_append,findProfile_cons,findProfile_cons,if_neg other_new,if_neg other_id]
  | delete id =>
      obtain ⟨before,old,after,rfl,rfl,rfl⟩ := effect
      obtain ⟨early,late⟩ := around before old after unique
      refine ⟨?_,fun other differs => ?_⟩
      · rw [findProfile_append,Request.target,findProfile_absent early,findProfile_absent late]
        rfl
      · have other_id : old.id ≠ other := Ne.symm differs
        rw [findProfile_append,findProfile_append,findProfile_cons,if_neg other_id]

theorem run_lawful (path : HostsPath) (disk : Disk F) (call : Call) : Lawful path disk call := by
  obtain ⟨request,pid,number,faults⟩ := call
  intro existing loaded
  have calm_outcome := fun calm => rewriteAt_undisturbed request ⟨path,pid,number⟩ faults calm disk loaded
  have rewrites := rewriteAt_rewrites request ⟨path,pid,number⟩ faults disk
  simp only [Call.run,run_rewrites]
  generalize rewriteAt request.check request.change ⟨path,pid,number⟩ faults disk = out at calm_outcome rewrites
  refine ⟨?_,?_,fun calm => ?_⟩
  · intro reply accepted
    cases rewrites with
    | failed after e same => cases accepted
    | saved after profiles next body checked read changed written put =>
        cases accepted
        cases loaded.symm.trans (read_load read)
        have unique := load_distinct loaded
        obtain ⟨effect,nodup⟩ := change_effect request checked changed unique
        exact ⟨rfl,fun profile stored => checked_valid request checked stored,next,load_written put written nodup,effect,
          findProfile_effect request checked effect unique nodup⟩
  · intro e rejected
    cases rewrites with
    | failed after e same => exact load_same path after disk same
    | saved after profiles next body checked read changed written put => cases rejected
  · have same : outcome (out.2.map fun _ => request.reply) = outcome out.2 := by
      cases out.2 with
      | ok done => rfl
      | error e => cases e <;> rfl
    rw [same,calm_outcome calm]
    exact checks_verdict request existing

theorem step_distinct (path : HostsPath) (disk : Disk F) (call : Call) (distinct : Distinct path disk) :
    Distinct path (step path disk call) := by
  obtain ⟨existing,loaded,nodup⟩ := distinct
  obtain ⟨accepted,rejected,_⟩ := run_lawful path disk call existing loaded
  cases answered : (call.run path disk).2 with
  | ok reply =>
      obtain ⟨_,_,next,later,_⟩ := accepted reply answered
      exact ⟨next,later,load_distinct later⟩
  | error e => exact ⟨existing,(rejected e answered).trans loaded,nodup⟩

-- Whatever is called one after another, and whichever steps fail, the file is an ordered
-- map with distinct ids, and each call does to it what it says.
theorem store_faithful (path : HostsPath) (disk : Disk F) (start : ∃ existing, load path disk = .ok existing) (calls : List Call) :
    StepRuns.Throughout (step path) (Distinct path) disk calls ∧ StepRuns.Along (step path) (Lawful path) disk calls := by
  obtain ⟨existing,loaded⟩ := start
  constructor
  · exact StepRuns.run_throughout (Distinct path) calls ⟨existing,loaded,load_distinct loaded⟩ (step_distinct path) fun _ distinct => distinct
  · exact StepRuns.run_along (fun _ => True) calls trivial fun disk call _ => ⟨run_lawful path disk call,trivial⟩

-- A text that is the list it was written from.
def plainToml : Toml where
  Text := List HostProfile
  toString := .ok
  fromStr := .ok
  roundtrip hosts := ⟨hosts,rfl,rfl⟩

def homePath : HostsPath := ⟨"/home/u/.perga/hosts.toml",some "/home/u/.perga"⟩

def absent : Disk plainToml := ⟨none,fun _ => none⟩

def agentHost (id : String) : HostProfile := ⟨id,id,"10.0.0.1",22,"u",.agent⟩

def editing : List Call :=
  [⟨.create (agentHost "a"),1,0,.none⟩,⟨.create (agentHost "b"),1,1,.none⟩,⟨.update "a" {agentHost "a" with port := 2222},1,2,.none⟩,
    ⟨.delete "b",1,3,{Faults.none with rename := some "Permission denied"}⟩]

theorem store_faithful_editing :
    StepRuns.Throughout (step homePath) (Distinct homePath) absent editing ∧
      StepRuns.Along (step homePath) (Lawful homePath) absent editing ∧
      (editing.foldl (step homePath) absent).hosts = some [{agentHost "a" with port := 2222},agentHost "b"] := by
  obtain ⟨distinct,lawful⟩ := store_faithful homePath absent ⟨[],rfl⟩ editing
  exact ⟨distinct,lawful,rfl⟩

end Perga.Profiles

import Perga.ProfileStore
import Perga.SerialOrder

namespace Perga.Profiles

-- How far a request has come. `seen` is a record of the list that it loaded.
inductive Phase where
  | issued
  | loaded (seen : List HostProfile)
  | built (seen profiles : List HostProfile)
  | staged (seen profiles : List HostProfile) (temp : String)
  | done (result : Except ProfileError (Option HostProfile))

-- A request that a handler has taken, and what the file system will do to it.
structure Issued where
  request : Request
  faults : Faults
  deriving DecidableEq, Repr

structure World (F : Toml) where
  disk : Disk F
  phase : Nat → Phase

def World.at {F : Toml} (w : World F) (i : Nat) (phase : Phase) (disk : Disk F) : World F :=
  ⟨disk,fun j => if j = i then phase else w.phase j⟩

-- Requests have numbers, and the number is the one of the temporary file.
variable {F : Toml} (path : HostsPath) (pid : Nat) (issued : Nat → Issued)

-- The next step of request `i`: load, build, write the temporary file, rename it.
def advance (w : World F) (i : Nat) : World F :=
  let request := (issued i).request
  let faults := (issued i).faults
  let place : Place := ⟨path,pid,i⟩
  match w.phase i with
  | .issued =>
    match request.check with
    | .error e => w.at i (.done (.error e)) w.disk
    | .ok _ =>
      match loadProfilesFrom path faults.read w.disk with
      | .error e => w.at i (.done (.error e)) w.disk
      | .ok existing => w.at i (.loaded existing) w.disk
  | .loaded seen =>
    match request.change seen with
    | .error e => w.at i (.done (.error e)) w.disk
    | .ok profiles => w.at i (.built seen profiles) w.disk
  | .built seen profiles =>
    match stageProfiles profiles place faults w.disk with
    | (disk,.error e) => w.at i (.done (.error e)) disk
    | (disk,.ok temp) => w.at i (.staged seen profiles temp) disk
  | .staged _ _ temp =>
    let out := renameProfiles temp place faults w.disk
    w.at i (.done (out.2.map fun _ => request.reply)) out.1
  | .done _ => w

def result (w : World F) (i : Nat) : Option (Except ProfileError (Option HostProfile)) :=
  match w.phase i with
  | .done result => some result
  | _ => none

-- The whole call on a file that nothing else touches.
def alone (i : Nat) (hosts : Option F.Text) : Option F.Text × Except ProfileError (Option HostProfile) :=
  let out := (issued i).request.run ⟨path,pid,i⟩ (issued i).faults ⟨hosts,fun _ => none⟩
  (out.1.hosts,out.2)

-- The file and the answers are those of the finished requests run one after another.
def Serialisable (start : Disk F) (w : World F) : Prop :=
  ∃ order, SerialOrder.Serial (alone path pid issued) start.hosts w.disk.hosts (result w) order

-- A rename that will not fail finds the list that its request loaded.
def Fresh (w : World F) (i : Nat) : Prop :=
  ∀ seen profiles temp, w.phase i = .staged seen profiles temp → (issued i).faults.rename = none → load path w.disk = .ok seen

-- What a request holds on to between its steps.
def Holds (order : List Nat) (start : Disk F) (w : World F) (i : Nat) : Prop :=
  let seenAt := fun seen => (issued i).request.check = .ok () ∧ (issued i).faults.read = none ∧
    ∃ hosts, SerialOrder.Passed (alone path pid issued) start.hosts order hosts ∧ load (F := F) path ⟨hosts,fun _ => none⟩ = .ok seen
  match w.phase i with
  | .issued => True
  | .loaded seen => seenAt seen
  | .built seen profiles => seenAt seen ∧ (issued i).request.change seen = .ok profiles
  | .staged seen profiles temp => seenAt seen ∧ (issued i).request.change seen = .ok profiles ∧
      ∃ body, w.disk.temps i = some body ∧
        ∀ disk : Disk F, stageProfiles profiles ⟨path,pid,i⟩ (issued i).faults disk = (Disk.put disk i (some body),.ok temp)
  | .done _ => True

def Served (start : Disk F) (w : World F) : Prop :=
  ∃ order, SerialOrder.Serial (alone path pid issued) start.hosts w.disk.hosts (result w) order ∧
    ∀ i, Holds path pid issued order start w i

variable {path : HostsPath} {pid : Nat} {issued : Nat → Issued} {start : Disk F} {w : World F} {i : Nat}

theorem loadProfilesFrom_same (path : HostsPath) (fault : Option String) (first second : Disk F) (same : first.hosts = second.hosts) :
    loadProfilesFrom path fault first = loadProfilesFrom path fault second := by
  simp only [loadProfilesFrom,same]

theorem result_done (answer : Except ProfileError (Option HostProfile)) (disk : Disk F) :
    result (w.at i (.done answer) disk) = SerialOrder.answered (result w) i answer := by
  funext j
  simp only [result,World.at,SerialOrder.answered]
  split
  · rename_i found
    split at found
    · rename_i same
      rw [if_pos same]
      cases found
      rfl
    · rename_i other
      rw [if_neg other,found]
  · rename_i busy
    split at busy
    · exact absurd rfl (busy answer)
    · rename_i other
      rw [if_neg other]
      split
      · rename_i found
        exact absurd found (busy _)
      · rfl

theorem result_busy (busy : result w i = none) (phase : Phase) (more : ∀ answer, phase ≠ .done answer) (disk : Disk F) :
    result (w.at i phase disk) = result w := by
  funext j
  by_cases same : j = i
  · subst same
    rw [busy]
    simp only [result,World.at,if_true]
  · simp only [result,World.at,same,if_false]

-- Another request's step leaves alone what this one holds on to.
theorem holds_kept {order later : List Nat} {next : World F} {j : Nat} (holds : Holds path pid issued order start w j)
    (phase : next.phase j = w.phase j) (temps : next.disk.temps j = w.disk.temps j)
    (passed : ∀ hosts, SerialOrder.Passed (alone path pid issued) start.hosts order hosts →
      SerialOrder.Passed (alone path pid issued) start.hosts later hosts) : Holds path pid issued later start next j := by
  unfold Holds at holds ⊢
  rw [phase,temps]
  cases found : w.phase j with
  | issued => trivial
  | done answer => trivial
  | loaded seen =>
      rw [found] at holds
      obtain ⟨checked,read,hosts,at_,loads⟩ := holds
      exact ⟨checked,read,hosts,passed hosts at_,loads⟩
  | built seen profiles =>
      rw [found] at holds
      obtain ⟨⟨checked,read,hosts,at_,loads⟩,changed⟩ := holds
      exact ⟨⟨checked,read,hosts,passed hosts at_,loads⟩,changed⟩
  | staged seen profiles temp =>
      rw [found] at holds
      obtain ⟨⟨checked,read,hosts,at_,loads⟩,rest⟩ := holds
      exact ⟨⟨checked,read,hosts,passed hosts at_,loads⟩,rest⟩

theorem at_phase {phase : Phase} {disk : Disk F} : (w.at i phase disk).phase i = phase := if_pos rfl

theorem at_other {phase : Phase} {disk : Disk F} (other : j ≠ i) : (w.at i phase disk).phase j = w.phase j := if_neg other

-- A request goes on; nothing is decided yet.
theorem held_served {order : List Nat}
    (serial : SerialOrder.Serial (alone path pid issued) start.hosts w.disk.hosts (result w) order)
    (held : ∀ i, Holds path pid issued order start w i) (busy : result w i = none) (phase : Phase)
    (more : ∀ answer, phase ≠ .done answer) (disk : Disk F) (hosts : disk.hosts = w.disk.hosts)
    (temps : ∀ n, n ≠ i → disk.temps n = w.disk.temps n) (holds : Holds path pid issued order start (w.at i phase disk) i) :
    Served path pid issued start (w.at i phase disk) := by
  refine ⟨order,?_,fun j => ?_⟩
  · rw [result_busy busy phase more disk]
    exact hosts ▸ serial
  · by_cases same : j = i
    · exact same ▸ holds
    · exact holds_kept (held j) (at_other same) (temps j same) fun _ passed => passed

-- A request ends without effect, having seen the file as it was then.
theorem refused_served {order : List Nat}
    (serial : SerialOrder.Serial (alone path pid issued) start.hosts w.disk.hosts (result w) order)
    (held : ∀ i, Holds path pid issued order start w i) (busy : result w i = none) {hosts : Option F.Text}
    (passed : SerialOrder.Passed (alone path pid issued) start.hosts order hosts) {answer : Except ProfileError (Option HostProfile)}
    (refuses : alone path pid issued i hosts = (hosts,answer)) (disk : Disk F) (same : disk.hosts = w.disk.hosts)
    (temps : ∀ n, n ≠ i → disk.temps n = w.disk.temps n) : Served path pid issued start (w.at i (.done answer) disk) := by
  obtain ⟨before,after,rfl,ran⟩ := passed
  have idle : (alone path pid issued i (SerialOrder.runs (alone path pid issued) start.hosts before)).1 =
      SerialOrder.runs (alone path pid issued) start.hosts before := by rw [ran,refuses]
  have placed := SerialOrder.serial_refuse serial busy idle
  refine ⟨before ++ i :: after,?_,fun j => ?_⟩
  · rw [result_done]
    rw [ran,refuses] at placed
    exact same ▸ placed
  · by_cases own : j = i
    · subst own
      simp only [Holds,at_phase]
    · exact holds_kept (held j) (at_other own) (temps j own) fun _ seen => SerialOrder.passed_refuse idle seen

-- A request ends on the file as it is.
theorem committed_served {order : List Nat}
    (serial : SerialOrder.Serial (alone path pid issued) start.hosts w.disk.hosts (result w) order)
    (held : ∀ i, Holds path pid issued order start w i) (busy : result w i = none) (disk : Disk F)
    {answer : Except ProfileError (Option HostProfile)} (commits : alone path pid issued i w.disk.hosts = (disk.hosts,answer))
    (temps : ∀ n, n ≠ i → disk.temps n = w.disk.temps n) : Served path pid issued start (w.at i (.done answer) disk) := by
  have last := SerialOrder.serial_commit serial busy
  rw [commits] at last
  refine ⟨order ++ [i],?_,fun j => ?_⟩
  · rw [result_done]
    exact last
  · by_cases own : j = i
    · subst own
      simp only [Holds,at_phase]
    · exact holds_kept (held j) (at_other own) (temps j own) fun _ seen => SerialOrder.passed_commit seen i

theorem alone_rewrites (path : HostsPath) (pid : Nat) (issued : Nat → Issued) (i : Nat) (hosts : Option F.Text) :
    alone path pid issued i hosts =
      ((rewriteAt (issued i).request.check (issued i).request.change ⟨path,pid,i⟩ (issued i).faults ⟨hosts,fun _ => none⟩).1.hosts,
        (rewriteAt (issued i).request.check (issued i).request.change ⟨path,pid,i⟩ (issued i).faults
          ⟨hosts,fun _ => none⟩).2.map fun _ => (issued i).request.reply) := by
  simp only [alone,run_rewrites]

theorem alone_unchecked (failed : (issued i).request.check = .error e) (hosts : Option F.Text) :
    alone path pid issued i hosts = (hosts,.error e) := by
  simp only [alone_rewrites,rewriteAt,failed]
  rfl

theorem alone_unread (checked : (issued i).request.check = .ok ())
    (failed : loadProfilesFrom path (issued i).faults.read w.disk = .error e) :
    alone path pid issued i w.disk.hosts = (w.disk.hosts,.error e) := by
  have same := loadProfilesFrom_same path (issued i).faults.read ⟨w.disk.hosts,fun _ => none⟩ w.disk rfl
  simp only [alone_rewrites,rewriteAt,checked,same,failed]
  rfl

theorem alone_unchanged {hosts : Option F.Text} (checked : (issued i).request.check = .ok ()) (read : (issued i).faults.read = none)
    (loads : load (F := F) path ⟨hosts,fun _ => none⟩ = .ok seen) (failed : (issued i).request.change seen = .error e) :
    alone path pid issued i hosts = (hosts,.error e) := by
  have loads : loadProfilesFrom (F := F) path none ⟨hosts,fun _ => none⟩ = .ok seen := loads
  simp only [alone_rewrites,rewriteAt,checked,read,loads,failed]
  rfl

theorem alone_saves {hosts : Option F.Text} (checked : (issued i).request.check = .ok ()) (read : (issued i).faults.read = none)
    (loads : load (F := F) path ⟨hosts,fun _ => none⟩ = .ok seen) (changed : (issued i).request.change seen = .ok profiles) :
    alone path pid issued i hosts =
      ((saveProfilesAtomic profiles ⟨path,pid,i⟩ (issued i).faults (⟨hosts,fun _ => none⟩ : Disk F)).1.hosts,
        (saveProfilesAtomic profiles ⟨path,pid,i⟩ (issued i).faults (⟨hosts,fun _ => none⟩ : Disk F)).2.map
          fun _ => (issued i).request.reply) := by
  have loads : loadProfilesFrom (F := F) path none ⟨hosts,fun _ => none⟩ = .ok seen := loads
  simp only [alone_rewrites,rewriteAt,checked,read,loads,changed]

theorem alone_unstaged {hosts : Option F.Text} (checked : (issued i).request.check = .ok ()) (read : (issued i).faults.read = none)
    (loads : load (F := F) path ⟨hosts,fun _ => none⟩ = .ok seen) (changed : (issued i).request.change seen = .ok profiles)
    (failed : ∀ disk : Disk F, ∃ after, stageProfiles profiles ⟨path,pid,i⟩ (issued i).faults disk = (after,.error e) ∧
      after.hosts = disk.hosts ∧ ∀ n, n ≠ i → after.temps n = disk.temps n) :
    alone path pid issued i hosts = (hosts,.error e) := by
  obtain ⟨after,outcome,same,_⟩ := failed ⟨hosts,fun _ => none⟩
  rw [alone_saves checked read loads changed,saveProfilesAtomic,outcome]
  exact congrArg (fun h => (h,Except.error e)) same

-- The rename ends alike on any disk where the temporary file is there.
theorem renameProfiles_put (temp : String) (place : Place) (faults : Faults) (disk : Disk F) (put : disk.temps place.number = some body) :
    (∃ e, faults.rename ≠ none ∧ renameProfiles temp place faults disk = (disk,.error e) ∧
      ∀ other : Disk F, other.temps place.number = some body → renameProfiles temp place faults other = (other,.error e)) ∨
    faults.rename = none ∧
      renameProfiles temp place faults disk = ({Disk.put disk place.number none with hosts := some body},.ok ()) := by
  simp only [renameProfiles]
  cases faults.rename with
  | some e => exact .inl ⟨_,by simp,rfl,fun other there => rfl⟩
  | none => exact .inr ⟨rfl,by rw [put]⟩

theorem alone_renames {hosts : Option F.Text} (checked : (issued i).request.check = .ok ()) (read : (issued i).faults.read = none)
    (loads : load (F := F) path ⟨hosts,fun _ => none⟩ = .ok seen) (changed : (issued i).request.change seen = .ok profiles)
    (staged : ∀ disk : Disk F, stageProfiles profiles ⟨path,pid,i⟩ (issued i).faults disk = (Disk.put disk i (some body),.ok temp)) :
    alone path pid issued i hosts =
      ((renameProfiles temp ⟨path,pid,i⟩ (issued i).faults (Disk.put (F := F) ⟨hosts,fun _ => none⟩ i (some body))).1.hosts,
        (renameProfiles temp ⟨path,pid,i⟩ (issued i).faults (Disk.put (F := F) ⟨hosts,fun _ => none⟩ i (some body))).2.map
          fun _ => (issued i).request.reply) := by
  rw [alone_saves checked read loads changed,saveProfilesAtomic,staged]

theorem busy_result {phase : Phase} (found : w.phase i = phase) (more : ∀ answer, phase ≠ .done answer) : result w i = none := by
  simp only [result,found]

theorem issued_served (served : Served path pid issued start w) (found : w.phase i = .issued) :
    Served path pid issued start (advance path pid issued w i) := by
  obtain ⟨order,serial,held⟩ := served
  have busy : result w i = none := busy_result found (by simp)
  simp only [advance,found]
  cases checked : (issued i).request.check with
  | error e => exact committed_served serial held busy w.disk (alone_unchecked checked _) fun _ _ => rfl
  | ok done =>
      cases loaded : loadProfilesFrom path (issued i).faults.read w.disk with
      | error e => exact committed_served serial held busy w.disk (alone_unread checked loaded) fun _ _ => rfl
      | ok seen =>
          apply held_served serial held busy (.loaded seen) (by simp) w.disk rfl fun _ _ => rfl
          simp only [Holds,at_phase]
          have read : (issued i).faults.read = none := by
            cases fault : (issued i).faults.read with
            | none => rfl
            | some e => rw [fault] at loaded; cases loaded
          exact ⟨checked,read,w.disk.hosts,SerialOrder.passed_end serial,(load_same path _ w.disk rfl).trans (read_load loaded)⟩

theorem loaded_served (served : Served path pid issued start w) (found : w.phase i = .loaded seen) :
    Served path pid issued start (advance path pid issued w i) := by
  obtain ⟨order,serial,held⟩ := served
  have busy : result w i = none := busy_result found (by simp)
  have holds := held i
  simp only [Holds,found] at holds
  obtain ⟨checked,read,hosts,passed,loads⟩ := holds
  simp only [advance,found]
  cases changed : (issued i).request.change seen with
  | error e =>
      exact refused_served serial held busy passed (alone_unchanged checked read loads changed) w.disk rfl fun _ _ => rfl
  | ok profiles =>
      apply held_served serial held busy (.built seen profiles) (by simp) w.disk rfl fun _ _ => rfl
      simp only [Holds,at_phase]
      exact ⟨⟨checked,read,hosts,passed,loads⟩,changed⟩

theorem built_served (served : Served path pid issued start w) (found : w.phase i = .built seen profiles) :
    Served path pid issued start (advance path pid issued w i) := by
  obtain ⟨order,serial,held⟩ := served
  have busy : result w i = none := busy_result found (by simp)
  have holds := held i
  simp only [Holds,found] at holds
  obtain ⟨⟨checked,read,hosts,passed,loads⟩,changed⟩ := holds
  simp only [advance,found]
  rcases stageProfiles_spec F profiles ⟨path,pid,i⟩ (issued i).faults with ⟨e,failed⟩ | ⟨temp,body,_,staged⟩
  · obtain ⟨after,outcome,same,temps⟩ := failed w.disk
    rw [outcome]
    exact refused_served serial held busy passed (alone_unstaged checked read loads changed failed) after same temps
  · rw [staged]
    have temps : ∀ n, n ≠ i → (Disk.put w.disk i (some body)).temps n = w.disk.temps n := fun n other => if_neg other
    refine held_served serial held busy (.staged seen profiles temp) (by simp) _ rfl temps ?_
    simp only [Holds,at_phase]
    exact ⟨⟨checked,read,hosts,passed,loads⟩,changed,body,if_pos rfl,staged⟩

-- Only here may the file have changed behind the request's back.
theorem staged_served (served : Served path pid issued start w) (found : w.phase i = .staged seen profiles temp)
    (fresh : Fresh path issued w i) : Served path pid issued start (advance path pid issued w i) := by
  obtain ⟨order,serial,held⟩ := served
  have busy : result w i = none := busy_result found (by simp)
  have holds := held i
  simp only [Holds,found] at holds
  obtain ⟨⟨checked,read,hosts,passed,loads⟩,changed,body,there,staged⟩ := holds
  have put : ∀ hosts, (Disk.put (F := F) ⟨hosts,fun _ => none⟩ i (some body)).temps i = some body := fun _ => if_pos rfl
  simp only [advance,found]
  rcases renameProfiles_put temp ⟨path,pid,i⟩ (issued i).faults w.disk there with ⟨e,_,failed,alike⟩ | ⟨fine,renamed⟩
  · rw [failed]
    have refuses := alone_renames checked read loads changed staged
    rw [alike _ (put hosts)] at refuses
    exact refused_served serial held busy passed refuses w.disk rfl fun _ _ => rfl
  · rw [renamed]
    have now := (load_same path ⟨w.disk.hosts,fun _ => none⟩ w.disk rfl).trans (fresh seen profiles temp found fine)
    have commits := alone_renames checked read now changed staged
    rcases renameProfiles_put temp ⟨path,pid,i⟩ (issued i).faults _ (put w.disk.hosts) with ⟨e,broken,_⟩ | ⟨_,alike⟩
    · exact absurd fine broken
    · rw [alike] at commits
      exact committed_served serial held busy _ commits fun n other => if_neg other

theorem advance_served (served : Served path pid issued start w) (fresh : Fresh path issued w i) :
    Served path pid issued start (advance path pid issued w i) := by
  cases found : w.phase i with
  | issued => exact issued_served served found
  | loaded seen => exact loaded_served served found
  | built seen profiles => exact built_served served found
  | staged seen profiles temp => exact staged_served served found fresh
  | done answer =>
      have still : advance path pid issued w i = w := by simp only [advance,found]
      exact still.symm ▸ served

def issue (disk : Disk F) : World F := ⟨disk,fun _ => .issued⟩

theorem issue_served (path : HostsPath) (pid : Nat) (issued : Nat → Issued) (disk : Disk F) :
    Served path pid issued disk (issue disk) :=
  ⟨[],SerialOrder.serial_start fun _ => rfl,fun _ => trivial⟩

-- In every interleaving whose renames find the file as it was loaded, the requests come
-- out as if they had been run one after another.
theorem requests_serialisable (path : HostsPath) (pid : Nat) (issued : Nat → Issued) (disk : Disk F) (schedule : List Nat)
    (fresh : StepRuns.Along (advance path pid issued) (Fresh path issued) (issue disk) schedule) :
    StepRuns.Throughout (advance path pid issued) (Serialisable path pid issued disk) (issue disk) schedule := by
  apply StepRuns.throughout_kept (Served path pid issued disk) fresh (issue_served path pid issued disk)
  · exact fun w i served now => advance_served served now
  · intro w served
    obtain ⟨order,serial,_⟩ := served
    exact ⟨order,serial⟩

theorem advance_other (path : HostsPath) (pid : Nat) (issued : Nat → Issued) (w : World F) (other : j ≠ i) :
    (advance path pid issued w i).phase j = w.phase j := by
  have others : ∀ phase disk, (w.at i phase disk).phase j = w.phase j := fun phase disk => at_other other
  simp only [advance]
  repeat' split
  all_goals first | exact others _ _ | rfl

theorem unscheduled (path : HostsPath) (pid : Nat) (issued : Nat → Issued) (disk : Disk F) (schedule : List Nat) (absent : j ∉ schedule) :
    (schedule.foldl (advance path pid issued) (issue disk)).phase j = .issued := by
  have along : StepRuns.Along (advance path pid issued) (fun _ i => j ≠ i) (issue disk) schedule := by
    generalize issue disk = w
    induction schedule generalizing w with
    | nil => trivial
    | cons i rest ih => exact ⟨fun same => absent (same ▸ List.mem_cons_self),ih (fun later => absent (List.mem_cons_of_mem i later)) _⟩
  exact StepRuns.run_kept (fun w : World F => w.phase j = .issued) along rfl fun w i kept other =>
    (advance_other path pid issued w other).trans kept

theorem two_orders {order : List Nat} (once : order.Nodup) (members : ∀ i, i ∈ order ↔ i = 0 ∨ i = 1) :
    order = [0,1] ∨ order = [1,0] := by
  have perm : order.Perm [0,1] := by
    apply (List.perm_ext_iff_of_nodup once (by decide)).mpr
    intro i
    rw [members]
    simp
  match order,perm.length_eq,once with
  | [x,y],_,once =>
      have left := (members x).mp List.mem_cons_self
      have right := (members y).mp (List.mem_cons_of_mem x List.mem_cons_self)
      have apart : x ≠ y := fun same => (List.nodup_cons.mp once).1 (same ▸ List.mem_cons_self)
      rcases left with rfl | rfl <;> rcases right with rfl | rfl
      · exact absurd rfl apart
      · exact .inl rfl
      · exact .inr rfl
      · exact absurd rfl apart

def creates (first second : String) (i : Nat) : Issued := ⟨.create (agentHost (if i = 0 then first else second)),.none⟩

def inTurn : List Nat := [0,0,0,0,1,1,1,1]

theorem requests_serialisable_in_turn :
    StepRuns.Throughout (advance homePath 1 (creates "a" "b")) (Serialisable homePath 1 (creates "a" "b") absent) (issue absent)
      inTurn := by
  have quiet : ∀ (w : World plainToml) i, (∀ seen profiles temp, w.phase i ≠ .staged seen profiles temp) →
      Fresh homePath (creates "a" "b") w i := fun w i other seen profiles temp found => absurd found (other seen profiles temp)
  apply requests_serialisable homePath 1 (creates "a" "b") absent inTurn
  refine ⟨quiet _ _ ?_,quiet _ _ ?_,quiet _ _ ?_,?_,quiet _ _ ?_,quiet _ _ ?_,quiet _ _ ?_,?_,trivial⟩
  all_goals intro seen profiles temp found
  all_goals cases found
  all_goals exact fun _ => rfl

-- Both handlers have loaded the file before either renames its own.
def overlapping : List Nat := [0,1,0,1,0,1,0,1]

def after (first second : String) : World plainToml := overlapping.foldl (advance homePath 1 (creates first second)) (issue absent)

theorem create_lost :
    ¬ StepRuns.Throughout (advance homePath 1 (creates "a" "b")) (Serialisable homePath 1 (creates "a" "b") absent) (issue absent)
        overlapping ∧
      result (after "a" "b") 0 = some (.ok (some (agentHost "a"))) ∧ result (after "a" "b") 1 = some (.ok (some (agentHost "b"))) ∧
      (after "a" "b").disk.hosts = some [agentHost "b"] ∧
      result (after "a" "a") 0 = some (.ok (some (agentHost "a"))) ∧ result (after "a" "a") 1 = some (.ok (some (agentHost "a"))) := by
  have first : result (after "a" "b") 0 = some (.ok (some (agentHost "a"))) := rfl
  have second : result (after "a" "b") 1 = some (.ok (some (agentHost "b"))) := rfl
  have file : (after "a" "b").disk.hosts = some [agentHost "b"] := rfl
  refine ⟨fun all => ?_,first,second,file,rfl,rfl⟩
  obtain ⟨order,serial⟩ := StepRuns.throughout_last all
  have members : ∀ i, i ∈ order ↔ i = 0 ∨ i = 1 := by
    intro i
    rw [serial.finished]
    by_cases zero : i = 0
    · subst zero
      exact iff_of_true rfl (.inl rfl)
    · by_cases one : i = 1
      · subst one
        exact iff_of_true rfl (.inr rfl)
      · have idle := unscheduled homePath 1 (creates "a" "b") absent overlapping (j := i) (by simp [overlapping,zero,one])
        apply iff_of_false
        · simp only [result,idle]
          simp
        · rintro (rfl | rfl)
          · exact zero rfl
          · exact one rfl
  have one_left : ∀ hosts : List HostProfile, SerialOrder.runs (alone homePath 1 (creates "a" "b")) absent.hosts order = some hosts →
      hosts.length = 1 := by
    intro hosts ran
    have same : hosts = [agentHost "b"] := Option.some.inj (ran.symm.trans (serial.ends.trans file))
    rw [same]
    rfl
  rcases two_orders serial.once members with rfl | rfl
  · cases one_left [agentHost "a",agentHost "b"] rfl
  · cases one_left [agentHost "b",agentHost "a"] rfl

end Perga.Profiles

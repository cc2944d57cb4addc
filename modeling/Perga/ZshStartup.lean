import Mathlib.Data.List.Basic

namespace Perga.ZshStartup

-- What zsh's start-up files read and change: all variables but Perga's own, which are fields of
-- `Shell`, so that no such file can touch them. A value is the bytes of an OS string.
abbrev Value := List UInt8

structure Vars where
  zdotdir : Option Value
  home : Option Value
  others : String → Option Value

abbrev StartupFile := Vars → Vars

inductive DotFile where
  | zshenv
  | zshrc
  deriving DecidableEq, Repr

structure Disk where
  system : DotFile → Option StartupFile
  user : Value → DotFile → Option StartupFile

inductive Source where
  | system (name : DotFile)
  | user (dir : Value) (name : DotFile)
  deriving DecidableEq, Repr

-- A file that ran with the ZDOTDIR it saw, or the integration that was loaded.
inductive Event where
  | ran (file : Source) (zdotdir : Option Value)
  | integrated
  deriving DecidableEq, Repr

structure Shell where
  vars : Vars
  pergaUserZdotdir : Option Value
  pergaInjectZdotdir : Option Value
  userZdotdir : Option Value
  osc133Loaded : Bool
  log : List Event

def run (s : Shell) (source : Source) : Option StartupFile → Shell
  | none => s
  | some file => {s with vars := file s.vars,log := s.log ++ [.ran source s.vars.zdotdir]}

def Shell.setZdotdir (s : Shell) (value : Option Value) : Shell := {s with vars := {s.vars with zdotdir := value}}

-- `${name:-}` and `[[ -n … ]]`: an empty value counts as none.
def filled : Option Value → Option Value
  | some [] => none
  | value => value

-- A value as `$name` expands it.
def expanded (value : Option Value) : Value := value.getD []

-- `source` in Perga's own directory reads the file that is being read, again and again.
def source (perga : Option Value) (disk : Disk) (s : Shell) (dir : Value) (name : DotFile) : Option Shell :=
  if perga = some dir then none else some (run s (.user dir name) (disk.user dir name))

-- `ZSH_ZSHENV`.
def zshZshenv (perga : Option Value) (disk : Disk) (s : Shell) : Option Shell := do
  let s := {s with pergaInjectZdotdir := some (expanded s.vars.zdotdir)}
  let s := s.setZdotdir (filled s.pergaUserZdotdir)
  let s ← source perga disk s ((filled s.vars.zdotdir).getD (expanded s.vars.home)) .zshenv
  let s := {s with pergaUserZdotdir := filled s.vars.zdotdir}
  let s := s.setZdotdir (some (expanded s.pergaInjectZdotdir))
  some {s with pergaInjectZdotdir := none}

-- `perga-zsh.sh` in an interactive shell.
def zshIntegration (s : Shell) : Shell :=
  if s.osc133Loaded then s else {s with osc133Loaded := true,log := s.log ++ [.integrated]}

-- `render_zsh_zshrc`: `ZSH_ZSHRC_PREAMBLE` and the integration.
def zshZshrc (perga : Option Value) (disk : Disk) (s : Shell) : Option Shell := do
  let s := {s with userZdotdir := some ((filled s.pergaUserZdotdir).getD (expanded s.vars.home))}
  let s := s.setZdotdir (filled s.pergaUserZdotdir)
  let s ← source perga disk s (expanded s.userZdotdir) .zshrc
  some (zshIntegration {s with userZdotdir := none,pergaUserZdotdir := none})

-- Where zsh itself looks for a user's file; a ZDOTDIR that is set but empty counts here.
def lookup (vars : Vars) : Value := vars.zdotdir.getD (expanded vars.home)

def sourcehome (perga : Option Value) (disk : Disk) (s : Shell) (name : DotFile) : Option Shell :=
  if perga = some (lookup s.vars) then
    match name with
    | .zshenv => zshZshenv perga disk s
    | .zshrc => zshZshrc perga disk s
  else some (run s (.user (lookup s.vars) name) (disk.user (lookup s.vars) name))

-- An interactive shell that is no login shell; `perga` is the directory that holds Perga's files.
def zsh (perga : Option Value) (disk : Disk) (s : Shell) : Option Shell := do
  let s ← sourcehome perga disk (run s (.system .zshenv) (disk.system .zshenv)) .zshenv
  sourcehome perga disk (run s (.system .zshrc) (disk.system .zshrc)) .zshrc

-- The part of `PtyConfig` that `inject_zsh` changes.
structure PtyConfig where
  env : List (String × Value)

def PtyConfig.pushEnv (cfg : PtyConfig) (name : String) (value : Value) : PtyConfig := ⟨cfg.env ++ [(name,value)]⟩

def joined (dir name : Value) : Value :=
  if dir = [] ∨ dir.getLast? = some 47 then dir ++ name else dir ++ 47 :: name

def zshDir (dir : Value) : Value := joined dir [122,115,104]

-- `written` tells which of the two files `write_atomic` manages to write, `lossy` is
-- `to_string_lossy`, and `inherited` the ZDOTDIR of this process.
def injectZsh (written : DotFile → Bool) (lossy : Value → Value) (inherited : Option Value) (cfg : PtyConfig)
    (dir : Value) : Option PtyConfig :=
  if !written .zshenv then none
  else if !written .zshrc then none
  else
    let cfg := match inherited with
      | some user => cfg.pushEnv "PERGA_USER_ZDOTDIR" (lossy user)
      | none => cfg
    some (cfg.pushEnv "ZDOTDIR" (lossy (zshDir dir)))

def Shell.setEnv (s : Shell) (entry : String × Value) : Shell :=
  if entry.1 = "ZDOTDIR" then s.setZdotdir (some entry.2)
  else if entry.1 = "HOME" then {s with vars := {s.vars with home := some entry.2}}
  else if entry.1 = "PERGA_USER_ZDOTDIR" then {s with pergaUserZdotdir := some entry.2}
  else {s with vars := {s.vars with others := fun name => if name = entry.1 then some entry.2 else s.vars.others name}}

-- The new shell: what it inherits, none of it Perga's, with the entries of the configuration on top.
def spawned (inherited : Vars) (cfg : PtyConfig) : Shell :=
  cfg.env.foldl Shell.setEnv ⟨inherited,none,none,none,false,[]⟩

-- A system file that does not go by the ZDOTDIR it sees: it leaves it alone, or it sets it in its own way.
def Keeps (file : StartupFile) (vars : Vars) : Prop :=
  ∀ value, file {vars with zdotdir := value} = {file vars with zdotdir := value}

def Decides (file : StartupFile) (vars : Vars) : Prop := ∀ value, file {vars with zdotdir := value} = file vars

def Elsewhere (dir : Value) (vars : Vars) : Prop := vars.zdotdir ≠ some dir ∧ vars.home ≠ some dir

structure Fair (dir : Value) (disk : Disk) : Prop where
  blind : ∀ name file, disk.system name = some file → ∀ vars, Keeps file vars ∨ Decides file vars
  systemApart : ∀ name file, disk.system name = some file → ∀ vars, Elsewhere dir vars → Elsewhere dir (file vars)
  userApart : ∀ at_ name file, disk.user at_ name = some file → ∀ vars, Elsewhere dir vars → Elsewhere dir (file vars)
  filled : ∀ at_ file, disk.user at_ .zshenv = some file → ∀ vars, vars.zdotdir ≠ some [] → (file vars).zdotdir ≠ some []

def Event.isUser : Event → Bool
  | .ran (.user _ _) _ => true
  | _ => false

-- A system file sees Perga's directory in place of the user's.
def Event.pin (dir : Value) : Event → Event
  | .ran (.system name) _ => .ran (.system name) (some dir)
  | event => event

theorem pin_isUser (dir : Value) (event : Event) : (event.pin dir).isUser = event.isUser := by
  cases event with
  | ran file value => cases file <;> rfl
  | integrated => rfl

theorem pinned_users (dir : Value) (log : List Event) :
    (log.map (Event.pin dir)).filter Event.isUser = log.filter Event.isUser := by
  induction log with
  | nil => rfl
  | cons event rest ih =>
      rw [List.map_cons,List.filter_cons,List.filter_cons,pin_isUser,ih]
      cases event with
      | ran file value => cases file <;> rfl
      | integrated => rfl

theorem filled_same {value : Option Value} (proper : value ≠ some []) : filled value = value := by
  cases value with
  | none => rfl
  | some bytes =>
      cases bytes with
      | nil => exact absurd rfl proper
      | cons b rest => rfl

@[simp] theorem expanded_some (value : Value) : expanded (some value) = value := rfl

theorem lookup_elsewhere {dir : Value} {vars : Vars} (some_ : dir ≠ []) (apart : Elsewhere dir vars) : lookup vars ≠ dir := by
  obtain ⟨zdotdir,home⟩ := apart
  unfold lookup expanded
  cases own : vars.zdotdir with
  | some value => exact fun same => zdotdir (own.trans (congrArg some same))
  | none =>
      cases at_ : vars.home with
      | some value => exact fun same => home (at_.trans (congrArg some same))
      | none => exact fun same => some_ same.symm

theorem zshDir_filled (dir : Value) : zshDir dir ≠ [] := by
  unfold zshDir joined
  split <;> simp

-- The two runs side by side: `s` without the injection, `t` with it.
structure Pinned (dir : Value) (s t : Shell) : Prop where
  vars : t.vars = {s.vars with zdotdir := some dir}
  saved : t.pergaUserZdotdir = s.vars.zdotdir
  proper : s.vars.zdotdir ≠ some []
  unloaded : t.osc133Loaded = false
  log : t.log = s.log.map (Event.pin dir)

-- From where a system file has set ZDOTDIR, zsh no longer reads Perga's files.
structure Freed (s t : Shell) : Prop where
  vars : t.vars = s.vars
  users : t.log.filter Event.isUser = s.log.filter Event.isUser

variable {dir : Value} {disk : Disk} {s t : Shell}

theorem keeps_own {file : StartupFile} {vars : Vars} (keeps : Keeps file vars) : (file vars).zdotdir = vars.zdotdir := by
  have same := congrArg Vars.zdotdir (keeps vars.zdotdir)
  exact same

theorem run_pinned (fair : Fair dir disk) (name : DotFile) (pinned : Pinned dir s t) :
    let file := disk.system name
    (Pinned dir (run s (.system name) file) (run t (.system name) file)) ∨
      Freed (run s (.system name) file) (run t (.system name) file) ∧ ∃ f, file = some f ∧ ¬ Keeps f s.vars := by
  intro file
  cases found : disk.system name with
  | none =>
      have absent : file = none := found
      rw [absent]
      exact .inl pinned
  | some f =>
      have present : file = some f := found
      obtain ⟨vars,saved,proper,unloaded,log⟩ := pinned
      have logs : (run t (.system name) (some f)).log = (run s (.system name) (some f)).log.map (Event.pin dir) := by
        rw [run,run,List.map_append,log,vars]
        rfl
      rw [present]
      by_cases keeps : Keeps f s.vars
      · left
        have own := keeps_own keeps
        refine ⟨?_,saved.trans own.symm,fun empty => proper (own.symm.trans empty),unloaded,logs⟩
        change f t.vars = _
        rw [vars,keeps]
        rfl
      · right
        have decides := (fair.blind name f found s.vars).resolve_left keeps
        refine ⟨⟨?_,?_⟩,f,rfl,keeps⟩
        · change f t.vars = f s.vars
          rw [vars,decides]
        · rw [logs,pinned_users]

theorem run_freed (source : Source) (file : Option StartupFile) (freed : Freed s t) :
    Freed (run s source file) (run t source file) := by
  obtain ⟨vars,users⟩ := freed
  cases file with
  | none => exact ⟨vars,users⟩
  | some f =>
      refine ⟨congrArg f vars,?_⟩
      rw [run,run,List.filter_append,List.filter_append,users,vars]

theorem run_apart (fair : Fair dir disk) (source : Source) (file : Option StartupFile)
    (on_disk : file = match source with
      | .system name => disk.system name
      | .user at_ name => disk.user at_ name) (apart : Elsewhere dir s.vars) :
    Elsewhere dir (run s source file).vars := by
  cases file with
  | none => exact apart
  | some f =>
      cases source with
      | system name => exact fair.systemApart name f on_disk.symm s.vars apart
      | user at_ name => exact fair.userApart at_ name f on_disk.symm s.vars apart

-- A user's file that both runs start in the same variables.
structure Alike (dir : Value) (s t : Shell) : Prop where
  vars : t.vars = s.vars
  log : t.log = s.log.map (Event.pin dir)

theorem run_alike (alike : Alike dir s t) (at_ : Value) (name : DotFile) (file : Option StartupFile) :
    Alike dir (run s (.user at_ name) file) (run t (.user at_ name) file) ∧
      (run t (.user at_ name) file).osc133Loaded = t.osc133Loaded ∧
      (run t (.user at_ name) file).pergaInjectZdotdir = t.pergaInjectZdotdir := by
  obtain ⟨vars,log⟩ := alike
  cases file with
  | none => exact ⟨⟨vars,log⟩,rfl,rfl⟩
  | some f =>
      refine ⟨⟨congrArg f vars,?_⟩,rfl,rfl⟩
      rw [run,run,log,vars,List.map_append]
      rfl

theorem run_proper (fair : Fair dir disk) (at_ : Value) (proper : s.vars.zdotdir ≠ some []) :
    (run s (.user at_ .zshenv) (disk.user at_ .zshenv)).vars.zdotdir ≠ some [] := by
  cases found : disk.user at_ .zshenv with
  | none => exact proper
  | some f => exact fair.filled at_ f found s.vars proper

theorem zshIntegration_vars (s : Shell) : (zshIntegration s).vars = s.vars := by
  unfold zshIntegration
  split <;> rfl

theorem zshIntegration_log (unloaded : s.osc133Loaded = false) : (zshIntegration s).log = s.log ++ [.integrated] := by
  unfold zshIntegration
  rw [unloaded]
  rfl

theorem zshenv_pinned (fair : Fair dir disk) (some_ : dir ≠ []) (apart : Elsewhere dir s.vars) (pinned : Pinned dir s t) :
    ∃ after, sourcehome (some dir) disk t .zshenv = some after ∧
      Pinned dir (run s (.user (lookup s.vars) .zshenv) (disk.user (lookup s.vars) .zshenv)) after := by
  obtain ⟨vars,saved,proper,unloaded,log⟩ := pinned
  have here : lookup t.vars = dir := by rw [vars]; rfl
  have old : expanded t.vars.zdotdir = dir := by rw [vars]; rfl
  have back : {t.vars with zdotdir := filled t.pergaUserZdotdir} = s.vars := by rw [vars,saved,filled_same proper]
  have place : (filled s.vars.zdotdir).getD (expanded s.vars.home) = lookup s.vars := by rw [filled_same proper]; rfl
  have other : ¬ some dir = some (lookup s.vars) := fun same => lookup_elsewhere some_ apart (Option.some.inj same).symm
  let restored : Shell := {t with vars := s.vars,pergaInjectZdotdir := some dir}
  obtain ⟨⟨kept,logged⟩,loaded,inject⟩ := run_alike (s := s) (t := restored) ⟨rfl,log⟩ (lookup s.vars) .zshenv
    (disk.user (lookup s.vars) .zshenv)
  have later := run_proper fair (lookup s.vars) proper
  rw [sourcehome,here,if_pos rfl,zshZshenv]
  simp only [Shell.setZdotdir,back,old,place,source,other,if_false]
  refine ⟨_,rfl,?_,?_,later,loaded.trans unloaded,logged⟩
  · change ({(run restored _ _).vars with zdotdir := some (expanded (run restored _ _).pergaInjectZdotdir)} : Vars) = _
    rw [kept,inject]
    rfl
  · exact (congrArg (fun vars => filled vars.zdotdir) kept).trans (filled_same later)

-- The `.zshrc` that Perga put there ends the pinned run like the one without the injection.
theorem zshrc_pinned (disk : Disk) (some_ : dir ≠ []) (apart : Elsewhere dir s.vars) (pinned : Pinned dir s t) :
    ∃ after, sourcehome (some dir) disk t .zshrc = some after ∧
      after.vars = (run s (.user (lookup s.vars) .zshrc) (disk.user (lookup s.vars) .zshrc)).vars ∧
      after.log = (run s (.user (lookup s.vars) .zshrc) (disk.user (lookup s.vars) .zshrc)).log.map (Event.pin dir) ++ [.integrated] := by
  obtain ⟨vars,saved,proper,unloaded,log⟩ := pinned
  have here : lookup t.vars = dir := by rw [vars]; rfl
  have back : {t.vars with zdotdir := filled t.pergaUserZdotdir} = s.vars := by rw [vars,saved,filled_same proper]
  have place : (filled t.pergaUserZdotdir).getD (expanded t.vars.home) = lookup s.vars := by
    rw [saved,filled_same proper,vars]
    rfl
  have other : ¬ some dir = some (lookup s.vars) := fun same => lookup_elsewhere some_ apart (Option.some.inj same).symm
  let restored : Shell := {t with vars := s.vars,userZdotdir := some (lookup s.vars)}
  obtain ⟨⟨kept,logged⟩,loaded,_⟩ := run_alike (s := s) (t := restored) ⟨rfl,log⟩ (lookup s.vars) .zshrc
    (disk.user (lookup s.vars) .zshrc)
  rw [sourcehome,here,if_pos rfl,zshZshrc]
  simp only [Shell.setZdotdir,back,place,source,expanded_some,other,if_false]
  refine ⟨_,rfl,(zshIntegration_vars _).trans kept,?_⟩
  refine (zshIntegration_log ?_).trans (congrArg (· ++ [.integrated]) logged)
  exact loaded.trans unloaded

theorem logs_users {log after : List Event} (same : after = log.map (Event.pin dir) ++ [.integrated]) :
    after.filter Event.isUser = log.filter Event.isUser := by
  rw [same,List.filter_append,pinned_users]
  exact List.append_nil _

theorem sourcehome_freed (disk : Disk) (some_ : dir ≠ []) (apart : Elsewhere dir s.vars) (freed : Freed s t) (name : DotFile) :
    ∃ after, sourcehome (some dir) disk t name = some after ∧
      Freed (run s (.user (lookup s.vars) name) (disk.user (lookup s.vars) name)) after := by
  have other : ¬ some dir = some (lookup t.vars) := fun same =>
    lookup_elsewhere some_ (by rw [freed.vars]; exact apart) (Option.some.inj same).symm
  refine ⟨_,if_neg other,?_⟩
  rw [freed.vars]
  exact run_freed _ _ freed

theorem setEnv_other {entry : String × Value} (other : entry.1 ≠ "ZDOTDIR" ∧ entry.1 ≠ "PERGA_USER_ZDOTDIR") (s : Shell) :
    (s.setEnv entry).vars.zdotdir = s.vars.zdotdir ∧ (s.setEnv entry).pergaUserZdotdir = s.pergaUserZdotdir ∧
      (s.setEnv entry).osc133Loaded = s.osc133Loaded ∧ (s.setEnv entry).log = s.log := by
  unfold Shell.setEnv
  rw [if_neg other.1]
  split
  · exact ⟨rfl,rfl,rfl,rfl⟩
  · rw [if_neg other.2]
    exact ⟨rfl,rfl,rfl,rfl⟩

theorem entries_kept (env : List (String × Value))
    (own : ∀ entry ∈ env, entry.1 ≠ "ZDOTDIR" ∧ entry.1 ≠ "PERGA_USER_ZDOTDIR") (s : Shell) :
    (env.foldl Shell.setEnv s).vars.zdotdir = s.vars.zdotdir ∧
      (env.foldl Shell.setEnv s).pergaUserZdotdir = s.pergaUserZdotdir ∧
      (env.foldl Shell.setEnv s).osc133Loaded = s.osc133Loaded ∧ (env.foldl Shell.setEnv s).log = s.log := by
  induction env generalizing s with
  | nil => exact ⟨rfl,rfl,rfl,rfl⟩
  | cons entry rest ih =>
      obtain ⟨zdotdir,saved,loaded,log⟩ := setEnv_other (own entry List.mem_cons_self) s
      have later := ih (fun entry member => own entry (List.mem_cons_of_mem _ member)) (s.setEnv entry)
      rw [zdotdir,saved,loaded,log] at later
      exact later

section produced
variable {written : DotFile → Bool} {lossy : Value → Value} {base : Value} {inherited : Vars} {cfg injected : PtyConfig}
  (produced : injectZsh written lossy inherited.zdotdir cfg base = some injected)
include produced

theorem produced_env : injected.env = cfg.env ++ (inherited.zdotdir.map fun user => ("PERGA_USER_ZDOTDIR",lossy user)).toList ++
    [("ZDOTDIR",lossy (zshDir base))] := by
  unfold injectZsh at produced
  split at produced
  · cases produced
  · split at produced
    · cases produced
    · cases produced
      cases inherited.zdotdir <;> simp [PtyConfig.pushEnv]

theorem spawned_pinned (proper : inherited.zdotdir ≠ some []) (dirKept : lossy (zshDir base) = zshDir base)
    (userKept : ∀ user, inherited.zdotdir = some user → lossy user = user)
    (own : ∀ entry ∈ cfg.env, entry.1 ≠ "ZDOTDIR" ∧ entry.1 ≠ "PERGA_USER_ZDOTDIR") :
    Pinned (zshDir base) (spawned inherited cfg) (spawned inherited injected) := by
  obtain ⟨zdotdir,saved,loaded,log⟩ := entries_kept cfg.env own ⟨inherited,none,none,none,false,[]⟩
  rw [← spawned] at zdotdir saved loaded log
  have env := produced_env produced
  have top : spawned inherited injected = {(spawned inherited cfg) with
      pergaUserZdotdir := inherited.zdotdir
      vars := {(spawned inherited cfg).vars with zdotdir := some (zshDir base)}} := by
    rw [spawned,env,List.foldl_append,List.foldl_append,dirKept,← spawned]
    cases set : inherited.zdotdir with
    | none =>
        generalize spawned inherited cfg = s at saved
        cases s
        cases saved
        rfl
    | some user =>
        rw [Option.map_some,userKept user set]
        rfl
  rw [top]
  exact ⟨rfl,zdotdir.symm,zdotdir ▸ proper,loaded,by rw [log]; rfl⟩

end produced

theorem zsh_pinned (fair : Fair dir disk) (some_ : dir ≠ []) (apart : Elsewhere dir s.vars) (pinned : Pinned dir s t) :
    ∃ plain after, zsh none disk s = some plain ∧ zsh (some dir) disk t = some after ∧ Freed plain after ∧
      ((∀ name file, disk.system name = some file → ∀ vars, Keeps file vars) →
        after.log = plain.log.map (Event.pin dir) ++ [.integrated]) := by
  let s₁ := run s (.system .zshenv) (disk.system .zshenv)
  let s₂ := run s₁ (.user (lookup s₁.vars) .zshenv) (disk.user (lookup s₁.vars) .zshenv)
  let s₃ := run s₂ (.system .zshrc) (disk.system .zshrc)
  have apart₁ : Elsewhere dir s₁.vars := run_apart fair (.system .zshenv) _ rfl apart
  have apart₂ : Elsewhere dir s₂.vars := run_apart fair (.user (lookup s₁.vars) .zshenv) _ rfl apart₁
  have apart₃ : Elsewhere dir s₃.vars := run_apart fair (.system .zshrc) _ rfl apart₂
  refine ⟨run s₃ (.user (lookup s₃.vars) .zshrc) (disk.user (lookup s₃.vars) .zshrc),?_⟩
  have plain : zsh none disk s = some (run s₃ (.user (lookup s₃.vars) .zshrc) (disk.user (lookup s₃.vars) .zshrc)) := rfl
  rcases run_pinned fair .zshenv pinned with pinned₁ | ⟨freed₁,file,found,moves⟩
  · obtain ⟨t₂,ended,pinned₂⟩ := zshenv_pinned fair some_ apart₁ pinned₁
    rcases run_pinned fair .zshrc pinned₂ with pinned₃ | ⟨freed₃,file,found,moves⟩
    · obtain ⟨after,last,vars,log⟩ := zshrc_pinned disk some_ apart₃ pinned₃
      refine ⟨after,plain,?_,⟨vars,logs_users log⟩,fun _ => log⟩
      rw [zsh,ended]
      exact last
    · obtain ⟨after,last,freed⟩ := sourcehome_freed disk some_ apart₃ freed₃ .zshrc
      refine ⟨after,plain,?_,freed,fun keeps => absurd (keeps _ file found _) moves⟩
      rw [zsh,ended]
      exact last
  · obtain ⟨t₂,ended,freed₂⟩ := sourcehome_freed disk some_ apart₁ freed₁ .zshenv
    have freed₃ := run_freed (.system .zshrc) (disk.system .zshrc) freed₂
    obtain ⟨after,last,freed⟩ := sourcehome_freed disk some_ apart₃ freed₃ .zshrc
    refine ⟨after,plain,?_,freed,fun keeps => absurd (keeps _ file found _) moves⟩
    rw [zsh,ended]
    exact last

-- A user's `~/.zshenv` that moves ZDOTDIR, and an `/etc/zshrc`.
def bootstrap : Disk where
  system
    | .zshenv => none
    | .zshrc => some id
  user at_ name :=
    if at_ = [47,104] ∧ name = .zshenv then some fun vars => {vars with zdotdir := some [47,99]}
    else if at_ = [47,99] ∧ name = .zshrc then some id
    else none

def atHome : Vars := ⟨none,some [47,104],fun _ => none⟩

theorem bootstrap_user {at_ : Value} {name : DotFile} {file : StartupFile} (found : bootstrap.user at_ name = some file) :
    file = (fun vars => {vars with zdotdir := some [47,99]}) ∨ file = id := by
  unfold bootstrap at found
  dsimp only at found
  split at found
  · exact .inl (Option.some.inj found).symm
  · split at found
    · exact .inr (Option.some.inj found).symm
    · cases found

theorem bootstrap_system {name : DotFile} {file : StartupFile} (found : bootstrap.system name = some file) : file = id := by
  cases name with
  | zshenv => cases found
  | zshrc => exact (Option.some.inj found).symm

theorem bootstrap_fair : Fair (zshDir [47,112]) bootstrap where
  blind name file found vars := by
    rw [bootstrap_system found]
    exact .inl fun value => rfl
  systemApart name file found vars apart := by
    rw [bootstrap_system found]
    exact apart
  userApart at_ name file found vars apart := by
    rcases bootstrap_user found with rfl | rfl
    · exact ⟨fun same => absurd (Option.some.inj same) (by decide),apart.2⟩
    · exact apart
  filled at_ file found vars proper := by
    rcases bootstrap_user found with rfl | rfl
    · simp
    · exact proper

end Perga.ZshStartup

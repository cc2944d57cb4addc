import Mathlib.Data.List.Infix
import Perga.KnownHosts
import Perga.Profiles
import Perga.Transport

namespace Perga

inductive SshError where
  | connect (message : String)
  | hostKeyMismatch
  | auth (message : String)
  | channel (message : String)
  | io (message : String)
  deriving DecidableEq, Repr

def SshError.display : SshError → String
  | .connect message => "ssh connect failed: " ++ message
  | .hostKeyMismatch => "ssh host key mismatch (known_hosts entry has different fingerprint; manual intervention required)"
  | .auth message => "ssh auth failed: " ++ message
  | .channel message => "ssh channel setup failed: " ++ message
  | .io message => "ssh io error: " ++ message

inductive Auth where
  | agent
  | password (password : String)
  deriving DecidableEq, Repr

structure SshConfig where
  host : String
  port : UInt16
  user : String
  auth : Auth
  deriving DecidableEq, Repr

def toSshConfig (profile : HostProfile) : SshConfig where
  host := profile.host
  port := profile.port
  user := profile.user
  auth := match profile.auth with
    | .agent => .agent
    | .password password => .password password

namespace SshSetup
open KnownHosts
variable {R : KnownHosts}

abbrev PublicKey := List UInt8

-- A certificate is offered as the key inside it.
inductive AgentIdentity where
  | publicKey (key : PublicKey) (comment : String)
  | certificate (key : PublicKey) (comment : String)
  deriving DecidableEq, Repr

def AgentIdentity.pubkey : AgentIdentity → PublicKey
  | .publicKey key _ => key
  | .certificate key _ => key

def AgentIdentity.comment : AgentIdentity → String
  | .publicKey _ comment => comment
  | .certificate _ comment => comment

-- `debug` is the `{:?}` of a failure.
inductive AuthResult where
  | success
  | failure (debug : String)
  deriving DecidableEq, Repr

-- What the server is asked for, in order.
inductive Request where
  | connect
  | password (user password : String)
  | publickey (user : String) (key : PublicKey)
  | openSession
  | requestPty (term : String) (cols rows : Nat)
  | requestShell
  deriving DecidableEq, Repr

-- russh connects only where the handler has accepted the server's key; it has an error of its own for
-- a key that was refused, and may fail before the key comes and after it.
inductive Handshake (R : KnownHosts) where
  | broken (e : String)
  | reached (serverPublicKey : R.Key) (refusal : String) (after : Except String Unit)

structure Answers (R : KnownHosts) where
  handshake : Handshake R
  checkFault : Option String
  learnFault : Option String
  agent : Except String Unit
  identities : Except String (List (AgentIdentity × Except String AuthResult))
  password : Except String AuthResult
  openSession : Except String Unit
  requestPty : Except String Unit
  requestShell : Except String Unit

def classifyConnectError (msg : String) : SshError :=
  if "Server refused".toList <:+: msg.toList ∨ "host key".toList <:+: msg.toList then .hostKeyMismatch else .connect msg

def connect (cfg : SshConfig) (a : Answers R) (file : R.File) : R.File × Except SshError Unit :=
  match a.handshake with
  | .broken e => (file,.error (classifyConnectError e))
  | .reached key refusal after =>
    match checkServerKey file ⟨⟨cfg.host,cfg.port⟩,key,a.checkFault,a.learnFault⟩ with
    | (file,true) => (file,after.mapError classifyConnectError)
    | (file,false) => (file,.error (classifyConnectError refusal))

def authenticateViaPassword (user password : String) (answer : Except String AuthResult) : List Request × Except SshError Unit :=
  ([.password user password],
    match answer with
    | .error e => .error (.auth ("password auth: " ++ e))
    | .ok .success => .ok ()
    | .ok (.failure debug) => .error (.auth ("password rejected (server may not allow password auth); result = " ++ debug)))

def allRejected (lastFailure : Option String) : SshError :=
  .auth ("all agent identities rejected by server" ++ (lastFailure.map fun m => " (last: " ++ m ++ ")").getD "")

-- What an identity leaves behind where it does not succeed.
def failure (id : AgentIdentity) : Except String AuthResult → String
  | .error e => "identity '" ++ id.comment ++ "': " ++ e
  | .ok _ => "identity '" ++ id.comment ++ "' rejected"

def tryIdentities (user : String) : Option String → List (AgentIdentity × Except String AuthResult) → List Request × Except SshError Unit
  | lastFailure,[] => ([],.error (allRejected lastFailure))
  | _,(id,.ok .success) :: _ => ([.publickey user id.pubkey],.ok ())
  | _,(id,answer) :: rest =>
    let later := tryIdentities user (some (failure id answer)) rest
    (.publickey user id.pubkey :: later.1,later.2)

def authenticateViaAgent (user : String) (a : Answers R) : List Request × Except SshError Unit :=
  match a.agent with
  | .error e => ([],.error (.auth ("connect ssh-agent (is SSH_AUTH_SOCK set?): " ++ e)))
  | .ok _ =>
    match a.identities with
    | .error e => ([],.error (.auth ("request_identities from agent: " ++ e)))
    | .ok [] => ([],.error (.auth "ssh-agent has no identities loaded (run `ssh-add` to add a key)"))
    | .ok identities => tryIdentities user none identities

def authenticate (cfg : SshConfig) (a : Answers R) : List Request × Except SshError Unit :=
  match cfg.auth with
  | .agent => authenticateViaAgent cfg.user a
  | .password password => authenticateViaPassword cfg.user password a.password

def openShell (size : TerminalSize) (a : Answers R) : List Request × Except SshError Unit :=
  match a.openSession with
  | .error e => ([.openSession],.error (.channel ("open_session: " ++ e)))
  | .ok _ =>
    let pty := Request.requestPty "xterm-256color" size.cols.toNat size.rows.toNat
    match a.requestPty with
    | .error e => ([.openSession,pty],.error (.channel ("request_pty: " ++ e)))
    | .ok _ =>
      ([.openSession,pty,.requestShell],a.requestShell.mapError fun e => .channel ("request_shell: " ++ e))

structure Outcome (R : KnownHosts) where
  file : R.File
  requests : List Request
  result : Except SshError Unit

def connectAndOpenShell (cfg : SshConfig) (size : TerminalSize) (a : Answers R) (file : R.File) : Outcome R :=
  match connect cfg a file with
  | (file,.error e) => ⟨file,[.connect],.error e⟩
  | (file,.ok _) =>
    match authenticate cfg a with
    | (requests,.error e) => ⟨file,.connect :: requests,.error e⟩
    | (requests,.ok _) => ⟨file,.connect :: requests ++ (openShell size a).1,(openShell size a).2⟩

-- One attempt to open a profile's host.
structure Attempt (R : KnownHosts) where
  profile : HostProfile
  size : TerminalSize
  answers : Answers R

def Attempt.outcome (t : Attempt R) (file : R.File) : Outcome R := connectAndOpenShell (toSshConfig t.profile) t.size t.answers file
def Attempt.next (file : R.File) (t : Attempt R) : R.File := (t.outcome file).file

def succeeds : Except String AuthResult → Bool
  | .ok .success => true
  | _ => false

-- What a profile may show to a server, in order, and what the server says to it.
def credentials (profile : HostProfile) (a : Answers R) : List (Request × Except String AuthResult) :=
  match profile.auth with
  | .password password => [(.password profile.user password,a.password)]
  | .agent =>
    match a.agent,a.identities with
    | .ok _,.ok identities => identities.map fun (id,answer) => (.publickey profile.user id.pubkey,answer)
    | _,_ => []

-- They are shown up to the first that succeeds.
def shown : List (Request × Except String AuthResult) → List Request
  | [] => []
  | (request,answer) :: rest => if succeeds answer then [request] else request :: shown rest

theorem tryIdentities_shown (user : String) (identities : List (AgentIdentity × Except String AuthResult)) (lastFailure : Option String) :
    let list := identities.map fun (id,answer) => (Request.publickey user id.pubkey,answer)
    (tryIdentities user lastFailure identities).1 = shown list ∧
      (tryIdentities user lastFailure identities).2 =
        if list.any (succeeds ·.2) then .ok () else .error (allRejected ((identities.getLast?.map fun (id,answer) => failure id answer).or lastFailure)) := by
  induction identities generalizing lastFailure with
  | nil => exact ⟨rfl,rfl⟩
  | cons first rest ih =>
      obtain ⟨id,answer⟩ := first
      obtain ⟨requests,result⟩ := ih (some (failure id answer))
      have next : ∀ verdict, answer = verdict → succeeds verdict = false → tryIdentities user lastFailure ((id,answer) :: rest) =
          (.publickey user id.pubkey :: (tryIdentities user (some (failure id answer)) rest).1,(tryIdentities user (some (failure id answer)) rest).2) := by
        intro verdict same other
        subst same
        cases answer with
        | error e => rfl
        | ok verdict =>
            cases verdict with
            | success => cases other
            | failure debug => rfl
      cases tried : succeeds answer with
      | true =>
          have accepted : answer = .ok .success := by
            unfold succeeds at tried
            split at tried
            · rfl
            · cases tried
          subst accepted
          exact ⟨rfl,rfl⟩
      | false =>
          rw [next answer rfl tried,requests,result]
          refine ⟨by simp only [List.map_cons,shown,tried,Bool.false_eq_true,if_false],?_⟩
          rw [List.map_cons,List.any_cons,tried,Bool.false_or,List.getLast?_cons]
          cases rest.getLast? with
          | none => rfl
          | some last => rfl

theorem authenticate_shown (profile : HostProfile) (a : Answers R) :
    (authenticate (toSshConfig profile) a).1 = shown (credentials profile a) ∧
      ((authenticate (toSshConfig profile) a).2 = .ok () ↔ (credentials profile a).any (succeeds ·.2) = true) := by
  unfold authenticate toSshConfig credentials
  cases profile.auth with
  | password password =>
      refine ⟨?_,?_⟩
      · dsimp only [authenticateViaPassword,shown]
        split <;> rfl
      · dsimp only [authenticateViaPassword]
        cases a.password with
        | error e => simp [succeeds]
        | ok verdict => cases verdict <;> simp [succeeds]
  | agent =>
      dsimp only [authenticateViaAgent]
      cases a.agent with
      | error e => simp [shown]
      | ok _ =>
          cases a.identities with
          | error e => simp [shown]
          | ok identities =>
              obtain ⟨requests,result⟩ := tryIdentities_shown profile.user identities none
              cases identities with
              | nil => simp [shown]
              | cons first rest =>
                  refine ⟨requests,?_⟩
                  dsimp only at result ⊢
                  rw [result]
                  split
                  · rename_i some_accepted
                    exact iff_of_true rfl some_accepted
                  · rename_i none_accepted
                    exact iff_of_false (fun wrong => by cases wrong) none_accepted

def shellRequests (size : TerminalSize) : List Request :=
  [.openSession,.requestPty "xterm-256color" size.cols.toNat size.rows.toNat,.requestShell]

theorem openShell_requests (size : TerminalSize) (a : Answers R) :
    (openShell size a).1 <+: shellRequests size ∧ ((openShell size a).2 = .ok () → (openShell size a).1 = shellRequests size) := by
  unfold openShell
  cases a.openSession with
  | error e => exact ⟨⟨_,rfl⟩,fun wrong => by cases wrong⟩
  | ok _ =>
      cases a.requestPty with
      | error e => exact ⟨⟨_,rfl⟩,fun wrong => by cases wrong⟩
      | ok _ => exact ⟨⟨[],rfl⟩,fun _ => rfl⟩

-- The server showed this key, no other key of its kind was on record for the host, and now it is itself.
def Trusted (file : R.File) (t : Attempt R) (after : R.File) : Prop :=
  ∃ key refusal rest, t.answers.handshake = .reached key refusal rest ∧
    (∀ k ∈ R.recorded file t.profile.host t.profile.port, R.algorithm k = R.algorithm key → k = key) ∧
    key ∈ R.recorded after t.profile.host t.profile.port

theorem accepted_alone (file : R.File) (call : Call R) (accepted : (checkServerKey file call).2 = true) :
    ∀ k ∈ keysOf file call, R.algorithm k = R.algorithm call.serverPublicKey → k = call.serverPublicKey := by
  obtain ⟨⟨host,port⟩,key,checkFault,learnFault⟩ := call
  intro k member kind
  apply Classical.byContradiction
  intro other
  cases checkFault with
  | some e =>
      simp only [checkServerKey,R.check_fails] at accepted
      cases accepted
  | none =>
      obtain ⟨line,changed⟩ := R.check_changed host port key file k member kind other
      simp only [checkServerKey,changed] at accepted
      cases accepted

theorem connect_trusted (file : R.File) (t : Attempt R) (connected : (connect (toSshConfig t.profile) t.answers file).2 = .ok ()) :
    Trusted file t (connect (toSshConfig t.profile) t.answers file).1 := by
  unfold connect at connected ⊢
  cases shake : t.answers.handshake with
  | broken e =>
      rw [shake] at connected
      cases connected
  | reached key refusal rest =>
      rw [shake] at connected
      let call : Call R := ⟨⟨t.profile.host,t.profile.port⟩,key,t.answers.checkFault,t.answers.learnFault⟩
      have alone := accepted_alone file call
      have records := (keeps file call).1
      unfold KnownHosts.step at records
      change (match checkServerKey file call with | (file,true) => _ | (file,false) => _ : R.File × Except SshError Unit).2 = _ at connected
      change Trusted file t (match checkServerKey file call with | (file,true) => _ | (file,false) => _ : R.File × Except SshError Unit).1
      generalize checkServerKey file call = checked at alone records connected ⊢
      obtain ⟨after,accepted⟩ := checked
      cases accepted with
      | true => exact ⟨key,refusal,rest,shake,alone rfl,records rfl⟩
      | false => cases connected

theorem connect_keeps (file : R.File) (cfg : SshConfig) (a : Answers R) (host : String) (port : UInt16) :
    ∀ k ∈ R.recorded file host port, k ∈ R.recorded (connect cfg a file).1 host port := by
  unfold connect
  cases a.handshake with
  | broken e => exact fun _ => id
  | reached key refusal rest =>
      let call : Call R := ⟨⟨cfg.host,cfg.port⟩,key,a.checkFault,a.learnFault⟩
      have kept := (keeps file call).2 host port
      unfold KnownHosts.step at kept
      change ∀ k ∈ _, k ∈ R.recorded (match checkServerKey file call with | (file,true) => _ | (file,false) => _ : R.File × Except SshError Unit).1 host port
      generalize checkServerKey file call = checked at kept ⊢
      obtain ⟨after,accepted⟩ := checked
      cases accepted <;> exact kept

-- What an attempt asks the server for: its credentials up to the first that succeeds where the server
-- is trusted, then a shell of the right size where one has, and a session only behind all of it.
structure Careful (file : R.File) (t : Attempt R) : Prop where
  requests : ∃ offered shell, (t.outcome file).requests = .connect :: (offered ++ shell) ∧
    (offered = [] ∨ offered = shown (credentials t.profile t.answers)) ∧ shell <+: shellRequests t.size ∧
    (offered ≠ [] ∨ shell ≠ [] → Trusted file t (Attempt.next file t)) ∧
    (shell ≠ [] → (credentials t.profile t.answers).any (succeeds ·.2) = true)
  opened : (t.outcome file).result = .ok () → Trusted file t (Attempt.next file t) ∧
    (t.outcome file).requests = .connect :: (shown (credentials t.profile t.answers) ++ shellRequests t.size) ∧
    (credentials t.profile t.answers).any (succeeds ·.2) = true
  kept : ∀ host port, ∀ k ∈ R.recorded file host port, k ∈ R.recorded (Attempt.next file t) host port

theorem attempt_careful (file : R.File) (t : Attempt R) : Careful file t := by
  obtain ⟨offers,granted⟩ := authenticate_shown t.profile t.answers
  obtain ⟨shell,whole⟩ := openShell_requests t.size t.answers
  have trusted := connect_trusted file t
  have kept := connect_keeps file (toSshConfig t.profile) t.answers
  have outcome : t.outcome file = connectAndOpenShell (toSshConfig t.profile) t.size t.answers file := rfl
  unfold connectAndOpenShell at outcome
  generalize connect (toSshConfig t.profile) t.answers file = connection at trusted kept outcome
  generalize authenticate (toSshConfig t.profile) t.answers = auth at offers granted outcome
  obtain ⟨after,connected⟩ := connection
  obtain ⟨offered,verdict⟩ := auth
  cases connected with
  | error e =>
      have same : t.outcome file = ⟨after,[.connect],.error e⟩ := outcome
      refine ⟨⟨[],[],by rw [same]; rfl,.inl rfl,List.nil_prefix,fun wrong => (by simp at wrong),fun wrong => absurd rfl wrong⟩,?_,?_⟩
      · rw [same]
        exact fun wrong => by cases wrong
      · rw [Attempt.next,same]
        exact kept
  | ok _ =>
      have trust := trusted rfl
      cases verdict with
      | error e =>
          have same : t.outcome file = ⟨after,.connect :: offered,.error e⟩ := outcome
          have next : Attempt.next file t = after := congrArg Outcome.file same
          refine ⟨⟨offered,[],by rw [same,List.append_nil],.inr offers,List.nil_prefix,fun _ => next ▸ trust,fun wrong => absurd rfl wrong⟩,?_,?_⟩
          · rw [same]
            exact fun wrong => by cases wrong
          · rw [next]
            exact kept
      | ok _ =>
          have any := granted.mp rfl
          have same : t.outcome file = ⟨after,.connect :: offered ++ (openShell t.size t.answers).1,(openShell t.size t.answers).2⟩ := outcome
          have next : Attempt.next file t = after := congrArg Outcome.file same
          refine ⟨⟨offered,_,by rw [same]; rfl,.inr offers,shell,fun _ => next ▸ trust,fun _ => any⟩,fun opened => ?_,?_⟩
          · rw [same] at opened ⊢
            refine ⟨next ▸ trust,?_,any⟩
            change Request.connect :: (offered ++ _) = _
            rw [whole opened,← offers]
          · rw [next]
            exact kept

-- Over any attempts to open any profiles, against servers that show any keys, with one known_hosts file:
-- no password and no key of the agent is shown, and no shell asked for, before the server has shown the
-- one key of its kind that is on record for the host.
theorem credentials_guarded (file : R.File) (attempts : List (Attempt R)) : StepRuns.Along Attempt.next Careful file attempts :=
  StepRuns.run_along (fun _ => True) attempts trivial fun file t _ => ⟨attempt_careful file t,trivial⟩

end SshSetup
end Perga

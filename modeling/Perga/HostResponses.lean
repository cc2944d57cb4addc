import Mathlib.Data.List.Basic
import Perga.ProfileStore

namespace Perga

structure HostProfileSummary where
  id : String
  name : String
  host : String
  port : UInt16
  user : String
  authKind : String
  deriving DecidableEq, Repr

def HostProfileSummary.from (p : HostProfile) : HostProfileSummary :=
  ⟨p.id,p.name,p.host,p.port,p.user,match p.auth with
    | .agent => "agent"
    | .password _ => "password"⟩

-- `ProfileError`'s `Display`.
def ProfileError.display : ProfileError → String
  | .io message => "read profile file: " ++ message
  | .parse message => "parse profile file: " ++ message
  | .notFound id => "profile not found: " ++ id
  | .conflict message => "profile conflict: " ++ message
  | .validation message => "profile validation failed: " ++ message

namespace HostResponses
open Profiles
variable {F : Toml}

-- What the serialised body shows; a request without one has `empty`.
inductive Body where
  | summaries (hosts : List HostProfileSummary)
  | summary (host : HostProfileSummary)
  | text (message : String)
  | empty
  deriving DecidableEq, Repr

structure Response where
  status : Nat
  body : Body
  deriving DecidableEq, Repr

def profileErrorToResponse (e : ProfileError) : Response :=
  let status := match e with
    | .notFound _ => 404
    | .conflict _ => 409
    | .validation _ => 422
    | .io _ => 500
    | .parse _ => 500
  ⟨status,.text e.display⟩

-- One call of the server: its hosts.toml when `$HOME` is set, and where its temporary file goes.
structure Served where
  path : Option HostsPath
  pid : Nat
  number : Nat
  faults : Faults
  deriving DecidableEq, Repr

def defaultProfilesPath (served : Served) : Except ProfileError HostsPath :=
  match served.path with
  | none => .error (.io "$HOME not set; cannot locate ~/.perga/hosts.toml")
  | some path => .ok path

def loadProfiles (served : Served) (disk : Disk F) : Except ProfileError (List HostProfile) :=
  match defaultProfilesPath served with
  | .error e => .error e
  | .ok path => loadProfilesFrom path served.faults.read disk

-- `create_profile`, `update_profile` and `delete_profile` on the default path.
def requestProfile (request : Request) (served : Served) (disk : Disk F) : Except ProfileError (Option HostProfile) :=
  match defaultProfilesPath served with
  | .error e => .error e
  | .ok path => (request.run ⟨path,served.pid,served.number⟩ served.faults disk).2

def listHosts (served : Served) (disk : Disk F) : Response :=
  match loadProfiles served disk with
  | .error e => profileErrorToResponse e
  | .ok profiles => ⟨200,.summaries (profiles.map .from)⟩

-- The handlers of the three requests: 200 with the stored profile, 204 without one.
def changeHosts (request : Request) (served : Served) (disk : Disk F) : Response :=
  match requestProfile request served disk with
  | .error e => profileErrorToResponse e
  | .ok (some profile) => ⟨200,.summary (.from profile)⟩
  | .ok none => ⟨204,.empty⟩

def createHost (profile : HostProfile) : Served → Disk F → Response := changeHosts (.create profile)

def updateHost (id : String) (profile : HostProfile) : Served → Disk F → Response := changeHosts (.update id profile)

def deleteHost (id : String) : Served → Disk F → Response := changeHosts (.delete id)

-- The lookup at the start of `spawn_ssh_blocking`; its error is the reason of the SessionError.
def lookupProfile (id : String) (served : Served) (disk : Disk F) : Except String HostProfile :=
  match loadProfiles served disk with
  | .error e => .error ("load host profiles: " ++ e.display)
  | .ok profiles =>
    match findProfile profiles id with
    | none => .error ("host profile '" ++ id ++ "' not found in ~/.perga/hosts.toml; 在设置面板里检查 host 列表")
    | some profile => .ok profile

inductive Endpoint where
  | list
  | create (profile : HostProfile)
  | update (id : String) (profile : HostProfile)
  | delete (id : String)
  | session (id : String)
  deriving DecidableEq, Repr

-- What the client gets; a session whose profile is found goes on to connect.
inductive Answer where
  | http (response : Response)
  | sessionError (reason : String)
  | connects
  deriving DecidableEq, Repr

def answer (endpoint : Endpoint) (served : Served) (disk : Disk F) : Answer :=
  match endpoint with
  | .list => .http (listHosts served disk)
  | .create profile => .http (createHost profile served disk)
  | .update id profile => .http (updateHost id profile served disk)
  | .delete id => .http (deleteHost id served disk)
  | .session id =>
    match lookupProfile id served disk with
    | .error reason => .sessionError reason
    | .ok _ => .connects

-- toml's parse errors with their source line, which the error text quotes. `Alike` are two texts that
-- differ inside their password strings only.
structure TomlError where
  kind : String
  line : Nat
  column : Nat
  deriving DecidableEq, Repr

structure TomlSource where
  Text : Type
  chars : Text → List Char
  toString : List HostProfile → Except String Text
  parse : Text → Except TomlError (List HostProfile)
  roundtrip : ∀ hosts, ∃ text, toString hosts = .ok text ∧ parse text = .ok hosts
  display : TomlError → List Char → String
  quotes : ∀ e, Function.Injective (display e)
  Alike : Text → Text → Prop
  alike_loads : ∀ {a b hosts others}, Alike a b → parse a = .ok hosts → parse b = .ok others →
    hosts.map HostProfileSummary.from = others.map .from

variable (S : TomlSource)

def TomlSource.sourceLine (text : S.Text) (e : TomlError) : List Char := (((S.chars text).splitOn '\n')[e.line-1]?).getD []

def TomlSource.toml : Toml where
  Text := S.Text
  toString := S.toString
  fromStr text := match S.parse text with
    | .error e => .error (S.display e (S.sourceLine text e))
    | .ok hosts => .ok hosts
  roundtrip hosts := by
    obtain ⟨text,written,parsed⟩ := S.roundtrip hosts
    exact ⟨text,written,by rw [parsed]⟩

section alike
variable {hosts others : List HostProfile} (alike : hosts.map HostProfileSummary.from = others.map .from)
include alike

theorem alike_ids : ids hosts = ids others := by
  have same := congrArg (List.map HostProfileSummary.id) alike
  rw [List.map_map,List.map_map] at same
  exact same

theorem alike_duplicate (seen : List String) : firstDuplicate seen hosts = firstDuplicate seen others := by
  induction hosts generalizing others seen with
  | nil =>
      cases others with
      | nil => rfl
      | cons p rest => cases alike
  | cons p rest ih =>
      cases others with
      | nil => cases alike
      | cons q more =>
          rw [List.map_cons,List.map_cons] at alike
          obtain ⟨first,later⟩ := List.cons.inj alike
          have same : p.id = q.id := congrArg HostProfileSummary.id first
          rw [firstDuplicate,firstDuplicate,same,ih later]

theorem alike_index (id : String) :
    (hosts.findIdx? fun p => p.id == id) = others.findIdx? fun p => p.id == id := by
  have found (list : List HostProfile) :
      (list.findIdx? fun p => p.id == id) = (ids list).findIdx? (· == id) := by
    rw [ids,List.findIdx?_map]
    rfl
  rw [found,found,alike_ids alike]

theorem alike_found (id : String) : (findProfile hosts id).isSome = (findProfile others id).isSome := by
  have found (list : List HostProfile) : (findProfile list id).isSome = ((ids list).find? (· == id)).isSome := by
    rw [ids,List.find?_map,Option.isSome_map]
    rfl
  rw [found,found,alike_ids alike]

-- A change is refused for both lists with the same error, or for neither.
theorem alike_change (request : Request) :
    ((request.change hosts).map fun _ => ()) = (request.change others).map fun _ => () := by
  cases request with
  | create profile =>
      have present : (hosts.any fun p => p.id == profile.id) = others.any fun p => p.id == profile.id := by
        have found (list : List HostProfile) : (list.any fun p => p.id == profile.id) = (ids list).any (· == profile.id) := by
          rw [ids,List.any_map]
          rfl
        rw [found,found,alike_ids alike]
      simp only [Request.change,appended,present]
      split <;> rfl
  | update id updated =>
      simp only [Request.change,replaced,alike_index alike id]
      split <;> rfl
  | delete id =>
      simp only [Request.change,removed,alike_index alike id]
      split <;> rfl

end alike

-- How a save ends depends on the place and on what fails there only.
theorem save_outcome (first second : List HostProfile) (place : Place) (faults : Faults) (left right : Disk F) :
    (saveProfilesAtomic first place faults left).2 = (saveProfilesAtomic second place faults right).2 := by
  obtain ⟨one,writtenOne,_⟩ := F.roundtrip first
  obtain ⟨two,writtenTwo,_⟩ := F.roundtrip second
  simp only [saveProfilesAtomic,stageProfiles,writtenOne,writtenTwo]
  cases place.path.parent with
  | none => rfl
  | some parent =>
      cases faults.createDir with
      | some e => rfl
      | none =>
          cases faults.write with
          | some e => rfl
          | none =>
              cases faults.chmod with
              | some e => rfl
              | none => cases rename : faults.rename <;> simp [renameProfiles,Disk.put,rename]

-- Two loads that fail alike or give lists that differ in passwords only.
inductive LoadsAlike : Except ProfileError (List HostProfile) → Except ProfileError (List HostProfile) → Prop where
  | failed (e : ProfileError) : LoadsAlike (.error e) (.error e)
  | loaded (hosts others : List HostProfile) (alike : hosts.map HostProfileSummary.from = others.map .from) :
      LoadsAlike (.ok hosts) (.ok others)

section disks
variable {left right : Disk F}

theorem rewrite_alike (request : Request) (place : Place) (faults : Faults)
    (loads : LoadsAlike (loadProfilesFrom place.path faults.read left) (loadProfilesFrom place.path faults.read right)) :
    (rewriteAt request.check request.change place faults left).2 =
      (rewriteAt request.check request.change place faults right).2 := by
  unfold rewriteAt
  cases request.check with
  | error e => rfl
  | ok done =>
      dsimp only
      generalize loadProfilesFrom place.path faults.read left = one at loads
      generalize loadProfilesFrom place.path faults.read right = two at loads
      cases loads with
      | failed e => rfl
      | loaded hosts others alike =>
          have changes := alike_change alike request
          cases first : request.change hosts with
          | error e =>
              cases second : request.change others with
              | error e' =>
                  rw [first,second] at changes
                  cases changes
                  simp only [first,second]
              | ok next => rw [first,second] at changes; cases changes
          | ok next =>
              cases second : request.change others with
              | error e => rw [first,second] at changes; cases changes
              | ok next' =>
                  simp only [first,second]
                  exact save_outcome next next' place faults left right

theorem request_alike (request : Request) (served : Served)
    (loads : LoadsAlike (loadProfiles served left) (loadProfiles served right)) :
    requestProfile request served left = requestProfile request served right := by
  unfold loadProfiles at loads
  unfold requestProfile
  cases found : defaultProfilesPath served with
  | error e => rfl
  | ok path =>
      rw [found] at loads
      have same := rewrite_alike request ⟨path,served.pid,served.number⟩ served.faults loads
      dsimp only
      rw [run_rewrites,run_rewrites,same]

theorem answer_alike (endpoint : Endpoint) (served : Served)
    (loads : LoadsAlike (loadProfiles served left) (loadProfiles served right)) :
    answer endpoint served left = answer endpoint served right := by
  cases endpoint with
  | list =>
      simp only [answer,listHosts]
      generalize loadProfiles served left = one at loads
      generalize loadProfiles served right = two at loads
      cases loads with
      | failed e => rfl
      | loaded hosts others alike =>
          dsimp only
          rw [alike]
  | create profile => simp only [answer,createHost,changeHosts,request_alike (.create profile) served loads]
  | update id profile => simp only [answer,updateHost,changeHosts,request_alike (.update id profile) served loads]
  | delete id => simp only [answer,deleteHost,changeHosts,request_alike (.delete id) served loads]
  | session id =>
      simp only [answer,lookupProfile]
      generalize loadProfiles served left = one at loads
      generalize loadProfiles served right = two at loads
      cases loads with
      | failed e => rfl
      | loaded hosts others alike =>
          have found := alike_found alike id
          dsimp only
          cases first : findProfile hosts id with
          | none =>
              cases second : findProfile others id with
              | none => rfl
              | some q => rw [first,second] at found; cases found
          | some p =>
              cases second : findProfile others id with
              | none => rw [first,second] at found; cases found
              | some q => rfl

end disks

section contents
variable {S : TomlSource} {a b : S.Text} (temps : Nat → Option S.Text)

def holding (text : S.Text) : Disk S.toml := ⟨some text,temps⟩

-- The two texts load, or they fail with the same kind of error at the same position.
inductive SameOutcome (S : TomlSource) (a b : S.Text) : Prop where
  | loads (hosts others : List HostProfile) (first : S.parse a = .ok hosts) (second : S.parse b = .ok others)
  | fails (e : TomlError) (first : S.parse a = .error e) (second : S.parse b = .error e)

theorem load_alike (alike : S.Alike a b) (same : SameOutcome S a b)
    (quoted : ∀ e, S.parse a = .error e → S.sourceLine a e = S.sourceLine b e) (served : Served) :
    LoadsAlike (loadProfiles served (holding temps a)) (loadProfiles served (holding temps b)) := by
  unfold loadProfiles
  cases defaultProfilesPath served with
  | error e => exact .failed e
  | ok path =>
      simp only [loadProfilesFrom,holding,TomlSource.toml]
      cases served.faults.read with
      | some e => exact .failed _
      | none =>
          cases same with
          | fails e first second =>
              rw [first,second]
              dsimp only
              rw [quoted e first]
              exact .failed _
          | loads hosts others first second =>
              have equal := S.alike_loads alike first second
              rw [first,second]
              simp only [alike_duplicate equal]
              cases firstDuplicate [] others with
              | some id => exact .failed _
              | none => exact .loaded hosts others equal

-- Any call that gets to reading the file, for which the list is asked.
def listing : Served := ⟨some homePath,0,0,.none⟩

theorem listing_error {e : TomlError} (failed : S.parse a = .error e) :
    answer .list listing (holding temps a) =
      .http ⟨500,.text ("parse profile file: " ++ (homePath.display ++ ": " ++ S.display e (S.sourceLine a e)))⟩ := by
  simp only [answer,listHosts,loadProfiles,defaultProfilesPath,listing,loadProfilesFrom,Faults.none,holding,
    TomlSource.toml,failed]
  rfl

-- Two contents that differ in their passwords only and end alike get the same answers from every
-- endpoint, whatever else happens, exactly when a parse error quotes the same line of both.
theorem answers_hide_passwords (S : TomlSource) (a b : S.Text) (alike : S.Alike a b) (same : SameOutcome S a b) :
    (∀ endpoint served temps, answer endpoint served (holding temps a) = answer endpoint served (holding temps b)) ↔
      ∀ e, S.parse a = .error e → S.sourceLine a e = S.sourceLine b e := by
  constructor
  · intro hides e failed
    have other : S.parse b = .error e := by
      cases same with
      | loads hosts others first second => rw [failed] at first; cases first
      | fails e' first second =>
          rw [failed] at first
          cases first
          exact second
    have answers := hides .list listing fun _ => none
    rw [listing_error _ failed,listing_error _ other] at answers
    injection answers with response
    injection response with _ body
    injection body with text
    exact S.quotes e ((String.append_right_inj _).mp ((String.append_right_inj _).mp text))
  · intro quoted endpoint served temps
    exact answer_alike endpoint served (load_alike temps alike same quoted served)

end contents

-- A file that was written by the server, or one whose last inline table was left open by hand.
inductive DemoText where
  | written (hosts : List HostProfile)
  | unclosed (password : String)

def unclosedChars (password : String) : List Char :=
  ("[[hosts]]\nid = \"a\"\nname = \"a\"\nhost = \"10.0.0.1\"\nuser = \"u\"\n" ++
    "auth = \x7b type = \"password\", password = \"").toList ++ password.toList ++ "\"\n".toList

def tomlDisplay (e : TomlError) (line : List Char) : String :=
  "TOML parse error at line " ++ toString e.line ++ ", column " ++ toString e.column ++ "\n  |\n" ++ toString e.line ++
    " | " ++ String.ofList line ++ ("\n  |" ++ String.ofList (List.replicate e.column ' ') ++ "^\n" ++ e.kind ++ "\n")

theorem tomlDisplay_quotes (e : TomlError) : Function.Injective (tomlDisplay e) := by
  intro first second same
  have lines := (String.append_right_inj _).mp ((String.append_left_inj _).mp same)
  exact String.ofList_injective lines

def demo : TomlSource where
  Text := DemoText
  chars
    | .written _ => []
    | .unclosed password => unclosedChars password
  toString hosts := .ok (.written hosts)
  parse
    | .written hosts => .ok hosts
    | .unclosed password => .error ⟨"invalid inline table\nexpected `\x7d`",6,42+password.length⟩
  roundtrip hosts := ⟨.written hosts,rfl,rfl⟩
  display := tomlDisplay
  quotes := tomlDisplay_quotes
  Alike
    | .written hosts,.written others => hosts.map HostProfileSummary.from = others.map .from
    | .unclosed _,.unclosed _ => True
    | _,_ => False
  alike_loads {a b hosts others} alike first second := by
    cases a with
    | unclosed password => cases first
    | written one =>
        cases b with
        | unclosed password => cases second
        | written two =>
            cases first
            cases second
            exact alike

def passwordHost (password : String) : HostProfile := ⟨"a","a","10.0.0.1",22,"u",.password password⟩

theorem answers_hide_passwords_written :
    let left : Disk demo.toml := holding (fun _ => none) (.written [passwordHost "hunter2"])
    let right : Disk demo.toml := holding (fun _ => none) (.written [passwordHost "letmein"])
    answer .list listing left = answer .list listing right ∧
      answer (.update "a" (passwordHost "")) listing left = answer (.update "a" (passwordHost "")) listing right ∧
      answer (.session "b") listing left = answer (.session "b") listing right := by
  intro left right
  have same := (answers_hide_passwords demo (.written [passwordHost "hunter2"]) (.written [passwordHost "letmein"]) rfl
    (.loads _ _ rfl rfl)).mpr fun e failed => by cases failed
  exact ⟨same .list listing _,same (.update "a" (passwordHost "")) listing _,same (.session "b") listing _⟩

-- The body of the error response holds the password of the line.
theorem parse_error_quotes_password :
    demo.Alike (.unclosed "hunter2") (.unclosed "letmein") ∧ SameOutcome demo (.unclosed "hunter2") (.unclosed "letmein") ∧
      answer .list listing (holding (S := demo) (fun _ => none) (.unclosed "hunter2")) =
        .http ⟨500,.text ("parse profile file: /home/u/.perga/hosts.toml: TOML parse error at line 6, column 49\n  |\n" ++
          "6 | auth = \x7b type = \"password\", password = \"hunter2\"\n" ++
          "  |                                                 ^\ninvalid inline table\nexpected `\x7d`\n")⟩ ∧
      answer .list listing (holding (S := demo) (fun _ => none) (.unclosed "hunter2")) ≠
        answer .list listing (holding (S := demo) (fun _ => none) (.unclosed "letmein")) := by
  refine ⟨trivial,.fails _ rfl rfl,by decide +kernel,fun same => ?_⟩
  have left := listing_error (S := demo) (a := .unclosed "hunter2") (fun _ => none) rfl
  have right := listing_error (S := demo) (a := .unclosed "letmein") (fun _ => none) rfl
  injection left.symm.trans (same.trans right) with response
  injection response with _ body
  injection body with text
  have lines := tomlDisplay_quotes _ ((String.append_right_inj _).mp ((String.append_right_inj _).mp text))
  exact absurd lines (by decide +kernel)

end HostResponses

end Perga

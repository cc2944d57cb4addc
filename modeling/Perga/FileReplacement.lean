import Mathlib.Data.List.Induction
import Mathlib.Logic.Function.Basic
import Perga.Runs

-- Files that are replaced by filling a temporary file and renaming it over them.
namespace FileReplacement
variable {ι : Type u} {ρ : Type v} {Name : Type w} {β : Type x}

-- Names are links to inodes; the inodes from `fresh` on have never been used.
structure Disk (Name : Type w) (β : Type x) where
  link : Name → Option Nat
  inode : Nat → List β
  fresh : Nat

structure Call (Name : Type w) (β : Type x) where
  temp : Name
  target : Name
  content : List β

inductive Writer (β : Type x) where
  | waiting
  | filling (ino : Nat) (rest : List β)
  | filled
  | over

inductive Reader (β : Type x) where
  | closed
  | missing
  | reading (ino : Nat) (got : List β)
  | finished (got : List β)

structure World (ι : Type u) (ρ : Type v) (Name : Type w) (β : Type x) where
  disk : Disk Name β
  writer : ι → Writer β
  reader : ρ → Reader β

-- A call may be given up between any two of its steps, and a write or a read may be cut short anywhere.
inductive Move (ι : Type u) (ρ : Type v) (Name : Type w) where
  | create (i : ι)
  | write (i : ι) (count : Nat)
  | rename (i : ι)
  | abandon (i : ι)
  | opens (r : ρ) (name : Name)
  | reads (r : ρ) (count : Nat)

def begun (disk : Disk Name β) : World ι ρ Name β := ⟨disk,fun _ => .waiting,fun _ => .closed⟩

-- What the files are meant to be: contents that are put and got whole.
structure Store (ρ : Type v) (Name : Type w) (β : Type x) where
  current : Name → Option (List β)
  held : ρ → Option (List β)

def meant (disk : Disk Name β) : Store ρ Name β := ⟨fun name => (disk.link name).map disk.inode,fun _ => none⟩

-- Every call has a temporary name of its own, which nobody writes to or reads from.
structure Private (calls : ι → Call Name β) : Prop where
  own : ∀ i j, (calls i).temp = (calls j).temp → i = j
  apart : ∀ i j, (calls i).target ≠ (calls j).temp

def Outside (calls : ι → Call Name β) : Move ι ρ Name → Prop
  | .opens _ name => ∀ i, name ≠ (calls i).temp
  | _ => True

-- No other name leads to a file under a temporary name; such a file may be there from before.
structure Clean (calls : ι → Call Name β) (disk : Disk Name β) : Prop where
  bound : ∀ name ino, disk.link name = some ino → ino < disk.fresh
  alone : ∀ i name ino, disk.link (calls i).temp = some ino → disk.link name = some ino → name = (calls i).temp

-- A file that no call will write to again.
def Settled (calls : ι → Call Name β) (disk : Disk Name β) (ino : Nat) : Prop :=
  ino < disk.fresh ∧ ∀ i, disk.link (calls i).temp ≠ some ino

def Holds (calls : ι → Call Name β) (disk : Disk Name β) (held : Option (List β)) : Reader β → Prop
  | .closed => True
  | .missing => held = none
  | .reading ino got => Settled calls disk ino ∧ held = some (disk.inode ino) ∧ got <+: disk.inode ino
  | .finished got => held = some got

structure Sound (calls : ι → Call Name β) (w : World ι ρ Name β) (s : Store ρ Name β) : Prop where
  clean : Clean calls w.disk
  filling : ∀ i ino rest, w.writer i = .filling ino rest → w.disk.link (calls i).temp = some ino ∧ w.disk.inode ino ++ rest = (calls i).content
  filled : ∀ i, w.writer i = .filled → ∃ ino, w.disk.link (calls i).temp = some ino ∧ w.disk.inode ino = (calls i).content
  shown : ∀ name, (∀ i, name ≠ (calls i).temp) → s.current name = (w.disk.link name).map w.disk.inode
  held : ∀ r, Holds calls w.disk (s.held r) (w.reader r)

theorem begun_sound {calls : ι → Call Name β} {disk : Disk Name β} (clean : Clean calls disk) :
    Sound calls (begun disk : World ι ρ Name β) (meant disk) :=
  ⟨clean,fun _ _ _ wrong => (by cases wrong),fun _ wrong => (by cases wrong),fun _ _ => rfl,fun _ => trivial⟩

variable {calls : ι → Call Name β} {w : World ι ρ Name β} {s : Store ρ Name β}

theorem linked_settled (sound : Sound calls w s) {name : Name} {ino : Nat} (outside : ∀ i, name ≠ (calls i).temp)
    (linked : w.disk.link name = some ino) : Settled calls w.disk ino :=
  ⟨sound.clean.bound name ino linked,fun i temp => outside i (sound.clean.alone i name ino temp linked)⟩

section
variable [DecidableEq ι] [DecidableEq Name]

def World.wrote (w : World ι ρ Name β) (i : ι) (writer : Writer β) : World ι ρ Name β := {w with writer := Function.update w.writer i writer}

-- A step of a call that leaves every settled file as it is.
theorem writer_sound (sound : Sound calls w s) (i : ι) (writer : Writer β) (disk : Disk Name β) (clean : Clean calls disk)
    (bound : w.disk.fresh ≤ disk.fresh) (links : ∀ name, name ≠ (calls i).temp → disk.link name = w.disk.link name)
    (other : ∀ ino, ino < w.disk.fresh → w.disk.link (calls i).temp ≠ some ino → disk.link (calls i).temp ≠ some ino ∧ disk.inode ino = w.disk.inode ino)
    (filling : ∀ ino rest, writer = .filling ino rest → disk.link (calls i).temp = some ino ∧ disk.inode ino ++ rest = (calls i).content)
    (filled : writer = .filled → ∃ ino, disk.link (calls i).temp = some ino ∧ disk.inode ino = (calls i).content)
    (own : Private calls) : Sound calls ({w with disk := disk}.wrote i writer) s := by
  have elsewhere : ∀ j ino, j ≠ i → w.disk.link (calls j).temp = some ino → disk.link (calls j).temp = some ino ∧ disk.inode ino = w.disk.inode ino := by
    intro j ino apart linked
    have different : (calls j).temp ≠ (calls i).temp := fun same => apart (own.own j i same)
    refine ⟨(links _ different).trans linked,(other ino (sound.clean.bound _ _ linked) fun mine => ?_).2⟩
    exact different (sound.clean.alone i _ ino mine linked)
  have settled : ∀ ino, Settled calls w.disk ino → Settled calls disk ino ∧ disk.inode ino = w.disk.inode ino := by
    intro ino ⟨old,unlinked⟩
    refine ⟨⟨Nat.lt_of_lt_of_le old bound,fun j linked => ?_⟩,(other ino old (unlinked i)).2⟩
    by_cases mine : (calls j).temp = (calls i).temp
    · rw [mine] at linked
      exact (other ino old (unlinked i)).1 linked
    · exact unlinked j ((links _ mine).symm.trans linked)
  refine ⟨clean,?_,?_,?_,?_⟩
  · intro j ino rest at_
    by_cases same : j = i
    · subst same
      exact filling ino rest (by simpa [World.wrote] using at_)
    · have before : w.writer j = .filling ino rest := by simpa [World.wrote,same] using at_
      obtain ⟨linked,part⟩ := sound.filling j ino rest before
      obtain ⟨still,kept⟩ := elsewhere j ino same linked
      exact ⟨still,kept ▸ part⟩
  · intro j at_
    by_cases same : j = i
    · subst same
      exact filled (by simpa [World.wrote] using at_)
    · have before : w.writer j = .filled := by simpa [World.wrote,same] using at_
      obtain ⟨ino,linked,whole⟩ := sound.filled j before
      obtain ⟨still,kept⟩ := elsewhere j ino same linked
      exact ⟨ino,still,kept ▸ whole⟩
  · intro name outside
    rw [sound.shown name outside]
    change _ = (disk.link name).map disk.inode
    rw [links name (outside i)]
    cases linked : w.disk.link name with
    | none => rfl
    | some ino => exact congrArg some (settled ino (linked_settled sound outside linked)).2.symm
  · intro r
    have holds := sound.held r
    change Holds calls disk (s.held r) (w.reader r)
    cases at_ : w.reader r with
    | reading ino got =>
        rw [at_] at holds
        obtain ⟨rests,same,part⟩ := holds
        obtain ⟨still,kept⟩ := settled ino rests
        exact ⟨still,kept.symm ▸ same,kept.symm ▸ part⟩
    | _ => rw [at_] at holds; exact holds

-- The file that is there is cut to nothing, or a new one is linked.
def World.created (w : World ι ρ Name β) (temp : Name) : World ι ρ Name β × Nat :=
  match w.disk.link temp with
  | some ino => ({w with disk := {w.disk with inode := Function.update w.disk.inode ino []}},ino)
  | none =>
    ({w with disk := ⟨Function.update w.disk.link temp (some w.disk.fresh),Function.update w.disk.inode w.disk.fresh [],w.disk.fresh+1⟩},
      w.disk.fresh)

theorem created_sound (sound : Sound calls w s) (own : Private calls) {i : ι} :
    Sound calls ((w.created (calls i).temp).1.wrote i (.filling (w.created (calls i).temp).2 (calls i).content)) s := by
  unfold World.created
  cases linked : w.disk.link (calls i).temp with
  | some ino =>
      dsimp only
      refine writer_sound sound i _ _ ⟨sound.clean.bound,sound.clean.alone⟩ (Nat.le_refl _) (fun _ _ => rfl) ?_ ?_ (fun wrong => by cases wrong) own
      · intro other _ apart
        refine ⟨apart,Function.update_of_ne (fun same => apart ?_) _ _⟩
        rw [same]
        exact linked
      · intro other rest same
        cases same
        exact ⟨linked,congrArg (· ++ (calls i).content) (Function.update_self ino [] w.disk.inode)⟩
  | none =>
      dsimp only
      have fresh : ∀ name, Function.update w.disk.link (calls i).temp (some w.disk.fresh) name = some w.disk.fresh → name = (calls i).temp := by
        intro name found
        by_cases same : name = (calls i).temp
        · exact same
        · rw [Function.update_of_ne same] at found
          exact absurd (sound.clean.bound name _ found) (Nat.lt_irrefl _)
      refine writer_sound sound i _ _ ⟨?_,?_⟩ (Nat.le_succ _) (fun name other => Function.update_of_ne other _ _) ?_ ?_ (fun wrong => by cases wrong) own
      · intro name ino found
        by_cases same : name = (calls i).temp
        · rw [same] at found
          simp only [Function.update_self,Option.some.injEq] at found
          subst found
          exact Nat.lt_succ_self _
        · exact Nat.lt_succ_of_lt (sound.clean.bound name ino ((Function.update_of_ne same _ _).symm.trans found))
      · intro j name ino temp found
        by_cases mine : ino = w.disk.fresh
        · subst mine
          rw [fresh name found,fresh _ temp]
        · have old : ∀ other, Function.update w.disk.link (calls i).temp (some w.disk.fresh) other = some ino → w.disk.link other = some ino := by
            intro other found
            by_cases same : other = (calls i).temp
            · subst same
              rw [Function.update_self] at found
              exact absurd (Option.some.inj found).symm mine
            · rwa [Function.update_of_ne same] at found
          exact sound.clean.alone j name ino (old _ temp) (old _ found)
      · intro ino old _
        refine ⟨?_,Function.update_of_ne (Nat.ne_of_lt old) _ _⟩
        change Function.update w.disk.link _ _ _ ≠ _
        rw [Function.update_self]
        exact fun same => Nat.ne_of_lt old (Option.some.inj same).symm
      · intro ino rest same
        cases same
        exact ⟨Function.update_self _ _ _,congrArg (· ++ (calls i).content) (Function.update_self w.disk.fresh [] w.disk.inode)⟩

theorem written_sound (sound : Sound calls w s) (own : Private calls) {i : ι} {ino : Nat} {rest : List β} (at_ : w.writer i = .filling ino rest)
    (count : Nat) : Sound calls ({w with disk := {w.disk with inode := Function.update w.disk.inode ino (w.disk.inode ino ++ rest.take count)}}.wrote i
      (.filling ino (rest.drop count))) s := by
  obtain ⟨linked,part⟩ := sound.filling i ino rest at_
  refine writer_sound sound i _ _ ⟨sound.clean.bound,sound.clean.alone⟩ (Nat.le_refl _) (fun _ _ => rfl) ?_ ?_ (fun wrong => by cases wrong) own
  · intro other _ apart
    refine ⟨apart,Function.update_of_ne (fun same => apart ?_) _ _⟩
    rw [same]
    exact linked
  · intro other more same
    cases same
    refine ⟨linked,?_⟩
    change Function.update w.disk.inode ino _ ino ++ _ = _
    rw [Function.update_self,List.append_assoc,List.take_append_drop]
    exact part

end

section
variable [DecidableEq ρ]

def World.read (w : World ι ρ Name β) (r : ρ) (reader : Reader β) : World ι ρ Name β := {w with reader := Function.update w.reader r reader}

-- A step of one reader.
theorem reader_sound (sound : Sound calls w s) (r : ρ) (reader : Reader β) (held : ρ → Option (List β))
    (others : ∀ q, q ≠ r → held q = s.held q) (holds : Holds calls w.disk (held r) reader) :
    Sound calls (w.read r reader) {s with held := held} := by
  refine ⟨sound.clean,sound.filling,sound.filled,sound.shown,fun q => ?_⟩
  change Holds calls w.disk (held q) (Function.update w.reader r reader q)
  by_cases same : q = r
  · rw [same,Function.update_self]
    exact holds
  · rw [Function.update_of_ne same,others q same]
    exact sound.held q

end

variable [DecidableEq ι] [DecidableEq ρ] [DecidableEq Name]

def World.step (calls : ι → Call Name β) (w : World ι ρ Name β) : Move ι ρ Name → World ι ρ Name β
  | .create i =>
    match w.writer i with
    | .waiting => (w.created (calls i).temp).1.wrote i (.filling (w.created (calls i).temp).2 (calls i).content)
    | _ => w
  | .write i count =>
    match w.writer i with
    | .filling _ [] => w.wrote i .filled
    | .filling ino rest =>
      let disk := {w.disk with inode := Function.update w.disk.inode ino (w.disk.inode ino ++ rest.take count)}
      {w with disk := disk}.wrote i (.filling ino (rest.drop count))
    | _ => w
  | .rename i =>
    match w.writer i with
    | .filled =>
      let call := calls i
      let link := Function.update (Function.update w.disk.link call.target (w.disk.link call.temp)) call.temp none
      {w with disk := {w.disk with link := link}}.wrote i .over
    | _ => w
  | .abandon i => w.wrote i .over
  | .opens r name =>
    match w.disk.link name with
    | some ino => w.read r (.reading ino [])
    | none => w.read r .missing
  | .reads r count =>
    match w.reader r with
    | .reading ino got =>
      if (w.disk.inode ino).length ≤ got.length then w.read r (.finished got)
      else w.read r (.reading ino (got ++ ((w.disk.inode ino).drop got.length).take count))
    | _ => w

-- A rename puts, an open gets, and no other step is seen.
def Store.told (calls : ι → Call Name β) (w : World ι ρ Name β) (s : Store ρ Name β) : Move ι ρ Name → Store ρ Name β
  | .rename i =>
    match w.writer i with
    | .filled => {s with current := Function.update s.current (calls i).target (some (calls i).content)}
    | _ => s
  | .opens r name => {s with held := Function.update s.held r (s.current name)}
  | _ => s

def replay (calls : ι → Call Name β) (w : World ι ρ Name β) (s : Store ρ Name β) : List (Move ι ρ Name) → Store ρ Name β
  | [] => s
  | move :: rest => replay calls (w.step calls move) (s.told calls w move) rest

theorem renamed_sound (sound : Sound calls w s) (own : Private calls) {i : ι} (at_ : w.writer i = .filled) :
    Sound calls (w.step calls (.rename i)) (s.told calls w (.rename i)) := by
  obtain ⟨ino,linked,whole⟩ := sound.filled i at_
  have renamed : w.step calls (.rename i) = {w with disk := {w.disk with link :=
      (Function.update (Function.update w.disk.link (calls i).target (some ino)) (calls i).temp none)}}.wrote i .over := by
    simp only [World.step,at_,linked]
  have put : s.told calls w (.rename i) = {s with current := Function.update s.current (calls i).target (some (calls i).content)} := by
    simp only [Store.told,at_]
  rw [renamed,put]
  let link := Function.update (Function.update w.disk.link (calls i).target (some ino)) (calls i).temp none
  change Sound calls ({w with disk := {w.disk with link := link}}.wrote i .over) _
  have gone : link (calls i).temp = none := Function.update_self _ _ _
  have target : link (calls i).target = some ino := by
    simp only [link,Function.update_of_ne (own.apart i i),Function.update_self]
  have other : ∀ name, name ≠ (calls i).temp → name ≠ (calls i).target → link name = w.disk.link name := by
    intro name temp target
    simp only [link,Function.update_of_ne temp,Function.update_of_ne target]
  have temps : ∀ j ino, link (calls j).temp = some ino → j ≠ i ∧ w.disk.link (calls j).temp = some ino := by
    intro j found there
    have apart : j ≠ i := fun same => by rw [same,gone] at there; cases there
    exact ⟨apart,(other _ (fun same => apart (own.own j i same)) fun same => own.apart i j same.symm).symm.trans there⟩
  have kept : ∀ j, j ≠ i → link (calls j).temp = w.disk.link (calls j).temp := fun j apart =>
    other _ (fun same => apart (own.own j i same)) fun same => own.apart i j same.symm
  have settled : ∀ other, Settled calls w.disk other → Settled calls {w.disk with link := link} other :=
    fun _ rests => ⟨rests.1,fun j there => rests.2 j (temps j _ there).2⟩
  refine ⟨⟨?_,?_⟩,?_,?_,?_,?_⟩
  · intro name found there
    change link name = some found at there
    by_cases mine : name = (calls i).target
    · rw [mine,target] at there
      cases there
      exact sound.clean.bound _ _ linked
    · by_cases temp : name = (calls i).temp
      · rw [temp,gone] at there
        cases there
      · exact sound.clean.bound name found ((other name temp mine).symm.trans there)
  · intro j name found temp there
    change link name = some found at there
    obtain ⟨apart,before⟩ := temps j found temp
    by_cases mine : name = (calls i).target
    · rw [mine,target] at there
      cases there
      exact absurd (own.own j i (sound.clean.alone i _ _ linked before)) apart
    · by_cases own_ : name = (calls i).temp
      · rw [own_,gone] at there
        cases there
      · exact sound.clean.alone j name found before ((other name own_ mine).symm.trans there)
  · intro j found rest there
    have apart : j ≠ i := fun same => by simp [World.wrote,same] at there
    have before : w.writer j = .filling found rest := by simpa [World.wrote,apart] using there
    obtain ⟨link,part⟩ := sound.filling j found rest before
    exact ⟨(kept j apart).trans link,part⟩
  · intro j there
    have apart : j ≠ i := fun same => by simp [World.wrote,same] at there
    have before : w.writer j = .filled := by simpa [World.wrote,apart] using there
    obtain ⟨found,link,content⟩ := sound.filled j before
    exact ⟨found,(kept j apart).trans link,content⟩
  · intro name outside
    change Function.update s.current _ _ name = (link name).map w.disk.inode
    by_cases mine : name = (calls i).target
    · rw [mine,Function.update_self,target]
      exact congrArg some whole.symm
    · rw [Function.update_of_ne mine,other name (outside i) mine]
      exact sound.shown name outside
  · intro r
    have holds := sound.held r
    change Holds calls {w.disk with link := link} (s.held r) (w.reader r)
    cases reads : w.reader r with
    | reading found got =>
        rw [reads] at holds
        exact ⟨settled found holds.1,holds.2⟩
    | _ => rw [reads] at holds; exact holds

theorem opened_sound (sound : Sound calls w s) (r : ρ) {name : Name} (outside : ∀ i, name ≠ (calls i).temp) :
    Sound calls (w.step calls (.opens r name)) (s.told calls w (.opens r name)) := by
  have shown := sound.shown name outside
  have others : ∀ q, q ≠ r → Function.update s.held r (s.current name) q = s.held q := fun q other => Function.update_of_ne other _ _
  simp only [World.step,Store.told]
  split
  · rename_i ino linked
    refine reader_sound sound r _ _ others ⟨linked_settled sound outside linked,?_,List.nil_prefix⟩
    rw [Function.update_self,shown,linked]
    rfl
  · rename_i unlinked
    refine reader_sound sound r _ _ others ?_
    change Function.update s.held r (s.current name) r = none
    rw [Function.update_self,shown,unlinked]
    rfl

theorem read_sound (sound : Sound calls w s) (r : ρ) (count : Nat) : Sound calls (w.step calls (.reads r count)) s := by
  have holds := sound.held r
  simp only [World.step]
  split
  · rename_i ino got at_
    rw [at_] at holds
    obtain ⟨settled,held,part⟩ := holds
    obtain ⟨rest,whole⟩ := part
    split
    · rename_i ended
      refine reader_sound sound r _ s.held (fun _ _ => rfl) ?_
      change s.held r = some got
      rw [← whole,List.length_append] at ended
      have none_left : rest = [] := List.eq_nil_of_length_eq_zero (by omega)
      rw [held,← whole,none_left,List.append_nil]
    · refine reader_sound sound r _ s.held (fun _ _ => rfl) ⟨settled,held,⟨rest.drop count,?_⟩⟩
      rw [← whole,List.drop_left,List.append_assoc,List.take_append_drop]
  · exact sound

theorem step_sound (sound : Sound calls w s) (own : Private calls) (move : Move ι ρ Name) (outside : Outside calls move) :
    Sound calls (w.step calls move) (s.told calls w move) := by
  have idle : ∀ writer : Writer β, (∀ ino rest, writer ≠ .filling ino rest) →
      ∀ i, (writer = .filled → ∃ ino, w.disk.link (calls i).temp = some ino ∧ w.disk.inode ino = (calls i).content) → Sound calls (w.wrote i writer) s :=
    fun writer other i filled => writer_sound sound i writer w.disk sound.clean (Nat.le_refl _) (fun _ _ => rfl) (fun _ _ apart => ⟨apart,rfl⟩)
      (fun ino rest same => absurd same (other ino rest)) filled own
  cases move with
  | create i =>
      simp only [World.step,Store.told]
      split
      · exact created_sound sound own
      · exact sound
  | write i count =>
      simp only [World.step,Store.told]
      split
      · rename_i ino at_
        obtain ⟨linked,part⟩ := sound.filling i ino [] at_
        rw [List.append_nil] at part
        exact idle .filled (fun _ _ wrong => by cases wrong) i fun _ => ⟨ino,linked,part⟩
      · rename_i ino rest _ at_
        exact written_sound sound own at_ count
      · exact sound
  | rename i =>
      by_cases at_ : w.writer i = .filled
      · exact renamed_sound sound own at_
      · have stays : w.step calls (.rename i) = w := by simp [World.step]
        have untold : s.told calls w (.rename i) = s := by simp [Store.told]
        rw [stays,untold]
        exact sound
  | abandon i => exact idle .over (fun _ _ wrong => by cases wrong) i fun wrong => by cases wrong
  | opens r name => exact opened_sound sound r outside
  | reads r count => exact read_sound sound r count

theorem run_sound (sound : Sound calls w s) (own : Private calls) (moves : List (Move ι ρ Name)) (outside : ∀ move ∈ moves, Outside calls move) :
    Sound calls (moves.foldl (World.step calls) w) (replay calls w s moves) := by
  induction moves generalizing w s with
  | nil => exact sound
  | cons move rest ih =>
      exact ih (step_sound sound own move (outside move List.mem_cons_self)) fun other member => outside other (List.mem_cons_of_mem move member)

theorem replay_append (w : World ι ρ Name β) (s : Store ρ Name β) (before after : List (Move ι ρ Name)) :
    replay calls w s (before ++ after) = replay calls (before.foldl (World.step calls) w) (replay calls w s before) after := by
  induction before generalizing w s with
  | nil => rfl
  | cons move rest ih => exact ih _ _

-- What a reader holds it got from the store at an open of its own.
theorem held_opened (calls : ι → Call Name β) (disk : Disk Name β) (moves : List (Move ι ρ Name)) (r : ρ) {got : List β}
    (held : (replay calls (begun disk) (meant disk) moves).held r = some got) :
    ∃ before name after, moves = before ++ .opens r name :: after ∧
      (replay calls (begun disk) (meant disk) before).current name = some got := by
  induction moves using List.reverseRecOn with
  | nil => cases held
  | append_singleton before move ih =>
      rw [replay_append] at held
      have earlier : (replay calls (begun disk) (meant disk) before).held r = some got →
          ∃ first name after, before ++ [move] = first ++ .opens r name :: after ∧
            (replay calls (begun disk) (meant disk) first).current name = some got := by
        intro same
        obtain ⟨first,name,after,split,version⟩ := ih same
        exact ⟨first,name,after ++ [move],by rw [split,List.append_assoc,List.cons_append],version⟩
      cases move with
      | opens q name =>
          change Function.update _ _ _ r = _ at held
          by_cases same : r = q
          · subst same
            rw [Function.update_self] at held
            exact ⟨before,name,[],rfl,held⟩
          · rw [Function.update_of_ne same] at held
            exact earlier held
      | rename i =>
          refine earlier (Eq.trans ?_ held)
          simp only [replay,Store.told]
          split <;> rfl
      | _ => exact earlier held

-- A version of a file is what was there at first, or the content of a call that was renamed onto it.
theorem version_put (calls : ι → Call Name β) (disk : Disk Name β) (moves : List (Move ι ρ Name)) (name : Name) {version : List β}
    (current : (replay calls (begun disk) (meant disk) moves).current name = some version) :
    (disk.link name).map disk.inode = some version ∨ ∃ i, .rename i ∈ moves ∧ (calls i).target = name ∧ (calls i).content = version := by
  induction moves using List.reverseRecOn with
  | nil => exact .inl current
  | append_singleton before move ih =>
      rw [replay_append] at current
      have earlier : (replay calls (begun disk) (meant disk) before).current name = some version →
          (disk.link name).map disk.inode = some version ∨ ∃ i, .rename i ∈ before ++ [move] ∧ (calls i).target = name ∧ (calls i).content = version := by
        intro same
        rcases ih same with first | ⟨i,member,found⟩
        · exact .inl first
        · exact .inr ⟨i,List.mem_append_left _ member,found⟩
      cases move with
      | rename i =>
          simp only [replay,Store.told] at current
          split at current
          · change Function.update _ _ _ name = _ at current
            by_cases same : name = (calls i).target
            · subst same
              rw [Function.update_self] at current
              exact .inr ⟨i,List.mem_append_right _ List.mem_cons_self,rfl,Option.some.inj current⟩
            · rw [Function.update_of_ne same] at current
              exact earlier current
          · exact earlier current
      | _ => exact earlier current

-- Whatever is read to its end is one version, whole, and the one that was current at the open.
theorem reads_whole {calls : ι → Call Name β} (own : Private calls) {disk : Disk Name β} (clean : Clean calls disk) (moves : List (Move ι ρ Name))
    (outside : ∀ move ∈ moves, Outside calls move) (r : ρ) {got : List β}
    (ended : (moves.foldl (World.step calls) (begun disk)).reader r = .finished got) :
    ∃ before name after, moves = before ++ .opens r name :: after ∧
      (replay calls (begun disk) (meant disk) before).current name = some got := by
  have held := (run_sound (begun_sound clean) own moves outside).held r
  rw [ended] at held
  exact held_opened calls disk moves r held

end FileReplacement

import Mathlib.Data.List.TakeWhile
import Perga.FileReplacement

namespace Perga.ReplacedFiles
open FileReplacement

abbrev Path := List String

-- The files that `write_atomic` and `save_profiles_atomic` write, under the home directory.
inductive File where
  | bashRcfile
  | zshZshenv
  | zshZshrc
  | hosts
  deriving DecidableEq, Repr

def File.dir : File → Path
  | .bashRcfile => [".perga","shell"]
  | .zshZshenv => [".perga","shell","zsh"]
  | .zshZshrc => [".perga","shell","zsh"]
  | .hosts => [".perga"]

def File.name : File → String
  | .bashRcfile => "bash-rcfile"
  | .zshZshenv => ".zshenv"
  | .zshZshrc => ".zshrc"
  | .hosts => "hosts.toml"

-- Each of the two functions has a name for its temporary files, and a `SEQ` of its own.
def File.stem : File → String
  | .hosts => ".perga-hosts.tmp."
  | _ => ".perga-tmp."

def File.path (file : File) (home : Path) : Path := home ++ file.dir ++ [file.name]

structure Write where
  file : File
  home : Path
  pid : Nat
  seq : Nat
  content : List UInt8

def Write.tempName (w : Write) : String := w.file.stem ++ toString w.pid ++ "." ++ toString w.seq

-- `parent.join` of the temporary name, and the path itself.
def Write.call (w : Write) : Call Path UInt8 := ⟨(w.file.path w.home).dropLast ++ [w.tempName],w.file.path w.home,w.content⟩

-- A process has one pid for all its calls, and counts them.
def Once (writes : ι → Write) : Prop :=
  ∀ i j, (writes i).file.stem = (writes j).file.stem → (writes i).pid = (writes j).pid → (writes i).seq = (writes j).seq → i = j

theorem digits_part {first second rest more : List Char} (one : ∀ c ∈ first, c.isDigit = true) (two : ∀ c ∈ second, c.isDigit = true)
    (same : first ++ '.' :: rest = second ++ '.' :: more) : first = second ∧ rest = more := by
  have stop : ∀ l : List Char, ('.' :: l).takeWhile Char.isDigit = [] := fun l => List.takeWhile_cons_of_neg (by decide)
  have taken := congrArg (List.takeWhile Char.isDigit) same
  rw [List.takeWhile_append_of_pos one,List.takeWhile_append_of_pos two,stop,stop,List.append_nil,List.append_nil] at taken
  subst taken
  exact ⟨rfl,(List.cons.inj (List.append_cancel_left same)).2⟩

theorem repr_inj {n m : Nat} (same : Nat.toDigits 10 n = Nat.toDigits 10 m) : n = m := by
  have back := congrArg (fun digits => Nat.ofDigitChars 10 digits 0) same
  simpa only [Nat.ofDigitChars_ten_toDigits] using back

theorem tempName_chars (w : Write) :
    w.tempName.toList = w.file.stem.toList ++ (Nat.toDigits 10 w.pid ++ '.' :: Nat.toDigits 10 w.seq) := by
  have pid : (toString w.pid).toList = Nat.toDigits 10 w.pid := Nat.toList_repr
  have seq : (toString w.seq).toList = Nat.toDigits 10 w.seq := Nat.toList_repr
  simp only [Write.tempName,String.toList_append,pid,seq,List.append_assoc]
  rfl

theorem stem_cases (file : File) : file.stem = ".perga-tmp." ∨ file.stem = ".perga-hosts.tmp." := by
  cases file with
  | hosts => exact .inr rfl
  | _ => exact .inl rfl

theorem digits_only (n : Nat) : ∀ c ∈ Nat.toDigits 10 n, c.isDigit = true := fun _ => Nat.isDigit_of_mem_toDigits (by decide) (by decide)

theorem tempName_inj {one two : Write} (same : one.tempName = two.tempName) :
    one.file.stem = two.file.stem ∧ one.pid = two.pid ∧ one.seq = two.seq := by
  have chars := congrArg String.toList same
  rw [tempName_chars,tempName_chars] at chars
  have stems : one.file.stem = two.file.stem := by
    have seventh := congrArg (·[7]?) chars
    rcases stem_cases one.file with first | first <;> rcases stem_cases two.file with second | second <;>
      rw [first,second] at seventh ⊢ <;> cases seventh
  rw [stems] at chars
  obtain ⟨pid,seq⟩ := digits_part (digits_only _) (digits_only _) (List.append_cancel_left chars)
  exact ⟨stems,repr_inj pid,repr_inj seq⟩

theorem call_temp (w : Write) : w.call.temp = w.home ++ w.file.dir ++ [w.tempName] :=
  congrArg (· ++ [w.tempName]) List.dropLast_concat

theorem name_apart (file : File) (w : Write) : file.name ≠ w.tempName := by
  intro same
  have chars := congrArg (fun s => s.toList.take 2) same
  change file.name.toList.take 2 = w.tempName.toList.take 2 at chars
  rw [tempName_chars] at chars
  rcases stem_cases w.file with stem | stem <;> rw [stem] at chars <;> cases file <;> cases chars

theorem path_apart (file : File) (home : Path) (w : Write) : file.path home ≠ w.call.temp := by
  intro same
  rw [call_temp] at same
  exact name_apart file w (List.cons.inj (List.append_inj' same rfl).2).1

theorem calls_private {writes : ι → Write} (once : Once writes) : Private fun i => (writes i).call := by
  refine ⟨fun i j same => ?_,fun i j => path_apart _ _ _⟩
  rw [call_temp,call_temp] at same
  obtain ⟨stem,pid,seq⟩ := tempName_inj (List.cons.inj (List.append_inj' same rfl).2).1
  exact once i j stem pid seq

variable {ι : Type u} {ρ : Type v} [DecidableEq ι] [DecidableEq ρ]

abbrev World (ι : Type u) (ρ : Type v) := FileReplacement.World ι ρ Path UInt8
abbrev Move (ι : Type u) (ρ : Type v) := FileReplacement.Move ι ρ Path

def run (writes : ι → Write) (disk : FileReplacement.Disk Path UInt8) (moves : List (Move ι ρ)) : World ι ρ :=
  moves.foldl (FileReplacement.World.step fun i => (writes i).call) (begun disk)

-- The version of a file that the moves have put in place.
def version (writes : ι → Write) (disk : FileReplacement.Disk Path UInt8) (moves : List (Move ι ρ)) (name : Path) : Option (List UInt8) :=
  (replay (fun i => (writes i).call) (begun disk) (meant disk) moves).current name

-- A shell that starts, or a request that loads the profiles, reads a whole version of its file, the one
-- in place when it opened it: what was there at first, or the content of a call that had come to its
-- rename. Any number of sessions may write the same files meanwhile, and any of them may fail anywhere.
theorem files_read_whole (writes : ι → Write) (once : Once writes) (disk : FileReplacement.Disk Path UInt8) (clean : Clean (fun i => (writes i).call) disk)
    (moves : List (Move ι ρ)) (opened : ∀ r name, .opens r name ∈ moves → ∃ (file : File) (home : Path), name = file.path home)
    (r : ρ) (got : List UInt8) (ended : (run writes disk moves).reader r = .finished got) :
    ∃ before name after, moves = before ++ .opens r name :: after ∧ version writes disk before name = some got ∧
      ((disk.link name).map disk.inode = some got ∨
        ∃ i, .rename i ∈ before ∧ (writes i).file.path (writes i).home = name ∧ (writes i).content = got) := by
  have outside : ∀ move ∈ moves, Outside (fun i => (writes i).call) move := by
    intro move member
    cases move with
    | opens q name =>
        obtain ⟨file,home,rfl⟩ := opened q name member
        exact fun i => path_apart file home _
    | _ => trivial
  obtain ⟨before,name,after,split,current⟩ := reads_whole (calls_private once) clean moves outside r ended
  exact ⟨before,name,after,split,current,version_put _ disk before name current⟩

def emptyDisk : FileReplacement.Disk Path UInt8 := ⟨fun _ => none,fun _ => [],0⟩

-- Two sessions write bash's file, and a shell reads it while the second replaces it.
def twoSessions (second : Bool) : Write := ⟨.bashRcfile,["root"],7,if second then 1 else 0,if second then [51,52] else [49,50]⟩

def replacedMidway : List (Move Bool Unit) :=
  [.create false,.write false 2,.write false 0,.rename false,.opens () (File.bashRcfile.path ["root"]),.create true,.reads () 1,
    .write true 2,.write true 0,.rename true,.reads () 1,.reads () 1]

theorem files_read_midway :
    (run twoSessions emptyDisk replacedMidway).reader () = .finished [49,50] ∧
      ∃ before name after, replacedMidway = before ++ .opens () name :: after ∧ version twoSessions emptyDisk before name = some [49,50] := by
  have once : Once twoSessions := by
    intro i j _ _ seq
    cases i <;> cases j <;> first | rfl | cases seq
  have clean : Clean (fun i => (twoSessions i).call) emptyDisk := ⟨fun _ _ wrong => (by cases wrong),fun _ _ _ wrong => by cases wrong⟩
  have ended : (run twoSessions emptyDisk replacedMidway).reader () = .finished [49,50] := by rfl
  obtain ⟨before,name,after,split,current,_⟩ := files_read_whole twoSessions once emptyDisk clean replacedMidway (fun r name member => by
    exact ⟨.bashRcfile,["root"],by simpa [replacedMidway] using member⟩) () [49,50] ended
  exact ⟨ended,before,name,after,split,current⟩

end Perga.ReplacedFiles

import Perga.InputEncoders
import Mathlib.Data.List.Flatten

namespace Perga.InputEncoders

def terminator : List Char := ['\x1b','[','2','0','1','~']

def terminators (n : Nat) : List Char := (List.replicate n terminator).flatten

theorem terminators_succ (n : Nat) : terminators (n+1) = terminator ++ terminators n := by
  simp [terminators,List.replicate_succ]

-- The characters of a pattern in order, kept apart by nothing or by whole terminators.
inductive Threaded : List Char → List Char → Prop where
  | last (c : Char) : Threaded [c] [c]
  | next (c : Char) (n : Nat) {pattern text : List Char} (later : Threaded pattern text) :
      Threaded (c :: pattern) (c :: (terminators n ++ text))

-- The pass over the text leaves a terminator behind exactly where this fails.
def NoThreaded (text : List Char) : Prop := ∀ s, s <:+: text → Threaded terminator s → s = terminator

theorem threaded_nonempty {pattern text : List Char} (threaded : Threaded pattern text) : pattern ≠ [] := by
  cases threaded <;> exact List.cons_ne_nil _ _

theorem remove_terminator (rest : List Char) : removeTerminators (terminator ++ rest) = removeTerminators rest := by
  simp [terminator,removeTerminators]

theorem remove_keep {c : Char} {rest : List Char} (kept : ¬ terminator <+: c :: rest) :
    removeTerminators (c :: rest) = c :: removeTerminators rest := by
  rw [removeTerminators]
  rintro tail rfl rfl
  exact kept ⟨tail,rfl⟩

theorem remove_other {c : Char} (rest : List Char) (other : c ≠ '\x1b') :
    removeTerminators (c :: rest) = c :: removeTerminators rest :=
  remove_keep fun found => other (List.cons_prefix_cons.mp found).1.symm

-- A fact about the pass follows from what it does at a terminator and at a character it keeps.
theorem remove_induction {P : List Char → Prop} (empty : P [])
    (skip : ∀ rest, P rest → P (terminator ++ rest))
    (keep : ∀ c rest, ¬ terminator <+: c :: rest → P rest → P (c :: rest)) (text : List Char) : P text := by
  induction text using removeTerminators.induct with
  | case1 rest ih => exact skip rest ih
  | case2 c rest other ih =>
      refine keep c rest (fun found => ?_) ih
      obtain ⟨tail,same⟩ := found
      simp only [terminator,List.cons_append,List.nil_append,List.cons.injEq] at same
      exact other tail same.1.symm same.2.symm
  | case3 => exact empty

theorem remove_sublist (text : List Char) : (removeTerminators text).Sublist text := by
  induction text using remove_induction with
  | empty => exact List.Sublist.refl _
  | skip rest ih => rw [remove_terminator]; exact ih.trans (List.sublist_append_right _ _)
  | keep c rest kept ih => rw [remove_keep kept]; exact ih.cons_cons c

theorem remove_none {text : List Char} (free : ¬ terminator <:+: text) : removeTerminators text = text := by
  induction text using remove_induction with
  | empty => rfl
  | skip rest ih => exact absurd (List.prefix_append _ _).isInfix free
  | keep c rest kept ih =>
      have later : ¬ terminator <:+: rest := fun found => free (List.infix_cons found)
      rw [remove_keep kept,ih later]

theorem remove_repeated (n : Nat) (rest : List Char) :
    removeTerminators (terminators n ++ rest) = removeTerminators rest := by
  induction n with
  | zero => rfl
  | succ n ih => rw [terminators_succ,List.append_assoc,remove_terminator,ih]

theorem first_only {α : Type} {first : α} {rest before later : List α} (once : first ∉ rest)
    (cut : first :: rest = before ++ first :: later) : before = [] := by
  cases before with
  | nil => rfl
  | cons c before =>
      have again : first ∈ rest := by
        rw [(List.cons.inj cut).2]
        exact List.mem_append_right _ List.mem_cons_self
      exact absurd again once

-- No terminator begins before an escape character and ends after it.
theorem remove_append (before later : List Char) :
    removeTerminators (before ++ '\x1b' :: later) = removeTerminators before ++ removeTerminators ('\x1b' :: later) := by
  induction before using remove_induction with
  | empty => rfl
  | skip rest ih => rw [List.append_assoc,remove_terminator,remove_terminator,ih]
  | keep c rest kept ih =>
      have still : ¬ terminator <+: c :: (rest ++ '\x1b' :: later) := by
        intro found
        obtain inside | ⟨t,cut⟩ := List.prefix_or_prefix_of_prefix found (List.prefix_append (c :: rest) ('\x1b' :: later))
        · exact kept inside
        · cases t with
          | nil =>
            rw [List.append_nil] at cut
            exact kept (cut ▸ List.prefix_refl _)
          | cons d t =>
              rw [← cut] at found
              obtain ⟨rfl,-⟩ := List.cons_prefix_cons.mp ((List.prefix_append_right_inj (c :: rest)).mp found)
              cases first_only (by decide) cut.symm
      rw [List.cons_append,remove_keep still,remove_keep kept,ih,List.cons_append]

theorem remove_threaded {pattern s : List Char} (threaded : Threaded pattern s) (plain : '\x1b' ∉ pattern)
    (later : List Char) : removeTerminators (s ++ later) = pattern ++ removeTerminators later := by
  induction threaded with
  | last c => exact remove_other later (fun same => plain (by simp [same]))
  | @next c n pattern text threaded ih =>
      obtain ⟨other,plain⟩ : '\x1b' ≠ c ∧ '\x1b' ∉ pattern := by simpa using plain
      rw [List.cons_append,remove_other _ (Ne.symm other),List.append_assoc,remove_repeated,ih plain,List.cons_append]

-- A threaded copy that holds the pattern itself at its start is the pattern.
theorem threaded_exact {pattern s later : List Char} (threaded : Threaded pattern s)
    (plain : '\x1b' ∉ pattern.tail) (found : pattern <+: s ++ later) : s = pattern := by
  induction threaded with
  | last c => rfl
  | next c n threaded ih =>
      have rest := (List.cons_prefix_cons.mp found).2
      obtain ⟨d,more,opened⟩ := List.exists_cons_of_ne_nil (threaded_nonempty threaded)
      subst opened
      cases n with
      | zero => rw [List.tail_cons] at plain; rw [ih (fun member => plain (List.mem_cons_of_mem d member)) rest]; rfl
      | succ n =>
          have first : d = '\x1b' := (List.cons_prefix_cons.mp rest).1
          exact absurd List.mem_cons_self (first ▸ plain)

theorem remove_leaves {s : List Char} (later : List Char) (threaded : Threaded terminator s) (other : s ≠ terminator) :
    removeTerminators (s ++ later) = terminator ++ removeTerminators later := by
  have kept : ¬ terminator <+: s ++ later := fun found => other (threaded_exact threaded (by decide) found)
  cases threaded with
  | next c n threaded =>
      rw [List.cons_append] at kept ⊢
      rw [remove_keep kept,List.append_assoc,remove_repeated,remove_threaded threaded (by decide)]
      rfl

-- Reading the output backwards: the characters of a pattern in it were threaded in the text.
theorem threaded_prefix (text : List Char) : ∀ pattern ≠ [], pattern <+: removeTerminators text →
    ∃ n s rest, text = terminators n ++ (s ++ rest) ∧ Threaded pattern s := by
  induction text using remove_induction with
  | empty =>
      intro pattern filled found
      exact absurd (List.prefix_nil.mp found) filled
  | skip rest ih =>
      intro pattern filled found
      rw [remove_terminator] at found
      obtain ⟨n,s,tail,rfl,threaded⟩ := ih pattern filled found
      exact ⟨n+1,s,tail,by rw [terminators_succ,List.append_assoc],threaded⟩
  | keep c rest kept ih =>
      intro pattern filled found
      rw [remove_keep kept] at found
      obtain ⟨d,more,rfl⟩ := List.exists_cons_of_ne_nil filled
      obtain ⟨rfl,inner⟩ := List.cons_prefix_cons.mp found
      cases more with
      | nil => exact ⟨0,[d],rest,rfl,.last d⟩
      | cons e more =>
          obtain ⟨n,s,tail,rfl,threaded⟩ := ih (e :: more) (List.cons_ne_nil _ _) inner
          exact ⟨0,d :: (terminators n ++ s),tail,by simp [terminators],.next d n threaded⟩

theorem threaded_found (text : List Char) (found : terminator <:+: removeTerminators text) :
    ∃ s, s <:+: text ∧ Threaded terminator s ∧ s ≠ terminator := by
  induction text using remove_induction with
  | empty => exact absurd (List.infix_nil.mp found) (by decide)
  | skip rest ih =>
      rw [remove_terminator] at found
      obtain ⟨s,within,threaded,other⟩ := ih found
      exact ⟨s,within.trans (List.suffix_append _ _).isInfix,threaded,other⟩
  | keep c rest kept ih =>
      rw [remove_keep kept] at found
      obtain first | later := List.infix_cons_iff.mp found
      · rw [← remove_keep kept] at first
        obtain ⟨n,s,tail,cut,threaded⟩ := threaded_prefix (c :: rest) terminator (by decide) first
        rw [cut] at kept ⊢
        cases n with
        | zero =>
            refine ⟨s,(List.prefix_append _ _).isInfix,threaded,?_⟩
            rintro rfl
            exact kept (List.prefix_append _ _)
        | succ n =>
            rw [terminators_succ,List.append_assoc] at kept
            exact absurd (List.prefix_append _ _) kept
      · obtain ⟨s,within,threaded,other⟩ := ih later
        exact ⟨s,List.infix_cons within,threaded,other⟩

theorem noThreaded_exact (text : List Char) : NoThreaded text ↔ ¬ terminator <:+: removeTerminators text := by
  constructor
  · intro free found
    obtain ⟨s,within,threaded,other⟩ := threaded_found text found
    exact other (free s within threaded)
  · intro clean s within threaded
    refine Decidable.byContradiction fun other => ?_
    obtain ⟨before,later,rfl⟩ := within
    have left := remove_leaves later threaded other
    obtain ⟨more,rfl⟩ : ∃ more, s = '\x1b' :: more := by
      cases threaded with
      | next c n threaded => exact ⟨_,rfl⟩
    rw [List.cons_append] at left
    rw [List.append_assoc,List.cons_append,remove_append,left] at clean
    exact clean ⟨removeTerminators before,removeTerminators later,by simp⟩

-- An ASCII byte is never part of a longer encoding.
theorem utf8_low {b : UInt8} {c : Char} (low : b < 128) (member : b ∈ String.utf8EncodeChar c) :
    String.utf8EncodeChar c = [b] ∧ c.toNat = b.toNat := by
  rw [UInt8.lt_iff_toNat_lt] at low
  change b.toNat < 128 at low
  unfold String.utf8EncodeChar at member ⊢
  simp only at member ⊢
  split at member
  · rename_i small
    obtain rfl := List.mem_singleton.mp member
    have fits : (UInt8.ofNat c.val.toNat).toNat = c.val.toNat :=
      UInt8.toNat_ofNat_of_lt' (Nat.lt_of_le_of_lt small (by decide))
    exact ⟨if_pos small,fits.symm⟩
  · have high (n : Nat) (lower : 128 ≤ n) (upper : n < 256) : b ≠ UInt8.ofNat n := by
      rintro rfl
      rw [UInt8.toNat_ofNat_of_lt' upper] at low
      omega
    exfalso
    split at member
    · simp only [List.mem_cons,List.not_mem_nil,or_false] at member
      obtain same | same := member <;> exact high _ (by omega) (by omega) same
    split at member
    · simp only [List.mem_cons,List.not_mem_nil,or_false] at member
      obtain same | same | same := member <;> exact high _ (by omega) (by omega) same
    · simp only [List.mem_cons,List.not_mem_nil,or_false] at member
      obtain same | same | same | same := member <;> exact high _ (by omega) (by omega) same

theorem utf8_ascii {c : Char} (low : c.toNat < 128) : String.utf8EncodeChar c = [UInt8.ofNat c.toNat] := by
  unfold String.utf8EncodeChar
  exact if_pos (Nat.le_of_lt_succ low)

theorem utf8_same {c d : Char} (low : c.toNat < 128) (member : UInt8.ofNat c.toNat ∈ String.utf8EncodeChar d) : d = c := by
  have fits : (UInt8.ofNat c.toNat).toNat = c.toNat := UInt8.toNat_ofNat_of_lt' (Nat.lt_trans low (by decide))
  have small : UInt8.ofNat c.toNat < 128 := by
    rw [UInt8.lt_iff_toNat_lt,fits]
    exact low
  exact Char.toNat_inj.mp ((utf8_low small member).2.trans fits)

theorem utf8_cons (c : Char) (text : List Char) : utf8 (c :: text) = String.utf8EncodeChar c ++ utf8 text := rfl

theorem utf8_starts {pattern text : List Char} (low : ∀ c ∈ pattern, c.toNat < 128)
    (found : utf8 pattern <+: utf8 text) : pattern <+: text := by
  induction pattern generalizing text with
  | nil => exact List.nil_prefix
  | cons c pattern ih =>
      obtain ⟨first,later⟩ := List.forall_mem_cons.mp low
      rw [utf8_cons,utf8_ascii first] at found
      cases text with
      | nil => exact absurd (List.prefix_nil.mp found) (List.cons_ne_nil _ _)
      | cons d text =>
          have starts : UInt8.ofNat c.toNat ∈ String.utf8EncodeChar d := by
            obtain ⟨b,rest,opened⟩ := List.exists_cons_of_ne_nil (utf8_nonempty d)
            rw [utf8_cons,opened] at found
            rw [opened,(List.cons_prefix_cons.mp found).1]
            exact List.mem_cons_self
          obtain rfl := utf8_same first starts
          rw [utf8_cons,utf8_ascii first] at found
          exact List.cons_prefix_cons.mpr ⟨rfl,ih later (List.cons_prefix_cons.mp found).2⟩

theorem terminator_low : ∀ c ∈ terminator, c.toNat < 128 := by simp [terminator]

theorem escape_alone {d : Char} (member : (0x1b : UInt8) ∈ String.utf8EncodeChar d) :
    String.utf8EncodeChar d = [0x1b] := (utf8_low (by decide) member).1

-- The terminator's bytes are the terminator's characters, wherever they stand.
theorem utf8_inside (text : List Char) : utf8 terminator <:+: utf8 text ↔ terminator <:+: text := by
  constructor
  · intro found
    induction text with
    | nil => exact absurd (List.infix_nil.mp found) (by decide)
    | cons d text ih =>
        obtain inside | later | ⟨front,back,cut,left,right⟩ := List.infix_append_iff.mp found
        · have alone := escape_alone (inside.subset (by decide))
          rw [alone] at inside
          exact absurd inside.length_le (by decide)
        · exact List.infix_cons (ih later)
        · cases front with
          | nil => exact List.infix_cons (ih (cut ▸ right.isInfix))
          | cons b front =>
              have first : b = 0x1b := (List.cons.inj cut).1.symm
              have alone := escape_alone (left.subset (first ▸ List.mem_cons_self))
              have whole : b :: front = String.utf8EncodeChar d := by
                rw [alone] at left ⊢
                exact (List.suffix_cons_iff.mp left).resolve_right fun none => List.cons_ne_nil _ _ (List.suffix_nil.mp none)
              refine (utf8_starts terminator_low ?_).isInfix
              rw [cut,whole,utf8_cons]
              exact (List.prefix_append_right_inj _).mpr right
  · rintro ⟨before,later,rfl⟩
    exact ⟨utf8 before,utf8 later,by simp [utf8]⟩

def pasteStart : List UInt8 := ascii "\x1b[200~"
def pasteEnd : List UInt8 := ascii "\x1b[201~"

theorem pasteEnd_utf8 : pasteEnd = utf8 terminator := rfl

-- What a bracketed paste must be: the markers, one terminator and the text's bytes between them.
structure PasteGuarded (text : List Char) (out : List UInt8) : Prop where
  starts : pasteStart <+: out
  ends : pasteEnd <:+ out
  once : ∀ before later, out = before ++ pasteEnd ++ later → later = []
  payload : ∃ payload, out = pasteStart ++ payload ++ pasteEnd ∧ payload.Sublist (utf8 text) ∧
    (¬ pasteEnd <:+: utf8 text → payload = utf8 text)

theorem pasteStart_bytes : pasteStart = [0x1b,91,50,48,48,126] := rfl

theorem guarded_start {payload : List UInt8} (found : pasteEnd <:+: pasteStart ++ payload) : pasteEnd <:+: payload := by
  obtain inside | later | ⟨front,back,cut,left,right⟩ := List.infix_append_iff.mp found
  · exact absurd inside (by decide +kernel)
  · exact later
  · cases front with
    | nil => exact cut ▸ right.isInfix
    | cons b front =>
        have first : b = 0x1b := (List.cons.inj cut).1.symm
        rw [pasteStart_bytes] at left
        obtain whole | within := List.suffix_cons_iff.mp left
        · have starts : [0x1b,91,50,48,48,126] <+: pasteEnd := ⟨back,by rw [cut,whole]⟩
          exact absurd starts (by decide)
        · subst first
          exact absurd (within.subset List.mem_cons_self) (by decide)

theorem guarded_end {before : List UInt8} (found : pasteEnd <:+: before ++ pasteEnd.dropLast) : pasteEnd <:+: before := by
  obtain inside | later | ⟨front,back,cut,left,right⟩ := List.infix_append_iff.mp found
  · exact inside
  · exact absurd later (by decide +kernel)
  · cases back with
    | nil =>
        rw [List.append_nil] at cut
        exact cut ▸ left.isInfix
    | cons b back =>
        obtain rfl : b = 0x1b := (List.cons_prefix_cons.mp right).1
        obtain rfl := first_only (by decide) cut
        have whole : pasteEnd.length ≤ pasteEnd.dropLast.length := by
          rw [congrArg List.length cut]
          exact right.length_le
        exact absurd whole (by decide)

-- The added markers take part in no occurrence but the last.
theorem once_exact (payload : List UInt8) :
    (∀ before later, pasteStart ++ payload ++ pasteEnd = before ++ pasteEnd ++ later → later = []) ↔
      ¬ pasteEnd <:+: payload := by
  constructor
  · rintro once ⟨before,later,rfl⟩
    have none := once (pasteStart ++ before) (later ++ pasteEnd) (by simp)
    exact absurd (List.append_eq_nil_iff.mp none).2 (by decide)
  · intro clean before later cut
    obtain rfl | ⟨rest,last,rfl⟩ := List.eq_nil_or_concat later
    · rfl
    · have shorter := congrArg List.dropLast cut
      rw [List.concat_eq_append,← List.append_assoc,List.dropLast_concat,
        List.dropLast_append_of_ne_nil (by decide)] at shorter
      exact absurd (guarded_start (guarded_end ⟨before,rest,shorter.symm⟩)) clean

theorem payload_guarded {modes : TerminalModes} (text : List Char) (bracketed : modes.bracketedPaste = true) :
    encodePaste text modes = pasteStart ++ utf8 (removeTerminators text) ++ pasteEnd ∧
      (utf8 (removeTerminators text)).Sublist (utf8 text) ∧
      (¬ pasteEnd <:+: utf8 text → utf8 (removeTerminators text) = utf8 text) := by
  refine ⟨by simp [encodePaste,bracketed,pasteStart,pasteEnd],(remove_sublist text).flatMap _,fun free => ?_⟩
  rw [pasteEnd_utf8,utf8_inside] at free
  rw [remove_none free]

-- The pass over the text is made once, so what it joins is not looked at again.
theorem encode_paste_guarded (text : List Char) (modes : TerminalModes) (bracketed : modes.bracketedPaste = true) :
    PasteGuarded text (encodePaste text modes) ↔ NoThreaded text := by
  have payload := payload_guarded text bracketed
  rw [noThreaded_exact,← utf8_inside,← pasteEnd_utf8,← once_exact,← payload.1]
  refine ⟨PasteGuarded.once,fun once => ⟨?_,?_,once,⟨_,payload⟩⟩⟩
  · rw [payload.1,List.append_assoc]
    exact List.prefix_append _ _
  · rw [payload.1]
    exact List.suffix_append _ _

theorem encode_paste_guarded_plain :
    let modes : TerminalModes := ⟨false,false,true,.off,false,false⟩
    modes.bracketedPaste = true ∧
      (PasteGuarded ['l','s','\n'] (encodePaste ['l','s','\n'] modes) ↔ NoThreaded ['l','s','\n']) :=
  ⟨rfl,encode_paste_guarded _ _ rfl⟩

-- One terminator inside another: the pass joins the outer one, and what follows it is typed.
theorem nested_terminator_escapes :
    let text := ['\x1b','[','2','0','\x1b','[','2','0','1','~','1','~','l','s','\n']
    let modes : TerminalModes := ⟨false,false,true,.off,false,false⟩
    encodePaste text modes = pasteStart ++ pasteEnd ++ utf8 ['l','s','\n'] ++ pasteEnd ∧
      ¬ PasteGuarded text (encodePaste text modes) := by
  refine ⟨by decide +kernel,fun guarded => ?_⟩
  have typed := guarded.once pasteStart (utf8 ['l','s','\n'] ++ pasteEnd) (by decide +kernel)
  exact absurd typed (by decide +kernel)

end Perga.InputEncoders

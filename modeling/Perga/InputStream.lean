import Perga.Console
import Perga.MouseReports
import Perga.PasteGuard
import Perga.LineTerminal

namespace Perga.InputStream
open ByteReaders
open InputEncoders hiding decimal

-- What a program can tell of an input. A key that has no sequence of its own is a character: Enter,
-- Tab, Backspace, Escape and the Ctrl characters.
inductive Gesture where
  | char (c : Char)
  | alt (c : Char)
  | backTab
  | key (key : Key) (mods : Modifiers)
  | mouse (seen : MouseReports.Seen)
  | focus (gained : Bool)
  | pasted (text : List Char)
  deriving DecidableEq, Repr

def plainChar (c : Char) (ctrl : Bool) : Char :=
  if ctrl then (ctrlByte c).elim c fun b => Char.ofNat b.toNat else c

def keyGesture (event : KeyEvent) : Gesture :=
  match event.key with
  | .char c => if event.mods.alt then .alt (plainChar c event.mods.ctrl) else .char (plainChar c event.mods.ctrl)
  | .enter => .char '\r'
  | .tab => if event.mods.shift && !event.mods.ctrl && !event.mods.alt then .backTab else .char '\t'
  | .backspace => .char '\x7f'
  | .escape => .char '\x1b'
  | key => .key key event.mods

def gestures (modes : TerminalModes) : SessionInput → List Gesture
  | .key k => [keyGesture k]
  | .paste text => if modes.bracketedPaste then [.pasted (removeTerminators text)] else text.map .char
  | .mouse m => if (encodeMouse m modes).isSome then [.mouse (MouseReports.told modes.sgrMouse m)] else []
  | .focus gained => if modes.focusReporting then [.focus gained] else []
  | .resize _ => []

-- An escape character that is typed begins no sequence, nor does one before a bracket or an O
-- typed with Alt; but a program can only guess so.
def Gesture.clear : Gesture → Bool
  | .char c => c != '\x1b'
  | .alt c => c != '[' && c != 'O'
  | _ => true

structure Clear (modes : TerminalModes) (i : SessionInput) : Prop where
  gestures : ∀ g ∈ gestures modes i, g.clear = true
  pasted : ∀ text, i = .paste text → modes.bracketedPaste = true → NoThreaded text

-- The program's side: the final bytes of xterm's keys, and the codes of those that end in a tilde.
def letterKeys : List (UInt8 × Key) :=
  [(65,.up),(66,.down),(67,.right),(68,.left),(72,.home),(70,.endKey),(80,.f ⟨1,by decide⟩),(81,.f ⟨2,by decide⟩),
    (82,.f ⟨3,by decide⟩),(83,.f ⟨4,by decide⟩)]

def codeKeys : List (Nat × Key) :=
  [(2,.insert),(3,.delete),(5,.pageUp),(6,.pageDown),(15,.f ⟨5,by decide⟩),(17,.f ⟨6,by decide⟩),(18,.f ⟨7,by decide⟩),
    (19,.f ⟨8,by decide⟩),(20,.f ⟨9,by decide⟩),(21,.f ⟨10,by decide⟩),(23,.f ⟨11,by decide⟩),(24,.f ⟨12,by decide⟩)]

def letterKey (final : UInt8) : Option Key := letterKeys.lookup final

def codeKey (code : Nat) : Option Key := codeKeys.lookup code

def keyOf (code : Nat) (final : UInt8) : Option Key :=
  if final = 126 then codeKey code else if code = 1 then letterKey final else none

def unmodified : Modifiers := ⟨false,false,false⟩

def modsOf (param : Nat) : Modifiers := ⟨(param-1).testBit 2,(param-1).testBit 1,(param-1).testBit 0⟩

def readChar (bytes : List UInt8) : Option (Char × List UInt8) :=
  (bytes.toByteArray.utf8DecodeChar? 0).map fun c => (c,bytes.drop (String.utf8EncodeChar c).length)

-- A paste goes on up to the first terminator.
def takePaste : List UInt8 → Option (List UInt8 × List UInt8)
  | [] => none
  | b :: rest =>
    if pasteEnd.isPrefixOf (b :: rest) then some ([],(b :: rest).drop pasteEnd.length)
    else (takePaste rest).map fun found => (b :: found.1,found.2)

def readPaste (bytes : List UInt8) : Option (Gesture × List UInt8) := do
  let found ← takePaste bytes
  return (.pasted (← readMany readChar found.1.length found.1),found.2)

def readParams (bytes : List UInt8) : Option (Gesture × List UInt8) := do
  let code ← number bytes
  match code.2 with
  | [] => none
  | b :: rest =>
    if b = 59 then do
      let param ← number rest
      let key ← keyOf code.1 (param.2.headD 0)
      return (.key key (modsOf param.1),param.2.tail)
    else if code.1 = 200 then readPaste rest
    else (keyOf code.1 b).map fun key => (.key key unmodified,rest)

def readCsi : List UInt8 → Option (Gesture × List UInt8)
  | [] => none
  | b :: rest =>
    if b = 60 then (MouseReports.readSgr (27 :: 91 :: b :: rest)).map fun found => (.mouse found.1,found.2)
    else if b = 77 then (MouseReports.readX10 (27 :: 91 :: b :: rest)).map fun found => (.mouse found.1,found.2)
    else if b = 73 then some (.focus true,rest)
    else if b = 79 then some (.focus false,rest)
    else if b = 90 then some (.backTab,rest)
    else match letterKey b with
      | some key => some (.key key unmodified,rest)
      | none => readParams (b :: rest)

def readEscape : List UInt8 → Option (Gesture × List UInt8)
  | [] => none
  | b :: rest =>
    if b = 91 then readCsi rest
    else if b = 79 then (letterKey (rest.headD 0)).map fun key => (.key key unmodified,rest.tail)
    else (readChar (b :: rest)).map fun found => (.alt found.1,found.2)

def readGesture : List UInt8 → Option (Gesture × List UInt8)
  | [] => none
  | b :: rest => if b = 27 then readEscape rest else (readChar (b :: rest)).map fun found => (.char found.1,found.2)

-- The bytes of one write by themselves: an escape character with a character behind it is Alt.
def readAlone : List UInt8 → Option Gesture
  | [] => none
  | b :: rest =>
    if b = 27 ∧ rest ≠ [] then
      if (rest.headD 0 = 91 ∨ rest.headD 0 = 79) ∧ rest.tail ≠ [] then (readGesture (b :: rest)).map Prod.fst
      else (readChar rest).map fun found => .alt found.1
    else (readChar (b :: rest)).map fun found => .char found.1

theorem readChar_encode (c : Char) : Reads readChar (String.utf8EncodeChar c) c := by
  intro rest
  rw [readChar,List.toByteArray_append,ByteArray.utf8DecodeChar?_utf8EncodeChar_append,Option.map_some,
    List.drop_left]

theorem control_low {c : Char} {b : UInt8} (mapped : ctrlByte c = some b) : b.toNat < 32 := by
  have letter (n : Nat) (few : n ≤ 26) : (UInt8.ofNat n).toNat < 32 := by
    rw [UInt8.toNat_ofNat_of_lt' (Nat.lt_of_le_of_lt few (by decide))]
    omega
  unfold ctrlByte at mapped
  split at mapped
  · rename_i lower
    have last : c.toNat ≤ 122 := lower.2
    cases mapped
    exact letter _ (by omega)
  split at mapped
  · rename_i upper
    have last : c.toNat ≤ 90 := upper.2
    cases mapped
    exact letter _ (by omega)
  split at mapped <;> cases mapped <;> decide

theorem low_char {n : Nat} (low : n < 128) : (Char.ofNat n).toNat = n := by
  rw [Char.ofNat,dif_pos (.inl (Nat.lt_trans low (by decide)))]
  rfl

-- A Ctrl character goes out as the control character that it is.
theorem plain_bytes (c : Char) (mods : Modifiers) :
    encodeUnaltered c mods = String.utf8EncodeChar (plainChar c mods.ctrl) := by
  unfold encodeUnaltered plainChar
  cases mods.ctrl with
  | false => rfl
  | true =>
      cases mapped : ctrlByte c with
      | none => rfl
      | some b =>
          have low := control_low mapped
          have same : (Char.ofNat b.toNat).toNat = b.toNat := low_char (by omega)
          have alone := utf8_ascii (c := Char.ofNat b.toNat) (by omega)
          rw [same,UInt8.ofNat_toNat] at alone
          exact alone.symm

theorem first_other {c d : Char} {b : UInt8} {more : List UInt8} (opened : String.utf8EncodeChar c = b :: more) (low : d.toNat < 128)
    (other : c ≠ d) : b ≠ UInt8.ofNat d.toNat :=
  fun same => other (utf8_same low (by rw [opened,same]; exact List.mem_cons_self))

theorem char_read {c : Char} (typed : c ≠ '\x1b') : Reads readGesture (String.utf8EncodeChar c) (.char c) := by
  intro rest
  have read := readChar_encode c rest
  obtain ⟨b,more,opened⟩ := List.exists_cons_of_ne_nil (utf8_nonempty c)
  have other : b ≠ 27 := first_other opened (by decide) typed
  rw [opened] at read ⊢
  rw [List.cons_append] at read ⊢
  rw [readGesture,if_neg other,read]
  rfl

theorem alt_read {c : Char} (bracket : c ≠ '[') (letter : c ≠ 'O') : Reads readGesture (27 :: String.utf8EncodeChar c) (.alt c) := by
  intro rest
  have read := readChar_encode c rest
  obtain ⟨b,more,opened⟩ := List.exists_cons_of_ne_nil (utf8_nonempty c)
  have csi : b ≠ 91 := first_other opened (by decide) bracket
  have ss3 : b ≠ 79 := first_other opened (by decide) letter
  rw [opened] at read ⊢
  rw [List.cons_append] at read
  change readEscape (b :: (more ++ rest)) = _
  rw [readEscape,if_neg csi,if_neg ss3,read]
  rfl

theorem lookup_mem {α β : Type} [BEq α] [LawfulBEq α] {table : List (α × β)} {a : α} {found : β}
    (named : table.lookup a = some found) : (a,found) ∈ table := by
  obtain ⟨before,later,split,-⟩ := List.lookup_eq_some_iff.mp named
  rw [split]
  exact List.mem_append_right _ List.mem_cons_self

theorem letter_final {final : UInt8} {key : Key} (named : letterKey final = some key) :
    digit? final = none ∧ final ≠ 126 ∧ final ≠ 60 ∧ final ≠ 77 ∧ final ≠ 73 ∧ final ≠ 79 ∧ final ≠ 90 := by
  have each : ∀ entry ∈ letterKeys, digit? entry.1 = none ∧ entry.1 ≠ 126 ∧ entry.1 ≠ 60 ∧ entry.1 ≠ 77 ∧ entry.1 ≠ 73 ∧
      entry.1 ≠ 79 ∧ entry.1 ≠ 90 := by decide
  exact each _ (lookup_mem named)

theorem decimal_starts (n : Nat) : ∃ b more, decimal n = b :: more ∧ digit? b ≠ none := by
  unfold decimal
  cases chars : Nat.toDigits 10 n with
  | nil => exact absurd chars Nat.toDigits_ne_nil
  | cons c more =>
      refine ⟨_,_,rfl,?_⟩
      rw [digit_byte (decimal_digits n c (by rw [chars]; exact List.mem_cons_self))]
      exact Option.some_ne_none _

-- What begins with a digit has parameters.
theorem csi_params {b : UInt8} (digit : digit? b ≠ none) (rest : List UInt8) : readCsi (b :: rest) = readParams (b :: rest) := by
  have other (final : UInt8) (stop : digit? final = none) : b ≠ final := by
    rintro rfl
    exact digit stop
  have unnamed : letterKey b = none := by
    cases named : letterKey b with
    | none => rfl
    | some key => exact absurd (letter_final named).1 digit
  rw [readCsi,if_neg (other 60 rfl),if_neg (other 77 rfl),if_neg (other 73 rfl),if_neg (other 79 rfl),if_neg (other 90 rfl),unnamed]

theorem params_read (n : Nat) (bytes : List UInt8) :
    readGesture (27 :: 91 :: (decimal n ++ bytes)) = readParams (decimal n ++ bytes) := by
  obtain ⟨b,more,opened,digit⟩ := decimal_starts n
  rw [opened,List.cons_append]
  change readCsi (b :: (more ++ bytes)) = _
  exact csi_params digit _

theorem modified_read {code : Nat} {final : UInt8} {key : Key} (named : keyOf code final = some key) (stop : digit? final = none)
    (mods : Modifiers) :
    Reads readGesture (27 :: 91 :: (decimal code ++ 59 :: (decimal (modParam mods) ++ [final]))) (.key key mods) := by
  intro rest
  have whole : (27 :: 91 :: (decimal code ++ 59 :: (decimal (modParam mods) ++ [final]))) ++ rest =
      27 :: 91 :: (decimal code ++ (59 :: (decimal (modParam mods) ++ final :: rest))) := by simp
  have first := number_decimal code (59 :: (decimal (modParam mods) ++ final :: rest)) rfl
  have second := number_decimal (modParam mods) (final :: rest) stop
  have back : modsOf (modParam mods) = mods := by
    obtain ⟨ctrl,alt,shift⟩ := mods
    cases ctrl <;> cases alt <;> cases shift <;> rfl
  rw [whole,params_read,readParams,first]
  simp only [Option.bind_eq_bind,Option.bind_some,if_true,second,List.headD_cons,List.tail_cons,named,back]
  rfl

theorem unmodified_read {code : Nat} {final : UInt8} {key : Key} (named : keyOf code final = some key) (stop : digit? final = none)
    (other : final ≠ 59) (single : code ≠ 200) :
    Reads readGesture (27 :: 91 :: (decimal code ++ [final])) (.key key unmodified) := by
  intro rest
  have whole : (27 :: 91 :: (decimal code ++ [final])) ++ rest = 27 :: 91 :: (decimal code ++ (final :: rest)) := by simp
  rw [whole,params_read,readParams,number_decimal code (final :: rest) stop]
  simp only [Option.bind_eq_bind,Option.bind_some,if_neg other,if_neg single,named]
  rfl

def letterBytes (final : UInt8) (mods : Modifiers) (ss3 : Bool) : List UInt8 :=
  if hasAnyMod mods then 27 :: 91 :: (decimal 1 ++ 59 :: (decimal (modParam mods) ++ [final]))
  else if ss3 then [27,79,final] else [27,91,final]

def tildeBytes (code : Nat) (mods : Modifiers) : List UInt8 :=
  if hasAnyMod mods then 27 :: 91 :: (decimal code ++ 59 :: (decimal (modParam mods) ++ [126]))
  else 27 :: 91 :: (decimal code ++ [126])

theorem unmodified_exact {mods : Modifiers} (none : ¬ hasAnyMod mods = true) : mods = unmodified := by
  obtain ⟨ctrl,alt,shift⟩ := mods
  revert none
  cases ctrl <;> cases alt <;> cases shift <;> simp [hasAnyMod,unmodified]

theorem letter_read {final : UInt8} {key : Key} (named : letterKey final = some key) (mods : Modifiers) (ss3 : Bool) :
    Reads readGesture (letterBytes final mods ss3) (.key key mods) := by
  obtain ⟨stop,tilde,a,b,c,d,e⟩ := letter_final named
  unfold letterBytes
  split
  · exact modified_read ((if_neg tilde).trans ((if_pos rfl).trans named)) stop mods
  rename_i plain
  rw [unmodified_exact plain]
  split
  · intro rest
    change (letterKey final).map (fun key => (Gesture.key key unmodified,rest)) = _
    rw [named]
    rfl
  · intro rest
    change readCsi (final :: rest) = _
    rw [readCsi,if_neg a,if_neg b,if_neg c,if_neg d,if_neg e,named]

theorem tilde_read {code : Nat} {key : Key} (named : codeKey code = some key) (mods : Modifiers) :
    Reads readGesture (tildeBytes code mods) (.key key mods) := by
  have single : code ≠ 200 := by
    have each : ∀ entry ∈ codeKeys, entry.1 ≠ 200 := by decide
    exact each _ (lookup_mem named)
  unfold tildeBytes
  split
  · exact modified_read ((if_pos rfl).trans named) rfl mods
  · rename_i plain
    rw [unmodified_exact plain]
    exact unmodified_read ((if_pos rfl).trans named) rfl (by decide) single

-- The bytes of a key that has a sequence of its own.
inductive Sent (key : Key) (mods : Modifiers) (bytes : List UInt8) : Prop where
  | letter (final : UInt8) (ss3 : Bool) (named : letterKey final = some key) (same : bytes = letterBytes final mods ss3)
  | tilde (code : Nat) (named : codeKey code = some key) (same : bytes = tildeBytes code mods)

theorem sent_read {key : Key} {mods : Modifiers} {bytes : List UInt8} (sent : Sent key mods bytes) :
    Reads readGesture bytes (.key key mods) := by
  cases sent with
  | letter final ss3 named same => exact same ▸ letter_read named mods ss3
  | tilde code named same => exact same ▸ tilde_read named mods

theorem function_sent {n : UInt8} (admitted : 1 ≤ n ∧ n ≤ 12) (mods : Modifiers) :
    Sent (.f ⟨n,admitted⟩) mods (encodeFunctionKey n mods) := by
  obtain ⟨first,last⟩ := id admitted
  have number : n = 1 ∨ n = 2 ∨ n = 3 ∨ n = 4 ∨ n = 5 ∨ n = 6 ∨ n = 7 ∨ n = 8 ∨ n = 9 ∨ n = 10 ∨ n = 11 ∨ n = 12 := by
    rw [UInt8.le_iff_toNat_le] at first last
    simp only [← UInt8.toNat_inj]
    change 1 ≤ n.toNat at first
    change n.toNat ≤ 12 at last
    change n.toNat = 1 ∨ n.toNat = 2 ∨ n.toNat = 3 ∨ n.toNat = 4 ∨ n.toNat = 5 ∨ n.toNat = 6 ∨ n.toNat = 7 ∨ n.toNat = 8 ∨
      n.toNat = 9 ∨ n.toNat = 10 ∨ n.toNat = 11 ∨ n.toNat = 12
    omega
  obtain rfl | rfl | rfl | rfl | rfl | rfl | rfl | rfl | rfl | rfl | rfl | rfl := number
  · exact .letter 80 true rfl rfl
  · exact .letter 81 true rfl rfl
  · exact .letter 82 true rfl rfl
  · exact .letter 83 true rfl rfl
  · exact .tilde 15 rfl rfl
  · exact .tilde 17 rfl rfl
  · exact .tilde 18 rfl rfl
  · exact .tilde 19 rfl rfl
  · exact .tilde 20 rfl rfl
  · exact .tilde 21 rfl rfl
  · exact .tilde 23 rfl rfl
  · exact .tilde 24 rfl rfl

theorem pieces_length {β : Type} {pieces : List (List UInt8 × β)} (filled : ∀ piece ∈ pieces, piece.1 ≠ []) :
    pieces.length ≤ (pieces.map Prod.fst).flatten.length := by
  induction pieces with
  | nil => exact Nat.zero_le _
  | cons piece rest ih =>
      obtain ⟨first,later⟩ := List.forall_mem_cons.mp filled
      have one := List.length_pos_iff.mpr first
      have more := ih later
      simp only [List.map_cons,List.flatten_cons,List.length_append,List.length_cons]
      omega

theorem readText (text : List Char) : readMany readChar (utf8 text).length (utf8 text) = some text := by
  have each : ∀ piece ∈ text.map (fun c => (String.utf8EncodeChar c,c)), piece.1 ≠ [] ∧ Reads readChar piece.1 piece.2 := by
    intro piece member
    obtain ⟨c,_,rfl⟩ := List.mem_map.mp member
    exact ⟨utf8_nonempty c,readChar_encode c⟩
  have enough := pieces_length fun piece member => (each piece member).1
  have read := readMany_pieces readChar _ each enough
  rwa [List.map_map,List.map_map,show Prod.snd ∘ (fun c => (String.utf8EncodeChar c,c)) = id from rfl,List.map_id] at read

-- The first terminator behind a payload that has none is the one of the paste.
theorem takePaste_payload {payload : List UInt8} (free : ¬ pasteEnd <:+: payload) (rest : List UInt8) :
    takePaste (payload ++ (pasteEnd ++ rest)) = some (payload,rest) := by
  induction payload with
  | nil => rfl
  | cons b payload ih =>
      have later : ¬ pasteEnd <:+: payload := fun found => free (List.infix_cons found)
      have apart : ¬ pasteEnd.isPrefixOf (b :: (payload ++ (pasteEnd ++ rest))) = true := by
        intro found
        rw [List.isPrefixOf_iff_prefix] at found
        have whole : b :: (payload ++ (pasteEnd ++ rest)) = (b :: payload ++ pasteEnd) ++ rest := by simp
        rw [whole] at found
        have fits : pasteEnd.length ≤ (b :: payload ++ pasteEnd).length := by
          rw [List.length_append]
          exact Nat.le_add_left _ _
        obtain ⟨behind,cut⟩ := List.prefix_of_prefix_length_le found (List.prefix_append _ rest) fits
        have ended := (once_exact (b :: payload)).mpr free pasteStart behind (by rw [List.append_assoc,List.append_assoc,cut])
        rw [ended,List.append_nil] at cut
        have longer := congrArg List.length cut
        rw [List.length_append,List.length_cons] at longer
        omega
      rw [List.cons_append,takePaste,if_neg apart,ih later]
      rfl

theorem pasted_read {text : List Char} {modes : TerminalModes} (bracketed : modes.bracketedPaste = true) (single : NoThreaded text) :
    Reads readGesture (encodePaste text modes) (.pasted (removeTerminators text)) := by
  intro rest
  have free : ¬ pasteEnd <:+: utf8 (removeTerminators text) := by
    rw [pasteEnd_utf8,utf8_inside]
    exact (noThreaded_exact text).mp single
  have number : number ([50,48,48,126] ++ (utf8 (removeTerminators text) ++ (pasteEnd ++ rest))) =
      some (200,126 :: (utf8 (removeTerminators text) ++ (pasteEnd ++ rest))) := rfl
  rw [(payload_guarded text bracketed).1,pasteStart_bytes,List.append_assoc,List.append_assoc]
  change readParams ([50,48,48,126] ++ (utf8 (removeTerminators text) ++ (pasteEnd ++ rest))) = _
  rw [readParams,number]
  change readPaste (utf8 (removeTerminators text) ++ (pasteEnd ++ rest)) = _
  rw [readPaste,takePaste_payload free]
  simp only [Option.bind_eq_bind,Option.bind_some,readText]
  rfl

-- What a key sends, by what can be told of it.
inductive Encoded : Gesture → List UInt8 → Prop where
  | char (c : Char) : Encoded (.char c) (String.utf8EncodeChar c)
  | alt (c : Char) : Encoded (.alt c) (27 :: String.utf8EncodeChar c)
  | backTab : Encoded .backTab [27,91,90]
  | key {key : Key} {mods : Modifiers} {bytes : List UInt8} (sent : Sent key mods bytes) : Encoded (.key key mods) bytes

theorem char_encoded (c : Char) (mods : Modifiers) (modes : TerminalModes) :
    Encoded (keyGesture ⟨.char c,mods⟩) (encodeKey ⟨.char c,mods⟩ modes) := by
  simp only [keyGesture,encodeKey,encodeChar]
  split
  · rw [plain_bytes c {mods with alt := false}]
    exact .alt _
  · rw [plain_bytes c mods]
    exact .char _

theorem key_encoded (event : KeyEvent) (modes : TerminalModes) : Encoded (keyGesture event) (encodeKey event modes) := by
  obtain ⟨key,mods⟩ := event
  cases key with
  | char c => exact char_encoded c mods modes
  | tab =>
      simp only [keyGesture,encodeKey]
      split
      · exact .backTab
      · exact .char '\t'
  | enter => exact .char '\r'
  | backspace => exact .char '\x7f'
  | escape => exact .char '\x1b'
  | up => exact .key (.letter 65 modes.appCursor rfl rfl)
  | down => exact .key (.letter 66 modes.appCursor rfl rfl)
  | right => exact .key (.letter 67 modes.appCursor rfl rfl)
  | left => exact .key (.letter 68 modes.appCursor rfl rfl)
  | home => exact .key (.letter 72 modes.appCursor rfl rfl)
  | endKey => exact .key (.letter 70 modes.appCursor rfl rfl)
  | insert => exact .key (.tilde 2 rfl rfl)
  | delete => exact .key (.tilde 3 rfl rfl)
  | pageUp => exact .key (.tilde 5 rfl rfl)
  | pageDown => exact .key (.tilde 6 rfl rfl)
  | f n => exact .key (function_sent n.admitted mods)

theorem encoded_read {g : Gesture} {bytes : List UInt8} (encoded : Encoded g bytes) (clear : g.clear = true) :
    Reads readGesture bytes g := by
  cases encoded with
  | char c => exact char_read (bne_iff_ne.mp clear)
  | alt c =>
      have other : (c != '[') = true ∧ (c != 'O') = true := Bool.and_eq_true_iff.mp clear
      exact alt_read (bne_iff_ne.mp other.1) (bne_iff_ne.mp other.2)
  | backTab => exact fun rest => rfl
  | key sent => exact sent_read sent

theorem utf8_first {c : Char} {b : UInt8} (low : b < 128) (first : (String.utf8EncodeChar c).headD 0 = b) :
    (String.utf8EncodeChar c).tail = [] := by
  obtain ⟨d,more,opened⟩ := List.exists_cons_of_ne_nil (utf8_nonempty c)
  rw [opened] at first
  have alone := utf8_low low (c := c) (by rw [opened,← first]; exact List.mem_cons_self)
  rw [alone.1]
  rfl

theorem sequence_alone {g : Gesture} {b : UInt8} {more : List UInt8} (starts : b = 91 ∨ b = 79) (longer : more ≠ [])
    (reads : Reads readGesture (27 :: b :: more) g) : readAlone (27 :: b :: more) = some g := by
  have read := reads []
  rw [List.append_nil] at read
  rw [readAlone,if_pos ⟨rfl,List.cons_ne_nil _ _⟩,if_pos ⟨starts,longer⟩,read]
  rfl

theorem sent_starts {key : Key} {mods : Modifiers} {bytes : List UInt8} (sent : Sent key mods bytes) :
    ∃ b more, bytes = 27 :: b :: more ∧ (b = 91 ∨ b = 79) ∧ more ≠ [] := by
  cases sent with
  | letter final ss3 named same =>
      unfold letterBytes at same
      split at same
      · exact ⟨91,_,same,.inl rfl,by simp⟩
      split at same
      · exact ⟨79,_,same,.inr rfl,by simp⟩
      · exact ⟨91,_,same,.inl rfl,by simp⟩
  | tilde code named same =>
      unfold tildeBytes at same
      split at same
      · exact ⟨91,_,same,.inl rfl,by simp⟩
      · exact ⟨91,_,same,.inl rfl,by simp⟩

theorem encoded_alone {g : Gesture} {bytes : List UInt8} (encoded : Encoded g bytes) : readAlone bytes = some g := by
  cases encoded with
  | char c =>
      have read := readChar_encode c []
      rw [List.append_nil] at read
      obtain ⟨b,more,opened⟩ := List.exists_cons_of_ne_nil (utf8_nonempty c)
      have single : ¬ (b = 27 ∧ more ≠ []) := by
        rintro ⟨rfl,longer⟩
        have none := utf8_first (c := c) (b := 27) (by decide) (by rw [opened]; rfl)
        rw [opened] at none
        exact longer none
      rw [opened] at read ⊢
      rw [readAlone,if_neg single,read]
      rfl
  | alt c =>
      have read := readChar_encode c []
      rw [List.append_nil] at read
      have short : ¬ (((String.utf8EncodeChar c).headD 0 = 91 ∨ (String.utf8EncodeChar c).headD 0 = 79) ∧
          (String.utf8EncodeChar c).tail ≠ []) := by
        rintro ⟨first | first,longer⟩
        · exact longer (utf8_first (by decide) first)
        · exact longer (utf8_first (by decide) first)
      rw [readAlone,if_pos ⟨rfl,utf8_nonempty c⟩,if_neg short,read]
      rfl
  | backTab => rfl
  | key sent =>
      obtain ⟨b,more,rfl,starts,longer⟩ := sent_starts sent
      exact sequence_alone starts longer (sent_read sent)

-- Only a key with a sequence of its own is told as a key.
theorem own_key {event : KeyEvent} {key : Key} {mods : Modifiers} (own : keyGesture event = .key key mods) :
    event = ⟨key,mods⟩ := by
  obtain ⟨pressed,held⟩ := event
  cases pressed with
  | char c =>
      simp only [keyGesture] at own
      split at own <;> cases own
  | tab =>
      simp only [keyGesture] at own
      split at own <;> cases own
  | enter => cases own
  | backspace => cases own
  | escape => cases own
  | _ =>
      cases own
      rfl

theorem encoded_same {g : Gesture} {bytes others : List UInt8} (encoded : Encoded g bytes) (again : Encoded g others)
    (plain : ∀ key mods, g ≠ .key key mods) : bytes = others := by
  cases encoded with
  | char c => cases again; rfl
  | alt c => cases again; rfl
  | backTab => cases again; rfl
  | key sent => exact absurd rfl (plain _ _)

-- A program gets from the bytes of a key, in whatever modes, what can be told of it; and two keys
-- send the same bytes only where nothing tells them apart.
theorem keys_told (event other : KeyEvent) (modes : TerminalModes) :
    readAlone (encodeKey event modes) = some (keyGesture event) ∧
      (encodeKey other modes = encodeKey event modes ↔ keyGesture other = keyGesture event) := by
  have one := encoded_alone (key_encoded event modes)
  refine ⟨one,fun same => ?_,fun same => ?_⟩
  · have two := encoded_alone (key_encoded other modes)
    rw [same,one] at two
    exact (Option.some.inj two).symm
  · by_cases own : ∃ key mods, keyGesture event = .key key mods
    · obtain ⟨key,mods,named⟩ := own
      rw [own_key named,own_key (same.trans named)]
    · exact encoded_same (same ▸ key_encoded other modes) (key_encoded event modes) fun key mods named => own ⟨key,mods,named⟩

theorem mouse_read {m : MouseEvent} {modes : TerminalModes} (sent : encodeMouse m modes = some bytes) :
    Reads readGesture bytes (.mouse (MouseReports.told modes.sgrMouse m)) := by
  intro rest
  have read := MouseReports.readMouse_report sent rest
  have outcome := MouseReports.encodeMouse_outcome m modes
  rw [sent] at outcome
  cases outcome with
  | sgr reports format =>
      rw [format] at read ⊢
      change (MouseReports.readSgr (MouseReports.sgrReport m ++ rest)).map _ = _
      rw [show MouseReports.readSgr (MouseReports.sgrReport m ++ rest) = _ from read]
      rfl
  | x10 reports format small =>
      rw [format] at read ⊢
      change (MouseReports.readX10 (MouseReports.x10Report m ++ rest)).map _ = _
      rw [show MouseReports.readX10 (MouseReports.x10Report m ++ rest) = _ from read]
      rfl

-- The bytes of an input in pieces, each with what is told by it.
def pieces (modes : TerminalModes) : SessionInput → List (List UInt8 × Gesture)
  | .key k => [(encodeKey k modes,keyGesture k)]
  | .paste text =>
    if modes.bracketedPaste then [(encodePaste text modes,.pasted (removeTerminators text))]
    else text.map fun c => (String.utf8EncodeChar c,.char c)
  | .mouse m => ((encodeMouse m modes).map fun bytes => (bytes,.mouse (MouseReports.told modes.sgrMouse m))).toList
  | .focus gained => ((encodeFocus gained modes).map fun bytes => (bytes,.focus gained)).toList
  | .resize _ => []

def written (commands : List TransportCommand) : List UInt8 :=
  commands.flatMap fun command =>
    match command with
    | .write bytes => bytes
    | _ => []

theorem pieces_told (modes : TerminalModes) (i : SessionInput) : (pieces modes i).map Prod.snd = gestures modes i := by
  cases i with
  | key k => rfl
  | paste text =>
      simp only [pieces,gestures]
      split
      · rfl
      · rw [List.map_map]; rfl
  | mouse m =>
      simp only [pieces,gestures]
      cases encodeMouse m modes <;> rfl
  | focus gained =>
      simp only [pieces,gestures,encodeFocus]
      cases modes.focusReporting <;> rfl
  | resize size => rfl

theorem pieces_written (modes : TerminalModes) (i : SessionInput) :
    ((pieces modes i).map Prod.fst).flatten = written (Console.typed modes i) := by
  have one (bytes : List UInt8) : written [.write bytes] = bytes := List.append_nil _
  cases i with
  | key k => rfl
  | paste text =>
      simp only [pieces,Console.typed,one]
      split
      · exact List.append_nil _
      · rename_i plain
        rw [List.map_map,encodePaste,if_pos (by simpa using plain),utf8,List.flatMap_def]
        rfl
  | mouse m =>
      simp only [pieces,Console.typed]
      cases encodeMouse m modes <;> rfl
  | focus gained =>
      simp only [pieces,Console.typed]
      cases encodeFocus gained modes <;> rfl
  | resize size => rfl

theorem focus_read {gained : Bool} {modes : TerminalModes} (sent : encodeFocus gained modes = some bytes) :
    Reads readGesture bytes (.focus gained) := by
  unfold encodeFocus at sent
  split at sent
  · cases sent
  · cases sent
    intro rest
    cases gained <;> rfl

theorem pieces_read {modes : TerminalModes} {i : SessionInput} (clear : Clear modes i) {piece : List UInt8 × Gesture}
    (member : piece ∈ pieces modes i) : Reads readGesture piece.1 piece.2 := by
  have told : piece.2.clear = true := clear.gestures _ (pieces_told modes i ▸ List.mem_map_of_mem member)
  cases i with
  | key k =>
      obtain rfl := List.mem_singleton.mp member
      exact encoded_read (key_encoded k modes) told
  | paste text =>
      simp only [pieces] at member
      split at member
      · rename_i bracketed
        obtain rfl := List.mem_singleton.mp member
        exact pasted_read bracketed (clear.pasted text rfl bracketed)
      · obtain ⟨c,_,rfl⟩ := List.mem_map.mp member
        exact char_read (bne_iff_ne.mp told)
  | mouse m =>
      obtain ⟨bytes,sent,rfl⟩ := Option.map_eq_some_iff.mp (Option.mem_toList.mp member)
      exact mouse_read sent
  | focus gained =>
      obtain ⟨bytes,sent,rfl⟩ := Option.map_eq_some_iff.mp (Option.mem_toList.mp member)
      exact focus_read sent
  | resize size => cases member

-- Nothing is read from no bytes.
theorem reads_filled {g : Gesture} {bytes : List UInt8} (reads : Reads readGesture bytes g) : bytes ≠ [] := by
  rintro rfl
  cases reads []

-- Inputs that are written one after the other, each in the modes of its moment, are read one after the other.
theorem inputs_read (inputs : List (TerminalModes × SessionInput)) (clear : ∀ input ∈ inputs, Clear input.1 input.2) :
    let bytes := written (inputs.flatMap fun input => Console.typed input.1 input.2)
    readMany readGesture bytes.length bytes = some (inputs.flatMap fun input => gestures input.1 input.2) := by
  intro bytes
  let all := inputs.flatMap fun input => pieces input.1 input.2
  have each : ∀ piece ∈ all, piece.1 ≠ [] ∧ Reads readGesture piece.1 piece.2 := by
    intro piece member
    obtain ⟨input,among,within⟩ := List.mem_flatMap.mp member
    have reads := pieces_read (clear input among) within
    exact ⟨reads_filled reads,reads⟩
  have whole : (all.map Prod.fst).flatten = bytes := by
    change (List.map Prod.fst (List.flatMap _ _)).flatten = written _
    rw [List.map_flatMap,← List.flatMap_id,List.flatMap_assoc,written,List.flatMap_assoc]
    simp only [List.flatMap_id,pieces_written]
    rfl
  have told : all.map Prod.snd = inputs.flatMap fun input => gestures input.1 input.2 := by
    rw [List.map_flatMap]
    simp only [pieces_told]
  have read := readMany_pieces readGesture all each (pieces_length fun piece member => (each piece member).1)
  rwa [whole,told] at read

section session
variable {T : Terminal} {P : VteParser} {S : Screens T}
open Console Session

-- The inputs among the stimuli of a terminal, each with the modes that it meets.
def actions (c : Console T) : List Stimulus → List (TerminalModes × SessionInput)
  | [] => []
  | .byte b :: rest => actions (c.react (.byte b)) rest
  | .input i :: rest => (c.modes,i) :: actions (c.react (.input i)) rest

-- The program asks the terminal for nothing, so nothing but the inputs is written to it.
def Unasked (c : Console T) (stimuli : List Stimulus) : Prop :=
  ∀ before b later, stimuli = before ++ .byte b :: later → (c.after before).replies (.byte b) = []

theorem unasked_tail {c : Console T} {stimulus : Stimulus} {rest : List Stimulus} (unasked : Unasked c (stimulus :: rest)) :
    Unasked (c.react stimulus) rest := by
  rintro before b later rfl
  exact unasked (stimulus :: before) b later rfl

theorem replied_actions {c : Console T} {stimuli : List Stimulus} (unasked : Unasked c stimuli) :
    c.replied stimuli = (actions c stimuli).flatMap fun input => typed input.1 input.2 := by
  induction stimuli generalizing c with
  | nil => rfl
  | cons stimulus rest ih =>
      have later := ih (unasked_tail unasked)
      rw [replied,later]
      cases stimulus with
      | byte b =>
          have silent : c.replies (.byte b) = [] := unasked [] b rest rfl
          rw [silent]
          rfl
      | input i => rfl

-- A program that runs in a session and asks nothing of the terminal reads what its user does: from
-- the bytes that the backend is sent it gets each gesture once and in order, whatever modes it
-- switches meanwhile, as long as nothing is typed that looks like the start of a sequence.
theorem gestures_reach_program (V : Viewport S) (size : TerminalSize) (messages : List Received)
    (unasked : Unasked (begun size : Console T) (heard messages))
    (clear : ∀ input ∈ actions (begun size : Console T) (heard messages), Clear input.1 input.2) :
    let bytes := written ((spawnWithTransport size : Session T P).runEngineLoop messages).1.commands.sent
    readMany readGesture bytes.length bytes =
      some ((actions (begun size : Console T) (heard messages)).flatMap fun input => gestures input.1 input.2) := by
  have run : Upto V (begun size) (heard messages) (messages.foldl loopStep ((spawnWithTransport size : Session T P),true)).1 :=
    run_upto (spawn_follows V size) ⟨rfl,rfl⟩ messages
  have sent := run.1
  rw [← runEngineLoop_steps,replied_actions unasked] at sent
  rw [sent]
  exact inputs_read _ clear
end session

-- Ctrl-A, Alt-b, Shift-Up and a paste, after a letter of the program.
theorem gestures_reach_program_four :
    let messages : List Received := [.event (.output [104]),.input (.key ⟨.char 'a',⟨true,false,false⟩⟩),
      .input (.key ⟨.char 'b',⟨false,true,false⟩⟩),.input (.key ⟨.up,⟨false,false,true⟩⟩),.input (.paste ['x','y'])]
    let bytes := written ((Session.spawnWithTransport ⟨2,4⟩ : Session LineTerminal.terminal LineTerminal.sideParser).runEngineLoop
      messages).1.commands.sent
    bytes = [1,27,98,27,91,49,59,50,65,120,121] ∧
      readMany readGesture bytes.length bytes =
        some [.char '\x01',.alt 'b',.key .up ⟨false,false,true⟩,.char 'x',.char 'y'] := by
  intro messages bytes
  let modes : TerminalModes := ⟨false,false,false,.off,false,false⟩
  have met : actions (Console.begun ⟨2,4⟩ : Console LineTerminal.terminal) (Console.heard messages) =
      [(modes,.key ⟨.char 'a',⟨true,false,false⟩⟩),(modes,.key ⟨.char 'b',⟨false,true,false⟩⟩),
        (modes,.key ⟨.up,⟨false,false,true⟩⟩),(modes,.paste ['x','y'])] := rfl
  have clear : ∀ input ∈ [(modes,SessionInput.key ⟨.char 'a',⟨true,false,false⟩⟩),(modes,.key ⟨.char 'b',⟨false,true,false⟩⟩),
      (modes,.key ⟨.up,⟨false,false,true⟩⟩),(modes,.paste ['x','y'])], Clear input.1 input.2 := by
    intro input member
    have typed : input.1 = modes ∧ ∀ g ∈ gestures input.1 input.2, g.clear = true := by
      revert input
      decide
    refine ⟨typed.2,fun text pasted bracketed => ?_⟩
    rw [typed.1] at bracketed
    cases bracketed
  have told := gestures_reach_program (P := LineTerminal.sideParser) LineTerminal.viewport ⟨2,4⟩ messages
    (fun _ _ _ _ => rfl) (met ▸ clear)
  exact ⟨by rfl,told⟩

end Perga.InputStream

import Perga.Cells

namespace Perga

structure Modifiers where
  ctrl : Bool
  alt : Bool
  shift : Bool
  deriving DecidableEq, Repr

-- `FunctionKey::new` admits 1..=12 only.
structure FunctionKey where
  n : UInt8
  admitted : 1 ≤ n ∧ n ≤ 12
  deriving DecidableEq, Repr

inductive Key where
  | char (value : Char)
  | enter | tab | backspace | escape
  | up | down | left | right | home | endKey
  | pageUp | pageDown | insert | delete
  | f (n : FunctionKey)
  deriving DecidableEq, Repr

structure KeyEvent where
  key : Key
  mods : Modifiers
  deriving DecidableEq, Repr

inductive MouseButton where
  | left
  | middle
  | right
  deriving DecidableEq, Repr

inductive MouseEventKind where
  | press (button : MouseButton)
  | release (button : MouseButton)
  | drag (button : MouseButton)
  | motion
  | wheelUp
  | wheelDown
  deriving DecidableEq, Repr

structure NonZeroU16 where
  value : UInt16
  nonzero : value ≠ 0
  deriving DecidableEq, Repr

structure MouseEvent where
  kind : MouseEventKind
  col : NonZeroU16
  row : NonZeroU16
  mods : Modifiers
  deriving DecidableEq, Repr

namespace InputEncoders
def ascii (text : String) : List UInt8 := text.toList.map fun c => UInt8.ofNat c.toNat

def decimal (n : Nat) : List UInt8 := (Nat.toDigits 10 n).map fun c => UInt8.ofNat c.toNat

def utf8 (text : List Char) : List UInt8 := text.flatMap String.utf8EncodeChar

def ctrlByte (c : Char) : Option UInt8 :=
  if 'a' ≤ c ∧ c ≤ 'z' then some (UInt8.ofNat (c.toNat-97+1))
  else if 'A' ≤ c ∧ c ≤ 'Z' then some (UInt8.ofNat (c.toNat-65+1))
  else match c with
    | '@' => some 0x00
    | ' ' => some 0x00
    | '[' => some 0x1b
    | '\\' => some 0x1c
    | ']' => some 0x1d
    | '^' => some 0x1e
    | '_' => some 0x1f
    | _ => none

-- The source recurses once, with `alt` removed.
def encodeUnaltered (c : Char) (mods : Modifiers) : List UInt8 :=
  if mods.ctrl then
    match ctrlByte c with
    | some b => [b]
    | none => String.utf8EncodeChar c
  else String.utf8EncodeChar c

def encodeChar (c : Char) (mods : Modifiers) : List UInt8 :=
  if mods.alt then 0x1b :: encodeUnaltered c {mods with alt := false} else encodeUnaltered c mods

def hasAnyMod (mods : Modifiers) : Bool := mods.shift || mods.alt || mods.ctrl

def modParam (mods : Modifiers) : Nat := 1+mods.shift.toNat+2*mods.alt.toNat+4*mods.ctrl.toNat

def arrowOrPos (letter : String) (mods : Modifiers) (modes : TerminalModes) : List UInt8 :=
  if hasAnyMod mods then ascii "\x1b[1;" ++ decimal (modParam mods) ++ ascii letter
  else if modes.appCursor then ascii "\x1bO" ++ ascii letter
  else ascii "\x1b[" ++ ascii letter

def tildeKey (code : Nat) (mods : Modifiers) : List UInt8 :=
  if hasAnyMod mods then ascii "\x1b[" ++ decimal code ++ ascii ";" ++ decimal (modParam mods) ++ ascii "~"
  else ascii "\x1b[" ++ decimal code ++ ascii "~"

def functionLetter (n : UInt8) : String := if n = 1 then "P" else if n = 2 then "Q" else if n = 3 then "R" else "S"

def functionCode (n : UInt8) : Nat :=
  if n = 5 then 15 else if n = 6 then 17 else if n = 7 then 18 else if n = 8 then 19
  else if n = 9 then 20 else if n = 10 then 21 else if n = 11 then 23 else 24

-- The invariant of `FunctionKey` leaves 1..=4 and 5..=12; the `unreachable!` arms are gone.
def encodeFunctionKey (n : UInt8) (mods : Modifiers) : List UInt8 :=
  if n ≤ 4 then
    if hasAnyMod mods then ascii "\x1b[1;" ++ decimal (modParam mods) ++ ascii (functionLetter n)
    else ascii "\x1bO" ++ ascii (functionLetter n)
  else tildeKey (functionCode n) mods

def encodeKey (event : KeyEvent) (modes : TerminalModes) : List UInt8 :=
  match event.key with
  | .char value => encodeChar value event.mods
  | .enter => ascii "\r"
  | .tab => if event.mods.shift && !event.mods.ctrl && !event.mods.alt then ascii "\x1b[Z" else ascii "\t"
  | .backspace => [0x7f]
  | .escape => [0x1b]
  | .up => arrowOrPos "A" event.mods modes
  | .down => arrowOrPos "B" event.mods modes
  | .right => arrowOrPos "C" event.mods modes
  | .left => arrowOrPos "D" event.mods modes
  | .home => arrowOrPos "H" event.mods modes
  | .endKey => arrowOrPos "F" event.mods modes
  | .insert => tildeKey 2 event.mods
  | .delete => tildeKey 3 event.mods
  | .pageUp => tildeKey 5 event.mods
  | .pageDown => tildeKey 6 event.mods
  | .f n => encodeFunctionKey n.n event.mods

-- `str::replace` with the empty string: one pass from the left over the input.
def removeTerminators : List Char → List Char
  | '\x1b' :: '[' :: '2' :: '0' :: '1' :: '~' :: rest => removeTerminators rest
  | c :: rest => c :: removeTerminators rest
  | [] => []

def encodePaste (text : List Char) (modes : TerminalModes) : List UInt8 :=
  if !modes.bracketedPaste then utf8 text
  else ascii "\x1b[200~" ++ utf8 (removeTerminators text) ++ ascii "\x1b[201~"

def buttonBase : MouseButton → UInt8
  | .left => 0
  | .middle => 1
  | .right => 2

def buttonCode (kind : MouseEventKind) (mods : Modifiers) : UInt8 × Bool :=
  let base : UInt8 × Bool := match kind with
    | .press button => (buttonBase button,false)
    | .release button => (buttonBase button,true)
    | .drag button => (buttonBase button ||| 32,false)
    | .motion => (3 ||| 32,false)
    | .wheelUp => (64,false)
    | .wheelDown => (65,false)
  (base.1 ||| (if mods.shift then 4 else 0) ||| (if mods.alt then 8 else 0) ||| (if mods.ctrl then 16 else 0),base.2)

def reported (kind : MouseEventKind) (reporting : MouseReporting) : Bool :=
  match kind with
  | .drag _ => reporting != .normal
  | .motion => reporting == .any
  | _ => true

def encodeMouse (event : MouseEvent) (modes : TerminalModes) : Option (List UInt8) :=
  if modes.mouseReporting == .off then none
  else if !reported event.kind modes.mouseReporting then none
  else
    let code := buttonCode event.kind event.mods
    let col := event.col.value
    let row := event.row.value
    if modes.sgrMouse then
      some (ascii "\x1b[<" ++ decimal code.1.toNat ++ ascii ";" ++ decimal col.toNat ++ ascii ";" ++
        decimal row.toNat ++ ascii (if code.2 then "m" else "M"))
    else if col > 223 ∨ row > 223 then none
    else
      let finalCode := if code.2 then code.1 ||| 3 else code.1
      some [0x1b,91,77,finalCode+32,(col+32).toUInt8,(row+32).toUInt8]

def encodeFocus (gained : Bool) (modes : TerminalModes) : Option (List UInt8) :=
  if !modes.focusReporting then none
  else some (if gained then ascii "\x1b[I" else ascii "\x1b[O")

theorem utf8_nonempty (c : Char) : String.utf8EncodeChar c ≠ [] := by
  unfold String.utf8EncodeChar
  simp only
  split
  · simp
  · split
    · simp
    · split <;> simp

theorem unaltered_nonempty (c : Char) (mods : Modifiers) : encodeUnaltered c mods ≠ [] := by
  unfold encodeUnaltered
  split
  · split
    · simp
    · exact utf8_nonempty c
  · exact utf8_nonempty c

theorem introducer_nonempty : ascii "\x1b[1;" ≠ [] ∧ ascii "\x1bO" ≠ [] ∧ ascii "\x1b[" ≠ [] ∧ ascii "\r" ≠ [] := by
  decide

theorem arrow_nonempty (letter : String) (mods : Modifiers) (modes : TerminalModes) :
    arrowOrPos letter mods modes ≠ [] := by
  unfold arrowOrPos
  split
  · simp [introducer_nonempty]
  · split <;> simp [introducer_nonempty]

theorem tilde_nonempty (code : Nat) (mods : Modifiers) : tildeKey code mods ≠ [] := by
  unfold tildeKey
  split <;> simp [introducer_nonempty]

-- The empty result that the event loop guards against never comes: a key always
-- writes to the backend.
theorem encodeKey_nonempty (event : KeyEvent) (modes : TerminalModes) : encodeKey event modes ≠ [] := by
  unfold encodeKey
  cases event.key with
  | char value =>
      simp only [encodeChar]
      split
      · simp
      · exact unaltered_nonempty value event.mods
  | tab => simp only; split <;> decide
  | f n =>
      simp only [encodeFunctionKey]
      split
      · split <;> simp [introducer_nonempty]
      · exact tilde_nonempty _ _
  | enter => exact introducer_nonempty.2.2.2
  | backspace => exact List.cons_ne_nil _ _
  | escape => exact List.cons_ne_nil _ _
  | up => exact arrow_nonempty _ _ _
  | down => exact arrow_nonempty _ _ _
  | left => exact arrow_nonempty _ _ _
  | right => exact arrow_nonempty _ _ _
  | home => exact arrow_nonempty _ _ _
  | endKey => exact arrow_nonempty _ _ _
  | insert => exact tilde_nonempty _ _
  | delete => exact tilde_nonempty _ _
  | pageUp => exact tilde_nonempty _ _
  | pageDown => exact tilde_nonempty _ _
end InputEncoders

end Perga

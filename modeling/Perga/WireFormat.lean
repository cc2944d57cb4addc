import Perga.JsonTree
import Perga.ProtocolEncoder

namespace Perga

open Json

-- Serialization, as the derive attributes and the hand-written impl of `CellAttrs` give it.
def NamedColor.serialize : NamedColor → String
  | .black => "black"
  | .red => "red"
  | .green => "green"
  | .yellow => "yellow"
  | .blue => "blue"
  | .magenta => "magenta"
  | .cyan => "cyan"
  | .white => "white"
  | .brightBlack => "bright_black"
  | .brightRed => "bright_red"
  | .brightGreen => "bright_green"
  | .brightYellow => "bright_yellow"
  | .brightBlue => "bright_blue"
  | .brightMagenta => "bright_magenta"
  | .brightCyan => "bright_cyan"
  | .brightWhite => "bright_white"
  | .foreground => "foreground"
  | .background => "background"
  | .cursor => "cursor"
  | .dimBlack => "dim_black"
  | .dimRed => "dim_red"
  | .dimGreen => "dim_green"
  | .dimYellow => "dim_yellow"
  | .dimBlue => "dim_blue"
  | .dimMagenta => "dim_magenta"
  | .dimCyan => "dim_cyan"
  | .dimWhite => "dim_white"
  | .brightForeground => "bright_foreground"
  | .dimForeground => "dim_foreground"

def CellWidth.serialize : CellWidth → String
  | .single => "single"
  | .wide => "wide"
  | .wideSpacer => "wide_spacer"

def CursorStyle.serialize : CursorStyle → String
  | .block => "block"
  | .underline => "underline"
  | .beam => "beam"
  | .hidden => "hidden"

def MouseReporting.serialize : MouseReporting → String
  | .off => "off"
  | .normal => "normal"
  | .button => "button"
  | .any => "any"

def Color.serialize : Color → Json
  | .named name => .object [("named",.string name.serialize)]
  | .rgb r g b => .object [("rgb",.object [("r",.ofNat r.toNat),("g",.ofNat g.toNat),("b",.ofNat b.toNat)])]
  | .indexed index => .object [("indexed",.ofNat index.toNat)]

namespace CellAttrs
def contains (a flag : CellAttrs) : Bool := a.bits &&& flag.bits == flag.bits

def flags : List (CellAttrs × String) :=
  [(bold,"bold"),(dim,"dim"),(italic,"italic"),(underline,"underline"),(reverse,"reverse"),(hidden,"hidden"),
    (strikethrough,"strikethrough")]

def serialize (a : CellAttrs) : Json :=
  .array ((flags.filter fun entry => a.contains entry.1).map fun entry => .string entry.2)
end CellAttrs

def Cell.serialize (c : Cell) : Json :=
  .object [("ch",.ofChar c.ch),("combining",.array (c.combining.map Json.ofChar)),("width",.string c.width.serialize),
    ("fg",c.fg.serialize),("bg",c.bg.serialize),("attrs",c.attrs.serialize)]

def isDefaultFg (c : Color) : Bool := c == .named .foreground
def isDefaultBg (c : Color) : Bool := c == .named .background

def RowEntry.serialize : RowEntry → Json
  | .blank count => .object [("type",.string "blank"),("count",.ofNat count.toNat)]
  | .text s fg bg attrs =>
      .object ([("type",.string "text"),("s",.string (String.ofList s))] ++ (skipIf (isDefaultFg fg) "fg" fg.serialize ++
        (skipIf (isDefaultBg bg) "bg" bg.serialize ++ skipIf attrs.isEmpty "attrs" attrs.serialize)))
  | .cells cs => .object [("type",.string "cells"),("cells",.array (cs.map Cell.serialize))]

def serializeRow (entries : List RowEntry) : Json := .array (entries.map RowEntry.serialize)

def DirtyRow.serialize (d : DirtyRow) : Json :=
  .object [("index",.ofNat d.index.toNat),("entries",serializeRow d.entries)]

def TerminalSize.serialize (s : TerminalSize) : Json :=
  .object [("rows",.ofNat s.rows.toNat),("cols",.ofNat s.cols.toNat)]

def Cursor.serialize (c : Cursor) : Json :=
  .object [("row",.ofNat c.row.toNat),("col",.ofNat c.col.toNat),("visible",.bool c.visible),
    ("style",.string c.style.serialize)]

def TerminalModes.serialize (m : TerminalModes) : Json :=
  .object [("alt_screen",.bool m.altScreen),("app_cursor",.bool m.appCursor),("bracketed_paste",.bool m.bracketedPaste),
    ("mouse_reporting",.string m.mouseReporting.serialize),("sgr_mouse",.bool m.sgrMouse),
    ("focus_reporting",.bool m.focusReporting)]

def TitleChange.serialize : TitleChange → Json
  | .set value => .object [("kind",.string "set"),("value",.string value)]
  | .reset => .object [("kind",.string "reset")]

def ExitStatus.serialize (s : ExitStatus) : Json :=
  .object [("code",ofOption .number s.code),("signal",ofOption .number s.signal)]

def InitFrame.serialize (f : InitFrame) : Json :=
  .object [("type",.string "init"),("seq",.ofNat f.seq),("size",f.size.serialize),("cursor",f.cursor.serialize),
    ("rows",.array (f.rows.map serializeRow)),("modes",f.modes.serialize),("title",ofOption .string f.title)]

def PatchFrame.serialize (f : PatchFrame) : Json :=
  .object ([("type",.string "patch"),("seq",.ofNat f.seq),("cursor",f.cursor.serialize),
      ("dirty_rows",.array (f.dirtyRows.map DirtyRow.serialize))] ++
    (skipIf f.scrolledRows.isEmpty "scrolled_rows" (.array (f.scrolledRows.map serializeRow)) ++
    (skipIf (!f.cleared) "cleared" (.bool f.cleared) ++
    (skipIf f.modes.isNone "modes" (ofOption TerminalModes.serialize f.modes) ++
    skipIf f.title.isNone "title" (ofOption TitleChange.serialize f.title)))))

def ProtocolEvent.serialize : ProtocolEvent → Json
  | .init frame => frame.serialize
  | .patch frame => frame.serialize
  | .exited seq status => .object [("type",.string "exited"),("seq",.ofNat seq),("status",status.serialize)]
  | .commandEnd seq exit line =>
      .object [("type",.string "command_end"),("seq",.ofNat seq),("exit",ofOption .number exit),("line",.ofNat line)]
  | .sessionError seq reason =>
      .object [("type",.string "session_error"),("seq",.ofNat seq),("reason",.string reason)]

-- The documented client: it looks at the tag and takes a missing key as its default.
def readName {α : Type} (all : List α) (name : α → String) (j : Json) : Option α :=
  j.asString.bind fun s => all.find? fun a => name a == s

def NamedColor.all : List NamedColor :=
  [.black,.red,.green,.yellow,.blue,.magenta,.cyan,.white,.brightBlack,.brightRed,.brightGreen,.brightYellow,
    .brightBlue,.brightMagenta,.brightCyan,.brightWhite,.foreground,.background,.cursor,.dimBlack,.dimRed,.dimGreen,
    .dimYellow,.dimBlue,.dimMagenta,.dimCyan,.dimWhite,.brightForeground,.dimForeground]

def NamedColor.read : Json → Option NamedColor := readName NamedColor.all NamedColor.serialize
def CellWidth.read : Json → Option CellWidth := readName [.single,.wide,.wideSpacer] CellWidth.serialize
def CursorStyle.read : Json → Option CursorStyle := readName [.block,.underline,.beam,.hidden] CursorStyle.serialize
def MouseReporting.read : Json → Option MouseReporting :=
  readName [.off,.normal,.button,.any] MouseReporting.serialize

def Color.readRgb (j : Json) : Option Color := do
  return .rgb (← j.require "r" asU8) (← j.require "g" asU8) (← j.require "b" asU8)

def Color.read (j : Json) : Option Color :=
  match j.get "named" with
  | some name => (NamedColor.read name).map .named
  | none =>
    match j.get "rgb" with
    | some levels => Color.readRgb levels
    | none => (j.require "indexed" asU8).map .indexed

def CellAttrs.readFlag : Json → Option CellAttrs := fun j =>
  (readName CellAttrs.flags Prod.snd j).map Prod.fst

def CellAttrs.read (j : Json) : Option CellAttrs :=
  (asList CellAttrs.readFlag j).map fun names => names.foldl CellAttrs.insert .empty

def Cell.read (j : Json) : Option Cell := do
  return ⟨← j.require "ch" asChar,← j.require "combining" (asList asChar),← j.require "width" CellWidth.read,
    ← j.require "fg" Color.read,← j.require "bg" Color.read,← j.require "attrs" CellAttrs.read⟩

def RowEntry.read (j : Json) : Option RowEntry := do
  let tag ← j.require "type" asString
  if tag = "blank" then
    return .blank (← j.require "count" asU16)
  else if tag = "text" then
    return .text (← j.require "s" asString).toList (← j.getOr "fg" Color.read (.named .foreground))
      (← j.getOr "bg" Color.read (.named .background)) (← j.getOr "attrs" CellAttrs.read .empty)
  else if tag = "cells" then
    return .cells (← j.require "cells" (asList Cell.read))
  else none

def readRow : Json → Option (List RowEntry) := asList RowEntry.read

def DirtyRow.read (j : Json) : Option DirtyRow := do
  return ⟨← j.require "index" asU16,← j.require "entries" readRow⟩

def TerminalSize.read (j : Json) : Option TerminalSize := do
  return ⟨← j.require "rows" asU16,← j.require "cols" asU16⟩

def Cursor.read (j : Json) : Option Cursor := do
  return ⟨← j.require "row" asU16,← j.require "col" asU16,← j.require "visible" asBool,← j.require "style" CursorStyle.read⟩

def TerminalModes.read (j : Json) : Option TerminalModes := do
  return ⟨← j.require "alt_screen" asBool,← j.require "app_cursor" asBool,← j.require "bracketed_paste" asBool,
    ← j.require "mouse_reporting" MouseReporting.read,← j.require "sgr_mouse" asBool,← j.require "focus_reporting" asBool⟩

def TitleChange.read (j : Json) : Option TitleChange := do
  let kind ← j.require "kind" asString
  if kind = "set" then
    return .set (← j.require "value" asString)
  else if kind = "reset" then
    return .reset
  else none

def ExitStatus.read (j : Json) : Option ExitStatus := do
  return ⟨← j.require "code" (asOption asInt),← j.require "signal" (asOption asInt)⟩

def InitFrame.read (j : Json) : Option InitFrame := do
  return ⟨← j.require "seq" asNat,← j.require "size" TerminalSize.read,← j.require "cursor" Cursor.read,
    ← j.require "rows" (asList readRow),← j.require "modes" TerminalModes.read,← j.require "title" (asOption asString)⟩

def PatchFrame.read (j : Json) : Option PatchFrame := do
  return ⟨← j.require "seq" asNat,← j.require "cursor" Cursor.read,← j.require "dirty_rows" (asList DirtyRow.read),
    ← j.getOr "scrolled_rows" (asList readRow) [],← j.getOr "cleared" asBool false,
    ← j.getOr "modes" (fun modes => (TerminalModes.read modes).map some) none,
    ← j.getOr "title" (fun title => (TitleChange.read title).map some) none⟩

def ProtocolEvent.read (j : Json) : Option ProtocolEvent := do
  let tag ← j.require "type" asString
  if tag = "init" then
    return .init (← InitFrame.read j)
  else if tag = "patch" then
    return .patch (← PatchFrame.read j)
  else if tag = "exited" then
    return .exited (← j.require "seq" asNat) (← j.require "status" ExitStatus.read)
  else if tag = "command_end" then
    return .commandEnd (← j.require "seq" asNat) (← j.require "exit" (asOption asInt)) (← j.require "line" asNat)
  else if tag = "session_error" then
    return .sessionError (← j.require "seq" asNat) (← j.require "reason" asString)
  else none

theorem NamedColor.read_serialize (c : NamedColor) : NamedColor.read (.string c.serialize) = some c := by
  cases c <;> rfl

theorem CellWidth.read_serialize (w : CellWidth) : CellWidth.read (.string w.serialize) = some w := by
  cases w <;> rfl

theorem CursorStyle.read_serialize (s : CursorStyle) : CursorStyle.read (.string s.serialize) = some s := by
  cases s <;> rfl

theorem MouseReporting.read_serialize (m : MouseReporting) : MouseReporting.read (.string m.serialize) = some m := by
  cases m <;> rfl

theorem Color.read_serialize (c : Color) : Color.read c.serialize = some c := by
  cases c with
  | named name => simp [Color.read,Color.serialize,NamedColor.read_serialize]
  | rgb r g b => simp [Color.read,Color.readRgb,Color.serialize,require]
  | indexed index => simp [Color.read,Color.serialize,require]

-- Only the seven named flags are set.
def CellAttrs.Known (a : CellAttrs) : Prop := a.bits < 128

theorem CellAttrs.known_flags : ∀ n : Fin 128,
    ((CellAttrs.flags.map Prod.fst).filter (CellAttrs.contains ⟨UInt16.ofNat n⟩)).foldl CellAttrs.insert .empty =
      ⟨UInt16.ofNat n⟩ := by decide

theorem CellAttrs.readFlag_name : ∀ entry ∈ CellAttrs.flags, CellAttrs.readFlag (.string entry.2) = some entry.1 := by
  simp [CellAttrs.flags]
  decide

theorem CellAttrs.read_serialize (a : CellAttrs) (known : a.Known) : CellAttrs.read a.serialize = some a := by
  let set := CellAttrs.flags.filter fun entry => a.contains entry.1
  have names : asList CellAttrs.readFlag a.serialize = some (set.map Prod.fst) :=
    asList_read fun entry member => CellAttrs.readFlag_name entry (List.mem_filter.mp member).1
  have bits : (⟨UInt16.ofNat a.bits.toNat⟩ : CellAttrs) = a := by simp
  have whole := CellAttrs.known_flags ⟨a.bits.toNat,UInt16.lt_iff_toNat_lt.mp known⟩
  rw [CellAttrs.read,names]
  simp only [bits,List.filter_map] at whole
  exact congrArg some whole

theorem Cell.read_serialize (c : Cell) (known : c.attrs.Known) : Cell.read c.serialize = some c := by
  have marks := asList_map asChar Json.ofChar c.combining (by simp)
  simp [Cell.read,Cell.serialize,require,marks,CellWidth.read_serialize,Color.read_serialize,
    CellAttrs.read_serialize _ known]

-- The attribute sets that an entry shows to the client.
def RowEntry.attrSets : RowEntry → List CellAttrs
  | .blank _ => []
  | .text _ _ _ attrs => [attrs]
  | .cells cs => cs.map Cell.attrs

theorem RowEntry.read_serialize (entry : RowEntry) (known : ∀ a ∈ entry.attrSets, a.Known) :
    RowEntry.read entry.serialize = some entry := by
  cases entry with
  | blank count => simp [RowEntry.read,RowEntry.serialize,require,asString]
  | text s fg bg attrs =>
      have shown := CellAttrs.read_serialize attrs (known attrs List.mem_cons_self)
      have front := elim_unless (isDefaultFg fg) (.named .foreground) (Color.read_serialize fg) (by simp [isDefaultFg])
      have back := elim_unless (isDefaultBg bg) (.named .background) (Color.read_serialize bg) (by simp [isDefaultBg])
      have flags := elim_unless attrs.isEmpty .empty shown (CellAttrs.isEmpty_exact attrs).mp
      simp [RowEntry.read,RowEntry.serialize,require,asString,getOr,front,back,flags]
  | cells cs =>
      have listed := asList_map Cell.read Cell.serialize cs fun c member =>
        Cell.read_serialize c (known c.attrs (List.mem_map_of_mem member))
      simp [RowEntry.read,RowEntry.serialize,require,asString,listed]

theorem readRow_serialize (entries : List RowEntry) (known : ∀ entry ∈ entries, ∀ a ∈ entry.attrSets, a.Known) :
    readRow (serializeRow entries) = some entries :=
  asList_map RowEntry.read RowEntry.serialize entries fun entry member => entry.read_serialize (known entry member)

theorem DirtyRow.read_serialize (d : DirtyRow) (known : ∀ entry ∈ d.entries, ∀ a ∈ entry.attrSets, a.Known) :
    DirtyRow.read d.serialize = some d := by
  simp [DirtyRow.read,DirtyRow.serialize,require,readRow_serialize _ known]

theorem TerminalSize.read_serialize (s : TerminalSize) : TerminalSize.read s.serialize = some s := by
  simp [TerminalSize.read,TerminalSize.serialize,require]

theorem Cursor.read_serialize (c : Cursor) : Cursor.read c.serialize = some c := by
  simp [Cursor.read,Cursor.serialize,require,asBool,CursorStyle.read_serialize]

theorem TerminalModes.read_serialize (m : TerminalModes) : TerminalModes.read m.serialize = some m := by
  simp [TerminalModes.read,TerminalModes.serialize,require,asBool,MouseReporting.read_serialize]

theorem TitleChange.read_serialize (t : TitleChange) : TitleChange.read t.serialize = some t := by
  cases t <;> simp [TitleChange.read,TitleChange.serialize,require,asString]

theorem asInt_option (n : Option Int) : asOption asInt (ofOption .number n) = some n :=
  asOption_ofOption (fun _ _ => rfl) (fun _ _ => by simp)

theorem asString_option (s : Option String) : asOption asString (ofOption .string s) = some s :=
  asOption_ofOption (fun _ _ => rfl) (fun _ _ => by simp)

theorem ExitStatus.read_serialize (s : ExitStatus) : ExitStatus.read s.serialize = some s := by
  simp [ExitStatus.read,ExitStatus.serialize,require,asInt_option]

theorem InitFrame.read_serialize (f : InitFrame) (known : ∀ row ∈ f.rows, ∀ entry ∈ row, ∀ a ∈ entry.attrSets, a.Known) :
    InitFrame.read f.serialize = some f := by
  have rows := asList_map readRow serializeRow f.rows fun row member => readRow_serialize row (known row member)
  simp [InitFrame.read,InitFrame.serialize,require,TerminalSize.read_serialize,Cursor.read_serialize,rows,
    TerminalModes.read_serialize,asString_option]

-- An optional part of a patch: the key is left out exactly for `none`.
theorem changed_part {α : Type} {read : Json → Option α} {write : α → Json} (back : ∀ v, read (write v) = some v)
    (part : Option α) :
    (if part.isNone = false then some (ofOption write part) else none).elim (some none) (fun j => (read j).map some) =
      some part := by
  cases part with
  | none => rfl
  | some v => simp [ofOption,back]

theorem PatchFrame.read_serialize (f : PatchFrame)
    (known : ∀ row ∈ f.scrolledRows ++ f.dirtyRows.map DirtyRow.entries, ∀ entry ∈ row, ∀ a ∈ entry.attrSets, a.Known) :
    PatchFrame.read f.serialize = some f := by
  have dirty := asList_map DirtyRow.read DirtyRow.serialize f.dirtyRows fun d member =>
    d.read_serialize (known d.entries (List.mem_append_right _ (List.mem_map_of_mem member)))
  have left := asList_map readRow serializeRow f.scrolledRows fun row member =>
    readRow_serialize row (known row (List.mem_append_left _ member))
  have scrolled : f.serialize.getOr "scrolled_rows" (asList readRow) [] = some f.scrolledRows := by
    simpa [PatchFrame.serialize,getOr] using elim_unless f.scrolledRows.isEmpty [] left (by simp)
  have cleared : f.serialize.getOr "cleared" asBool false = some f.cleared := by
    have flag : asBool (.bool f.cleared) = some f.cleared := rfl
    simpa [PatchFrame.serialize,getOr] using elim_unless (!f.cleared) false flag (by simp)
  have modes : f.serialize.getOr "modes" (fun j => (TerminalModes.read j).map some) none = some f.modes := by
    simpa [PatchFrame.serialize,getOr] using changed_part TerminalModes.read_serialize f.modes
  have title : f.serialize.getOr "title" (fun j => (TitleChange.read j).map some) none = some f.title := by
    simpa [PatchFrame.serialize,getOr] using changed_part TitleChange.read_serialize f.title
  simp only [PatchFrame.read,scrolled,cleared,modes,title]
  simp [PatchFrame.serialize,require,Cursor.read_serialize,dirty]

def ProtocolEvent.rows : ProtocolEvent → List (List RowEntry)
  | .init frame => frame.rows
  | .patch frame => frame.scrolledRows ++ frame.dirtyRows.map DirtyRow.entries
  | _ => []

-- Every attribute set of the event uses only the seven named flags.
def ProtocolEvent.Known (event : ProtocolEvent) : Prop :=
  ∀ row ∈ event.rows, ∀ entry ∈ row, ∀ a ∈ entry.attrSets, a.Known

theorem tag_type (tag : String) (fields : List (String × Json)) :
    (Json.object (("type",.string tag) :: fields)).require "type" asString = some tag := by
  simp [require,asString]

theorem ProtocolEvent.read_serialize (event : ProtocolEvent) (known : event.Known) :
    ProtocolEvent.read event.serialize = some event := by
  cases event with
  | init frame =>
      have tag : frame.serialize.require "type" asString = some "init" := tag_type _ _
      have back := frame.read_serialize known
      simp [ProtocolEvent.read,ProtocolEvent.serialize,tag,back]
  | patch frame =>
      have tag : frame.serialize.require "type" asString = some "patch" := tag_type _ _
      have back := frame.read_serialize known
      simp [ProtocolEvent.read,ProtocolEvent.serialize,tag,back]
  | exited seq status =>
      simp [ProtocolEvent.read,ProtocolEvent.serialize,require,asString,ExitStatus.read_serialize]
  | commandEnd seq exit line =>
      simp [ProtocolEvent.read,ProtocolEvent.serialize,require,asString,asInt_option]
  | sessionError seq reason =>
      simp [ProtocolEvent.read,ProtocolEvent.serialize,require,asString]

-- The client gets the event that was sent, so the JSON of an event tells it from every other.
theorem wire_form_lossless (event : ProtocolEvent) (known : event.Known) :
    ProtocolEvent.read event.serialize = some event ∧
      ∀ other : ProtocolEvent, other.Known → other.serialize = event.serialize → other = event := by
  have back := event.read_serialize known
  refine ⟨back,fun other others same => ?_⟩
  have again := other.read_serialize others
  rw [same,back] at again
  exact (Option.some.inj again).symm

theorem wire_form_lossless_patch :
    let event : ProtocolEvent := .patch ⟨3,⟨0,1,true,.beam⟩,[⟨1,[.text ['o','k'] (.rgb 255 0 0) (.named .background) .bold,
      .blank 78]⟩],[],false,none,some .reset⟩
    event.Known ∧ ProtocolEvent.read event.serialize = some event ∧
      ∀ other : ProtocolEvent, other.Known → other.serialize = event.serialize → other = event := by
  have known : (ProtocolEvent.patch ⟨3,⟨0,1,true,.beam⟩,[⟨1,[.text ['o','k'] (.rgb 255 0 0) (.named .background) .bold,
      .blank 78]⟩],[],false,none,some .reset⟩).Known := by
    simp only [ProtocolEvent.Known,ProtocolEvent.rows,CellAttrs.Known]
    decide
  exact ⟨known,wire_form_lossless _ known⟩

end Perga

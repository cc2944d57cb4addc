import Perga.Transport

namespace Perga

inductive CellWidth where
  | single
  | wide
  | wideSpacer
  deriving DecidableEq, Repr

inductive NamedColor where
  | black | red | green | yellow | blue | magenta | cyan | white
  | brightBlack | brightRed | brightGreen | brightYellow
  | brightBlue | brightMagenta | brightCyan | brightWhite
  | foreground | background | cursor
  | dimBlack | dimRed | dimGreen | dimYellow | dimBlue | dimMagenta | dimCyan | dimWhite
  | brightForeground | dimForeground
  deriving DecidableEq, Repr

inductive Color where
  | named (name : NamedColor)
  | rgb (r g b : UInt8)
  | indexed (index : UInt8)
  deriving DecidableEq, Repr

structure CellAttrs where
  bits : UInt16
  deriving DecidableEq, Repr

namespace CellAttrs
def empty : CellAttrs := ⟨0⟩
def bold : CellAttrs := ⟨(1 : UInt16) <<< 0⟩
def dim : CellAttrs := ⟨(1 : UInt16) <<< 1⟩
def italic : CellAttrs := ⟨(1 : UInt16) <<< 2⟩
def underline : CellAttrs := ⟨(1 : UInt16) <<< 3⟩
def reverse : CellAttrs := ⟨(1 : UInt16) <<< 4⟩
def hidden : CellAttrs := ⟨(1 : UInt16) <<< 5⟩
def strikethrough : CellAttrs := ⟨(1 : UInt16) <<< 6⟩

def insert (a flag : CellAttrs) : CellAttrs := ⟨a.bits ||| flag.bits⟩
def isEmpty (a : CellAttrs) : Bool := a.bits == 0

theorem isEmpty_exact (a : CellAttrs) : a.isEmpty = true ↔ a = empty := by
  cases a
  simp [isEmpty,empty]
end CellAttrs

structure Cell where
  ch : Char
  combining : List Char
  width : CellWidth
  fg : Color
  bg : Color
  attrs : CellAttrs
  deriving DecidableEq, Repr

def blankCell : Cell := ⟨' ',[],.single,.named .foreground,.named .background,.empty⟩

def Cell.isDefaultBlank (c : Cell) : Bool :=
  c.ch == ' ' && c.combining.isEmpty && c.width == .single &&
    c.fg == .named .foreground && c.bg == .named .background && c.attrs.isEmpty

-- A single-width cell without marks is what a text run may hold.
def Cell.isPlain (c : Cell) : Bool := c.width == .single && c.combining.isEmpty

theorem defaultBlank_exact (c : Cell) : c.isDefaultBlank = true ↔ c = blankCell := by
  cases c
  simp [Cell.isDefaultBlank,blankCell,CellAttrs.isEmpty_exact,and_assoc]

structure Row where
  cells : List Cell
  deriving DecidableEq, Repr

inductive CursorStyle where
  | block
  | underline
  | beam
  | hidden
  deriving DecidableEq, Repr

structure Cursor where
  row : UInt16
  col : UInt16
  visible : Bool
  style : CursorStyle
  deriving DecidableEq, Repr

structure Snapshot where
  size : TerminalSize
  cursor : Cursor
  rows : List Row
  deriving DecidableEq, Repr

def Snapshot.grid (s : Snapshot) : List (List Cell) := s.rows.map Row.cells

-- The shape `TerminalEngine::snapshot` allocates: `size.rows` rows of `size.cols` cells.
structure Snapshot.Shaped (s : Snapshot) : Prop where
  rows : s.rows.length = s.size.rows.toNat
  cols : ∀ row ∈ s.rows, row.cells.length = s.size.cols.toNat

inductive MouseReporting where
  | off
  | normal
  | button
  | any
  deriving DecidableEq, Repr

structure TerminalModes where
  altScreen : Bool
  appCursor : Bool
  bracketedPaste : Bool
  mouseReporting : MouseReporting
  sgrMouse : Bool
  focusReporting : Bool
  deriving DecidableEq, Repr

end Perga

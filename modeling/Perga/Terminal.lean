import Perga.Cells
import Perga.ScreenHistory

namespace Perga

structure AlacrittyDims where
  cols : Nat
  rows : Nat
  deriving DecidableEq, Repr

def AlacrittyDims.ofSize (size : TerminalSize) : AlacrittyDims := ⟨size.cols.toNat,size.rows.toNat⟩

-- The bits of alacritty's `TermMode` that this code tests.
structure TermMode where
  mouseMotion : Bool
  mouseDrag : Bool
  mouseReportClick : Bool
  altScreen : Bool
  appCursor : Bool
  bracketedPaste : Bool
  sgrMouse : Bool
  focusInOut : Bool
  deriving DecidableEq, Repr

def TerminalModes.fromTermMode (mode : TermMode) : TerminalModes where
  altScreen := mode.altScreen
  appCursor := mode.appCursor
  bracketedPaste := mode.bracketedPaste
  mouseReporting :=
    if mode.mouseMotion then .any
    else if mode.mouseDrag then .button
    else if mode.mouseReportClick then .normal
    else .off
  sgrMouse := mode.sgrMouse
  focusReporting := mode.focusInOut

-- vte's named colours carry the names of `NamedColor`, one to one.
inductive AlacrittyColor where
  | named (name : NamedColor)
  | spec (r g b : UInt8)
  | indexed (index : UInt8)
  deriving DecidableEq, Repr

-- `underlines` stands for any of the underline variants (`ALL_UNDERLINES`).
structure Flags where
  wideChar : Bool
  wideCharSpacer : Bool
  bold : Bool
  dim : Bool
  italic : Bool
  underlines : Bool
  inverse : Bool
  hidden : Bool
  strikeout : Bool
  deriving DecidableEq, Repr

structure AlacrittyCell where
  c : Char
  zerowidth : Option (List Char)
  flags : Flags
  fg : AlacrittyColor
  bg : AlacrittyColor
  deriving DecidableEq, Repr

def translateColor : AlacrittyColor → Color
  | .named name => .named name
  | .spec r g b => .rgb r g b
  | .indexed index => .indexed index

def widthFromFlags (flags : Flags) : CellWidth :=
  if flags.wideChar then .wide else if flags.wideCharSpacer then .wideSpacer else .single

def attrsFromFlags (flags : Flags) : CellAttrs :=
  let a := CellAttrs.empty
  let a := if flags.bold then a.insert .bold else a
  let a := if flags.dim then a.insert .dim else a
  let a := if flags.italic then a.insert .italic else a
  let a := if flags.underlines then a.insert .underline else a
  let a := if flags.inverse then a.insert .reverse else a
  let a := if flags.hidden then a.insert .hidden else a
  if flags.strikeout then a.insert .strikethrough else a

def translateCell (cell : AlacrittyCell) : Cell :=
  ⟨cell.c,cell.zerowidth.getD [],widthFromFlags cell.flags,translateColor cell.fg,translateColor cell.bg,
    attrsFromFlags cell.flags⟩

def translateRow (line : List AlacrittyCell) : Row := ⟨line.map translateCell⟩

inductive CursorShape where
  | block
  | underline
  | beam
  | hollowBlock
  | hidden
  deriving DecidableEq, Repr

structure RenderableCursor where
  line : Int
  column : Nat
  shape : CursorShape
  deriving DecidableEq, Repr

structure Indexed where
  line : Int
  column : Nat
  cell : AlacrittyCell
  deriving DecidableEq, Repr

def enumerate (lines : List (List AlacrittyCell)) : List Indexed :=
  lines.zipIdx.flatMap fun line => line.1.zipIdx.map fun cell => ⟨line.2,cell.2,cell.1⟩

structure RenderableContent where
  displayOffset : Nat
  displayIter : List Indexed
  cursor : RenderableCursor
  deriving DecidableEq, Repr

def translateCursor (cursor : RenderableCursor) (displayOffset : Int) : Cursor :=
  let viewportLine := cursor.line + displayOffset
  { row := if viewportLine < 0 then 0 else UInt16.ofNat viewportLine.toNat
    col := UInt16.ofNat cursor.column
    visible := cursor.shape != .hidden
    style := match cursor.shape with
      | .block => .block
      | .hollowBlock => .block
      | .underline => .underline
      | .beam => .beam
      | .hidden => .hidden }

-- What alacritty reports to its listener; a write-back is given by its bytes.
inductive TermEvent where
  | ptyWrite (text : List UInt8)
  | title (value : String)
  | resetTitle
  | bell
  | ignored
  deriving DecidableEq, Repr

structure ListenerState where
  pendingWrites : List (List UInt8)
  title : Option String
  bells : Nat
  deriving DecidableEq, Repr

def ListenerState.default : ListenerState := ⟨[],none,0⟩

def ListenerState.sendEvent (s : ListenerState) : TermEvent → ListenerState
  | .ptyWrite text => {s with pendingWrites := s.pendingWrites ++ [text]}
  | .title value => {s with title := some value}
  | .resetTitle => {s with title := none}
  | .bell => {s with bells := min (s.bells+1) 4294967295}
  | .ignored => s

-- alacritty's `Term` behind vte's `Processor`, as far as the engine calls it. It is
-- not part of this repository, so every field is a parameter: a machine driven one
-- byte at a time, with the readings the engine takes from it.
structure Terminal where
  State : Type
  new : AlacrittyDims → State
  step : State → UInt8 → State
  emitted : State → UInt8 → List TermEvent
  resize : State → AlacrittyDims → State
  mode : State → TermMode
  historySize : State → Nat
  topmostLine : State → Int
  bottommostLine : State → Int
  gridLine : State → Int → List AlacrittyCell
  renderableContent : State → RenderableContent

namespace Terminal
variable (T : Terminal)

def advance (s : T.State) (bytes : List UInt8) : T.State := bytes.foldl T.step s

def listen (s : T.State) (listener : ListenerState) : List UInt8 → ListenerState
  | [] => listener
  | b :: rest => listen (T.step s b) ((T.emitted s b).foldl ListenerState.sendEvent listener) rest

def alt (s : T.State) : Bool := (T.mode s).altScreen

@[simp] theorem advance_nil (s : T.State) : T.advance s [] = s := rfl

theorem advance_append (s : T.State) (first second : List UInt8) :
    T.advance s (first ++ second) = T.advance (T.advance s first) second := List.foldl_append

theorem listen_append (s : T.State) (listener : ListenerState) (first second : List UInt8) :
    T.listen s listener (first ++ second) = T.listen (T.advance s first) (T.listen s listener first) second := by
  induction first generalizing s listener with
  | nil => rfl
  | cons b rest ih => exact ih (T.step s b) _

-- The states the terminal passes while it reads these bytes; its moments there are
-- these and the one it starts in.
def passed (s : T.State) : List UInt8 → List T.State
  | [] => []
  | b :: rest => T.step s b :: passed (T.step s b) rest

def moments (s : T.State) (bytes : List UInt8) : List T.State := s :: T.passed s bytes

theorem passed_append (s : T.State) (first second : List UInt8) :
    T.passed s (first ++ second) = T.passed s first ++ T.passed (T.advance s first) second := by
  induction first generalizing s with
  | nil => rfl
  | cons b rest ih => exact congrArg (_ :: ·) (ih (T.step s b))

theorem advance_moment (s : T.State) (bytes : List UInt8) : T.advance s bytes ∈ T.moments s bytes := by
  induction bytes generalizing s with
  | nil => exact List.mem_cons_self
  | cons b rest ih => exact List.mem_cons_of_mem _ (ih (T.step s b))

end Terminal

-- What the engine relies on of alacritty's two screens. `view` is the screen pair
-- with the primary scrollback, `happened` what a byte does to it; a byte that ends a
-- buffered update may do many things at once.
structure Screens (T : Terminal) where
  cap : Nat
  view : T.State → ScreenHistory.Screen (List AlacrittyCell)
  happened : T.State → UInt8 → List (ScreenHistory.Event (List AlacrittyCell))
  step_view : ∀ s b, view (T.step s b) = ScreenHistory.play cap (view s) (happened s b)
  new_view : ∀ dims, view (T.new dims) = ⟨false,[]⟩
  bounded : ∀ s, (view s).scrollback.length ≤ cap
  alt_screen : ∀ s, T.alt s = (view s).alt
  history_size : ∀ s, T.historySize s = if (view s).alt then 0 else (view s).scrollback.length
  topmost : ∀ s, T.topmostLine s = -(T.historySize s : Int)
  bottommost : ∀ s, -1 ≤ T.bottommostLine s
  line : ∀ s k, (view s).alt = false → (h : k < (view s).scrollback.length) →
    T.gridLine s (k - (view s).scrollback.length) = (view s).scrollback[k]
  width : ∀ s i, (T.gridLine s i).length < 65536

-- The rest of the grid, for readers of the viewport: the visible lines fill it, they
-- are what is displayed, and a change of rows on the primary screen moves lines
-- between them and the scrollback.
structure Viewport {T : Terminal} (S : Screens T) where
  dims : T.State → AlacrittyDims
  visible : T.State → List (List AlacrittyCell)
  new_dims : ∀ dims', dims (T.new dims') = dims'
  step_dims : ∀ s b, dims (T.step s b) = dims s
  resize_dims : ∀ s dims', dims (T.resize s dims') = dims'
  rows : ∀ s, (visible s).length = (dims s).rows
  cols : ∀ s size, dims s = .ofSize size → ∀ line ∈ visible s, line.length = size.cols.toNat
  offset : ∀ s, (T.renderableContent s).displayOffset = 0
  displayed : ∀ s, (T.renderableContent s).displayIter = enumerate (visible s)
  resized : ∀ s dims', T.alt s = false → dims'.cols = (dims s).cols →
    (S.view (T.resize s dims')).scrollback =
      ScreenHistory.resizedKept S.cap (max (T.renderableContent s).cursor.line 0).toNat dims'.rows
        (S.view s).scrollback (visible s)

namespace Screens
variable {T : Terminal} (S : Screens T)

def trace (s : T.State) : List UInt8 → List (ScreenHistory.Event (List AlacrittyCell))
  | [] => []
  | b :: rest => S.happened s b ++ trace (T.step s b) rest

theorem advance_view (s : T.State) (bytes : List UInt8) :
    S.view (T.advance s bytes) = ScreenHistory.play S.cap (S.view s) (S.trace s bytes) := by
  induction bytes generalizing s with
  | nil => rfl
  | cons b rest ih =>
      rw [trace,ScreenHistory.play_append,← S.step_view]
      exact ih (T.step s b)

theorem trace_append (s : T.State) (first second : List UInt8) :
    S.trace s (first ++ second) = S.trace s first ++ S.trace (T.advance s first) second := by
  induction first generalizing s with
  | nil => rfl
  | cons b rest ih => simp only [List.cons_append,trace,ih,List.append_assoc,Terminal.advance,List.foldl_cons]

end Screens

end Perga

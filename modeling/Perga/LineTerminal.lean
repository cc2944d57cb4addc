import Perga.EngineRuns

namespace Perga.LineTerminal
open ScreenHistory

-- A small line terminal that meets every law the engine relies on: printing, CR, LF
-- with scrolling, `CSI ? Pm h/l` with 1049 in parameter order, and `CSI 3 J`.
inductive Lexer where
  | ground
  | escape
  | csi (intermediates : List UInt8) (params : List Nat) (current : Nat)
  | osc (params : List (List UInt8)) (current : List UInt8)
  deriving DecidableEq, Repr

inductive Token where
  | byte (b : UInt8)
  | osc (params : List (List UInt8))
  | csi (params : List Nat) (intermediates : List UInt8) (action : Char)
  deriving DecidableEq, Repr

def lex : Lexer → UInt8 → Lexer × List Token
  | .ground,b => if b = 27 then (.escape,[]) else (.ground,[.byte b])
  | .escape,b =>
    if b = 91 then (.csi [] [] 0,[]) else if b = 93 then (.osc [] [],[]) else
    if b = 27 then (.escape,[]) else (.ground,[])
  | .csi intermediates params current,b =>
    if b = 27 then (.escape,[])
    else if 48 ≤ b ∧ b ≤ 57 then (.csi intermediates params (10*current+(b.toNat-48)),[])
    else if b = 59 then (.csi intermediates (params ++ [current]) 0,[])
    else if 64 ≤ b then (.ground,[.csi (params ++ [current]) intermediates (Char.ofNat b.toNat)])
    else (.csi (intermediates ++ [b]) params current,[])
  | .osc params current,b =>
    if b = 7 then (.ground,[.osc (params ++ [current])])
    else if b = 27 then (.escape,[.osc (params ++ [current])])
    else if b = 59 then (.osc (params ++ [current]) [],[])
    else (.osc params (current ++ [b]),[])

def Token.dispatch : Token → Option Dispatch
  | .byte _ => none
  | .osc params => some (.osc params)
  | .csi params intermediates action => some (.csi (params.map fun n => [UInt16.ofNat n]) intermediates action)

def sideParser : VteParser where
  State := Lexer
  new := .ground
  advance s b := ((lex s b).1,(lex s b).2.filterMap Token.dispatch)

def cap : Nat := 10000

structure Display where
  lexer : Lexer
  dims : AlacrittyDims
  alt : Bool
  kept : {lines : List (List Char) // lines.length ≤ cap}
  lines : List (List Char)
  hidden : List (List Char)
  row : Nat
  col : Nat

inductive Deed where
  | print (c : Char)
  | carriageReturn
  | lineFeed
  | eraseSaved
  | enter
  | leave
  deriving DecidableEq, Repr

def Token.deeds : Token → List Deed
  | .byte b => if b = 10 then [.lineFeed] else if b = 13 then [.carriageReturn] else
    if 32 ≤ b then [.print (Char.ofNat b.toNat)] else []
  | .osc _ => []
  | .csi params intermediates action =>
    if intermediates = [63] ∧ action = 'h' then params.flatMap fun n => if n = 1049 then [.enter] else []
    else if intermediates = [63] ∧ action = 'l' then params.flatMap fun n => if n = 1049 then [.leave] else []
    else if intermediates = [] ∧ action = 'J' ∧ params.head? = some 3 then [.eraseSaved]
    else []

def glyph (c : Char) : AlacrittyCell :=
  ⟨c,none,⟨false,false,false,false,false,false,false,false,false⟩,.named .foreground,.named .background⟩

def paint (cols : Nat) (text : List Char) : List AlacrittyCell :=
  (List.range (cols%65536)).map fun i => glyph (text[i]?.getD ' ')

def put (text : List Char) (col : Nat) (c : Char) : List Char :=
  (text ++ List.replicate (col+1-text.length) ' ').set col c

def keep (kept : {lines : List (List Char) // lines.length ≤ cap}) (more : List (List Char)) :
    {lines : List (List Char) // lines.length ≤ cap} :=
  ⟨keepNewest cap (kept.1 ++ more),by rw [keepNewest_length]; omega⟩

def Display.act (d : Display) : Deed → Display
  | .print c => {d with lines := d.lines.modify d.row (put · d.col c),col := d.col+1}
  | .carriageReturn => {d with col := 0}
  | .lineFeed =>
    if d.row+1 < d.dims.rows then {d with row := d.row+1} else
    match d.lines with
    | [] => d
    | top :: rest => {d with lines := rest ++ [[]],kept := if d.alt then d.kept else keep d.kept [top]}
  | .eraseSaved => if d.alt then d else {d with kept := ⟨[],Nat.zero_le _⟩}
  | .enter => if d.alt then d else {d with alt := true,lines := d.hidden,hidden := d.lines}
  | .leave => if d.alt then {d with alt := false,lines := d.hidden,hidden := d.lines} else d

def Display.events (d : Display) : Deed → List (Event (List AlacrittyCell))
  | .print _ => []
  | .carriageReturn => []
  | .lineFeed =>
    if d.row+1 < d.dims.rows then [] else
    match d.lines with
    | [] => []
    | top :: _ => [.scrolled (paint d.dims.cols top)]
  | .eraseSaved => [.erased]
  | .enter => [.entered]
  | .leave => [.left]

def Display.actAll (d : Display) : List Deed → Display
  | [] => d
  | deed :: rest => (d.act deed).actAll rest

def Display.eventsAll (d : Display) : List Deed → List (Event (List AlacrittyCell))
  | [] => []
  | deed :: rest => d.events deed ++ (d.act deed).eventsAll rest

def Display.deeds (d : Display) (b : UInt8) : List Deed := (lex d.lexer b).2.flatMap Token.deeds

def Display.step (d : Display) (b : UInt8) : Display :=
  {d with lexer := (lex d.lexer b).1}.actAll (d.deeds b)

def Display.happened (d : Display) (b : UInt8) : List (Event (List AlacrittyCell)) :=
  {d with lexer := (lex d.lexer b).1}.eventsAll (d.deeds b)

def blankLines (n : Nat) : List (List Char) := List.replicate n []

def Display.window (d : Display) : List (List Char) := (List.range d.dims.rows).map fun (i : Nat) => d.lines[i]?.getD []

-- Fewer rows push surplus top lines into the scrollback; more rows pull lines back.
def Display.resize (d : Display) (dims : AlacrittyDims) : Display :=
  if dims.rows < d.dims.rows then
    let surplus := d.row+1-dims.rows
    { d with
      dims := dims
      kept := if d.alt then d.kept else keep d.kept (d.window.take surplus)
      lines := (d.window.drop surplus).take dims.rows
      hidden := d.hidden.take dims.rows
      row := d.row-surplus }
  else
    let pulled := if d.alt then 0 else min (dims.rows-d.dims.rows) d.kept.1.length
    let lines := d.kept.1.drop (d.kept.1.length-pulled) ++ d.window
    { d with
      dims := dims
      kept := ⟨d.kept.1.take (d.kept.1.length-pulled),Nat.le_trans (List.length_take_le' _ _) d.kept.2⟩
      lines := lines ++ blankLines (dims.rows-lines.length)
      hidden := d.hidden ++ blankLines (dims.rows-d.hidden.length)
      row := d.row+pulled }

def Display.history (d : Display) : Nat := if d.alt then 0 else d.kept.1.length

def Display.line (d : Display) (i : Int) : List AlacrittyCell :=
  if i < 0 then paint d.dims.cols (d.kept.1[(i+d.history).toNat]?.getD [])
  else paint d.dims.cols (d.lines[i.toNat]?.getD [])

def Display.visible (d : Display) : List (List AlacrittyCell) := d.window.map (paint d.dims.cols)

def terminal : Terminal where
  State := Display
  new dims := ⟨.ground,dims,false,⟨[],Nat.zero_le _⟩,blankLines dims.rows,blankLines dims.rows,0,0⟩
  step := Display.step
  emitted _ _ := []
  resize := Display.resize
  mode d := ⟨false,false,false,d.alt,false,false,false,false⟩
  historySize := Display.history
  topmostLine d := -(d.history : Int)
  bottommostLine d := (d.dims.rows : Int)-1
  gridLine := Display.line
  renderableContent d := ⟨0,enumerate d.visible,⟨d.row,d.col,.block⟩⟩

def view (d : Display) : Screen (List AlacrittyCell) := ⟨d.alt,d.kept.1.map (paint d.dims.cols)⟩

theorem keepNewest_map (f : α → β) (cap : Nat) (lines : List α) :
    (keepNewest cap lines).map f = keepNewest cap (lines.map f) := by
  rw [keepNewest,keepNewest,List.map_drop,List.length_map]

theorem act_view (d : Display) (deed : Deed) : view (d.act deed) = play cap (view d) (d.events deed) := by
  cases deed with
  | print c => rfl
  | carriageReturn => rfl
  | lineFeed =>
      unfold Display.act Display.events
      dsimp only
      split
      · rfl
      · cases lines : d.lines with
        | nil => rfl
        | cons top rest =>
            cases alt : d.alt with
            | true => simp [view,play,Screen.apply,alt]
            | false =>
                simp only [view,play,List.foldl_cons,List.foldl_nil,Screen.apply,alt,Bool.false_eq_true,if_false,keep]
                rw [keepNewest_map,List.map_append]
                rfl
  | eraseSaved => cases alt : d.alt <;> simp [Display.act,Display.events,view,play,Screen.apply,alt]
  | enter => cases alt : d.alt <;> simp [Display.act,Display.events,view,play,Screen.apply,alt]
  | leave => cases alt : d.alt <;> simp [Display.act,Display.events,view,play,Screen.apply,alt]

theorem actAll_view (d : Display) (deeds : List Deed) :
    view (d.actAll deeds) = play cap (view d) (d.eventsAll deeds) := by
  induction deeds generalizing d with
  | nil => rfl
  | cons deed rest ih => rw [Display.actAll,Display.eventsAll,play_append,ih,act_view]

theorem paint_width (cols : Nat) (text : List Char) : (paint cols text).length < 65536 := by
  rw [paint,List.length_map,List.length_range]
  omega

theorem line_kept (d : Display) (k : Nat) (primary : d.alt = false) (inside : k < d.kept.1.length) :
    d.line ((k : Int)-d.kept.1.length) = paint d.dims.cols d.kept.1[k] := by
  have negative : (k : Int)-d.kept.1.length < 0 := by omega
  have position : ((k : Int)-d.kept.1.length+d.history).toNat = k := by
    simp only [Display.history,primary,Bool.false_eq_true,if_false]
    omega
  rw [Display.line,if_pos negative,position,List.getElem?_eq_getElem inside,Option.getD_some]

def screens : Screens terminal where
  cap := cap
  view := view
  happened := Display.happened
  step_view d b := actAll_view {d with lexer := (lex d.lexer b).1} (d.deeds b)
  new_view dims := rfl
  bounded d := by
    change (d.kept.1.map (paint d.dims.cols)).length ≤ cap
    rw [List.length_map]
    exact d.kept.2
  alt_screen d := rfl
  history_size d := by
    change d.history = _
    simp only [Display.history,view,List.length_map]
  topmost d := rfl
  bottommost d := by
    change (-1 : Int) ≤ (d.dims.rows : Int)-1
    omega
  line d k primary inside := by
    have kept : k < d.kept.1.length := by simpa [view] using inside
    simp only [view,List.length_map,List.getElem_map]
    exact line_kept d k primary kept
  width d i := by
    change (d.line i).length < 65536
    unfold Display.line
    split <;> exact paint_width _ _

theorem actAll_dims (d : Display) (deeds : List Deed) : (d.actAll deeds).dims = d.dims := by
  induction deeds generalizing d with
  | nil => rfl
  | cons deed rest ih =>
      rw [Display.actAll,ih]
      unfold Display.act
      cases deed with
      | print c => rfl
      | carriageReturn => rfl
      | lineFeed =>
          dsimp only
          split
          · rfl
          · cases d.lines <;> rfl
      | eraseSaved => dsimp only; split <;> rfl
      | enter => dsimp only; split <;> rfl
      | leave => dsimp only; split <;> rfl

theorem visible_length (d : Display) : d.visible.length = d.dims.rows := by
  rw [Display.visible,Display.window,List.length_map,List.length_map,List.length_range]

theorem visible_cols (d : Display) (size : TerminalSize) (same : d.dims = .ofSize size) (line : List AlacrittyCell)
    (member : line ∈ d.visible) : line.length = size.cols.toNat := by
  obtain ⟨text,_,rfl⟩ := List.mem_map.mp member
  rw [paint,List.length_map,List.length_range,same]
  exact Nat.mod_eq_of_lt size.cols.toNat_lt

theorem resize_kept (d : Display) (dims : AlacrittyDims) (primary : d.alt = false) (cols : dims.cols = d.dims.cols) :
    (view (d.resize dims)).scrollback = resizedKept cap d.row dims.rows (view d).scrollback d.visible := by
  unfold Display.resize resizedKept
  rw [visible_length]
  by_cases fewer : dims.rows < d.dims.rows
  · rw [if_pos fewer,if_pos fewer]
    simp only [view,primary,Bool.false_eq_true,if_false,keep,cols,Display.visible]
    rw [keepNewest_map,List.map_append,List.map_take]
  · rw [if_neg fewer,if_neg fewer]
    simp only [view,primary,Bool.false_eq_true,if_false,cols,List.map_take,List.length_map]

def viewport : Viewport screens where
  dims := Display.dims
  visible := Display.visible
  new_dims dims := rfl
  step_dims d b := actAll_dims {d with lexer := (lex d.lexer b).1} (d.deeds b)
  resize_dims d dims := by
    change (d.resize dims).dims = dims
    unfold Display.resize
    split <;> rfl
  rows d := visible_length d
  cols d size same line member := visible_cols d size same line member
  offset d := rfl
  displayed d := rfl
  resized d dims primary cols := by
    have cursor : (max ((d.row : Nat) : Int) 0).toNat = d.row := by omega
    change _ = resizedKept cap (max ((d.row : Nat) : Int) 0).toNat dims.rows (view d).scrollback d.visible
    rw [cursor]
    exact resize_kept d dims primary cols

def engine (rows cols : UInt16) : TerminalEngine terminal sideParser := .new ⟨rows,cols⟩

def lines (n : Nat) : List UInt8 := List.replicate n 10
def enterAlt : List UInt8 := [27,91,63,49,48,52,57,104]
def leaveAlt : List UInt8 := [27,91,63,49,48,52,57,108]
def eraseSaved : List UInt8 := [27,91,51,74]
def commandStart : List UInt8 := [27,93,49,51,51,59,67,7]
def commandEnd : List UInt8 := [27,93,49,51,51,59,68,59,49,7]

end Perga.LineTerminal

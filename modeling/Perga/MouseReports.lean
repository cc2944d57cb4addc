import Perga.ByteReaders
import Perga.InputEncoders

namespace Perga.MouseReports
open ByteReaders
open InputEncoders hiding decimal

-- What a report tells an application: its event, but not the button of an X10 release.
inductive Seen where
  | event (event : MouseEvent)
  | released (col row : NonZeroU16) (mods : Modifiers)
  deriving DecidableEq, Repr

-- The code byte of xterm's reports: two bits for the button, 4, 8 and 16 for shift, alt and
-- ctrl, 32 for a motion, 64 for the wheel.
def modifiersOf (code : UInt8) : Modifiers := ⟨code &&& 16 != 0,code &&& 8 != 0,code &&& 4 != 0⟩

def buttonOf (code : UInt8) : Option MouseButton :=
  if code &&& 3 = 0 then some .left
  else if code &&& 3 = 1 then some .middle
  else if code &&& 3 = 2 then some .right
  else none

def motionOf : Option MouseButton → MouseEventKind
  | some button => .drag button
  | none => .motion

def kindOf (code : UInt8) : Option MouseEventKind :=
  if code &&& 224 = 0 then (buttonOf code).map .press
  else if code &&& 224 = 32 then some (motionOf (buttonOf code))
  else if code &&& 227 = 64 then some .wheelUp
  else if code &&& 227 = 65 then some .wheelDown
  else none

-- The last byte of an SGR report: `M`, or `m` for the release of the button.
def ended (final : UInt8) (kind : MouseEventKind) : Option MouseEventKind :=
  if final = 77 then some kind
  else if final = 109 then
    match kind with
    | .press button => some (.release button)
    | _ => none
  else none

def nonZero (n : Nat) : Option NonZeroU16 :=
  if inside : UInt16.ofNat n ≠ 0 ∧ n ≤ 65535 then some ⟨UInt16.ofNat n,inside.1⟩ else none

def byteOf (n : Nat) : Option UInt8 := if n < 256 then some (UInt8.ofNat n) else none

-- `ESC [ < code ; col ; row`, in decimal, and the last byte.
def readSgr : List UInt8 → Option (Seen × List UInt8)
  | 27 :: 91 :: 60 :: body => do
    let code ← numberTo 59 body
    let col ← numberTo 59 code.2
    let row ← number col.2
    let bits ← byteOf code.1
    let kind ← (kindOf bits).bind (ended (row.2.headD 0))
    return (.event ⟨kind,← nonZero col.1,← nonZero row.1,modifiersOf bits⟩,row.2.tail)
  | _ => none

def lowered (b : UInt8) : Option UInt8 := if 32 ≤ b then some (b-32) else none

-- `ESC [ M` and three bytes, each 32 more than the code, the column and the row; a release has
-- the button bits of no button.
def readX10 : List UInt8 → Option (Seen × List UInt8)
  | 27 :: 91 :: 77 :: code :: col :: row :: rest => do
    let bits ← lowered code
    let col ← (lowered col).bind fun b => nonZero b.toNat
    let row ← (lowered row).bind fun b => nonZero b.toNat
    if bits &&& 227 = 3 then some (.released col row (modifiersOf bits),rest)
    else (kindOf bits).map fun kind => (.event ⟨kind,col,row,modifiersOf bits⟩,rest)
  | _ => none

def readMouse (sgr : Bool) (bytes : List UInt8) : Option (Seen × List UInt8) :=
  if sgr then readSgr bytes else readX10 bytes

def told (sgr : Bool) (event : MouseEvent) : Seen :=
  match event.kind with
  | .release _ => if sgr then .event event else .released event.col event.row event.mods
  | _ => .event event

def Unreported (event : MouseEvent) (modes : TerminalModes) : Prop :=
  modes.mouseReporting = .off ∨
    (∃ button, event.kind = .drag button ∧ modes.mouseReporting = .normal) ∨
    (event.kind = .motion ∧ modes.mouseReporting ≠ .any) ∨
    (modes.sgrMouse = false ∧ (223 < event.col.value ∨ 223 < event.row.value))

theorem nonZero_value (n : NonZeroU16) : nonZero n.value.toNat = some n := by
  have same : UInt16.ofNat n.value.toNat = n.value := UInt16.ofNat_toNat
  have below := n.value.toNat_lt
  have inside : UInt16.ofNat n.value.toNat ≠ 0 ∧ n.value.toNat ≤ 65535 := ⟨by rw [same]; exact n.nonzero,by omega⟩
  unfold nonZero
  rw [dif_pos inside]
  exact congrArg some (by cases n; simp only [same])

def isRelease : MouseEventKind → Bool
  | .release _ => true
  | _ => false

-- The kind without the release, which the last byte or the button bits tell.
def held : MouseEventKind → MouseEventKind
  | .release button => .press button
  | kind => kind

theorem buttonCode_release (kind : MouseEventKind) (mods : Modifiers) : (buttonCode kind mods).2 = isRelease kind := by
  cases kind <;> rfl

-- The code of an X10 report, where a release takes both button bits.
def finalCode (kind : MouseEventKind) (mods : Modifiers) : UInt8 :=
  if (buttonCode kind mods).2 then (buttonCode kind mods).1 ||| 3 else (buttonCode kind mods).1

-- The bits of the kind and those of the three modifiers lie apart.
theorem codes_read (kind : MouseEventKind) (ctrl alt shift : Bool) :
    (modifiersOf (buttonCode kind ⟨ctrl,alt,shift⟩).1 = ⟨ctrl,alt,shift⟩ ∧
      kindOf (buttonCode kind ⟨ctrl,alt,shift⟩).1 = some (held kind)) ∧
    finalCode kind ⟨ctrl,alt,shift⟩ < 128 ∧ modifiersOf (finalCode kind ⟨ctrl,alt,shift⟩) = ⟨ctrl,alt,shift⟩ ∧
      (finalCode kind ⟨ctrl,alt,shift⟩ &&& 227 = 3 ↔ isRelease kind = true) := by
  revert ctrl alt shift
  cases kind with
  | press button => cases button <;> decide
  | release button => cases button <;> decide
  | drag button => cases button <;> decide
  | motion => decide
  | wheelUp => decide
  | wheelDown => decide

theorem buttonCode_read (kind : MouseEventKind) (mods : Modifiers) :
    modifiersOf (buttonCode kind mods).1 = mods ∧ kindOf (buttonCode kind mods).1 = some (held kind) :=
  (codes_read kind mods.ctrl mods.alt mods.shift).1

theorem finalCode_read (kind : MouseEventKind) (mods : Modifiers) :
    finalCode kind mods < 128 ∧ modifiersOf (finalCode kind mods) = mods ∧
      (finalCode kind mods &&& 227 = 3 ↔ isRelease kind = true) :=
  (codes_read kind mods.ctrl mods.alt mods.shift).2

def sgrReport (event : MouseEvent) : List UInt8 :=
  let code := buttonCode event.kind event.mods
  27 :: 91 :: 60 :: (decimal code.1.toNat ++ [59] ++ (decimal event.col.value.toNat ++ [59] ++
    (decimal event.row.value.toNat ++ [if code.2 then 109 else 77])))

def x10Report (event : MouseEvent) : List UInt8 :=
  [27,91,77,finalCode event.kind event.mods+32,(event.col.value+32).toUInt8,(event.row.value+32).toUInt8]

theorem readSgr_report (event : MouseEvent) : Reads readSgr (sgrReport event) (.event event) := by
  intro rest
  let code := buttonCode event.kind event.mods
  obtain ⟨mods,kind⟩ : modifiersOf code.1 = event.mods ∧ kindOf code.1 = some (held event.kind) := buttonCode_read _ _
  have release : code.2 = isRelease event.kind := buttonCode_release _ _
  let final : UInt8 := if code.2 then 109 else 77
  have stop : digit? final = none := by
    change digit? (if code.2 then 109 else 77) = none
    cases code.2 <;> rfl
  have ends : ended final (held event.kind) = some event.kind := by
    change ended (if code.2 then 109 else 77) (held event.kind) = some event.kind
    rw [release]
    cases event.kind <;> rfl
  have byte : byteOf code.1.toNat = some code.1 := by
    rw [byteOf,if_pos code.1.toNat_lt,UInt8.ofNat_toNat]
  have first := numberTo_decimal code.1.toNat 59 rfl
  have col := numberTo_decimal event.col.value.toNat 59 rfl
  have row := number_decimal event.row.value.toNat (final :: rest) stop
  have whole : sgrReport event ++ rest = 27 :: 91 :: 60 :: (decimal code.1.toNat ++ [59] ++
      (decimal event.col.value.toNat ++ [59] ++ (decimal event.row.value.toNat ++ (final :: rest)))) := by
    simp [sgrReport,code,final]
  rw [whole,readSgr]
  simp only [first _,col _,row,byte,kind,ends,mods,nonZero_value,Option.bind_eq_bind,Option.bind_some,List.headD_cons,
    List.tail_cons]
  rfl

theorem lowered_value {b : UInt8} {n : Nat} (value : b.toNat = n+32) :
    ∃ low, lowered b = some low ∧ low.toNat = n := by
  have enough : 32 ≤ b := by
    rw [UInt8.le_iff_toNat_le,value]
    exact Nat.le_add_left 32 n
  refine ⟨b-32,if_pos enough,?_⟩
  rw [UInt8.toNat_sub_of_le b 32 enough,value]
  exact Nat.add_sub_cancel n 32

theorem coordinate_value {n : UInt16} (small : ¬ 223 < n) : ((n+32).toUInt8).toNat = n.toNat+32 := by
  have bound : n.toNat ≤ 223 := by
    rw [UInt16.lt_iff_toNat_lt] at small
    exact Nat.le_of_not_lt small
  rw [UInt16.toNat_toUInt8,UInt16.toNat_add]
  change (n.toNat+32) % 65536 % 256 = n.toNat+32
  omega

theorem finalCode_value (kind : MouseEventKind) (mods : Modifiers) :
    (finalCode kind mods+32).toNat = (finalCode kind mods).toNat+32 := by
  have small : (finalCode kind mods).toNat < 128 := UInt8.lt_iff_toNat_lt.mp (finalCode_read kind mods).1
  rw [UInt8.toNat_add]
  change ((finalCode kind mods).toNat+32) % 256 = (finalCode kind mods).toNat+32
  omega

-- No byte of an X10 report wraps: as numbers they are what the arithmetic without bounds gives.
theorem x10Report_values (event : MouseEvent) (small : ¬ (223 < event.col.value ∨ 223 < event.row.value)) :
    (x10Report event).map UInt8.toNat =
      [27,91,77,(finalCode event.kind event.mods).toNat+32,event.col.value.toNat+32,event.row.value.toNat+32] := by
  obtain ⟨col,row⟩ := not_or.mp small
  simp only [x10Report,List.map_cons,List.map_nil,finalCode_value,coordinate_value col,coordinate_value row]
  rfl

theorem told_whole (event : MouseEvent) : told true event = .event event := by
  unfold told
  cases event.kind <;> rfl

theorem told_pressed {event : MouseEvent} (pressed : isRelease event.kind = false) : told false event = .event event := by
  unfold told
  cases kind : event.kind with
  | release button => rw [kind] at pressed; cases pressed
  | _ => rfl

theorem told_released {event : MouseEvent} (released : isRelease event.kind = true) :
    told false event = .released event.col event.row event.mods := by
  unfold told
  cases kind : event.kind with
  | release button => rfl
  | _ => rw [kind] at released; cases released

theorem readX10_report (event : MouseEvent) (small : ¬ (223 < event.col.value ∨ 223 < event.row.value)) :
    Reads readX10 (x10Report event) (told false event) := by
  intro rest
  obtain ⟨narrow,low⟩ := not_or.mp small
  obtain ⟨_,mods,release⟩ := finalCode_read event.kind event.mods
  obtain ⟨code,coded,same⟩ := lowered_value (finalCode_value event.kind event.mods)
  obtain ⟨left,lefts,col⟩ := lowered_value (coordinate_value narrow)
  obtain ⟨top,tops,row⟩ := lowered_value (coordinate_value low)
  have bits : code = finalCode event.kind event.mods := UInt8.toNat_inj.mp same
  subst bits
  rw [x10Report]
  simp only [List.cons_append,List.nil_append,readX10,coded,lefts,tops,col,row,mods,nonZero_value,Option.bind_eq_bind,
    Option.bind_some]
  cases released : isRelease event.kind with
  | true => rw [if_pos (release.mpr released),told_released released]
  | false =>
      have pressed : ¬ finalCode event.kind event.mods &&& 227 = 3 := fun bits => by
        rw [release.mp bits] at released
        cases released
      have code : finalCode event.kind event.mods = (buttonCode event.kind event.mods).1 := by
        rw [finalCode,buttonCode_release,released]
        rfl
      have kind : held event.kind = event.kind := by
        cases kind : event.kind with
        | release button => rw [kind] at released; cases released
        | _ => rfl
      rw [if_neg pressed,told_pressed released,code,(buttonCode_read _ _).2,kind]
      rfl

theorem unreported_exact (event : MouseEvent) (modes : TerminalModes) :
    Unreported event modes ↔ modes.mouseReporting = .off ∨ reported event.kind modes.mouseReporting = false ∨
      (modes.sgrMouse = false ∧ (223 < event.col.value ∨ 223 < event.row.value)) := by
  unfold Unreported
  cases event.kind <;> simp [reported]

theorem encodeMouse_sgr (event : MouseEvent) {modes : TerminalModes} (on : modes.mouseReporting ≠ .off)
    (passes : reported event.kind modes.mouseReporting = true) (sgr : modes.sgrMouse = true) :
    encodeMouse event modes = some (sgrReport event) := by
  have start : ascii "\x1b[<" = [27,91,60] := rfl
  have between : ascii ";" = [59] := rfl
  have last (released : Bool) : ascii (if released then "m" else "M") = [if released then 109 else 77] := by
    cases released <;> rfl
  have same (n : Nat) : InputEncoders.decimal n = decimal n := rfl
  unfold encodeMouse sgrReport
  simp only [beq_iff_eq,on,if_false,passes,sgr,if_true,start,between,last,same]
  simp

theorem encodeMouse_x10 (event : MouseEvent) {modes : TerminalModes} (on : modes.mouseReporting ≠ .off)
    (passes : reported event.kind modes.mouseReporting = true) (x10 : modes.sgrMouse = false) :
    encodeMouse event modes =
      if 223 < event.col.value ∨ 223 < event.row.value then none else some (x10Report event) := by
  unfold encodeMouse x10Report finalCode
  simp [on,passes,x10]

-- An event is held back, or its report has one of the two forms.
inductive Outcome (event : MouseEvent) (modes : TerminalModes) : Option (List UInt8) → Prop where
  | held_back (unreported : Unreported event modes) : Outcome event modes none
  | sgr (reports : ¬ Unreported event modes) (format : modes.sgrMouse = true) :
      Outcome event modes (some (sgrReport event))
  | x10 (reports : ¬ Unreported event modes) (format : modes.sgrMouse = false)
      (small : ¬ (223 < event.col.value ∨ 223 < event.row.value)) : Outcome event modes (some (x10Report event))

theorem encodeMouse_outcome (event : MouseEvent) (modes : TerminalModes) : Outcome event modes (encodeMouse event modes) := by
  by_cases held_back : Unreported event modes
  · have none_sent : encodeMouse event modes = none := by
      rcases (unreported_exact event modes).mp held_back with off | filtered | ⟨format,big⟩
      · simp [encodeMouse,off]
      · simp [encodeMouse,filtered]
      · simp [encodeMouse,format,big]
    rw [none_sent]
    exact .held_back held_back
  · obtain ⟨on,passes,fits⟩ : modes.mouseReporting ≠ .off ∧ reported event.kind modes.mouseReporting ≠ false ∧
        ¬ (modes.sgrMouse = false ∧ (223 < event.col.value ∨ 223 < event.row.value)) := by
      rw [unreported_exact,not_or,not_or] at held_back
      exact held_back
    have passed := eq_true_of_ne_false passes
    cases format : modes.sgrMouse with
    | true =>
        rw [encodeMouse_sgr event on passed format]
        exact .sgr held_back format
    | false =>
        have small : ¬ (223 < event.col.value ∨ 223 < event.row.value) := fun big => fits ⟨format,big⟩
        rw [encodeMouse_x10 event on passed format,if_neg small]
        exact .x10 held_back format small

theorem readMouse_report {event : MouseEvent} {modes : TerminalModes} (sent : encodeMouse event modes = some bytes) :
    Reads (readMouse modes.sgrMouse) bytes (told modes.sgrMouse event) := by
  have outcome := encodeMouse_outcome event modes
  rw [sent] at outcome
  cases outcome with
  | sgr reports format =>
      rw [format,told_whole]
      exact readSgr_report event
  | x10 reports format small =>
      rw [format]
      exact readX10_report event small

-- A reader gets the same from two events only if they are the same or X10 releases at one place.
theorem told_same {sgr : Bool} {event other : MouseEvent} (same : told sgr other = told sgr event) :
    other = event ∨ (sgr = false ∧ isRelease other.kind = true ∧ isRelease event.kind = true ∧
      other.col = event.col ∧ other.row = event.row ∧ other.mods = event.mods) := by
  cases sgr with
  | true =>
      rw [told_whole,told_whole] at same
      exact .inl (Seen.event.inj same)
  | false =>
      cases one : isRelease other.kind <;> cases two : isRelease event.kind
      · rw [told_pressed one,told_pressed two] at same
        exact .inl (Seen.event.inj same)
      · rw [told_pressed one,told_released two] at same
        cases same
      · rw [told_released one,told_pressed two] at same
        cases same
      · rw [told_released one,told_released two] at same
        exact .inr ⟨rfl,rfl,rfl,Seen.released.inj same⟩

theorem finalCode_released {kind other : MouseEventKind} (one : isRelease kind = true) (two : isRelease other = true)
    (mods : Modifiers) : finalCode kind mods = finalCode other mods := by
  have each (button : MouseButton) : ∀ ctrl alt shift,
      finalCode (.release button) ⟨ctrl,alt,shift⟩ = finalCode (.release .left) ⟨ctrl,alt,shift⟩ := by
    cases button <;> decide
  cases kind with
  | release button =>
      cases other with
      | release button' => exact (each button _ _ _).trans (each button' _ _ _).symm
      | _ => cases two
  | _ => cases one

-- A report holds nothing more of its event than a reader gets from it.
theorem told_decides {event other : MouseEvent} {modes : TerminalModes}
    (same : told modes.sgrMouse other = told modes.sgrMouse event) : encodeMouse other modes = encodeMouse event modes := by
  rcases told_same same with rfl | ⟨format,one,two,col,row,mods⟩
  · rfl
  · have report : x10Report other = x10Report event := by
      rw [x10Report,x10Report,col,row,mods,finalCode_released one two]
    have passes {kind : MouseEventKind} (released : isRelease kind = true) (reporting : MouseReporting) :
        reported kind reporting = true := by
      cases kind with
      | release button => rfl
      | _ => cases released
    by_cases off : modes.mouseReporting = .off
    · simp [encodeMouse,off]
    · rw [encodeMouse_x10 other off (passes one _) format,encodeMouse_x10 event off (passes two _) format,col,row,report]

-- An event is held back exactly where its mode says so; else a reader of the format in use gets it
-- back, no byte wraps, and two events share a report only where a reader cannot tell them apart.
theorem mouse_reports_read (event : MouseEvent) (modes : TerminalModes) :
    (encodeMouse event modes = none ↔ Unreported event modes) ∧
      ∀ bytes, encodeMouse event modes = some bytes →
        Reads (readMouse modes.sgrMouse) bytes (told modes.sgrMouse event) ∧
          (modes.sgrMouse = false → bytes.map UInt8.toNat =
            [27,91,77,(finalCode event.kind event.mods).toNat+32,event.col.value.toNat+32,event.row.value.toNat+32]) ∧
          ∀ other, encodeMouse other modes = some bytes ↔ told modes.sgrMouse other = told modes.sgrMouse event := by
  have outcome := encodeMouse_outcome event modes
  refine ⟨?_,fun bytes sent => ⟨readMouse_report sent,fun format => ?_,fun other => ⟨fun shared => ?_,fun same => ?_⟩⟩⟩
  · cases encoded : encodeMouse event modes with
    | none =>
        rw [encoded] at outcome
        cases outcome with
        | held_back unreported => exact iff_of_true rfl unreported
    | some bytes =>
        rw [encoded] at outcome
        refine iff_of_false (by simp) ?_
        cases outcome with
        | sgr reports format => exact reports
        | x10 reports format small => exact reports
  · rw [sent] at outcome
    cases outcome with
    | sgr reports sgr => rw [format] at sgr; cases sgr
    | x10 reports format small => exact x10Report_values event small
  · have one := readMouse_report shared []
    rw [readMouse_report sent []] at one
    exact (Prod.mk.inj (Option.some.inj one)).1.symm
  · rw [told_decides same]
    exact sent

theorem mouse_reports_read_edge :
    let event : MouseEvent := ⟨.press .left,⟨223,by decide⟩,⟨223,by decide⟩,⟨false,false,true⟩⟩
    let modes : TerminalModes := ⟨false,false,false,.normal,false,false⟩
    encodeMouse event modes = some [27,91,77,36,255,255] ∧
      Reads (readMouse false) [27,91,77,36,255,255] (.event event) := by
  intro event modes
  have sent : encodeMouse event modes = some [27,91,77,36,255,255] := by decide
  exact ⟨sent,((mouse_reports_read event modes).2 _ sent).1⟩

def pieces (modes : TerminalModes) (events : List MouseEvent) : List (List UInt8 × Seen) :=
  events.filterMap fun event => (encodeMouse event modes).map fun bytes => (bytes,told modes.sgrMouse event)

theorem pieces_split (modes : TerminalModes) (events : List MouseEvent) :
    (pieces modes events).map Prod.fst = events.filterMap (encodeMouse · modes) ∧
      (pieces modes events).map Prod.snd =
        (events.filter fun event => (encodeMouse event modes).isSome).map (told modes.sgrMouse) := by
  induction events with
  | nil => exact ⟨rfl,rfl⟩
  | cons event rest ih =>
      unfold pieces at ih ⊢
      cases sent : encodeMouse event modes with
      | none => simpa [sent] using ih
      | some bytes => simpa [sent] using ih

-- The reports of a whole run of events, read one after the other, are the events that were not held back.
theorem run_read (modes : TerminalModes) (events : List MouseEvent) (enough : events.length ≤ fuel) :
    readMany (readMouse modes.sgrMouse) fuel (events.filterMap (encodeMouse · modes)).flatten =
      some ((events.filter fun event => (encodeMouse event modes).isSome).map (told modes.sgrMouse)) := by
  rw [← (pieces_split modes events).1,← (pieces_split modes events).2]
  refine readMany_pieces _ _ (fun piece member => ?_) (Nat.le_trans (List.length_filterMap_le _ _) enough)
  obtain ⟨event,_,found⟩ := List.mem_filterMap.mp member
  obtain ⟨bytes,sent,rfl⟩ := Option.map_eq_some_iff.mp found
  refine ⟨fun empty => ?_,readMouse_report sent⟩
  have outcome := encodeMouse_outcome event modes
  rw [sent,show bytes = [] from empty] at outcome
  nomatch outcome

end Perga.MouseReports

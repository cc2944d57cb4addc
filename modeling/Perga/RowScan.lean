import Mathlib.Algebra.GroupWithZero.Nat
import Perga.RowEntries

namespace Perga

-- `encode_row` as it is written: an index into the slice, an output list and three inner loops.
-- Every loop takes fuel, and `none` means that it ran out.
def scanWhile (p : Cell → Bool) (cells : List Cell) : Nat → Nat → Option Nat
  | 0, _ => none
  | fuel+1, i =>
    match cells[i]? with
    | none => some i
    | some c => if p c then scanWhile p cells fuel (i+1) else some i

def scanText (fg bg : Color) (attrs : CellAttrs) (cells : List Cell) : Nat → Nat → List Char → Option (Nat × List Char)
  | 0, _, _ => none
  | fuel+1, i, s =>
    match cells[i]? with
    | none => some (i,s)
    | some c =>
      if c.isDefaultBlank || c.width != .single || !c.combining.isEmpty || c.fg != fg || c.bg != bg || c.attrs != attrs
      then some (i,s)
      else scanText fg bg attrs cells fuel (i+1) (s ++ [c.ch])

def scanRow (cells : List Cell) : Nat → Nat → List RowEntry → Option (List RowEntry)
  | 0, _, _ => none
  | fuel+1, i, out =>
    match cells[i]? with
    | none => some out
    | some cell =>
      if cell.isDefaultBlank then
        (scanWhile Cell.isDefaultBlank cells (fuel+1) i).bind fun stop =>
          scanRow cells fuel stop (out ++ [.blank (UInt16.ofNat (stop - i))])
      else if cell.width == .single && cell.combining.isEmpty then
        (scanText cell.fg cell.bg cell.attrs cells (fuel+1) i []).bind fun (stop,s) =>
          scanRow cells fuel stop (out ++ [.text s cell.fg cell.bg cell.attrs])
      else
        (scanWhile (fun c => !c.isDefaultBlank && !(c.width == .single && c.combining.isEmpty)) cells (fuel+1) i).bind
          fun stop => scanRow cells fuel stop (out ++ [.cells (cells.extract i stop)])

-- The columns an entry stands for, as the protocol contract counts them.
def RowEntry.columns : RowEntry → Nat
  | .blank count => count.toNat
  | .text s _ _ _ => s.length
  | .cells cs => cs.length

theorem columns_expand (entry : RowEntry) : entry.expand.length = entry.columns := by
  cases entry <;> simp [RowEntry.expand,RowEntry.columns]

theorem columns_sum (entries : List RowEntry) :
    (entries.map RowEntry.columns).sum = (expand entries).length := by
  simp only [expand,List.length_flatMap,columns_expand]

theorem drop_at {cells : List Cell} {i : Nat} {c : Cell} (found : cells[i]? = some c) :
    cells.drop i = c :: cells.drop (i+1) := by
  obtain ⟨bound,rfl⟩ := List.getElem?_eq_some_iff.mp found
  exact List.drop_eq_getElem_cons bound

theorem drop_end {cells : List Cell} {i : Nat} (missing : cells[i]? = none) : cells.drop i = [] :=
  List.drop_eq_nil_of_le (List.getElem?_eq_none_iff.mp missing)

theorem scanWhile_stops (p : Cell → Bool) (cells : List Cell) {fuel i : Nat}
    (enough : (cells.drop i).length < fuel) :
    scanWhile p cells fuel i = some (i + ((cells.drop i).takeWhile p).length) := by
  induction fuel generalizing i with
  | zero => omega
  | succ fuel ih =>
    unfold scanWhile
    cases here : cells[i]? with
    | none => simp [drop_end here]
    | some c =>
      have opened := drop_at here
      rw [opened] at enough ⊢
      by_cases holds : p c = true
      · have later := ih (i := i+1) (by simpa using enough)
        simp only [holds,if_true,later,List.takeWhile_cons_of_pos holds,List.length_cons]
        congr 1
        omega
      · simp [holds]

theorem scanText_stops (first : Cell) (cells : List Cell) {fuel i : Nat} (s : List Char)
    (enough : (cells.drop i).length < fuel) :
    scanText first.fg first.bg first.attrs cells fuel i s =
      some (i + ((cells.drop i).takeWhile first.sharesRun).length,
        s ++ ((cells.drop i).takeWhile first.sharesRun).map Cell.ch) := by
  induction fuel generalizing i s with
  | zero => omega
  | succ fuel ih =>
    unfold scanText
    cases here : cells[i]? with
    | none => simp [drop_end here]
    | some c =>
      have opened := drop_at here
      have breaks : (c.isDefaultBlank || c.width != .single || !c.combining.isEmpty || c.fg != first.fg ||
          c.bg != first.bg || c.attrs != first.attrs) = !first.sharesRun c := by
        simp only [Cell.sharesRun,Cell.isPlain,Bool.not_and,Bool.not_not,Bool.or_assoc]
        rfl
      rw [opened] at enough ⊢
      simp only [breaks]
      by_cases shares : first.sharesRun c = true
      · have later := ih (i := i+1) (s ++ [c.ch]) (by simpa using enough)
        simp [shares,later]
        omega
      · simp [shares]

theorem drop_run (p : Cell → Bool) (cells : List Cell) (i : Nat) :
    cells.drop (i + ((cells.drop i).takeWhile p).length) = (cells.drop i).dropWhile p := by
  rw [← List.drop_drop]
  conv => lhs; arg 2; rw [← List.takeWhile_append_dropWhile (p := p) (l := cells.drop i)]
  exact List.drop_left

theorem extract_run (p : Cell → Bool) (cells : List Cell) (i : Nat) :
    cells.extract i (i + ((cells.drop i).takeWhile p).length) = (cells.drop i).takeWhile p := by
  have width : i + ((cells.drop i).takeWhile p).length - i = ((cells.drop i).takeWhile p).length := by omega
  rw [List.extract_eq_take_drop,width]
  conv => lhs; arg 2; rw [← List.takeWhile_append_dropWhile (p := p) (l := cells.drop i)]
  exact List.take_left

theorem encodeRow_blank {cell : Cell} (rest : List Cell) (blank : cell.isDefaultBlank = true) :
    encodeRow (cell :: rest) =
      .blank (UInt16.ofNat ((cell :: rest).takeWhile Cell.isDefaultBlank).length) ::
        encodeRow ((cell :: rest).dropWhile Cell.isDefaultBlank) := by
  rw [encodeRow,if_pos blank]

theorem encodeRow_text {cell : Cell} (rest : List Cell) (notBlank : ¬ cell.isDefaultBlank = true)
    (plain : cell.isPlain = true) :
    encodeRow (cell :: rest) =
      .text (((cell :: rest).takeWhile cell.sharesRun).map Cell.ch) cell.fg cell.bg cell.attrs ::
        encodeRow ((cell :: rest).dropWhile cell.sharesRun) := by
  rw [encodeRow,if_neg notBlank,if_pos plain]

theorem encodeRow_cells {cell : Cell} (rest : List Cell) (notBlank : ¬ cell.isDefaultBlank = true)
    (notPlain : ¬ cell.isPlain = true) :
    encodeRow (cell :: rest) =
      .cells ((cell :: rest).takeWhile Cell.needsCells) :: encodeRow ((cell :: rest).dropWhile Cell.needsCells) := by
  rw [encodeRow,if_neg notBlank,if_neg notPlain]

-- Each pass of the outer loop consumes at least the cell it looks at, so one unit of fuel a
-- cell is enough.
theorem scanRow_runs (cells : List Cell) {fuel i : Nat} (out : List RowEntry)
    (enough : (cells.drop i).length < fuel) :
    scanRow cells fuel i out = some (out ++ encodeRow (cells.drop i)) := by
  induction fuel generalizing i out with
  | zero => omega
  | succ fuel ih =>
    have goes (p : Cell → Bool) (shorter : ((cells.drop i).dropWhile p).length < (cells.drop i).length)
        (entry : RowEntry) : scanRow cells fuel (i + ((cells.drop i).takeWhile p).length) (out ++ [entry]) =
          some (out ++ entry :: encodeRow ((cells.drop i).dropWhile p)) := by
      rw [ih _ (by rw [drop_run]; omega),drop_run]
      simp
    have stops (p : Cell → Bool) := scanWhile_stops p cells enough
    unfold scanRow
    cases here : cells[i]? with
    | none => simp [drop_end here,encodeRow]
    | some cell =>
      have opened := drop_at here
      simp only
      split_ifs with blank plain
      · rw [stops,Option.bind_some,goes _ (by rw [opened]; exact dropWhile_shorter _ blank)]
        rw [opened,encodeRow_blank _ blank,Nat.add_sub_cancel_left]
      · have shares := sharesRun_self cell blank plain
        rw [scanText_stops cell cells [] enough,Option.bind_some]
        simp only
        rw [goes _ (by rw [opened]; exact dropWhile_shorter _ shares)]
        rw [opened,encodeRow_text _ blank plain,List.nil_append]
      · have needs := needsCells_self cell blank plain
        change (scanWhile Cell.needsCells cells (fuel+1) i).bind _ = _
        rw [stops,Option.bind_some,goes _ (by rw [opened]; exact dropWhile_shorter _ needs),extract_run]
        rw [opened,encodeRow_cells _ blank plain]

theorem scanRow_encodes (cells : List Cell) {fuel : Nat} (enough : cells.length < fuel) :
    scanRow cells fuel 0 [] = some (encodeRow cells) := scanRow_runs cells [] (i := 0) enough

-- The scan ends and the client's row is the row that was sent.
theorem encode_row_round_trip (cells : List Cell) (short : cells.length ≤ 65535) :
    ∃ entries, (∀ fuel > cells.length, scanRow cells fuel 0 [] = some entries) ∧ entries = encodeRow cells ∧
      expand entries = cells ∧ (entries.map RowEntry.columns).sum = cells.length := by
  have back := expand_encodeRow cells (Nat.lt_succ_of_le short)
  exact ⟨encodeRow cells,fun _ enough => scanRow_encodes cells enough,rfl,back,by rw [columns_sum,back]⟩

theorem encode_row_round_trip_wide :
    let marked : Cell := ⟨'e',['\u0301'],.single,.named .foreground,.named .background,.empty⟩
    let wide : Cell := ⟨'漢',[],.wide,.named .foreground,.named .background,.empty⟩
    let spacer : Cell := ⟨' ',[],.wideSpacer,.named .foreground,.named .background,.empty⟩
    let row := [blankCell,⟨'x',[],.single,.rgb 1 2 3,.named .background,.bold⟩,marked,wide,spacer]
    row.length ≤ 65535 ∧
      ∃ entries, (∀ fuel > row.length, scanRow row fuel 0 [] = some entries) ∧ entries = encodeRow row ∧
        expand entries = row ∧ (entries.map RowEntry.columns).sum = row.length :=
  ⟨by decide,encode_row_round_trip _ (by decide)⟩

end Perga

namespace ByteReaders

-- A reader takes a value off the front of the bytes, whatever follows it.
def Reads (read : List UInt8 → Option (α × List UInt8)) (bytes : List UInt8) (value : α) : Prop :=
  ∀ rest, read (bytes ++ rest) = some (value,rest)

def digit? (b : UInt8) : Option Nat := if 48 ≤ b ∧ b ≤ 57 then some (b.toNat-48) else none

-- A number goes on as far as the digits do.
def numberFrom (n : Nat) : List UInt8 → Nat × List UInt8
  | [] => (n,[])
  | b :: rest =>
    match digit? b with
    | some d => numberFrom (10*n+d) rest
    | none => (n,b :: rest)

def number : List UInt8 → Option (Nat × List UInt8)
  | [] => none
  | b :: rest => (digit? b).map fun d => numberFrom d rest

-- A number that a given byte ends.
def numberTo (stop : UInt8) (bytes : List UInt8) : Option (Nat × List UInt8) :=
  match number bytes with
  | some (n,b :: rest) => if b = stop then some (n,rest) else none
  | _ => none

def decimal (n : Nat) : List UInt8 := (Nat.toDigits 10 n).map fun c => UInt8.ofNat c.toNat

theorem digit_byte {c : Char} (digit : c.isDigit = true) : digit? (UInt8.ofNat c.toNat) = some (c.toNat-48) := by
  have range : 48 ≤ c.toNat ∧ c.toNat ≤ 57 := Char.isDigit_iff_toNat.mp digit
  have value : (UInt8.ofNat c.toNat).toNat = c.toNat := by
    rw [UInt8.toNat_ofNat']
    omega
  rw [digit?,value,if_pos]
  rw [UInt8.le_iff_toNat_le,UInt8.le_iff_toNat_le,value]
  exact range

theorem numberFrom_digits (chars : List Char) (digits : ∀ c ∈ chars, c.isDigit = true) (n : Nat) (rest : List UInt8)
    (ends : rest.head?.bind digit? = none) :
    numberFrom n (chars.map (fun c => UInt8.ofNat c.toNat) ++ rest) = (Nat.ofDigitChars 10 chars n,rest) := by
  induction chars generalizing n with
  | nil =>
      cases rest with
      | nil => rfl
      | cons b rest =>
          have stop : digit? b = none := ends
          simp [numberFrom,stop]
  | cons c more ih =>
      have first := digit_byte (digits c List.mem_cons_self)
      have later := ih (fun d member => digits d (List.mem_cons_of_mem c member)) (10*n+(c.toNat-48))
      rw [List.map_cons,List.cons_append,numberFrom,first,Nat.ofDigitChars_cons]
      exact later

theorem decimal_digits (n : Nat) : ∀ c ∈ Nat.toDigits 10 n, c.isDigit = true :=
  fun _ member => Nat.isDigit_of_mem_toDigits (by decide) (by decide) member

theorem decimal_bytes (n : Nat) : ∀ b ∈ decimal n, 48 ≤ b ∧ b ≤ 57 := by
  intro b member
  obtain ⟨c,inside,rfl⟩ := List.mem_map.mp member
  have read := digit_byte (decimal_digits n c inside)
  refine Decidable.byContradiction fun wrong => ?_
  rw [digit?,if_neg wrong] at read
  cases read

theorem number_decimal (n : Nat) (rest : List UInt8) (ends : rest.head?.bind digit? = none) :
    number (decimal n ++ rest) = some (n,rest) := by
  have whole := numberFrom_digits (Nat.toDigits 10 n) (decimal_digits n) 0 rest ends
  rw [Nat.ofDigitChars_ten_toDigits] at whole
  unfold decimal
  cases chars : Nat.toDigits 10 n with
  | nil => exact absurd chars Nat.toDigits_ne_nil
  | cons c more =>
      have first := digit_byte (decimal_digits n c (by rw [chars]; exact List.mem_cons_self))
      rw [chars,List.map_cons,List.cons_append,numberFrom,first] at whole
      rw [List.map_cons,List.cons_append,number,first,Option.map_some]
      simpa using whole

theorem numberTo_decimal (n : Nat) (stop : UInt8) (ends : digit? stop = none) :
    Reads (numberTo stop) (decimal n ++ [stop]) n := by
  intro rest
  have read := number_decimal n (stop :: rest) ends
  rw [List.append_assoc,numberTo,List.singleton_append,read]
  exact if_pos rfl

-- Values are read one after the other until the bytes are used up.
def readMany (read : List UInt8 → Option (α × List UInt8)) : Nat → List UInt8 → Option (List α)
  | _,[] => some []
  | 0,_ :: _ => none
  | fuel+1,b :: rest => (read (b :: rest)).bind fun found => (readMany read fuel found.2).map (found.1 :: ·)

theorem readMany_pieces (read : List UInt8 → Option (α × List UInt8)) (pieces : List (List UInt8 × α))
    (each : ∀ piece ∈ pieces, piece.1 ≠ [] ∧ Reads read piece.1 piece.2) (enough : pieces.length ≤ fuel) :
    readMany read fuel (pieces.map Prod.fst).flatten = some (pieces.map Prod.snd) := by
  induction pieces generalizing fuel with
  | nil => cases fuel <;> rfl
  | cons piece rest ih =>
      obtain ⟨some_bytes,reads⟩ := each piece List.mem_cons_self
      obtain ⟨b,more,bytes⟩ := List.exists_cons_of_ne_nil some_bytes
      cases fuel with
      | zero => cases enough
      | succ fuel =>
          have later := ih (fun other member => each other (List.mem_cons_of_mem piece member)) (Nat.le_of_succ_le_succ enough)
          have first := reads (rest.map Prod.fst).flatten
          rw [bytes,List.cons_append] at first
          rw [List.map_cons,List.flatten_cons,bytes,List.cons_append,readMany,first,Option.bind_some,later]
          rfl

end ByteReaders

import Mathlib.Data.List.Basic

namespace Perga

inductive Json where
  | null
  | bool (value : Bool)
  | number (value : Int)
  | string (value : String)
  | array (items : List Json)
  | object (fields : List (String × Json))

namespace Json
variable {α : Type}

def get (j : Json) (key : String) : Option Json :=
  match j with
  | .object fields => fields.lookup key
  | _ => none

def require (j : Json) (key : String) (read : Json → Option α) : Option α := (j.get key).bind read

def getOr (j : Json) (key : String) (read : Json → Option α) (absent : α) : Option α :=
  (j.get key).elim (some absent) read

def asBool : Json → Option Bool
  | .bool value => some value
  | _ => none

def asString : Json → Option String
  | .string value => some value
  | _ => none

def asInt : Json → Option Int
  | .number value => some value
  | _ => none

def asNat (j : Json) : Option Nat := j.asInt.bind Int.toNat?

def asU8 (j : Json) : Option UInt8 :=
  j.asNat.bind fun n => if n < 256 then some (UInt8.ofNat n) else none

def asU16 (j : Json) : Option UInt16 :=
  j.asNat.bind fun n => if n < 65536 then some (UInt16.ofNat n) else none

def asChar (j : Json) : Option Char :=
  j.asString.bind fun s =>
    match s.toList with
    | [c] => some c
    | _ => none

def asList (read : Json → Option α) : Json → Option (List α)
  | .array items => items.mapM read
  | _ => none

def asOption (read : Json → Option α) : Json → Option (Option α)
  | .null => some none
  | value => (read value).map some

def ofNat (n : Nat) : Json := .number n
def ofChar (c : Char) : Json := .string (String.singleton c)

-- What a serializer writes for an optional value that it does not skip.
def ofOption (write : α → Json) : Option α → Json
  | none => .null
  | some value => write value

-- A key that is left out when `skip` holds.
def skipIf (skip : Bool) (key : String) (value : Json) : List (String × Json) :=
  if skip then [] else [(key,value)]

@[simp] theorem asNat_ofNat (n : Nat) : (ofNat n).asNat = some n := rfl

@[simp] theorem asU8_ofNat (n : UInt8) : (ofNat n.toNat).asU8 = some n := by
  simp [asU8,n.toNat_lt]

@[simp] theorem asU16_ofNat (n : UInt16) : (ofNat n.toNat).asU16 = some n := by
  simp [asU16,n.toNat_lt]

@[simp] theorem asChar_ofChar (c : Char) : (ofChar c).asChar = some c := by
  simp [asChar,ofChar,asString]

@[simp] theorem get_object (fields : List (String × Json)) (key : String) :
    (Json.object fields).get key = fields.lookup key := rfl

@[simp] theorem lookup_field (key other : String) (value : Json) (rest : List (String × Json)) :
    ((key,value) :: rest).lookup other = if other == key then some value else rest.lookup other := by
  rw [List.lookup_cons]
  cases other == key <;> rfl

@[simp] theorem lookup_skipIf (skip : Bool) (key other : String) (value : Json) (rest : List (String × Json)) :
    (skipIf skip key value ++ rest).lookup other =
      if other == key && !skip then some value else rest.lookup other := by
  cases skip with
  | true => simp [skipIf]
  | false => simp [skipIf]

@[simp] theorem lookup_skipIf_last (skip : Bool) (key other : String) (value : Json) :
    (skipIf skip key value).lookup other = if other == key && !skip then some value else none := by
  have last := lookup_skipIf skip key other value []
  rwa [List.append_nil] at last

-- A key may be left out exactly where the reader's default is the value.
theorem elim_unless (skip : Bool) (absent : α) {read : Json → Option α} {written : Json} {value : α}
    (back : read written = some value) (standard : skip = true → value = absent) :
    (if skip = false then some written else none).elim (some absent) read = some value := by
  cases skip with
  | true => simp [standard rfl]
  | false => simpa using back

theorem asList_read {β : Type} {read : Json → Option β} {write : α → Json} {values : List α} {f : α → β}
    (reads : ∀ value ∈ values, read (write value) = some (f value)) :
    asList read (.array (values.map write)) = some (values.map f) := by
  unfold asList
  induction values with
  | nil => rfl
  | cons value values ih =>
      obtain ⟨first,later⟩ := List.forall_mem_cons.mp reads
      simp [first,ih later]

theorem asList_map (read : Json → Option α) (write : α → Json) (values : List α)
    (back : ∀ value ∈ values, read (write value) = some value) :
    asList read (.array (values.map write)) = some values := by
  have listed := asList_read (f := id) back
  rwa [List.map_id] at listed

theorem asOption_ofOption {read : Json → Option α} {write : α → Json} {value : Option α}
    (back : ∀ v ∈ value, read (write v) = some v) (written : ∀ v ∈ value, write v ≠ .null) :
    asOption read (ofOption write value) = some value := by
  cases value with
  | none => rfl
  | some v =>
      have kept := written v rfl
      have again := back v rfl
      unfold asOption ofOption
      split
      · contradiction
      · simp [again]

end Json

end Perga

import ContractHost.Data.Value
import ContractHost.Json.Record

/-!
# Reading data

A JSON text is read as a datum of a data type. The type decides what is looked at: a part of the
text that belongs to no field is checked for its syntax alone. Integers take integer numerals in
their range, floating-point numbers take any numeral that does not overflow, and an optional datum
takes `null` as its absence. Lists, maps, arrays and records count against `Json.maxDepth`. A number
is rounded once, except for the integers that a reader of 32-bit numbers holds as 64-bit ones
(`Json.Numeral.single?`).
-/

namespace ContractHost

-- Powers are the built-in ones, also where another library defines its own.
attribute [local instance (high)] instPowNat

/-- Put an entry into a map in the order of keys, instead of one with the same key. -/
def MapKey.insertEntry (k : MapKey) (d : Datum) : List (MapKey × Datum) → List (MapKey × Datum)
  | [] => [(k, d)]
  | (k', d') :: rest =>
    if k = k' then (k, d) :: rest
    else if k.lt k' then (k, d) :: (k', d') :: rest
    else (k', d') :: MapKey.insertEntry k d rest

/-- The entries of a map, of which the last one of a key stays. -/
def MapKey.collect (entries : List (MapKey × Datum)) : List (MapKey × Datum) :=
  entries.foldl (fun acc (k, d) ↦ MapKey.insertEntry k d acc) []

namespace KeyType

/-- The numeral that a string consists of. -/
def numeral? (pieces : List Json.Piece) : Option Json.Numeral := do
  let chars ← Json.Piece.plain? pieces
  match ← Json.scanNumeral (chars.map some) with
  | (n, []) => return n
  | _ => none

/-- The key that a string spells. Numbers and truth values are spelled without escapes. -/
def decode? (pieces : List Json.Piece) : KeyType → Option MapKey
  | .string => (Json.Piece.text? pieces).map .string
  | .integer k => do
    let i ← (← numeral? pieces).int?
    if k.InRange i then some (.int i) else none
  | .signed128 => do
    let n ← numeral? pieces
    let i : Int := if n.value.negative then -n.value.coefficient else n.value.coefficient
    if n.integral ∧ -2 ^ (127 : Nat) ≤ i ∧ i < 2 ^ (127 : Nat) then some (.int i) else none
  | .unsigned128 => do
    let n ← numeral? pieces
    if n.integral ∧ n.value.negative = false ∧ n.value.coefficient < 2 ^ (128 : Nat) then
      some (.int n.value.coefficient)
    else none
  | .bool => do
    let chars ← Json.Piece.plain? pieces
    if chars = ['t', 'r', 'u', 'e'] then some (.bool true)
    else if chars = ['f', 'a', 'l', 's', 'e'] then some (.bool false)
    else none
  | .char => do
    match ← Json.Piece.decode? pieces with
    | [c] => some (.char c)
    | _ => none

end KeyType

/-- The floating-point number of a numeral, if it is not too large. -/
def BinaryFormat.ofNumeral? (fmt : BinaryFormat) (n : Json.Numeral) : Option FloatValue :=
  match n.value.toBinary fmt with
  | .finite x => some (.finite x)
  | _ => none

/-- A negative integer beyond the signed 64 bits, of which the absolute value still has 64 bits. -/
def Json.Numeral.fillsWord (n : Json.Numeral) : Bool :=
  n.integral && n.value.negative && decide (2 ^ (63 : Nat) < n.value.coefficient) &&
    decide (n.value.coefficient < 2 ^ (64 : Nat))

/-- The number of a format that is nearest to a floating-point number. -/
def FloatValue.roundTo (fmt : BinaryFormat) : FloatValue → FloatValue
  | .finite x => fmt.round x.negative x.quotient.1 x.quotient.2
  | x => x

/-- The 32-bit number of a numeral. An integer that fills a word, but not a signed one, is rounded
twice, since there is no integer it could be held as: it is first taken as a 64-bit number. -/
def Json.Numeral.single? (n : Json.Numeral) : Option FloatValue :=
  if n.fillsWord then (BinaryFormat.double.ofNumeral? n).map (FloatValue.roundTo .single)
  else BinaryFormat.single.ofNumeral? n

/-- The datum of a scalar type. -/
def Scalar.decode? : Scalar → Json.Tree → Option Datum
  | .bool, .bool b => some (.bool b)
  | .string, .string pieces => (Json.Piece.text? pieces).map .string
  | .integer k, .number n => do
    let i ← n.int?
    if k.InRange i then some (.int i) else none
  | .single, .number n => n.single?.map .single
  | .double, .number n => (BinaryFormat.double.ofNumeral? n).map .double
  | _, _ => none

namespace DataType

/-- The names of the fields that are read and written. -/
def shownNames (fields : List (Field × DataType)) : List String :=
  (fields.filter fun f ↦ !f.1.hidden).map fun f ↦ f.1.name

/-- Read every item of a list in the same way. -/
def decodeAll? (read : Json.Tree → Option Datum) : List Json.Tree → Option (List Datum)
  | [] => some []
  | t :: rest =>
    match read t with
    | none => none
    | some d => (decodeAll? read rest).map (d :: ·)

/-- Read the entries of a map. -/
def decodeEntries? (key : KeyType) (read : Json.Tree → Option Datum) :
    List (List Json.Piece × Json.Tree) → Option (List (MapKey × Datum))
  | [] => some []
  | (name, t) :: rest =>
    match key.decode? name, read t with
    | some k, some d => (decodeEntries? key read rest).map ((k, d) :: ·)
    | _, _ => none

/-- What stands for a field that an object does not have. -/
def omitted? : DataType → Option Datum
  | .option _ => some .nil
  | _ => none

mutual

/-- The datum of a data type that a tree spells, where `room` more lists and objects may open. -/
def decode? : DataType → Nat → Json.Tree → Option Datum
  | .scalar s, _, t => s.decode? t
  | .signed128, _, .number n =>
    let i : Int := if n.value.negative then -n.value.coefficient else n.value.coefficient
    if n.integral ∧ -2 ^ (127 : Nat) ≤ i ∧ i < 2 ^ (127 : Nat) then some (.int i) else none
  | .unsigned128, _, .number n =>
    if n.integral ∧ n.value.negative = false ∧ n.value.coefficient < 2 ^ (128 : Nat) then
      some (.int n.value.coefficient)
    else none
  | .char, _, .string pieces =>
    match Json.Piece.decode? pieces with
    | some [c] => some (.char c)
    | _ => none
  | .dynamic, room, t => (t.toJson? room).map fun j ↦ .dynamic (.typed .json (.json j))
  | .json, room, t => (t.toJson? room).map .json
  | .option _, _, .null => some .nil
  | .option inner, room, t => (decode? inner room t).map .present
  | .list elem, room + 1, .list items => (decodeAll? (decode? elem room) items).map .list
  | .array elem n, room + 1, .list items =>
    if items.length = n then (decodeAll? (decode? elem room) items).map .list else none
  | .map _ key value, room + 1, .object fields =>
    (decodeEntries? key (decode? value room) fields).map fun es ↦ .map (MapKey.collect es)
  | .record _ fields, room + 1, t =>
    match t.record? (shownNames fields) with
    | none => none
    | some slots => (decodeFields? fields room slots).map .record
  | _, _, _ => none

/-- The fields of a record, each from its slot. A hidden field has no slot. A field missing from an
object is nil if it is optional, and otherwise a missing field is an error. -/
def decodeFields? : List (Field × DataType) → Nat → List Json.Slot → Option (List (String × Datum))
  | [], _, _ => some []
  | (⟨_, true⟩, _) :: rest, room, slots => decodeFields? rest room slots
  | (⟨name, false⟩, t) :: rest, room, slot :: slots =>
    let found :=
      match slot with
      | .given tree => decode? t room tree
      | .unnamed => t.omitted?
      | .beyond => none
    match found with
    | none => none
    | some d => (decodeFields? rest room slots).map ((name, d) :: ·)
  | (⟨_, false⟩, _) :: _, _, [] => none

end

/-- The datum that a source spells. -/
def read? (t : DataType) (s : Source) : Option Datum := do
  t.decode? Json.maxDepth (← Json.Tree.parse? s)

/-- The value that a string spells. -/
def valueOf? (t : DataType) (s : String) : Option Value :=
  (t.read? (Utf8.source s)).map (Value.ofDatum t)

end DataType

end ContractHost

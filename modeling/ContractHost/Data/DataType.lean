import ContractHost.Types.Ty

/-!
# Data types

A **data type** is a type that values really have, as opposed to the description a signature shows
of it. Several data types share a description: the dynamic type and the type of JSON documents are
both described as `any`, and a record may have **hidden** fields, which are described like the
others but are neither read nor written.
-/

namespace ContractHost

/-- The types that can key a map. -/
inductive KeyType
  | string
  | integer (kind : IntegerKind)
  | signed128
  | unsigned128
  | bool
  | char
  deriving DecidableEq, Repr

/-- A field of a record. -/
structure Field where
  name : String
  hidden : Bool
  deriving DecidableEq, Repr

/-- A data type. -/
inductive DataType
  | scalar (s : Scalar)
  | signed128
  | unsigned128
  | char
  | dynamic
  | json
  | list (elem : DataType)
  | array (elem : DataType) (length : Nat)
  | map (flavor : MapFlavor) (key : KeyType) (value : DataType)
  | option (inner : DataType)
  | record (name : String) (fields : List (Field × DataType))
  deriving Repr, Inhabited

/-- How the type of a key is described. -/
def KeyType.ty : KeyType → Ty
  | .string => .scalar .string
  | .integer k => .scalar (.integer k)
  | .signed128 => .named "i128"
  | .unsigned128 => .named "u128"
  | .bool => .scalar .bool
  | .char => .named "char"

namespace DataType

/-! ### Equality -/

mutual

/-- Data types can be told apart. -/
def decEq : (s t : DataType) → Decidable (s = t)
  | .scalar a, .scalar b => decidable_of_iff (a = b) (by simp)
  | .signed128, .signed128 => isTrue rfl
  | .unsigned128, .unsigned128 => isTrue rfl
  | .char, .char => isTrue rfl
  | .dynamic, .dynamic => isTrue rfl
  | .json, .json => isTrue rfl
  | .list s, .list t =>
    match decEq s t with
    | isTrue h => isTrue (by rw [h])
    | isFalse h => isFalse (by simp [h])
  | .array s m, .array t n =>
    match decEq s t with
    | isTrue h => decidable_of_iff (m = n) (by simp [h])
    | isFalse h => isFalse (by simp [h])
  | .map f k v, .map g l w =>
    match decEq v w with
    | isTrue h => decidable_of_iff (f = g ∧ k = l) (by simp [h])
    | isFalse h => isFalse (by simp [h])
  | .option s, .option t =>
    match decEq s t with
    | isTrue h => isTrue (by rw [h])
    | isFalse h => isFalse (by simp [h])
  | .record m xs, .record n ys =>
    match decEqFields xs ys with
    | isTrue h => decidable_of_iff (m = n) (by simp [h])
    | isFalse h => isFalse (by simp [h])
  | .scalar _, .signed128 | .scalar _, .unsigned128 | .scalar _, .char | .scalar _, .dynamic
  | .scalar _, .json | .scalar _, .list _ | .scalar _, .array .. | .scalar _, .map ..
  | .scalar _, .option _ | .scalar _, .record ..
  | .signed128, .scalar _ | .signed128, .unsigned128 | .signed128, .char | .signed128, .dynamic
  | .signed128, .json | .signed128, .list _ | .signed128, .array .. | .signed128, .map ..
  | .signed128, .option _ | .signed128, .record ..
  | .unsigned128, .scalar _ | .unsigned128, .signed128 | .unsigned128, .char
  | .unsigned128, .dynamic | .unsigned128, .json | .unsigned128, .list _ | .unsigned128, .array ..
  | .unsigned128, .map .. | .unsigned128, .option _ | .unsigned128, .record ..
  | .char, .scalar _ | .char, .signed128 | .char, .unsigned128 | .char, .dynamic | .char, .json
  | .char, .list _ | .char, .array .. | .char, .map .. | .char, .option _ | .char, .record ..
  | .dynamic, .scalar _ | .dynamic, .signed128 | .dynamic, .unsigned128 | .dynamic, .char
  | .dynamic, .json | .dynamic, .list _ | .dynamic, .array .. | .dynamic, .map ..
  | .dynamic, .option _ | .dynamic, .record ..
  | .json, .scalar _ | .json, .signed128 | .json, .unsigned128 | .json, .char | .json, .dynamic
  | .json, .list _ | .json, .array .. | .json, .map .. | .json, .option _ | .json, .record ..
  | .list _, .scalar _ | .list _, .signed128 | .list _, .unsigned128 | .list _, .char
  | .list _, .dynamic | .list _, .json | .list _, .array .. | .list _, .map .. | .list _, .option _
  | .list _, .record ..
  | .array .., .scalar _ | .array .., .signed128 | .array .., .unsigned128 | .array .., .char
  | .array .., .dynamic | .array .., .json | .array .., .list _ | .array .., .map ..
  | .array .., .option _ | .array .., .record ..
  | .map .., .scalar _ | .map .., .signed128 | .map .., .unsigned128 | .map .., .char
  | .map .., .dynamic | .map .., .json | .map .., .list _ | .map .., .array .. | .map .., .option _
  | .map .., .record ..
  | .option _, .scalar _ | .option _, .signed128 | .option _, .unsigned128 | .option _, .char
  | .option _, .dynamic | .option _, .json | .option _, .list _ | .option _, .array ..
  | .option _, .map .. | .option _, .record ..
  | .record .., .scalar _ | .record .., .signed128 | .record .., .unsigned128 | .record .., .char
  | .record .., .dynamic | .record .., .json | .record .., .list _ | .record .., .array ..
  | .record .., .map .. | .record .., .option _ =>
    isFalse nofun

/-- Field lists can be told apart. -/
def decEqFields : (xs ys : List (Field × DataType)) → Decidable (xs = ys)
  | [], [] => isTrue rfl
  | [], _ :: _ => isFalse nofun
  | _ :: _, [] => isFalse nofun
  | (f, s) :: xs, (g, t) :: ys =>
    match decEq s t, decEqFields xs ys with
    | isTrue h, isTrue h' => decidable_of_iff (f = g) (by simp [h, h'])
    | isFalse h, _ => isFalse (by simp [h])
    | _, isFalse h => isFalse (by simp [h])

end

instance : DecidableEq DataType := decEq

/-! ### Description -/

mutual

/-- How a data type is described. -/
def ty : DataType → Ty
  | .scalar s => .scalar s
  | .signed128 => .named "i128"
  | .unsigned128 => .named "u128"
  | .char => .named "char"
  | .dynamic => .any
  | .json => .any
  | .list elem => .list elem.ty
  | .array elem n => .array elem.ty n
  | .map flavor key value => .map flavor key.ty value.ty
  | .option inner => .optional inner.ty
  | .record name fields => .record name (fieldTys fields)

/-- How the fields of a record are described, the hidden ones included. -/
def fieldTys : List (Field × DataType) → List (String × Ty)
  | [] => []
  | (f, t) :: rest => (f.name, t.ty) :: fieldTys rest

end

/-! ### Building data types -/

/-- Truth values. -/
abbrev bool : DataType := .scalar .bool
/-- Strings. -/
abbrev string : DataType := .scalar .string
/-- Integers of a kind. -/
abbrev integer (k : IntegerKind) : DataType := .scalar (.integer k)
/-- Floating-point numbers of 32 bits. -/
abbrev single : DataType := .scalar .single
/-- Floating-point numbers of 64 bits. -/
abbrev double : DataType := .scalar .double

/-- A record without hidden fields. -/
def recordOf (name : String) (fields : List (String × DataType)) : DataType :=
  .record name (fields.map fun (n, t) ↦ (⟨n, false⟩, t))

end DataType

end ContractHost

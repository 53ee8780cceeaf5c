import ContractHost.Types.Scalar

/-!
# Type descriptions

What a handler's signature says about a parameter or a return value. Descriptions are trees: lists,
arrays and maps of described types, records with their fields in order, and an `optional` wrapper.
The dynamic type `any` says nothing about a value, `error` marks the place of a failure among the
return values, and an `opaque` type is known by its name only.

`Ty.display` is the written form that error messages use; `Ty.isMarshaling` tells the types whose
values are rendered as JSON from those rendered as plain text.
-/

namespace ContractHost

/-- Which collection a map was described from. -/
inductive MapFlavor
  | hashed
  | ordered
  deriving DecidableEq, Repr

/-- A type description. -/
inductive Ty
  | scalar (s : Scalar)
  | any
  | error
  | array (elem : Ty) (length : Nat)
  | list (elem : Ty)
  | map (flavor : MapFlavor) (key value : Ty)
  | record (name : String) (fields : List (String × Ty))
  | optional (inner : Ty)
  | named (name : String)
  deriving Repr, Inhabited

namespace Ty

/-! ### Equality -/

mutual

/-- Descriptions can be told apart. -/
def decEq : (s t : Ty) → Decidable (s = t)
  | .scalar a, .scalar b => decidable_of_iff (a = b) (by simp)
  | .any, .any => isTrue rfl
  | .error, .error => isTrue rfl
  | .array s m, .array t n =>
    match decEq s t with
    | isTrue h => decidable_of_iff (m = n) (by simp [h])
    | isFalse h => isFalse (by simp [h])
  | .list s, .list t =>
    match decEq s t with
    | isTrue h => isTrue (by rw [h])
    | isFalse h => isFalse (by simp [h])
  | .map f k v, .map g l w =>
    match decEq k l, decEq v w with
    | isTrue h, isTrue h' => decidable_of_iff (f = g) (by simp [h, h'])
    | isFalse h, _ => isFalse (by simp [h])
    | _, isFalse h => isFalse (by simp [h])
  | .record m xs, .record n ys =>
    match decEqFields xs ys with
    | isTrue h => decidable_of_iff (m = n) (by simp [h])
    | isFalse h => isFalse (by simp [h])
  | .optional s, .optional t =>
    match decEq s t with
    | isTrue h => isTrue (by rw [h])
    | isFalse h => isFalse (by simp [h])
  | .named m, .named n => decidable_of_iff (m = n) (by simp)
  | .scalar _, .any | .scalar _, .error | .scalar _, .array .. | .scalar _, .list _
  | .scalar _, .map .. | .scalar _, .record .. | .scalar _, .optional _ | .scalar _, .named _
  | .any, .scalar _ | .any, .error | .any, .array .. | .any, .list _ | .any, .map ..
  | .any, .record .. | .any, .optional _ | .any, .named _
  | .error, .scalar _ | .error, .any | .error, .array .. | .error, .list _ | .error, .map ..
  | .error, .record .. | .error, .optional _ | .error, .named _
  | .array .., .scalar _ | .array .., .any | .array .., .error | .array .., .list _
  | .array .., .map .. | .array .., .record .. | .array .., .optional _ | .array .., .named _
  | .list _, .scalar _ | .list _, .any | .list _, .error | .list _, .array .. | .list _, .map ..
  | .list _, .record .. | .list _, .optional _ | .list _, .named _
  | .map .., .scalar _ | .map .., .any | .map .., .error | .map .., .array .. | .map .., .list _
  | .map .., .record .. | .map .., .optional _ | .map .., .named _
  | .record .., .scalar _ | .record .., .any | .record .., .error | .record .., .array ..
  | .record .., .list _ | .record .., .map .. | .record .., .optional _ | .record .., .named _
  | .optional _, .scalar _ | .optional _, .any | .optional _, .error | .optional _, .array ..
  | .optional _, .list _ | .optional _, .map .. | .optional _, .record .. | .optional _, .named _
  | .named _, .scalar _ | .named _, .any | .named _, .error | .named _, .array ..
  | .named _, .list _ | .named _, .map .. | .named _, .record .. | .named _, .optional _ =>
    isFalse nofun

/-- Field lists can be told apart. -/
def decEqFields : (xs ys : List (String × Ty)) → Decidable (xs = ys)
  | [], [] => isTrue rfl
  | [], _ :: _ => isFalse nofun
  | _ :: _, [] => isFalse nofun
  | (m, s) :: xs, (n, t) :: ys =>
    match decEq s t, decEqFields xs ys with
    | isTrue h, isTrue h' => decidable_of_iff (m = n) (by simp [h, h'])
    | isFalse h, _ => isFalse (by simp [h])
    | _, isFalse h => isFalse (by simp [h])

end

instance : DecidableEq Ty := decEq

/-! ### Reading a description -/

/-- Values of these types are rendered as JSON rather than plain text: arrays, lists, maps, records
and optional records. -/
def isMarshaling : Ty → Bool
  | .array .. | .list _ | .map .. | .record .. | .optional (.record ..) => true
  | _ => false

/-- The scalar type that a description names. -/
def scalar? : Ty → Option Scalar
  | .scalar s => some s
  | _ => none

/-- The written form of a description. -/
def display : Ty → String
  | .scalar s => s.name
  | .any => "Value"
  | .error => "error"
  | .array elem n => "[" ++ elem.display ++ "; " ++ toString n ++ "]"
  | .list elem => "Vec<" ++ elem.display ++ ">"
  | .map .hashed key value => "HashMap<" ++ key.display ++ ", " ++ value.display ++ ">"
  | .map .ordered key value => "BTreeMap<" ++ key.display ++ ", " ++ value.display ++ ">"
  | .record name _ => name
  | .optional inner => "Option<" ++ inner.display ++ ">"
  | .named name => name

/-- A list of names between square brackets. -/
def bracketed (names : List String) : String :=
  "[" ++ ", ".intercalate names ++ "]"

end Ty

end ContractHost

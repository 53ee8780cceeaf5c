import ContractHost.Number.Decimal

/-!
# JSON documents

A document is a tree in which an object keeps its fields in order. Integers and floating-point
numbers are kept apart: `1` and `1.0` are different documents. Two documents are the **same**
(`Json.same`) when they differ at most in the order of object fields and in the sign of a zero
(`Json.same_iff_alike`). Numbers are compared in the 64-bit format, each as the nearest number there
is (`Json.exists_closest`).

An object built by the reader or by `Json.setField` has one field per name; `Json.WellFormed` says
so of every object inside a document, together with the range of its integers.
-/

namespace ContractHost

-- Powers are the built-in ones, also where another library defines its own.
attribute [local instance (high)] instPowNat

/-- A JSON document. -/
inductive Json
  | null
  | bool (b : Bool)
  | int (n : Int)
  | float (x : BinaryNumber)
  | string (s : String)
  | list (items : List Json)
  | object (fields : List (String × Json))
  deriving Repr, Inhabited

namespace Json

/-! ### Fields -/

/-- The first field of that name in a list of fields. -/
def field? (name : String) : List (String × Json) → Option Json
  | [] => none
  | (k, v) :: rest => if k = name then some v else field? name rest

/-- Put a field: in the place of an earlier one of that name, else at the end. -/
def setField (name : String) (value : Json) : List (String × Json) → List (String × Json)
  | [] => [(name, value)]
  | (k, v) :: rest => if k = name then (k, value) :: rest else (k, v) :: setField name value rest

/-- A field of an object; anything else has none. -/
def get? : Json → String → Option Json
  | .object fields, name => field? name fields
  | _, _ => none

/-- A field that is there is smaller than the list it is in. -/
theorem sizeOf_lt_of_field? {name : String} {fields : List (String × Json)} {v : Json}
    (h : field? name fields = some v) : sizeOf v < sizeOf fields := by
  induction fields with
  | nil => simp [field?] at h
  | cons kv rest ih =>
    obtain ⟨k, w⟩ := kv
    simp only [field?] at h
    split at h
    · cases h
      simp only [List.cons.sizeOf_spec, Prod.mk.sizeOf_spec]
      omega
    · have := ih h
      simp only [List.cons.sizeOf_spec]
      omega

/-! ### Views -/

/-- The items of a list. -/
def asList? : Json → Option (List Json)
  | .list items => some items
  | _ => none

/-- The fields of an object. -/
def asObject? : Json → Option (List (String × Json))
  | .object fields => some fields
  | _ => none

/-- The text of a string. -/
def asString? : Json → Option String
  | .string s => some s
  | _ => none

/-- A truth value. -/
def asBool? : Json → Option Bool
  | .bool b => some b
  | _ => none

/-- A number that is written as an integer. -/
def asInt? : Json → Option Int
  | .int n => some n
  | _ => none

/-- A non-negative integer. -/
def asNat? : Json → Option Nat
  | .int (.ofNat n) => some n
  | _ => none

/-- An integer or a floating-point number. -/
def isNumber : Json → Bool
  | .int _ => true
  | .float _ => true
  | _ => false

/-- A string. -/
def isString : Json → Bool
  | .string _ => true
  | _ => false

/-- The number nearest to a numeric document in the 64-bit format. -/
def toDouble? : Json → Option BinaryNumber
  | .int n =>
    match BinaryFormat.double.ofInt n with
    | .finite x => some x
    | _ => none
  | .float x => some x
  | _ => none

/-! ### Sameness -/

mutual

/-- Equality up to the order of fields and the sign of zero. An integer is never the same as a
floating-point number. -/
def same : Json → Json → Bool
  | .null, .null => true
  | .bool a, .bool b => a == b
  | .int a, .int b => a == b
  | .float a, .float b => a.same b
  | .string a, .string b => a == b
  | .list a, .list b => sameItems a b
  | .object a, .object b => a.length == b.length && fieldsIn a b
  | _, _ => false

/-- Sameness item by item. -/
def sameItems : List Json → List Json → Bool
  | [], [] => true
  | a :: as, b :: bs => same a b && sameItems as bs
  | _, _ => false

/-- Each field on the left has a field of the same name and value on the right. -/
def fieldsIn : List (String × Json) → List (String × Json) → Bool
  | [], _ => true
  | (k, v) :: rest, b =>
    (match field? k b with
      | some w => same v w
      | none => false) && fieldsIn rest b

end

/-! ### Well-formed documents -/

/-- The integers a document can hold: those of the signed or the unsigned 64-bit range. -/
def IntegerRange (n : Int) : Prop :=
  -2 ^ (63 : Nat) ≤ n ∧ n < 2 ^ (64 : Nat)

instance (n : Int) : Decidable (IntegerRange n) :=
  inferInstanceAs (Decidable (_ ∧ _))

mutual

/-- Every integer is in range, every floating-point number is a normal one of the 64-bit format, and
no object has two fields of one name. -/
def WellFormed : Json → Prop
  | .null => True
  | .bool _ => True
  | .int n => IntegerRange n
  | .float x => BinaryFormat.double.Normal x
  | .string _ => True
  | .list items => WellFormedItems items
  | .object fields => (fields.map Prod.fst).Nodup ∧ WellFormedFields fields

/-- Every item of a list is well formed. -/
def WellFormedItems : List Json → Prop
  | [] => True
  | j :: rest => j.WellFormed ∧ WellFormedItems rest

/-- Every value among fields is well formed. -/
def WellFormedFields : List (String × Json) → Prop
  | [] => True
  | (_, j) :: rest => j.WellFormed ∧ WellFormedFields rest

end

mutual

/-- The number of lists and objects around the innermost element. -/
def depth : Json → Nat
  | .list items => depthItems items + 1
  | .object fields => depthFields fields + 1
  | _ => 0

/-- The depth of the deepest item. -/
def depthItems : List Json → Nat
  | [] => 0
  | j :: rest => max j.depth (depthItems rest)

/-- The depth of the deepest value among fields. -/
def depthFields : List (String × Json) → Nat
  | [] => 0
  | (_, j) :: rest => max j.depth (depthFields rest)

end

end Json

end ContractHost

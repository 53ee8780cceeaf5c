/-!
# Scalars

The fixed table of scalar types that may cross the wire: truth values, strings, ten kinds of integer
and two of floating-point number.
-/

namespace ContractHost

-- Powers are the built-in ones, also where another library defines its own.
attribute [local instance (high)] instPowNat

/-- The kinds of integer. -/
inductive IntegerKind
  | i8
  | i16
  | i32
  | i64
  | isize
  | u8
  | u16
  | u32
  | u64
  | usize
  deriving DecidableEq, Repr

namespace IntegerKind

/-- The written form of the kind: a letter for the sign, and the width. -/
def name : IntegerKind → String
  | i8 => "i8"
  | i16 => "i16"
  | i32 => "i32"
  | i64 => "i64"
  | isize => "isize"
  | u8 => "u8"
  | u16 => "u16"
  | u32 => "u32"
  | u64 => "u64"
  | usize => "usize"

/-- The kind has negative integers. -/
def isSigned : IntegerKind → Bool
  | i8 | i16 | i32 | i64 | isize => true
  | u8 | u16 | u32 | u64 | usize => false

/-- The width of the kind. The kinds of machine size have 64 bits. -/
def bits : IntegerKind → Nat
  | i8 | u8 => 8
  | i16 | u16 => 16
  | i32 | u32 => 32
  | i64 | isize | u64 | usize => 64

/-- The least integer of the kind. -/
def least (k : IntegerKind) : Int :=
  if k.isSigned then -2 ^ (k.bits - 1) else 0

/-- The greatest integer of the kind. -/
def greatest (k : IntegerKind) : Int :=
  if k.isSigned then 2 ^ (k.bits - 1) - 1 else 2 ^ k.bits - 1

/-- The integers of the kind. -/
def InRange (k : IntegerKind) (n : Int) : Prop :=
  k.least ≤ n ∧ n ≤ k.greatest

instance (k : IntegerKind) (n : Int) : Decidable (k.InRange n) :=
  inferInstanceAs (Decidable (_ ∧ _))

/-- The integer of the kind that agrees with `n` in its low bits. -/
def wrap (k : IntegerKind) (n : Int) : Int :=
  if k.isSigned then n.bmod (2 ^ k.bits) else n % 2 ^ k.bits

end IntegerKind

/-- A scalar type. -/
inductive Scalar
  | bool
  | string
  | integer (kind : IntegerKind)
  | single
  | double
  deriving DecidableEq, Repr

namespace Scalar

/-- Every scalar type. -/
def all : List Scalar :=
  [bool, string, integer .i8, integer .i16, integer .i32, integer .i64, integer .isize,
    integer .u8, integer .u16, integer .u32, integer .u64, integer .usize, single, double]

/-- The written form of the type. -/
def name : Scalar → String
  | bool => "bool"
  | string => "String"
  | integer k => k.name
  | single => "f32"
  | double => "f64"

/-- The scalar type of a name. -/
def ofName? (name : String) : Option Scalar :=
  all.find? fun s ↦ s.name == name

/-- The names of all scalar types in ascending order. -/
def sortedNames : List String :=
  (all.map name).mergeSort fun a b ↦ decide (a ≤ b)

end Scalar

end ContractHost

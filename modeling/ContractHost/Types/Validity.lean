import ContractHost.Types.Ty

/-!
# Valid types

A signature may use the scalar types, the dynamic type, arrays of positive length, lists, maps keyed
by strings, records of valid fields and optional records; a caller may allow further types by name.
`Ty.validate` walks a description from the outside in and from left to right and reports the first
part that does not belong. An array or a list is always judged by its elements, whatever is allowed.

`Ty.checkArrayLengths` looks for an array without elements only.
-/

namespace ContractHost

/-- Why a description is refused. -/
inductive TypeError
  /-- An array without elements. -/
  | zeroLengthArray
  /-- A map keyed by something else than strings. -/
  | mapKey (key : Ty)
  /-- A type that does not belong, with the types that were allowed in addition. -/
  | invalid (type : Ty) (allowed : List Ty)
  deriving DecidableEq, Repr

namespace TypeError

/-- The text of the error. -/
def message : TypeError → String
  | zeroLengthArray => "Arrays must have length greater than 0"
  | mapKey key => "Map key type " ++ key.display ++ " is not valid. Expected String"
  | invalid type [] =>
    "Type " ++ type.display ++ " is not valid. Expected a struct or one of the basic types " ++
      Ty.bracketed Scalar.sortedNames ++ " or an array/slice of these"
  | invalid type allowed =>
    "Type " ++ type.display ++ " is not valid. Expected a struct, one of the basic types " ++
      Ty.bracketed Scalar.sortedNames ++
      ", an array/slice of these, or one of these additional types " ++
      Ty.bracketed (allowed.map Ty.display)

end TypeError

namespace Ty

mutual

/-- Check that a description belongs to the types of a signature. -/
def validate (allowed : List Ty) : Ty → Except TypeError Unit
  | .array elem n => if n = 0 then .error .zeroLengthArray else validate allowed elem
  | .list elem => validate allowed elem
  | .map _ key value =>
    if key = .scalar .string then validate allowed value else .error (.mapKey key)
  | .record name fields =>
    if .record name fields ∈ allowed then .ok () else validateFields allowed fields
  | .optional (.record name fields) =>
    if .optional (.record name fields) ∈ allowed then .ok ()
    else validate allowed (.record name fields)
  | .scalar _ => .ok ()
  | .any => .ok ()
  | t => if t ∈ allowed then .ok () else .error (.invalid t allowed)

/-- Check the fields of a record in order. -/
def validateFields (allowed : List Ty) : List (String × Ty) → Except TypeError Unit
  | [] => .ok ()
  | (_, t) :: rest =>
    match validate allowed t with
    | .error e => .error e
    | .ok () => validateFields allowed rest

end

mutual

/-- Check that no array without elements occurs in a description. -/
def checkArrayLengths : Ty → Except TypeError Unit
  | .array elem n => if n = 0 then .error .zeroLengthArray else checkArrayLengths elem
  | .list elem => checkArrayLengths elem
  | .optional inner => checkArrayLengths inner
  | .map _ _ value => checkArrayLengths value
  | .record _ fields => checkFieldArrayLengths fields
  | .scalar _ | .any | .error | .named _ => .ok ()

/-- Check the fields of a record in order. -/
def checkFieldArrayLengths : List (String × Ty) → Except TypeError Unit
  | [] => .ok ()
  | (_, t) :: rest =>
    match checkArrayLengths t with
    | .error e => .error e
    | .ok () => checkFieldArrayLengths rest

end

end Ty

end ContractHost

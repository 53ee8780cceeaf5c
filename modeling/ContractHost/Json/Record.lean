import ContractHost.Json.Reader

/-!
# Records in JSON

A record is written either as an object, field by field in any order, or as the list of its fields
in their order. `Tree.record?` takes both forms apart for a given list of field names. In an object
a name of the record may occur only once, other names are passed over with whatever they hold, and a
field may be missing. In a list, fields at the end may be missing, and nothing may follow the last
field.

What a missing field means differs from record to record, and in an object from a list, so a missing
field is reported together with the form it is missing from.
-/

namespace ContractHost

namespace Json

/-- What a record's text gives for one of its fields. -/
inductive Slot
  | given (tree : Tree)
  /-- Not among the fields of the object. -/
  | unnamed
  /-- Behind the end of the list. -/
  | beyond

namespace Tree

/-- Decode the names of an object. -/
def named? : List (List Piece × Tree) → Option (List (String × Tree))
  | [] => some []
  | (name, t) :: rest =>
    match Piece.text? name with
    | none => none
    | some k => (named? rest).map ((k, t) :: ·)

/-- The trees under one name, in order. -/
def under (name : String) (fields : List (String × Tree)) : List Tree :=
  (fields.filter fun f ↦ f.1 == name).map Prod.snd

/-- The slots of a record written as an object. -/
def slotsByName? (fields : List (String × Tree)) : List String → Option (List Slot)
  | [] => some []
  | name :: names =>
    match under name fields with
    | [] => (slotsByName? fields names).map (.unnamed :: ·)
    | [t] => (slotsByName? fields names).map (.given t :: ·)
    | _ => none

/-- The slots of a record written as a list. -/
def slotsByPlace? : List Tree → List String → Option (List Slot)
  | [], [] => some []
  | _ :: _, [] => none
  | [], _ :: names => (slotsByPlace? [] names).map (.beyond :: ·)
  | t :: rest, _ :: names => (slotsByPlace? rest names).map (.given t :: ·)

/-- The slots of a record with the given field names, one for each of them. -/
def record? (names : List String) : Tree → Option (List Slot)
  | .object fields => (named? fields).bind fun fs ↦ slotsByName? fs names
  | .list items => slotsByPlace? items names
  | _ => none

end Tree

end Json

end ContractHost

import ContractHost.Data.DataType
import ContractHost.Json.Printer
import ContractHost.Json.Reader

/-!
# Values

A **datum** is the content of a data type; it shows its own structure, so writing one needs no type
beside it. A **value** is what travels between the codec, the handlers and the response: a datum
with its data type, or a slot that is described but holds nothing. The slot described as `any` is
the *undefined* value.

A value is written in two ways. `Value.write?` is its JSON text; a dynamic value inside another one
is written through its document, which is why writing can fail: a document nested too deeply cannot
be read back. `Value.text` is the plain text of scalars and documents, and the JSON text of all
else.
-/

namespace ContractHost

/-- A key of a map. -/
inductive MapKey
  | string (s : String)
  | int (n : Int)
  | bool (b : Bool)
  | char (c : Char)
  deriving DecidableEq, Repr

namespace MapKey

/-- The order in which a map lists its keys. -/
def lt : MapKey → MapKey → Bool
  | .string a, .string b => decide (a < b)
  | .int a, .int b => decide (a < b)
  | .bool a, .bool b => !a && b
  | .char a, .char b => decide (a.toNat < b.toNat)
  | _, _ => false

/-- A key as a JSON string. -/
def write : MapKey → List Char
  | .string s => Json.writeString s
  | .int n => '"' :: Json.writeInt n ++ ['"']
  | .bool b => '"' :: (if b then ['t', 'r', 'u', 'e'] else ['f', 'a', 'l', 's', 'e']) ++ ['"']
  | .char c => Json.writeString (String.singleton c)

end MapKey

mutual

/-- The content of a data type. -/
inductive Datum
  | bool (b : Bool)
  | string (s : String)
  | int (n : Int)
  | single (x : FloatValue)
  | double (x : FloatValue)
  | char (c : Char)
  | json (j : Json)
  | list (items : List Datum)
  | map (entries : List (MapKey × Datum))
  | nil
  | present (d : Datum)
  | record (fields : List (String × Datum))
  | dynamic (v : Value)

/-- A value of a data type, or a described slot that holds nothing. -/
inductive Value
  | absent (declared : Ty)
  | typed (type : DataType) (datum : Datum)

end

instance : Inhabited Datum := ⟨.nil⟩
instance : Inhabited Value := ⟨.absent .any⟩

namespace FloatValue

/-- A floating-point number as JSON; what is not finite becomes `null`. -/
def writeJson (fmt : BinaryFormat) (layout : FloatLayout) : FloatValue → List Char
  | .finite x => layout.writeNumber fmt x
  | _ => ['n', 'u', 'l', 'l']

/-- A floating-point number as plain text. -/
def text (fmt : BinaryFormat) : FloatValue → List Char
  | .nan => ['N', 'a', 'N']
  | .infinity true => ['-', 'i', 'n', 'f']
  | .infinity false => ['i', 'n', 'f']
  | .finite x => FloatLayout.plain.writeNumber fmt x

end FloatValue

/-! ### JSON text -/

mutual

/-- The JSON text of a datum. -/
def Datum.write? : Datum → Option (List Char)
  | .bool b => some (Json.bool b).write
  | .string s => some (Json.writeString s)
  | .int n => some (Json.writeInt n)
  | .single x => some (x.writeJson .single .jsonSingle)
  | .double x => some (x.writeJson .double .jsonDouble)
  | .char c => some (Json.writeString (String.singleton c))
  | .json j => some j.write
  | .list items => (Datum.writeItems? items).map fun body ↦ '[' :: body ++ [']']
  | .map entries => (Datum.writeEntries? entries).map fun body ↦ '\x7b' :: body ++ ['\x7d']
  | .nil => some Json.null.write
  | .present d => d.write?
  | .record fields => (Datum.writeFields? fields).map fun body ↦ '\x7b' :: body ++ ['\x7d']
  | .dynamic v =>
    match v.write? with
    | none => none
    | some text => (Json.read? (text.map some)).map Json.write

/-- The items of a list, with a comma between two. -/
def Datum.writeItems? : List Datum → Option (List Char)
  | [] => some []
  | [d] => d.write?
  | d :: rest =>
    match d.write?, Datum.writeItems? rest with
    | some a, some b => some (a ++ ',' :: b)
    | _, _ => none

/-- The entries of a map, with a comma between two. -/
def Datum.writeEntries? : List (MapKey × Datum) → Option (List Char)
  | [] => some []
  | [(k, d)] => d.write?.map fun a ↦ k.write ++ ':' :: a
  | (k, d) :: rest =>
    match d.write?, Datum.writeEntries? rest with
    | some a, some b => some (k.write ++ ':' :: a ++ ',' :: b)
    | _, _ => none

/-- The fields of a record, with a comma between two. -/
def Datum.writeFields? : List (String × Datum) → Option (List Char)
  | [] => some []
  | [(k, d)] => d.write?.map fun a ↦ Json.writeString k ++ ':' :: a
  | (k, d) :: rest =>
    match d.write?, Datum.writeFields? rest with
    | some a, some b => some (Json.writeString k ++ ':' :: a ++ ',' :: b)
    | _, _ => none

/-- The JSON text of a value; a slot that holds nothing is `null`. -/
def Value.write? : Value → Option (List Char)
  | .absent _ => some Json.null.write
  | .typed _ d => d.write?

end

/-! ### Where writing and reading stop -/

mutual

/-- The column at which the text of a dynamic value inside a datum is nested too deeply to be read:
of the first such value, in its own text. -/
def Datum.obstacle? : Datum → Option Nat
  | .list items => Datum.obstacleItems? items
  | .map entries => Datum.obstacleEntries? entries
  | .present d => d.obstacle?
  | .record fields => Datum.obstacleFields? fields
  | .dynamic v => v.excessColumn?
  | _ => none

/-- The obstacle in the first item that has one. -/
def Datum.obstacleItems? : List Datum → Option Nat
  | [] => none
  | d :: rest =>
    match d.obstacle? with
    | some column => some column
    | none => Datum.obstacleItems? rest

/-- The obstacle in the first value of a map that has one. -/
def Datum.obstacleEntries? : List (MapKey × Datum) → Option Nat
  | [] => none
  | (_, d) :: rest =>
    match d.obstacle? with
    | some column => some column
    | none => Datum.obstacleEntries? rest

/-- The obstacle in the first field that has one. -/
def Datum.obstacleFields? : List (String × Datum) → Option Nat
  | [] => none
  | (_, d) :: rest =>
    match d.obstacle? with
    | some column => some column
    | none => Datum.obstacleFields? rest

/-- The column at which a value turns out to be nested too deeply: in its text, or in that of a
dynamic value inside it, which is read before there is a text of the whole. -/
def Value.excessColumn? : Value → Option Nat
  | .absent _ => none
  | .typed _ d =>
    match d.write? with
    | some text => Json.excessColumn? text
    | none => d.obstacle?

end

/-! ### Looking at a value -/

/-- A missing optional datum, or the JSON document `null`. -/
def Datum.isNil : Datum → Bool
  | .nil => true
  | .json .null => true
  | _ => false

/-- The description that fits a document best. -/
def Json.ty : Json → Ty
  | .null => .any
  | .bool _ => .scalar .bool
  | .int (.ofNat _) => .scalar (.integer .u64)
  | .int (.negSucc _) => .scalar (.integer .i64)
  | .float _ => .scalar .double
  | .string _ => .scalar .string
  | .list _ => .list .any
  | .object _ => .map .ordered (.scalar .string) .any

/-- The plain text of a document: nothing for `null`, a string as it is, and JSON for all else. -/
def Json.plainText : Json → String
  | .null => ""
  | .string s => s
  | j => j.toText

namespace Value

/-- The value that stands for "no value was produced". -/
def undefined : Value := .absent .any

/-- Wrap a datum. A dynamic value is not wrapped again. -/
def ofDatum : DataType → Datum → Value
  | _, .dynamic v => v
  | t, d => .typed t d

/-- The described type. -/
def declared : Value → Ty
  | .absent t => t
  | .typed t _ => t.ty

/-- The slot holds nothing. -/
def isUndefined : Value → Bool
  | .absent _ => true
  | .typed .. => false

/-- The slot holds nothing, or a nil. -/
def isNil : Value → Bool
  | .absent _ => true
  | .typed _ d => d.isNil

/-- The type the value has when documents are looked into. -/
def runtime : Value → Ty
  | .absent _ => .any
  | .typed _ (.json j) => j.ty
  | .typed t _ => t.ty

/-- The JSON text of a value as a string. -/
def jsonText? (v : Value) : Option String :=
  v.write?.map String.ofList

/-- The document of a value: its JSON text, read again. -/
def toJson? (v : Value) : Option Json := do
  Json.read? ((← v.write?).map some)

/-- Why a value cannot be written or read back. A text that is written is a single line. -/
def unwritable (v : Value) : String :=
  "recursion limit exceeded at line 1 column " ++ toString (v.excessColumn?.getD 0)

/-- The plain text of a value. -/
def text : Value → String
  | .absent _ => ""
  | .typed _ (.bool b) => if b then "true" else "false"
  | .typed _ (.string s) => s
  | .typed _ (.int n) => String.ofList (Json.writeInt n)
  | .typed _ (.single x) => String.ofList (x.text .single)
  | .typed _ (.double x) => String.ofList (x.text .double)
  | .typed _ (.char c) => String.singleton c
  | .typed _ (.json j) => j.plainText
  | .typed _ d => (d.write?.map String.ofList).getD ""

/-- The text by which a value is shown to a developer. -/
def inspect (v : Value) : String :=
  match v with
  | .absent t => "Value<" ++ t.display ++ ">(undefined)"
  | .typed t d =>
    "Value<" ++ t.ty.display ++ ">(" ++ (d.write?.map String.ofList).getD ".." ++ ")"

/-- Take the content of a value as a datum of the given type. Every value is a dynamic one, and a
document is taken from any value that can be written; otherwise the types have to be equal. -/
def toDatum? (v : Value) (t : DataType) : Option Datum :=
  match t, v with
  | .dynamic, v => some (.dynamic v)
  | .json, .typed .json d => some d
  | .json, v => v.toJson?.map Datum.json
  | _, .absent _ => none
  | t, .typed s d => if s = t then some d else none

end Value

end ContractHost

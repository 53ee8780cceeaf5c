import ContractHost.Contract.Handler
import ContractHost.Data.Decode
import ContractHost.Document.Basic
import ContractHost.Schema.Validate

/-!
# Functions

A **function** is a handler whose signature has been inspected once, when it was registered. After
that it owns the two conversions every call goes through: wire strings into arguments
(`Function.decodeArguments`) and outputs into a text and a value (`Function.respond`).

The context may lead the inputs and stands nowhere else; all other inputs are valid types. The
outputs are nothing, an error, a valid type, or a valid type and an error.
-/

namespace ContractHost

/-- What a function returns: a success value or none, and an error slot or none. -/
structure ReturnShape where
  success : Option Ty
  hasError : Bool
  deriving DecidableEq, Repr

namespace ReturnShape

/-- The number of outputs of this shape. -/
def size (r : ReturnShape) : Nat :=
  (if r.success.isSome then 1 else 0) + if r.hasError then 1 else 0

/-- Neither a success value nor an error is returned. -/
def isEmpty (r : ReturnShape) : Bool :=
  r.size == 0

end ReturnShape

/-! ### Inspecting a signature -/

/-- Check the inputs from a position on, where the context may no longer stand. -/
def plainInputs (function : String) (context : Option Ty) :
    Nat → List Ty → Except RegistrationError (List Ty)
  | _, [] => .ok []
  | position, t :: rest =>
    if context = some t then .error (.contextPosition function position)
    else
      match t.validate context.toList with
      | .error e => .error (.invalidParameter function e)
      | .ok () => (plainInputs function context (position + 1) rest).map (t :: ·)

/-- Split inputs into whether they start with the context, and the types of the parameters. -/
def describeInputs (function : String) (context : Option Ty) :
    List Ty → Except RegistrationError (Bool × List Ty)
  | [] => .ok (false, [])
  | t :: rest =>
    if context = some t then (plainInputs function context 2 rest).map (true, ·)
    else (plainInputs function context 1 (t :: rest)).map (false, ·)

/-- Find the shape of the declared outputs. -/
def describeOutputs (function : String) : List Ty → Except RegistrationError ReturnShape
  | [] => .ok ⟨none, false⟩
  | [.error] => .ok ⟨none, true⟩
  | [t] =>
    match t.validate [] with
    | .error e => .error (.invalidSingleReturn function e)
    | .ok () => .ok ⟨some t, false⟩
  | [t, second] =>
    match t.validate [] with
    | .error e => .error (.invalidFirstReturn function e)
    | .ok () =>
      if second = .error then .ok ⟨some t, true⟩
      else .error (.invalidSecondReturn function second)
  | outputs => .error (.tooManyReturns function outputs.length)

/-- A registered function. -/
structure Function (κ : Type) where
  name : String
  usesContext : Bool
  params : List DataType
  returns : ReturnShape
  run : Body κ

namespace Function

variable {κ : Type}

/-- Inspect a signature, in which the context is described by `context`. The decoders have to read
exactly the described parameters. -/
def inspect (name : String) (signature : Signature) (context : Option Ty)
    (decoders : List DataType) (run : Body κ) : Except RegistrationError (Function κ) :=
  match describeInputs name context signature.inputs with
  | .error e => .error e
  | .ok (usesContext, types) =>
    match describeOutputs name signature.outputs with
    | .error e => .error e
    | .ok returns =>
      if decoders.map DataType.ty = types then .ok ⟨name, usesContext, decoders, returns, run⟩
      else .error (.decoderMismatch name decoders.length types.length)

/-- Register a handler as a function. -/
def ofHandler [ContextType κ] (name : String) (h : Handler κ) :
    Except RegistrationError (Function κ) :=
  inspect name h.signature (some (contextTy κ)) h.decoders h.run

/-- The types of the parameters. -/
def paramTypes (f : Function κ) : List Ty :=
  f.params.map DataType.ty

end Function

/-! ### Arguments -/

/-- Read one wire string as an argument. Scalars are converted, a dynamic argument is the string
itself, and everything else is read as JSON. -/
def decodeArgument (t : DataType) (raw : String) : Except CallError Value :=
  match t.ty with
  | .scalar s =>
    match s.convert raw with
    | .ok v => .ok v
    | .error e => .error (.conversion e)
  | .any => .ok (.typed .json (.json (.string raw)))
  | ty =>
    match ty.checkArrayLengths with
    | .error e => .error (.type e)
    | .ok () =>
      match t.valueOf? raw with
      | some v => .ok v
      | none => .error (.format raw ty.display)

/-- Check an argument against the schema that the metadata give for it. -/
def checkArgument (components : Components) (p : Parameter) (t : DataType) (raw : String)
    (v : Value) : Except CallError Unit :=
  match v.toJson? with
  | none => .error (.format raw (t.ty.display ++ " (" ++ v.unwritable ++ ")"))
  | some j =>
    match Schema.compile p.schema components with
    | .error e => .error (.invalidSchema p.name e)
    | .ok schema =>
      match schema.validate j with
      | [] => .ok ()
      | violations => .error (.paramSchema p.name violations)

/-- Read one wire string, and check it where there are metadata for it. -/
def acceptArgument (components : Components) (t : DataType) (p : Option Parameter)
    (raw : String) : Except CallError Value :=
  match decodeArgument t raw with
  | .error e => .error e
  | .ok v =>
    match p with
    | none => .ok v
    | some p => (checkArgument components p t raw v).map fun () ↦ v

/-- Read the wire strings of the parameters from left to right. Strings beyond the last parameter
are not looked at. -/
def acceptArguments (components : Components) :
    List (DataType × Option Parameter) → List String → Except CallError (List Value)
  | (t, p) :: rest, raw :: wire =>
    match acceptArgument components t p raw with
    | .error e => .error e
    | .ok v => (acceptArguments components rest wire).map (v :: ·)
  | _, _ => .ok []

namespace Function

variable {κ : Type}

/-- Turn wire strings into arguments. The metadata have to describe as many parameters as there are,
and there have to be enough strings. -/
def decodeArguments (f : Function κ) (metadata : Option Transaction) (components : Components)
    (wire : List String) : Except CallError Arguments :=
  -- Without metadata any number of parameters counts as described.
  let described := (metadata.map fun tx ↦ tx.parameters.length).getD f.params.length
  if described ≠ f.params.length then .error (.metadataParamCount f.params.length described)
  else if wire.length < f.params.length then .error (.paramCount f.params.length wire.length)
  else
    let checks :=
      match metadata with
      | none => f.params.map fun t ↦ (t, none)
      | some tx => f.params.zip (tx.parameters.map some)
    (acceptArguments components checks wire).map fun values ↦ ⟨f.usesContext, values⟩

/-! ### Responses -/

/-- Take the success value from the outputs, if one is declared. -/
def takeSuccess (f : Function κ) (outputs : List Output) :
    Except Breach (Option Value × List Output) :=
  if f.returns.success.isSome then
    match outputs with
    | .value v :: rest => .ok (some v, rest)
    | _ => .error (.noSuccessValue f.name)
  else .ok (none, outputs)

/-- Take the error from the outputs, if one is declared. -/
def takeError (f : Function κ) (outputs : List Output) : Except Breach (Option String) :=
  if f.returns.hasError then
    match outputs with
    | .error e :: _ => .ok e
    | _ => .error (.noErrorSlot f.name)
  else .ok none

/-- Split the outputs into the success value and the error. -/
def splitOutputs (f : Function κ) (outputs : List Output) :
    Except Breach (Option Value × Option String) :=
  if outputs.length ≠ f.returns.size then
    .error (.outputCount f.name f.returns.size outputs.length)
  else
    match f.takeSuccess outputs with
    | .error b => .error b
    | .ok (success, rest) => (f.takeError rest).map (success, ·)

end Function

/-- The text of a success value that is declared to be of type `t`. Where the type, or what is found
inside a dynamic value, is rendered as JSON, so is the value. -/
def renderSuccess (t : Ty) (v : Value) : Except CallError String :=
  if t.isMarshaling || (t = .any && v.runtime.isMarshaling) then
    match v.jsonText? with
    | some text => .ok text
    | none => .error (@CallError.unwritableReturn v.unwritable)
  else .ok v.text

/-- Check a success value against the schema that the metadata give for it. -/
def checkSuccess (components : Components) (r : Returns) (v : Value) : Except CallError Unit :=
  match v.toJson? with
  | none => .error (@CallError.unwritableReturn v.unwritable)
  | some j =>
    match Schema.compile r.schema components with
    | .error e => .error (.invalidReturnSchema e)
    | .ok schema =>
      match schema.validate j with
      | [] => .ok ()
      | violations => .error (.returnSchema violations)

/-- Render a success value and check it. A nil is rendered as the empty text, and not checked. -/
def answerSuccess (metadata : Option Transaction) (components : Components) (t : Ty) (v : Value) :
    Except CallError (String × Value) :=
  if v.isNil then .ok ("", v)
  else
    match renderSuccess t v with
    | .error e => .error e
    | .ok text =>
      match metadata.bind Transaction.returns with
      | none => .ok (text, v)
      | some r => (checkSuccess components r v).map fun () ↦ (text, v)

namespace Function

variable {κ : Type}

/-- Turn outputs into the text of the answer and the raw success value. An error that the function
returned wins over everything else. -/
def respond (f : Function κ) (metadata : Option Transaction) (components : Components)
    (outputs : List Output) : Except Failure (String × Value) :=
  match f.splitOutputs outputs with
  | .error b => .error (.breach b)
  | .ok (_, some e) => .error (.error (.transaction e))
  | .ok (success, none) =>
    match f.returns.success, success with
    | some t, some v =>
      match answerSuccess metadata components t v with
      | .error e => .error (.error e)
      | .ok answer => .ok answer
    | _, _ => .ok ("", .undefined)

/-- Run the function on arguments and turn what it produces into an answer. -/
def perform (f : Function κ) (metadata : Option Transaction) (components : Components)
    (args : Arguments) (s : Session κ) : Except Failure (String × Value) × Session κ :=
  match f.run args s with
  | (.error b, s) => (.error (.breach b), s)
  | (.ok outputs, s) => (f.respond metadata components outputs, s)

/-- Call the function with wire strings. -/
def call (f : Function κ) (metadata : Option Transaction) (components : Components)
    (wire : List String) (s : Session κ) : Except Failure (String × Value) × Session κ :=
  match f.decodeArguments metadata components wire with
  | .error e => (.error (.error e), s)
  | .ok args => f.perform metadata components args s

/-- Call the function with values, past the codec and without metadata. -/
def callValues (f : Function κ) (values : List Value) (s : Session κ) :
    Except Failure (String × Value) × Session κ :=
  f.perform none ∅ ⟨f.usesContext, values⟩ s

end Function

end ContractHost

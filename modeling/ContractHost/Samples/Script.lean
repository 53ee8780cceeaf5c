import ContractHost.Samples.Counting

/-!
# Scripted handlers

A handler that follows a **script**: a list of actions, each of which leaves a note or touches the
ledger, and then a list of outputs. A script is under no obligation to produce what its signature
declares, which is how the promises of signatures are put to the test.
-/

namespace ContractHost

namespace Samples

/-- One action of a script. -/
inductive Action
  | note (text : String)
  /-- Note the declared type and the text of an argument. -/
  | noteArgument (position : Nat)
  | count (n : UInt64)
  | read (key : String)
  | write (key text : String)
  | delete (key : String)
  deriving DecidableEq, Repr

/-- One output of a script. -/
inductive Product
  | value (v : Value)
  | failure (message : String)
  | noFailure
  /-- Hand on an argument, which is then gone. -/
  | argument (position : Nat)
  /-- What the context has counted. -/
  | counted

/-- What a scripted handler does. -/
structure Script where
  actions : List Action
  products : List Product

variable {κ : Type} [Counter κ]

/-- The note about an argument. -/
def describeArgument (args : Arguments) (position : Nat) : String :=
  match args.values[position]? with
  | none => "undefined"
  | some v => if v.isUndefined then "undefined" else v.declared.display ++ "=" ++ v.text

/-- Note how a change of the ledger went, and keep it if it went well. -/
def noteChange (s : Session κ) (outcome : Except LedgerError Ledger) : Session κ :=
  match outcome with
  | .error e => s.note e.message
  | .ok ledger => { s with ledger := ledger }.note "ok"

/-- The note about what is found under a key. -/
def describeEntry (found : Except LedgerError (Option (List UInt8))) : String :=
  match found with
  | .error e => e.message
  | .ok none => "none"
  | .ok (some bytes) => String.ofList (Utf8.lossy (Utf8.decode bytes))

/-- Work on the ledger, which takes an invocation. -/
def withLedger (args : Arguments) (s : Session κ) (work : Session κ → Session κ) : Session κ :=
  if !args.hasContext then s.note "no context"
  else if s.invocation.isNone then s.note "no stub"
  else work s

/-- Follow one action. -/
def Action.follow (args : Arguments) (s : Session κ) : Action → Session κ
  | note text => s.note text
  | noteArgument position => s.note (describeArgument args position)
  | count n => if args.hasContext then s.count n else s.note "no context"
  | read key => withLedger args s fun s ↦ s.note (describeEntry (s.ledger.read key))
  | write key text =>
    withLedger args s fun s ↦ noteChange s (s.ledger.write key (Utf8.bytes text))
  | delete key => withLedger args s fun s ↦ noteChange s (s.ledger.delete key)

/-- Take an argument away. -/
def takeArgument (values : List Value) (position : Nat) : Value × List Value :=
  (values[position]?.getD .undefined, values.set position .undefined)

/-- Produce the outputs in order. -/
def produceAll (args : Arguments) (s : Session κ) : List Value → List Product → List Output
  | _, [] => []
  | values, .value v :: rest => .value v :: produceAll args s values rest
  | values, .failure e :: rest => .error (some e) :: produceAll args s values rest
  | values, .noFailure :: rest => .error none :: produceAll args s values rest
  | values, .argument position :: rest =>
    let (v, values) := takeArgument values position
    .value v :: produceAll args s values rest
  | values, .counted :: rest =>
    let n : Int := if args.hasContext then s.counted.toNat else 0
    .value (.typed (.integer .u64) (.int n)) :: produceAll args s values rest

/-- Run a script. -/
def Script.run (script : Script) : Body κ := fun args s ↦
  let s := script.actions.foldl (Action.follow args) s
  (.ok (produceAll args s args.values script.products), s)

/-- A scripted handler with a signature. -/
def Script.toHandler (script : Script) (signature : Signature) (decoders : List DataType) :
    Handler κ :=
  ⟨signature, decoders, script.run⟩

end Samples

end ContractHost

import ContractHost.Data.Access
import ContractHost.Data.Decode
import ContractHost.Samples.Catalogue
import ContractHost.Samples.Counting

/-!
# A collection of handlers

Typed handlers of every kind of signature, by name: with and without the context, with up to six
parameters, and with every form of return. Names like `echo:Point` stand for one handler for each
data type of the catalogue.
-/

namespace ContractHost

namespace Samples

variable {κ : Type}

/-- A handler that sees nothing but its arguments. -/
def plain (params : List DataType) (returns : ReturnType) (body : List Datum → returns.Result) :
    TypedHandler κ where
  takesContext := false
  usesInvocation := false
  params := params
  returns := returns
  body data s := (body data, s)

/-- A handler that takes the context and does not look at it. -/
def withContext (h : TypedHandler κ) : TypedHandler κ :=
  { h with takesContext := true }

/-- A handler that works with the invocation and the ledger. -/
def onLedger (params : List DataType) (returns : ReturnType)
    (body : List Datum → Invocation → Session κ → returns.Result × Session κ) : TypedHandler κ where
  takesContext := true
  usesInvocation := true
  params := params
  returns := returns
  body data s := body data (s.invocation.getD (.ofCall "" [])) s

/-- A handler that leaves one note. -/
def noting (params : List DataType) (text : List Datum → Session κ → String) : TypedHandler κ where
  takesContext := false
  usesInvocation := false
  params := params
  returns := .nothing
  body data s := ((), s.note (text data s))

/-! ### One handler for each type -/

/-- Answer with the argument. -/
def echo (t : DataType) : TypedHandler κ :=
  plain [t] (.value t) fun data ↦ datumAt data 0

/-- Answer with the argument, or fail with a message that is not empty. -/
def attempt (t : DataType) : TypedHandler κ :=
  plain [t, .string] (.valueOrError t) fun data ↦
    if stringAt data 1 = "" then .ok (datumAt data 0) else .error (stringAt data 1)

/-- Answer with the argument or with nothing. -/
def keep (t : DataType) : TypedHandler κ :=
  plain [t, .bool] (.value (.option t)) fun data ↦
    if boolAt data 1 then .present (datumAt data 0) else .nil

/-- Read a text as a datum of the type. -/
def decodeText (t : DataType) : TypedHandler κ :=
  plain [.string] (.valueOrError t) fun data ↦
    match t.read? (Utf8.source (stringAt data 0)) with
    | some d => .ok d
    | none => .error "not decodable"

/-! ### Fixed answers -/

/-- Answer with nothing. -/
def noop : TypedHandler κ := plain [] .nothing fun _ ↦ ()

/-- Answer with a greeting where a failure is possible. -/
def hello : TypedHandler κ := plain [] (.valueOrError .string) fun _ ↦ .ok (.string "hello")

/-- Fail where a string is promised. -/
def broken : TypedHandler κ := plain [] (.valueOrError .string) fun _ ↦ .error "some error"

/-- Succeed without a value. -/
def okUnit : TypedHandler κ := plain [] .errorOnly fun _ ↦ .ok ()

/-- Fail where no value is promised. -/
def errUnit : TypedHandler κ := plain [] .errorOnly fun _ ↦ .error "unit refused"

/-- Answer with one. -/
def one : TypedHandler κ := plain [] (.value (.integer .u32)) fun _ ↦ .int 1

/-- Declare two values, which no function may return. -/
def two : TypedHandler κ :=
  plain [] (.pair (.integer .i32) (.integer .i32)) fun _ ↦ (.int 1, .int 2)

/-- Declare three values, which no function may return. -/
def three : TypedHandler κ :=
  plain [] (.triple (.integer .i32) (.integer .i32) (.integer .i32)) fun _ ↦
    (.int 1, .int 2, .int 3)

/-- Declare two values, the first of a type that is not valid. -/
def twoBadFirst : TypedHandler κ :=
  plain [] (.pair .char (.integer .i32)) fun _ ↦ (.char 'c', .int 1)

/-! ### Answers from several arguments -/

/-- Greet by name. -/
def greet : TypedHandler κ :=
  plain [.string] (.value .string) fun data ↦ .string ("hello " ++ stringAt data 0)

/-- Addition that keeps the low 32 bits. -/
def add : TypedHandler κ :=
  plain [.integer .i32, .integer .i32] (.value (.integer .i32)) fun data ↦
    .int (IntegerKind.i32.wrap (intAt data 0 + intAt data 1))

/-- Division toward zero, where the quotient is a 64-bit integer. -/
def divide : TypedHandler κ :=
  plain [.integer .i64, .integer .i64] (.valueOrError (.integer .i64)) fun data ↦
    let quotient := (intAt data 0).tdiv (intAt data 1)
    if intAt data 1 = 0 ∨ ¬IntegerKind.i64.InRange quotient then .error "division by zero"
    else .ok (.int quotient)

/-- Texts with a separator between two. -/
def joined (sep : String) (texts : List String) : Datum :=
  .string (sep.intercalate texts)

/-- The texts of data of the given types. -/
def textsOf (params : List DataType) (data : List Datum) : List String :=
  params.zipWith (fun t d ↦ (Value.ofDatum t d).text) data

/-- Answer with both texts and a colon between them. -/
def pair : TypedHandler κ :=
  plain [.string, .bool] (.value .string) fun data ↦
    joined ":" (textsOf [.string, .bool] data)

/-- Answer with two texts and the length of a list. -/
def join3 : TypedHandler κ :=
  plain [.string, .integer .u8, .list (.integer .i32)] (.value .string) fun data ↦
    joined "|" (textsOf [.string, .integer .u8] data ++ [toString (itemsAt data 2).length])

/-- Answer with the texts of all arguments. -/
def join (params : List DataType) : TypedHandler κ :=
  plain params (.value .string) fun data ↦ joined "|" (textsOf params data)

/-- The texts of four unsigned integers. -/
def join4 : TypedHandler κ :=
  join [.integer .u8, .integer .u16, .integer .u32, .integer .u64]

/-- The texts of five signed integers. -/
def join5 : TypedHandler κ :=
  join [.integer .i8, .integer .i16, .integer .i32, .integer .i64, .integer .isize]

/-- The texts of six different kinds of value. -/
def join6 : TypedHandler κ :=
  join [.bool, .single, .double, .integer .usize, .string, .dynamic]

/-- Fail for a negative number, where the context leads the inputs. -/
def signed : TypedHandler κ :=
  withContext <| plain [.string, .integer .i32] (.valueOrError .string) fun data ↦
    if intAt data 1 < 0 then .error ("negative " ++ stringAt data 0)
    else .ok (joined "|" (textsOf [.string, .integer .i32] data))

/-- Look into a record and a list of records. -/
def shape : TypedHandler κ :=
  withContext <| plain [point, .list point, .bool] (.value .string) fun data ↦
    joined "|"
      (textsOf [.integer .i32] [(datumAt data 0).field "x"] ++ [toString (itemsAt data 1).length] ++
        textsOf [.bool] [datumAt data 2])

/-! ### Collections -/

/-- A point as a datum. -/
def pointDatum (x y : Int) : Datum :=
  .record [("x", .int x), ("y", .int y)]

/-- Points on a line. -/
def line : TypedHandler κ :=
  plain [.integer .u8] (.value (.list point)) fun data ↦
    .list ((List.range (intAt data 0).toNat).map fun (i : Nat) ↦ pointDatum i (2 * i))

/-- The sum of all coordinates. -/
def sumPoints : TypedHandler κ :=
  plain [.list point] (.value (.integer .i64)) fun data ↦
    .int (((itemsAt data 0).map fun p ↦ (p.field "x").asInt + (p.field "y").asInt).foldl (· + ·) 0)

/-- The sum over one field of a list of records. -/
def doors : TypedHandler κ :=
  plain [.list car] (.value (.integer .u64)) fun data ↦
    .int (((itemsAt data 0).map fun c ↦ (c.field "doors").asInt).foldl (· + ·) 0)

/-- The sum of the values of a map, which keeps the low 64 bits. -/
def sumMap : TypedHandler κ :=
  plain [.map .hashed .string (.integer .i64)] (.value (.integer .i64)) fun data ↦
    .int (IntegerKind.i64.wrap (((datumAt data 0).asEntries.map fun e ↦ e.2.asInt).foldl (· + ·) 0))

/-! ### After a call -/

/-- Answer with the text of what ran before. -/
def afterText : TypedHandler κ :=
  plain [.dynamic] (.value .string) fun data ↦ .string ("saw " ++ (valueAt data 0).text)

/-- Note the text of what ran before. -/
def afterLog : TypedHandler κ :=
  noting [.dynamic] fun data _ ↦
    if (valueAt data 0).isUndefined then "undefined" else (valueAt data 0).text

/-- Fail after a call that answered with a certain text. -/
def afterContext : TypedHandler κ :=
  withContext <| plain [.dynamic] .errorOnly fun data ↦
    if (valueAt data 0).text = "reject" then .error "after refused" else .ok ()

/-- A parameter that an after hook may not have. -/
def afterString : TypedHandler κ := plain [.string] .nothing fun _ ↦ ()

/-- More parameters than an after hook may have. -/
def afterTwo : TypedHandler κ := plain [.dynamic, .dynamic] .nothing fun _ ↦ ()

/-! ### The invocation and the ledger -/

/-- Bytes as a datum. -/
def bytesDatum (bytes : List UInt8) : Datum :=
  .list (bytes.map fun b ↦ .int b.toNat)

/-- The channel of the invocation. -/
def channel : TypedHandler κ :=
  onLedger [] (.value .string) fun _ invocation s ↦ (.string invocation.channel, s)

/-- The creator of the invocation. -/
def creator : TypedHandler κ :=
  onLedger [] (.value (.list (.integer .u8))) fun _ invocation s ↦
    (bytesDatum invocation.creator, s)

/-- The function of the invocation and its arguments, as dynamic values. -/
def invoked : TypedHandler κ :=
  onLedger [] (.value (.list .dynamic)) fun _ invocation s ↦
    (.list [.dynamic (.typed .string (.string invocation.function)),
      .dynamic (.typed (.list .string) (.list (invocation.args.map .string)))], s)

/-- Write a text under a key. -/
def put : TypedHandler κ :=
  onLedger [.string, .string] .errorOnly fun data _ s ↦
    match s.ledger.write (stringAt data 0) (Utf8.bytes (stringAt data 1)) with
    | .error e => (.error e.message, s)
    | .ok ledger => (.ok (), { s with ledger := ledger })

/-- Read the bytes under a key, where a missing key reads as no bytes. -/
def get : TypedHandler κ :=
  onLedger [.string] (.valueOrError (.list (.integer .u8))) fun data _ s ↦
    match s.ledger.read (stringAt data 0) with
    | .error e => (.error e.message, s)
    | .ok found => (.ok (bytesDatum (found.getD [])), s)

/-- Remove a key and say whether it was there. -/
def del : TypedHandler κ :=
  onLedger [.string] (.valueOrError .bool) fun data _ s ↦
    match s.ledger.read (stringAt data 0), s.ledger.delete (stringAt data 0) with
    | .ok found, .ok ledger => (.ok (.bool found.isSome), { s with ledger := ledger })
    | .error e, _ | _, .error e => (.error e.message, s)

/-! ### The counter -/

section

variable [Counter κ]

/-- A handler that works with the counter of the context. -/
def onCounter (params : List DataType) (returns : ReturnType)
    (body : List Datum → Session κ → returns.Result × Session κ) : TypedHandler κ where
  takesContext := true
  usesInvocation := false
  params := params
  returns := returns
  body := body

/-- The counter of the context as a datum. -/
def countDatum (s : Session κ) : Datum :=
  .int s.counted.toNat

/-- Count one further. -/
def bump : TypedHandler κ :=
  onCounter [] .nothing fun _ s ↦ ((), s.count 1)

/-- Answer with the counter. -/
def seen : TypedHandler κ :=
  onCounter [] (.value (.integer .u64)) fun _ s ↦ (countDatum s, s)

/-- Count further by a number that is not zero. -/
def bumpBy : TypedHandler κ :=
  onCounter [.integer .u8] (.valueOrError (.integer .u64)) fun data s ↦
    if intAt data 0 = 0 then (.error "nothing to add", s)
    else
      let s := s.count (UInt64.ofNat (intAt data 0).toNat)
      (.ok (countDatum s), s)

/-- Note the counter and the text of what ran before. -/
def seenText : TypedHandler κ :=
  withContext <| noting [.dynamic] fun data s ↦
    "seen " ++ toString s.counted.toNat ++ " data " ++ (valueAt data 0).text

/-! ### Names -/

/-- The handlers with a name of their own. -/
def handlers : List (String × TypedHandler κ) :=
  [("noop", noop), ("hello", hello), ("broken", broken), ("ok_unit", okUnit),
    ("err_unit", errUnit), ("count", one), ("two", two), ("three", three),
    ("two_bad_first", twoBadFirst), ("greet", greet), ("add", add), ("div", divide),
    ("pair", pair), ("join3", join3), ("join4", join4), ("join5", join5), ("join6", join6),
    ("ctx_noop", withContext noop), ("ctx2", signed), ("ctx3", shape),
    ("ctx4", withContext join4), ("ctx5", withContext join5), ("ctx6", withContext join6),
    ("line", line), ("sum_points", sumPoints), ("doors", doors), ("sum_map", sumMap),
    ("after_text", afterText), ("after_log", afterLog), ("after_ctx", afterContext),
    ("after_string", afterString), ("after_two", afterTwo), ("channel", channel),
    ("creator", creator), ("invoked", invoked), ("put", put), ("get", get), ("del", del),
    ("bump", bump), ("seen", seen), ("bump_by", bumpBy), ("seen_text", seenText)]

/-- The handlers that there are for each type. -/
def families : List (String × (DataType → TypedHandler κ)) :=
  [("echo", echo), ("ctx", fun t ↦ withContext (echo t)), ("try", attempt), ("opt", keep),
    ("get", decodeText)]

/-- The handler of a name. -/
def handler? (name : String) : Option (TypedHandler κ) :=
  match handlers.lookup name with
  | some h => some h
  | none =>
    match name.splitOn ":" with
    | [family, type] => do
      let make ← families.lookup family
      return make (← ofName? type)
    | _ => none

end

end Samples

end ContractHost

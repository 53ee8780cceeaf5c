import ContractHost.Proofs.Contract.Registration
import Mathlib.Data.List.Basic

/-!
# What arguments are accepted, and what is said of the others

The strings of a call are read position by position. At one position a string is **accepted** as a
value (`Accepted`) if it is read as that value and the value passes the schema that the metadata
give for the position, and it is **refused** with an error (`Refused`) by the first check that
fails: reading comes first, then writing the value as a document, then the schema, and last the
document against the schema. One string cannot be both, and is always one of them
(`acceptArgument_eq_ok_iff`, `acceptArgument_eq_error_iff`).

**`Function.decodeArguments` succeeds exactly if the counts are right and every position is
accepted, and otherwise reports the first of these that is not so** (`decodeArguments_outcome`):
the number of described parameters, the number of strings, the smallest position that is refused.
Everything rests on what `acceptArguments` does to a list of checks, by induction on the list
(`acceptArguments_eq_ok_iff`, `acceptArguments_eq_error_iff`); that there is one check for each
position, and with the right metadata, is `getElem?_checks`.
-/

namespace ContractHost

variable {κ : Type} {components : Components} {t : DataType} {p : Option Parameter} {raw : String}
  {v : Value} {e : CallError}

/-! ### One position -/

/-- A value passes the schema of a described parameter. -/
def Parameter.Passes (components : Components) (q : Parameter) (v : Value) : Prop :=
  ∃ j schema, v.toJson? = some j ∧ Schema.compile q.schema components = .ok schema ∧
    schema.validate j = []

/-- A string is accepted as a value for a parameter that may be described. -/
structure Accepted (components : Components) (t : DataType) (p : Option Parameter) (raw : String)
    (v : Value) : Prop where
  decodes : decodeArgument t raw = .ok v
  passes : ∀ q, p = some q → q.Passes components v

/-- A string is refused for a parameter that may be described, by the first check that fails. -/
inductive Refused (components : Components) (t : DataType) (p : Option Parameter) (raw : String) :
    CallError → Prop
  | undecodable {e : CallError} (h : decodeArgument t raw = .error e) :
      Refused components t p raw e
  | unwritable {v : Value} {q : Parameter} (hv : decodeArgument t raw = .ok v) (hq : p = some q)
      (h : v.toJson? = none) :
      Refused components t p raw
        (.format raw (t.ty.display ++ " (" ++ v.unwritable ++ ")"))
  | unusable {v : Value} {q : Parameter} {j : Json} {source : SchemaError}
      (hv : decodeArgument t raw = .ok v) (hq : p = some q) (hj : v.toJson? = some j)
      (h : Schema.compile q.schema components = .error source) :
      Refused components t p raw (.invalidSchema q.name source)
  | violated {v : Value} {q : Parameter} {j : Json} {schema : Schema}
      (hv : decodeArgument t raw = .ok v) (hq : p = some q) (hj : v.toJson? = some j)
      (hschema : Schema.compile q.schema components = .ok schema) (h : schema.validate j ≠ []) :
      Refused components t p raw (.paramSchema q.name (schema.validate j))

theorem checkArgument_eq_ok_iff {q : Parameter} :
    checkArgument components q t raw v = .ok () ↔ q.Passes components v := by
  unfold checkArgument Parameter.Passes
  cases v.toJson? with
  | none => simp
  | some j =>
    cases Schema.compile q.schema components with
    | error source => simp
    | ok schema =>
      simp only [Option.some.injEq, Except.ok.injEq, exists_and_left, exists_eq_left']
      cases schema.validate j <;> simp

theorem acceptArgument_eq_ok_iff :
    acceptArgument components t p raw = .ok v ↔ Accepted components t p raw v := by
  unfold acceptArgument
  constructor
  · intro h
    split at h
    · cases h
    · next v' hv' =>
      split at h
      · cases h
        exact ⟨hv', nofun⟩
      · next q =>
        obtain ⟨⟨⟩, hcheck, rfl⟩ := Except.map_eq_ok.1 h
        refine ⟨hv', fun q' hq' ↦ ?_⟩
        cases hq'
        exact checkArgument_eq_ok_iff.1 hcheck
  · rintro ⟨hdecodes, hpasses⟩
    rw [hdecodes]
    cases p with
    | none => rfl
    | some q =>
      have hcheck : checkArgument components q t raw v = .ok () :=
        checkArgument_eq_ok_iff.2 (hpasses q rfl)
      dsimp only
      rw [hcheck]
      rfl

theorem acceptArgument_eq_error_iff :
    acceptArgument components t p raw = .error e ↔ Refused components t p raw e := by
  unfold acceptArgument
  constructor
  · intro h
    split at h
    · next hv =>
      cases h
      exact .undecodable hv
    · next v hv =>
      split at h
      · cases h
      · next q =>
        replace h := Except.map_eq_error.1 h
        unfold checkArgument at h
        split at h
        · next hj =>
          cases h
          exact .unwritable hv rfl hj
        · next j hj =>
          split at h
          · next source hsource =>
            cases h
            exact .unusable hv rfl hj hsource
          · next schema hschema =>
            split at h
            · cases h
            · next hne =>
              cases h
              exact .violated hv rfl hj hschema hne
  · intro h
    cases h with
    | undecodable h => rw [h]
    | unwritable hv hq h =>
      subst hq
      rw [hv]
      simp only [checkArgument, h]
      rfl
    | unusable hv hq hj h =>
      subst hq
      rw [hv]
      simp only [checkArgument, hj, h]
      rfl
    | violated hv hq hj hschema h =>
      subst hq
      rw [hv]
      simp only [checkArgument, hj, hschema]
      rfl

/-! ### A list of checks -/

section Checks

variable {checks : List (DataType × Option Parameter)} {wire : List String} {values : List Value}

/-- The string at a position of a list of checks is accepted as a value. -/
def AcceptedAt (components : Components) (checks : List (DataType × Option Parameter))
    (wire : List String) (i : ℕ) (v : Value) : Prop :=
  ∃ c raw, checks[i]? = some c ∧ wire[i]? = some raw ∧ Accepted components c.1 c.2 raw v

/-- The string at a position of a list of checks is refused with an error. -/
def RefusedAt (components : Components) (checks : List (DataType × Option Parameter))
    (wire : List String) (i : ℕ) (e : CallError) : Prop :=
  ∃ c raw, checks[i]? = some c ∧ wire[i]? = some raw ∧ Refused components c.1 c.2 raw e

/-- **A list of checks succeeds** with one value for each, if all positions are accepted. -/
theorem acceptArguments_eq_ok_iff (hwire : checks.length ≤ wire.length) :
    acceptArguments components checks wire = .ok values ↔
      values.length = checks.length ∧
        ∀ i v, values[i]? = some v → AcceptedAt components checks wire i v := by
  induction checks generalizing wire values with
  | nil =>
    rw [acceptArguments.eq_def, Except.ok.injEq, eq_comm, List.length_nil, List.length_eq_zero_iff,
      iff_self_and]
    rintro rfl i v ⟨⟩
  | cons c rest ih =>
    obtain ⟨t, p⟩ := c
    obtain ⟨raw, wire, rfl⟩ := List.exists_cons_of_length_pos (Nat.lt_of_lt_of_le (by simp) hwire)
    have hwire := Nat.le_of_succ_le_succ hwire
    rw [acceptArguments]
    constructor
    · intro h
      split at h
      · cases h
      · next v hv =>
        obtain ⟨vs, hrest, rfl⟩ := Except.map_eq_ok.1 h
        obtain ⟨hlength, hall⟩ := (ih hwire).1 hrest
        refine ⟨congrArg Nat.succ hlength, fun i v' hi ↦ ?_⟩
        cases i with
        | zero =>
          cases hi
          exact ⟨_, _, rfl, rfl, acceptArgument_eq_ok_iff.1 hv⟩
        | succ i => exact hall i v' hi
    · rintro ⟨hlength, hall⟩
      obtain ⟨v, vs, rfl⟩ := List.exists_cons_of_length_eq_add_one hlength
      obtain ⟨_, _, ⟨⟩, ⟨⟩, hv⟩ := hall 0 v rfl
      have hrest : acceptArguments components rest wire = .ok vs :=
        (ih hwire).2 ⟨Nat.succ.inj hlength, fun i v' hi ↦ hall (i + 1) v' hi⟩
      rw [acceptArgument_eq_ok_iff.2 hv]
      dsimp only
      rw [hrest]
      rfl

/-- **A list of checks fails** at the smallest position that is refused. -/
theorem acceptArguments_eq_error_iff (hwire : checks.length ≤ wire.length) :
    acceptArguments components checks wire = .error e ↔
      ∃ i, RefusedAt components checks wire i e ∧
        ∀ k < i, ∃ v, AcceptedAt components checks wire k v := by
  induction checks generalizing wire with
  | nil =>
    rw [acceptArguments.eq_def]
    refine iff_of_false nofun ?_
    rintro ⟨i, ⟨c, raw, ⟨⟩, -⟩, -⟩
  | cons c rest ih =>
    obtain ⟨t, p⟩ := c
    obtain ⟨raw, wire, rfl⟩ := List.exists_cons_of_length_pos (Nat.lt_of_lt_of_le (by simp) hwire)
    have ih := ih (Nat.le_of_succ_le_succ hwire)
    rw [acceptArguments]
    constructor
    · intro h
      split at h
      · next he =>
        cases h
        exact ⟨0, ⟨_, _, rfl, rfl, acceptArgument_eq_error_iff.1 he⟩,
          fun k hk ↦ absurd hk (by simp)⟩
      · next v hv =>
        obtain ⟨i, hrefused, hbefore⟩ := ih.1 (Except.map_eq_error.1 h)
        refine ⟨i + 1, hrefused, fun k hk ↦ ?_⟩
        cases k with
        | zero => exact ⟨v, _, _, rfl, rfl, acceptArgument_eq_ok_iff.1 hv⟩
        | succ k => exact hbefore k (Nat.lt_of_succ_lt_succ hk)
    · rintro ⟨i, hrefused, hbefore⟩
      cases i with
      | zero =>
        obtain ⟨_, _, ⟨⟩, ⟨⟩, he⟩ := hrefused
        rw [acceptArgument_eq_error_iff.2 he]
      | succ i =>
        obtain ⟨v, _, _, ⟨⟩, ⟨⟩, hv⟩ := hbefore 0 (Nat.succ_pos i)
        have hrest : acceptArguments components rest wire = .error e :=
          ih.2 ⟨i, hrefused, fun k hk ↦ hbefore (k + 1) (Nat.succ_lt_succ hk)⟩
        rw [acceptArgument_eq_ok_iff.2 hv]
        dsimp only
        rw [hrest]
        rfl

/-- Only as many strings are looked at as there are checks. -/
theorem acceptArguments_take_append (extra : List String) (hwire : checks.length ≤ wire.length) :
    acceptArguments components checks (wire.take checks.length ++ extra) =
      acceptArguments components checks wire := by
  induction checks generalizing wire with
  | nil => rw [acceptArguments.eq_def, acceptArguments.eq_def]
  | cons c rest ih =>
    obtain ⟨t, p⟩ := c
    obtain ⟨raw, wire, rfl⟩ := List.exists_cons_of_length_pos (Nat.lt_of_lt_of_le (by simp) hwire)
    rw [List.length_cons, List.take_succ_cons, List.cons_append, acceptArguments, acceptArguments,
      ih (Nat.le_of_succ_le_succ hwire)]

end Checks

/-! ### A whole call -/

/-- What the metadata of a function say of its parameter at a position. -/
def parameterAt? (metadata : Option Transaction) (i : ℕ) : Option Parameter :=
  metadata.bind fun tx ↦ tx.parameters[i]?

namespace Function

variable (f : Function κ) (metadata : Option Transaction) (components : Components)
  (wire : List String)

/-- The metadata, if there are any, describe as many parameters as a function has. -/
def Described : Prop :=
  ∀ tx, metadata = some tx → tx.parameters.length = f.params.length

/-- The string at a position is accepted as a value for the parameter there. -/
def AcceptsAt (i : ℕ) (v : Value) : Prop :=
  ∃ t raw, f.params[i]? = some t ∧ wire[i]? = some raw ∧
    Accepted components t (parameterAt? metadata i) raw v

/-- The string at a position is refused with an error for the parameter there. -/
def RefusesAt (i : ℕ) (e : CallError) : Prop :=
  ∃ t raw, f.params[i]? = some t ∧ wire[i]? = some raw ∧
    Refused components t (parameterAt? metadata i) raw e

/-- The checks of the strings: the type of each parameter, with what the metadata say of it. -/
def checks : List (DataType × Option Parameter) :=
  match metadata with
  | none => f.params.map fun t ↦ (t, none)
  | some tx => f.params.zip (tx.parameters.map some)

variable {f metadata components wire}

/-- There is one check for each parameter, with the metadata of its position. -/
theorem getElem?_checks (h : f.Described metadata) (i : ℕ) :
    (f.checks metadata)[i]? = f.params[i]?.map fun t ↦ (t, parameterAt? metadata i) := by
  cases metadata with
  | none => simp [checks, parameterAt?]
  | some tx =>
    have hlength := h tx rfl
    simp only [checks, parameterAt?, Option.bind_some]
    by_cases hi : i < f.params.length
    · have hi' : i < tx.parameters.length := hlength ▸ hi
      rw [List.getElem?_zip_eq_some (z := (f.params[i], some tx.parameters[i])) |>.2
        ⟨List.getElem?_eq_getElem hi, by simp [hi']⟩]
      simp [hi, hi']
    · have hlast : f.params.length ≤ i := Nat.le_of_not_lt hi
      rw [List.getElem?_eq_none hlast, Option.map_none, List.getElem?_eq_none_iff, List.length_zip]
      omega

theorem length_checks (h : f.Described metadata) :
    (f.checks metadata).length = f.params.length := by
  cases metadata with
  | none => simp [checks]
  | some tx => simp [checks, h tx rfl]

theorem acceptedAt_checks_iff (h : f.Described metadata) {i : ℕ} {v : Value} :
    AcceptedAt components (f.checks metadata) wire i v ↔
      f.AcceptsAt metadata components wire i v := by
  simp only [AcceptedAt, AcceptsAt, getElem?_checks h, Option.map_eq_some_iff]
  constructor
  · rintro ⟨_, raw, ⟨t, ht, rfl⟩, hraw, hv⟩
    exact ⟨t, raw, ht, hraw, hv⟩
  · rintro ⟨t, raw, ht, hraw, hv⟩
    exact ⟨_, raw, ⟨t, ht, rfl⟩, hraw, hv⟩

theorem refusedAt_checks_iff (h : f.Described metadata) {i : ℕ} {e : CallError} :
    RefusedAt components (f.checks metadata) wire i e ↔
      f.RefusesAt metadata components wire i e := by
  simp only [RefusedAt, RefusesAt, getElem?_checks h, Option.map_eq_some_iff]
  constructor
  · rintro ⟨_, raw, ⟨t, ht, rfl⟩, hraw, he⟩
    exact ⟨t, raw, ht, hraw, he⟩
  · rintro ⟨t, raw, ht, hraw, he⟩
    exact ⟨_, raw, ⟨t, ht, rfl⟩, hraw, he⟩

/-! ### The three outcomes -/

/-- Metadata that describe another number of parameters are reported before anything else. -/
theorem decodeArguments_of_not_described {tx : Transaction}
    (h : tx.parameters.length ≠ f.params.length) :
    f.decodeArguments (some tx) components wire =
      .error (.metadataParamCount f.params.length tx.parameters.length) := by
  simp [decodeArguments, h]

/-- Then the number of strings. -/
theorem decodeArguments_of_short (h : f.Described metadata)
    (hwire : wire.length < f.params.length) :
    f.decodeArguments metadata components wire =
      .error (.paramCount f.params.length wire.length) := by
  cases metadata with
  | none => simp [decodeArguments, hwire]
  | some tx => simp [decodeArguments, h tx rfl, hwire]

/-- And then the strings from left to right. -/
theorem decodeArguments_of_described (h : f.Described metadata)
    (hwire : f.params.length ≤ wire.length) :
    f.decodeArguments metadata components wire =
      (acceptArguments components (f.checks metadata) wire).map
        fun values ↦ ⟨f.usesContext, values⟩ := by
  cases metadata with
  | none => simp [decodeArguments, checks, Nat.not_lt.2 hwire]
  | some tx => simp [decodeArguments, checks, h tx rfl, Nat.not_lt.2 hwire]

/-- One of the three decides: the description, the number of strings, the strings. -/
theorem described_cases (f : Function κ) (metadata : Option Transaction) (wire : List String) :
    (∃ tx, metadata = some tx ∧ tx.parameters.length ≠ f.params.length) ∨
      (f.Described metadata ∧ wire.length < f.params.length) ∨
      f.Described metadata ∧ f.params.length ≤ wire.length := by
  by_cases h : f.Described metadata
  · exact .inr ((Nat.lt_or_ge wire.length f.params.length).imp (⟨h, ·⟩) (⟨h, ·⟩))
  · obtain ⟨tx, h⟩ := not_forall.1 h
    exact .inl ⟨tx, Classical.not_imp.1 h⟩

theorem decodeArguments_eq_ok_iff {args : Arguments} :
    f.decodeArguments metadata components wire = .ok args ↔
      f.Described metadata ∧ f.params.length ≤ wire.length ∧
        ∃ values, args = ⟨f.usesContext, values⟩ ∧ values.length = f.params.length ∧
          ∀ i v, values[i]? = some v → f.AcceptsAt metadata components wire i v := by
  rcases described_cases f metadata wire with ⟨tx, rfl, htx⟩ | ⟨h, hshort⟩ | ⟨h, hwire⟩
  · rw [decodeArguments_of_not_described htx]
    exact iff_of_false nofun fun ⟨h, _⟩ ↦ htx (h tx rfl)
  · rw [decodeArguments_of_short h hshort]
    exact iff_of_false nofun fun ⟨_, hwire, _⟩ ↦ Nat.not_le.2 hshort hwire
  · have hchecks : (f.checks metadata).length ≤ wire.length := length_checks h ▸ hwire
    rw [decodeArguments_of_described h hwire, Except.map_eq_ok]
    simp only [acceptArguments_eq_ok_iff hchecks, length_checks h, acceptedAt_checks_iff h]
    constructor
    · rintro ⟨values, ⟨hlength, hall⟩, rfl⟩
      exact ⟨h, hwire, values, rfl, hlength, hall⟩
    · rintro ⟨-, -, values, rfl, hlength, hall⟩
      exact ⟨values, ⟨hlength, hall⟩, rfl⟩

theorem decodeArguments_eq_error_iff :
    f.decodeArguments metadata components wire = .error e ↔
      (∃ tx, metadata = some tx ∧ tx.parameters.length ≠ f.params.length ∧
        e = .metadataParamCount f.params.length tx.parameters.length) ∨
      (f.Described metadata ∧ wire.length < f.params.length ∧
        e = .paramCount f.params.length wire.length) ∨
      f.Described metadata ∧ f.params.length ≤ wire.length ∧
        ∃ i, f.RefusesAt metadata components wire i e ∧
          ∀ k < i, ∃ v, f.AcceptsAt metadata components wire k v := by
  rcases described_cases f metadata wire with ⟨tx, rfl, htx⟩ | ⟨h, hshort⟩ | ⟨h, hwire⟩
  · have hnot : ¬f.Described (some tx) := fun h ↦ htx (h tx rfl)
    rw [decodeArguments_of_not_described htx, Except.error.injEq]
    constructor
    · exact fun he ↦ .inl ⟨tx, rfl, htx, he.symm⟩
    · rintro (⟨tx, ⟨⟩, -, rfl⟩ | ⟨h, -⟩ | ⟨h, -⟩)
      · rfl
      · exact absurd h hnot
      · exact absurd h hnot
  · have hnot : ∀ tx, metadata = some tx → ¬tx.parameters.length ≠ f.params.length :=
      fun tx htx hne ↦ hne (h tx htx)
    rw [decodeArguments_of_short h hshort, Except.error.injEq]
    constructor
    · exact fun he ↦ .inr (.inl ⟨h, hshort, he.symm⟩)
    · rintro (⟨tx, htx, hne, -⟩ | ⟨-, -, rfl⟩ | ⟨-, hwire, -⟩)
      · exact absurd hne (hnot tx htx)
      · rfl
      · exact absurd hwire (Nat.not_le.2 hshort)
  · have hchecks : (f.checks metadata).length ≤ wire.length := length_checks h ▸ hwire
    rw [decodeArguments_of_described h hwire, Except.map_eq_error,
      acceptArguments_eq_error_iff hchecks]
    simp only [refusedAt_checks_iff h, acceptedAt_checks_iff h]
    constructor
    · exact fun hrefused ↦ .inr (.inr ⟨h, hwire, hrefused⟩)
    · rintro (⟨tx, htx, hne, -⟩ | ⟨-, hshort, -⟩ | ⟨-, -, hrefused⟩)
      · exact absurd (h tx htx) hne
      · exact absurd hwire (Nat.not_le.2 hshort)
      · exact hrefused

/-- Strings beyond the last parameter are not looked at. -/
theorem decodeArguments_take_append (extra : List String) (hwire : f.params.length ≤ wire.length) :
    f.decodeArguments metadata components (wire.take f.params.length ++ extra) =
      f.decodeArguments metadata components wire := by
  have hlonger : f.params.length ≤ (wire.take f.params.length ++ extra).length := by
    rw [List.length_append, List.length_take]
    omega
  rcases described_cases f metadata wire with ⟨tx, rfl, htx⟩ | ⟨h, -⟩ | ⟨h, -⟩
  · rw [decodeArguments_of_not_described htx, decodeArguments_of_not_described htx]
  all_goals
    have hchecks : (f.checks metadata).length ≤ wire.length := length_checks h ▸ hwire
    rw [decodeArguments_of_described h hlonger, decodeArguments_of_described h hwire,
      ← length_checks h, acceptArguments_take_append extra hchecks]

/-- **The outcome of reading the strings of a call.** They are accepted exactly if the metadata
describe the parameters, there are enough strings, and each position is accepted; the values are
then given in order, and the context if it is taken. Otherwise the error is that of the metadata, of
the number of strings, or of the smallest position that is refused. Further strings change nothing,
and where there is an error nothing runs and the session is as before, whatever the body. -/
theorem decodeArguments_outcome (f : Function κ) (metadata : Option Transaction)
    (components : Components) (wire : List String) :
    (∀ args, f.decodeArguments metadata components wire = .ok args ↔
      f.Described metadata ∧ f.params.length ≤ wire.length ∧
        ∃ values, args = ⟨f.usesContext, values⟩ ∧ values.length = f.params.length ∧
          ∀ i v, values[i]? = some v → f.AcceptsAt metadata components wire i v) ∧
    (∀ e, f.decodeArguments metadata components wire = .error e ↔
      (∃ tx, metadata = some tx ∧ tx.parameters.length ≠ f.params.length ∧
        e = .metadataParamCount f.params.length tx.parameters.length) ∨
      (f.Described metadata ∧ wire.length < f.params.length ∧
        e = .paramCount f.params.length wire.length) ∨
      f.Described metadata ∧ f.params.length ≤ wire.length ∧
        ∃ i, f.RefusesAt metadata components wire i e ∧
          ∀ k < i, ∃ v, f.AcceptsAt metadata components wire k v) ∧
    (f.params.length ≤ wire.length → ∀ extra s,
      f.decodeArguments metadata components (wire.take f.params.length ++ extra) =
          f.decodeArguments metadata components wire ∧
        f.call metadata components (wire.take f.params.length ++ extra) s =
          f.call metadata components wire s) ∧
    ∀ e, f.decodeArguments metadata components wire = .error e → ∀ (run : Body κ) (s : Session κ),
      ({ f with run := run } : Function κ).call metadata components wire s =
        (.error (.error e), s) := by
  refine ⟨fun args ↦ decodeArguments_eq_ok_iff, fun e ↦ decodeArguments_eq_error_iff,
    fun hwire extra s ↦ ?_, fun e he run s ↦ ?_⟩
  · have hdecode : f.decodeArguments metadata components (wire.take f.params.length ++ extra) =
        f.decodeArguments metadata components wire := decodeArguments_take_append extra hwire
    exact ⟨hdecode, by rw [call, call, hdecode]⟩
  · have hsame : ({ f with run := run } : Function κ).decodeArguments metadata components wire =
        f.decodeArguments metadata components wire := rfl
    rw [call, hsame, he]

/-- A function of two strings. -/
def pair : Function Unit :=
  ⟨"Pair", false, [.string, .string], ⟨none, false⟩, fun _ s ↦ (.ok [], s)⟩

/-- Metadata that allow any first string and only one second string. -/
def secondFixed : Transaction :=
  ⟨[⟨"a", .bool true⟩, ⟨"b", .object [("const", .string "on")]⟩], none, [], "Pair"⟩

/-- The second of two strings is not the one allowed; a third string does not matter, nor what would
run. -/
theorem decodeArguments_outcome_pair :
    ∃ e, pair.decodeArguments (some secondFixed) ∅ ["on", "off"] = .error e ∧
      (∃ i, pair.RefusesAt (some secondFixed) ∅ ["on", "off"] i e ∧
        ∀ k < i, ∃ v, pair.AcceptsAt (some secondFixed) ∅ ["on", "off"] k v) ∧
      pair.params.length ≤ ["on", "off"].length ∧
      pair.decodeArguments (some secondFixed) ∅ ["on", "off", "x"] = .error e ∧
      ∀ run s, ({ pair with run := run } : Function Unit).call (some secondFixed) ∅
        ["on", "off"] s = (.error (.error e), s) := by
  have hrefused : pair.decodeArguments (some secondFixed) ∅ ["on", "off"] =
      .error (.paramSchema "b" [⟨"(root)", "Does not match: \"on\""⟩]) := by cbv
  obtain ⟨-, herror, hextra, hcall⟩ :=
    decodeArguments_outcome pair (some secondFixed) ∅ ["on", "off"]
  refine ⟨_, hrefused, ?_, by decide, ?_, hcall _ hrefused⟩
  · rcases (herror _).1 hrefused with ⟨_, _, _, ⟨⟩⟩ | ⟨_, _, ⟨⟩⟩ | ⟨-, -, h⟩
    exact h
  · rw [← hrefused]
    exact (hextra (by decide) ["x"] ⟨(), none, ∅, []⟩).1

end Function

end ContractHost

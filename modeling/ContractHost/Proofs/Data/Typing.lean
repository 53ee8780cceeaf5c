import ContractHost.Data.Conversion
import ContractHost.Data.Decode

/-!
# Data of a type

A datum **fits** a data type (`Datum.Fits`) if it could be a value of that type: integers are in
range, an array has its length, a record has the fields that are shown, in order. Fitting goes by
the structure of the type and does not look into dynamic data and documents, which fit whatever they
hold.

Both ways in which arguments are read yield data that fit: the conversion of scalars
(`Scalar.convert_fits`) and the reading of JSON (`DataType.decode?_fits`).
-/

namespace ContractHost

-- Powers are the built-in ones, also where another library defines its own.
attribute [local instance (high)] instPowNat

/-! ### Fitting -/

/-- A datum is a value of a scalar type. -/
def Scalar.Fits : Scalar → Datum → Prop
  | .bool, .bool _ => True
  | .string, .string _ => True
  | .integer k, .int n => k.InRange n
  | .single, .single _ => True
  | .double, .double _ => True
  | _, _ => False

/-- A key is a value of a type of keys. -/
def KeyType.Fits : KeyType → MapKey → Prop
  | .string, .string _ => True
  | .integer k, .int n => k.InRange n
  | .signed128, .int n => -2 ^ (127 : Nat) ≤ n ∧ n < 2 ^ (127 : Nat)
  | .unsigned128, .int n => 0 ≤ n ∧ n < 2 ^ (128 : Nat)
  | .bool, .bool _ => True
  | .char, .char _ => True
  | _, _ => False

mutual

/-- A datum is a value of a data type. -/
def Datum.Fits : DataType → Datum → Prop
  | .scalar s, d => s.Fits d
  | .signed128, .int n => -2 ^ (127 : Nat) ≤ n ∧ n < 2 ^ (127 : Nat)
  | .unsigned128, .int n => 0 ≤ n ∧ n < 2 ^ (128 : Nat)
  | .char, .char _ => True
  | .dynamic, .dynamic _ => True
  | .json, .json _ => True
  | .list t, .list items => ∀ d ∈ items, Datum.Fits t d
  | .array t n, .list items => items.length = n ∧ ∀ d ∈ items, Datum.Fits t d
  | .map _ key t, .map entries => ∀ e ∈ entries, key.Fits e.1 ∧ Datum.Fits t e.2
  | .option _, .nil => True
  | .option t, .present d => Datum.Fits t d
  | .record _ fields, .record data => Datum.FitsFields fields data
  | _, _ => False

/-- Data are the shown fields of a record, in order. -/
def Datum.FitsFields : List (Field × DataType) → List (String × Datum) → Prop
  | [], [] => True
  | (⟨_, true⟩, _) :: rest, data => Datum.FitsFields rest data
  | (⟨name, false⟩, t) :: rest, (k, d) :: data =>
    k = name ∧ Datum.Fits t d ∧ Datum.FitsFields rest data
  | _, _ => False

end

/-- Only the dynamic type has dynamic data. -/
theorem Datum.Fits.eq_dynamic {t : DataType} {v : Value} (h : Datum.Fits t (.dynamic v)) :
    t = .dynamic := by
  cases t with
  | scalar s => cases s <;> exact h.elim
  | dynamic => rfl
  | _ => exact h.elim

/-- A value of any other type is wrapped with its type. -/
theorem Value.ofDatum_of_fits {t : DataType} {d : Datum} (h : Datum.Fits t d) :
    t = .dynamic ∨ Value.ofDatum t d = .typed t d := by
  cases d with
  | dynamic v => exact .inl h.eq_dynamic
  | _ => exact .inr rfl

/-! ### Converted scalars -/

theorem Scalar.zero_fits (s : Scalar) : s.Fits s.zero := by
  cases s with
  | integer k =>
    show k.InRange 0
    cases k <;> decide
  | _ => exact trivial

theorem Scalar.read?_fits {s : Scalar} {raw : String} {d : Datum} (h : s.read? raw = some d) :
    s.Fits d := by
  cases s with
  | integer k =>
    obtain ⟨n, -, hn⟩ := Option.bind_eq_some_iff.1 h
    split at hn
    · next hrange =>
      cases hn
      exact hrange
    · cases hn
  | string =>
    cases h
    exact trivial
  | _ =>
    obtain ⟨x, -, rfl⟩ := Option.map_eq_some_iff.1 h
    exact trivial

/-- **A converted scalar fits its type.** -/
theorem Scalar.convert_fits {s : Scalar} {raw : String} {v : Value} (h : s.convert raw = .ok v) :
    ∃ d, v = .typed (.scalar s) d ∧ s.Fits d := by
  unfold Scalar.convert at h
  split at h
  · cases h
    exact ⟨s.zero, rfl, s.zero_fits⟩
  · split at h
    · next d hd =>
      cases h
      exact ⟨d, rfl, Scalar.read?_fits hd⟩
    · cases h

/-! ### Read data -/

theorem Scalar.decode?_fits {s : Scalar} {tree : Json.Tree} {d : Datum}
    (h : s.decode? tree = some d) : s.Fits d := by
  unfold Scalar.decode? at h
  split at h
  · cases h
    exact trivial
  · obtain ⟨x, -, rfl⟩ := Option.map_eq_some_iff.1 h
    exact trivial
  · obtain ⟨i, -, hi⟩ := Option.bind_eq_some_iff.1 h
    split at hi
    · next hrange =>
      cases hi
      exact hrange
    · cases hi
  · obtain ⟨x, -, rfl⟩ := Option.map_eq_some_iff.1 h
    exact trivial
  · obtain ⟨x, -, rfl⟩ := Option.map_eq_some_iff.1 h
    exact trivial
  · cases h

theorem fits_unsigned128 {n : Nat} (h : n < 2 ^ (128 : Nat)) :
    0 ≤ (n : Int) ∧ (n : Int) < 2 ^ (128 : Nat) :=
  ⟨Int.natCast_nonneg n, by omega⟩

theorem KeyType.decode?_fits {key : KeyType} {pieces : List Json.Piece} {k : MapKey}
    (h : key.decode? pieces = some k) : key.Fits k := by
  cases key with
  | string =>
    obtain ⟨x, -, rfl⟩ := Option.map_eq_some_iff.1 h
    exact trivial
  | integer kind =>
    obtain ⟨n, -, hn⟩ := Option.bind_eq_some_iff.1 h
    obtain ⟨i, -, hi⟩ := Option.bind_eq_some_iff.1 hn
    split at hi
    · next hrange =>
      cases hi
      exact hrange
    · cases hi
  | signed128 =>
    obtain ⟨n, -, hn⟩ := Option.bind_eq_some_iff.1 h
    obtain ⟨hrange, hk⟩ := Option.ite_none_right_eq_some.1 hn
    cases hk
    exact hrange.2
  | unsigned128 =>
    obtain ⟨n, -, hn⟩ := Option.bind_eq_some_iff.1 h
    obtain ⟨hrange, hk⟩ := Option.ite_none_right_eq_some.1 hn
    cases hk
    exact fits_unsigned128 hrange.2.2
  | bool =>
    obtain ⟨cs, -, hcs⟩ := Option.bind_eq_some_iff.1 h
    split at hcs
    · cases hcs
      exact trivial
    · split at hcs
      · cases hcs
        exact trivial
      · cases hcs
  | char =>
    obtain ⟨cs, -, hcs⟩ := Option.bind_eq_some_iff.1 h
    split at hcs
    · cases hcs
      exact trivial
    · cases hcs

namespace DataType

theorem decodeAll?_spec {read : Json.Tree → Option Datum} :
    ∀ {trees : List Json.Tree} {items : List Datum}, decodeAll? read trees = some items →
      items.length = trees.length ∧ ∀ d ∈ items, ∃ t, read t = some d
  | [], items, h => by
    cases h
    exact ⟨rfl, fun _ hd ↦ absurd hd List.not_mem_nil⟩
  | t :: rest, items, h => by
    rw [decodeAll?] at h
    split at h
    · cases h
    · next d hd =>
      obtain ⟨ds, hds, rfl⟩ := Option.map_eq_some_iff.1 h
      obtain ⟨hlength, hmem⟩ := decodeAll?_spec hds
      refine ⟨congrArg Nat.succ hlength, fun d' hd' ↦ ?_⟩
      rcases List.mem_cons.1 hd' with rfl | hd'
      · exact ⟨t, hd⟩
      · exact hmem d' hd'

theorem decodeEntries?_spec {key : KeyType} {read : Json.Tree → Option Datum} :
    ∀ {fields : List (List Json.Piece × Json.Tree)} {entries : List (MapKey × Datum)},
      decodeEntries? key read fields = some entries →
        ∀ e ∈ entries, key.Fits e.1 ∧ ∃ t, read t = some e.2
  | [], entries, h => by
    cases h
    exact fun _ he ↦ absurd he List.not_mem_nil
  | (name, t) :: rest, entries, h => by
    rw [decodeEntries?] at h
    split at h
    · next k d hk hd =>
      obtain ⟨es, hes, rfl⟩ := Option.map_eq_some_iff.1 h
      intro e he
      rcases List.mem_cons.1 he with rfl | he
      · exact ⟨KeyType.decode?_fits hk, t, hd⟩
      · exact decodeEntries?_spec hes e he
    · cases h

theorem mem_insertEntry {k : MapKey} {d : Datum} {l : List (MapKey × Datum)} {e : MapKey × Datum}
    (h : e ∈ MapKey.insertEntry k d l) : e = (k, d) ∨ e ∈ l := by
  induction l with
  | nil => simpa [MapKey.insertEntry] using h
  | cons a rest ih =>
    obtain ⟨k', d'⟩ := a
    rw [MapKey.insertEntry] at h
    split at h
    · exact (List.mem_cons.1 h).imp id (List.mem_cons_of_mem _)
    · split at h
      · exact List.mem_cons.1 h
      · rcases List.mem_cons.1 h with rfl | h
        · exact .inr List.mem_cons_self
        · exact (ih h).imp id (List.mem_cons_of_mem _)

/-- Collecting entries by their keys makes up no entries. -/
theorem mem_of_mem_collect {entries : List (MapKey × Datum)} {e : MapKey × Datum}
    (h : e ∈ MapKey.collect entries) : e ∈ entries := by
  have hfold : ∀ (l acc : List (MapKey × Datum)),
      e ∈ l.foldl (fun acc f ↦ MapKey.insertEntry f.1 f.2 acc) acc → e ∈ acc ∨ e ∈ l := by
    intro l
    induction l with
    | nil => exact fun acc h ↦ .inl h
    | cons a rest ih =>
      intro acc h
      rcases ih _ h with h | h
      · rcases mem_insertEntry h with rfl | h
        · exact .inr List.mem_cons_self
        · exact .inl h
      · exact .inr (List.mem_cons_of_mem _ h)
  exact (hfold entries [] h).resolve_left List.not_mem_nil

theorem omitted?_fits {t : DataType} {d : Datum} (h : t.omitted? = some d) : Datum.Fits t d := by
  cases t <;> cases h
  exact trivial

mutual

/-- **What is read as a data type fits it.** -/
theorem decode?_fits : ∀ (t : DataType) {room : Nat} {tree : Json.Tree} {d : Datum},
    t.decode? room tree = some d → Datum.Fits t d
  | .scalar s, _, _, _, h => by
    rw [decode?] at h
    exact Scalar.decode?_fits h
  | .signed128, _, tree, _, h => by
    cases tree <;> simp only [decode?, reduceCtorEq] at h
    obtain ⟨hrange, hd⟩ := Option.ite_none_right_eq_some.1 h
    cases hd
    exact hrange.2
  | .unsigned128, _, tree, _, h => by
    cases tree <;> simp only [decode?, reduceCtorEq] at h
    obtain ⟨hrange, hd⟩ := Option.ite_none_right_eq_some.1 h
    cases hd
    exact fits_unsigned128 hrange.2.2
  | .char, _, tree, _, h => by
    cases tree <;> simp only [decode?, reduceCtorEq] at h
    split at h
    · cases h
      exact trivial
    · cases h
  | .dynamic, _, _, _, h => by
    rw [decode?] at h
    obtain ⟨j, -, rfl⟩ := Option.map_eq_some_iff.1 h
    exact trivial
  | .json, _, _, _, h => by
    rw [decode?] at h
    obtain ⟨j, -, rfl⟩ := Option.map_eq_some_iff.1 h
    exact trivial
  | .list t, room, tree, _, h => by
    cases room <;> cases tree <;> simp only [decode?, reduceCtorEq] at h
    obtain ⟨ds, hds, rfl⟩ := Option.map_eq_some_iff.1 h
    intro d hd
    obtain ⟨tree, htree⟩ := (decodeAll?_spec hds).2 d hd
    exact decode?_fits t htree
  | .array t n, room, tree, _, h => by
    cases room <;> cases tree <;> simp only [decode?, reduceCtorEq] at h
    obtain ⟨hlength, hds⟩ := Option.ite_none_right_eq_some.1 h
    obtain ⟨ds, hall, rfl⟩ := Option.map_eq_some_iff.1 hds
    refine ⟨(decodeAll?_spec hall).1.trans hlength, fun d hd ↦ ?_⟩
    obtain ⟨tree, htree⟩ := (decodeAll?_spec hall).2 d hd
    exact decode?_fits t htree
  | .map _ key t, room, tree, _, h => by
    cases room <;> cases tree <;> simp only [decode?, reduceCtorEq] at h
    obtain ⟨es, hes, rfl⟩ := Option.map_eq_some_iff.1 h
    intro e he
    obtain ⟨hkey, tree, htree⟩ := decodeEntries?_spec hes e (mem_of_mem_collect he)
    exact ⟨hkey, decode?_fits t htree⟩
  | .option t, _, tree, _, h => by
    cases tree with
    | null =>
      simp only [decode?] at h
      cases h
      exact trivial
    | _ =>
      simp only [decode?] at h
      obtain ⟨d, hd, rfl⟩ := Option.map_eq_some_iff.1 h
      exact decode?_fits t hd
  | .record _ fields, room, _, _, h => by
    cases room <;> simp only [decode?, reduceCtorEq] at h
    split at h
    · cases h
    · obtain ⟨data, hdata, rfl⟩ := Option.map_eq_some_iff.1 h
      exact decodeFields?_fits fields hdata

theorem decodeFields?_fits : ∀ (fields : List (Field × DataType)) {room : Nat}
    {slots : List Json.Slot} {data : List (String × Datum)},
    decodeFields? fields room slots = some data → Datum.FitsFields fields data
  | [], _, _, _, h => by
    rw [decodeFields?] at h
    cases h
    exact trivial
  | (⟨_, true⟩, _) :: rest, _, _, _, h => by
    rw [decodeFields?] at h
    rw [Datum.FitsFields]
    exact decodeFields?_fits rest h
  | (⟨name, false⟩, t) :: rest, _, [], _, h => by
    simp only [decodeFields?, reduceCtorEq] at h
  | (⟨name, false⟩, t) :: rest, _, slot :: slots, _, h => by
    simp only [decodeFields?] at h
    split at h
    · cases h
    · next d hd =>
      obtain ⟨data, hdata, rfl⟩ := Option.map_eq_some_iff.1 h
      refine ⟨rfl, ?_, decodeFields?_fits rest hdata⟩
      split at hd
      · exact decode?_fits t hd
      · exact omitted?_fits hd
      · cases hd

end

end DataType

end ContractHost

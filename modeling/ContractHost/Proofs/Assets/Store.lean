import ContractHost.Assets.Basic
import ContractHost.Proofs.Data.RoundTrip
import ContractHost.Proofs.Text.Utf8

/-!
# A ledger as a store of assets

A ledger maps keys to bytes. It is **well formed** if every record is that of an asset, under the
identifier of the asset, and no key is empty (`Assets.WellFormed`). What is then kept on it is a
finite map from identifiers to owners and values, a **store** (`Assets.contents`).

The operations on a ledger keep it well formed, and do to its store what their names say: they read,
add, replace or remove one asset and leave all others alone (`Represents.create`,
`Represents.transfer`, `Represents.remove`). An asset that was written is read as the asset that it
was (`Asset.ofBytes?_toBytes`), so what an operation writes can be read by the next one.
-/

namespace ContractHost

/-! ### Records -/

namespace Asset

theorem discrete_dataType : dataType.Discrete := by
  refine ⟨by decide, ?_, ?_, ?_, trivial⟩ <;> exact ⟨nofun, nofun⟩

theorem fits_toDatum (a : Asset) : Datum.Fits dataType a.toDatum := by
  have hgreatest : IntegerKind.greatest .u64 = 18446744073709551615 := by decide
  have hlt := a.value.toNat_lt
  refine ⟨rfl, trivial, rfl, trivial, rfl, ⟨Int.natCast_nonneg _, ?_⟩, trivial⟩
  rw [hgreatest]
  omega

/-- The record of an asset is written like its document. -/
theorem write?_toDatum (a : Asset) : a.toDatum.write? = some a.toJson.write := rfl

theorem ofDatum?_toDatum (a : Asset) : ofDatum? a.toDatum = some a := by
  show some (Asset.mk a.id a.owner (UInt64.ofNat ((a.value.toNat : ℤ).toNat))) = some a
  rw [Int.toNat_natCast, UInt64.ofNat_toNat]

/-- **An asset that was written is read as itself.** -/
theorem ofBytes?_toBytes (a : Asset) : ofBytes? a.toBytes = some a := by
  have hread : dataType.read? (a.toJson.write.map some) = some a.toDatum :=
    DataType.read?_of_write? discrete_dataType a.fits_toDatum (Nat.one_le_ofNat) a.write?_toDatum
  rw [ofBytes?, toBytes, Utf8.decode_encode, hread]
  exact a.ofDatum?_toDatum

/-- Different assets are written differently. -/
theorem eq_of_toBytes_eq {a b : Asset} (h : a.toBytes = b.toBytes) : a = b := by
  have hread := congrArg ofBytes? h
  rw [ofBytes?_toBytes, ofBytes?_toBytes] at hread
  exact Option.some.inj hread

end Asset

/-! ### Stores -/

namespace KeyMap

variable {α β : Type}

/-- Change every value, and take out the keys whose value has no image. -/
def filterMap (f : α → Option β) (m : KeyMap α) : KeyMap β :=
  ⟨m.entries.filterMap fun e ↦ (f e.2).map (e.1, ·), by
    refine m.sorted.filterMap _ fun a b hlt a' ha b' hb ↦ ?_
    obtain ⟨-, -, rfl⟩ := Option.map_eq_some_iff.1 ha
    obtain ⟨-, -, rfl⟩ := Option.map_eq_some_iff.1 hb
    exact hlt⟩

@[simp] theorem get?_filterMap (f : α → Option β) (m : KeyMap α) (k : String) :
    (m.filterMap f).get? k = (m.get? k).bind f := by
  refine Option.ext fun v ↦ ?_
  rw [get?_eq_some_iff, Option.bind_eq_some_iff, filterMap, List.mem_filterMap]
  simp only [get?_eq_some_iff]
  constructor
  · rintro ⟨⟨k', w⟩, hmem, hw⟩
    obtain ⟨v', hv, heq⟩ := Option.map_eq_some_iff.1 hw
    cases heq
    exact ⟨w, hmem, hv⟩
  · rintro ⟨w, hmem, hv⟩
    exact ⟨(k, w), hmem, by rw [hv]; rfl⟩

end KeyMap

namespace Assets

/-- What is known of an asset besides its identifier. -/
structure Holding where
  owner : String
  value : UInt64
  deriving DecidableEq, Repr

/-- Assets by their identifiers. -/
abbrev Store := KeyMap Holding

end Assets

/-- An asset without its identifier. -/
def Asset.holding (a : Asset) : Assets.Holding :=
  ⟨a.owner, a.value⟩

namespace Assets

variable {ledger : Ledger} {store : Store} {a : Asset} {id : String}

/-- What is kept on a ledger. -/
def contents (ledger : Ledger) : Store :=
  ledger.filterMap fun bytes ↦ (Asset.ofBytes? bytes).map Asset.holding

/-- Every record on a ledger is that of an asset, and is kept under the identifier of the asset,
which is not empty. -/
def WellFormed (ledger : Ledger) : Prop :=
  ∀ key bytes, ledger.get? key = some bytes →
    key ≠ "" ∧ ∃ a, Asset.ofBytes? bytes = some a ∧ a.id = key

/-- A ledger is well formed, and a store is what is kept on it. -/
structure Represents (ledger : Ledger) (store : Store) : Prop where
  wellFormed : WellFormed ledger
  contents : contents ledger = store

namespace Represents

/-- What stands under an identifier: nothing, or the record of an asset. -/
theorem cases (h : Represents ledger store) (id : String) :
    (ledger.get? id = none ∧ store.get? id = none) ∨
      ∃ bytes x, ledger.get? id = some bytes ∧ store.get? id = some x ∧ id ≠ "" ∧
        Asset.ofBytes? bytes = some ⟨id, x.owner, x.value⟩ := by
  have hget : store.get? id =
      (ledger.get? id).bind fun bytes ↦ (Asset.ofBytes? bytes).map Asset.holding := by
    rw [← h.contents, Assets.contents, KeyMap.get?_filterMap]
  cases hbytes : ledger.get? id with
  | none => exact .inl ⟨rfl, by rw [hget, hbytes]; rfl⟩
  | some bytes =>
    obtain ⟨hid, a, ha, rfl⟩ := h.wellFormed id bytes hbytes
    exact .inr ⟨bytes, a.holding, rfl, by rw [hget, hbytes, Option.bind_some, ha]; rfl, hid, ha⟩

theorem isSome_get? (h : Represents ledger store) (id : String) :
    (ledger.get? id).isSome = store.contains id := by
  rw [KeyMap.contains]
  rcases h.cases id with ⟨hnone, hnone'⟩ | ⟨bytes, x, hsome, hsome', -⟩
  · rw [hnone, hnone']
    rfl
  · rw [hsome, hsome']
    rfl

/-- **Writing an asset puts it into the store**, under its own identifier. -/
theorem insert (h : Represents ledger store) (ha : a.id ≠ "") :
    Represents (ledger.insert a.id a.toBytes) (store.insert a.id a.holding) where
  wellFormed key bytes hget := by
    rw [KeyMap.get?_insert] at hget
    split at hget
    · next hkey =>
      cases hget
      exact ⟨hkey ▸ ha, a, a.ofBytes?_toBytes, hkey⟩
    · exact h.wellFormed key bytes hget
  contents := KeyMap.ext_get? fun key ↦ by
    rw [← h.contents, Assets.contents, Assets.contents, KeyMap.get?_filterMap, KeyMap.get?_insert,
      KeyMap.get?_insert, KeyMap.get?_filterMap]
    split
    · rw [Option.bind_some, a.ofBytes?_toBytes]
      rfl
    · rfl

/-- Removing a record takes the asset out of the store. -/
theorem erase (h : Represents ledger store) (id : String) :
    Represents (ledger.erase id) (store.erase id) where
  wellFormed key bytes hget := by
    rw [KeyMap.get?_erase] at hget
    split at hget
    · cases hget
    · exact h.wellFormed key bytes hget
  contents := KeyMap.ext_get? fun key ↦ by
    rw [← h.contents, Assets.contents, Assets.contents, KeyMap.get?_filterMap, KeyMap.get?_erase,
      KeyMap.get?_erase, KeyMap.get?_filterMap]
    split <;> rfl

end Represents

/-! ### Operations on a ledger -/

theorem lookup_of_ne (hid : id ≠ "") : lookup ledger id = .ok (ledger.get? id) := by
  rw [lookup, Ledger.read, Ledger.checkKey, if_neg hid]
  rfl

theorem store_of_ne (ha : a.id ≠ "") :
    Assets.store ledger a = .ok (ledger.insert a.id a.toBytes) := by
  rw [Assets.store, Ledger.write, Ledger.checkKey, if_neg ha]
  rfl

/-- The record of an asset is read as the asset, under whatever key it is kept. -/
theorem fetch_of_get? (hid : id ≠ "") (hget : ledger.get? id = some a.toBytes) :
    fetch ledger id = .ok a := by
  rw [fetch, lookup_of_ne hid, hget]
  dsimp only
  rw [a.ofBytes?_toBytes]

namespace Represents

/-- Whether an asset is there is answered for every identifier that is not empty. -/
theorem isPresent (h : Represents ledger store) (id : String) :
    (id = "" ∧ ∃ e, isPresent ledger id = .error e) ∨
      id ≠ "" ∧ isPresent ledger id = .ok (store.contains id) := by
  by_cases hid : id = ""
  · subst hid
    exact .inl ⟨rfl, _, rfl⟩
  · refine .inr ⟨hid, ?_⟩
    rw [Assets.isPresent, lookup_of_ne hid, ← h.isSome_get?]
    rfl

/-- **Reading gives the asset of the store**, and fails where there is none. -/
theorem fetch (h : Represents ledger store) (id : String) :
    (store.get? id = none ∧ ∃ e, fetch ledger id = .error e) ∨
      ∃ x, store.get? id = some x ∧ id ≠ "" ∧ fetch ledger id = .ok ⟨id, x.owner, x.value⟩ := by
  rcases h.cases id with ⟨hnone, hnone'⟩ | ⟨bytes, x, hsome, hsome', hid, hread⟩
  · refine .inl ⟨hnone', ?_⟩
    by_cases hid : id = ""
    · subst hid
      exact ⟨_, rfl⟩
    · exact ⟨.notFound id, by rw [Assets.fetch, lookup_of_ne hid, hnone]⟩
  · refine .inr ⟨x, hsome', hid, ?_⟩
    rw [Assets.fetch, lookup_of_ne hid, hsome]
    dsimp only
    rw [hread]

/-- **Creating an asset adds it**, if its identifier is not empty and free. -/
theorem create (h : Represents ledger store) (a : Asset) :
    ((a.id = "" ∨ store.contains a.id = true) ∧ ∃ e, create ledger a = .error e) ∨
      ¬(a.id = "" ∨ store.contains a.id = true) ∧
        ∃ ledger', create ledger a = .ok ledger' ∧
          Represents ledger' (store.insert a.id a.holding) := by
  rw [Assets.create]
  rcases h.isPresent a.id with ⟨hid, e, he⟩ | ⟨hid, hpresent⟩
  · rw [he]
    exact .inl ⟨.inl hid, e, rfl⟩
  · rw [hpresent]
    cases hcontains : store.contains a.id with
    | true => exact .inl ⟨.inr rfl, _, rfl⟩
    | false =>
      refine .inr ⟨?_, _, store_of_ne hid, h.insert hid⟩
      rintro (hempty | htrue)
      · exact hid hempty
      · cases htrue

/-- **Transferring an asset changes its owner**, and gives the previous one. -/
theorem transfer (h : Represents ledger store) (id owner : String) :
    (store.get? id = none ∧ ∃ e, transfer ledger id owner = .error e) ∨
      ∃ x, store.get? id = some x ∧ ∃ ledger', transfer ledger id owner = .ok (x.owner, ledger') ∧
        Represents ledger' (store.insert id { x with owner := owner }) := by
  rw [Assets.transfer]
  rcases h.fetch id with ⟨hnone, e, he⟩ | ⟨x, hx, hid, hfetch⟩
  · rw [he]
    exact .inl ⟨hnone, e, rfl⟩
  · rw [hfetch]
    dsimp only
    rw [store_of_ne (a := ⟨id, owner, x.value⟩) hid]
    exact .inr ⟨x, hx, _, rfl, h.insert (a := ⟨id, owner, x.value⟩) hid⟩

/-- **Removing an asset takes it out**, if it is there. -/
theorem remove (h : Represents ledger store) (id : String) :
    (store.get? id = none ∧ ∃ e, remove ledger id = .error e) ∨
      ∃ x, store.get? id = some x ∧ ∃ ledger', remove ledger id = .ok ledger' ∧
        Represents ledger' (store.erase id) := by
  rw [Assets.remove]
  rcases h.fetch id with ⟨hnone, e, he⟩ | ⟨x, hx, hid, hfetch⟩
  · rw [he]
    exact .inl ⟨hnone, e, rfl⟩
  · rw [hfetch]
    dsimp only
    rw [Ledger.delete, Ledger.checkKey, if_neg hid]
    exact .inr ⟨x, hx, _, rfl, h.erase id⟩

end Represents

end Assets

end ContractHost

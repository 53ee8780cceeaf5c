/-!
# Maps keyed by strings

A **key map** holds its entries in ascending order of their keys, each key once; the order of
strings is that of their code points, which is also that of their UTF-8 bytes. The order is part of
the type, so two key maps with the same entries are equal (`KeyMap.ext_get?`) and the listing of a
map needs no sorting.

The view of a map is `KeyMap.get?`; `get?_insert` and `get?_erase` say what the operations do to it.
-/

namespace ContractHost

/-- A finite map from strings, listed in ascending order of keys. -/
structure KeyMap (α : Type) where
  entries : List (String × α)
  sorted : entries.Pairwise fun a b ↦ a.1 < b.1

namespace KeyMap

variable {α β : Type}

/-! ### Lists of entries -/

/-- The value of a key in a list of entries. -/
def lookup (k : String) : List (String × α) → Option α
  | [] => none
  | (k', v) :: rest => if k' = k then some v else lookup k rest

/-- Put an entry into its place. -/
def insertEntry (k : String) (v : α) : List (String × α) → List (String × α)
  | [] => [(k, v)]
  | (k', v') :: rest =>
    if k < k' then (k, v) :: (k', v') :: rest
    else if k = k' then (k, v) :: rest
    else (k', v') :: insertEntry k v rest

theorem mem_insertEntry {k : String} {v : α} {l : List (String × α)} {e : String × α}
    (h : e ∈ insertEntry k v l) : e = (k, v) ∨ e ∈ l := by
  induction l with
  | nil => simpa [insertEntry] using h
  | cons a rest ih =>
    obtain ⟨k', v'⟩ := a
    simp only [insertEntry] at h
    split at h
    · simpa using h
    · split at h
      · rcases List.mem_cons.1 h with rfl | h
        · exact .inl rfl
        · exact .inr (List.mem_cons_of_mem _ h)
      · rcases List.mem_cons.1 h with rfl | h
        · exact .inr (List.mem_cons_self)
        · exact (ih h).imp id (List.mem_cons_of_mem _)

/-- Of two different strings one comes first. -/
theorem lt_of_ne_of_not_lt {a b : String} (hne : a ≠ b) (hlt : ¬a < b) : b < a :=
  Decidable.not_not.1 fun h ↦ hne (String.le_antisymm (String.not_lt.1 h) (String.not_lt.1 hlt))

theorem sorted_insertEntry (k : String) (v : α) {l : List (String × α)}
    (h : l.Pairwise fun a b ↦ a.1 < b.1) :
    (insertEntry k v l).Pairwise fun a b ↦ a.1 < b.1 := by
  induction l with
  | nil => simp [insertEntry]
  | cons a rest ih =>
    obtain ⟨k', v'⟩ := a
    rw [List.pairwise_cons] at h
    simp only [insertEntry]
    split
    · next hlt =>
      refine List.pairwise_cons.2 ⟨fun e he ↦ ?_, List.pairwise_cons.2 h⟩
      rcases List.mem_cons.1 he with rfl | he
      · exact hlt
      · exact String.lt_trans hlt (h.1 e he)
    · next hnlt =>
      split
      · next heq =>
        subst heq
        exact List.pairwise_cons.2 h
      · next hne =>
        refine List.pairwise_cons.2 ⟨fun e he ↦ ?_, ih h.2⟩
        rcases mem_insertEntry he with rfl | he
        · exact lt_of_ne_of_not_lt hne hnlt
        · exact h.1 e he

/-! ### Operations -/

/-- The empty map. -/
def empty : KeyMap α :=
  ⟨[], .nil⟩

instance : EmptyCollection (KeyMap α) :=
  ⟨empty⟩

instance : Inhabited (KeyMap α) :=
  ⟨empty⟩

/-- The value of a key. -/
def get? (m : KeyMap α) (k : String) : Option α :=
  lookup k m.entries

/-- The key has a value. -/
def contains (m : KeyMap α) (k : String) : Bool :=
  (m.get? k).isSome

/-- Give a key a value, instead of the one it may have. -/
def insert (m : KeyMap α) (k : String) (v : α) : KeyMap α :=
  ⟨insertEntry k v m.entries, sorted_insertEntry k v m.sorted⟩

/-- Take a key out. -/
def erase (m : KeyMap α) (k : String) : KeyMap α :=
  ⟨m.entries.filter fun e ↦ e.1 ≠ k, m.sorted.filter _⟩

/-- The keys in ascending order. -/
def keys (m : KeyMap α) : List String :=
  m.entries.map Prod.fst

/-- The values in the order of their keys. -/
def values (m : KeyMap α) : List α :=
  m.entries.map Prod.snd

/-- Change every value. -/
def map (f : α → β) (m : KeyMap α) : KeyMap β :=
  ⟨m.entries.map fun e ↦ (e.1, f e.2), List.pairwise_map.2 m.sorted⟩

/-- Insert entries from left to right, so that the last one of a key stays. -/
def ofList (l : List (String × α)) : KeyMap α :=
  l.foldl (fun m e ↦ m.insert e.1 e.2) empty

/-! ### Their effect on the view -/

theorem lookup_insertEntry (k k' : String) (v : α) (l : List (String × α)) :
    lookup k' (insertEntry k v l) = if k = k' then some v else lookup k' l := by
  induction l with
  | nil => simp [insertEntry, lookup]
  | cons a rest ih =>
    obtain ⟨k₁, v₁⟩ := a
    simp only [insertEntry]
    split
    · simp only [lookup]
    · split
      · next heq =>
        subst heq
        simp only [lookup]
        split <;> rfl
      · next hne =>
        simp only [lookup, ih]
        split
        · next h₁ =>
          subst h₁
          rw [if_neg hne]
        · rfl

@[simp] theorem get?_empty (k : String) : (∅ : KeyMap α).get? k = none := rfl

theorem get?_insert (m : KeyMap α) (k k' : String) (v : α) :
    (m.insert k v).get? k' = if k = k' then some v else m.get? k' :=
  lookup_insertEntry k k' v m.entries

@[simp] theorem get?_insert_self (m : KeyMap α) (k : String) (v : α) :
    (m.insert k v).get? k = some v := by
  simp [get?_insert]

theorem get?_insert_of_ne (m : KeyMap α) {k k' : String} (v : α) (h : k ≠ k') :
    (m.insert k v).get? k' = m.get? k' := by
  simp [get?_insert, h]

theorem lookup_filter (k k' : String) (l : List (String × α)) :
    lookup k' (l.filter fun e ↦ e.1 ≠ k) = if k = k' then none else lookup k' l := by
  induction l with
  | nil => simp [lookup]
  | cons a rest ih =>
    obtain ⟨k₁, v₁⟩ := a
    by_cases h : k₁ = k
    · subst h
      rw [List.filter_cons_of_neg (by simp), ih]
      simp only [lookup]
      split <;> rfl
    · rw [List.filter_cons_of_pos (by simp [h])]
      simp only [lookup, ih]
      split
      · next h₁ =>
        subst h₁
        rw [if_neg (Ne.symm h)]
      · rfl

theorem get?_erase (m : KeyMap α) (k k' : String) :
    (m.erase k).get? k' = if k = k' then none else m.get? k' :=
  lookup_filter k k' m.entries

@[simp] theorem get?_erase_self (m : KeyMap α) (k : String) : (m.erase k).get? k = none := by
  simp [get?_erase]

theorem get?_erase_of_ne (m : KeyMap α) {k k' : String} (h : k ≠ k') :
    (m.erase k).get? k' = m.get? k' := by
  simp [get?_erase, h]

theorem lookup_map (f : α → β) (k : String) (l : List (String × α)) :
    lookup k (l.map fun e ↦ (e.1, f e.2)) = (lookup k l).map f := by
  induction l with
  | nil => rfl
  | cons a rest ih =>
    simp only [List.map_cons, lookup, ih]
    split <;> rfl

@[simp] theorem get?_map (f : α → β) (m : KeyMap α) (k : String) :
    (m.map f).get? k = (m.get? k).map f :=
  lookup_map f k m.entries

@[simp] theorem keys_map (f : α → β) (m : KeyMap α) : (m.map f).keys = m.keys := by
  simp [keys, map, Function.comp_def]

/-! ### Keys -/

theorem exists_lookup_iff {k : String} {l : List (String × α)} :
    (∃ v, lookup k l = some v) ↔ k ∈ l.map Prod.fst := by
  induction l with
  | nil => simp [lookup]
  | cons e rest ih =>
    obtain ⟨k', v'⟩ := e
    rw [List.map_cons, List.mem_cons, ← ih, lookup]
    by_cases hk : k' = k
    · rw [if_pos hk]
      exact iff_of_true ⟨v', rfl⟩ (.inl hk.symm)
    · rw [if_neg hk]
      exact ⟨.inr, fun h ↦ h.resolve_left (Ne.symm hk)⟩

/-- The keys are those that have a value. -/
theorem exists_get?_iff {m : KeyMap α} {k : String} : (∃ v, m.get? k = some v) ↔ k ∈ m.keys :=
  exists_lookup_iff

theorem contains_iff {m : KeyMap α} {k : String} : m.contains k = true ↔ k ∈ m.keys := by
  rw [← exists_get?_iff, contains, Option.isSome_iff_exists]

theorem mem_keys_insert {m : KeyMap α} {k k' : String} {v : α} :
    k' ∈ (m.insert k v).keys ↔ k = k' ∨ k' ∈ m.keys := by
  rw [← exists_get?_iff, ← exists_get?_iff, get?_insert]
  by_cases hk : k = k'
  · rw [if_pos hk]
    exact iff_of_true ⟨v, rfl⟩ (.inl hk)
  · rw [if_neg hk]
    exact ⟨.inr, fun h ↦ h.resolve_left hk⟩

theorem lookup_eq_some_iff {k : String} {v : α} {l : List (String × α)}
    (hl : l.Pairwise fun a b ↦ a.1 < b.1) : lookup k l = some v ↔ (k, v) ∈ l := by
  induction l with
  | nil => simp [lookup]
  | cons e rest ih =>
    obtain ⟨k', v'⟩ := e
    obtain ⟨hfirst, hrest⟩ := List.pairwise_cons.1 hl
    rw [lookup, List.mem_cons]
    by_cases hk : k' = k
    · subst hk
      rw [if_pos rfl]
      refine ⟨fun h ↦ .inl (by rw [Option.some.inj h]), fun h ↦ ?_⟩
      rcases h with h | h
      · rw [(Prod.mk.inj h).2]
      · exact absurd (hfirst _ h) (String.lt_irrefl k')
    · rw [if_neg hk, ih hrest]
      exact ⟨.inr, fun h ↦ h.resolve_left fun heq ↦ hk (Prod.mk.inj heq).1.symm⟩

/-- A key has the value that it is listed with. -/
theorem get?_eq_some_iff {m : KeyMap α} {k : String} {v : α} :
    m.get? k = some v ↔ (k, v) ∈ m.entries :=
  lookup_eq_some_iff m.sorted

theorem nodup_keys (m : KeyMap α) : m.keys.Nodup := by
  refine List.pairwise_map.2 (m.sorted.imp ?_)
  intro a b hlt heq
  rw [heq] at hlt
  exact String.lt_irrefl b.1 hlt

/-! ### Extensionality -/

theorem lookup_eq_none_of_lt {k : String} {l : List (String × α)} (h : ∀ e ∈ l, k < e.1) :
    lookup k l = none := by
  induction l with
  | nil => rfl
  | cons a rest ih =>
    obtain ⟨k', v'⟩ := a
    have hk : k < k' := h _ List.mem_cons_self
    simp only [lookup]
    rw [if_neg fun he : k' = k ↦ String.lt_irrefl k (he ▸ hk)]
    exact ih fun e he ↦ h e (List.mem_cons_of_mem _ he)

theorem entries_eq_of_lookup {l l' : List (String × α)}
    (hl : l.Pairwise fun a b ↦ a.1 < b.1) (hl' : l'.Pairwise fun a b ↦ a.1 < b.1)
    (h : ∀ k, lookup k l = lookup k l') : l = l' := by
  induction l generalizing l' with
  | nil =>
    cases l' with
    | nil => rfl
    | cons b rest =>
      have := h b.1
      simp [lookup] at this
  | cons a rest ih =>
    cases l' with
    | nil =>
      have := h a.1
      simp [lookup] at this
    | cons b rest' =>
      obtain ⟨k, v⟩ := a
      obtain ⟨k', v'⟩ := b
      rw [List.pairwise_cons] at hl hl'
      have hkk : k = k' := by
        refine Decidable.byContradiction fun hne ↦ ?_
        by_cases hlt : k < k'
        · have hk := h k
          have hnone : lookup k ((k', v') :: rest') = none :=
            lookup_eq_none_of_lt fun e he ↦ by
              rcases List.mem_cons.1 he with rfl | he
              · exact hlt
              · exact String.lt_trans hlt (hl'.1 e he)
          rw [hnone] at hk
          simp [lookup] at hk
        · have hgt := lt_of_ne_of_not_lt hne hlt
          have hk := h k'
          have hnone : lookup k' ((k, v) :: rest) = none :=
            lookup_eq_none_of_lt fun e he ↦ by
              rcases List.mem_cons.1 he with rfl | he
              · exact hgt
              · exact String.lt_trans hgt (hl.1 e he)
          rw [hnone] at hk
          simp [lookup] at hk
      subst hkk
      have hv := h k
      simp only [lookup, if_true, Option.some.injEq] at hv
      subst hv
      congr 1
      refine ih hl.2 hl'.2 fun k₁ ↦ ?_
      by_cases hk₁ : k = k₁
      · subst hk₁
        rw [lookup_eq_none_of_lt hl.1, lookup_eq_none_of_lt hl'.1]
      · simpa [lookup, hk₁] using h k₁

/-- **A map is determined by its view.** -/
theorem ext_get? {m m' : KeyMap α} (h : ∀ k, m.get? k = m'.get? k) : m = m' := by
  have := entries_eq_of_lookup m.sorted m'.sorted h
  obtain ⟨e, s⟩ := m
  obtain ⟨e', s'⟩ := m'
  cases this
  rfl

/-- Two maps that have the same keys list them in the same order. -/
theorem keys_ext {m : KeyMap α} {m' : KeyMap β} (h : ∀ k, k ∈ m.keys ↔ k ∈ m'.keys) :
    m.keys = m'.keys := by
  have hview : m.map (fun _ ↦ ()) = m'.map (fun _ ↦ ()) := by
    refine ext_get? fun k ↦ ?_
    have hk := h k
    rw [← exists_get?_iff, ← exists_get?_iff] at hk
    rw [get?_map, get?_map]
    cases hm : m.get? k with
    | some v =>
      obtain ⟨v', hv'⟩ := hk.1 ⟨v, hm⟩
      rw [hv']
      rfl
    | none =>
      cases hm' : m'.get? k with
      | some v' =>
        obtain ⟨v, hv⟩ := hk.2 ⟨v', hm'⟩
        cases hm.symm.trans hv
      | none => rfl
  rw [← keys_map (fun _ ↦ ()) m, hview, keys_map]

end KeyMap

end ContractHost

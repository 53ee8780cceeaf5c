import ContractHost.Proofs.Json.Reading

/-!
# How deeply a text is nested

A reader that gives up names the bracket at which it did (`Json.excess?`). That scan knows nothing
of documents: it counts brackets, and skips strings. Here it is tied to what is written. A text
**nests** `n` levels (`Json.Nests`) if a scan with room for `n` more passes over it, whatever
follows, and a scan with less room stops at one of its columns.

There is one law for each way of putting texts together: side by side the deeper one counts
(`Nests.append`), and brackets add a level (`Nests.enclosed`). At the leaves stand the strings, in
which no bracket counts (`nests_writeString`), and the texts without brackets and quotes.
-/

namespace ContractHost

namespace Json

variable {w w' rest : List Char} {n m room column : ℕ} {c : Char}

theorem byteLength_append (w w' : List Char) :
    byteLength (w ++ w') = byteLength w + byteLength w' := by
  induction w with
  | nil => exact (Nat.zero_add _).symm
  | cons c w ih => rw [List.cons_append, byteLength, ih, byteLength, Nat.add_assoc]

/-! ### One character -/

/-- A character that opens and closes nothing. -/
def Inert (c : Char) : Prop :=
  c ≠ '"' ∧ (c ≠ '[' ∧ c ≠ '\x7b') ∧ c ≠ ']' ∧ c ≠ '\x7d'

theorem excess?_inert (hc : Inert c) :
    excess? false room column (c :: rest) = excess? false room (column + c.utf8Size) rest := by
  obtain ⟨hquote, hopen, hclose⟩ := hc
  rw [excess?, if_neg hquote, if_neg (not_or.2 hopen), if_neg (not_or.2 hclose)]

theorem excess?_quote :
    excess? false room column ('"' :: rest) = excess? true room (column + 1) rest := by
  rw [excess?, if_pos rfl]
  rfl

theorem excess?_open (hc : c = '[' ∨ c = '\x7b') : excess? false room column (c :: rest) =
    if room = 0 then some column else excess? false (room - 1) (column + 1) rest := by
  rcases hc with rfl | rfl <;> rfl

theorem excess?_close (hc : c = ']' ∨ c = '\x7d') :
    excess? false room column (c :: rest) = excess? false (room + 1) (column + 1) rest := by
  rcases hc with rfl | rfl <;> rfl

/-- Inside a string everything but a backslash stands for itself. -/
theorem excess?_quoted (hc : c ≠ '\\') : excess? true room column (c :: rest) =
    excess? (c != '"') room (column + c.utf8Size) rest := by
  rw [excess?]
  rintro _ _ rfl
  exact absurd rfl hc

/-! ### Strings -/

/-- A scan goes over a written character and stays inside the string. -/
theorem excess?_writeChar (c : Char) : excess? true room column (writeChar c ++ rest) =
    excess? true room (column + byteLength (writeChar c)) rest := by
  have hplain : ∀ {c : Char} {column : ℕ} {rest : List Char}, c ≠ '\\' → c ≠ '"' →
      excess? true room column (c :: rest) = excess? true room (column + c.utf8Size) rest := by
    intro c column rest hback hquote
    rw [excess?_quoted hback, bne_iff_ne.2 hquote]
  have hdigit : ∀ n < 16, Hex.digit n ≠ '\\' ∧ Hex.digit n ≠ '"' := by decide
  by_cases hescaped : c ∈ ['"', '\\', '\x08', '\t', '\n', '\x0c', '\r']
  · simp only [List.mem_cons, List.not_mem_nil, or_false] at hescaped
    rcases hescaped with rfl | rfl | rfl | rfl | rfl | rfl | rfl <;> rfl
  · simp only [List.mem_cons, List.not_mem_nil, or_false, not_or] at hescaped
    obtain ⟨hquote, hback, hbell, htab, hline, hfeed, hreturn⟩ := hescaped
    unfold writeChar
    rw [if_neg hquote, if_neg hback, if_neg hbell, if_neg htab, if_neg hline, if_neg hfeed,
      if_neg hreturn]
    split
    · next hlow =>
      obtain ⟨hback₁, hquote₁⟩ := hdigit (c.toNat / 16) (by omega)
      obtain ⟨hback₂, hquote₂⟩ := hdigit (c.toNat % 16) (by omega)
      simp only [List.cons_append, List.nil_append]
      rw [excess?, hplain (by decide) (by decide), hplain (by decide) (by decide),
        hplain hback₁ hquote₁, hplain hback₂ hquote₂]
      simp only [byteLength, Nat.add_assoc, Nat.add_zero]
    · rw [List.singleton_append, hplain hback hquote]
      rfl

theorem excess?_written (cs : List Char) : excess? true room column (cs.flatMap writeChar ++ rest) =
    excess? true room (column + byteLength (cs.flatMap writeChar)) rest := by
  induction cs generalizing column with
  | nil => rfl
  | cons c cs ih =>
    rw [List.flatMap_cons, List.append_assoc, excess?_writeChar, ih, byteLength_append,
      Nat.add_assoc]

/-! ### Texts -/

/-- A text opens `n` lists and objects inside one another, and closes what it opens: a scan with
that much room passes over it, and a scan with less stops inside. -/
structure Nests (w : List Char) (n : ℕ) : Prop where
  passes {room : ℕ} (column : ℕ) (rest : List Char) (h : n ≤ room) :
    excess? false room column (w ++ rest) = excess? false room (column + byteLength w) rest
  stops {room : ℕ} (column : ℕ) (rest : List Char) (h : room < n) :
    ∃ c, excess? false room column (w ++ rest) = some c ∧ column ≤ c ∧ c < column + byteLength w

theorem nests_inert (h : ∀ c ∈ w, Inert c) : Nests w 0 where
  passes {room} column rest _ := by
    induction w generalizing column with
    | nil => rfl
    | cons c w ih =>
      obtain ⟨hc, hw⟩ := List.forall_mem_cons.1 h
      rw [List.cons_append, excess?_inert hc, ih hw, byteLength, Nat.add_assoc]
  stops _ _ h := absurd h (Nat.not_lt_zero _)

/-- **No bracket inside a string counts.** -/
theorem nests_writeString (s : String) : Nests (writeString s) 0 where
  passes {room} column rest _ := by
    have hlength : byteLength (writeString s) =
        1 + byteLength (s.toList.flatMap writeChar) + 1 := by
      rw [writeString, byteLength_append, byteLength]
      rfl
    have htext : writeString s ++ rest =
        '"' :: (s.toList.flatMap writeChar ++ '"' :: rest) := by
      simp [writeString]
    rw [htext, excess?_quote, excess?_written, excess?_quoted (by decide), hlength,
      Nat.add_assoc column, Nat.add_assoc column]
    rfl
  stops _ _ h := absurd h (Nat.not_lt_zero _)

namespace Nests

/-- **Of two texts side by side the deeper one counts.** -/
theorem append (h : Nests w n) (h' : Nests w' m) : Nests (w ++ w') (max n m) where
  passes column rest hroom := by
    rw [List.append_assoc, h.passes _ _ ((le_max_left _ _).trans hroom),
      h'.passes _ _ ((le_max_right _ _).trans hroom), byteLength_append, Nat.add_assoc]
  stops {room} column rest hroom := by
    rw [List.append_assoc, byteLength_append]
    rcases Nat.lt_or_ge room n with hlt | hle
    · obtain ⟨c, hc, hleast, hgreatest⟩ := h.stops column (w' ++ rest) hlt
      exact ⟨c, hc, hleast, by omega⟩
    · have hlt : room < m := (lt_max_iff.1 hroom).resolve_left (Nat.not_lt.2 hle)
      obtain ⟨c, hc, hleast, hgreatest⟩ := h'.stops (column + byteLength w) rest hlt
      exact ⟨c, by rw [h.passes _ _ hle, hc], by omega, by omega⟩

/-- **Brackets around a text add a level.** -/
theorem enclosed {first last : Char} (h : Nests w n) (hopen : first = '[' ∨ first = '\x7b')
    (hclose : last = ']' ∨ last = '\x7d') : Nests (first :: w ++ [last]) (n + 1) := by
  have hsize : first.utf8Size = 1 ∧ last.utf8Size = 1 :=
    ⟨by rcases hopen with rfl | rfl <;> rfl, by rcases hclose with rfl | rfl <;> rfl⟩
  have hlength : byteLength (first :: w ++ [last]) = 1 + byteLength w + 1 := by
    rw [List.cons_append, byteLength, byteLength_append, byteLength, hsize.1, hsize.2, byteLength,
      Nat.add_assoc]
  have htext : ∀ rest, first :: w ++ [last] ++ rest = first :: (w ++ last :: rest) := by simp
  refine ⟨fun {room} column rest hroom ↦ ?_, fun {room} column rest hroom ↦ ?_⟩
  · obtain ⟨room, rfl⟩ := Nat.exists_eq_add_of_le' (Nat.le_of_add_left_le hroom)
    rw [htext, excess?_open hopen, if_neg (Nat.succ_ne_zero _), Nat.add_sub_cancel,
      h.passes _ _ (Nat.le_of_succ_le_succ hroom), excess?_close hclose, hlength]
    simp only [Nat.add_assoc]
  · rw [htext, excess?_open hopen, hlength]
    split
    · exact ⟨column, rfl, le_rfl, by omega⟩
    · have hless : room - 1 < n := by omega
      obtain ⟨c, hc, hleast, hgreatest⟩ := h.stops (column + 1) (last :: rest) hless
      exact ⟨c, hc, by omega, by omega⟩

end Nests

/-- The greatest of some numbers. -/
def deepest (ns : List ℕ) : ℕ :=
  ns.foldr max 0

/-- Of texts with a comma between two, the deepest one counts. -/
theorem nests_commas {ws : List (List Char)} {ns : List ℕ} (h : List.Forall₂ Nests ws ns) :
    Nests (commas ws) (deepest ns) := by
  have hcomma : Nests [','] 0 := nests_inert (by simp [Inert])
  induction h with
  | nil => exact nests_inert (w := []) nofun
  | @cons w n ws ns hw hrest ih =>
    by_cases hnil : ws = []
    · subst hnil
      cases hrest
      rw [commas, deepest, List.foldr_cons, List.foldr_nil, Nat.max_zero]
      exact hw
    · rw [commas_cons hnil]
      have hall := hw.append (hcomma.append ih)
      rwa [Nat.zero_max] at hall

/-! ### Leaves -/

theorem nests_null : Nests (write .null) 0 := by
  rw [write]
  exact nests_inert (by simp [Inert])

theorem nests_bool (b : Bool) : Nests (write (.bool b)) 0 := by
  cases b <;> rw [write] <;> exact nests_inert (by simp [Inert])

theorem inert_of_isDigit (hc : c.isDigit = true) : Inert c :=
  have hne : ∀ d : Char, d ≠ '-' → d.isDigit = false → c ≠ d := fun _ ↦ ne_of_number (.inr hc)
  ⟨hne _ (by decide) rfl, ⟨hne _ (by decide) rfl, hne _ (by decide) rfl⟩, hne _ (by decide) rfl,
    hne _ (by decide) rfl⟩

/-- A number is written without brackets and quotes. -/
theorem nests_spelling {s : Spelling} (hs : s.Valid) : Nests s.text 0 := by
  have hminus : Inert '-' ∧ Inert '.' ∧ Inert 'e' ∧ Inert '+' := by simp [Inert]
  obtain ⟨hminus, hpoint, he, hplus⟩ := hminus
  refine nests_inert fun c hc ↦ ?_
  simp only [Spelling.text, List.mem_append] at hc
  rcases hc with ((hsign | hwhole) | hfraction) | hexponent
  · split at hsign
    · rwa [List.mem_singleton.1 hsign]
    · cases hsign
  · exact inert_of_isDigit (hs.whole c hwhole)
  · unfold Spelling.fractionText at hfraction
    split at hfraction
    · cases hfraction
    · rcases List.mem_cons.1 hfraction with rfl | hfraction
      · exact hpoint
      · exact inert_of_isDigit (hs.fraction c hfraction)
  · unfold Spelling.exponentText at hexponent
    split at hexponent
    · cases hexponent
    · next negative digits hsome =>
      rcases List.mem_cons.1 hexponent with rfl | hexponent
      · exact he
      · rcases List.mem_cons.1 hexponent with rfl | hexponent
        · split
          · exact hminus
          · exact hplus
        · exact inert_of_isDigit ((hs.exponent _ hsome).2 c hexponent)

/-- The text of a member is nested as its value is. -/
theorem Nests.member {m : String × List Char} (h : Nests m.2 n) : Nests (memberText m) n := by
  have hcolon : Nests [':'] 0 := nests_inert (by simp [Inert])
  have hall := (nests_writeString m.1).append (hcolon.append h)
  rwa [Nat.zero_max, Nat.zero_max] at hall

end Json

end ContractHost

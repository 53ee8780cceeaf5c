import ContractHost.Proofs.Json.Numerals
import Mathlib.Data.List.Forall2

/-!
# The tokens of written documents

What is written is taken apart again into the tokens it was put together from: `Json.Lexes` says so
of a text wherever something delimited follows it. Brackets, commas and names are taken care of by
one lemma for each way of putting texts together; at the leaves stand the literals, the numbers and
the strings, of which `text?_pieces` says that their pieces still say the same.
-/

namespace ContractHost

namespace Json

variable {rest : Source}

/-! ### One token -/

/-- The tokens of a source are its first token and those of what is left. -/
theorem tokens?_of_scanToken {c : Char} {after : Source} {t : Token} (hc : isSpace c = false)
    (h : scanToken (some c :: rest) = some (t, after)) :
    tokens? (some c :: rest) = (tokens? after).map (t :: ·) := by
  have hskip : skipSpace (some c :: rest) = some c :: rest := by simp [skipSpace, hc]
  rw [tokens?]
  split
  · next hnil => cases hskip.symm.trans hnil
  · next c' rest' hcons =>
    cases hskip.symm.trans hcons
    split
    · next hnone => cases h.symm.trans hnone
    · next t' after' hsome =>
      cases h.symm.trans hsome
      rfl

theorem tokens?_comma : tokens? (some ',' :: rest) = (tokens? rest).map (.comma :: ·) :=
  tokens?_of_scanToken rfl rfl

theorem tokens?_colon : tokens? (some ':' :: rest) = (tokens? rest).map (.colon :: ·) :=
  tokens?_of_scanToken rfl rfl

theorem tokens?_openList : tokens? (some '[' :: rest) = (tokens? rest).map (.openList :: ·) :=
  tokens?_of_scanToken rfl rfl

theorem tokens?_closeList : tokens? (some ']' :: rest) = (tokens? rest).map (.closeList :: ·) :=
  tokens?_of_scanToken rfl rfl

theorem tokens?_openObject :
    tokens? (some '\x7b' :: rest) = (tokens? rest).map (.openObject :: ·) :=
  tokens?_of_scanToken rfl rfl

theorem tokens?_closeObject :
    tokens? (some '\x7d' :: rest) = (tokens? rest).map (.closeObject :: ·) :=
  tokens?_of_scanToken rfl rfl

/-! ### Strings -/

/-- The piece that a written character is read as. -/
def pieceOf (c : Char) : Piece :=
  if c ∈ ['"', '\\', '\x08', '\t', '\n', '\x0c', '\r'] then .escaped c
  else if c.toNat < 0x20 then .unit c.toNat
  else .plain c

/-- The pieces of a written string. -/
def pieces (s : String) : List Piece :=
  s.toList.map pieceOf

theorem hexUnit?_digits : ∀ n < 0x20,
    hexUnit? '0' '0' (Hex.digit (n / 16)) (Hex.digit (n % 16)) = some n := by
  decide

/-- Every character is read as its piece. -/
theorem scanString_writeChar (c : Char) :
    scanString ((writeChar c).map some ++ rest) = push (pieceOf c) (scanString rest) := by
  -- Seven characters have an escape of their own; the other ones are plain or written by number.
  by_cases hescaped : c ∈ ['"', '\\', '\x08', '\t', '\n', '\x0c', '\r']
  · rw [pieceOf, if_pos hescaped]
    simp only [List.mem_cons, List.not_mem_nil, or_false] at hescaped
    rcases hescaped with rfl | rfl | rfl | rfl | rfl | rfl | rfl <;> rfl
  · rw [pieceOf, if_neg hescaped]
    simp only [List.mem_cons, List.not_mem_nil, or_false, not_or] at hescaped
    obtain ⟨hquote, hback, hbell, htab, hline, hfeed, hreturn⟩ := hescaped
    unfold writeChar
    rw [if_neg hquote, if_neg hback, if_neg hbell, if_neg htab, if_neg hline, if_neg hfeed,
      if_neg hreturn]
    split
    · next hlow =>
      have hunit := hexUnit?_digits c.toNat hlow
      simp only [List.map_cons, List.map_nil, List.cons_append, List.nil_append]
      rw [scanString, hunit]
    · next hlow =>
      simp only [List.map_cons, List.map_nil, List.cons_append, List.nil_append]
      rw [scanString.eq_def]
      split <;> simp_all

/-- The piece of a character says that character. -/
theorem decode?_pieceOf (c : Char) (ps : List Piece) :
    Piece.decode? (pieceOf c :: ps) = (Piece.decode? ps).map (c :: ·) := by
  unfold pieceOf
  split
  · rw [Piece.decode?]
  · split
    · next hlow =>
      have hchar : Char.ofNat c.toNat = c := Char.ofNat_toNat c
      have hunit : ¬(0xD800 ≤ c.toNat ∧ c.toNat < 0xE000) := by omega
      rcases ps with _ | ⟨p | p | p | _, ps⟩ <;> simp [Piece.decode?, hunit, hchar]
    · rw [Piece.decode?]

/-- **The pieces of a written string say that string.** -/
theorem text?_pieces (s : String) : Piece.text? (pieces s) = some s := by
  have hdecode : ∀ cs : List Char, Piece.decode? (cs.map pieceOf) = some cs := by
    intro cs
    induction cs with
    | nil => rfl
    | cons c cs ih => rw [List.map_cons, decode?_pieceOf, ih]; rfl
  rw [Piece.text?, pieces, hdecode, Option.map_some, String.ofList_toList]

theorem scanString_written (cs : List Char) :
    scanString ((cs.flatMap writeChar).map some ++ some '"' :: rest) =
      some (cs.map pieceOf, rest) := by
  induction cs with
  | nil => rfl
  | cons c cs ih =>
    rw [List.flatMap_cons, List.map_append, List.append_assoc, scanString_writeChar, ih]
    rfl

theorem tokens?_writeString (s : String) :
    tokens? ((writeString s).map some ++ rest) =
      (tokens? rest).map (.string (pieces s) :: ·) := by
  have hsource : (writeString s).map some ++ rest =
      some '"' :: ((s.toList.flatMap writeChar).map some ++ some '"' :: rest) := by
    simp [writeString]
  rw [hsource]
  refine tokens?_of_scanToken rfl ?_
  rw [scanToken, scanString_written]
  rfl

theorem writeString_inj {s s' : String} (h : writeString s = writeString s') : s = s' := by
  have htokens : tokens? ((writeString s).map some ++ []) =
      (tokens? []).map (.string (pieces s) :: ·) := tokens?_writeString s
  rw [h, tokens?_writeString] at htokens
  have hpieces : pieces s' = pieces s := by simpa [tokens?, skipSpace] using htokens
  have htext := text?_pieces s
  rw [← hpieces, text?_pieces] at htext
  exact (Option.some.inj htext).symm

/-- Characters that need no escape stand for themselves in a string. -/
theorem writeString_ofList {cs : List Char} (h : ∀ c ∈ cs, writeChar c = [c]) :
    writeString (String.ofList cs) = '"' :: cs ++ ['"'] := by
  have hflat : cs.flatMap writeChar = cs := by
    induction cs with
    | nil => rfl
    | cons c cs ih =>
      rw [List.flatMap_cons, h c List.mem_cons_self, ih fun d hd ↦ h d (.tail _ hd)]
      rfl
  rw [writeString, String.toList_ofList, hflat]

/-- The characters that a number starts with are no others. -/
theorem ne_of_number {c d : Char} (hc : c = '-' ∨ c.isDigit = true) (hminus : d ≠ '-')
    (hd : d.isDigit = false) : c ≠ d := by
  rintro rfl
  rcases hc with rfl | hc
  · exact hminus rfl
  · cases hc.symm.trans hd

theorem writeChar_of_isDigit {c : Char} (h : c.isDigit = true) : writeChar c = [c] := by
  have hrange : 48 ≤ c.toNat := by
    simp only [Char.isDigit, Bool.and_eq_true, decide_eq_true_eq] at h
    exact h.1
  have hne : ∀ d : Char, d ≠ '-' → d.isDigit = false → c ≠ d := fun d ↦ ne_of_number (.inr h)
  unfold writeChar
  rw [if_neg (hne _ (by decide) rfl), if_neg (hne _ (by decide) rfl),
    if_neg (hne _ (by decide) rfl), if_neg (hne _ (by decide) rfl),
    if_neg (hne _ (by decide) rfl), if_neg (hne _ (by decide) rfl),
    if_neg (hne _ (by decide) rfl), if_neg (by omega)]

/-! ### Texts -/

/-- A text is taken apart into tokens, wherever it is followed by something delimited. -/
def Lexes (w : List Char) (ts : List Token) : Prop :=
  ∀ rest, Delimited rest → tokens? (w.map some ++ rest) = (tokens? rest).map (ts ++ ·)

theorem lexes_nil : Lexes [] [] :=
  fun _ _ ↦ by simp

theorem lexes_null : Lexes ['n', 'u', 'l', 'l'] [.null] :=
  fun _ _ ↦ tokens?_of_scanToken rfl rfl

theorem lexes_true : Lexes ['t', 'r', 'u', 'e'] [.bool true] :=
  fun _ _ ↦ tokens?_of_scanToken rfl rfl

theorem lexes_false : Lexes ['f', 'a', 'l', 's', 'e'] [.bool false] :=
  fun _ _ ↦ tokens?_of_scanToken rfl rfl

theorem lexes_writeString (s : String) : Lexes (writeString s) [.string (pieces s)] :=
  fun _ _ ↦ tokens?_writeString s

/-- A number starts with a minus sign or a digit, and no other token does. -/
theorem scanToken_number {c : Char} {source : Source} (hc : c = '-' ∨ c.isDigit = true)
    (hsource : source = some c :: rest) :
    scanToken source = (scanNumeral source).map fun (n, r) ↦ (.number n, r) := by
  unfold scanToken
  split
  case h_11 => rfl
  all_goals
    cases hsource
    exact absurd rfl (ne_of_number hc (by decide) rfl)

theorem lexes_spelling {s : Spelling} (hs : s.Valid) : Lexes s.text [.number s.numeral] := by
  intro rest hrest
  obtain ⟨c, tail, htail, hc⟩ : ∃ c tail, s.text = c :: tail ∧ (c = '-' ∨ c.isDigit = true) := by
    unfold Spelling.text
    cases s.negative with
    | true => exact ⟨'-', _, rfl, .inl rfl⟩
    | false =>
      obtain ⟨d, whole, hwhole, hd⟩ := hs.whole_eq_cons
      rw [hwhole]
      exact ⟨d, _, rfl, .inr hd⟩
  have hsource : s.text.map some ++ rest = some c :: (tail.map some ++ rest) := by rw [htail]; rfl
  have hspace : isSpace c = false := by
    have hne : ∀ d : Char, d ≠ '-' → d.isDigit = false → (c == d) = false :=
      fun d hminus hd ↦ beq_eq_false_iff_ne.2 (ne_of_number hc hminus hd)
    unfold isSpace
    rw [hne _ (by decide) rfl, hne _ (by decide) rfl, hne _ (by decide) rfl,
      hne _ (by decide) rfl]
    rfl
  have hscan : scanToken (some c :: (tail.map some ++ rest)) = some (.number s.numeral, rest) := by
    rw [scanToken_number hc rfl, ← hsource, scanNumeral_text hs hrest]
    rfl
  rw [hsource]
  exact tokens?_of_scanToken hspace hscan

namespace Lexes

variable {w w' : List Char} {ts ts' : List Token}

theorem list (h : Lexes w ts) : Lexes ('[' :: w ++ [']']) (.openList :: ts ++ [.closeList]) := by
  intro rest _
  have hsource : ('[' :: w ++ [']']).map some ++ rest =
      some '[' :: (w.map some ++ some ']' :: rest) := by simp
  rw [hsource, tokens?_openList, h _ (delimited_cons (.inr (.inl rfl))), tokens?_closeList]
  cases tokens? rest <;> simp

theorem object (h : Lexes w ts) :
    Lexes ('\x7b' :: w ++ ['\x7d']) (.openObject :: ts ++ [.closeObject]) := by
  intro rest _
  have hsource : ('\x7b' :: w ++ ['\x7d']).map some ++ rest =
      some '\x7b' :: (w.map some ++ some '\x7d' :: rest) := by simp
  rw [hsource, tokens?_openObject, h _ (delimited_cons (.inr (.inr rfl))), tokens?_closeObject]
  cases tokens? rest <;> simp

theorem comma (h : Lexes w ts) (h' : Lexes w' ts') :
    Lexes (w ++ ',' :: w') (ts ++ .comma :: ts') := by
  intro rest hrest
  have hsource : (w ++ ',' :: w').map some ++ rest =
      w.map some ++ some ',' :: (w'.map some ++ rest) := by simp
  rw [hsource, h _ (delimited_cons (.inl rfl)), tokens?_comma, h' rest hrest]
  cases tokens? rest <;> simp

theorem member (name : String) (h : Lexes w ts) :
    Lexes (writeString name ++ ':' :: w) (.string (pieces name) :: .colon :: ts) := by
  intro rest hrest
  have hsource : (writeString name ++ ':' :: w).map some ++ rest =
      (writeString name).map some ++ some ':' :: (w.map some ++ rest) := by simp
  rw [hsource, tokens?_writeString, tokens?_colon, h rest hrest]
  cases tokens? rest <;> simp

end Lexes

end Json

end ContractHost

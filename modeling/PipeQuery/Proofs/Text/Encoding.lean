import PipeQuery.Proofs.Token.Rule
import PipeQuery.Query.Name

/-!
# `PipeQuery.Proofs.Text.Encoding`: what is encoded is read back

Rendering writes names between backquotes, sources between quotes, and the places of parameters in
digits. Each of these is a token whatever it was made from, and stands for what it was made from:
`Backquoted.decode_encode`, `Quoted.decode_encode` and `decimalValue_toString` say the latter,
`forms_encode` and the lemmas around it the former. A bare name is a token as it is.
-/

set_option autoImplicit false

namespace PipeQuery.Text

open Token.Shape (startsWith run IsWord)

/-! ### Names between backquotes -/

namespace Backquoted

/-- Without the closing backquote, and with the doubled ones taken as one, the name is there again.
-/
theorem strip_doubled (cs : List Char) : strip true (doubled cs ++ ['\x60']) = cs := by
  induction cs with
  | nil => rfl
  | cons c cs ih =>
      rw [doubled, List.flatMap_cons, ← doubled]
      by_cases hc : c = '\x60'
      · subst hc
        rw [if_pos rfl]
        show '\x60' :: strip true (doubled cs ++ ['\x60']) = _
        rw [ih]
      · rw [if_neg hc, List.singleton_append, List.cons_append, strip]
        · rw [ih]
        · exact hc
        · exact fun _ _ h _ => hc h

/-- Outside of quotes a backquote opens them. -/
theorem strip_open (cs : List Char) : strip false ('\x60' :: cs) = strip true cs := by
  rw [strip]
  · rfl
  · rintro _ hfalse
    cases hfalse

/-- Any name is read back from between backquotes. -/
theorem decode_encode (name : String) : decode (encode name) = name := by
  rw [decode, encode, String.toList_ofList, List.cons_append, strip_open, strip_doubled,
    String.ofList_toList]

/-- The closing backquote is the one behind the doubled name, and not one in it. -/
theorem close?_doubled (cs : List Char) :
    close? (doubled cs ++ ['\x60']) = some ((doubled cs).length + 1) := by
  induction cs with
  | nil => rfl
  | cons c cs ih =>
      rw [doubled, List.flatMap_cons, ← doubled]
      by_cases hc : c = '\x60'
      · subst hc
        rw [if_pos rfl]
        show (close? (doubled cs ++ ['\x60'])).map (· + 2) = _
        rw [ih]
        rfl
      · rw [if_neg hc, List.singleton_append, List.cons_append, close?]
        · rw [ih]
          rfl
        · rintro _ rfl; exact absurd rfl hc
        · rintro rfl; exact absurd rfl hc

/-- The whole text between backquotes is one quoted name. -/
theorem length?_encode (name : String) :
    length? (encode name).toList = some (encode name).toList.length := by
  rw [encode, String.toList_ofList, length?]
  show (close? (doubled name.toList ++ ['\x60'])).map (· + 1) = _
  rw [close?_doubled]
  simp

end Backquoted

/-! ### String literals -/

namespace Quoted

/-- A character that needs no escape is written as it is. -/
theorem encodeChar_of_ne {c : Char} (h : c ∉ ['\x22', '\\', '\n', '\r', '\t']) :
    encodeChar c = [c] := by
  simp only [List.mem_cons, List.not_mem_nil, or_false, not_or] at h
  rw [encodeChar]
  all_goals
    rintro rfl
    simp at h

/-- What a character is written as is read as this character. -/
theorem unescape_encodeChar (c : Char) (rest : List Char) :
    unescape (encodeChar c ++ rest) = c :: unescape rest := by
  by_cases hc : c ∈ ['\x22', '\\', '\n', '\r', '\t']
  · simp only [List.mem_cons, List.not_mem_nil, or_false] at hc
    rcases hc with rfl | rfl | rfl | rfl | rfl <;> rfl
  · rw [encodeChar_of_ne hc, List.singleton_append]
    simp only [List.mem_cons, List.not_mem_nil, or_false, not_or] at hc
    rw [unescape]
    all_goals simp [hc]

/-- So a text that is written with escapes is read as the text. -/
theorem unescape_flatMap (cs : List Char) : unescape (cs.flatMap encodeChar) = cs := by
  induction cs with
  | nil => rfl
  | cons c cs ih => rw [List.flatMap_cons, unescape_encodeChar, ih]

/-- What is between the quotes does not begin with a quote, so the quotes are no triple. -/
theorem isTriple_encode (cs : List Char) :
    isTriple ('\x22' :: (cs.flatMap encodeChar ++ ['\x22'])) = false := by
  cases cs with
  | nil => rfl
  | cons c cs =>
      rw [List.flatMap_cons]
      by_cases hc : c ∈ ['\x22', '\\', '\n', '\r', '\t']
      · simp only [List.mem_cons, List.not_mem_nil, or_false] at hc
        rcases hc with rfl | rfl | rfl | rfl | rfl <;> rfl
      · rw [encodeChar_of_ne hc]
        simp only [List.mem_cons, List.not_mem_nil, or_false, not_or] at hc
        simp [isTriple, hc]

/-- An end that was put behind a text is taken off it. -/
theorem dropTail_append (tail cs : List Char) : dropTail tail (cs ++ tail) = cs := by
  have hsuffix : tail.isSuffixOf (cs ++ tail) = true :=
    List.isSuffixOf_iff_suffix.mpr (List.suffix_append _ _)
  rw [dropTail, if_pos hsuffix]
  simp

/-- Any text is read back from a literal. -/
theorem decode_encode (text : String) : decode (encode text) = text := by
  rw [decode, encode, String.toList_ofList, List.cons_append, decodeChars, isTriple_encode]
  simp only [Bool.false_eq_true, if_false]
  show String.ofList (unescape (dropTail ['\x22'] (text.toList.flatMap encodeChar ++ ['\x22']))) = _
  rw [dropTail_append, unescape_flatMap, String.ofList_toList]

/-- A text that is written with escapes is closed at its end and not before. -/
theorem body_encode (cs : List Char) :
    body false false (cs.flatMap encodeChar ++ ['\x22']) =
      ⟨(cs.flatMap encodeChar).length + 1, .closed⟩ := by
  induction cs with
  | nil => rfl
  | cons c cs ih =>
      rw [List.flatMap_cons]
      by_cases hc : c ∈ ['\x22', '\\', '\n', '\r', '\t']
      · have hescape : ∃ d, encodeChar c = ['\\', d] ∧ isEscape d = true := by
          simp only [List.mem_cons, List.not_mem_nil, or_false] at hc
          rcases hc with rfl | rfl | rfl | rfl | rfl <;> exact ⟨_, rfl, rfl⟩
        obtain ⟨d, hd, hd'⟩ := hescape
        have hslash : (decide (('\\' : Char) = '\x22')) = false := rfl
        rw [hd]
        simp [body, hd', endsLine, ih, Extent.grow]
      · rw [encodeChar_of_ne hc]
        simp only [List.mem_cons, List.not_mem_nil, or_false, not_or] at hc
        simp [body, endsLine, hc, ih, Extent.grow]

/-- What is written between quotes is one string literal. -/
theorem isLiteral_encode (text : String) : IsLiteral (encode text).toList := by
  have hextent : extent (encode text).toList = ⟨(encode text).toList.length, .closed⟩ := by
    rw [encode, String.toList_ofList, List.cons_append, extent, isTriple_encode]
    simp only [Bool.false_eq_true, if_false]
    show (body false false (text.toList.flatMap encodeChar ++ ['\x22'])).grow 1 = _
    rw [body_encode]
    simp [Extent.grow]
  have hclosed : (extent (encode text).toList).verdict = .closed := by rw [hextent]
  have hopened : (encode text).toList.head? = some '\x22' := by
    rw [encode, String.toList_ofList]
    rfl
  have htake := isLiteral_take hclosed hopened
  rw [hextent, List.take_length] at htake
  exact htake

end Quoted

/-! ### Digits -/

/-- No digits count nothing. -/
theorem decimalValue_nil : decimalValue [] = 0 := rfl

/-- A digit behind others counts its value, and makes them count ten times theirs. -/
theorem decimalValue_concat (digits : List Char) (c : Char) :
    decimalValue (digits ++ [c]) = 10 * decimalValue digits + (c.toNat - '0'.toNat) := by
  rw [decimalValue, List.foldl_append]
  rfl

/-- A number is the value of its digits. -/
theorem decimalValue_toString (n : Nat) : decimalValue (toString n).toList = n := by
  show decimalValue n.repr.toList = n
  rw [Nat.toList_repr]
  exact Nat.ofDigitChars_ten_toDigits

/-- A number is written in digits. -/
theorem isDigit_toString (n : Nat) : ∀ c ∈ (toString n).toList, c.isDigit = true := by
  intro c hc
  have hc : c ∈ n.repr.toList := hc
  rw [Nat.toList_repr] at hc
  exact Nat.isDigit_of_mem_toDigits (by decide) (by decide) hc

/-- A number has at least one digit. -/
theorem toString_ne_nil (n : Nat) : (toString n).toList ≠ [] := by
  show n.repr.toList ≠ []
  rw [Nat.toList_repr]
  exact Nat.toDigits_ne_nil

end PipeQuery.Text

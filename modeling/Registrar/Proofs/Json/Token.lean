import Registrar.Proofs.Json.Quoted
import Registrar.Proofs.Text.Decimal

/-!
# What tokens are written as

`Spells text ts rest`: in front of `rest` a text is cut into the tokens `ts`.  Texts that spell
tokens are put together by `Spells.append`, and a whole text spells its `tokens`
(`Spells.tokens_eq`).

Every token has its own lemma that says what it is written as: brackets and words, strings
(`spells_quote`) and natural numbers (`spells_toString`).  A number needs an end, as digits behind
it would belong to it; behind a value that end is a comma or a closing bracket (`EndsValue`).
-/

namespace Registrar.Json

open Text

namespace Token

/-- In front of the rest the text is cut into these tokens, whatever has been found before. -/
def Spells (text : Bytes) (ts : List Token) (rest : Bytes) : Prop :=
  ∀ found bound, (text ++ rest).length ≤ bound →
    ∃ bound', rest.length ≤ bound' ∧
      tokensAfter found bound (text ++ rest) = tokensAfter (ts.reverse ++ found) bound' rest

theorem Spells.nil (rest : Bytes) : Spells [] [] rest :=
  fun _ bound hbound => ⟨bound, hbound, rfl⟩

theorem Spells.append {text text' rest : Bytes} {ts ts' : List Token}
    (h : Spells text ts (text' ++ rest)) (h' : Spells text' ts' rest) :
    Spells (text ++ text') (ts ++ ts') rest := by
  intro found bound hbound
  -- Every step takes at least a byte, so that what is left of the bound is enough for the rest.
  rw [List.append_assoc] at hbound ⊢
  obtain ⟨bound', hbound', htokens⟩ := h found bound hbound
  obtain ⟨bound'', hbound'', htokens'⟩ := h' (ts.reverse ++ found) bound' hbound'
  refine ⟨bound'', hbound'', ?_⟩
  rw [htokens, htokens', List.reverse_append, List.append_assoc]

theorem Spells.tokens_eq {text : Bytes} {ts : List Token} (h : Spells text ts []) :
    tokens text = ts := by
  obtain ⟨bound, -, htokens⟩ := h [] text.length (by simp)
  rw [List.append_nil, List.append_nil] at htokens
  rw [tokens, htokens]
  cases bound <;> simp [tokensAfter]

/-- A token is spelled by what the scanner takes of it. -/
theorem spells_of_scan {b : UInt8} {text rest : Bytes} {t : Token} (hspace : isSpaceByte b = false)
    (hscan : scan b (text ++ rest) = (t, rest)) : Spells (b :: text) [t] rest := by
  intro found bound hbound
  obtain ⟨bound, rfl⟩ : ∃ k, bound = k + 1 := ⟨bound - 1, by simp at hbound; omega⟩
  refine ⟨bound, by simp at hbound; omega, ?_⟩
  have hdrop : (b :: (text ++ rest)).dropWhile isSpaceByte = b :: (text ++ rest) := by
    rw [List.dropWhile_cons, hspace]
    rfl
  rw [List.cons_append, tokensAfter, hdrop]
  simp only [hscan]
  rfl

/-! ### Brackets and words -/

theorem spells_openBracket (rest : Bytes) : Spells [0x5B] [.openBracket] rest :=
  spells_of_scan rfl rfl

theorem spells_closeBracket (rest : Bytes) : Spells [0x5D] [.closeBracket] rest :=
  spells_of_scan rfl rfl

theorem spells_openBrace (rest : Bytes) : Spells [0x7B] [.openBrace] rest :=
  spells_of_scan rfl rfl

theorem spells_closeBrace (rest : Bytes) : Spells [0x7D] [.closeBrace] rest :=
  spells_of_scan rfl rfl

theorem spells_comma (rest : Bytes) : Spells [0x2C] [.comma] rest :=
  spells_of_scan rfl rfl

theorem spells_colon (rest : Bytes) : Spells [0x3A] [.colon] rest :=
  spells_of_scan rfl rfl

theorem scanWord_append (word : Token) (letters rest : Bytes) :
    scanWord word letters (letters ++ rest) = (word, rest) := by
  induction letters with
  | nil => rfl
  | cons l letters ih => rw [List.cons_append, scanWord, if_pos (beq_self_eq_true l), ih]

theorem spells_null (rest : Bytes) : Spells (bytes "null") [.null] rest :=
  spells_of_scan rfl (scanWord_append .null (bytes "ull") rest)

theorem spells_true (rest : Bytes) : Spells (bytes "true") [.boolean true] rest :=
  spells_of_scan rfl (scanWord_append (.boolean true) (bytes "rue") rest)

theorem spells_false (rest : Bytes) : Spells (bytes "false") [.boolean false] rest :=
  spells_of_scan rfl (scanWord_append (.boolean false) (bytes "alse") rest)

/-! ### Strings -/

theorem spells_quote (s : String) (rest : Bytes) :
    Spells (bytes (quote s)) [.string (escaped s)] rest := by
  rw [bytes_quote]
  refine spells_of_scan rfl ?_
  rw [List.append_assoc]
  exact scanString_escaped s rest

/-! ### Natural numbers -/

/-- A value ends here: what follows it, if anything does, is a comma or a closing bracket. -/
def EndsValue (bs : Bytes) : Prop :=
  ∀ b ∈ bs.head?, b = 0x2C ∨ b = 0x5D ∨ b = 0x7D

theorem endsValue_nil : EndsValue [] :=
  fun _ hb => absurd hb (by simp)

theorem endsValue_cons {b : UInt8} (h : b = 0x2C ∨ b = 0x5D ∨ b = 0x7D) (rest : Bytes) :
    EndsValue (b :: rest) := by
  rintro _ ⟨⟩
  exact h

theorem isDigitByte_asciiByte {c : Char} (h : c.isDigit = true) :
    isDigitByte (asciiByte c) = true := by
  simp only [isDigitByte, Bool.and_eq_true, decide_eq_true_eq, UInt8.le_iff_toNat_le,
    toNat_asciiByte (lt_of_isDigit h)]
  exact isDigit_iff.mp h

theorem bytes_toString (n : Nat) : bytes (toString n) = (Nat.toDigits 10 n).map asciiByte := by
  rw [Nat.toString_eq_ofList_toDigits, bytes_ofList]
  exact flatMap_utf8EncodeChar_of_lt fun c hc => lt_of_isDigit (isDigit_of_mem_toDigits hc)

/-- Only the digits of zero begin with a zero. -/
theorem eq_zero_of_toDigits_eq {n : Nat} {ds : List Char} (h : Nat.toDigits 10 n = '0' :: ds) :
    n = 0 := by
  induction n using Nat.strongRecOn generalizing ds with
  | _ n ih =>
    by_cases hlt : n < 10
    · have hvalue : n = Nat.ofDigitChars 10 (Nat.toDigits 10 n) 0 :=
        Nat.ofDigitChars_ten_toDigits.symm
      rw [Nat.toDigits_of_lt_base hlt] at h hvalue
      rw [(List.cons.inj h).1] at hvalue
      exact hvalue
    · -- The first digit is also the first one of a tenth of the number.
      rw [Nat.toDigits_of_base_le (by decide) (Nat.not_lt.mp hlt)] at h
      obtain ⟨d, front, hfront⟩ :=
        List.exists_cons_of_ne_nil (Nat.toDigits_ne_nil (n := n / 10) (b := 10))
      rw [hfront] at h
      obtain ⟨rfl, -⟩ := List.cons.inj h
      have := ih (n / 10) (by omega) hfront
      omega

/-- The digits of a number are scanned up to its end. -/
theorem scanDigits_toDigits (n : Nat) {rest : Bytes} (hrest : EndsValue rest) :
    scanDigits ((Nat.toDigits 10 n).map asciiByte ++ rest) = .ok (Nat.toDigits 10 n, rest) := by
  have hdigits : ∀ b ∈ (Nat.toDigits 10 n).map asciiByte, isDigitByte b = true := by
    intro b hb
    obtain ⟨c, hc, rfl⟩ := List.mem_map.mp hb
    exact isDigitByte_asciiByte (isDigit_of_mem_toDigits hc)
  have hstop : rest.takeWhile isDigitByte = [] ∧ rest.dropWhile isDigitByte = rest := by
    cases rest with
    | nil => exact ⟨rfl, rfl⟩
    | cons b bs => rcases hrest b rfl with rfl | rfl | rfl <;> exact ⟨rfl, rfl⟩
  have hback : ((Nat.toDigits 10 n).map asciiByte).map asciiChar = Nat.toDigits 10 n := by
    rw [List.map_map]
    refine (List.map_congr_left fun c hc => ?_).trans (List.map_id _)
    exact asciiChar_asciiByte (lt_of_isDigit (isDigit_of_mem_toDigits hc))
  -- All digits are taken, and what follows the number stops the scan at once.
  rw [scanDigits, List.takeWhile_append_of_pos hdigits, List.dropWhile_append_of_pos hdigits,
    hstop.1, hstop.2, List.append_nil]
  cases hbytes : (Nat.toDigits 10 n).map asciiByte with
  | nil => exact absurd (List.map_eq_nil_iff.mp hbytes) Nat.toDigits_ne_nil
  | cons b bs =>
    rw [hbytes] at hback
    exact congrArg (fun digits => Except.ok (digits, rest)) hback

/-- Behind the whole part of a natural number there is neither a fraction nor an exponent. -/
theorem scanNumeralTail_of_endsValue (negative : Bool) (whole : List Char) {rest : Bytes}
    (hrest : EndsValue rest) :
    scanNumeralTail negative whole rest = .ok (⟨negative, whole, none, none⟩, rest) := by
  cases rest with
  | nil => rfl
  | cons b bs => rcases hrest b rfl with rfl | rfl | rfl <;> rfl

theorem scanNumeral_toDigits (n : Nat) {rest : Bytes} (hrest : EndsValue rest) :
    scanNumeral ((Nat.toDigits 10 n).map asciiByte ++ rest) = (.numeral (.ofNat n), rest) := by
  obtain ⟨d, ds, hds⟩ := List.exists_cons_of_ne_nil (Nat.toDigits_ne_nil (n := n) (b := 10))
  have hscan := scanDigits_toDigits n hrest
  have hdigit : isDigitByte (asciiByte d) = true :=
    isDigitByte_asciiByte (isDigit_of_mem_toDigits (n := n) (by simp [hds]))
  have htail := scanNumeralTail_of_endsValue false (Nat.toDigits 10 n) hrest
  rw [scanNumeral]
  · simp only [hscan]
    split
    · rename_i heq
      exact absurd heq (by simp)
    · -- Several digits that begin with a zero are no number's.
      rename_i zeros _ heq
      have hzero := (Prod.mk.inj (Except.ok.inj heq)).1
      rw [eq_zero_of_toDigits_eq hzero, Nat.toDigits_zero] at hzero
      exact absurd hzero (by simp)
    · rename_i whole rest' _ heq
      obtain ⟨rfl, rfl⟩ := Prod.mk.inj (Except.ok.inj heq)
      rw [htail]
      rfl
  · -- A number does not begin with a minus sign.
    intro rest' h
    rw [hds, List.map_cons, List.cons_append] at h
    rw [(List.cons.inj h).1] at hdigit
    exact absurd hdigit (by decide)

theorem spells_toString (n : Nat) {rest : Bytes} (hrest : EndsValue rest) :
    Spells (bytes (toString n)) [.numeral (.ofNat n)] rest := by
  obtain ⟨d, ds, hds⟩ := List.exists_cons_of_ne_nil (Nat.toDigits_ne_nil (n := n) (b := 10))
  have hdigit : isDigitByte (asciiByte d) = true :=
    isDigitByte_asciiByte (isDigit_of_mem_toDigits (n := n) (by simp [hds]))
  -- Every other token begins with a byte that is no digit.
  have hne : ∀ b, isDigitByte b = false → (asciiByte d == b) = false := by
    intro b hb
    rw [beq_eq_false_iff_ne]
    rintro rfl
    rw [hdigit] at hb
    exact Bool.noConfusion hb
  have hscan := scanNumeral_toDigits n hrest
  rw [bytes_toString, hds, List.map_cons]
  rw [hds, List.map_cons, List.cons_append] at hscan
  refine spells_of_scan ?_ ?_
  · simp only [isSpaceByte, hne 0x20 rfl, hne 0x09 rfl, hne 0x0A rfl, hne 0x0D rfl, Bool.or_self]
  · simp only [scan, hne 0x5B rfl, hne 0x5D rfl, hne 0x7B rfl, hne 0x7D rfl, hne 0x2C rfl,
      hne 0x3A rfl, hne 0x22 rfl, hne 0x6E rfl, hne 0x74 rfl, hne 0x66 rfl, hdigit,
      Bool.or_true, if_true, Bool.false_eq_true, if_false, hscan]

end Token

end Registrar.Json

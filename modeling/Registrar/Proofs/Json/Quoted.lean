import Registrar.Json.Decoder
import Registrar.Proofs.Text.Utf8

/-!
# Quoted strings read back

`escaped s` is what stands between the quotes of `quote s`.  A character is written in one of
three ways (`escapeChar_cases`): behind a backslash, by its number, or as it is.  The scanner
takes what is written up to the closing quote (`scanString_escaped`), and reading it gives the
string (`stringText_escaped`).
-/

namespace Registrar.Json

open Text Token

/-- The bytes of a string as it is written between its quotes. -/
def escaped (s : String) : Bytes :=
  s.toList.flatMap fun c => bytes (escapeChar c)

theorem bytes_quote (s : String) : bytes (quote s) = 0x22 :: (escaped s ++ [0x22]) := by
  have hquote : bytes "\"" = [0x22] := rfl
  rw [quote, bytes_append, bytes_append, bytes_join, List.flatMap_map, hquote]
  rfl

/-! ### The three ways to write a character -/

/-- A byte that stands for itself inside quotes. -/
def IsPlain (b : UInt8) : Prop :=
  0x20 ≤ b.toNat ∧ b ≠ 0x22 ∧ b ≠ 0x5C

/-- A control character is written by its number. -/
theorem escape_control : ∀ n : Fin 0x20,
    isHexByte (asciiByte (Nat.digitChar (n / 16))) = true ∧
    isHexByte (asciiByte (Nat.digitChar (n % 16))) = true ∧
    (Nat.digitChar (n / 16)).toNat < 0x80 ∧ (Nat.digitChar (n % 16)).toNat < 0x80 ∧
    hexQuad 0x30 0x30 (asciiByte (Nat.digitChar (n / 16))) (asciiByte (Nat.digitChar (n % 16))) =
      n := by
  decide

theorem isPlain_of_mem_utf8EncodeChar {c : Char} (hlow : 0x20 ≤ c.toNat) (hquote : c ≠ '"')
    (hbackslash : c ≠ '\\') {b : UInt8} (hb : b ∈ String.utf8EncodeChar c) : IsPlain b := by
  by_cases hascii : c.toNat < 0x80
  · -- The only byte of the character is its code.
    rw [utf8EncodeChar_of_lt hascii, List.mem_singleton] at hb
    have htoNat : b.toNat = c.toNat := by
      rw [hb, toNat_asciiByte hascii]
    have hne : ∀ d : Char, c ≠ d → b.toNat ≠ d.toNat := by
      intro d hd h
      exact hd (Char.toNat_inj.mp (htoNat.symm.trans h))
    refine ⟨by omega, ?_, ?_⟩
    · rintro rfl
      exact hne '"' hquote rfl
    · rintro rfl
      exact hne '\\' hbackslash rfl
  · -- The quote and the backslash are ASCII, and no byte of another character is.
    have hle := le_of_mem_utf8EncodeChar (Nat.not_lt.mp hascii) hb
    refine ⟨by omega, ?_, ?_⟩
    · rintro rfl
      exact absurd hle (by decide)
    · rintro rfl
      exact absurd hle (by decide)

/-- A character is written behind a backslash, by its number, or as it is. -/
theorem escapeChar_cases (c : Char) :
    (∃ e, isSimpleEscape e = true ∧ bytes (escapeChar c) = [0x5C, e] ∧
      String.utf8EncodeChar c = [simpleEscape e]) ∨
    (∃ high low, isHexByte high = true ∧ isHexByte low = true ∧
      bytes (escapeChar c) = [0x5C, 0x75, 0x30, 0x30, high, low] ∧
      hexQuad 0x30 0x30 high low = c.toNat ∧ c.toNat < 0x20) ∨
    (bytes (escapeChar c) = String.utf8EncodeChar c ∧
      ∀ b ∈ String.utf8EncodeChar c, IsPlain b) := by
  unfold escapeChar
  split
  · exact .inl ⟨0x22, rfl, rfl, rfl⟩
  · exact .inl ⟨0x5C, rfl, rfl, rfl⟩
  · exact .inl ⟨0x62, rfl, rfl, rfl⟩
  · exact .inl ⟨0x66, rfl, rfl, rfl⟩
  · exact .inl ⟨0x6E, rfl, rfl, rfl⟩
  · exact .inl ⟨0x72, rfl, rfl, rfl⟩
  · exact .inl ⟨0x74, rfl, rfl, rfl⟩
  · -- None of the seven characters with a letter: below the blank it has a number.
    rename_i hquote hbackslash _ _ _ _ _
    by_cases hcontrol : c.toNat < 0x20
    · obtain ⟨hhigh, hlow, hhigh', hlow', hvalue⟩ := escape_control ⟨c.toNat, hcontrol⟩
      refine .inr (.inl ⟨_, _, hhigh, hlow, ?_, hvalue, hcontrol⟩)
      have hfront : bytes "\\u00" = [0x5C, 0x75, 0x30, 0x30] := rfl
      rw [if_pos hcontrol, bytes_append, hfront, bytes_ofList]
      simp only [List.flatMap_cons, List.flatMap_nil, utf8EncodeChar_of_lt hhigh',
        utf8EncodeChar_of_lt hlow']
      rfl
    · refine .inr (.inr ⟨?_, ?_⟩)
      · rw [if_neg hcontrol, bytes_toString_char]
      · intro b hb
        exact isPlain_of_mem_utf8EncodeChar (Nat.not_lt.mp hcontrol) hquote hbackslash hb

/-! ### Scanning -/

theorem scanString_simple {e : UInt8} (h : isSimpleEscape e = true) (read rest : Bytes) :
    scanString read (0x5C :: e :: rest) = scanString (e :: 0x5C :: read) rest := by
  have hne : e ≠ 0x75 := by
    rintro rfl
    exact absurd h (by decide)
  rw [scanString]
  · rw [if_pos h]
  · intro _ _ _ _ _ heq
    exact absurd heq hne
  · exact hne

theorem scanString_number {high low : UInt8} (hhigh : isHexByte high = true)
    (hlow : isHexByte low = true) (read rest : Bytes) :
    scanString read (0x5C :: 0x75 :: 0x30 :: 0x30 :: high :: low :: rest) =
      scanString (low :: high :: 0x30 :: 0x30 :: 0x75 :: 0x5C :: read) rest := by
  have hzero : isHexByte 0x30 = true := rfl
  rw [scanString]
  simp only [hzero, hhigh, hlow, Bool.and_self, if_true]

theorem scanString_plain {b : UInt8} (h : IsPlain b) (read rest : Bytes) :
    scanString read (b :: rest) = scanString (b :: read) rest := by
  obtain ⟨hlow, hquote, hbackslash⟩ := h
  rw [scanString]
  · rw [if_neg]
    rw [UInt8.lt_iff_toNat_lt]
    exact Nat.not_lt.mpr hlow
  · exact hquote
  · exact hbackslash

theorem scanString_plains {bs : Bytes} (h : ∀ b ∈ bs, IsPlain b) (read rest : Bytes) :
    scanString read (bs ++ rest) = scanString (bs.reverse ++ read) rest := by
  induction bs generalizing read with
  | nil => rfl
  | cons b bs ih =>
    obtain ⟨hb, hbs⟩ := List.forall_mem_cons.mp h
    rw [List.cons_append, scanString_plain hb, ih hbs]
    simp

/-- The scanner takes what a character is written as. -/
theorem scanString_escapeChar (c : Char) (read rest : Bytes) :
    scanString read (bytes (escapeChar c) ++ rest) =
      scanString ((bytes (escapeChar c)).reverse ++ read) rest := by
  obtain ⟨e, he, hwritten, -⟩ | ⟨high, low, hhigh, hlow, hwritten, -, -⟩ | ⟨hwritten, hplain⟩ :=
    escapeChar_cases c
  · rw [hwritten]
    exact scanString_simple he read rest
  · rw [hwritten]
    exact scanString_number hhigh hlow read rest
  · rw [hwritten]
    exact scanString_plains hplain read rest

/-- The scanner takes what is written up to the closing quote. -/
theorem scanString_flatMap_escapeChar (cs : List Char) (read rest : Bytes) :
    scanString read (cs.flatMap (fun c => bytes (escapeChar c)) ++ 0x22 :: rest) =
      (.string (read.reverse ++ cs.flatMap fun c => bytes (escapeChar c)), rest) := by
  induction cs generalizing read with
  | nil => simp [scanString]
  | cons c cs ih =>
    rw [List.flatMap_cons, List.append_assoc, scanString_escapeChar, ih]
    simp

theorem scanString_escaped (s : String) (rest : Bytes) :
    scanString [] (escaped s ++ 0x22 :: rest) = (.string (escaped s), rest) :=
  scanString_flatMap_escapeChar s.toList [] rest

/-! ### Reading -/

theorem unescapeAfter_simple {e : UInt8} (h : isSimpleEscape e = true) (read rest : Bytes) :
    unescapeAfter read (0x5C :: e :: rest) = unescapeAfter (simpleEscape e :: read) rest := by
  have hne : e ≠ 0x75 := by
    rintro rfl
    exact absurd h (by decide)
  rw [unescapeAfter]
  intro a b c d rest' heq
  exact absurd heq hne

theorem unescapeAfter_number {high low : UInt8} (h : hexQuad 0x30 0x30 high low < 0x20)
    (read rest : Bytes) :
    unescapeAfter read (0x5C :: 0x75 :: 0x30 :: 0x30 :: high :: low :: rest) =
      unescapeAfter ((encodeNumber (hexQuad 0x30 0x30 high low)).reverse ++ read) rest := by
  rw [unescapeAfter.eq_def]
  simp only
  rw [if_neg (by omega), if_neg (by omega)]

theorem unescapeAfter_plain {b : UInt8} (h : IsPlain b) (read rest : Bytes) :
    unescapeAfter read (b :: rest) = unescapeAfter (b :: read) rest := by
  rw [unescapeAfter]
  · intro _ _ _ _ _ hb
    exact absurd hb h.2.2
  · intro _ _ hb
    exact absurd hb h.2.2

theorem unescapeAfter_plains {bs : Bytes} (h : ∀ b ∈ bs, IsPlain b) (read rest : Bytes) :
    unescapeAfter read (bs ++ rest) = unescapeAfter (bs.reverse ++ read) rest := by
  induction bs generalizing read with
  | nil => rfl
  | cons b bs ih =>
    obtain ⟨hb, hbs⟩ := List.forall_mem_cons.mp h
    rw [List.cons_append, unescapeAfter_plain hb, ih hbs]
    simp

/-- What a character is written as is read as the bytes of the character. -/
theorem unescapeAfter_escapeChar (c : Char) (read rest : Bytes) :
    unescapeAfter read (bytes (escapeChar c) ++ rest) =
      unescapeAfter ((String.utf8EncodeChar c).reverse ++ read) rest := by
  obtain ⟨e, he, hwritten, hchar⟩ | ⟨high, low, -, -, hwritten, hvalue, hlt⟩ |
    ⟨hwritten, hplain⟩ := escapeChar_cases c
  · rw [hwritten, hchar]
    exact unescapeAfter_simple he read rest
  · -- A number below the blank is no surrogate, so that it stands for a character by itself.
    have hread := unescapeAfter_number (hvalue ▸ hlt) read rest
    rw [hvalue, encodeNumber, Char.ofNat_toNat] at hread
    rw [hwritten]
    exact hread
  · rw [hwritten]
    exact unescapeAfter_plains hplain read rest

theorem unescapeAfter_flatMap_escapeChar (cs : List Char) (read : Bytes) :
    unescapeAfter read (cs.flatMap fun c => bytes (escapeChar c)) =
      .ok (read.reverse ++ cs.flatMap String.utf8EncodeChar) := by
  induction cs generalizing read with
  | nil => simp [unescapeAfter]
  | cons c cs ih =>
    rw [List.flatMap_cons, unescapeAfter_escapeChar, ih]
    simp

/-- What a string is written as is read as the string. -/
@[simp] theorem stringText_escaped (s : String) : stringText (escaped s) = .ok s := by
  have hread : unescape (escaped s) = .ok (bytes s) := by
    rw [unescape, escaped, unescapeAfter_flatMap_escapeChar, bytes_eq_flatMap]
    rfl
  simp only [stringText, hread, text?_bytes]

end Registrar.Json

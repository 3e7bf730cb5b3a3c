import Mathlib.Data.List.Basic

/-!
# Texts

A text is a list of characters.  Here are its UTF-8 bytes and the decimal form of a number, with
what makes them readable again.
-/

namespace VisioSchema.Library

/-- A text. -/
abbrev Text := List Char

/-- Texts are compared character by character. -/
instance : LawfulBEq Text := inferInstance

namespace Text

/-! ## UTF-8 -/

/-- The UTF-8 bytes of a text. -/
def encode (text : Text) : List UInt8 := text.flatMap String.utf8EncodeChar

theorem encode_cons (c : Char) (text : Text) :
    encode (c :: text) = String.utf8EncodeChar c ++ encode text := rfl

/-- The first character is decided by the bytes. -/
theorem head_of_encode {c d : Char} {first second : List UInt8}
    (heq : String.utf8EncodeChar c ++ first = String.utf8EncodeChar d ++ second) : c = d := by
  have hc := ByteArray.utf8DecodeChar?_utf8EncodeChar_append (b := first.toByteArray) (c := c)
  have hd := ByteArray.utf8DecodeChar?_utf8EncodeChar_append (b := second.toByteArray) (c := d)
  rw [← List.toByteArray_append, heq, List.toByteArray_append, hd] at hc
  exact (Option.some.inj hc).symm

/-- Texts of the same bytes are the same. -/
theorem encode_injective : Function.Injective encode := by
  intro first second heq
  induction first generalizing second with
  | nil =>
      cases second with
      | nil => rfl
      | cons d second =>
          rw [encode_cons] at heq
          exact absurd (List.append_eq_nil_iff.mp heq.symm).1 String.utf8EncodeChar_ne_nil
  | cons c first ih =>
      cases second with
      | nil =>
          rw [encode_cons] at heq
          exact absurd (List.append_eq_nil_iff.mp heq).1 String.utf8EncodeChar_ne_nil
      | cons d second =>
          rw [encode_cons, encode_cons] at heq
          obtain rfl := head_of_encode heq
          rw [ih (List.append_cancel_left heq)]

/-- The text of UTF-8 bytes. -/
def decode (bytes : List UInt8) : Option Text := bytes.toByteArray.utf8Decode?.map Array.toList

theorem decode_encode (text : Text) : decode (encode text) = some text := by
  have hencode : (encode text).toByteArray = text.utf8Encode := rfl
  rw [decode, hencode, List.utf8Decode?_utf8Encode]
  rfl

/-! ## Decimal numbers -/

/-- A number in decimal digits. -/
def decimal (n : ℕ) : Text := Nat.toDigits 10 n

theorem decimal_injective : Function.Injective decimal := by
  intro m n heq
  have hread := Nat.ofDigitChars_toDigits (b := 10) (n := m) (by decide) (by decide)
  rw [decimal, decimal] at heq
  rw [← hread, heq]
  exact Nat.ofDigitChars_toDigits (by decide) (by decide)

theorem isDigit_of_mem_decimal {n : ℕ} {c : Char} (hmem : c ∈ decimal n) : c.isDigit = true :=
  Nat.isDigit_of_mem_toDigits (by decide) (by decide) hmem

end Text

end VisioSchema.Library

import Mathlib.Data.List.DropRight
import Mathlib.Data.Nat.Notation

/-!
# Base64

Encoding in groups of three bytes, with `=` behind a short group, and the lenient decoder: it skips
what is not in the alphabet, and reads no further than a group that padding completes.  A byte's
bit fields are written as quotients and remainders.
-/

namespace VisioSchema.Library.Base64

/-! ## The alphabet -/

/-- The character of a number below 64. -/
def digit (n : ℕ) : Char :=
  if n < 26 then Char.ofNat (65 + n)
  else if n < 52 then Char.ofNat (71 + n)
  else if n < 62 then Char.ofNat (n - 4)
  else if n = 62 then '+'
  else '/'

/-- The number of a character. -/
def sextet (c : Char) : Option ℕ :=
  if 65 ≤ c.toNat ∧ c.toNat ≤ 90 then some (c.toNat - 65)
  else if 97 ≤ c.toNat ∧ c.toNat ≤ 122 then some (c.toNat - 71)
  else if 48 ≤ c.toNat ∧ c.toNat ≤ 57 then some (c.toNat + 4)
  else if c = '+' then some 62
  else if c = '/' then some 63
  else none

theorem sextet_digit : ∀ n < 64, sextet (digit n) = some n := by decide

theorem digit_ne_pad : ∀ n < 64, digit n ≠ '=' := by decide

/-! ## Encoding -/

/-- The digits of some bytes. -/
def digits : List UInt8 → List Char
  | [] => []
  | [a] => [digit (a.toNat / 4), digit (a.toNat % 4 * 16)]
  | [a, b] =>
      [digit (a.toNat / 4), digit (a.toNat % 4 * 16 + b.toNat / 16), digit (b.toNat % 16 * 4)]
  | a :: b :: c :: rest =>
      digit (a.toNat / 4) :: digit (a.toNat % 4 * 16 + b.toNat / 16) ::
        digit (b.toNat % 16 * 4 + c.toNat / 64) :: digit (c.toNat % 64) :: digits rest

/-- The padding that completes the last group. -/
def padding (length : ℕ) : List Char := List.replicate ((4 - length % 4) % 4) '='

/-- `base64.b64encode`. -/
def encode (bytes : List UInt8) : List Char := digits bytes ++ padding (digits bytes).length

theorem exists_digit_of_mem {bytes : List UInt8} {c : Char} (hmem : c ∈ digits bytes) :
    ∃ n < 64, c = digit n := by
  induction bytes using digits.induct with
  | case1 => cases hmem
  | case2 a =>
      have ha := a.toNat_lt
      simp only [digits, List.mem_cons, List.not_mem_nil, or_false] at hmem
      rcases hmem with rfl | rfl
      · exact ⟨_, by omega, rfl⟩
      · exact ⟨_, by omega, rfl⟩
  | case3 a b =>
      have ha := a.toNat_lt
      have hb := b.toNat_lt
      simp only [digits, List.mem_cons, List.not_mem_nil, or_false] at hmem
      rcases hmem with rfl | rfl | rfl
      · exact ⟨_, by omega, rfl⟩
      · exact ⟨_, by omega, rfl⟩
      · exact ⟨_, by omega, rfl⟩
  | case4 a b c rest ih =>
      have ha := a.toNat_lt
      have hb := b.toNat_lt
      have hc := c.toNat_lt
      simp only [digits, List.mem_cons] at hmem
      rcases hmem with rfl | rfl | rfl | rfl | hrest
      · exact ⟨_, by omega, rfl⟩
      · exact ⟨_, by omega, rfl⟩
      · exact ⟨_, by omega, rfl⟩
      · exact ⟨_, by omega, rfl⟩
      · exact ih hrest

/-- Four digits for three bytes. -/
theorem three_mul_length_digits_le (bytes : List UInt8) :
    3 * (digits bytes).length ≤ 4 * bytes.length + 2 := by
  induction bytes using digits.induct with
  | case1 => simp [digits]
  | case2 a => simp [digits]
  | case3 a b => simp [digits]
  | case4 a b c rest ih =>
      simp only [digits, List.length_cons]
      omega

theorem digits_ne_nil {bytes : List UInt8} (hbytes : bytes ≠ []) : digits bytes ≠ [] := by
  cases bytes using digits.induct with
  | case1 => exact absurd rfl hbytes
  | case2 a => exact List.cons_ne_nil _ _
  | case3 a b => exact List.cons_ne_nil _ _
  | case4 a b c rest => exact List.cons_ne_nil _ _

/-- Padding is all that is taken from the end of what holds none. -/
theorem rdropWhile_padding {text : List Char} (hfree : '=' ∉ text) (length : ℕ) :
    (text ++ padding length).rdropWhile (· = '=') = text := by
  rw [List.rdropWhile, List.reverse_append, padding, List.reverse_replicate,
    List.dropWhile_append_of_pos (by simp), List.dropWhile_eq_self_iff.mpr, List.reverse_reverse]
  intro hlt
  have hmem : text.reverse[0] ∈ text := List.mem_reverse.mp (List.getElem_mem hlt)
  have hne : text.reverse[0] ≠ '=' := by
    intro heq
    rw [heq] at hmem
    exact hfree hmem
  simpa using hne

/-! ## Decoding -/

/-- `binascii.a2b_base64` without its strict mode: `place` is the place in the group of four,
`left` are the bits that wait for a byte, and `pads` counts the padding of the group. -/
def decodeFrom (place left pads : ℕ) : List Char → Option (List UInt8)
  | [] => if place = 0 then some [] else none
  | c :: rest =>
      if c = '=' then
        if 2 ≤ place then
          if 4 ≤ place + (pads + 1) then some [] else decodeFrom place left (pads + 1) rest
        else decodeFrom place left pads rest
      else
        match sextet c with
        | none => decodeFrom place left pads rest
        | some v =>
            if place = 0 then decodeFrom 1 v 0 rest
            else if place = 1 then
              (decodeFrom 2 (v % 16) 0 rest).map (UInt8.ofNat (left * 4 + v / 16) :: ·)
            else if place = 2 then
              (decodeFrom 3 (v % 4) 0 rest).map (UInt8.ofNat (left * 16 + v / 4) :: ·)
            else (decodeFrom 0 0 0 rest).map (UInt8.ofNat (left * 64 + v) :: ·)

/-- `base64.b64decode`. -/
def decode (text : List Char) : Option (List UInt8) := decodeFrom 0 0 0 text

section Digits

variable {n : ℕ} (hn : n < 64) (left pads : ℕ) (rest : List Char)
include hn

theorem decodeFrom_first :
    decodeFrom 0 left pads (digit n :: rest) = decodeFrom 1 n 0 rest := by
  rw [decodeFrom, if_neg (digit_ne_pad n hn), sextet_digit n hn]
  rfl

theorem decodeFrom_second :
    decodeFrom 1 left pads (digit n :: rest) =
      (decodeFrom 2 (n % 16) 0 rest).map (UInt8.ofNat (left * 4 + n / 16) :: ·) := by
  rw [decodeFrom, if_neg (digit_ne_pad n hn), sextet_digit n hn]
  rfl

theorem decodeFrom_third :
    decodeFrom 2 left pads (digit n :: rest) =
      (decodeFrom 3 (n % 4) 0 rest).map (UInt8.ofNat (left * 16 + n / 4) :: ·) := by
  rw [decodeFrom, if_neg (digit_ne_pad n hn), sextet_digit n hn]
  rfl

theorem decodeFrom_fourth :
    decodeFrom 3 left pads (digit n :: rest) =
      (decodeFrom 0 0 0 rest).map (UInt8.ofNat (left * 64 + n) :: ·) := by
  rw [decodeFrom, if_neg (digit_ne_pad n hn), sextet_digit n hn]
  rfl

end Digits

/-- A byte is put together from its fields. -/
theorem ofNat_eq {a : UInt8} {n : ℕ} (hn : n = a.toNat) : UInt8.ofNat n = a := by
  rw [hn, UInt8.ofNat_toNat]

/-- What was encoded is decoded. -/
theorem decodeFrom_encode (bytes : List UInt8) (left pads : ℕ) :
    decodeFrom 0 left pads (encode bytes) = some bytes := by
  induction bytes using digits.induct generalizing left pads with
  | case1 => rfl
  | case2 a =>
      have ha := a.toNat_lt
      have hpad : encode [a] = digit (a.toNat / 4) :: digit (a.toNat % 4 * 16) :: ['=', '='] := rfl
      rw [hpad, decodeFrom_first (by omega), decodeFrom_second (by omega),
        ofNat_eq (a := a) (by omega)]
      rfl
  | case3 a b =>
      have ha := a.toNat_lt
      have hb := b.toNat_lt
      have hpad : encode [a, b] = digit (a.toNat / 4) ::
          digit (a.toNat % 4 * 16 + b.toNat / 16) :: digit (b.toNat % 16 * 4) :: ['='] := rfl
      rw [hpad, decodeFrom_first (by omega), decodeFrom_second (by omega),
        decodeFrom_third (by omega), ofNat_eq (a := a) (by omega), ofNat_eq (a := b) (by omega)]
      rfl
  | case4 a b c rest ih =>
      have ha := a.toNat_lt
      have hb := b.toNat_lt
      have hc := c.toNat_lt
      have hgroup : encode (a :: b :: c :: rest) = digit (a.toNat / 4) ::
          digit (a.toNat % 4 * 16 + b.toNat / 16) :: digit (b.toNat % 16 * 4 + c.toNat / 64) ::
            digit (c.toNat % 64) :: encode rest := by
        simp only [encode, digits, List.length_cons, List.cons_append, padding]
        rw [show ((digits rest).length + 1 + 1 + 1 + 1) % 4 = (digits rest).length % 4 by omega]
      rw [hgroup, decodeFrom_first (by omega), decodeFrom_second (by omega),
        decodeFrom_third (by omega), decodeFrom_fourth (by omega), ih,
        ofNat_eq (a := a) (by omega), ofNat_eq (a := b) (by omega), ofNat_eq (a := c) (by omega)]
      rfl

theorem decode_encode (bytes : List UInt8) : decode (encode bytes) = some bytes :=
  decodeFrom_encode bytes 0 0

end VisioSchema.Library.Base64

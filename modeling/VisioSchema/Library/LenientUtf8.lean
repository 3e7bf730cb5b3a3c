import Mathlib.Data.List.Infix
import VisioSchema.Library.Text

/-!
# UTF-8 with replacements

`bytes.decode("utf-8", "replace")`: a sequence that no character has is read as U+FFFD, which
stands for the bytes that could have been the start of a character.  A text without U+FFFD was
written by its own bytes, and zero bytes at the end are NUL characters at the end.
-/

namespace VisioSchema.Library.Text

/-- The character that some bytes begin with. -/
def firstChar (bytes : List UInt8) : Option Char := bytes.toByteArray.utf8DecodeChar? 0

/-- How many bytes a first byte asks for. -/
def announced (first : UInt8) : ℕ :=
  if 0xC2 ≤ first ∧ first ≤ 0xDF then 1
  else if 0xE0 ≤ first ∧ first ≤ 0xEF then 2
  else if 0xF0 ≤ first ∧ first ≤ 0xF4 then 3
  else 0

/-- A byte that may come second. -/
def continues (first second : UInt8) : Bool :=
  if first = 0xE0 then 0xA0 ≤ second && second ≤ 0xBF
  else if first = 0xED then 0x80 ≤ second && second ≤ 0x9F
  else if first = 0xF0 then 0x90 ≤ second && second ≤ 0xBF
  else if first = 0xF4 then 0x80 ≤ second && second ≤ 0x8F
  else 0x80 ≤ second && second ≤ 0xBF

/-- The bytes behind the first one that could belong to its character. -/
def continued (first : UInt8) : List UInt8 → ℕ
  | [] => 0
  | second :: rest =>
      if 0 < announced first ∧ continues first second = true then
        1 + ((rest.take (announced first - 1)).takeWhile fun b => 0x80 ≤ b && b ≤ 0xBF).length
      else 0

/-- The bytes that a replacement stands for. -/
def replaced : List UInt8 → ℕ
  | [] => 0
  | first :: rest => 1 + continued first rest

def replacement : Char := '\uFFFD'

/-- The characters of some bytes, no more than a number of them. -/
def readChars : ℕ → List UInt8 → Text
  | 0, _ => []
  | fuel + 1, bytes =>
      if bytes = [] then []
      else
        match firstChar bytes with
        | some c => c :: readChars fuel (bytes.drop c.utf8Size)
        | none => replacement :: readChars fuel (bytes.drop (replaced bytes))

/-- `bytes.decode("utf-8", "replace")`. -/
def decodeReplace (bytes : List UInt8) : Text := readChars bytes.length bytes

/-! ## The first character -/

theorem firstChar_append (c : Char) (rest : List UInt8) :
    firstChar (String.utf8EncodeChar c ++ rest) = some c := by
  rw [firstChar, List.toByteArray_append]
  exact ByteArray.utf8DecodeChar?_utf8EncodeChar_append

theorem exists_of_firstChar {bytes : List UInt8} {c : Char} (hfirst : firstChar bytes = some c) :
    ∃ rest, bytes = String.utf8EncodeChar c ++ rest := by
  obtain ⟨rest, hrest⟩ := ByteArray.exists_of_utf8DecodeChar?_eq_some hfirst
  refine ⟨rest.data.toList, ?_⟩
  have hbytes := congrArg (fun b : ByteArray => b.data.toList) hrest
  simpa using hbytes

theorem drop_utf8Size (c : Char) (rest : List UInt8) :
    (String.utf8EncodeChar c ++ rest).drop c.utf8Size = rest := by
  rw [← String.length_utf8EncodeChar, List.drop_left]

theorem replaced_pos {bytes : List UInt8} (hbytes : bytes ≠ []) : 0 < replaced bytes := by
  cases bytes with
  | nil => exact absurd rfl hbytes
  | cons first rest =>
      rw [replaced]
      omega

theorem continued_le (first : UInt8) (rest : List UInt8) : continued first rest ≤ rest.length := by
  cases rest with
  | nil => exact Nat.le_refl 0
  | cons second more =>
      have htaken := (List.takeWhile_sublist (fun b : UInt8 => 0x80 ≤ b && b ≤ 0xBF)
        (l := more.take (announced first - 1))).length_le
      have hmore := List.length_take_le (announced first - 1) more
      rw [continued, List.length_cons]
      split
      · rw [List.length_take] at htaken
        omega
      · exact Nat.zero_le _

theorem replaced_le (bytes : List UInt8) : replaced bytes ≤ bytes.length := by
  cases bytes with
  | nil => exact Nat.le_refl 0
  | cons first rest =>
      have hrest := continued_le first rest
      rw [replaced, List.length_cons]
      omega

/-! ## The characters -/

/-- No more characters are read than there are bytes. -/
theorem readChars_eq {fuel : ℕ} {bytes : List UInt8} (hfuel : bytes.length ≤ fuel) :
    readChars fuel bytes = decodeReplace bytes := by
  have hmore : ∀ extra fuel (bytes : List UInt8), bytes.length ≤ fuel →
      readChars (fuel + extra) bytes = readChars fuel bytes := by
    intro extra fuel
    induction fuel with
    | zero =>
        intro bytes hlength
        obtain rfl := List.length_eq_zero_iff.mp (Nat.le_zero.mp hlength)
        cases extra <;> rfl
    | succ fuel ih =>
        intro bytes hlength
        rw [Nat.succ_add, readChars, readChars]
        by_cases hempty : bytes = []
        · rw [if_pos hempty, if_pos hempty]
        · rw [if_neg hempty, if_neg hempty]
          cases hfirst : firstChar bytes with
          | some c =>
              have hsize := c.utf8Size_pos
              exact congrArg (c :: ·) (ih _ (by rw [List.length_drop]; omega))
          | none =>
              have hpos := replaced_pos hempty
              exact congrArg (replacement :: ·) (ih _ (by rw [List.length_drop]; omega))
  obtain ⟨extra, rfl⟩ := Nat.exists_eq_add_of_le hfuel
  exact hmore extra _ bytes (Nat.le_refl _)

@[simp] theorem decodeReplace_nil : decodeReplace [] = [] := rfl

theorem decodeReplace_char (c : Char) (rest : List UInt8) :
    decodeReplace (String.utf8EncodeChar c ++ rest) = c :: decodeReplace rest := by
  have hne : String.utf8EncodeChar c ++ rest ≠ [] := by simp [String.utf8EncodeChar_ne_nil]
  have hsize := c.utf8Size_pos
  obtain ⟨fuel, hfuel⟩ : ∃ fuel, (String.utf8EncodeChar c ++ rest).length = fuel + 1 :=
    Nat.exists_eq_succ_of_ne_zero (List.length_pos_of_ne_nil hne).ne'
  have hrest : rest.length ≤ fuel := by
    rw [List.length_append, String.length_utf8EncodeChar] at hfuel
    omega
  rw [decodeReplace, hfuel, readChars, if_neg hne, firstChar_append]
  dsimp only
  rw [drop_utf8Size, readChars_eq hrest]

theorem decodeReplace_bad {bytes : List UInt8} (hne : bytes ≠ []) (hbad : firstChar bytes = none) :
    decodeReplace bytes = replacement :: decodeReplace (bytes.drop (replaced bytes)) := by
  have hpos := replaced_pos hne
  obtain ⟨fuel, hfuel⟩ : ∃ fuel, bytes.length = fuel + 1 :=
    Nat.exists_eq_succ_of_ne_zero (by simpa using hne)
  have hrest : (bytes.drop (replaced bytes)).length ≤ fuel := by
    rw [List.length_drop]
    omega
  rw [decodeReplace, hfuel, readChars, if_neg hne, hbad]
  dsimp only
  rw [readChars_eq hrest]

/-- Bytes are read character by character, or up to what could be the start of one. -/
theorem lenient_induct {P : List UInt8 → Prop} (hnil : P [])
    (hchar : ∀ c rest, P rest → P (String.utf8EncodeChar c ++ rest))
    (hbad : ∀ bytes, bytes ≠ [] → firstChar bytes = none → P (bytes.drop (replaced bytes)) →
      P bytes) (bytes : List UInt8) : P bytes := by
  induction hlength : bytes.length using Nat.strongRecOn generalizing bytes with
  | ind n ih =>
      by_cases hne : bytes = []
      · rw [hne]
        exact hnil
      · cases hfirst : firstChar bytes with
        | some c =>
            obtain ⟨rest, rfl⟩ := exists_of_firstChar hfirst
            have hsize := c.utf8Size_pos
            rw [List.length_append, String.length_utf8EncodeChar] at hlength
            exact hchar c rest (ih rest.length (by omega) rest rfl)
        | none =>
            have hpos := replaced_pos hne
            have hle := replaced_le bytes
            refine hbad bytes hne hfirst (ih _ ?_ _ rfl)
            rw [List.length_drop]
            omega

/-- What was written is read, whatever comes behind it. -/
theorem decodeReplace_encode_append (text : Text) (rest : List UInt8) :
    decodeReplace (encode text ++ rest) = text ++ decodeReplace rest := by
  induction text with
  | nil => rfl
  | cons c text ih =>
      rw [encode_cons, List.append_assoc, decodeReplace_char, ih, List.cons_append]

theorem decodeReplace_encode (text : Text) : decodeReplace (encode text) = text := by
  have happend := decodeReplace_encode_append text []
  rwa [List.append_nil, decodeReplace_nil, List.append_nil] at happend

/-- A text without replacements was written by its bytes. -/
theorem encode_decodeReplace {bytes : List UInt8} (hnone : replacement ∉ decodeReplace bytes) :
    encode (decodeReplace bytes) = bytes := by
  induction bytes using lenient_induct with
  | hnil => rfl
  | hchar c rest ih =>
      rw [decodeReplace_char, List.mem_cons, not_or] at hnone
      rw [decodeReplace_char, encode_cons, ih hnone.2]
  | hbad bytes hne hbad ih =>
      rw [decodeReplace_bad hne hbad] at hnone
      exact absurd (List.mem_cons_self ..) hnone

/-! ## Zero bytes at the end -/

/-- Only NUL is written with a zero byte. -/
theorem eq_nul_of_zero_mem {c : Char} (hzero : 0 ∈ String.utf8EncodeChar c) : c = '\x00' := by
  have hhigh : ∀ n, 128 ≤ n → n < 256 → (0 : UInt8) ≠ UInt8.ofNat n := by
    intro n hlow hhigh heq
    have hnat := congrArg UInt8.toNat heq
    rw [UInt8.toNat_ofNat'] at hnat
    change 0 = n % 256 at hnat
    omega
  unfold String.utf8EncodeChar at hzero
  dsimp only at hzero
  split at hzero
  next hsmall =>
    have hnat := congrArg UInt8.toNat (List.mem_singleton.mp hzero)
    rw [UInt8.toNat_ofNat'] at hnat
    change 0 = c.val.toNat % 256 at hnat
    refine Char.ext (UInt32.toNat_inj.mp ?_)
    change c.val.toNat = 0
    omega
  next =>
    exfalso
    split at hzero
    next =>
      simp only [List.mem_cons, List.not_mem_nil, or_false] at hzero
      rcases hzero with hzero | hzero
      · exact hhigh _ (by omega) (by omega) hzero
      · exact hhigh _ (by omega) (by omega) hzero
    next =>
      split at hzero
      next =>
        simp only [List.mem_cons, List.not_mem_nil, or_false] at hzero
        rcases hzero with hzero | hzero | hzero
        · exact hhigh _ (by omega) (by omega) hzero
        · exact hhigh _ (by omega) (by omega) hzero
        · exact hhigh _ (by omega) (by omega) hzero
      next =>
        simp only [List.mem_cons, List.not_mem_nil, or_false] at hzero
        rcases hzero with hzero | hzero | hzero | hzero
        · exact hhigh _ (by omega) (by omega) hzero
        · exact hhigh _ (by omega) (by omega) hzero
        · exact hhigh _ (by omega) (by omega) hzero
        · exact hhigh _ (by omega) (by omega) hzero

/-- Zero bytes finish no character. -/
theorem firstChar_append_zeros {bytes : List UInt8} (hne : bytes ≠ [])
    (hbad : firstChar bytes = none) (n : ℕ) :
    firstChar (bytes ++ List.replicate n 0) = none := by
  cases hfirst : firstChar (bytes ++ List.replicate n 0) with
  | none => rfl
  | some c =>
      exfalso
      obtain ⟨rest, hrest⟩ := exists_of_firstChar hfirst
      rcases List.append_eq_append_iff.mp hrest with ⟨more, hchar, hzeros⟩ | ⟨more, hbytes, -⟩
      · -- the character ends in zero bytes, and is NUL
        cases more with
        | nil =>
            rw [List.append_nil] at hchar
            have hsome := firstChar_append c []
            rw [List.append_nil, hchar, hbad] at hsome
            cases hsome
        | cons b more =>
            have hb : b = 0 := by
              have hmem : b ∈ List.replicate n 0 := hzeros ▸ List.mem_cons_self ..
              exact List.eq_of_mem_replicate hmem
            have hnul : c = '\x00' := eq_nul_of_zero_mem (by rw [hchar, hb]; simp)
            have hone : (String.utf8EncodeChar c).length = 1 := by rw [hnul]; rfl
            have hpos := List.length_pos_of_ne_nil hne
            rw [hchar, List.length_append, List.length_cons] at hone
            omega
      · rw [hbytes, firstChar_append] at hbad
        cases hbad

theorem takeWhile_take_zeros {p : UInt8 → Bool} (hp : p 0 = false) (k n : ℕ) (l : List UInt8) :
    ((l ++ List.replicate n 0).take k).takeWhile p = (l.take k).takeWhile p := by
  induction l generalizing k with
  | nil =>
      rw [List.nil_append, List.take_nil, List.take_replicate]
      cases min k n with
      | zero => rfl
      | succ m => rw [List.replicate_succ, List.takeWhile_cons_of_neg (by simp [hp])]; rfl
  | cons b l ih =>
      cases k with
      | zero => rfl
      | succ k =>
          rw [List.cons_append, List.take_succ_cons, List.take_succ_cons, List.takeWhile_cons,
            List.takeWhile_cons, ih]

theorem replaced_append_zeros {bytes : List UInt8} (hne : bytes ≠ []) (n : ℕ) :
    replaced (bytes ++ List.replicate n 0) = replaced bytes := by
  cases bytes with
  | nil => exact absurd rfl hne
  | cons first rest =>
      rw [List.cons_append, replaced, replaced]
      cases rest with
      | nil =>
          have hzero : continues first 0 = false := by
            unfold continues
            split_ifs <;> rfl
          cases n with
          | zero => rfl
          | succ n => simp [List.replicate_succ, continued, hzero]
      | cons second more =>
          have htail := takeWhile_take_zeros (p := fun b => 0x80 ≤ b && b ≤ 0xBF) rfl
            (announced first - 1) n more
          rw [List.cons_append, continued, continued, htail]

theorem encode_append (first second : Text) :
    encode (first ++ second) = encode first ++ encode second := List.flatMap_append

theorem encode_nuls (n : ℕ) : encode (List.replicate n '\x00') = List.replicate n 0 := by
  induction n with
  | zero => rfl
  | succ n ih =>
      rw [List.replicate_succ, encode_cons, ih, List.replicate_succ]
      rfl

/-- Zero bytes at the end are NUL characters at the end. -/
theorem decodeReplace_append_zeros (bytes : List UInt8) (n : ℕ) :
    decodeReplace (bytes ++ List.replicate n 0) =
      decodeReplace bytes ++ List.replicate n '\x00' := by
  induction bytes using lenient_induct with
  | hnil =>
      rw [List.nil_append, ← encode_nuls, decodeReplace_encode, decodeReplace_nil,
        List.nil_append]
  | hchar c rest ih =>
      rw [List.append_assoc, decodeReplace_char, ih, decodeReplace_char, List.cons_append]
  | hbad bytes hne hbad ih =>
      have hne' : bytes ++ List.replicate n 0 ≠ [] := by simp [hne]
      rw [decodeReplace_bad hne' (firstChar_append_zeros hne hbad n), replaced_append_zeros hne,
        List.drop_append_of_le_length (replaced_le bytes), ih, decodeReplace_bad hne hbad,
        List.cons_append]

theorem decodeReplace_zeros (n : ℕ) :
    decodeReplace (List.replicate n 0) = List.replicate n '\x00' := by
  rw [← encode_nuls, decodeReplace_encode]

/-- A written text whose last bytes turned to zero reads as itself only if they were zero. -/
theorem torn_eq_of_decodeReplace {text : Text} {kept n : ℕ}
    (hlength : ((encode text).take kept).length + n = (encode text).length)
    (hread : decodeReplace ((encode text).take kept ++ List.replicate n 0) = text) :
    (encode text).take kept ++ List.replicate n 0 = encode text := by
  rw [decodeReplace_append_zeros] at hread
  have hencode : encode (decodeReplace ((encode text).take kept)) ++ List.replicate n 0 =
      encode text := by
    rw [← encode_nuls, ← encode_append, hread]
  have hlast : (encode text).drop kept = List.replicate n 0 := by
    rw [List.length_take] at hlength
    by_cases hkept : kept ≤ (encode text).length
    · have hfirst : (encode (decodeReplace ((encode text).take kept))).length = kept := by
        have hsum := congrArg List.length hencode
        rw [List.length_append, List.length_replicate] at hsum
        omega
      exact (congrArg (List.drop kept) hencode.symm).trans (List.drop_left' hfirst)
    · have hnone : n = 0 := by omega
      rw [hnone, List.drop_eq_nil_of_le (by omega)]
      rfl
  rw [← hlast, List.take_append_drop]

end VisioSchema.Library.Text

import Mathlib.Data.List.Basic
import VisioSchema.Reader.Decode

/-!
# The keyframe peek is exact

`is_keyframe` searches an access unit for start codes and reads the byte behind each of them.  On
an Annex B stream the search stops at the start codes of the units and nowhere else: inside a unit
there is none by emulation prevention, and one that begins in a unit's last bytes would need its
third byte to be the zero that every start code begins with.

So the scan walks the units one after the other, and its result is read off the list of their
headers (`headers`), each with the place where its start code ends.
-/

namespace VisioSchema.Reader

open VisioSchema.Wire

/-! ## Annex B -/

/-- `00 00 01` stands nowhere in the bytes. -/
def Emulated (bytes : List Byte) : Prop := ∀ i, startCodeAt bytes i = false

/-- A NAL unit behind a start code of 4 bytes (`long`) or 3. -/
structure NalUnit where
  long : Bool
  bytes : List Byte
  nonempty : bytes ≠ []
  emulated : Emulated bytes

/-- The start code. -/
def NalUnit.code (nal : NalUnit) : List Byte := if nal.long then [0, 0, 0, 1] else [0, 0, 1]

/-- The first byte, which holds the type. -/
def NalUnit.header (nal : NalUnit) : Byte := nal.bytes.head nal.nonempty

/-- The units, each behind its start code. -/
def annexB : List NalUnit → List Byte
  | [] => []
  | nal :: rest => nal.code ++ (nal.bytes ++ annexB rest)

/-- An access unit: leading zeros, then the units. -/
def accessUnitOf (zeros : ℕ) (units : List NalUnit) : List Byte :=
  List.replicate zeros 0 ++ annexB units

/-- The header of every unit, with the end of its start code. -/
def headers (offset : ℕ) : List NalUnit → List (ℕ × Byte)
  | [] => []
  | nal :: rest =>
      (offset + nal.code.length, nal.header) ::
        headers (offset + nal.code.length + nal.bytes.length) rest

/-- The type that a header byte holds. -/
def NalSyntax.typeOf (codec : NalSyntax) (header : Byte) : ℕ :=
  (header.toNat >>> codec.shift) &&& codec.mask

/-- The type is one of a slice. -/
def NalSyntax.slice (codec : NalSyntax) (header : Byte) : Bool :=
  codec.vclLo ≤ codec.typeOf header && codec.typeOf header ≤ codec.vclHi

/-- The type is in the IRAP or IDR range. -/
def NalSyntax.key (codec : NalSyntax) (header : Byte) : Bool :=
  codec.keyLo ≤ codec.typeOf header && codec.typeOf header ≤ codec.keyHi

/-- The first slice whose start code ends within the bytes that are searched. -/
def firstSlice (codec : NalSyntax) (zeros : ℕ) (units : List NalUnit) : Option (ℕ × Byte) :=
  (headers zeros units).find? fun header => header.1 ≤ maxPrefixBytes && codec.slice header.2

theorem NalUnit.length_code (nal : NalUnit) :
    nal.code.length = if nal.long then 4 else 3 := by
  unfold NalUnit.code
  split <;> rfl

theorem NalUnit.three_le_length_code (nal : NalUnit) : 3 ≤ nal.code.length := by
  rw [nal.length_code]
  split <;> omega

/-- All but the last byte of a start code are zeros. -/
theorem NalUnit.code_zero (nal : NalUnit) {i : ℕ} (hi : i + 1 < nal.code.length) :
    nal.code[i]? = some 0 := by
  have hlen := nal.length_code
  cases hlong : nal.long with
  | true =>
      rw [hlong, if_pos rfl] at hlen
      obtain rfl | rfl | rfl : i = 0 ∨ i = 1 ∨ i = 2 := by omega
      all_goals simp [NalUnit.code, hlong]
  | false =>
      rw [hlong, if_neg (by decide)] at hlen
      obtain rfl | rfl : i = 0 ∨ i = 1 := by omega
      all_goals simp [NalUnit.code, hlong]

theorem le_of_mem_headers {units : List NalUnit} {offset : ℕ} {header : ℕ × Byte}
    (hmem : header ∈ headers offset units) : offset ≤ header.1 := by
  induction units generalizing offset with
  | nil => cases hmem
  | cons nal rest ih =>
      rcases List.mem_cons.mp hmem with rfl | hrest
      · exact Nat.le_add_right _ _
      · have hle := ih hrest
        omega

/-! ## Where start codes stand -/

theorem startCodeAt_iff {accessUnit : List Byte} {i : ℕ} :
    startCodeAt accessUnit i = true ↔
      accessUnit[i]? = some 0 ∧ accessUnit[i + 1]? = some 0 ∧ accessUnit[i + 2]? = some 1 := by
  simp only [startCodeAt, Bool.and_eq_true, decide_eq_true_eq, and_assoc]

/-- Behind a front, what stands at a place is decided by the rest. -/
theorem startCodeAt_append_add (front rest : List Byte) (i : ℕ) :
    startCodeAt (front ++ rest) (front.length + i) = startCodeAt rest i := by
  have hat (j : ℕ) : (front ++ rest)[front.length + j]? = rest[j]? := by
    rw [List.getElem?_append_right (Nat.le_add_right _ _), Nat.add_sub_cancel_left]
  simp only [startCodeAt, hat, Nat.add_assoc]

theorem emulated_iff {bytes : List Byte} :
    Emulated bytes ↔ ∀ i < bytes.length, startCodeAt bytes i = false := by
  constructor
  · intro hbytes i _
    exact hbytes i
  · intro hin i
    by_cases hi : i < bytes.length
    · exact hin i hi
    · apply Bool.eq_false_iff.mpr
      intro hat
      obtain ⟨h0, -, -⟩ := startCodeAt_iff.mp hat
      rw [List.getElem?_eq_none (by omega)] at h0
      cases h0

instance (bytes : List Byte) : Decidable (Emulated bytes) :=
  decidable_of_iff _ emulated_iff.symm

theorem emulated_replicate (zeros : ℕ) : Emulated (List.replicate zeros 0) := by
  intro i
  apply Bool.eq_false_iff.mpr
  intro hat
  obtain ⟨-, -, h1⟩ := startCodeAt_iff.mp hat
  have hmem := List.mem_of_getElem? h1
  exact absurd (List.eq_of_mem_replicate hmem) (by decide)

/-- In front of the one of the next unit there is no start code: one that begins in `bytes` and
ends in `code` has a zero for its third byte. -/
theorem startCodeAt_before {bytes rest : List Byte} (hbytes : Emulated bytes) (nal : NalUnit)
    {i : ℕ} (hi : i + 3 < bytes.length + nal.code.length) :
    startCodeAt (bytes ++ (nal.code ++ rest)) i = false := by
  apply Bool.eq_false_iff.mpr
  intro hat
  obtain ⟨h0, h1, h2⟩ := startCodeAt_iff.mp hat
  by_cases hin : i + 2 < bytes.length
  · -- inside the unit before
    rw [List.getElem?_append_left (by omega)] at h0 h1 h2
    exact absurd (startCodeAt_iff.mpr ⟨h0, h1, h2⟩) (by simp [hbytes i])
  · -- the third byte is one of the zeros of the start code
    rw [List.getElem?_append_right (by omega), List.getElem?_append_left (by omega)] at h2
    have hzero := nal.code_zero (i := i + 2 - bytes.length) (by omega)
    rw [hzero] at h2
    exact absurd h2 (by decide)

/-- The last three bytes of a start code. -/
theorem startCodeAt_code (bytes rest : List Byte) (nal : NalUnit) :
    startCodeAt (bytes ++ (nal.code ++ rest)) (bytes.length + nal.code.length - 3) = true := by
  have hlen := nal.three_le_length_code
  rw [Nat.add_sub_assoc hlen, startCodeAt_append_add]
  unfold NalUnit.code
  split <;> rfl

/-! ## What the search finds -/

theorem findStartCode_eq_some {accessUnit : List Byte} {start limit i : ℕ} (hstart : start ≤ i)
    (hlimit : i + 3 ≤ limit) (hat : startCodeAt accessUnit i = true)
    (hbefore : ∀ j, start ≤ j → j < i → startCodeAt accessUnit j = false) :
    findStartCode accessUnit start limit = some i := by
  refine List.find?_range'_eq_some.mpr ⟨?_, ?_, ?_⟩
  · simp [hlimit, hat]
  · exact List.mem_range'_1.mpr ⟨hstart, by omega⟩
  · intro j hj hlt
    simp [hbefore j hj hlt]

theorem findStartCode_eq_none {accessUnit : List Byte} {start limit : ℕ}
    (hnone : ∀ j, start ≤ j → j + 3 ≤ limit → startCodeAt accessUnit j = false) :
    findStartCode accessUnit start limit = none := by
  refine List.find?_range'_eq_none.mpr fun j hj _ => ?_
  by_cases hle : j + 3 ≤ limit
  · simp [hnone j hj hle]
  · simp [hle]

/-- From the first byte of a unit on, the search finds the start code of the next, if that ends
before the limit. -/
theorem findStartCode_next {front bytes rest : List Byte} (hbytes : Emulated bytes) (nal : NalUnit)
    (limit : ℕ) :
    findStartCode (front ++ (bytes ++ (nal.code ++ rest))) front.length limit =
      if front.length + bytes.length + nal.code.length ≤ limit then
        some (front.length + bytes.length + nal.code.length - 3)
      else none := by
  have hlen := nal.three_le_length_code
  have hbefore (j : ℕ) (hj : front.length ≤ j)
      (hlt : j + 3 < front.length + bytes.length + nal.code.length) :
      startCodeAt (front ++ (bytes ++ (nal.code ++ rest))) j = false := by
    obtain ⟨d, rfl⟩ := Nat.exists_eq_add_of_le hj
    rw [startCodeAt_append_add]
    exact startCodeAt_before hbytes nal (by omega)
  split
  case isTrue hle =>
    apply findStartCode_eq_some (by omega) (by omega)
    · have hat := startCodeAt_code bytes rest nal
      rw [← startCodeAt_append_add front] at hat
      rw [show front.length + bytes.length + nal.code.length - 3 =
        front.length + (bytes.length + nal.code.length - 3) by omega]
      exact hat
    · intro j hj hlt
      exact hbefore j hj (by omega)
  case isFalse hlt =>
    apply findStartCode_eq_none
    intro j hj hle
    exact hbefore j hj (by omega)

/-- Behind the last unit there is nothing to find. -/
theorem findStartCode_last {front bytes : List Byte} (hbytes : Emulated bytes) (limit : ℕ) :
    findStartCode (front ++ bytes) front.length limit = none := by
  apply findStartCode_eq_none
  intro j hj _
  obtain ⟨d, rfl⟩ := Nat.exists_eq_add_of_le hj
  rw [startCodeAt_append_add]
  exact hbytes d

/-! ## The scan -/

/-- Whether the first slice of some headers is one of a keyframe. -/
def keySlice (codec : NalSyntax) (found : Option (ℕ × Byte)) : Bool :=
  match found with
  | some header => codec.key header.2
  | none => false

/-- Past the limit no header counts. -/
theorem find?_headers_past (codec : NalSyntax) {units : List NalUnit} {offset : ℕ}
    (hpast : maxPrefixBytes < offset) :
    (headers offset units).find? (fun header => header.1 ≤ maxPrefixBytes && codec.slice header.2)
      = none := by
  apply List.find?_eq_none.mpr
  intro header hmem
  have hle := le_of_mem_headers hmem
  simp [show ¬ header.1 ≤ maxPrefixBytes by omega]

/-- The byte behind a start code is the header of its unit. -/
theorem nalType_code (codec : NalSyntax) (front bytes rest : List Byte) (nal : NalUnit) :
    nalType codec (front ++ (bytes ++ (nal.code ++ (nal.bytes ++ rest))))
      (front.length + bytes.length + nal.code.length - 3) = codec.typeOf nal.header := by
  have hlen := nal.three_le_length_code
  have hat : (front ++ (bytes ++ (nal.code ++ (nal.bytes ++ rest))))[
      front.length + bytes.length + nal.code.length - 3 + 3]? = some nal.header := by
    rw [List.getElem?_append_right (by omega), List.getElem?_append_right (by omega),
      List.getElem?_append_right (by omega)]
    rw [show front.length + bytes.length + nal.code.length - 3 + 3 - front.length - bytes.length -
      nal.code.length = 0 by omega]
    rw [List.getElem?_append_left (List.length_pos_iff.mpr nal.nonempty)]
    exact List.head?_eq_getElem?.symm.trans (List.head?_eq_some_head nal.nonempty)
  rw [nalType, hat, Option.getD_some, NalSyntax.typeOf]

/-- The scan from the first byte of a unit on: `front` is behind, `bytes` are the unit's, and the
induction is on the units that follow. -/
theorem scanSlices_units (codec : NalSyntax) (units : List NalUnit) {front bytes : List Byte}
    (hbytes : Emulated bytes) {fuel : ℕ} (hfuel : units.length < fuel) {accessUnit : List Byte}
    (hau : accessUnit = front ++ (bytes ++ annexB units)) :
    scanSlices codec accessUnit (min accessUnit.length maxPrefixBytes) fuel
        (findStartCode accessUnit front.length (min accessUnit.length maxPrefixBytes)) =
      keySlice codec ((headers (front.length + bytes.length) units).find?
        fun header => header.1 ≤ maxPrefixBytes && codec.slice header.2) := by
  induction units generalizing front bytes fuel with
  | nil =>
      have hnone : findStartCode accessUnit front.length (min accessUnit.length maxPrefixBytes) =
          none := by
        rw [hau, annexB, List.append_nil]
        exact findStartCode_last hbytes _
      rw [hnone]
      cases fuel <;> rfl
  | cons nal rest ih =>
      obtain ⟨fuel, rfl⟩ : ∃ n, fuel = n + 1 := ⟨fuel - 1, by omega⟩
      have hcode := nal.three_le_length_code
      have hbody : 0 < nal.bytes.length := List.length_pos_iff.mpr nal.nonempty
      have hlen : accessUnit.length = front.length + bytes.length + nal.code.length +
          nal.bytes.length + (annexB rest).length := by
        rw [hau, annexB]
        simp only [List.length_append]
        omega
      have hfind := @findStartCode_next front bytes (nal.bytes ++ annexB rest) hbytes nal
        (min accessUnit.length maxPrefixBytes)
      rw [← annexB, ← hau] at hfind
      rw [hfind]
      by_cases hle : front.length + bytes.length + nal.code.length ≤ maxPrefixBytes
      · -- the header is read, and the scan ends with it or goes on behind it
        have hnal := nalType_code codec front bytes (annexB rest) nal
        rw [← annexB, ← hau] at hnal
        rw [if_pos (by omega), scanSlices, if_pos (by omega), hnal, headers, List.find?_cons]
        by_cases hslice : codec.slice nal.header = true
        · have hrange : codec.vclLo ≤ codec.typeOf nal.header ∧
              codec.typeOf nal.header ≤ codec.vclHi := by
            simpa [NalSyntax.slice] using hslice
          simp [hrange, hle, hslice, keySlice, NalSyntax.key]
        · have hrange : ¬ (codec.vclLo ≤ codec.typeOf nal.header ∧
              codec.typeOf nal.header ≤ codec.vclHi) := by
            simpa [NalSyntax.slice] using hslice
          have hnext := @ih (front ++ (bytes ++ nal.code)) nal.bytes nal.emulated fuel
            (by simp only [List.length_cons] at hfuel; omega)
            (by rw [hau, annexB]; simp only [List.append_assoc])
          simp only [List.length_append, ← Nat.add_assoc] at hnext
          simp only [if_neg hrange, hle, hslice, decide_true, Bool.and_false]
          rw [show front.length + bytes.length + nal.code.length - 3 + 3 =
            front.length + bytes.length + nal.code.length by omega]
          exact hnext
      · -- the search ends at the limit, and every header that follows lies behind it
        rw [if_neg (by omega), headers, List.find?_cons,
          find?_headers_past codec (by omega)]
        simp [hle, scanSlices, keySlice]

theorem length_le_annexB (units : List NalUnit) : units.length ≤ (annexB units).length := by
  induction units with
  | nil => exact Nat.le_refl 0
  | cons nal rest ih =>
      have hcode := nal.three_le_length_code
      simp only [annexB, List.length_append, List.length_cons]
      omega

/-- The keyframe peek of a codec with a parser: `True` exactly when the first slice whose start
code ends within the prefix bound is there and is one of a keyframe. -/
theorem isKeyframe_exact {format : Text} {codec : Codec} {fields : NalSyntax}
    (hcodec : avCodec (lower format) = some codec) (hrow : nalSyntax codec = some fields)
    (zeros : ℕ) (units : List NalUnit) :
    ∃ verdict, isKeyframe format (accessUnitOf zeros units) = some verdict ∧
      (verdict = true ↔
        ∃ header, firstSlice fields zeros units = some header ∧ fields.key header.2 = true) := by
  have hfuel : units.length < (accessUnitOf zeros units).length + 1 := by
    have hle := length_le_annexB units
    simp only [accessUnitOf, List.length_append]
    omega
  have hscan := @scanSlices_units fields units [] _ (emulated_replicate zeros) _ hfuel
    (accessUnitOf zeros units) rfl
  simp only [List.length_nil, List.length_replicate, Nat.zero_add] at hscan
  refine ⟨keySlice fields (firstSlice fields zeros units), ?_, ?_⟩
  · rw [firstSlice, ← hscan]
    cases codec with
    | hevc => simp only [isKeyframe, hcodec, hrow]
    | h264 => simp only [isKeyframe, hcodec, hrow]
    | av1 => cases hrow
    | mjpeg => cases hrow
  · unfold keySlice
    cases firstSlice fields zeros units with
    | none => simp
    | some header => simp

theorem emulated_parameterSet : Emulated [0x40, 1, 0] := by decide

theorem emulated_idrSlice : Emulated [0x26, 1, 0xAF] := by decide

/-- A parameter set that ends in a zero, and the slice of an IDR picture. -/
def idrUnits : List NalUnit :=
  [⟨true, [0x40, 1, 0], List.cons_ne_nil _ _, emulated_parameterSet⟩,
    ⟨false, [0x26, 1, 0xAF], List.cons_ne_nil _ _, emulated_idrSlice⟩]

theorem isKeyframe_exact_idr :
    (∃ verdict, isKeyframe ['H', '2', '6', '5'] (accessUnitOf 2 idrUnits) = some verdict ∧
      (verdict = true ↔ ∃ header,
        firstSlice ⟨1, 0x3F, 0, 31, 16, 21⟩ 2 idrUnits = some header ∧
          NalSyntax.key ⟨1, 0x3F, 0, 31, 16, 21⟩ header.2 = true)) ∧
      firstSlice ⟨1, 0x3F, 0, 31, 16, 21⟩ 2 idrUnits = some (12, 0x26) :=
  ⟨@isKeyframe_exact ['H', '2', '6', '5'] .hevc ⟨1, 0x3F, 0, 31, 16, 21⟩ (by decide) rfl 2 idrUnits,
    by decide⟩

end VisioSchema.Reader

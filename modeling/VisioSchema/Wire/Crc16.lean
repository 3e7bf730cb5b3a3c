import VisioSchema.Library.Crc
import VisioSchema.Wire.Codec

/-!
# The table-driven CRC

`Crc16` takes a byte at a time from a table of 256 entries; `crc16_eq_bitwise` shows it
to be the shift register with polynomial 0x1021 and initial value 0xFFFF, fed the
bytes most significant bit first.
-/

namespace VisioSchema.Wire

open Library

/-- The bits of a byte, most significant first. -/
def msbFirst (byte : Byte) : List Bool := (List.range 8).map byte.toBitVec.getMsbD

/-- The bits of a byte string in the order in which the CRC takes them. -/
def bitsOf (bytes : List Byte) : List Bool := bytes.flatMap msbFirst

/-- The bitwise CRC-16/CCITT-FALSE. -/
def crc16Bitwise (bytes : List Byte) : BitVec 16 := Crc.feed 0x1021 0xFFFF (bitsOf bytes)

@[simp] theorem length_msbFirst (byte : Byte) : (msbFirst byte).length = 8 := by
  simp [msbFirst]

theorem bitsOf_cons (byte : Byte) (bytes : List Byte) :
    bitsOf (byte :: bytes) = msbFirst byte ++ bitsOf bytes := List.flatMap_cons ..

theorem getD_msbFirst (byte : Byte) (i : ℕ) :
    (msbFirst byte).getD i false = byte.toBitVec.getMsbD i := by
  by_cases hi : i < 8
  · rw [List.getD_eq_getElem _ _ (by simpa using hi)]
    simp [msbFirst]
  · rw [List.getD_eq_default _ _ (by simpa using hi), BitVec.getMsbD_of_ge _ _ (by omega)]

theorem msbFirst_injective {a b : Byte} (heq : msbFirst a = msbFirst b) : a = b := by
  refine UInt8.toBitVec_inj.mp (BitVec.eq_of_getMsbD_eq fun i _ => ?_)
  rw [← getD_msbFirst, ← getD_msbFirst, heq]

/-! ## The table -/

theorem topBit_eq_msb (crc : UInt16) : (crc &&& 0x8000 != 0) = crc.toBitVec.msb := by
  have hmask : (crc &&& 0x8000).toBitVec = crc.toBitVec &&& BitVec.twoPow 16 15 := rfl
  rw [BitVec.and_twoPow, ← BitVec.msb_eq_getLsbD_last] at hmask
  cases hmsb : crc.toBitVec.msb with
  | false =>
      rw [hmsb, if_neg (by simp)] at hmask
      have hzero : crc &&& 0x8000 = 0 := UInt16.toBitVec_inj.mp hmask
      simp [hzero]
  | true =>
      rw [hmsb, if_pos rfl] at hmask
      have hone : crc &&& 0x8000 = 0x8000 := UInt16.toBitVec_inj.mp hmask
      simp [hone]

theorem tableShift_toBitVec (crc : UInt16) :
    (if crc &&& 0x8000 != 0 then (crc <<< 1) ^^^ 0x1021 else crc <<< 1).toBitVec =
      Crc.shift 0x1021 crc.toBitVec false := by
  rw [topBit_eq_msb, Crc.shift, Bool.xor_false]
  cases crc.toBitVec.msb <;> rfl

/-- An entry is eight steps of the register. -/
theorem crcTableEntry_toBitVec (i : ℕ) :
    (crcTableEntry i).toBitVec =
      Crc.feed 0x1021 ((UInt16.ofNat i).toBitVec <<< 8) (List.replicate 8 false) := by
  have hsteps : ∀ (n : ℕ) (start : UInt16), ((List.range n).foldl (fun (crc : UInt16) (_ : ℕ) =>
      if crc &&& 0x8000 != 0 then (crc <<< 1) ^^^ 0x1021 else crc <<< 1) start).toBitVec =
        Crc.feed 0x1021 start.toBitVec (List.replicate n false) := by
    intro n start
    induction n with
    | zero => rfl
    | succ n ih =>
        rw [List.range_succ, List.foldl_append, List.foldl_cons, List.foldl_nil,
          tableShift_toBitVec, ih, List.replicate_succ', Crc.feed_append]
        rfl
  rw [crcTableEntry, hsteps]
  rfl

theorem getLsbD_lowByte {i : ℕ} (hi : i < 16) :
    (0xFF : BitVec 16).getLsbD i = decide (i < 8) := by
  revert i
  decide

/-- The register split at the byte that the table looks up. -/
theorem register_split (crc byte : BitVec 16) :
    crc ^^^ (byte <<< 8) = (((crc >>> 8) ^^^ byte) &&& 0xFF) <<< 8 ^^^ (crc &&& 0xFF) := by
  refine BitVec.eq_of_getLsbD_eq fun i hi => ?_
  have hmask := getLsbD_lowByte hi
  have hmask' := getLsbD_lowByte (i := i - 8) (by omega)
  simp only [BitVec.getLsbD_xor, BitVec.getLsbD_shiftLeft, BitVec.getLsbD_and,
    BitVec.getLsbD_ushiftRight, hmask, hmask', hi, decide_true, Bool.true_and]
  by_cases hlow : i < 8
  · simp [hlow]
  · have hback : 8 + (i - 8) = i := by omega
    have hrange : i - 8 < 8 := by omega
    simp [hlow, hback, hrange]

/-- One byte through the table is its eight bits through the register. -/
theorem crc16Step_toBitVec (crc : UInt16) (byte : Byte) :
    (crc16Step crc byte).toBitVec = Crc.feed 0x1021 crc.toBitVec (msbFirst byte) := by
  have hbyte : ∀ i < 16,
      (byte.toUInt16.toBitVec <<< 8).getMsbD i = (msbFirst byte).getD i false := by
    intro i _
    rw [getD_msbFirst, BitVec.getMsbD_shiftLeft, UInt8.toBitVec_toUInt16, BitVec.getMsbD_setWidth]
    simp
  have hlow : ∀ i < 8, (crc.toBitVec &&& 0xFF).getMsbD i = false := by
    intro i hi
    have hmask : (0xFF : BitVec 16).getMsbD i = false := by
      revert i
      decide
    rw [BitVec.getMsbD_and, hmask, Bool.and_false]
  have hshift : (crc.toBitVec &&& 0xFF) <<< 8 = crc.toBitVec <<< 8 := by
    refine BitVec.eq_of_getLsbD_eq fun i hi => ?_
    have hmask := getLsbD_lowByte (i := i - 8) (by omega)
    have hrange : i - 8 < 8 := by omega
    simp only [BitVec.getLsbD_shiftLeft, BitVec.getLsbD_and, hmask, hrange, decide_true,
      Bool.and_true]
  rw [Crc.feed_eq_feed_zeros _ (by simp) hbyte, length_msbFirst, register_split,
    Crc.feed_zeros_xor, Crc.feed_zeros_of_low _ hlow, hshift, BitVec.xor_comm]
  rw [crc16Step, UInt16.toBitVec_xor, crcTableEntry_toBitVec, UInt16.ofNat_toNat]
  rfl

/-- `Crc16` is the bitwise CRC. -/
theorem crc16_eq_bitwise (bytes : List Byte) : (crc16 bytes).toBitVec = crc16Bitwise bytes := by
  have hsteps : ∀ crc : UInt16,
      (bytes.foldl crc16Step crc).toBitVec = Crc.feed 0x1021 crc.toBitVec (bitsOf bytes) := by
    induction bytes with
    | nil => exact fun _ => rfl
    | cons byte bytes ih =>
        intro crc
        rw [List.foldl_cons, ih, crc16Step_toBitVec, bitsOf_cons, Crc.feed_append]
  exact hsteps 0xFFFF

example : crc16 [0x31, 0x32, 0x33, 0x34, 0x35, 0x36, 0x37, 0x38, 0x39] = 0x29B1 := by decide +kernel

/-! ## Differences -/

/-- Two byte strings that differ in a burst of at most sixteen consecutive bits. -/
def Burst (sent received : List Byte) : Prop :=
  ∃ front old new back, bitsOf sent = front ++ old ++ back ∧
    bitsOf received = front ++ new ++ back ∧ old.length = new.length ∧ old.length ≤ 16 ∧ old ≠ new

/-- Two byte strings of one length that differ in exactly one byte. -/
def OneByte (sent received : List Byte) : Prop :=
  ∃ front old new back, sent = front ++ old :: back ∧ received = front ++ new :: back ∧ old ≠ new

theorem Burst.crc16_ne {sent received : List Byte} (hburst : Burst sent received) :
    crc16 sent ≠ crc16 received := by
  obtain ⟨front, old, new, back, hsent, hreceived, hlength, hle, hne⟩ := hburst
  intro heq
  have hbits := congrArg UInt16.toBitVec heq
  rw [crc16_eq_bitwise, crc16_eq_bitwise, crc16Bitwise, crc16Bitwise, hsent, hreceived] at hbits
  exact Crc.feed_ne_of_burst (by decide) _ front back hlength hle hne hbits

theorem OneByte.burst {sent received : List Byte} (hone : OneByte sent received) :
    Burst sent received := by
  obtain ⟨front, old, new, back, rfl, rfl, hne⟩ := hone
  refine ⟨bitsOf front, msbFirst old, msbFirst new, bitsOf back, ?_, ?_, ?_, ?_, ?_⟩
  · simp [bitsOf]
  · simp [bitsOf]
  · rw [length_msbFirst, length_msbFirst]
  · rw [length_msbFirst]
    omega
  · exact fun heq => hne (msbFirst_injective heq)

end VisioSchema.Wire

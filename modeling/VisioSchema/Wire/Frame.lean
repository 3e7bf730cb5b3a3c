import Mathlib.Data.List.Basic
import VisioSchema.Wire.Cobs
import VisioSchema.Wire.Crc16

/-!
# Reading a core frame

`DecodeFrame`, its round trip with `EncodeFrame`, and what it does with damaged
frames.  Parsing the header bytes is nanopb's part: `pbDecode` stands for it.
-/

namespace VisioSchema.Wire

inductive FrameStatus where
  | ok
  | frameTooShort
  | headerLenOverflow
  | crcMismatch
  | headerParseError
  deriving DecidableEq, Repr

/-- `ReadU16LE`. -/
def readU16LE (bytes : List Byte) : UInt16 :=
  (bytes.getD 0 0).toUInt16 ||| (bytes.getD 1 0).toUInt16 <<< 8

/-- The fields that `DecodeFrame` assigns; the others of `*out` keep their values. -/
def fromHeader (header : Header) (payload : List Byte) (out : Message) : Message :=
  { out with
    streamId := header.streamId
    seq := header.seq
    timestamp := header.timestamp.getD {}
    keyframe := header.keyframe
    clockAuthorityEpoch := header.clockAuthorityEpoch
    clockRevision := header.clockRevision
    syncPoint := header.syncPoint.getD {}
    payload := payload }

/-- The bytes under the CRC: all but the last two. -/
def covered (frame : List Byte) : List Byte := frame.take (frame.length - 2)

/-- `DecodeFrame`; the message is `*out`. -/
def decodeFrame (pbDecode : List Byte → Option Header) (frame : List Byte) (out : Message) :
    FrameStatus × Message :=
  if frame.length < 3 then (.frameTooShort, out)
  else
    let headerLen := (frame.getD 0 0).toNat
    let payloadEnd := 1 + headerLen
    if payloadEnd + 2 > frame.length then (.headerLenOverflow, out)
    else if readU16LE (frame.drop (frame.length - 2)) ≠ crc16 (covered frame) then
      (.crcMismatch, out)
    else
      match pbDecode ((frame.drop 1).take headerLen) with
      | none => (.headerParseError, out)
      | some header =>
          let payload := (frame.drop payloadEnd).take (frame.length - payloadEnd - 2)
          (.ok, fromHeader header payload out)

/-! ## The trailing CRC -/

@[simp] theorem length_packU16LE (v : UInt16) : (packU16LE v).length = 2 := rfl

theorem readU16LE_packU16LE (v : UInt16) : readU16LE (packU16LE v) = v := by
  refine UInt16.toBitVec_inj.mp (BitVec.eq_of_getLsbD_eq fun i hi => ?_)
  have hmask := getLsbD_lowByte hi
  have hmask' := getLsbD_lowByte (i := i - 8) (by omega)
  change ((((v.toBitVec &&& 0xFF).setWidth 8).setWidth 16) |||
    (((v.toBitVec >>> 8 &&& 0xFF).setWidth 8).setWidth 16) <<< 8).getLsbD i = _
  simp only [BitVec.getLsbD_or, BitVec.getLsbD_setWidth, BitVec.getLsbD_and,
    BitVec.getLsbD_shiftLeft, BitVec.getLsbD_ushiftRight, hmask, hmask']
  by_cases hlow : i < 8
  · simp [hlow, hi]
  · have hback : 8 + (i - 8) = i := by omega
    have hrange : i - 8 < 8 := by omega
    simp [hlow, hi, hback, hrange]
    omega

theorem packU16LE_readU16LE (a b : Byte) : packU16LE (readU16LE [a, b]) = [a, b] := by
  have hlow : (readU16LE [a, b] &&& 0xFF).toUInt8 = a := by
    refine UInt8.toBitVec_inj.mp (BitVec.eq_of_getLsbD_eq fun i hi => ?_)
    have hmask := getLsbD_lowByte (i := i) (by omega)
    have hwide : i < 16 := by omega
    change ((((a.toBitVec.setWidth 16) ||| (b.toBitVec.setWidth 16) <<< 8) &&&
      0xFF).setWidth 8).getLsbD i = _
    simp only [BitVec.getLsbD_setWidth, BitVec.getLsbD_and, BitVec.getLsbD_or,
      BitVec.getLsbD_shiftLeft, hmask]
    simp [hi, hwide]
  have hhigh : ((readU16LE [a, b] >>> 8) &&& 0xFF).toUInt8 = b := by
    refine UInt8.toBitVec_inj.mp (BitVec.eq_of_getLsbD_eq fun i hi => ?_)
    have hmask := getLsbD_lowByte (i := i) (by omega)
    have hwide : i < 16 := by omega
    have hshifted : 8 + i < 16 := by omega
    have hnot : ¬8 + i < 8 := by omega
    have ha : a.toBitVec.getLsbD (8 + i) = false := BitVec.getLsbD_of_ge _ _ (by omega)
    change (((((a.toBitVec.setWidth 16) ||| (b.toBitVec.setWidth 16) <<< 8) >>> 8) &&&
      0xFF).setWidth 8).getLsbD i = _
    simp only [BitVec.getLsbD_setWidth, BitVec.getLsbD_and, BitVec.getLsbD_or,
      BitVec.getLsbD_shiftLeft, BitVec.getLsbD_ushiftRight, hmask, ha]
    simp [hi, hwide, hshifted, hnot]
  rw [packU16LE, hlow, hhigh]

/-- The two bytes are determined by the value read. -/
theorem readU16LE_injective {first second : List Byte} (hfirst : first.length = 2)
    (hsecond : second.length = 2) (heq : readU16LE first = readU16LE second) : first = second := by
  obtain ⟨a, b, rfl⟩ := List.length_eq_two.mp hfirst
  obtain ⟨c, d, rfl⟩ := List.length_eq_two.mp hsecond
  rw [← packU16LE_readU16LE a b, heq, packU16LE_readU16LE]

/-! ## Round trip -/

section Frames

variable {pbEncode : Header → List Byte} {pbDecode : List Byte → Option Header}

theorem covered_append {body crc : List Byte} (hcrc : crc.length = 2) :
    covered (body ++ crc) = body := by
  rw [covered, List.length_append, hcrc, Nat.add_sub_cancel, List.take_left]

theorem drop_append_crc {body crc : List Byte} (hcrc : crc.length = 2) :
    (body ++ crc).drop ((body ++ crc).length - 2) = crc := by
  rw [List.length_append, hcrc, Nat.add_sub_cancel, List.drop_left]

/-- The parts of a frame are where a decoder looks for them. -/
structure Whole (header payload frame : List Byte) : Prop where
  headerLen : (frame.getD 0 0).toNat = header.length
  length : frame.length = 1 + header.length + payload.length + 2
  crc : readU16LE (frame.drop (frame.length - 2)) = crc16 (covered frame)
  headerAt : (frame.drop 1).take header.length = header
  payloadAt : (frame.drop (1 + header.length)).take (frame.length - (1 + header.length) - 2) =
    payload

theorem whole_frame {header : List Byte} (hsize : header.length ≤ 255) (payload : List Byte) :
    let body := UInt8.ofNat header.length :: (header ++ payload)
    Whole header payload (body ++ packU16LE (crc16 body)) := by
  intro body
  have hcrc := length_packU16LE (crc16 body)
  have hlength : (body ++ packU16LE (crc16 body)).length =
      1 + header.length + payload.length + 2 := by
    simp only [body, List.length_append, List.length_cons, hcrc]
    omega
  refine ⟨?_, hlength, ?_, ?_, ?_⟩
  · change (UInt8.ofNat header.length).toNat = header.length
    rw [UInt8.toNat_ofNat']
    omega
  · rw [covered_append hcrc, drop_append_crc hcrc, readU16LE_packU16LE]
  · change ((header ++ payload) ++ packU16LE (crc16 body)).take header.length = header
    rw [List.append_assoc, List.take_left]
  · have hcount : 1 + header.length + payload.length + 2 - (1 + header.length) - 2 =
        payload.length := by omega
    rw [hlength, hcount, ← List.drop_drop]
    change (((header ++ payload) ++ packU16LE (crc16 body)).drop header.length).take
      payload.length = payload
    rw [List.append_assoc, List.drop_left, List.take_left]

/-- A frame that is whole comes down to parsing its header. -/
theorem decodeFrame_whole {header payload frame : List Byte} (hwhole : Whole header payload frame)
    (out : Message) :
    decodeFrame pbDecode frame out =
      match pbDecode header with
      | none => (.headerParseError, out)
      | some parsed => (.ok, fromHeader parsed payload out) := by
  have hlength := hwhole.length
  rw [decodeFrame]
  dsimp only
  rw [hwhole.headerLen, hwhole.headerAt, hwhole.payloadAt, if_neg (by omega), if_neg (by omega),
    if_neg (fun hne => hne hwhole.crc)]

/-- What crosses the wire: the serialized fields, into a fresh message. -/
def received (msg : Message) : Message := fromHeader (toHeader msg) msg.payload {}

theorem decodeFrame_encodeFrame {msg : Message}
    (hheader : pbDecode (pbEncode (toHeader msg)) = some (toHeader msg))
    (hsize : (pbEncode (toHeader msg)).length ≤ 255) :
    decodeFrame pbDecode (encodeFrame pbEncode msg) {} = (.ok, received msg) := by
  have hparts := @decodeFrame_whole pbDecode _ _ _ (whole_frame hsize msg.payload) {}
  rw [hheader] at hparts
  exact hparts

/-! ## Damaged frames -/

theorem crc_of_decodeFrame_ok {frame : List Byte} {out : Message}
    (hok : (decodeFrame pbDecode frame out).1 = .ok) :
    readU16LE (frame.drop (frame.length - 2)) = crc16 (covered frame) := by
  rw [decodeFrame] at hok
  by_cases hshort : frame.length < 3
  · rw [if_pos hshort] at hok
    cases hok
  rw [if_neg hshort] at hok
  dsimp only at hok
  by_cases hlong : 1 + (frame.getD 0 0).toNat + 2 > frame.length
  · rw [if_pos hlong] at hok
    cases hok
  rw [if_neg hlong] at hok
  by_cases hcrc : readU16LE (frame.drop (frame.length - 2)) = crc16 (covered frame)
  · exact hcrc
  · rw [if_pos hcrc] at hok
    cases hok

/-- A burst of at most sixteen bits under the CRC, the CRC itself intact. -/
structure CoveredBurst (sent received : List Byte) : Prop where
  burst : Burst (covered sent) (covered received)
  crc : received.drop (received.length - 2) = sent.drop (sent.length - 2)

/-- A frame whose body is damaged under its own CRC is not accepted. -/
theorem CoveredBurst.not_ok {body received : List Byte}
    (hburst : CoveredBurst (body ++ packU16LE (crc16 body)) received) (out : Message) :
    (decodeFrame pbDecode received out).1 ≠ .ok := by
  intro hok
  have hcrc := crc_of_decodeFrame_ok hok
  rw [hburst.crc, drop_append_crc (length_packU16LE _), readU16LE_packU16LE] at hcrc
  have hne := hburst.burst.crc16_ne
  rw [covered_append (length_packU16LE _)] at hne
  exact hne hcrc

theorem OneByte.not_ok {body received : List Byte}
    (hone : OneByte (body ++ packU16LE (crc16 body)) received) (out : Message) :
    (decodeFrame pbDecode received out).1 ≠ .ok := by
  obtain ⟨front, old, new, back, hsent, rfl, hne⟩ := hone
  have hcrc := length_packU16LE (crc16 body)
  by_cases hback : 2 ≤ back.length
  · -- In the body: a burst of eight bits.
    obtain ⟨middle, tail, rfl, htail⟩ :
        ∃ middle tail : List Byte, back = middle ++ tail ∧ tail.length = 2 :=
      ⟨back.take (back.length - 2), back.drop (back.length - 2), (List.take_append_drop ..).symm,
        by rw [List.length_drop]; omega⟩
    have hsplit : body ++ packU16LE (crc16 body) = (front ++ old :: middle) ++ tail := by
      rw [hsent, List.append_assoc, List.cons_append]
    obtain ⟨hbody, hcrc'⟩ := List.append_inj' hsplit (hcrc.trans htail.symm)
    have hreceived : front ++ new :: (middle ++ tail) = (front ++ new :: middle) ++ tail := by
      rw [List.append_assoc, List.cons_append]
    rw [hreceived]
    refine @CoveredBurst.not_ok _ body _ ⟨?_, ?_⟩ out
    · rw [covered_append hcrc, covered_append htail, hbody]
      exact OneByte.burst ⟨front, old, new, middle, rfl, rfl, hne⟩
    · rw [drop_append_crc hcrc, drop_append_crc htail, hcrc']
  · -- In the CRC: the body is intact.
    intro hok
    have hsum := crc_of_decodeFrame_ok hok
    have hlength := congrArg List.length hsent
    simp only [List.length_append, List.length_cons, hcrc] at hlength
    have hbody : front.take body.length = body := by
      have htake := congrArg (List.take body.length) hsent
      rw [List.take_left, List.take_append_of_le_length (by omega)] at htake
      exact htake.symm
    obtain ⟨rest, rfl⟩ : ∃ rest, front = body ++ rest := by
      refine ⟨front.drop body.length, ?_⟩
      calc front = front.take body.length ++ front.drop body.length :=
            (List.take_append_drop ..).symm
        _ = body ++ front.drop body.length := by rw [hbody]
    rw [List.append_assoc] at hsent
    have htail : packU16LE (crc16 body) = rest ++ old :: back := List.append_cancel_left hsent
    have hnew : (rest ++ new :: back).length = 2 := by
      rw [← hcrc, htail]
      simp
    rw [List.append_assoc, drop_append_crc hnew, covered_append hnew,
      ← readU16LE_packU16LE (crc16 body)] at hsum
    have heq := readU16LE_injective hnew hcrc hsum
    rw [htail] at heq
    exact hne (List.cons.inj (List.append_cancel_left heq)).1.symm

/-- No damaged frame is accepted, not even one whose `HEADER_LEN` or CRC is damaged. -/
theorem decodeFrame_damaged (msg : Message) {received : List Byte}
    (hdamage : OneByte (encodeFrame pbEncode msg) received ∨
      CoveredBurst (encodeFrame pbEncode msg) received) (out : Message) :
    (decodeFrame pbDecode received out).1 ≠ .ok := by
  rcases hdamage with hone | hburst
  · exact hone.not_ok out
  · exact hburst.not_ok out

end Frames

/-- The table is the bitwise CRC, and through it the decoder refuses every frame that
was damaged in one byte or in a burst of at most sixteen bits. -/
theorem corruption_detected :
    (∀ bytes, (crc16 bytes).toBitVec = crc16Bitwise bytes) ∧
      ∀ (pbEncode : Header → List Byte) (pbDecode : List Byte → Option Header) (msg : Message)
        (damaged : List Byte) (out : Message),
        OneByte (encodeFrame pbEncode msg) damaged ∨
          CoveredBurst (encodeFrame pbEncode msg) damaged →
            (decodeFrame pbDecode damaged out).1 ≠ .ok :=
  ⟨crc16_eq_bitwise, fun _ _ msg _ out hdamage => decodeFrame_damaged msg hdamage out⟩

/-- A frame whose `HEADER_LEN` lost a bit. -/
theorem corruption_detected_headerLen :
    (decodeFrame (fun bytes => if bytes = [0x1A, 0x00] then some (toHeader {}) else none)
      (0 :: (encodeFrame nanopbHeader {}).drop 1) {}).1 ≠ .ok :=
  corruption_detected.2 nanopbHeader _ {} _ {}
    (Or.inl ⟨[], 2, 0, (encodeFrame nanopbHeader {}).drop 1, by decide +kernel, rfl, by decide⟩)

end VisioSchema.Wire

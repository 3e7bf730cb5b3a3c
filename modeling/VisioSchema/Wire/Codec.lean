import VisioSchema.Wire.Message

/-!
# Frames on the wire

`Crc16`, `CobsEncode`, `EncodeFrame` and `EncodeFramed`.  The header bytes come
from nanopb, which is not part of the repository: `pbEncode` stands for it, and
`nanopbHeader` follows the protobuf encoding of `header.proto`.
-/

namespace VisioSchema.Wire

/-! ## CRC-16 -/

/-- One entry of the 256-entry table, as `MakeTable` fills it. -/
def crcTableEntry (i : ℕ) : UInt16 :=
  (List.range 8).foldl
    (fun crc _ => if crc &&& 0x8000 != 0 then (crc <<< 1) ^^^ 0x1021 else crc <<< 1)
    (UInt16.ofNat i <<< 8)

def crc16Step (crc : UInt16) (byte : Byte) : UInt16 :=
  (crc <<< 8) ^^^ crcTableEntry (((crc >>> 8) ^^^ byte.toUInt16) &&& 0xFF).toNat

/-- `Crc16`. -/
def crc16 (bytes : List Byte) : UInt16 := bytes.foldl crc16Step 0xFFFF

/-- `PackU16LE`. -/
def packU16LE (v : UInt16) : List Byte := [(v &&& 0xFF).toUInt8, ((v >>> 8) &&& 0xFF).toUInt8]

/-! ## COBS -/

/-- The encoder's pointers: `out` is what lies between `base` and `p`. -/
structure CobsState where
  out : List Byte
  codePtr : ℕ
  code : Byte
  blockOpen : Bool

/-- `*code_ptr = code; code_ptr = p++; code = 1`. -/
def CobsState.flush (s : CobsState) (blockOpen : Bool) : CobsState where
  out := s.out.set s.codePtr s.code ++ [0]
  codePtr := s.out.length
  code := 1
  blockOpen := blockOpen

def cobsStep (s : CobsState) (byte : Byte) : CobsState :=
  if byte = 0 then s.flush true
  else
    let s := { s with out := s.out ++ [byte], code := s.code + 1, blockOpen := true }
    if s.code = 0xFF then s.flush false else s

/-- `CobsEncode`. -/
def cobsEncode (data : List Byte) : List Byte :=
  let s := data.foldl cobsStep { out := [0], codePtr := 0, code := 1, blockOpen := true }
  -- A block opened speculatively after a full one is dropped when nothing follows it.
  if s.blockOpen then s.out.set s.codePtr s.code else s.out.dropLast

/-! ## Frames -/

section Frames

variable (pbEncode : Header → List Byte)

/-- `EncodeFrame`. -/
def encodeFrame (msg : Message) : List Byte :=
  let header := pbEncode (toHeader msg)
  let covered := UInt8.ofNat header.length :: (header ++ msg.payload)
  covered ++ packU16LE (crc16 covered)

/-- `EncodeFramed`: one COBS run and its delimiter. -/
def encodeFramed (msg : Message) : List Byte := cobsEncode (encodeFrame pbEncode msg) ++ [0]

variable {pbEncode}

theorem encodeFramed_ne_nil (msg : Message) : encodeFramed pbEncode msg ≠ [] := by
  simp [encodeFramed]

end Frames

/-- A message as a producer hands it to a sink, with the cache of its framed
bytes that the first sink to frame it fills in. -/
structure Outgoing (pbEncode : Header → List Byte) where
  msg : Message
  framed : Option (List Byte) := none
  framed_eq : ∀ bytes ∈ framed, bytes = encodeFramed pbEncode msg := by simp

/-- The bytes a sink enqueues: the cached ones, or a fresh encoding. -/
def Outgoing.frame {pbEncode : Header → List Byte} (out : Outgoing pbEncode) : List Byte :=
  match out.framed with
  | some bytes => bytes
  | none => encodeFramed pbEncode out.msg

@[simp] theorem Outgoing.frame_eq {pbEncode : Header → List Byte} (out : Outgoing pbEncode) :
    out.frame = encodeFramed pbEncode out.msg := by
  unfold Outgoing.frame
  split
  next bytes hframed => exact out.framed_eq bytes hframed
  next => rfl

/-! ## The protobuf encoding of the header -/

/-- Base-128 varint; ten bytes hold every 64-bit value. -/
def varint : ℕ → ℕ → List Byte
  | 0, _ => []
  | fuel + 1, n =>
      if n < 128 then [UInt8.ofNat n] else UInt8.ofNat (n % 128 + 128) :: varint fuel (n / 128)

/-- A proto3 varint field, absent when it holds the default. -/
def varintField (tag n : ℕ) : List Byte :=
  if n = 0 then [] else UInt8.ofNat (tag * 8) :: varint 10 n

/-- Signed values are sent as their 64-bit two's complement. -/
def intField (tag : ℕ) (n : ℤ) : List Byte := varintField tag (n % 18446744073709551616).toNat

def fixed64Field (tag n : ℕ) : List Byte :=
  if n = 0 then []
  else UInt8.ofNat (tag * 8 + 1) :: (List.range 8).map fun i => UInt8.ofNat ((n >>> (8 * i)) % 256)

def submessage (tag : ℕ) (body : List Byte) : List Byte :=
  UInt8.ofNat (tag * 8 + 2) :: (varint 10 body.length ++ body)

/-- What nanopb writes for a `Header`, field by field in tag order. -/
def nanopbHeader (h : Header) : List Byte :=
  varintField 1 h.streamId ++ varintField 2 h.seq ++
    (h.timestamp.elim [] fun ts => submessage 3 (intField 1 ts.seconds ++ intField 2 ts.nanos)) ++
    varintField 4 h.keyframe.toNat ++ fixed64Field 5 h.clockAuthorityEpoch ++
    varintField 6 h.clockRevision ++
    (h.syncPoint.elim [] fun point => submessage 7 (fixed64Field 1 point.authorityEpoch ++
      varintField 2 point.gridGeneration ++ varintField 3 point.frameIndex))

end VisioSchema.Wire

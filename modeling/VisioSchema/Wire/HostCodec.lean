import VisioSchema.Wire.Frame

/-!
# The codec of a Python host

`Message` of `wire/message.py`, `encode_frame` and `decode_frame` of `codec/frame.py`, and what
`frame_bytes` and `extract_frames` of `transport/framing.py` make of one message.

Two packages that are not part of the repository do the rest: protobuf writes and reads the bytes
of a `Header`, and `cobs` takes the zeros out of a frame.  `HostLibraries` stands for them, and
`HostLibraries.RoundTrip` says what is relied on.  Unlike `Message` of C++, a message keeps whether
it has a sync point, and sends any sync point that it has; so a run between two delimiters gives
back exactly the message that was framed (`HostLibraries.unframe_frameBytes`).
-/

namespace VisioSchema.Wire

/-- `Message` of `message.py`. -/
structure HostMessage where
  streamId : ℕ := 0
  payload : List Byte := []
  seq : ℕ := 0
  timestamp : Timestamp := {}
  clockAuthorityEpoch : ℕ := 0
  clockRevision : ℕ := 0
  syncPoint : Option SyncPoint := none
  keyframe : Bool := false
  deriving DecidableEq, Repr

namespace HostMessage

/-- `to_header`. -/
def toHeader (msg : HostMessage) : Header where
  streamId := msg.streamId
  seq := msg.seq
  timestamp := some msg.timestamp
  keyframe := msg.keyframe
  clockAuthorityEpoch := msg.clockAuthorityEpoch
  clockRevision := msg.clockRevision
  syncPoint := msg.syncPoint

/-- `from_header`. -/
def fromHeader (header : Header) (payload : List Byte) : HostMessage where
  streamId := header.streamId
  payload := payload
  seq := header.seq
  timestamp := header.timestamp.getD {}
  clockAuthorityEpoch := header.clockAuthorityEpoch
  clockRevision := header.clockRevision
  syncPoint := header.syncPoint
  keyframe := header.keyframe

@[simp] theorem fromHeader_toHeader (msg : HostMessage) :
    fromHeader msg.toHeader msg.payload = msg := rfl

end HostMessage

/-- What the packages do: protobuf serializes a header (a number that does not fit its field
raises already where `to_header` assigns it) and parses one, and `cobs` encodes and decodes. -/
structure HostLibraries where
  serialize : Header → Except String (List Byte)
  parse : List Byte → Except String Header
  cobsEncode : List Byte → List Byte
  cobsDecode : List Byte → Except String (List Byte)

namespace HostLibraries

variable (lib : HostLibraries)

/-- What is relied on: both packages read back what they wrote, and what `cobs` encodes has no
zero and is not empty. -/
structure RoundTrip : Prop where
  parses : ∀ header bytes, lib.serialize header = .ok bytes → lib.parse bytes = .ok header
  decodes : ∀ data, lib.cobsDecode (lib.cobsEncode data) = .ok data
  zeroFree : ∀ data, 0 ∉ lib.cobsEncode data
  nonempty : ∀ data, lib.cobsEncode data ≠ []

/-! ## The core frame -/

/-- The format `04x`. -/
def hex4 (v : UInt16) : String :=
  let digits := Nat.toDigits 16 v.toNat
  String.ofList (List.replicate (4 - digits.length) '0' ++ digits)

/-- `encode_frame`. -/
def encodeFrame (header : Header) (payload : List Byte) : Except String (List Byte) :=
  match lib.serialize header with
  | .error exc => .error exc
  | .ok headerBytes =>
      if 255 < headerBytes.length then
        .error s!"Header too large for u8 HEADER_LEN: {headerBytes.length} bytes"
      else
        let covered := UInt8.ofNat headerBytes.length :: (headerBytes ++ payload)
        .ok (covered ++ packU16LE (crc16 covered))

/-- `decode_frame`. -/
def decodeFrame (buf : List Byte) : Except String (Header × List Byte) :=
  if buf.length < 3 then .error s!"Frame too short: {buf.length} bytes (need >= 3)"
  else
    let headerLen := (buf.getD 0 0).toNat
    let payloadEnd := 1 + headerLen
    if payloadEnd + 2 > buf.length then
      .error s!"HEADER_LEN={headerLen} exceeds frame size {buf.length}"
    else
      let gotCrc := readU16LE (buf.drop (buf.length - 2))
      let wantCrc := crc16 (covered buf)
      if gotCrc ≠ wantCrc then
        .error s!"CRC mismatch: got 0x{hex4 gotCrc}, want 0x{hex4 wantCrc}"
      else
        match lib.parse ((buf.drop 1).take headerLen) with
        | .error exc => .error s!"Header parse failed: {exc}"
        | .ok header => .ok (header, (buf.drop payloadEnd).take (buf.length - payloadEnd - 2))

/-! ## The framing -/

/-- `frame_bytes`: one COBS run and its delimiter. -/
def frameBytes (msg : HostMessage) : Except String (List Byte) :=
  match lib.encodeFrame msg.toHeader msg.payload with
  | .error exc => .error exc
  | .ok frame => .ok (lib.cobsEncode frame ++ [0])

/-- The bytes of a message that can be framed. -/
def framed (msg : HostMessage) : List Byte :=
  match lib.frameBytes msg with
  | .error _ => []
  | .ok bytes => bytes

/-- One run in `extract_frames`; what cannot be decoded is logged and dropped. -/
def unframe (run : List Byte) : Option HostMessage :=
  match lib.cobsDecode run with
  | .error _ => none
  | .ok frame =>
      match lib.decodeFrame frame with
      | .error _ => none
      | .ok (header, payload) => some (HostMessage.fromHeader header payload)

/-! ## Round trip -/

variable {lib}

theorem framed_eq {msg : HostMessage} {bytes : List Byte}
    (hbytes : lib.frameBytes msg = .ok bytes) :
    lib.framed msg = bytes := by
  rw [framed, hbytes]

theorem decodeFrame_encodeFrame (hlib : lib.RoundTrip) {header : Header}
    {payload frame : List Byte} (hframe : lib.encodeFrame header payload = .ok frame) :
    lib.decodeFrame frame = .ok (header, payload) := by
  unfold encodeFrame at hframe
  cases hserialize : lib.serialize header with
  | error exc =>
      rw [hserialize] at hframe
      cases hframe
  | ok headerBytes =>
      rw [hserialize] at hframe
      dsimp only at hframe
      by_cases hlong : 255 < headerBytes.length
      · rw [if_pos hlong] at hframe
        cases hframe
      · rw [if_neg hlong] at hframe
        obtain rfl := Except.ok.inj hframe
        have hwhole := whole_frame (Nat.not_lt.mp hlong) payload
        have hlength := hwhole.length
        unfold decodeFrame
        dsimp only at hwhole hlength ⊢
        rw [if_neg (by omega), hwhole.headerLen, if_neg (by omega),
          if_neg (fun hne => hne hwhole.crc), hwhole.headerAt, hwhole.payloadAt,
          hlib.parses _ _ hserialize]

/-- A run gives back the message whose frame it is. -/
theorem unframe_frameBytes (hlib : lib.RoundTrip) {msg : HostMessage} {bytes : List Byte}
    (hbytes : lib.frameBytes msg = .ok bytes) :
    ∃ run, bytes = run ++ [0] ∧ 0 ∉ run ∧ run ≠ [] ∧ lib.unframe run = some msg := by
  unfold frameBytes at hbytes
  cases hframe : lib.encodeFrame msg.toHeader msg.payload with
  | error exc =>
      rw [hframe] at hbytes
      cases hbytes
  | ok frame =>
      rw [hframe] at hbytes
      refine ⟨lib.cobsEncode frame, (Except.ok.inj hbytes).symm, hlib.zeroFree frame,
        hlib.nonempty frame, ?_⟩
      rw [unframe, hlib.decodes frame]
      dsimp only
      rw [decodeFrame_encodeFrame hlib hframe]
      dsimp only
      rw [HostMessage.fromHeader_toHeader]

end HostLibraries

end VisioSchema.Wire

import VisioSchema.Library.Text
import VisioSchema.Wire.Message

/-!
# Access units

`is_keyframe`, which reads the headers of an access unit up to its first slice, and the decoder of
one camera.  What a decoder makes of an access unit is PyAV's part, and a parameter.
-/

namespace VisioSchema.Reader

open VisioSchema.Wire

/-- The text of a format, a topic or a frame id. -/
abbrev Text := List Char

/-- `fmt.lower()`, for the letters that a format name is made of. -/
def lower (format : Text) : Text := format.map Char.toLower

/-- PyAV's codec names. -/
inductive Codec
  | hevc
  | h264
  | av1
  | mjpeg
  deriving DecidableEq, Repr

/-- `_AV`. -/
def avCodec (format : Text) : Option Codec :=
  if format = ['h', '2', '6', '5'] then some .hevc
  else if format = ['h', 'e', 'v', 'c'] then some .hevc
  else if format = ['h', '2', '6', '4'] then some .h264
  else if format = ['a', 'v', 'c'] then some .h264
  else if format = ['a', 'v', '1'] then some .av1
  else if format = ['m', 'j', 'p', 'e', 'g'] then some .mjpeg
  else if format = ['j', 'p', 'e', 'g'] then some .mjpeg
  else none

/-! ## Keyframes -/

/-- A row of `_NAL_SYNTAX`: where the type of a NAL unit stands in its first byte, the types of
slices, and those of keyframes. -/
structure NalSyntax where
  shift : ℕ
  mask : ℕ
  vclLo : ℕ
  vclHi : ℕ
  keyLo : ℕ
  keyHi : ℕ
  deriving DecidableEq, Repr

/-- `_NAL_SYNTAX`. -/
def nalSyntax : Codec → Option NalSyntax
  | .hevc => some ⟨1, 0x3F, 0, 31, 16, 21⟩
  | .h264 => some ⟨0, 0x1F, 1, 5, 5, 5⟩
  | .av1 => none
  | .mjpeg => none

/-- `KEYFRAME_FORMATS`, as a test: the formats that `is_keyframe` can classify. -/
def keyframeFormat (format : Text) : Bool :=
  match avCodec format with
  | some codec => (nalSyntax codec).isSome || codec = .mjpeg
  | none => false

/-- `_MAX_PREFIX_BYTES`. -/
def maxPrefixBytes : ℕ := 4096

/-- `_START_CODE` stands at a position. -/
def startCodeAt (accessUnit : List Byte) (i : ℕ) : Bool :=
  accessUnit[i]? = some 0 && accessUnit[i + 1]? = some 0 && accessUnit[i + 2]? = some 1

/-- `access_unit.find(_START_CODE, start, limit)`. -/
def findStartCode (accessUnit : List Byte) (start limit : ℕ) : Option ℕ :=
  (List.range' start (limit - start)).find? fun i => i + 3 ≤ limit && startCodeAt accessUnit i

/-- The type of the NAL unit whose start code stands at `i`. -/
def nalType (codec : NalSyntax) (accessUnit : List Byte) (i : ℕ) : ℕ :=
  ((accessUnit[i + 3]?.getD 0).toNat >>> codec.shift) &&& codec.mask

/-- The scan for the first slice, from the start code that was found last. -/
def scanSlices (codec : NalSyntax) (accessUnit : List Byte) (limit : ℕ) : ℕ → Option ℕ → Bool
  | 0, _ => false
  | _ + 1, none => false
  | fuel + 1, some i =>
      if i + 3 < accessUnit.length then
        let nal := nalType codec accessUnit i
        if codec.vclLo ≤ nal ∧ nal ≤ codec.vclHi then codec.keyLo ≤ nal && nal ≤ codec.keyHi
        else scanSlices codec accessUnit limit fuel (findStartCode accessUnit (i + 3) limit)
      else false

/-- `is_keyframe`.  Every turn of the scan begins behind the last one, so that there are no more
turns than bytes. -/
def isKeyframe (format : Text) (accessUnit : List Byte) : Option Bool :=
  match avCodec (lower format) with
  | none => none
  | some .mjpeg => some true
  | some codec =>
      match nalSyntax codec with
      | none => none
      | some codec =>
          let limit := min accessUnit.length maxPrefixBytes
          some (scanSlices codec accessUnit limit (accessUnit.length + 1)
            (findStartCode accessUnit 0 limit))

/-! ## Decoders -/

/-- PyAV: the context of a decoder, and what it makes of an access unit. -/
structure PyAv (Ctx Img : Type*) where
  create : Codec → Ctx
  decode : Ctx → List Byte → Option Img × Ctx

/-- What a pass over a session may raise. -/
inductive ReadError (ε : Type*)
  | unsupportedFormat (format : Text)
  | adapter (error : ε)
  deriving DecidableEq, Repr

/-- `HevcDecoder(fmt)`. -/
def hevcDecoder {Ctx Img ε : Type*} (av : PyAv Ctx Img) (format : Text) :
    Except (ReadError ε) Ctx :=
  match avCodec (lower format) with
  | some codec => .ok (av.create codec)
  | none => .error (.unsupportedFormat format)

end VisioSchema.Reader

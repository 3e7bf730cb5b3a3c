import VisioSchema.Library.Keystream
import VisioSchema.Wire.Message

/-!
# The VREC container

An encrypted part is a header of 32 plain bytes and then the MCAP stream under a ChaCha20
keystream.  `RecordingCipher` keeps its context where the last call ended and keys it anew only
for another position; `handleWrite` encrypts in slices, at the plaintext offset.

The digests and ChaCha20 are the libraries' (`Crypto`).  What of the stream has landed is
recorded beside the part; nothing of the code reads it.

## Strategy

The keystream has a byte for each place, and the bytes that a context gives are those from its IV
on.  `Seated` says that a context goes on where the next piece belongs.  `SeekTo` keys it anew at
the block of a place and throws the bytes before the place away, which leaves it seated
(`seekTo_seated`); a call into EVP that fails leaves a context of which nothing is known, and the
next call seeks.

`Holds` says of the part that its file is the stream as far as it has landed.  A slice that is
encrypted and lands keeps it (`Holds.land`), and so do the loop over the slices and the call
(`Holds.writeSlices`, `Holds.handleWrite`).
-/

namespace VisioSchema.Mcap

open VisioSchema.Library VisioSchema.Wire

/-! ## The libraries -/

/-- OpenSSL and the `cryptography` package: SHA-256, HMAC-SHA256, and the byte that ChaCha20
has at a place of the stream under a key and an IV, by EVP and by the package's encryptor. -/
structure Crypto where
  sha256 : List Byte → { digest : List Byte // digest.length = 32 }
  hmacSha256 : List Byte → List Byte → List Byte
  evp : List Byte → List Byte → ℕ → Byte
  encryptor : List Byte → List Byte → ℕ → Byte

/-- A 32-bit number, least byte first. -/
def leBytes (n : ℕ) : List Byte :=
  [UInt8.ofNat n, UInt8.ofNat (n / 256), UInt8.ofNat (n / 65536), UInt8.ofNat (n / 16777216)]

/-- Both libraries have one block function of the key, a 32-bit counter and the nonce; the IV
is the counter of the first block and the nonce. -/
structure Crypto.Blockwise (crypto : Crypto) (block : List Byte → ℕ → List Byte → ℕ → Byte) :
    Prop where
  evp : ∀ key counter nonce i, counter + i / 64 < 4294967296 →
    crypto.evp key (leBytes counter ++ nonce) i = block key (counter + i / 64) nonce (i % 64)
  encryptor : ∀ key counter nonce i, counter + i / 64 < 4294967296 →
    crypto.encryptor key (leBytes counter ++ nonce) i =
      block key (counter + i / 64) nonce (i % 64)

/-- The bytes of a piece at a place of the stream, encrypted or decrypted. -/
def xorFrom (stream : ℕ → Byte) (start : ℕ) (bytes : List Byte) : List Byte :=
  mixFrom (· ^^^ ·) stream start bytes

/-! ## The header -/

abbrev RecordingNonce := { bytes : List Byte // bytes.length = 12 }

abbrev RecordingKeyFp := { bytes : List Byte // bytes.length = 8 }

/-- `CipherSuite`. -/
structure CipherSuite where
  magic : { bytes : List Byte // bytes.length = 4 }
  keyLabel : List Byte
  deriving DecidableEq, Repr

/-- `kVrecSuite`: `VREC`, `visio-rec-v1`. -/
def vrecSuite : CipherSuite where
  magic := ⟨[86, 82, 69, 67], rfl⟩
  keyLabel := [118, 105, 115, 105, 111, 45, 114, 101, 99, 45, 118, 49]

def kVrecHeaderBytes : ℕ := 32

structure VrecHeader where
  format : Byte := 1
  cipher : Byte := 1
  keyFp : RecordingKeyFp
  nonce : RecordingNonce
  bytesValid : ℕ := 0
  bytesValid_lt : bytesValid < 4294967296
  deriving DecidableEq, Repr

/-- `WriteVrecHeader`. -/
def writeVrecHeader (suite : CipherSuite) (header : VrecHeader) : List Byte :=
  suite.magic.val ++ [header.format, header.cipher, 0, 0] ++ header.keyFp.val ++
    header.nonce.val ++ leBytes header.bytesValid

/-- `LooksLikeVrec`, `is_vrec`. -/
def looksLikeVrec (suite : CipherSuite) (data : List Byte) : Bool :=
  data.take 4 = suite.magic.val

/-- Four bytes, least first. -/
def ofLeBytes (bytes : List Byte) : ℕ :=
  (bytes.getD 0 0).toNat + 256 * (bytes.getD 1 0).toNat + 65536 * (bytes.getD 2 0).toNat +
    16777216 * (bytes.getD 3 0).toNat

theorem ofLeBytes_lt (bytes : List Byte) : ofLeBytes bytes < 4294967296 := by
  have h₀ := (bytes.getD 0 0).toNat_lt
  have h₁ := (bytes.getD 1 0).toNat_lt
  have h₂ := (bytes.getD 2 0).toNat_lt
  have h₃ := (bytes.getD 3 0).toNat_lt
  unfold ofLeBytes
  omega

theorem ofLeBytes_leBytes {n : ℕ} (hn : n < 4294967296) : ofLeBytes (leBytes n) = n := by
  simp only [ofLeBytes, leBytes, List.getD_cons_zero, List.getD_cons_succ, UInt8.toNat_ofNat']
  omega

/-- The fields of a header that is long enough. -/
def headerFields (data : List Byte) (hlength : ¬ data.length < 32) : VrecHeader where
  format := data.getD 4 0
  cipher := data.getD 5 0
  keyFp := ⟨(data.drop 8).take 8, by
    rw [List.length_take, List.length_drop]
    omega⟩
  nonce := ⟨(data.drop 16).take 12, by
    rw [List.length_take, List.length_drop]
    omega⟩
  bytesValid := ofLeBytes ((data.drop 28).take 4)
  bytesValid_lt := ofLeBytes_lt _

/-- `ParseVrecHeader`. -/
def parseVrecHeader (suite : CipherSuite) (data : List Byte) : Except String VrecHeader :=
  if hshort : data.length < 32 then .error "shorter than a container header"
  else if !looksLikeVrec suite data then .error "wrong container magic"
  else if data.getD 4 0 ≠ 1 then .error "unsupported container format version"
  else if data.getD 5 0 ≠ 1 then .error "unsupported container cipher"
  else .ok (headerFields data hshort)

@[simp] theorem writeVrecHeader_length (suite : CipherSuite) (header : VrecHeader) :
    (writeVrecHeader suite header).length = 32 := by
  simp [writeVrecHeader, suite.magic.property, header.keyFp.property, header.nonce.property,
    leBytes]

/-- A header that is written is parsed back, whatever follows it. -/
theorem parseVrecHeader_write (suite : CipherSuite) (header : VrecHeader)
    (hformat : header.format = 1) (hcipher : header.cipher = 1) (rest : List Byte) :
    parseVrecHeader suite (writeVrecHeader suite header ++ rest) = .ok header := by
  obtain ⟨⟨magic, hmagic⟩, label⟩ := suite
  obtain ⟨format, cipher, ⟨keyFp, hfp⟩, ⟨nonce, hnonce⟩, bytesValid, hvalid⟩ := header
  obtain ⟨m₀, m₁, m₂, m₃, rfl⟩ := List.length_eq_four.mp hmagic
  dsimp only at hformat hcipher
  subst hformat hcipher
  have hlong : ¬ (writeVrecHeader ⟨⟨[m₀, m₁, m₂, m₃], hmagic⟩, label⟩
      ⟨1, 1, ⟨keyFp, hfp⟩, ⟨nonce, hnonce⟩, bytesValid, hvalid⟩ ++ rest).length < 32 := by
    rw [List.length_append, writeVrecHeader_length]
    omega
  have hkeyFp : (keyFp ++ (nonce ++ (leBytes bytesValid ++ rest))).take 8 = keyFp := by
    rw [← hfp, List.take_left]
  have hnonce' : ((keyFp ++ (nonce ++ (leBytes bytesValid ++ rest))).drop 8).take 12 = nonce := by
    rw [← hfp, List.drop_left, ← hnonce, List.take_left]
  have hbytes : ((keyFp ++ (nonce ++ (leBytes bytesValid ++ rest))).drop 20).take 4 =
      leBytes bytesValid := by
    have hfront : (keyFp ++ nonce).length = 20 := by rw [List.length_append, hfp, hnonce]
    rw [← List.append_assoc, ← hfront, List.drop_left]
    rfl
  unfold parseVrecHeader
  rw [dif_neg hlong]
  simp [writeVrecHeader, looksLikeVrec, headerFields, hkeyFp, hnonce', hbytes,
    ofLeBytes_leBytes hvalid]

/-! ## The cipher -/

/-- The key of one file. -/
def deriveFileKey (crypto : Crypto) (suite : CipherSuite) (key : List Byte)
    (nonce : RecordingNonce) : List Byte :=
  crypto.hmacSha256 key (suite.keyLabel ++ nonce.val)

def kMaxKeyLabelBytes : ℕ := 32

/-- An EVP context: its IV, and the bytes it has given since. -/
structure EvpContext where
  iv : List Byte
  used : ℕ
  deriving DecidableEq, Repr

/-- What a failed call leaves in the context is not known (`none`). -/
structure RecordingCipher where
  fileKey : List Byte
  nonce : RecordingNonce
  context : Option EvpContext := none
  position : ℕ := 0
  positioned : Bool := false
  deriving DecidableEq, Repr

namespace RecordingCipher

/-- The constructor, if `valid_`; `made` is whether there is a context to be had. -/
def make (crypto : Crypto) (suite : CipherSuite) (key : List Byte) (nonce : RecordingNonce)
    (made : Bool) : Option RecordingCipher :=
  if suite.keyLabel.length ≤ kMaxKeyLabelBytes ∧ made = true then
    some { fileKey := deriveFileKey crypto suite key nonce, nonce := nonce }
  else none

section Cipher

variable (crypto : Crypto) (c : RecordingCipher)

/-- `SeekTo`; the calls into EVP are answered in their order. -/
def seekTo (place : ℕ) (answers : ℕ → Bool) : Bool × RecordingCipher :=
  if answers 0 = false ∨ 0 < place % 64 ∧ answers 1 = false then
    (false, { c with context := none })
  else
    (true,
      { c with
        context := some { iv := leBytes (place / 64) ++ c.nonce.val, used := place % 64 }
        position := place
        positioned := true })

/-- The loop of `XorAt`, from its `k`-th chunk. -/
def encryptUpdates (fileKey : List Byte) (answers : ℕ → Bool) (k : ℕ) (context : EvpContext)
    (src : List Byte) : Option (List Byte × EvpContext) :=
  if src = [] then some ([], context)
  else if answers k then
    let chunk := src.take 1073741824
    let produced := xorFrom (crypto.evp fileKey context.iv) context.used chunk
    (encryptUpdates fileKey answers (k + 1)
      { context with used := context.used + chunk.length } (src.drop 1073741824)).map
        fun done => (produced ++ done.1, done.2)
  else none
termination_by src.length
decreasing_by
  rename_i hsrc _
  rw [List.length_drop]
  have hpos := List.length_pos_iff.mpr hsrc
  omega

/-- `XorAt`: the bytes, if no call into EVP fails. -/
def xorAt (place : ℕ) (src : List Byte) (answers : ℕ → Bool) :
    Option (List Byte) × RecordingCipher :=
  if src = [] then (some [], c)
  else
    let sought := if !c.positioned || c.position ≠ place then c.seekTo place answers else (true, c)
    if !sought.1 then (none, sought.2)
    else
      match sought.2.context.bind fun context =>
          encryptUpdates crypto c.fileKey answers 2 context src with
      | none => (none, { sought.2 with context := none, positioned := false })
      | some (bytes, context) =>
          (some bytes, { sought.2 with context := some context, position := place + src.length })

end Cipher

end RecordingCipher

/-! ## The part -/

/-- The file of an encrypted part, with every byte landed that was appended; `size` is the
plaintext total. -/
structure EncryptedPart where
  file : List Byte
  cipher : RecordingCipher
  size : ℕ := 0
  landed : List Byte := []
  deriving DecidableEq, Repr

namespace EncryptedPart

/-- A call of `handleWrite`: whether storage has refused the recording before it, and what
EVP answers, slice by slice. -/
structure Call where
  data : List Byte
  refused : Bool := false
  answers : ℕ → ℕ → Bool := fun _ _ => true

section Writing

variable (crypto : Crypto)

/-- The header that `BeginVrec` writes. -/
def partHeader (key : List Byte) (nonce : RecordingNonce) : VrecHeader where
  keyFp := ⟨(crypto.sha256 key).val.take 8, by
    rw [List.length_take, (crypto.sha256 key).property]
    rfl⟩
  nonce := nonce
  bytesValid := 0
  bytesValid_lt := Nat.succ_pos 4294967295

/-- `BeginVrec`, if it succeeds. -/
def beginVrec (key : List Byte) (nonce : RecordingNonce) (made : Bool) : Option EncryptedPart :=
  (RecordingCipher.make crypto vrecSuite key nonce made).map fun cipher =>
    { file := writeVrecHeader vrecSuite (partHeader crypto key nonce), cipher := cipher }

/-- The loop of `handleWrite`, from its `slice`-th slice; one that cannot be encrypted is the
last. -/
def writeSlices (part : EncryptedPart) (answers : ℕ → ℕ → Bool) (slice : ℕ) (data : List Byte) :
    EncryptedPart :=
  if data = [] then part
  else
    let plain := data.take 65536
    let r := part.cipher.xorAt crypto part.size plain (answers slice)
    match r.1 with
    | none => { part with cipher := r.2 }
    | some bytes =>
        writeSlices
          { file := part.file ++ bytes
            cipher := r.2
            size := part.size + bytes.length
            landed := part.landed ++ plain }
          answers (slice + 1) (data.drop 65536)
termination_by data.length
decreasing_by
  rename_i hdata
  rw [List.length_drop]
  have hpos := List.length_pos_iff.mpr hdata
  omega

/-- `handleWrite`. -/
def handleWrite (part : EncryptedPart) (call : Call) : EncryptedPart :=
  if call.refused then part else part.writeSlices crypto call.answers 0 call.data

end Writing

end EncryptedPart

/-! ## What the cipher gives -/

theorem xorFrom_length (stream : ℕ → Byte) (start : ℕ) (bytes : List Byte) :
    (xorFrom stream start bytes).length = bytes.length := mixFrom_length start bytes

theorem xorFrom_xorFrom (stream : ℕ → Byte) (start : ℕ) (bytes : List Byte) :
    xorFrom stream start (xorFrom stream start bytes) = bytes := by
  refine mixFrom_mixFrom (fun a k => ?_) start bytes
  rw [UInt8.xor_assoc, UInt8.xor_self, UInt8.xor_zero]

namespace RecordingCipher

variable {crypto : Crypto} {c : RecordingCipher}

/-- The chunks of one call are one piece of the stream. -/
theorem encryptUpdates_some {fileKey : List Byte} {answers : ℕ → Bool} {k : ℕ}
    {context context' : EvpContext} {src bytes : List Byte}
    (hdone : encryptUpdates crypto fileKey answers k context src = some (bytes, context')) :
    bytes = xorFrom (crypto.evp fileKey context.iv) context.used src ∧
      context' = { context with used := context.used + src.length } := by
  induction hlength : src.length using Nat.strongRecOn generalizing src k context bytes with
  | ind length ih =>
      rw [encryptUpdates] at hdone
      by_cases hsrc : src = []
      · rw [if_pos hsrc] at hdone
        obtain ⟨rfl, rfl⟩ := Prod.mk.inj (Option.some.inj hdone)
        subst hsrc hlength
        exact ⟨rfl, rfl⟩
      · rw [if_neg hsrc] at hdone
        by_cases hanswer : answers k = true
        · rw [if_pos hanswer] at hdone
          obtain ⟨⟨rest, last⟩, hrest, hbytes⟩ := Option.map_eq_some_iff.mp hdone
          obtain ⟨rfl, rfl⟩ := Prod.mk.inj hbytes
          have hshorter : (src.drop 1073741824).length < length := by
            have hpos := List.length_pos_iff.mpr hsrc
            rw [List.length_drop]
            omega
          obtain ⟨hmixed, hlast⟩ := ih _ hshorter hrest rfl
          have hsplit := List.take_append_drop 1073741824 src
          have htotal : (src.take 1073741824).length + (src.drop 1073741824).length =
              src.length := by rw [← List.length_append, hsplit]
          refine ⟨?_, ?_⟩
          · rw [hmixed]
            refine (mixFrom_append _ _ _).symm.trans ?_
            rw [hsplit]
            rfl
          · rw [hlast, ← hlength, ← htotal]
            simp only [Nat.add_assoc]
        · rw [if_neg hanswer] at hdone
          cases hdone

theorem encryptUpdates_isSome {fileKey : List Byte} {answers : ℕ → Bool}
    (hanswers : ∀ k, answers k = true) (k : ℕ) (context : EvpContext) (src : List Byte) :
    (encryptUpdates crypto fileKey answers k context src).isSome = true := by
  induction hlength : src.length using Nat.strongRecOn generalizing src k context with
  | ind length ih =>
      rw [encryptUpdates]
      by_cases hsrc : src = []
      · rw [if_pos hsrc]
        rfl
      · rw [if_neg hsrc, if_pos (hanswers k), Option.isSome_map]
        refine ih _ ?_ _ _ _ rfl
        have hpos := List.length_pos_iff.mpr hsrc
        rw [List.length_drop]
        omega

/-- The stream that the file of a cipher is under. -/
def stream (crypto : Crypto) (fileKey : List Byte) (nonce : RecordingNonce) : ℕ → Byte :=
  crypto.evp fileKey (leBytes 0 ++ nonce.val)

/-- The context goes on with the stream of the file at the place where the next piece of it
belongs, as far as the bound. -/
structure Seated (crypto : Crypto) (bound place : ℕ) (c : RecordingCipher) : Prop where
  positioned : c.positioned = true
  position : c.position = place
  context : ∃ context, c.context = some context ∧
    ∀ i, place + i < bound →
      crypto.evp c.fileKey context.iv (context.used + i) =
        stream crypto c.fileKey c.nonce (place + i)

/-- A key at a block, less the bytes before the place, is the stream from the place on. -/
theorem evp_at {block : List Byte → ℕ → List Byte → ℕ → Byte} (hcrypto : crypto.Blockwise block)
    (fileKey : List Byte) (nonce : RecordingNonce) {place i : ℕ}
    (hplace : place + i < 274877906944) :
    crypto.evp fileKey (leBytes (place / 64) ++ nonce.val) (place % 64 + i) =
      stream crypto fileKey nonce (place + i) := by
  have hblock : place / 64 + (place % 64 + i) / 64 = 0 + (place + i) / 64 := by omega
  have hwithin : (place % 64 + i) % 64 = (place + i) % 64 := by omega
  rw [stream, hcrypto.evp _ _ _ _ (by omega), hcrypto.evp _ _ _ _ (by omega), hblock, hwithin]

theorem seekTo_seated {block : List Byte → ℕ → List Byte → ℕ → Byte}
    (hcrypto : crypto.Blockwise block) {bound place : ℕ} {answers : ℕ → Bool}
    (hbound : place = 0 ∨ bound ≤ 274877906944) (hsought : (c.seekTo place answers).1 = true) :
    Seated crypto bound place (c.seekTo place answers).2 := by
  unfold seekTo at hsought ⊢
  split at hsought
  · cases hsought
  next hanswers =>
    rw [if_neg hanswers]
    refine ⟨rfl, rfl, _, rfl, fun i hi => ?_⟩
    rcases hbound with rfl | hbound
    · rfl
    · exact evp_at hcrypto c.fileKey c.nonce (Nat.lt_of_lt_of_le hi hbound)

theorem seekTo_keeps (place : ℕ) (answers : ℕ → Bool) :
    (c.seekTo place answers).2.fileKey = c.fileKey ∧
      (c.seekTo place answers).2.nonce = c.nonce := by
  unfold seekTo
  split <;> exact ⟨rfl, rfl⟩

theorem seekTo_failed {place : ℕ} {answers : ℕ → Bool}
    (hfailed : (c.seekTo place answers).1 = false) :
    (c.seekTo place answers).2.positioned = c.positioned ∧ ∃ k, answers k = false := by
  unfold seekTo at hfailed ⊢
  split at hfailed
  next hanswers =>
    rw [if_pos hanswers]
    rcases hanswers with hinit | ⟨-, hburn⟩
    · exact ⟨rfl, 0, hinit⟩
    · exact ⟨rfl, 1, hburn⟩
  · cases hfailed

/-- The loop of `XorAt` from a cipher that is seated. -/
theorem Seated.encrypt {bound place : ℕ} (hseated : Seated crypto bound place c) (src : List Byte)
    (answers : ℕ → Bool) :
    ((c.context.bind fun context =>
        encryptUpdates crypto c.fileKey answers 2 context src) = none ∧
      ∃ k, answers k = false) ∨
      ∃ bytes context', (c.context.bind fun context =>
          encryptUpdates crypto c.fileKey answers 2 context src) = some (bytes, context') ∧
        bytes.length = src.length ∧
        (place + src.length ≤ bound →
          bytes = xorFrom (stream crypto c.fileKey c.nonce) place src) ∧
        Seated crypto bound (place + src.length)
          { c with context := some context', position := place + src.length } := by
  obtain ⟨context, hcontext, hagree⟩ := hseated.context
  rw [hcontext, Option.bind_some]
  cases hdone : encryptUpdates crypto c.fileKey answers 2 context src with
  | none =>
      refine Or.inl ⟨rfl, ?_⟩
      by_contra hanswers
      have hall : ∀ k, answers k = true := by simpa using hanswers
      have hsome : (encryptUpdates crypto c.fileKey answers 2 context src).isSome = true :=
        encryptUpdates_isSome hall 2 context src
      rw [hdone] at hsome
      cases hsome
  | some done =>
      obtain ⟨bytes, context'⟩ := done
      obtain ⟨hbytes, hcontext'⟩ := encryptUpdates_some hdone
      refine Or.inr ⟨bytes, context', rfl, ?_, ?_, ?_⟩
      · rw [hbytes, xorFrom_length]
      · intro hfits
        rw [hbytes]
        exact mixFrom_congr fun i hi => hagree i (by omega)
      · refine ⟨hseated.positioned, rfl, context', rfl, fun i hi => ?_⟩
        have hnext := hagree (src.length + i) (by omega)
        rw [hcontext', Nat.add_assoc, Nat.add_assoc]
        exact hnext

/-- `XorAt` at the place where the last piece ended, or where the cipher has to seek: it fails
with a call into EVP and leaves the cipher without a position, or the bytes are those under the
stream of the file and the cipher is seated behind them. -/
theorem xorAt_cases {block : List Byte → ℕ → List Byte → ℕ → Byte}
    (hcrypto : crypto.Blockwise block) {bound place : ℕ} {src : List Byte} (hsrc : src ≠ [])
    (answers : ℕ → Bool) (hseated : c.positioned = true → Seated crypto bound place c)
    (hbound : c.positioned = false → place = 0 ∨ bound ≤ 274877906944) :
    (c.xorAt crypto place src answers).2.fileKey = c.fileKey ∧
      (c.xorAt crypto place src answers).2.nonce = c.nonce ∧
      ((c.xorAt crypto place src answers).1 = none ∧
          (c.xorAt crypto place src answers).2.positioned = false ∧ (∃ k, answers k = false) ∨
        ∃ bytes, (c.xorAt crypto place src answers).1 = some bytes ∧
          bytes.length = src.length ∧
          (place + src.length ≤ bound →
            bytes = xorFrom (stream crypto c.fileKey c.nonce) place src) ∧
          Seated crypto bound (place + src.length) (c.xorAt crypto place src answers).2) := by
  -- the loop, from wherever the cipher has sought to
  have hloop : ∀ c' : RecordingCipher, c'.fileKey = c.fileKey → c'.nonce = c.nonce →
      Seated crypto bound place c' →
      ∀ r : Option (List Byte) × RecordingCipher,
        r = (match c'.context.bind fun context =>
            encryptUpdates crypto c.fileKey answers 2 context src with
          | none => (none, { c' with context := none, positioned := false })
          | some (bytes, context) =>
              (some bytes,
                { c' with context := some context, position := place + src.length })) →
        r.2.fileKey = c.fileKey ∧ r.2.nonce = c.nonce ∧
          (r.1 = none ∧ r.2.positioned = false ∧ (∃ k, answers k = false) ∨
            ∃ bytes, r.1 = some bytes ∧ bytes.length = src.length ∧
              (place + src.length ≤ bound →
                bytes = xorFrom (stream crypto c.fileKey c.nonce) place src) ∧
              Seated crypto bound (place + src.length) r.2) := by
    rintro c' hkey hnonce hseated' r rfl
    rcases hseated'.encrypt src answers with ⟨hnone, hfailed⟩ | ⟨bytes, context', hsome, hall⟩
    · rw [← hkey, hnone]
      exact ⟨rfl, hnonce, Or.inl ⟨rfl, rfl, hfailed⟩⟩
    · rw [← hkey, ← hnonce, hsome]
      exact ⟨rfl, rfl, Or.inr ⟨bytes, rfl, hall⟩⟩
  unfold xorAt
  rw [if_neg hsrc]
  by_cases hpositioned : c.positioned = true
  · have hhere := hseated hpositioned
    have hstays : (!c.positioned || decide (c.position ≠ place)) = false := by
      simp [hpositioned, hhere.position]
    simp only [hstays, Bool.false_eq_true, if_false, Bool.not_true]
    exact hloop c rfl rfl hhere _ rfl
  · rw [Bool.not_eq_true] at hpositioned
    have hseeks : (!c.positioned || decide (c.position ≠ place)) = true := by simp [hpositioned]
    simp only [hseeks, if_true]
    obtain ⟨hkey, hnonce⟩ := seekTo_keeps (c := c) place answers
    cases hsought : (c.seekTo place answers).1 with
    | false =>
        obtain ⟨hleft, hfailed⟩ := seekTo_failed hsought
        simp only [Bool.not_false, if_true]
        exact ⟨hkey, hnonce, Or.inl ⟨trivial, hleft.trans hpositioned, hfailed⟩⟩
    | true =>
        simp only [Bool.not_true, Bool.false_eq_true, if_false]
        exact hloop _ hkey hnonce (seekTo_seated hcrypto (hbound hpositioned) hsought) _ rfl

end RecordingCipher

/-! ## What the part holds -/

namespace EncryptedPart

variable {crypto : Crypto} {block : List Byte → ℕ → List Byte → ℕ → Byte} {key : List Byte}
  {nonce : RecordingNonce} {bound : ℕ} {part : EncryptedPart}

/-- The stream that a part is under. -/
def partStream (crypto : Crypto) (key : List Byte) (nonce : RecordingNonce) : ℕ → Byte :=
  RecordingCipher.stream crypto (deriveFileKey crypto vrecSuite key nonce) nonce

/-- The file of a plaintext. -/
def encrypted (crypto : Crypto) (key : List Byte) (nonce : RecordingNonce)
    (plain : List Byte) : List Byte :=
  writeVrecHeader vrecSuite (partHeader crypto key nonce) ++
    xorFrom (partStream crypto key nonce) 0 plain

/-- The file holds what has landed, as far as the bound, and the cipher stands behind it or
may seek there. -/
structure Holds (crypto : Crypto) (key : List Byte) (nonce : RecordingNonce) (bound : ℕ)
    (part : EncryptedPart) : Prop where
  fileKey : part.cipher.fileKey = deriveFileKey crypto vrecSuite key nonce
  cipherNonce : part.cipher.nonce = nonce
  size : part.size = part.landed.length
  seated : part.cipher.positioned = true →
    RecordingCipher.Seated crypto bound part.size part.cipher
  unseated : part.cipher.positioned = false → part.size = 0 ∨ bound ≤ 274877906944
  file : part.landed.length ≤ bound → part.file = encrypted crypto key nonce part.landed

theorem beginVrec_holds {made : Bool} (bound : ℕ)
    (hpart : beginVrec crypto key nonce made = some part) :
    Holds crypto key nonce bound part ∧ part.landed = [] := by
  obtain ⟨cipher, hcipher, rfl⟩ := Option.map_eq_some_iff.mp hpart
  unfold RecordingCipher.make at hcipher
  split at hcipher
  · obtain rfl := Option.some.inj hcipher
    refine ⟨?_, rfl⟩
    exact
      { fileKey := rfl
        cipherNonce := rfl
        size := rfl
        seated := fun hseated => nomatch hseated
        unseated := fun _ => Or.inl rfl
        file := fun _ => (List.append_nil _).symm }
  · cases hcipher

/-- One slice that is encrypted and lands. -/
theorem Holds.land (hholds : Holds crypto key nonce bound part) {plain bytes : List Byte}
    {cipher : RecordingCipher} (hkey : cipher.fileKey = part.cipher.fileKey)
    (hnonce : cipher.nonce = part.cipher.nonce) (hlength : bytes.length = plain.length)
    (hbytes : part.size + plain.length ≤ bound →
      bytes = xorFrom (RecordingCipher.stream crypto part.cipher.fileKey part.cipher.nonce)
        part.size plain)
    (hseated : RecordingCipher.Seated crypto bound (part.size + plain.length) cipher) :
    Holds crypto key nonce bound
      { file := part.file ++ bytes
        cipher := cipher
        size := part.size + bytes.length
        landed := part.landed ++ plain } where
  fileKey := hkey.trans hholds.fileKey
  cipherNonce := hnonce.trans hholds.cipherNonce
  size := by rw [List.length_append, hholds.size, hlength]
  seated := fun _ => by
    rw [hlength]
    exact hseated
  unseated := fun hleft => by
    rw [hseated.positioned] at hleft
    cases hleft
  file := by
    intro hfits
    rw [List.length_append, ← hholds.size] at hfits
    have hold : part.landed.length ≤ bound := by
      rw [← hholds.size]
      omega
    dsimp only
    rw [hholds.file hold, hbytes hfits, hholds.fileKey, hholds.cipherNonce, hholds.size, encrypted,
      encrypted, List.append_assoc]
    refine congrArg _ ?_
    have hsplit : xorFrom (partStream crypto key nonce) 0 (part.landed ++ plain) = _ :=
      mixFrom_append 0 part.landed plain
    rw [Nat.zero_add] at hsplit
    exact hsplit.symm

/-- The loop of `handleWrite`.  A call into EVP may only fail where the cipher can seek back
to every place below the bound. -/
theorem Holds.writeSlices (hcrypto : crypto.Blockwise block)
    (hholds : Holds crypto key nonce bound part) (answers : ℕ → ℕ → Bool) (slice : ℕ)
    (data : List Byte) (hanswers : bound ≤ 274877906944 ∨ ∀ i j, answers i j = true) :
    Holds crypto key nonce bound (part.writeSlices crypto answers slice data) ∧
      part.landed <+: (part.writeSlices crypto answers slice data).landed ∧
      ((∀ i j, answers i j = true) →
        (part.writeSlices crypto answers slice data).landed = part.landed ++ data) := by
  induction hlength : data.length using Nat.strongRecOn generalizing part slice data with
  | ind length ih =>
      rw [EncryptedPart.writeSlices]
      by_cases hdata : data = []
      · rw [if_pos hdata]
        subst hdata
        exact ⟨hholds, List.prefix_refl _, fun _ => (List.append_nil _).symm⟩
      · rw [if_neg hdata]
        have hplain : data.take 65536 ≠ [] := by
          intro hempty
          rcases List.take_eq_nil_iff.mp hempty with hzero | hnone
          · cases hzero
          · exact hdata hnone
        have hpos := List.length_pos_iff.mpr hdata
        obtain ⟨hkey, hnonce, hcases⟩ := RecordingCipher.xorAt_cases hcrypto hplain
          (answers slice) hholds.seated hholds.unseated
        dsimp only
        -- A cipher call may fail in the middle of a slice: nothing of that slice lands.
        rcases hcases with ⟨hnone, hleft, j, hfailed⟩ | ⟨bytes, hsome, hbytes, hmixed, hseated⟩
        · rw [hnone]
          have hbound : bound ≤ 274877906944 := by
            rcases hanswers with hbound | hall
            · exact hbound
            · rw [hall slice j] at hfailed
              cases hfailed
          refine ⟨?_, List.prefix_refl _, ?_⟩
          · exact
              { fileKey := hkey.trans hholds.fileKey
                cipherNonce := hnonce.trans hholds.cipherNonce
                size := hholds.size
                seated := fun hstill => absurd (hleft.symm.trans hstill) Bool.false_ne_true
                unseated := fun _ => Or.inr hbound
                file := hholds.file }
          · intro hall
            rw [hall slice j] at hfailed
            cases hfailed
        · rw [hsome]
          have hlanded := hholds.land hkey hnonce hbytes hmixed hseated
          have hshorter : (data.drop 65536).length < length := by
            rw [List.length_drop]
            omega
          obtain ⟨hafter, hgrows, hwhole⟩ :=
            ih _ hshorter hlanded (slice + 1) (data.drop 65536) rfl
          refine ⟨hafter, (List.prefix_append _ _).trans hgrows, fun hall => ?_⟩
          dsimp only at hwhole ⊢
          rw [hwhole hall, List.append_assoc, List.take_append_drop]

theorem Holds.handleWrite (hcrypto : crypto.Blockwise block)
    (hholds : Holds crypto key nonce bound part) (call : Call)
    (hanswers : bound ≤ 274877906944 ∨ ∀ i j, call.answers i j = true) :
    Holds crypto key nonce bound (part.handleWrite crypto call) := by
  unfold EncryptedPart.handleWrite
  split
  · exact hholds
  · exact (hholds.writeSlices hcrypto call.answers 0 call.data hanswers).1

end EncryptedPart

end VisioSchema.Mcap

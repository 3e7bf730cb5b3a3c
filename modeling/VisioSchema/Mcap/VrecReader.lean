import VisioSchema.Library.Runs
import VisioSchema.Mcap.Vrec

/-!
# Reading an encrypted part

`_VrecReader`: the plaintext of an encrypted part as a seekable file.  Every read keys the cipher
at the block that holds the position and skips the rest of the block before it, so a reader over
the file of a part is a reader over its plaintext (`PlainReader`).

A seekable file is a machine that answers calls, and `Refines` relates the two readers: the one
is over the file of the plaintext of the other, at the same position.  A read keeps it, since the
bytes under a position of the file are those of the plaintext there (`Refines.window`); so the
two answer alike over every sequence of calls.  `run_identity` puts a part that was written in
front of it.
-/

namespace VisioSchema.Mcap

open VisioSchema.Library VisioSchema.Wire

/-! ## Readers -/

/-- The magic as text. -/
def CipherSuite.magicText (suite : CipherSuite) : String :=
  String.ofList (suite.magic.val.map fun byte => Char.ofNat byte.toNat)

/-- `read_vrec_header`. -/
def readVrecHeader (suite : CipherSuite) (head : List Byte) : Except String VrecHeader :=
  if hshort : head.length < 32 then .error ("not a " ++ suite.magicText ++ " container")
  else if !looksLikeVrec suite head then .error ("not a " ++ suite.magicText ++ " container")
  else if head.getD 4 0 ≠ 1 ∨ head.getD 5 0 ≠ 1 then
    .error (suite.magicText ++ " format " ++ toString (head.getD 4 0).toNat ++ "/cipher " ++
      toString (head.getD 5 0).toNat ++
      " is newer than this reader understands — upgrade visio-schema")
  else .ok (headerFields head hshort)

/-- A call of a seekable file. -/
inductive ReaderCall
  | tell
  | seek (offset : ℤ) (whence : ℕ)
  | readinto (want : ℕ)
  deriving DecidableEq, Repr

inductive ReaderAnswer
  | position (place : ℕ)
  | bytes (data : List Byte)
  | raised (text : String)
  deriving DecidableEq, Repr

/-- Where a `seek` of a file of a size ends up. -/
def seekTarget (size pos : ℕ) (offset : ℤ) (whence : ℕ) : Except String ℕ :=
  let target : Except String ℤ :=
    match whence with
    | 0 => .ok offset
    | 1 => .ok (pos + offset)
    | 2 => .ok (size + offset)
    | _ => .error ("invalid whence: " ++ toString whence)
  match target with
  | .error text => .error text
  | .ok target => if target < 0 then .error "negative seek position" else .ok target.toNat

/-- `_VrecReader`, over a file that is not written any more. -/
structure VrecReader where
  raw : List Byte
  header : VrecHeader
  fileKey : List Byte
  size : ℕ
  pos : ℕ := 0
  deriving DecidableEq, Repr

namespace VrecReader

variable (crypto : Crypto)

/-- `__init__`. -/
def make (suite : CipherSuite) (raw : List Byte) (header : VrecHeader) (key : List Byte) :
    VrecReader where
  raw := raw
  header := header
  fileKey := deriveFileKey crypto suite key header.nonce
  size :=
    if header.bytesValid = 0 then raw.length - kVrecHeaderBytes
    else min (raw.length - kVrecHeaderBytes) header.bytesValid

/-- `_xor_at`; a block number of more than four bytes raises. -/
def xorAt (r : VrecReader) (place : ℕ) (data : List Byte) : Except String (List Byte) :=
  if 4294967296 ≤ place / 64 then .error "int too big to convert"
  else
    .ok (xorFrom (crypto.encryptor r.fileKey (leBytes (place / 64) ++ r.header.nonce.val))
      (place % 64) data)

/-- `readinto`, into a buffer of the wanted length. -/
def readinto (r : VrecReader) (want : ℕ) : ReaderAnswer × VrecReader :=
  if want = 0 ∨ r.size ≤ r.pos then (.bytes [], r)
  else
    let cipherBytes := (r.raw.drop (kVrecHeaderBytes + r.pos)).take (min want (r.size - r.pos))
    if cipherBytes = [] then (.bytes [], r)
    else
      match r.xorAt crypto r.pos cipherBytes with
      | .error text => (.raised text, r)
      | .ok bytes => (.bytes bytes, { r with pos := r.pos + cipherBytes.length })

/-- `seek`. -/
def seek (r : VrecReader) (offset : ℤ) (whence : ℕ) : ReaderAnswer × VrecReader :=
  match seekTarget r.size r.pos offset whence with
  | .error text => (.raised text, r)
  | .ok place => (.position place, { r with pos := place })

def call (r : VrecReader) : ReaderCall → ReaderAnswer × VrecReader
  | .tell => (.position r.pos, r)
  | .seek offset whence => r.seek offset whence
  | .readinto want => r.readinto crypto want

/-- The answers to a list of calls. -/
def answers (r : VrecReader) : List ReaderCall → List ReaderAnswer
  | [] => []
  | c :: rest => (r.call crypto c).1 :: (r.call crypto c).2.answers rest

end VrecReader

/-- A plain file under the same calls. -/
structure PlainReader where
  data : List Byte
  pos : ℕ := 0
  deriving DecidableEq, Repr

namespace PlainReader

/-- A read gives the bytes at the position, as many as are wanted and left. -/
def call (r : PlainReader) : ReaderCall → ReaderAnswer × PlainReader
  | .tell => (.position r.pos, r)
  | .seek offset whence =>
      match seekTarget r.data.length r.pos offset whence with
      | .error text => (.raised text, r)
      | .ok place => (.position place, { r with pos := place })
  | .readinto want =>
      let bytes := (r.data.drop r.pos).take want
      (.bytes bytes, { r with pos := r.pos + bytes.length })

def answers (r : PlainReader) : List ReaderCall → List ReaderAnswer
  | [] => []
  | c :: rest => (r.call c).1 :: (r.call c).2.answers rest

end PlainReader

/-! ## The header -/

/-- The Python reader takes what the C++ parser takes, and as the same header. -/
theorem readVrecHeader_eq_ok {suite : CipherSuite} {head : List Byte} {header : VrecHeader} :
    readVrecHeader suite head = .ok header ↔ parseVrecHeader suite head = .ok header := by
  unfold readVrecHeader parseVrecHeader
  by_cases hshort : head.length < 32
  · simp [hshort]
  · rw [dif_neg hshort, dif_neg hshort]
    cases looksLikeVrec suite head with
    | false => simp
    | true =>
        by_cases hformat : head.getD 4 0 = 1 <;> by_cases hcipher : head.getD 5 0 = 1 <;>
          simp [-List.getD_eq_getElem?_getD, hformat, hcipher]

/-! ## Refinement -/

section Refinement

variable {crypto : Crypto} {block : List Byte → ℕ → List Byte → ℕ → Byte}

/-- The reader is over the file of a plaintext, at the position of the plain reader. -/
structure Refines (crypto : Crypto) (r : VrecReader) (p : PlainReader) : Prop where
  file : ∃ front, front.length = kVrecHeaderBytes ∧
    r.raw = front ++ xorFrom (RecordingCipher.stream crypto r.fileKey r.header.nonce) 0 p.data
  size : r.size = p.data.length
  pos : r.pos = p.pos

/-- The encryptor's stream, keyed at a block, is the one that the file was written under. -/
theorem encryptor_at (hcrypto : crypto.Blockwise block) (fileKey : List Byte)
    (nonce : RecordingNonce) {place i : ℕ} (hplace : place + i < 274877906944) :
    crypto.encryptor fileKey (leBytes (place / 64) ++ nonce.val) (place % 64 + i) =
      RecordingCipher.stream crypto fileKey nonce (place + i) := by
  have hblock : place / 64 + (place % 64 + i) / 64 < 4294967296 := by omega
  rw [hcrypto.encryptor _ _ _ _ hblock, ← hcrypto.evp _ _ _ _ hblock]
  exact RecordingCipher.evp_at hcrypto fileKey nonce hplace

variable {r : VrecReader} {p : PlainReader}

/-- The bytes under a position of the file are those of the plaintext there. -/
theorem Refines.window (hrefines : Refines crypto r p) (want : ℕ) :
    (r.raw.drop (kVrecHeaderBytes + r.pos)).take (min want (r.size - r.pos)) =
      xorFrom (RecordingCipher.stream crypto r.fileKey r.header.nonce) p.pos
        ((p.data.drop p.pos).take want) := by
  obtain ⟨front, hfront, hraw⟩ := hrefines.file
  rw [hraw, ← hfront, ← List.drop_drop, List.drop_left, hrefines.pos, hrefines.size, xorFrom,
    mixFrom_drop, mixFrom_take, Nat.zero_add, xorFrom]
  have hlength : p.data.length - p.pos = (p.data.drop p.pos).length := List.length_drop.symm
  rw [hlength, ← List.take_take, List.take_length]

theorem Refines.readinto (hcrypto : crypto.Blockwise block) (hrefines : Refines crypto r p)
    (hlength : p.data.length < 274877906944) (want : ℕ) :
    (r.readinto crypto want).1 = .bytes ((p.data.drop p.pos).take want) ∧
      Refines crypto (r.readinto crypto want).2
        { p with pos := p.pos + ((p.data.drop p.pos).take want).length } := by
  have hwindow := hrefines.window want
  unfold VrecReader.readinto
  by_cases hnothing : want = 0 ∨ r.size ≤ r.pos
  · have hempty : (p.data.drop p.pos).take want = [] := by
      rw [hrefines.size, hrefines.pos] at hnothing
      rcases hnothing with rfl | hpast
      · rfl
      · rw [List.drop_eq_nil_of_le hpast, List.take_nil]
    rw [if_pos hnothing, hempty]
    exact ⟨rfl, hrefines⟩
  · rw [if_neg hnothing, hwindow]
    rw [not_or, hrefines.size, hrefines.pos, Nat.not_le] at hnothing
    obtain ⟨hwant, hinside⟩ := hnothing
    have hnonempty : xorFrom (RecordingCipher.stream crypto r.fileKey r.header.nonce) p.pos
        ((p.data.drop p.pos).take want) ≠ [] := by
      rw [← List.length_pos_iff, xorFrom_length, List.length_take, List.length_drop]
      omega
    have hblock : ¬ 4294967296 ≤ r.pos / 64 := by
      rw [hrefines.pos]
      omega
    have hplain : xorFrom (crypto.encryptor r.fileKey
        (leBytes (r.pos / 64) ++ r.header.nonce.val)) (r.pos % 64)
        (xorFrom (RecordingCipher.stream crypto r.fileKey r.header.nonce) p.pos
          ((p.data.drop p.pos).take want)) = (p.data.drop p.pos).take want := by
      refine Eq.trans (mixFrom_congr fun i hi => ?_) (xorFrom_xorFrom _ p.pos _)
      rw [xorFrom_length, List.length_take, List.length_drop] at hi
      rw [hrefines.pos]
      exact encryptor_at hcrypto r.fileKey r.header.nonce (by omega)
    dsimp only
    rw [if_neg hnonempty, VrecReader.xorAt, if_neg hblock, hplain]
    refine ⟨rfl, hrefines.file, hrefines.size, ?_⟩
    rw [xorFrom_length, hrefines.pos]

theorem Refines.call (hcrypto : crypto.Blockwise block) (hrefines : Refines crypto r p)
    (hlength : p.data.length < 274877906944) (c : ReaderCall) :
    (r.call crypto c).1 = (p.call c).1 ∧ Refines crypto (r.call crypto c).2 (p.call c).2 := by
  cases c with
  | tell => exact ⟨congrArg ReaderAnswer.position hrefines.pos, hrefines⟩
  | seek offset whence =>
      have htarget : seekTarget r.size r.pos offset whence =
          seekTarget p.data.length p.pos offset whence := by rw [hrefines.size, hrefines.pos]
      simp only [VrecReader.call, VrecReader.seek, PlainReader.call, htarget]
      cases seekTarget p.data.length p.pos offset whence with
      | error text => exact ⟨rfl, hrefines⟩
      | ok place => exact ⟨rfl, hrefines.file, hrefines.size, rfl⟩
  | readinto want => exact hrefines.readinto hcrypto hlength want

/-- A reader over the file of a plaintext answers as a reader over the plaintext. -/
theorem Refines.answers (hcrypto : crypto.Blockwise block) (hrefines : Refines crypto r p)
    (hlength : p.data.length < 274877906944) (calls : List ReaderCall) :
    r.answers crypto calls = p.answers calls := by
  induction calls generalizing r p with
  | nil => rfl
  | cons c rest ih =>
      obtain ⟨hanswer, hafter⟩ := hrefines.call hcrypto hlength c
      have hsame : (p.call c).2.data = p.data := by
        cases c with
        | tell => rfl
        | seek offset whence =>
            simp only [PlainReader.call]
            split <;> rfl
        | readinto want => rfl
      rw [VrecReader.answers, PlainReader.answers, hanswer, ih hafter (hsame ▸ hlength)]

end Refinement

/-! ## A part, written and read -/

namespace EncryptedPart

variable {crypto : Crypto} {block : List Byte → ℕ → List Byte → ℕ → Byte} {key : List Byte}
  {nonce : RecordingNonce}

/-- The calls of a run that are not refused, with every call into EVP answered, land whole. -/
theorem run_landed (hcrypto : crypto.Blockwise block) {bound : ℕ} {part : EncryptedPart}
    (hholds : Holds crypto key nonce bound part) (calls : List Call)
    (hanswers : ∀ call ∈ calls, ∀ i j, call.answers i j = true)
    (haccepted : ∀ call ∈ calls, call.refused = false) :
    (calls.foldl (handleWrite crypto) part).landed = part.landed ++ calls.flatMap Call.data := by
  induction calls generalizing part with
  | nil => exact (List.append_nil _).symm
  | cons call rest ih =>
      have hall := hanswers call (List.mem_cons_self ..)
      have hopen := haccepted call (List.mem_cons_self ..)
      have hwhole := (hholds.writeSlices hcrypto call.answers 0 call.data (Or.inr hall)).2.2 hall
      rw [List.foldl_cons, ih (hholds.handleWrite hcrypto call (Or.inr hall))
        (fun c hc => hanswers c (List.mem_cons_of_mem _ hc))
        (fun c hc => haccepted c (List.mem_cons_of_mem _ hc)), List.flatMap_cons,
        ← List.append_assoc]
      rw [handleWrite, if_neg (by simp [hopen]), hwhole]

theorem run_holds (hcrypto : crypto.Blockwise block) {bound : ℕ} {part : EncryptedPart}
    (hholds : Holds crypto key nonce bound part) (calls : List Call)
    (hanswers : bound ≤ 274877906944 ∨ ∀ call ∈ calls, ∀ i j, call.answers i j = true) :
    Holds crypto key nonce bound (calls.foldl (handleWrite crypto) part) := by
  induction calls generalizing part with
  | nil => exact hholds
  | cons call rest ih =>
      refine ih (hholds.handleWrite hcrypto call ?_) ?_
      · exact hanswers.imp id fun hall => hall call (List.mem_cons_self ..)
      · exact hanswers.imp id fun hall c hc => hall c (List.mem_cons_of_mem _ hc)

/-- The header of a file of a plaintext, and the reader over the file. -/
theorem encrypted_refines (crypto : Crypto) (key : List Byte) (nonce : RecordingNonce)
    (plain : List Byte) :
    readVrecHeader vrecSuite ((encrypted crypto key nonce plain).take 32) =
        .ok (partHeader crypto key nonce) ∧
      Refines crypto
        (VrecReader.make crypto vrecSuite (encrypted crypto key nonce plain)
          (partHeader crypto key nonce) key) { data := plain } := by
  have hlength := writeVrecHeader_length vrecSuite (partHeader crypto key nonce)
  constructor
  · have hhead : (encrypted crypto key nonce plain).take 32 =
        writeVrecHeader vrecSuite (partHeader crypto key nonce) := by
      rw [encrypted, ← hlength, List.take_left]
    have hparsed := parseVrecHeader_write vrecSuite (partHeader crypto key nonce) rfl rfl []
    rw [List.append_nil] at hparsed
    rw [hhead]
    exact readVrecHeader_eq_ok.mpr hparsed
  · refine ⟨⟨_, hlength, rfl⟩, ?_, rfl⟩
    have hfile : (encrypted crypto key nonce plain).length = 32 + plain.length := by
      rw [encrypted, List.length_append, hlength, xorFrom_length]
    change (encrypted crypto key nonce plain).length - kVrecHeaderBytes = plain.length
    rw [hfile, kVrecHeaderBytes, Nat.add_sub_cancel_left]

/-- The file of an encrypted part is its header and its plaintext under the stream of the key
and the nonce, whatever the sizes of the writes; a failed call into EVP costs its slice, and
only past 2^38 bytes the seek behind it.  A reader over a file with less than that gives the
plaintext at its position, whatever the seeks and the reads. -/
theorem run_identity (crypto : Crypto) (block : List Byte → ℕ → List Byte → ℕ → Byte)
    (hcrypto : crypto.Blockwise block) (key : List Byte) (nonce : RecordingNonce)
    (part : EncryptedPart) (hpart : beginVrec crypto key nonce true = some part)
    (calls : List Call) :
    let final := calls.foldl (handleWrite crypto) part
    let answered := ∀ call ∈ calls, ∀ i j, call.answers i j = true
    (writeVrecHeader vrecSuite (partHeader crypto key nonce)).length = 32 ∧
      (answered ∨ final.landed.length ≤ 274877906944 →
        final.file = writeVrecHeader vrecSuite (partHeader crypto key nonce) ++
          xorFrom (partStream crypto key nonce) 0 final.landed) ∧
      (answered → (∀ call ∈ calls, call.refused = false) →
        final.landed = calls.flatMap Call.data) ∧
      (∀ place < 274877906944, partStream crypto key nonce place =
        block (deriveFileKey crypto vrecSuite key nonce) (place / 64) nonce.val (place % 64)) ∧
      (final.landed.length < 274877906944 →
        readVrecHeader vrecSuite (final.file.take 32) = .ok (partHeader crypto key nonce) ∧
          ∀ readerCalls,
            (VrecReader.make crypto vrecSuite final.file (partHeader crypto key nonce)
                key).answers crypto readerCalls =
              ({ data := final.landed } : PlainReader).answers readerCalls) := by
  intro final answered
  have hfile : answered ∨ final.landed.length ≤ 274877906944 →
      final.file = encrypted crypto key nonce final.landed := by
    rintro (hall | hshort)
    · have hbegun := (beginVrec_holds final.landed.length hpart).1
      exact (run_holds hcrypto hbegun calls (Or.inr hall)).file (Nat.le_refl _)
    · have hbegun := (beginVrec_holds 274877906944 hpart).1
      exact (run_holds hcrypto hbegun calls (Or.inl (Nat.le_refl _))).file hshort
  refine ⟨writeVrecHeader_length _ _, hfile, fun hall haccepted => ?_, fun place hplace => ?_,
    fun hshort => ?_⟩
  · obtain ⟨hholds, hempty⟩ := beginVrec_holds 0 hpart
    have hlanded := run_landed hcrypto hholds calls hall haccepted
    rwa [hempty, List.nil_append] at hlanded
  · have hblock := hcrypto.evp (deriveFileKey crypto vrecSuite key nonce) 0 nonce.val place
      (by omega)
    rw [Nat.zero_add] at hblock
    exact hblock
  · rw [hfile (Or.inr (Nat.le_of_lt hshort))]
    obtain ⟨hheader, hrefines⟩ := encrypted_refines crypto key nonce final.landed
    exact ⟨hheader, fun readerCalls => hrefines.answers hcrypto hshort readerCalls⟩

/-! ## The vectors of the repository -/

/-- The block of the golden file key and nonce at counter zero. -/
def goldenBlock : List Byte :=
  [18, 173, 41, 117, 159, 73, 158, 82, 107, 254, 7, 63, 16, 12, 91, 113, 144, 10, 235, 204, 9,
    141, 182, 10, 238, 202, 126, 231, 136, 186, 162, 208, 249, 179, 91, 227, 168, 45, 206, 139,
    185, 229, 192, 42, 35, 86, 53, 146, 217, 245, 185, 214, 216, 167, 146, 84, 182, 5, 66, 201,
    249, 122, 91, 197]

/-- `vrec_key`. -/
def goldenKey : List Byte :=
  [0, 1, 2, 3, 4, 5, 6, 7, 8, 9, 10, 11, 12, 13, 14, 15, 16, 17, 18, 19, 20, 21, 22, 23, 24, 25,
    26, 27, 28, 29, 30, 31]

/-- `vrec_nonce`. -/
def goldenNonce : RecordingNonce := ⟨[64, 65, 66, 67, 68, 69, 70, 71, 72, 73, 74, 75], rfl⟩

/-- What the libraries compute for the vectors, in the first block. -/
def goldenCrypto : Crypto where
  sha256 := fun _ =>
    ⟨[99, 13, 205, 41, 102, 196, 51, 102, 145, 18, 84, 72, 187, 178, 91, 79, 244, 18, 164, 156,
      115, 45, 178, 200, 171, 193, 184, 88, 27, 215, 16, 221], rfl⟩
  hmacSha256 := fun _ _ =>
    [207, 56, 181, 130, 245, 34, 243, 179, 216, 101, 17, 71, 177, 69, 8, 100, 128, 170, 96, 78,
      28, 200, 46, 16, 219, 53, 137, 181, 89, 186, 216, 232]
  evp := fun _ _ i => goldenBlock.getD (i % 64) 0
  encryptor := fun _ _ i => goldenBlock.getD (i % 64) 0

/-- The golden plaintext, up to its eighth byte, in two writes. -/
def goldenCalls : List Call := [{ data := [3, 10, 17] }, { data := [24, 31, 38, 45, 52] }]

/-- The golden header and ciphertext, and a read after a seek. -/
theorem run_identity_golden :
    ∃ part, beginVrec goldenCrypto goldenKey goldenNonce true = some part ∧
      (goldenCalls.foldl (handleWrite goldenCrypto) part).file =
        [86, 82, 69, 67, 1, 1, 0, 0, 99, 13, 205, 41, 102, 196, 51, 102, 64, 65, 66, 67, 68, 69,
          70, 71, 72, 73, 74, 75, 0, 0, 0, 0, 17, 167, 56, 109, 128, 111, 179, 102] ∧
      (VrecReader.make goldenCrypto vrecSuite
          (goldenCalls.foldl (handleWrite goldenCrypto) part).file
          (partHeader goldenCrypto goldenKey goldenNonce) goldenKey).answers goldenCrypto
          [.seek (-5) 2, .readinto 2, .tell] =
        [.position 3, .bytes [24, 31], .position 5] := by
  have hcrypto : goldenCrypto.Blockwise fun _ _ _ i => goldenBlock.getD i 0 :=
    ⟨fun _ _ _ _ _ => rfl, fun _ _ _ _ _ => rfl⟩
  refine ⟨_, rfl, ?_⟩
  obtain ⟨-, hfile, hlanded, -, hread⟩ :=
    run_identity goldenCrypto _ hcrypto goldenKey goldenNonce _ rfl goldenCalls
  have hanswered : ∀ call ∈ goldenCalls, ∀ i j, call.answers i j = true := by
    simp [goldenCalls]
  have hwhole := hlanded hanswered (by simp [goldenCalls])
  have hshort : (goldenCalls.flatMap Call.data).length < 274877906944 := by decide
  rw [hwhole] at hfile hread
  refine ⟨(hfile (Or.inl hanswered)).trans (by decide), ?_⟩
  rw [(hread hshort).2]
  decide

end EncryptedPart

end VisioSchema.Mcap

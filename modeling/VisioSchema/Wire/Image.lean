import VisioSchema.Library.Keystream
import VisioSchema.Wire.Message
import Mathlib.Tactic.Ring

/-!
# Image envelopes

The VENC envelope of a firmware image: a header of 56 plain bytes, and the image, or one gzip
stream of it, under AES-CTR.  The release tools write and read it with `wire/image.py`; the
device reads the header with `wire/image.hpp`.
-/

namespace VisioSchema.Wire.Image

open VisioSchema.Library

/-! ## Numbers -/

/-- `struct.pack` of an unsigned number, least byte first. -/
def packLe : ℕ → ℕ → List Byte
  | 0, _ => []
  | width + 1, n => UInt8.ofNat n :: packLe width (n / 256)

/-- `struct.unpack_from`. -/
def unpackLe : List Byte → ℕ
  | [] => 0
  | byte :: rest => byte.toNat + 256 * unpackLe rest

@[simp] theorem packLe_length (width n : ℕ) : (packLe width n).length = width := by
  induction width generalizing n with
  | zero => rfl
  | succ width ih => simp [packLe, ih]

theorem unpackLe_lt (bytes : List Byte) : unpackLe bytes < 256 ^ bytes.length := by
  induction bytes with
  | nil => simp [unpackLe]
  | cons byte rest ih =>
      have hbyte := byte.toNat_lt
      rw [unpackLe, List.length_cons, Nat.pow_succ]
      omega

theorem unpackLe_packLe {width n : ℕ} (hn : n < 256 ^ width) : unpackLe (packLe width n) = n := by
  induction width generalizing n with
  | zero =>
      rw [Nat.pow_zero, Nat.lt_one_iff] at hn
      rw [hn]
      rfl
  | succ width ih =>
      rw [Nat.pow_succ] at hn
      rw [packLe, unpackLe, ih (by omega), UInt8.toNat_ofNat']
      omega

theorem unpackLe_append (first second : List Byte) :
    unpackLe (first ++ second) = unpackLe first + 256 ^ first.length * unpackLe second := by
  induction first with
  | nil => simp [unpackLe]
  | cons byte rest ih =>
      rw [List.cons_append, unpackLe, ih, unpackLe, List.length_cons, Nat.pow_succ]
      ring

/-- Shifting the bytes into place, one after the other. -/
theorem foldl_shift_eq (byteAt : ℕ → Byte) (width : ℕ) :
    (List.range width).foldl (fun acc i => acc ||| (byteAt i).toNat <<< (8 * i)) 0 =
      unpackLe ((List.range width).map byteAt) := by
  induction width with
  | zero => rfl
  | succ width ih =>
      have hlow : unpackLe ((List.range width).map byteAt) < 2 ^ (8 * width) := by
        have hlt := unpackLe_lt ((List.range width).map byteAt)
        rw [List.length_map, List.length_range] at hlt
        calc unpackLe ((List.range width).map byteAt) < 256 ^ width := hlt
          _ = 2 ^ (8 * width) := by rw [Nat.pow_mul]
      rw [List.range_succ, List.foldl_append, List.map_append, unpackLe_append, ih]
      simp only [List.foldl_cons, List.foldl_nil, List.map_cons, List.map_nil, unpackLe,
        List.length_map, List.length_range]
      rw [Nat.or_comm, ← Nat.shiftLeft_add_eq_or_of_lt hlow, Nat.shiftLeft_eq, Nat.pow_mul]
      ring

/-- Cutting a number into bytes with shifts. -/
theorem map_shift_eq (width n : ℕ) :
    (List.range width).map (fun i => UInt8.ofNat (n >>> (8 * i))) = packLe width n := by
  induction width generalizing n with
  | zero => rfl
  | succ width ih =>
      rw [List.range_succ_eq_map, List.map_cons, List.map_map, packLe, ← ih (n / 256)]
      refine congrArg₂ List.cons (by simp) (List.map_congr_left fun i _ => ?_)
      have hshift : n >>> (8 * (i + 1)) = (n / 256) >>> (8 * i) := by
        rw [Nat.mul_succ, Nat.add_comm, Nat.shiftRight_add, Nat.shiftRight_eq_div_pow n 8]
      exact congrArg UInt8.ofNat hshift

/-! ## The header -/

def magic : List Byte := [86, 69, 78, 67]

def headerBytes : ℕ := 56

/-- `RAW`, `kRaw`. -/
def raw : Byte := 1

/-- `GZIP`, `kGzip`; 2 is reserved. -/
def gzip : Byte := 3

/-- `MAX_IMAGE_BYTES`, `kMaxImageBytes`. -/
def maxImageBytes : ℕ := 536870912

structure Header where
  format : Byte := raw
  nonce : { bytes : List Byte // bytes.length = 8 }
  rawBytes : ℕ := 0
  rawSha256 : { digest : List Byte // digest.length = 32 }
  rawBytes_lt : rawBytes < 18446744073709551616
  deriving DecidableEq, Repr

/-- The fields of a header that is long enough. -/
def headerFields (data : List Byte) (hlength : ¬ data.length < 56) : Header where
  format := data.getD 4 0
  nonce := ⟨(data.drop 8).take 8, by
    rw [List.length_take, List.length_drop]
    omega⟩
  rawBytes := unpackLe ((data.drop 16).take 8)
  rawSha256 := ⟨(data.drop 24).take 32, by
    rw [List.length_take, List.length_drop]
    omega⟩
  rawBytes_lt := by
    have hlt := unpackLe_lt ((data.drop 16).take 8)
    have hwidth : ((data.drop 16).take 8).length = 8 := by
      rw [List.length_take, List.length_drop]
      omega
    rw [hwidth] at hlt
    exact hlt

/-- `parse_header`. -/
def parseHeader (maxBytes : ℕ) (data : List Byte) : Except String Header :=
  if hshort : data.length < 56 then .error "truncated VENC header"
  else if data.take 4 ≠ magic then .error "not a VENC encrypted image"
  else if data.getD 4 0 ≠ raw ∧ data.getD 4 0 ≠ gzip then
    .error ("unsupported VENC format " ++ toString (data.getD 4 0).toNat)
  else if data.getD 4 0 = gzip ∧ (data.drop 5).take 3 ≠ [0, 0, 0] then
    .error "unsupported VENC compression flags"
  else if data.getD 4 0 = gzip ∧ unpackLe ((data.drop 16).take 8) > maxBytes then
    .error "expanded image exceeds size limit"
  else .ok (headerFields data hshort)

/-! ## The header in C++ -/

namespace Cpp

/-- `EncodeHeader`. -/
def encodeHeader (h : Header) : List Byte :=
  magic ++ [h.format, 0, 0, 0] ++ h.nonce.val ++
    (List.range 8).map (fun i => UInt8.ofNat (h.rawBytes >>> (8 * i))) ++ h.rawSha256.val

/-- The loop over the eight bytes of `raw_bytes`. -/
def rawBytesOf (data : List Byte) : ℕ :=
  (List.range 8).foldl (fun acc i => acc ||| (data.getD (16 + i) 0).toNat <<< (8 * i)) 0

theorem rawBytesOf_eq {data : List Byte} (hlength : ¬ data.length < 56) :
    rawBytesOf data = unpackLe ((data.drop 16).take 8) := by
  rw [rawBytesOf, foldl_shift_eq fun i => data.getD (16 + i) 0]
  refine congrArg unpackLe (List.ext_getElem ?_ ?_)
  · rw [List.length_map, List.length_range, List.length_take, List.length_drop]
    omega
  · intro i hi _
    rw [List.length_map, List.length_range] at hi
    have hin : 16 + i < data.length := by omega
    simp [List.getElem?_eq_getElem hin]

/-- `ParseHeader`; what a refused header has already left in `*out` is not kept. -/
def parseHeader (data : List Byte) : Except String Header :=
  if hshort : data.length < 56 then .error "truncated VENC header"
  else if data.take 4 ≠ magic then .error "bad VENC magic"
  else if data.getD 4 0 ≠ raw ∧ data.getD 4 0 ≠ gzip then .error "unsupported VENC format"
  else if data.getD 4 0 = gzip ∧ (data.getD 5 0 ≠ 0 ∨ data.getD 6 0 ≠ 0 ∨ data.getD 7 0 ≠ 0) then
    .error "unsupported VENC compression flags"
  else if data.getD 4 0 = gzip ∧ rawBytesOf data > maxImageBytes then
    .error "expanded image exceeds size limit"
  else .ok { headerFields data hshort with
    rawBytes := rawBytesOf data
    rawBytes_lt := by
      rw [rawBytesOf_eq hshort]
      exact (headerFields data hshort).rawBytes_lt }

end Cpp

/-! ## What is accepted -/

/-- What the checks of both parsers let through. -/
structure Accepted (maxBytes : ℕ) (data : List Byte) : Prop where
  magic : data.take 4 = magic
  format : data.getD 4 0 = raw ∨ data.getD 4 0 = gzip
  flags : data.getD 4 0 = gzip → (data.drop 5).take 3 = [0, 0, 0]
  size : data.getD 4 0 = gzip → unpackLe ((data.drop 16).take 8) ≤ maxBytes

theorem parseHeader_ok_iff {maxBytes : ℕ} {data : List Byte} {header : Header} :
    parseHeader maxBytes data = .ok header ↔
      ∃ hlong : ¬ data.length < 56, Accepted maxBytes data ∧ headerFields data hlong = header := by
  unfold parseHeader
  constructor
  · intro hparse
    split_ifs at hparse with hshort hmagic hformat hflags hsize
    refine ⟨hshort, ⟨not_not.mp hmagic, by tauto, ?_, ?_⟩, Except.ok.inj hparse⟩
    · intro hgzip
      by_contra hset
      exact hflags ⟨hgzip, hset⟩
    · intro hgzip
      by_contra hlarge
      exact hsize ⟨hgzip, Nat.lt_of_not_le hlarge⟩
  · rintro ⟨hlong, haccepted, rfl⟩
    rw [dif_neg hlong, if_neg (not_not.mpr haccepted.magic), if_neg, if_neg, if_neg]
    · rintro ⟨hgzip, hlarge⟩
      exact Nat.not_lt.mpr (haccepted.size hgzip) hlarge
    · rintro ⟨hgzip, hset⟩
      exact hset (haccepted.flags hgzip)
    · rintro ⟨hraw, hgzip⟩
      exact haccepted.format.elim hraw hgzip

theorem flags_iff {data : List Byte} (hlong : ¬ data.length < 56) :
    (data.drop 5).take 3 = [0, 0, 0] ↔
      ¬ (data.getD 5 0 ≠ 0 ∨ data.getD 6 0 ≠ 0 ∨ data.getD 7 0 ≠ 0) := by
  obtain ⟨front, rest, rfl, hfront⟩ : ∃ front rest, data = front ++ rest ∧ front.length = 8 :=
    ⟨data.take 8, data.drop 8, (List.take_append_drop 8 data).symm, by
      rw [List.length_take]
      omega⟩
  match front, hfront with
  | [_, _, _, _, _, a, b, c], _ => simp

/-- Both parsers accept the same bytes, and read the same header. -/
theorem cpp_parseHeader_iff {data : List Byte} {header : Header} :
    Cpp.parseHeader data = .ok header ↔ parseHeader maxImageBytes data = .ok header := by
  by_cases hshort : data.length < 56
  · simp [Cpp.parseHeader, parseHeader, hshort]
  · have hfields : ({ headerFields data hshort with
        rawBytes := Cpp.rawBytesOf data
        rawBytes_lt := by
          rw [Cpp.rawBytesOf_eq hshort]
          exact (headerFields data hshort).rawBytes_lt } : Header) = headerFields data hshort := by
      simp only [Cpp.rawBytesOf_eq hshort]
      rfl
    unfold Cpp.parseHeader parseHeader
    rw [dif_neg hshort, dif_neg hshort, hfields, Cpp.rawBytesOf_eq hshort]
    simp only [ne_eq, flags_iff hshort, not_not]
    split_ifs <;> simp

theorem encodeHeader_eq (header : Header) :
    Cpp.encodeHeader header = magic ++ [header.format, 0, 0, 0] ++ header.nonce.val ++
      packLe 8 header.rawBytes ++ header.rawSha256.val := by
  rw [Cpp.encodeHeader, map_shift_eq]

@[simp] theorem encodeHeader_length (header : Header) :
    (Cpp.encodeHeader header).length = 56 := by
  simp [encodeHeader_eq, header.nonce.property, header.rawSha256.property, magic]

/-- A header that is written is read back, whatever follows it. -/
theorem parseHeader_encode {maxBytes : ℕ} (header : Header)
    (hformat : header.format = raw ∨ header.format = gzip ∧ header.rawBytes ≤ maxBytes)
    (rest : List Byte) :
    parseHeader maxBytes (Cpp.encodeHeader header ++ rest) = .ok header := by
  obtain ⟨format, ⟨nonce, hnonce⟩, rawBytes, ⟨digest, hdigest⟩, hlt⟩ := header
  dsimp only at hformat
  have hdata : Cpp.encodeHeader ⟨format, ⟨nonce, hnonce⟩, rawBytes, ⟨digest, hdigest⟩, hlt⟩ ++
      rest = magic ++ ([format, 0, 0, 0] ++ (nonce ++ (packLe 8 rawBytes ++
        (digest ++ rest)))) := by
    simp [encodeHeader_eq]
  have hlong : ¬ (magic ++ ([format, 0, 0, 0] ++ (nonce ++ (packLe 8 rawBytes ++
      (digest ++ rest))))).length < 56 := by
    simp only [List.length_append, packLe_length, hnonce, hdigest, magic, List.length_cons,
      List.length_nil]
    omega
  have hsize : unpackLe (packLe 8 rawBytes) = rawBytes := unpackLe_packLe hlt
  rw [hdata, parseHeader_ok_iff]
  match nonce, hnonce with
  | [n₀, n₁, n₂, n₃, n₄, n₅, n₆, n₇], _ =>
      match hpack : packLe 8 rawBytes, packLe_length 8 rawBytes with
      | [s₀, s₁, s₂, s₃, s₄, s₅, s₆, s₇], _ =>
          rw [hpack] at hsize hlong
          refine ⟨hlong, ⟨rfl, ?_, fun _ => rfl, ?_⟩, ?_⟩
          · exact hformat.imp_right And.left
          · intro hgzip
            have hgzip : format = gzip := hgzip
            have hle : rawBytes ≤ maxBytes := by
              rcases hformat with hraw | ⟨-, hle⟩
              · rw [hgzip] at hraw
                cases hraw
              · exact hle
            exact (hsize.symm ▸ hle : unpackLe _ ≤ maxBytes)
          · simp only [headerFields, Header.mk.injEq]
            refine ⟨rfl, rfl, hsize, Subtype.ext ?_⟩
            have htake : (digest ++ rest).take 32 = digest := by
              rw [← hdigest, List.take_left]
            exact htake

end VisioSchema.Wire.Image

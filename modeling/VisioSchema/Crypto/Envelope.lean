import VisioSchema.Library.Text
import VisioSchema.Wire.Message

/-!
# The sealed envelope

`crypto/envelope`, over what it takes from its cryptography library: X25519, HKDF-SHA256,
ChaCha20-Poly1305 and SHA-256.  The private key that matches the key an envelope was sealed to opens
it again (`unsealEnvelope_seal`), and the envelope names that key (`blobKeyId_seal`).
-/

namespace VisioSchema.Crypto

open VisioSchema.Wire VisioSchema.Library

/-! ## Keys and their library -/

/-- `_KID_LEN`. -/
def kidLen : ℕ := 4

/-- `_KEY_LEN`. -/
def keyLen : ℕ := 32

/-- `_NONCE_LEN`. -/
def nonceLen : ℕ := 12

/-- `_TAG_LEN`. -/
def tagLen : ℕ := 16

/-- An `X25519PrivateKey`, by its raw bytes. -/
structure PrivateKey where
  raw : List Byte
  length_raw : raw.length = keyLen

/-- What the envelope takes from its cryptography library. -/
structure Primitives where
  publicKey : PrivateKey → List Byte
  /-- The shared secret; `none` for a public key that the library refuses. -/
  exchange : PrivateKey → List Byte → Option (List Byte)
  /-- HKDF-SHA256 of a key, a salt and an info, to a length. -/
  hkdf : List Byte → List Byte → List Byte → ℕ → List Byte
  /-- ChaCha20-Poly1305 under a key and a nonce, of a text and its associated data. -/
  encrypt : List Byte → List Byte → List Byte → List Byte → List Byte
  decrypt : List Byte → List Byte → List Byte → List Byte → Option (List Byte)
  sha256 : List Byte → List Byte

/-- What the library promises. -/
structure Primitives.Lawful (prims : Primitives) : Prop where
  length_publicKey : ∀ sk, (prims.publicKey sk).length = keyLen
  exchange_comm : ∀ sk₁ sk₂,
    prims.exchange sk₁ (prims.publicKey sk₂) = prims.exchange sk₂ (prims.publicKey sk₁)
  length_encrypt : ∀ key nonce plaintext aad,
    (prims.encrypt key nonce plaintext aad).length = plaintext.length + tagLen
  decrypt_encrypt : ∀ key nonce plaintext aad,
    prims.decrypt key nonce (prims.encrypt key nonce plaintext aad) aad = some plaintext
  length_sha256 : ∀ message, (prims.sha256 message).length = 32

/-! ## The envelope -/

namespace Envelope

/-- `MAGIC`. -/
def magic : List Byte := [86, 83, 76, 49]

/-- `LABEL`. -/
def label : List Byte := [118, 105, 115, 105, 111, 45, 115, 101, 97, 108, 45, 118, 49]

/-- `_HEADER_LEN`. -/
def headerLen : ℕ := magic.length + kidLen + keyLen

/-- Why an envelope does not open. -/
inductive SealError
  | malformed
  | wrongFleetKey (want have_ : Text)
  | tampered
  deriving DecidableEq, Repr

/-- `bytes.hex`. -/
def hex (bytes : List Byte) : Text :=
  bytes.flatMap fun byte => [Nat.digitChar (byte.toNat / 16), Nat.digitChar (byte.toNat % 16)]

variable (prims : Primitives)

/-- The bytes of `key_id`. -/
def keyIdBytes (pubkey : List Byte) : List Byte := (prims.sha256 pubkey).take kidLen

/-- `key_id`. -/
def keyId (pubkey : List Byte) : Text := hex (keyIdBytes prims pubkey)

/-- `_raw_public`, of bytes. -/
def rawPublic (pubkey : List Byte) : Option (List Byte) :=
  if pubkey.length = keyLen then some pubkey else none

/-- `_derive`. -/
def derive (shared ephPub peerPub : List Byte) : List Byte × List Byte :=
  let okm := prims.hkdf shared label (ephPub ++ peerPub) (keyLen + nonceLen)
  (okm.take keyLen, okm.drop keyLen)

/-- `_seal_with_ephemeral`. -/
def sealWithEphemeral (plaintext peerRaw : List Byte) (eph : PrivateKey) : Option (List Byte) :=
  match prims.exchange eph peerRaw with
  | some shared =>
      let ephPub := prims.publicKey eph
      let keys := derive prims shared ephPub peerRaw
      let kid := keyIdBytes prims peerRaw
      some (magic ++ (kid ++
        (ephPub ++ prims.encrypt keys.1 keys.2 plaintext (label ++ kid))))
  | none => none

/-- `seal`, with the ephemeral key that it generates. -/
def sealEnvelope (plaintext pubkey : List Byte) (eph : PrivateKey) : Option (List Byte) :=
  (rawPublic pubkey).bind fun peerRaw => sealWithEphemeral prims plaintext peerRaw eph

/-- `blob_key_id`. -/
def blobKeyId (blob : List Byte) : Option Text :=
  if blob.length < magic.length + kidLen ∨ blob.take magic.length ≠ magic then none
  else some (hex ((blob.drop magic.length).take kidLen))

/-- `unseal`. -/
def unsealEnvelope (blob : List Byte) (privkey : PrivateKey) : Except SealError (List Byte) :=
  if blob.length < headerLen + tagLen then .error .malformed
  else if blob.take magic.length ≠ magic then .error .malformed
  else
    let kid := (blob.drop magic.length).take kidLen
    let ephPub := (blob.drop (magic.length + kidLen)).take keyLen
    let ownRaw := prims.publicKey privkey
    if hex kid ≠ keyId prims ownRaw then .error (.wrongFleetKey (hex kid) (keyId prims ownRaw))
    else
      match prims.exchange privkey ephPub with
      | none => .error .malformed
      | some shared =>
          let keys := derive prims shared ephPub ownRaw
          match prims.decrypt keys.1 keys.2 (blob.drop headerLen) (label ++ kid) with
          | none => .error .tampered
          | some plaintext => .ok plaintext

/-! ## What is sealed opens -/

theorem length_hex (bytes : List Byte) : (hex bytes).length = 2 * bytes.length := by
  induction bytes with
  | nil => rfl
  | cons byte bytes ih =>
      have hcons : hex (byte :: bytes) =
          Nat.digitChar (byte.toNat / 16) :: Nat.digitChar (byte.toNat % 16) :: hex bytes := rfl
      rw [hcons, List.length_cons, List.length_cons, List.length_cons, ih]
      omega

theorem exists_digit_of_mem_hex {bytes : List Byte} {c : Char} (hmem : c ∈ hex bytes) :
    ∃ n < 16, c = Nat.digitChar n := by
  obtain ⟨byte, -, hc⟩ := List.mem_flatMap.mp hmem
  have hbyte := byte.toNat_lt
  rcases List.mem_pair.mp hc with rfl | rfl
  · exact ⟨byte.toNat / 16, by omega, rfl⟩
  · exact ⟨byte.toNat % 16, by omega, rfl⟩

variable {prims}

theorem length_keyIdBytes (hlaw : prims.Lawful) (pubkey : List Byte) :
    (keyIdBytes prims pubkey).length = kidLen := by
  rw [keyIdBytes, List.length_take, hlaw.length_sha256]
  rfl

/-- The parts of an envelope. -/
theorem seal_eq_some_iff {plaintext pubkey blob : List Byte} {eph : PrivateKey} :
    sealEnvelope prims plaintext pubkey eph = some blob ↔
      pubkey.length = keyLen ∧ ∃ shared, prims.exchange eph pubkey = some shared ∧
        blob = magic ++ (keyIdBytes prims pubkey ++ (prims.publicKey eph ++
          prims.encrypt (derive prims shared (prims.publicKey eph) pubkey).1
            (derive prims shared (prims.publicKey eph) pubkey).2 plaintext
            (label ++ keyIdBytes prims pubkey))) := by
  rw [sealEnvelope, rawPublic]
  by_cases hlength : pubkey.length = keyLen
  · rw [if_pos hlength, Option.bind_some, sealWithEphemeral]
    cases hshared : prims.exchange eph pubkey with
    | none => simp
    | some shared => simp [hlength, eq_comm]
  · rw [if_neg hlength]
    simp [hlength]

theorem seal_ne_nil {plaintext pubkey blob : List Byte} {eph : PrivateKey}
    (hseal : sealEnvelope prims plaintext pubkey eph = some blob) : blob ≠ [] := by
  obtain ⟨-, shared, -, rfl⟩ := seal_eq_some_iff.mp hseal
  simp [magic]

/-- An envelope names the key that it is sealed to. -/
theorem blobKeyId_seal (hlaw : prims.Lawful) {plaintext pubkey blob : List Byte}
    {eph : PrivateKey} (hseal : sealEnvelope prims plaintext pubkey eph = some blob) :
    blobKeyId blob = some (keyId prims pubkey) := by
  obtain ⟨-, shared, -, rfl⟩ := seal_eq_some_iff.mp hseal
  have hkid := length_keyIdBytes hlaw pubkey
  rw [blobKeyId, if_neg, List.drop_left, List.take_left' hkid, keyId]
  rw [not_or, not_not, List.take_left]
  refine ⟨?_, rfl⟩
  rw [List.length_append, List.length_append, hkid]
  omega

/-- The private key of the key that an envelope is sealed to opens it. -/
theorem unsealEnvelope_seal (hlaw : prims.Lawful) {plaintext blob : List Byte} {sk eph : PrivateKey}
    (hseal : sealEnvelope prims plaintext (prims.publicKey sk) eph = some blob) :
    unsealEnvelope prims blob sk = .ok plaintext := by
  obtain ⟨-, shared, hshared, rfl⟩ := seal_eq_some_iff.mp hseal
  have hkid := length_keyIdBytes hlaw (prims.publicKey sk)
  have heph := hlaw.length_publicKey eph
  rw [unsealEnvelope, if_neg, if_neg]
  · -- the four parts are read back where they were written
    have hbody (rest : List Byte) :
        (magic ++ (keyIdBytes prims (prims.publicKey sk) ++ rest)).drop (magic.length + kidLen) =
          rest := by
      rw [← List.drop_drop, List.drop_left, List.drop_left' hkid]
    have htext (rest : List Byte) :
        (magic ++ (keyIdBytes prims (prims.publicKey sk) ++
          (prims.publicKey eph ++ rest))).drop headerLen = rest := by
      rw [headerLen, ← List.drop_drop, hbody, List.drop_left' heph]
    simp only [List.drop_left, List.take_left' hkid, hbody, List.take_left' heph, htext]
    have hown : keyId prims (prims.publicKey sk) =
        hex (keyIdBytes prims (prims.publicKey sk)) := rfl
    rw [hown, if_neg (fun hne => hne rfl), hlaw.exchange_comm sk eph, hshared]
    simp only [hlaw.decrypt_encrypt]
  · rw [List.take_left]
    exact not_not.mpr rfl
  · simp only [List.length_append, hkid, heph, hlaw.length_encrypt, headerLen]
    omega

end Envelope

end VisioSchema.Crypto

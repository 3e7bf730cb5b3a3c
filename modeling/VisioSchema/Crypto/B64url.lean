import VisioSchema.Library.Base64
import VisioSchema.Library.Text
import VisioSchema.Wire.Message

/-!
# Unpadded base64url

`crypto/b64url`, and the lenient decoder of Python's library under it.
-/

namespace VisioSchema.Crypto

open VisioSchema.Wire VisioSchema.Library

/-- The URL-safe alphabet, `translate(b"+/", b"-_")`. -/
def urlsafe (c : Char) : Char := if c = '+' then '-' else if c = '/' then '_' else c

/-- `translate(b"-_", b"+/")`. -/
def unUrlsafe (c : Char) : Char := if c = '-' then '+' else if c = '_' then '/' else c

/-- `base64.urlsafe_b64encode`. -/
def urlsafeB64encode (raw : List Byte) : Text := (Base64.encode raw).map urlsafe

/-- `base64.urlsafe_b64decode` of a string, which has to be ASCII. -/
def urlsafeB64decode (text : Text) : Option (List Byte) :=
  if text.all (·.toNat < 128) then Base64.decode (text.map unUrlsafe) else none

/-- `text + "=" * (-len(text) % 4)`. -/
def padded (text : Text) : Text := text ++ Base64.padding text.length

namespace B64url

/-- `b64url.encode`. -/
def encode (raw : List Byte) : Text := (urlsafeB64encode raw).rdropWhile (· = '=')

/-- `_ALPHABET`. -/
def inAlphabet (c : Char) : Bool :=
  (65 ≤ c.toNat && c.toNat ≤ 90) || (97 ≤ c.toNat && c.toNat ≤ 122) ||
    (48 ≤ c.toNat && c.toNat ≤ 57) || c = '_' || c = '-'

/-- `b64url.decode`; `none` where it raises. -/
def decode (text : Text) : Option (List Byte) :=
  if text.all inAlphabet then
    match urlsafeB64decode (padded text) with
    | some raw => if encode raw = text then some raw else none
    | none => none
  else none

theorem urlsafe_digit : ∀ n < 64,
    urlsafe (Base64.digit n) ≠ '=' ∧ unUrlsafe (urlsafe (Base64.digit n)) = Base64.digit n ∧
      (urlsafe (Base64.digit n)).toNat < 128 := by decide

theorem urlsafe_pad : urlsafe '=' = '=' := by decide

/-- The encoding is made of the URL-safe digits. -/
theorem encode_eq (raw : List Byte) : encode raw = (Base64.digits raw).map urlsafe := by
  have hpad : (Base64.padding (Base64.digits raw).length).map urlsafe =
      Base64.padding (Base64.digits raw).length := by
    rw [Base64.padding, List.map_replicate, urlsafe_pad]
  have hfree : '=' ∉ (Base64.digits raw).map urlsafe := by
    intro hmem
    obtain ⟨c, hc, heq⟩ := List.mem_map.mp hmem
    obtain ⟨n, hn, rfl⟩ := Base64.exists_digit_of_mem hc
    exact (urlsafe_digit n hn).1 heq
  rw [encode, urlsafeB64encode, Base64.encode, List.map_append, hpad]
  exact Base64.rdropWhile_padding hfree _

theorem padded_encode (raw : List Byte) : padded (encode raw) = urlsafeB64encode raw := by
  rw [padded, encode_eq, urlsafeB64encode, Base64.encode, List.map_append, List.length_map,
    Base64.padding, List.map_replicate, urlsafe_pad]

/-- The lenient decoder reads what was encoded. -/
theorem urlsafeB64decode_encode (raw : List Byte) :
    urlsafeB64decode (padded (encode raw)) = some raw := by
  have hchar : ∀ c ∈ Base64.encode raw,
      (urlsafe c).toNat < 128 ∧ unUrlsafe (urlsafe c) = c := by
    intro c hc
    rcases List.mem_append.mp hc with hdigit | hpad
    · obtain ⟨n, hn, rfl⟩ := Base64.exists_digit_of_mem hdigit
      exact ⟨(urlsafe_digit n hn).2.2, (urlsafe_digit n hn).2.1⟩
    · rw [List.eq_of_mem_replicate hpad]
      decide
  have hback : (urlsafeB64encode raw).map unUrlsafe = Base64.encode raw := by
    rw [urlsafeB64encode, List.map_map]
    exact (List.map_congr_left fun c hc => (hchar c hc).2).trans (List.map_id _)
  rw [padded_encode, urlsafeB64decode, if_pos, hback, Base64.decode_encode]
  rw [List.all_eq_true]
  intro c hc
  obtain ⟨d, hd, rfl⟩ := List.mem_map.mp hc
  simpa using (hchar d hd).1

theorem encode_ne_nil {raw : List Byte} (hraw : raw ≠ []) : encode raw ≠ [] := by
  rw [encode_eq, ne_eq, List.map_eq_nil_iff]
  exact Base64.digits_ne_nil hraw

theorem three_mul_length_encode_le (raw : List Byte) :
    3 * (encode raw).length ≤ 4 * raw.length + 2 := by
  rw [encode_eq, List.length_map]
  exact Base64.three_mul_length_digits_le raw

end B64url

end VisioSchema.Crypto

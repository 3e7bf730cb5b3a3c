import Mathlib.Data.List.Lex
import Mathlib.Data.List.Sort
import VisioSchema.Crypto.B64url
import VisioSchema.Library.Dict

/-!
# Signed texts of the Ingest API

The texts that `ingest/signing` signs and digests, and the form of a device secret.  A `ValueError`
is `none`.
-/

namespace VisioSchema.Ingest

open VisioSchema.Wire VisioSchema.Library VisioSchema.Crypto

/-! ## Device secrets -/

/-- `SECRET_LEN`. -/
def secretLen : ℕ := 32

/-- `require_device_secret`. -/
def requireDeviceSecret (secret : List Byte) : Option (List Byte) :=
  if secret.length = secretLen then some secret else none

/-- `decode_secret`. -/
def decodeSecret (text : Text) : Option (List Byte) :=
  (B64url.decode text).bind requireDeviceSecret

/-! ## Requests -/

/-- `ALGORITHM`. -/
def algorithm : Text :=
  ['V', 'I', 'S', 'I', 'O', '-', 'H', 'M', 'A', 'C', '-', 'S', 'H', 'A', '2', '5', '6']

/-- `_QUERY_RESERVED`. -/
def queryReserved (c : Char) : Bool := c = '&' || c = '='

/-- What Python orders strings by. -/
def codePoints (text : Text) : List ℕ := text.map Char.toNat

/-- `f"{k}={v}"`. -/
def queryPair (entry : Text × Text) : Text := entry.1 ++ '=' :: entry.2

/-- `canonical_query`. -/
def canonicalQuery (params : Dict Text Text) : Option Text :=
  if params.entries.any fun entry =>
      entry.1.any queryReserved || entry.2.any queryReserved then none
  else
    let keys := params.keys.insertionSort fun k l => codePoints k ≤ codePoints l
    some (['&'].intercalate (keys.map fun k => queryPair (k, (params.get k).getD [])))

/-- `str.upper` of every character, under which lines stay lines. -/
structure Upper where
  char : Char → Text
  newline : char '\n' = ['\n']
  other : ∀ c, c ≠ '\n' → '\n' ∉ char c

/-- `str.upper`. -/
def Upper.text (upper : Upper) (text : Text) : Text := text.flatMap upper.char

/-- `request_string_to_sign`. -/
def requestStringToSign (upper : Upper) (date keyId method path query bodySha256 : Text) :
    Option Text :=
  if method ≠ upper.text method then none
  else some (['\n'].intercalate [algorithm, date, keyId, method, path, query, bodySha256])

/-! ## Manifests -/

/-- `ManifestEntry`. -/
structure ManifestEntry where
  name : Text
  size : ℤ
  md5 : Text
  deriving DecidableEq, Repr

/-- `_NAME_RESERVED`. -/
def nameReserved (c : Char) : Bool := c = ':' || c = '\n'

/-- `"0123456789abcdef"`. -/
def lowerHex (c : Char) : Bool :=
  (48 ≤ c.toNat && c.toNat ≤ 57) || (97 ≤ c.toNat && c.toNat ≤ 102)

/-- The entry can be digested. -/
def digestible (entry : ManifestEntry) : Bool :=
  !(entry.name.any nameReserved || decide (entry.size < 0)) &&
    (entry.md5.isEmpty || (entry.md5.length = 32 && entry.md5.all lowerHex))

/-- What entries are ordered by: the UTF-8 bytes of their names. -/
def nameBytes (entry : ManifestEntry) : List ℕ := (Text.encode entry.name).map UInt8.toNat

/-- `f"{p.name}:{p.size}:{p.md5}\n"`; a size that is digested is not negative. -/
def manifestLine (entry : ManifestEntry) : Text :=
  entry.name ++ ':' :: (Text.decimal entry.size.toNat ++ ':' :: (entry.md5 ++ ['\n']))

/-- `manifest_lines`. -/
def manifestLines (parts : List ManifestEntry) : Option Text :=
  if parts.all digestible then
    some ((parts.insertionSort fun p q => nameBytes p ≤ nameBytes q).flatMap manifestLine)
  else none

end VisioSchema.Ingest

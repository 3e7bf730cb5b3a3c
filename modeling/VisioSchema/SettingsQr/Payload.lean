import VisioSchema.Ingest.Signing
import VisioSchema.SettingsQr.SealedBody

/-!
# The settings payload

`validate` of `settings_qr/payload`, with the field primitives of `fields` and the Ingest API
sections of `ingest`.  A problem is the wire path of a field and a reason; the reasons are named by
the keys of their translations.
-/

namespace VisioSchema.SettingsQr

open VisioSchema.Wire VisioSchema.Library VisioSchema.Crypto

/-! ## Names -/

def typeKey : Text := ['t']

def versionKey : Text := ['v']

def metaKey : Text := ['m', 'e', 't', 'a']

def storageKey : Text := ['s', 't', 'o', 'r', 'a', 'g', 'e']

def autoUploadKey : Text := ['a', 'u', 't', 'o', '_', 'u', 'p', 'l', 'o', 'a', 'd']

def bitrateKey : Text := ['b', 'i', 't', 'r', 'a', 't', 'e', '_', 'k', 'b', 'p', 's']

def resolutionKey : Text := ['r', 'e', 's', 'o', 'l', 'u', 't', 'i', 'o', 'n']

def wifiKey : Text := ['w', 'i', 'f', 'i']

def sealedKey : Text := ['s', 'e', 'a', 'l', 'e', 'd']

def endpointUrl : Text := ['e', 'n', 'd', 'p', 'o', 'i', 'n', 't', '_', 'u', 'r', 'l']

def regionField : Text := ['r', 'e', 'g', 'i', 'o', 'n']

def bucketField : Text := ['b', 'u', 'c', 'k', 'e', 't']

def accessKeyId : Text := ['a', 'c', 'c', 'e', 's', 's', '_', 'k', 'e', 'y', '_', 'i', 'd']

def prefixField : Text := ['p', 'r', 'e', 'f', 'i', 'x']

def secretAccessKey : Text :=
  ['s', 'e', 'c', 'r', 'e', 't', '_', 'a', 'c', 'c', 'e', 's', 's', '_', 'k', 'e', 'y']

def destinationHint : Text :=
  ['d', 'e', 's', 't', 'i', 'n', 'a', 't', 'i', 'o', 'n', '_', 'h', 'i', 'n', 't']

def statusPrefixField : Text := ['s', 't', 'a', 't', 'u', 's', '_', 'p', 'r', 'e', 'f', 'i', 'x']

def metaTask : Text := ['t', 'a', 's', 'k']

def metaLocation : Text := ['l', 'o', 'c', 'a', 't', 'i', 'o', 'n']

def metaMessage : Text := ['m', 'e', 's', 's', 'a', 'g', 'e']

def metaCapturer : Text := ['c', 'a', 'p', 't', 'u', 'r', 'e', 'r']

def wifiSsid : Text := ['s', 's', 'i', 'd']

def wifiPassphrase : Text := ['p', 'a', 's', 's', 'p', 'h', 'r', 'a', 's', 'e']

def resolutionWidth : Text := ['w', 'i', 'd', 't', 'h']

def resolutionHeight : Text := ['h', 'e', 'i', 'g', 'h', 't']

def sealedKid : Text := ['k', 'i', 'd']

def sealedHas : Text := ['h', 'a', 's']

def sealedBlob : Text := ['b']

/-- `PAYLOAD_TYPE`. -/
def payloadType : Text := ['v', 'i', 's', 'i', 'o', '-', 's', 'e', 't', 't', 'i', 'n', 'g', 's']

/-- `INGEST_SCHEME`. -/
def ingestScheme : Text := ['v', 'i', 's', 'i', 'o', '+', 'h', 't', 't', 'p', 's', ':', '/', '/']

def httpScheme : Text := ['h', 't', 't', 'p', ':', '/', '/']

def httpsScheme : Text := ['h', 't', 't', 'p', 's', ':', '/', '/']

/-! ## Problems -/

/-- The key of a problem's reason, with the parameters of its text. -/
inductive Reason
  | badType
  | badVersion
  | unknownKey
  | noSections
  | mustBeObject
  | unknownField
  | required
  | mustBeString
  | tooLongChars (max : ℕ)
  | tooLongBytes (bytes max : ℕ)
  | secretNotAllowedSealed (version : ℕ)
  | mustBeHttpUrl
  | regionNotDerivable
  | ingestNeedsHost
  | notForIngest
  | deviceSecretFormat
  | mustBeBoolean
  | mustBeInteger
  | intRange (lo hi : ℤ)
  | wifiPassphraseLength
  | kidFormat
  | hasList
  | hasEmpty
  | hasUnknown (entry : Text)
  deriving DecidableEq, Repr

/-- A problem: the wire path of a field, and a reason. -/
structure Problem where
  path : Option Text
  reason : Reason
  deriving DecidableEq, Repr

/-- `f"{section}.{name}"`. -/
def dotted (section_ name : Text) : Text := section_ ++ '.' :: name

/-- What the validator asks of Python: how a float compares with an integer, `str.lower`, and the
`hostname` of `urlsplit`. -/
structure Python (F : Type*) where
  floatEq : F → ℤ → Bool
  lower : Text → Text
  hostname : Text → Option Text

section Json

variable {F : Type*}

/-! ## Field primitives -/

/-- The value's UTF-8 length, where it overruns a bound. -/
def overByteLimit (value : Text) (maxBytes : ℕ) : Option ℕ :=
  if maxBytes < (Text.encode value).length then some (Text.encode value).length else none

/-- `_string`: its problems, and the text. -/
def stringField (path : Text) (v : Json F) (required : Bool) (maxBytes maxChars : Option ℕ) :
    List Problem × Text :=
  match v with
  | .null => (if required then [⟨some path, .required⟩] else [], [])
  | .string s =>
      ((if required ∧ s = [] then [⟨some path, .required⟩] else []) ++
          (match maxChars with
            | some max => if max < s.length then [⟨some path, .tooLongChars max⟩] else []
            | none => []) ++
          (match maxBytes with
            | some max =>
                match overByteLimit s max with
                | some bytes => [⟨some path, .tooLongBytes bytes max⟩]
                | none => []
            | none => []),
        s)
  | _ => ([⟨some path, .mustBeString⟩], [])

/-- `_int_in_range`. -/
def intInRange (path : Text) (v : Json F) (lo hi : ℤ) : List Problem :=
  match v with
  | .int n => if lo ≤ n ∧ n ≤ hi then [] else [⟨some path, .intRange lo hi⟩]
  | _ => [⟨some path, .mustBeInteger⟩]

/-- The fields of a section that are not among those it may have. -/
def unknownFields (section_ : Text) (fields : List (Text × Json F)) (allowed : List Text) :
    List Problem :=
  ((fields.map Prod.fst).filter fun name => name ∉ allowed).map fun name =>
    ⟨some (dotted section_ name), .unknownField⟩

/-! ## Versions -/

/-- `PLAINTEXT_VERSION` and `SEALED_VERSION`. -/
inductive Version
  | plaintext
  | sealed
  deriving DecidableEq, Repr

def Version.number : Version → ℕ
  | .plaintext => 1
  | .sealed => 2

/-- `_COMMON_KEYS`. -/
def commonKeys : List Text :=
  [typeKey, versionKey, metaKey, storageKey, autoUploadKey, bitrateKey, resolutionKey, wifiKey]

/-- `KNOWN_KEYS`. -/
def knownKeys : Version → List Text
  | .plaintext => commonKeys
  | .sealed => commonKeys ++ [sealedKey]

/-- `version in KNOWN_KEYS`, and the version that it is; a list or an object has no hash, for which
the lookup raises (`none`).  `True` is 1. -/
def versionOf (py : Python F) : Json F → Option (Option Version)
  | .int n => some (if n = 1 then some .plaintext else if n = 2 then some .sealed else none)
  | .bool b => some (if b then some .plaintext else none)
  | .real x =>
      some (if py.floatEq x 1 then some .plaintext
        else if py.floatEq x 2 then some .sealed else none)
  | .null => some none
  | .string _ => some none
  | .array _ => none
  | .object _ => none

/-! ## Endpoints -/

/-- `url.startswith(start)`, and what follows. -/
def afterStart (start url : Text) : Option Text :=
  if url.take start.length = start then some (url.drop start.length) else none

/-- What stands in front of an end. -/
def beforeEnd (ending host : Text) : Option Text :=
  if ending.length ≤ host.length ∧ host.drop (host.length - ending.length) = ending then
    some (host.take (host.length - ending.length))
  else none

/-- What stands in front of an end that a pattern closes with `$`, which also matches in front of a
last newline. -/
def beforeDollar (ending host : Text) : Option Text :=
  (beforeEnd ending host).or (beforeEnd (ending ++ ['\n']) host)

/-- `[a-z0-9-]`. -/
def regionChar (c : Char) : Bool :=
  (97 ≤ c.toNat && c.toNat ≤ 122) || (48 ≤ c.toNat && c.toNat ≤ 57) || c = '-'

/-- `[a-z0-9-]+`. -/
def regionLabel (label : Text) : Option Text :=
  if label ≠ [] ∧ label.all regionChar then some label else none

/-- `_host_of`. -/
def hostOf (py : Python F) (url : Text) : Text :=
  match (afterStart httpScheme url).or (afterStart httpsScheme url) with
  | some rest =>
      if rest.takeWhile (· ≠ '/') = [] then [] else py.lower (rest.takeWhile (· ≠ '/'))
  | none => []

/-- The clouds of `PROVIDERS`. -/
inductive Provider
  | aliyunOss
  | tencentCos
  | awsS3
  | googleCloudStorage
  | azureBlob
  deriving DecidableEq, Repr

inductive RegionSource
  | fromHost
  | operator
  | unused
  deriving DecidableEq, Repr

def Provider.regionSource : Provider → RegionSource
  | .aliyunOss => .fromHost
  | .tencentCos => .fromHost
  | .awsS3 => .fromHost
  | .googleCloudStorage => .operator
  | .azureBlob => .unused

def aliyunEnd : Text := ['.', 'a', 'l', 'i', 'y', 'u', 'n', 'c', 's', '.', 'c', 'o', 'm']

def tencentEnd : Text := ['.', 'm', 'y', 'q', 'c', 'l', 'o', 'u', 'd', '.', 'c', 'o', 'm']

def awsEnd : Text := ['.', 'a', 'm', 'a', 'z', 'o', 'n', 'a', 'w', 's', '.', 'c', 'o', 'm']

def googleHost : Text :=
  ['s', 't', 'o', 'r', 'a', 'g', 'e', '.', 'g', 'o', 'o', 'g', 'l', 'e', 'a', 'p', 'i', 's', '.',
    'c', 'o', 'm']

def azureEnd : Text :=
  ['.', 'b', 'l', 'o', 'b', '.', 'c', 'o', 'r', 'e', '.', 'w', 'i', 'n', 'd', 'o', 'w', 's', '.',
    'n', 'e', 't']

/-- `provider_from_endpoint`; every other host is the fallback. -/
def providerFromEndpoint (py : Python F) (url : Text) : Option Provider :=
  let host := hostOf py url
  if host = [] then none
  else if (beforeDollar aliyunEnd host).isSome then some .aliyunOss
  else if (beforeDollar tencentEnd host).isSome then some .tencentCos
  else if beforeDollar googleHost host = some [] then some .googleCloudStorage
  else if (beforeDollar azureEnd host).isSome then some .azureBlob
  else some .awsS3

/-- The region of `^oss-([a-z0-9-]+?)(?:-internal)?\.aliyuncs\.com$`; the lazy group leaves an
`-internal` to the option behind it. -/
def aliyunRegion (host : Text) : Option Text :=
  match (beforeDollar aliyunEnd host).bind (afterStart ['o', 's', 's', '-']) with
  | some label =>
      match (beforeEnd ['-', 'i', 'n', 't', 'e', 'r', 'n', 'a', 'l'] label).bind regionLabel with
      | some inner => some inner
      | none => regionLabel label
  | none => none

/-- The region of `(?:^|\.)cos\.([a-z0-9-]+)\.myqcloud\.com$`. -/
def tencentRegion (host : Text) : Option Text :=
  match beforeDollar tencentEnd host with
  | some rest =>
      let label := (rest.reverse.takeWhile (· ≠ '.')).reverse
      let front := rest.take (rest.length - label.length)
      if front = ['c', 'o', 's', '.'] ∨ (beforeEnd ['.', 'c', 'o', 's', '.'] front).isSome then
        regionLabel label
      else none
  | none => none

/-- The region of `^s3[.-]([a-z0-9-]+)\.amazonaws\.com$`. -/
def awsRegion (host : Text) : Option Text :=
  ((beforeDollar awsEnd host).bind fun rest =>
    (afterStart ['s', '3', '.'] rest).or (afterStart ['s', '3', '-'] rest)).bind regionLabel

/-- `region_from_endpoint`. -/
def regionFromEndpoint (py : Python F) (url : Text) : Text :=
  let host := hostOf py url
  if host = [] then []
  else if host = ['s', '3'] ++ awsEnd then ['u', 's', '-', 'e', 'a', 's', 't', '-', '1']
  else (((aliyunRegion host).or (tencentRegion host)).or (awsRegion host)).getD []

/-- `region_must_be_typed`. -/
def regionMustBeTyped (py : Python F) (url : Text) : Bool :=
  if regionFromEndpoint py url ≠ [] then false
  else
    match providerFromEndpoint py url with
    | none => true
    | some provider => provider.regionSource ≠ .unused

/-- `is_ingest_endpoint`. -/
def isIngestEndpoint : Json F → Bool
  | .string url => (afterStart ingestScheme url).isSome
  | _ => false

/-! ## Sections -/

/-- `META_MAX_BYTES`, for `META_FIELDS`. -/
def metaFields : List (Text × ℕ) :=
  [(metaTask, 255), (metaLocation, 511), (metaMessage, 1023), (metaCapturer, 255)]

/-- `_validate_meta`. -/
def validateMeta : Json F → List Problem
  | .object fields =>
      unknownFields metaKey fields (metaFields.map Prod.fst) ++
        metaFields.flatMap fun entry =>
          (stringField (dotted metaKey entry.1) (field fields entry.1) false (some entry.2) none).1
  | _ => [⟨some metaKey, .mustBeObject⟩]

/-- `STORAGE_FIELDS`. -/
def storageFields : Version → List Text
  | .plaintext =>
      [endpointUrl, regionField, bucketField, accessKeyId, prefixField, secretAccessKey]
  | .sealed => [endpointUrl, regionField, bucketField, accessKeyId, prefixField]

/-- `STORAGE_MAX_BYTES`. -/
def storageMaxBytes (name : Text) : ℕ :=
  if name = endpointUrl ∨ name = prefixField then 127
  else if name = regionField then 31
  else 63

/-- A text field of `storage`. -/
def storageString (fields : List (Text × Json F)) (name : Text) (required : Bool) :
    List Problem × Text :=
  stringField (dotted storageKey name) (field fields name) required (some (storageMaxBytes name))
    none

/-- What is wrong with a field of `storage` that a version has no place for. -/
def storageFieldProblem (version : Version) (bucketOnly : List Text) (name : Text) : Problem :=
  if name = secretAccessKey then
    ⟨some (dotted storageKey secretAccessKey), .secretNotAllowedSealed version.number⟩
  else if name ∈ bucketOnly then ⟨some (dotted storageKey name), .notForIngest⟩
  else ⟨some (dotted storageKey name), .unknownField⟩

def storageUnknown (fields : List (Text × Json F)) (version : Version)
    (allowed bucketOnly : List Text) : List Problem :=
  ((fields.map Prod.fst).filter fun name => name ∉ allowed).map
    (storageFieldProblem version bucketOnly)

/-- `INGEST_STORAGE_FIELDS`, with the secret of a plaintext payload. -/
def ingestStorageFields : Version → List Text
  | .plaintext => [endpointUrl, accessKeyId, destinationHint, secretAccessKey]
  | .sealed => [endpointUrl, accessKeyId, destinationHint]

/-- `BUCKET_ONLY_FIELDS`. -/
def bucketOnlyFields : List Text := [regionField, bucketField, prefixField, statusPrefixField]

/-- `_device_secret`, of a secret that is not required. -/
def deviceSecret (path : Text) (v : Json F) : List Problem :=
  let found := stringField path v false none (some 43)
  found.1 ++
    if found.2 ≠ [] ∧ Ingest.decodeSecret found.2 = none then [⟨some path, .deviceSecretFormat⟩]
    else []

/-- `validate_ingest_storage`. -/
def validateIngestStorage (py : Python F) (fields : List (Text × Json F)) (version : Version) :
    List Problem :=
  let endpoint := storageString fields endpointUrl true
  storageUnknown fields version (ingestStorageFields version) bucketOnlyFields ++
    (endpoint.1 ++
      ((if (py.hostname endpoint.2).getD [] = [] then
          [⟨some (dotted storageKey endpointUrl), .ingestNeedsHost⟩]
        else []) ++
        ((storageString fields accessKeyId true).1 ++
          ((storageString fields destinationHint false).1 ++
            match version with
            | .plaintext =>
                deviceSecret (dotted storageKey secretAccessKey) (field fields secretAccessKey)
            | .sealed => []))))

/-- The bucket sections of `_validate_storage`. -/
def validateBucketStorage (py : Python F) (fields : List (Text × Json F)) (version : Version) :
    List Problem :=
  let endpoint := storageString fields endpointUrl true
  let region := storageString fields regionField false
  storageUnknown fields version (storageFields version) [] ++
    (endpoint.1 ++
      ((if endpoint.2 ≠ [] ∧ (afterStart httpScheme endpoint.2).isNone ∧
            (afterStart httpsScheme endpoint.2).isNone then
          [⟨some (dotted storageKey endpointUrl), .mustBeHttpUrl⟩]
        else []) ++
        (region.1 ++
          ((if region.2 = [] ∧ endpoint.2 ≠ [] ∧ regionMustBeTyped py endpoint.2 then
              [⟨some (dotted storageKey regionField), .regionNotDerivable⟩]
            else []) ++
            ((storageString fields bucketField true).1 ++
              ((storageString fields accessKeyId true).1 ++
                ((match version with
                  | .plaintext => (storageString fields secretAccessKey false).1
                  | .sealed => []) ++
                  (storageString fields prefixField false).1)))))))

/-- `_validate_storage`. -/
def validateStorage (py : Python F) (version : Version) : Json F → List Problem
  | .object fields =>
      if isIngestEndpoint (field fields endpointUrl) then validateIngestStorage py fields version
      else validateBucketStorage py fields version
  | _ => [⟨some storageKey, .mustBeObject⟩]

def validateAutoUpload : Json F → List Problem
  | .bool _ => []
  | _ => [⟨some autoUploadKey, .mustBeBoolean⟩]

def validateBitrate (v : Json F) : List Problem := intInRange bitrateKey v 500 50000

/-- `_validate_resolution`. -/
def validateResolution : Json F → List Problem
  | .object fields =>
      unknownFields resolutionKey fields [resolutionWidth, resolutionHeight] ++
        (intInRange (dotted resolutionKey resolutionWidth) (field fields resolutionWidth)
            240 4096 ++
          intInRange (dotted resolutionKey resolutionHeight) (field fields resolutionHeight)
            240 4096)
  | _ => [⟨some resolutionKey, .mustBeObject⟩]

/-- `_validate_wifi`. -/
def validateWifi : Json F → List Problem
  | .object fields =>
      let psk := stringField (dotted wifiKey wifiPassphrase) (field fields wifiPassphrase) false
        (some 63) none
      unknownFields wifiKey fields [wifiSsid, wifiPassphrase] ++
        ((stringField (dotted wifiKey wifiSsid) (field fields wifiSsid) true (some 32) none).1 ++
          (psk.1 ++
            if psk.2 ≠ [] ∧ ¬ (8 ≤ psk.2.length ∧ psk.2.length ≤ 63) then
              [⟨some (dotted wifiKey wifiPassphrase), .wifiPassphraseLength⟩]
            else []))
  | _ => [⟨some wifiKey, .mustBeObject⟩]

/-- `SEALED_MAX_BYTES`. -/
def sealedMaxBytes : ℕ := 384

/-- `SEALED_HAS`. -/
def sealedHasNames : List Text := [sealStorageSecret, sealRecordingKey]

/-- The problems of `sealed.has`. -/
def validateHas (has : Json F) : List Problem :=
  let path := some (dotted sealedKey sealedHas)
  match has with
  | .array items =>
      match strings items with
      | none => [⟨path, .hasList⟩]
      | some [] => [⟨path, .hasEmpty⟩]
      | some names =>
          (names.filter fun name => name ∉ sealedHasNames).map fun name =>
            ⟨path, .hasUnknown name⟩
  | _ => [⟨path, .hasList⟩]

/-- `_validate_sealed`. -/
def validateSealed : Json F → List Problem
  | .object fields =>
      let kid := stringField (dotted sealedKey sealedKid) (field fields sealedKid) true none
        (some 8)
      unknownFields sealedKey fields [sealedKid, sealedHas, sealedBlob] ++
        (kid.1 ++
          ((if kid.2 ≠ [] ∧ ¬ (kid.2.length = 8 ∧ kid.2.all Ingest.lowerHex) then
              [⟨some (dotted sealedKey sealedKid), .kidFormat⟩]
            else []) ++
            ((stringField (dotted sealedKey sealedBlob) (field fields sealedBlob) true none
                (some ((sealedMaxBytes * 4 + 2) / 3))).1 ++
              validateHas (field fields sealedHas))))
  | _ => [⟨some sealedKey, .mustBeObject⟩]

/-! ## Payloads -/

/-- `cfg.get("t") != PAYLOAD_TYPE`. -/
def isPayloadType : Json F → Bool
  | .string s => s = payloadType
  | _ => false

/-- A section that is there. -/
def ifThere (cfg : Dict Text (Json F)) (key : Text) (check : Json F → List Problem) :
    List Problem :=
  match cfg.get key with
  | some v => check v
  | none => []

/-- The rules that depend on the version. -/
def problems (py : Python F) (version : Version) (cfg : Dict Text (Json F)) : List Problem :=
  ((cfg.keys.filter fun key => key ∉ knownKeys version).map fun key => ⟨some key, .unknownKey⟩) ++
    ((if (knownKeys version).any fun key => key ∉ [typeKey, versionKey] && key ∈ cfg.keys then []
      else [⟨none, .noSections⟩]) ++
      (ifThere cfg metaKey validateMeta ++
        (ifThere cfg storageKey (validateStorage py version) ++
          (ifThere cfg autoUploadKey validateAutoUpload ++
            (ifThere cfg bitrateKey validateBitrate ++
              (ifThere cfg resolutionKey validateResolution ++
                (ifThere cfg wifiKey validateWifi ++ ifThere cfg sealedKey validateSealed)))))))

/-- `validate`; `none` where the version has no hash. -/
def validate (py : Python F) (cfg : Dict Text (Json F)) : Option (List Problem) :=
  let typeProblems : List Problem :=
    if isPayloadType (field cfg.entries typeKey) then [] else [⟨some typeKey, .badType⟩]
  match versionOf py (field cfg.entries versionKey) with
  | none => none
  | some none => some (typeProblems ++ [⟨some versionKey, .badVersion⟩])
  | some (some version) => some (typeProblems ++ problems py version cfg)

end Json

end VisioSchema.SettingsQr

import VisioSchema.Crypto.B64url
import VisioSchema.Library.Json

/-!
# The sealed body

`SealedSecrets` of `settings_qr/sealed_body`: the secrets half of a v2 settings QR, and its JSON
body.  The constructor's checks are fields of the structure, so that `from_body` has to decide them.
-/

namespace VisioSchema.SettingsQr

open VisioSchema.Wire VisioSchema.Library VisioSchema.Crypto

/-! ## Field names -/

def sealStorageSecret : Text := ['s', 'k']

def sealRecordingKey : Text := ['r', 'k']

def sealOldRecordingKey : Text := ['r', 'k', 'o']

def sealDevices : Text := ['d', 'e', 'v']

def sealExpires : Text := ['e', 'x', 'p']

/-- The fields that a sealed body may have, in the order in which they are written. -/
def sealFields : List Text :=
  [sealStorageSecret, sealRecordingKey, sealOldRecordingKey, sealDevices, sealExpires]

def recordingKeyBytes : ℕ := 32

/-! ## Secrets -/

/-- `_require_key_length`, of a key that is there. -/
def requireKeyLength (key : Option (List Byte)) : Bool :=
  match key with
  | some key => key.length = recordingKeyBytes
  | none => true

/-- `SealedSecrets`, with what `__post_init__` requires of the keys. -/
structure SealedSecrets where
  storageSecret : Option Text := none
  recordingKey : Option (List Byte) := none
  oldRecordingKey : Option (List Byte) := none
  devices : List Text := []
  expiresAt : Option ℤ := none
  recordingKey_length : recordingKey = some [] ∨ requireKeyLength recordingKey = true
  oldRecordingKey_length : requireKeyLength oldRecordingKey = true

/-- Why a body is refused. -/
inductive BodyError
  | mustBeObject
  | unknownFields (names : List Text)
  | mustBeString (name : Text)
  | notBase64 (name : Text)
  | notCanonical (name : Text)
  | mustBeList
  | notIterable
  | storageSecretType
  | keyLength (name : Text)
  | devicesType
  | expiresAtType
  deriving DecidableEq, Repr

section Json

variable {F : Type*}

/-- `isinstance(d, str)` for every item. -/
def strings : List (Json F) → Option (List Text)
  | [] => some []
  | .string s :: rest => (strings rest).map (s :: ·)
  | _ :: _ => none

/-- A value that is a string or `None`. -/
def optionalString : Json F → Option (Option Text)
  | .null => some none
  | .string s => some (some s)
  | _ => none

/-- A value that is an integer or `None`. -/
def optionalInt : Json F → Option (Option ℤ)
  | .null => some none
  | .int n => some (some n)
  | _ => none

/-- `SealedSecrets(…)`, with the checks of `__post_init__`. -/
def SealedSecrets.make (storageSecret : Json F) (recordingKey oldRecordingKey : Option (List Byte))
    (devices : List (Json F)) (expiresAt : Json F) : Except BodyError SealedSecrets :=
  match optionalString storageSecret with
  | none => .error .storageSecretType
  | some storageSecret =>
      if hkey : recordingKey = some [] ∨ requireKeyLength recordingKey = true then
        if hold : requireKeyLength oldRecordingKey = true then
          match strings devices with
          | none => .error .devicesType
          | some devices =>
              match optionalInt expiresAt with
              | none => .error .expiresAtType
              | some expiresAt =>
                  .ok
                    { storageSecret, recordingKey, oldRecordingKey, devices, expiresAt
                      recordingKey_length := hkey
                      oldRecordingKey_length := hold }
        else .error (.keyLength sealOldRecordingKey)
      else .error (.keyLength sealRecordingKey)

/-! ## To a body -/

/-- `body[name] = value`, if there is a value. -/
def optionalEntry (name : Text) (value : Option (Json F)) : List (Text × Json F) :=
  match value with
  | some value => [(name, value)]
  | none => []

/-- `_b64(key) if key else ""`. -/
def keyText (key : List Byte) : Text := if key = [] then [] else B64url.encode key

/-- The entries that `to_body` sets. -/
def SealedSecrets.bodyEntries (secrets : SealedSecrets) : List (Text × Json F) :=
  optionalEntry sealStorageSecret (secrets.storageSecret.map Json.string) ++
    (optionalEntry sealRecordingKey
        (secrets.recordingKey.map fun key => Json.string (keyText key)) ++
      (optionalEntry sealOldRecordingKey
          (secrets.oldRecordingKey.map fun key => Json.string (B64url.encode key)) ++
        (optionalEntry sealDevices
            (if secrets.devices = [] then none
              else some (.array (secrets.devices.map Json.string))) ++
          optionalEntry sealExpires (secrets.expiresAt.map Json.int))))

/-- `to_body`. -/
def SealedSecrets.toBody (secrets : SealedSecrets) : Dict Text (Json F) :=
  Dict.empty.setAll secrets.bodyEntries

/-! ## From a body -/

/-- `_checked_b64_key`. -/
def checkedB64Key (value : Json F) (name : Text) : Except BodyError (List Byte) :=
  match value with
  | .string text =>
      match urlsafeB64decode (padded text) with
      | none => .error (.notBase64 name)
      | some raw => if B64url.encode raw ≠ text then .error (.notCanonical name) else .ok raw
  | _ => .error (.mustBeString name)

/-- `body.get(name)`: a field that is not there reads as `None`. -/
def field (fields : List (Text × Json F)) (name : Text) : Json F :=
  (Dict.lookup name fields).getD .null

/-- The recording key of a body; only the empty string clears it. -/
def recordingKeyOf (rk : Json F) : Except BodyError (Option (List Byte)) :=
  match rk with
  | .null => .ok none
  | .string [] => .ok (some [])
  | rk => (checkedB64Key rk sealRecordingKey).map some

def oldRecordingKeyOf (rko : Json F) : Except BodyError (Option (List Byte)) :=
  match rko with
  | .null => .ok none
  | rko => (checkedB64Key rko sealOldRecordingKey).map some

/-- `isinstance(devices, str)`. -/
def isString : Json F → Bool
  | .string _ => true
  | _ => false

/-- `tuple(devices)`: a list gives its items, and an object its keys. -/
def tuple : Json F → Option (List (Json F))
  | .array items => some items
  | .object fields => some (fields.map fun entry => .string entry.1)
  | _ => none

/-- `body.get("dev", ())`. -/
def devicesOf (fields : List (Text × Json F)) : Json F :=
  (Dict.lookup sealDevices fields).getD (.array [])

/-- `from_body` of an object. -/
def fromFields (fields : List (Text × Json F)) : Except BodyError SealedSecrets :=
  let unknown := (fields.map Prod.fst).filter fun name => name ∉ sealFields
  if unknown ≠ [] then .error (.unknownFields unknown)
  else
    match recordingKeyOf (field fields sealRecordingKey) with
    | .error error => .error error
    | .ok recordingKey =>
        if isString (devicesOf fields) then .error .mustBeList
        else
          match oldRecordingKeyOf (field fields sealOldRecordingKey) with
          | .error error => .error error
          | .ok oldRecordingKey =>
              match tuple (devicesOf fields) with
              | none => .error .notIterable
              | some devices =>
                  SealedSecrets.make (field fields sealStorageSecret) recordingKey oldRecordingKey
                    devices (field fields sealExpires)

/-- `from_body`. -/
def fromBody : Json F → Except BodyError SealedSecrets
  | .object fields => fromFields fields
  | _ => .error .mustBeObject

end Json

end VisioSchema.SettingsQr

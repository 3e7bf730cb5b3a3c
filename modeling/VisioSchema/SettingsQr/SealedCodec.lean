import VisioSchema.SettingsQr.SealedBody

/-!
# The sealed body's codec

`from_body` accepts the fields that say the same as some secrets (`Describes`), and nothing else:
every field is read by its own rule, and what each rule accepts is what `to_body` writes.  The
one exception is `dev`: an object is accepted for the list of its keys.

So each rule has an equivalence (`optionalString_eq_some_iff` and the like),
`fromFields_eq_ok_iff` puts them together, and both halves of the codec are read off it.  What
was written describes the secrets (`describes_toBody`), hence is read back; and an accepted body
is written back as it was, field by field, except for what writing leaves out
(`toBody_same_iff`).
-/

namespace VisioSchema.SettingsQr

open VisioSchema.Wire VisioSchema.Library VisioSchema.Crypto

variable {F : Type*}

/-! ## What a field says -/

/-- A value that may be missing. -/
def orNull (value : Option (Json F)) : Json F := value.getD .null

theorem strings_eq_some_iff {items : List (Json F)} {texts : List Text} :
    strings items = some texts ↔ items = texts.map Json.string := by
  induction items generalizing texts with
  | nil =>
      constructor
      · intro heq
        cases heq
        rfl
      · intro heq
        rw [List.map_eq_nil_iff.mp heq.symm]
        rfl
  | cons item items ih =>
      cases item with
      | string s =>
          rw [strings, Option.map_eq_some_iff]
          constructor
          · rintro ⟨rest, hrest, rfl⟩
            rw [ih.mp hrest, List.map_cons]
          · intro heq
            cases texts with
            | nil => cases heq
            | cons text texts =>
                obtain ⟨hs, hrest⟩ := List.cons.inj heq
                obtain rfl := Json.string.inj hs
                exact ⟨texts, ih.mpr hrest, rfl⟩
      | _ => cases texts <;> simp [strings]

theorem optionalString_eq_some_iff {value : Json F} {s : Option Text} :
    optionalString value = some s ↔ value = orNull (s.map Json.string) := by
  cases value <;> cases s <;> simp [optionalString, orNull, eq_comm]

theorem optionalInt_eq_some_iff {value : Json F} {n : Option ℤ} :
    optionalInt value = some n ↔ value = orNull (n.map Json.int) := by
  cases value <;> cases n <;> simp [optionalInt, orNull, eq_comm]

/-- Only what `_b64` writes is accepted for a key. -/
theorem checkedB64Key_eq_ok_iff {value : Json F} {name : Text} {key : List Byte} :
    checkedB64Key value name = .ok key ↔ value = .string (B64url.encode key) := by
  constructor
  · intro hok
    cases value with
    | string text =>
        rw [checkedB64Key] at hok
        cases hraw : urlsafeB64decode (padded text) with
        | none => simp [hraw] at hok
        | some raw =>
            simp only [hraw] at hok
            split at hok
            case isTrue => cases hok
            case isFalse hcanonical =>
              cases hok
              rw [not_not] at hcanonical
              rw [hcanonical]
    | _ => cases hok
  · rintro rfl
    simp only [checkedB64Key, B64url.urlsafeB64decode_encode, ne_eq, not_true_eq_false, if_false]

theorem map_checkedB64Key_eq_ok_iff {value : Json F} {name : Text} {key : Option (List Byte)} :
    (checkedB64Key value name).map some = .ok key ↔
      ∃ raw, key = some raw ∧ value = .string (B64url.encode raw) := by
  constructor
  · intro hok
    cases hchecked : checkedB64Key value name with
    | error error => rw [hchecked] at hok; cases hok
    | ok raw =>
        rw [hchecked] at hok
        cases hok
        exact ⟨raw, rfl, checkedB64Key_eq_ok_iff.mp hchecked⟩
  · rintro ⟨raw, rfl, heq⟩
    rw [checkedB64Key_eq_ok_iff.mpr heq]
    rfl

theorem keyText_ne_nil {key : List Byte} (hkey : key ≠ []) : keyText key = B64url.encode key :=
  if_neg hkey

theorem keyText_eq_nil_iff {key : List Byte} : keyText key = [] ↔ key = [] := by
  constructor
  · intro heq
    by_contra hkey
    rw [keyText_ne_nil hkey] at heq
    exact B64url.encode_ne_nil hkey heq
  · rintro rfl
    rfl

/-- The empty string clears the key, and any other string is the encoding of one. -/
theorem recordingKeyOf_string_eq_ok_iff {text : Text} {key : Option (List Byte)} :
    recordingKeyOf (Json.string text : Json F) = .ok key ↔
      ∃ raw, key = some raw ∧ text = keyText raw := by
  cases text with
  | nil =>
      constructor
      · intro heq
        cases heq
        exact ⟨[], rfl, rfl⟩
      · rintro ⟨raw, rfl, htext⟩
        rw [keyText_eq_nil_iff.mp htext.symm]
        rfl
  | cons c text =>
      have hof : recordingKeyOf (Json.string (c :: text) : Json F) =
          (checkedB64Key (Json.string (c :: text) : Json F) sealRecordingKey).map some := rfl
      rw [hof, map_checkedB64Key_eq_ok_iff]
      constructor
      · rintro ⟨raw, rfl, heq⟩
        have htext := Json.string.inj heq
        have hraw : raw ≠ [] := by
          rintro rfl
          cases htext
        exact ⟨raw, rfl, by rw [keyText_ne_nil hraw, htext]⟩
      · rintro ⟨raw, rfl, htext⟩
        have hraw : raw ≠ [] := by
          rintro rfl
          cases htext
        exact ⟨raw, rfl, by rw [htext, keyText_ne_nil hraw]⟩

theorem recordingKeyOf_eq_ok_iff {rk : Json F} {key : Option (List Byte)} :
    recordingKeyOf rk = .ok key ↔ rk = orNull (key.map fun key => Json.string (keyText key)) := by
  cases rk with
  | null => cases key <;> simp [recordingKeyOf, orNull]
  | string text =>
      rw [recordingKeyOf_string_eq_ok_iff]
      cases key <;> simp [orNull]
  | _ =>
      constructor
      · intro heq
        cases heq
      · intro heq
        cases key <;> cases heq

theorem oldRecordingKeyOf_eq_ok_iff {rko : Json F} {key : Option (List Byte)} :
    oldRecordingKeyOf rko = .ok key ↔
      rko = orNull (key.map fun key => Json.string (B64url.encode key)) := by
  cases rko with
  | null => cases key <;> simp [oldRecordingKeyOf, orNull]
  | string text =>
      have hof : oldRecordingKeyOf (Json.string text : Json F) =
          (checkedB64Key (Json.string text : Json F) sealOldRecordingKey).map some := rfl
      rw [hof, map_checkedB64Key_eq_ok_iff]
      cases key <;> simp [orNull]
  | _ =>
      constructor
      · intro heq
        cases heq
      · intro heq
        cases key <;> cases heq

/-! ## What is accepted -/

/-- The fields say the same as the secrets. -/
structure Describes (fields : List (Text × Json F)) (secrets : SealedSecrets) : Prop where
  known : ∀ name ∈ fields.map Prod.fst, name ∈ sealFields
  storageSecret :
    field fields sealStorageSecret = orNull (secrets.storageSecret.map Json.string)
  recordingKey :
    field fields sealRecordingKey =
      orNull (secrets.recordingKey.map fun key => Json.string (keyText key))
  oldRecordingKey :
    field fields sealOldRecordingKey =
      orNull (secrets.oldRecordingKey.map fun key => Json.string (B64url.encode key))
  devices :
    isString (devicesOf fields) = false ∧
      tuple (devicesOf fields) = some (secrets.devices.map Json.string)
  expiresAt : field fields sealExpires = orNull (secrets.expiresAt.map Json.int)

theorem make_eq_ok_iff {storageSecret expiresAt : Json F}
    {recordingKey oldRecordingKey : Option (List Byte)} {devices : List (Json F)}
    {secrets : SealedSecrets} :
    SealedSecrets.make storageSecret recordingKey oldRecordingKey devices expiresAt = .ok secrets ↔
      storageSecret = orNull (secrets.storageSecret.map Json.string) ∧
        recordingKey = secrets.recordingKey ∧ oldRecordingKey = secrets.oldRecordingKey ∧
        devices = secrets.devices.map Json.string ∧
        expiresAt = orNull (secrets.expiresAt.map Json.int) := by
  rw [← optionalString_eq_some_iff, ← optionalInt_eq_some_iff, ← strings_eq_some_iff]
  unfold SealedSecrets.make
  constructor
  · intro hok
    cases hstorage : optionalString storageSecret with
    | none => simp [hstorage] at hok
    | some storage =>
        simp only [hstorage] at hok
        split at hok
        case isFalse => cases hok
        case isTrue hkey =>
          split at hok
          case isFalse => cases hok
          case isTrue hold =>
            cases hdevices : strings devices with
            | none => simp [hdevices] at hok
            | some texts =>
                cases hexpires : optionalInt expiresAt with
                | none => simp [hdevices, hexpires] at hok
                | some expires =>
                    simp only [hdevices, hexpires] at hok
                    cases hok
                    exact ⟨rfl, rfl, rfl, rfl, rfl⟩
  · rintro ⟨hstorage, rfl, rfl, hdevices, hexpires⟩
    simp only [hstorage, hdevices, hexpires, dif_pos secrets.recordingKey_length,
      dif_pos secrets.oldRecordingKey_length]

/-- `from_body` accepts the fields that describe some secrets. -/
theorem fromFields_eq_ok_iff {fields : List (Text × Json F)} {secrets : SealedSecrets} :
    fromFields fields = .ok secrets ↔ Describes fields secrets := by
  have hunknown : (fields.map Prod.fst).filter (fun name => name ∉ sealFields) = [] ↔
      ∀ name ∈ fields.map Prod.fst, name ∈ sealFields := by
    rw [List.filter_eq_nil_iff]
    simp
  unfold fromFields
  constructor
  · intro hok
    dsimp only at hok
    split at hok
    case isTrue => cases hok
    case isFalse hknown =>
      cases hrk : recordingKeyOf (field fields sealRecordingKey) with
      | error error => simp [hrk] at hok
      | ok recordingKey =>
          simp only [hrk] at hok
          split at hok
          case isTrue => cases hok
          case isFalse hstring =>
            cases hrko : oldRecordingKeyOf (field fields sealOldRecordingKey) with
            | error error => simp [hrko] at hok
            | ok oldRecordingKey =>
                cases hdevices : tuple (devicesOf fields) with
                | none => simp [hrko, hdevices] at hok
                | some devices =>
                    simp only [hrko, hdevices] at hok
                    obtain ⟨hstorage, rfl, rfl, rfl, hexpires⟩ := make_eq_ok_iff.mp hok
                    exact
                      { known := hunknown.mp (not_not.mp hknown)
                        storageSecret := hstorage
                        recordingKey := recordingKeyOf_eq_ok_iff.mp hrk
                        oldRecordingKey := oldRecordingKeyOf_eq_ok_iff.mp hrko
                        devices := ⟨by simpa using hstring, hdevices⟩
                        expiresAt := hexpires }
  · intro hdescribes
    have hrk := recordingKeyOf_eq_ok_iff.mpr hdescribes.recordingKey
    have hrko := oldRecordingKeyOf_eq_ok_iff.mpr hdescribes.oldRecordingKey
    have hmake := make_eq_ok_iff.mpr
      ⟨hdescribes.storageSecret, rfl, rfl, rfl, hdescribes.expiresAt⟩
    dsimp only
    rw [if_neg (not_not.mpr (hunknown.mpr hdescribes.known)), hrk]
    dsimp only
    rw [if_neg (by simp [hdescribes.devices.1]), hrko]
    dsimp only
    rw [hdescribes.devices.2]
    exact hmake

/-! ## Bodies -/

theorem lookup_optionalEntry (name : Text) (value : Option (Json F)) (key : Text) :
    Dict.lookup key (optionalEntry name value) = if key = name then value else none := by
  cases value with
  | none => rw [optionalEntry, Dict.lookup_nil, ite_self]
  | some value => rw [optionalEntry, Dict.lookup_cons, Dict.lookup_nil]

theorem map_fst_optionalEntry_sublist (name : Text) (value : Option (Json F)) :
    ((optionalEntry name value).map Prod.fst).Sublist [name] := by
  cases value with
  | none => exact List.nil_sublist _
  | some value => exact List.Sublist.refl _

theorem map_fst_bodyEntries_sublist (secrets : SealedSecrets) :
    ((secrets.bodyEntries : List (Text × Json F)).map Prod.fst).Sublist sealFields := by
  simp only [SealedSecrets.bodyEntries, List.map_append]
  exact (map_fst_optionalEntry_sublist _ _).append ((map_fst_optionalEntry_sublist _ _).append
    ((map_fst_optionalEntry_sublist _ _).append ((map_fst_optionalEntry_sublist _ _).append
      (map_fst_optionalEntry_sublist _ _))))

theorem entries_toBody (secrets : SealedSecrets) :
    (secrets.toBody : Dict Text (Json F)).entries = secrets.bodyEntries := by
  have hnodup : ((secrets.bodyEntries : List (Text × Json F)).map Prod.fst).Nodup :=
    List.Nodup.sublist (map_fst_bodyEntries_sublist secrets) (by decide)
  exact Dict.entries_setAll (d := Dict.empty) (by simpa [Dict.keys, Dict.empty] using hnodup)

/-- What a body holds for each field. -/
theorem get_toBody (secrets : SealedSecrets) (key : Text) :
    (secrets.toBody : Dict Text (Json F)).get key =
      if key = sealStorageSecret then secrets.storageSecret.map Json.string
      else if key = sealRecordingKey then
        secrets.recordingKey.map fun key => Json.string (keyText key)
      else if key = sealOldRecordingKey then
        secrets.oldRecordingKey.map fun key => Json.string (B64url.encode key)
      else if key = sealDevices then
        if secrets.devices = [] then none else some (.array (secrets.devices.map Json.string))
      else if key = sealExpires then secrets.expiresAt.map Json.int
      else none := by
  rw [Dict.get, entries_toBody, SealedSecrets.bodyEntries]
  simp only [Dict.lookup_append, lookup_optionalEntry]
  by_cases h1 : key = sealStorageSecret
  · subst h1
    simp [sealStorageSecret, sealRecordingKey, sealOldRecordingKey, sealDevices, sealExpires]
  · by_cases h2 : key = sealRecordingKey
    · subst h2
      simp [sealStorageSecret, sealRecordingKey, sealOldRecordingKey, sealDevices, sealExpires]
    · by_cases h3 : key = sealOldRecordingKey
      · subst h3
        simp [sealStorageSecret, sealRecordingKey, sealOldRecordingKey, sealDevices, sealExpires]
      · by_cases h4 : key = sealDevices
        · subst h4
          simp [sealStorageSecret, sealRecordingKey, sealOldRecordingKey, sealDevices, sealExpires]
        · simp [h1, h2, h3, h4]

/-- What was written describes the secrets. -/
theorem describes_toBody (secrets : SealedSecrets) :
    Describes (secrets.toBody : Dict Text (Json F)).entries secrets := by
  have hfield (name : Text) : field (secrets.toBody : Dict Text (Json F)).entries name =
      orNull ((secrets.toBody : Dict Text (Json F)).get name) := rfl
  refine ⟨?_, ?_, ?_, ?_, ?_, ?_⟩
  · intro name hmem
    rw [entries_toBody] at hmem
    exact (map_fst_bodyEntries_sublist secrets).subset hmem
  · rw [hfield, get_toBody, if_pos rfl]
  · rw [hfield, get_toBody, if_neg (by decide), if_pos rfl]
  · rw [hfield, get_toBody, if_neg (by decide), if_neg (by decide), if_pos rfl]
  · have hget := get_toBody (F := F) secrets sealDevices
    rw [if_neg (by decide), if_neg (by decide), if_neg (by decide), if_pos rfl] at hget
    have hdevices : devicesOf (secrets.toBody : Dict Text (Json F)).entries =
        .array (secrets.devices.map Json.string) := by
      rw [devicesOf, ← Dict.get, hget]
      by_cases hnil : secrets.devices = []
      · rw [if_pos hnil, hnil]
        rfl
      · rw [if_neg hnil]
        rfl
    rw [hdevices]
    exact ⟨rfl, rfl⟩
  · rw [hfield, get_toBody, if_neg (by decide), if_neg (by decide), if_neg (by decide),
      if_neg (by decide), if_pos rfl]

/-- Secrets that were written are read back. -/
theorem fromBody_toBody (secrets : SealedSecrets) :
    fromBody (Json.object (secrets.toBody : Dict Text (Json F)).entries) = .ok secrets :=
  fromFields_eq_ok_iff.mpr (describes_toBody secrets)

/-! ## Accepted bodies -/

def isNull : Json F → Bool
  | .null => true
  | _ => false

def isEmptyArray : Json F → Bool
  | .array [] => true
  | _ => false

def isObject : Json F → Bool
  | .object _ => true
  | _ => false

/-- A body without its null-valued fields and without an empty `dev` list. -/
def stripped (body : Dict Text (Json F)) : Dict Text (Json F) :=
  body.filter fun entry =>
    !isNull entry.2 && !(decide (entry.1 = sealDevices) && isEmptyArray entry.2)

theorem get_stripped {body : Dict Text (Json F)} {name : Text} (hname : name ≠ sealDevices) :
    (stripped body).get name = (body.get name).filter fun value => !isNull value := by
  rw [stripped, Dict.get_filter]
  simp only [decide_eq_false hname, Bool.false_and, Bool.not_false, Bool.and_true]

/-- A field that reads as an optional value, once it is stripped. -/
theorem get_stripped_eq {body : Dict Text (Json F)} {name : Text} (hname : name ≠ sealDevices)
    {value : Option (Json F)} (hvalue : value.any isNull = false)
    (hfield : field body.entries name = orNull value) : (stripped body).get name = value := by
  rw [get_stripped hname]
  have hget : (body.get name).getD .null = orNull value := hfield
  cases value with
  | none =>
      cases hbody : body.get name with
      | none => rfl
      | some held =>
          rw [hbody, Option.getD_some] at hget
          rw [hget]
          rfl
  | some value =>
      cases hbody : body.get name with
      | none =>
          rw [hbody, Option.getD_none] at hget
          have hnull : Json.null = value := hget
          rw [← hnull] at hvalue
          cases hvalue
      | some held =>
          rw [hbody, Option.getD_some] at hget
          have hheld : held = value := hget
          rw [hheld, Option.filter_some, if_pos]
          rw [Option.any_some] at hvalue
          rw [hvalue]
          rfl

theorem any_isNull_map_string {α : Type*} (f : α → Text) (value : Option α) :
    (value.map fun x => (Json.string (f x) : Json F)).any isNull = false := by
  cases value <;> rfl

/-- The device list of an accepted body is written back, unless it was an object. -/
theorem get_stripped_devices_iff {body : Dict Text (Json F)} {secrets : SealedSecrets}
    (hdescribes : Describes body.entries secrets) :
    (secrets.toBody : Dict Text (Json F)).get sealDevices = (stripped body).get sealDevices ↔
      (body.get sealDevices).any isObject = false := by
  obtain ⟨hstring, htuple⟩ := hdescribes.devices
  have hof : devicesOf body.entries = (body.get sealDevices).getD (.array []) := rfl
  rw [hof] at htuple
  rw [get_toBody, if_neg (by decide), if_neg (by decide), if_neg (by decide), if_pos rfl, stripped,
    Dict.get_filter]
  cases hbody : body.get sealDevices with
  | none =>
      rw [hbody, Option.getD_none] at htuple
      have hnil : secrets.devices = [] := List.map_eq_nil_iff.mp (Option.some.inj htuple).symm
      rw [hnil]
      simp
  | some value =>
      rw [hbody, Option.getD_some] at htuple
      cases value with
      | array items =>
          have hitems : items = secrets.devices.map Json.string := Option.some.inj htuple
          rw [hitems]
          cases secrets.devices with
          | nil => exact ⟨fun _ => rfl, fun _ => rfl⟩
          | cons device devices => exact ⟨fun _ => rfl, fun _ => rfl⟩
      | object fields =>
          have hkept : (!isNull (Json.object fields) && !(decide (sealDevices = sealDevices) &&
              isEmptyArray (Json.object fields))) = true := by
            simp [isNull, isEmptyArray]
          rw [Option.filter_some, if_pos hkept]
          split <;> simp [isObject]
      | _ => cases htuple

/-- An accepted body is written back as it was, without null fields and an empty list, unless its
`dev` is an object. -/
theorem toBody_same_iff {body : Dict Text (Json F)} {secrets : SealedSecrets}
    (hdescribes : Describes body.entries secrets) :
    (secrets.toBody : Dict Text (Json F)).Same (stripped body) ↔
      (body.get sealDevices).any isObject = false := by
  rw [← get_stripped_devices_iff hdescribes]
  constructor
  · intro hsame
    exact hsame sealDevices
  · intro hdevices name
    by_cases hdev : name = sealDevices
    · rw [hdev]
      exact hdevices
    rw [get_toBody]
    split_ifs with h1 h2 h3 h5
    · rw [h1]
      exact (get_stripped_eq (by decide) (any_isNull_map_string id _)
        hdescribes.storageSecret).symm
    · rw [h2]
      exact (get_stripped_eq (by decide) (any_isNull_map_string keyText _)
        hdescribes.recordingKey).symm
    · rw [h3]
      exact (get_stripped_eq (by decide) (any_isNull_map_string B64url.encode _)
        hdescribes.oldRecordingKey).symm
    · rw [h5]
      have hint : (secrets.expiresAt.map (Json.int : ℤ → Json F)).any isNull = false := by
        cases secrets.expiresAt <;> rfl
      exact (get_stripped_eq (by decide) hint hdescribes.expiresAt).symm
    · -- no other field is accepted
      rw [get_stripped hdev]
      have hnone : body.get name = none := by
        rw [Dict.get_eq_none_iff]
        intro hmem
        have hknown := hdescribes.known name hmem
        simp [sealFields, h1, h2, h3, h5, hdev] at hknown
      rw [hnone]
      rfl

/-- The clearing value is the empty string, and nothing else. -/
theorem recordingKey_cleared_iff {body : Dict Text (Json F)} {secrets : SealedSecrets}
    (hdescribes : Describes body.entries secrets) :
    secrets.recordingKey = some [] ↔ body.get sealRecordingKey = some (.string []) := by
  have hget : (body.get sealRecordingKey).getD .null = _ := hdescribes.recordingKey
  cases hkey : secrets.recordingKey with
  | none =>
      rw [hkey] at hget
      constructor
      · intro heq
        cases heq
      · intro heq
        rw [heq] at hget
        cases hget
  | some key =>
      rw [hkey] at hget
      cases hbody : body.get sealRecordingKey with
      | none =>
          rw [hbody] at hget
          cases hget
      | some value =>
          rw [hbody] at hget
          have hvalue : value = .string (keyText key) := hget
          rw [hvalue, Option.some.injEq, Option.some.injEq, Json.string.injEq, keyText_eq_nil_iff]

/-- The codec of the sealed body: what is written is read back; and of a body that is accepted, what
is read is written back as it was exactly when its `dev` is no object, and only the empty string
clears the recording key. -/
theorem sealedBody_codec (body : Dict Text (Json F)) :
    (∀ secrets : SealedSecrets,
        fromBody (Json.object (secrets.toBody : Dict Text (Json F)).entries) = .ok secrets) ∧
      ∀ secrets, fromBody (Json.object body.entries) = .ok secrets →
        ((secrets.toBody : Dict Text (Json F)).Same (stripped body) ↔
          (body.get sealDevices).any isObject = false) ∧
        (secrets.recordingKey = some [] ↔ body.get sealRecordingKey = some (.string [])) := by
  refine ⟨fromBody_toBody, fun secrets hok => ?_⟩
  have hdescribes := fromFields_eq_ok_iff.mp hok
  exact ⟨toBody_same_iff hdescribes, recordingKey_cleared_iff hdescribes⟩

/-! ## An object of devices -/

/-- `{"sk": null, "rk": "", "dev": ["u"]}`. -/
def clearingBody : Dict Text (Json Unit) where
  entries := [(sealStorageSecret, .null), (sealRecordingKey, .string []),
    (sealDevices, .array [.string ['u']])]
  nodup := by decide

/-- `{"dev": {"u": 1}}`. -/
def deviceObjectBody : Dict Text (Json Unit) where
  entries := [(sealDevices, .object [(['u'], .int 1)])]
  nodup := by decide

/-- Secrets that clear the recording key of one unit. -/
def clearingSecrets : SealedSecrets where
  recordingKey := some []
  devices := [['u']]
  recordingKey_length := .inl rfl
  oldRecordingKey_length := rfl

/-- Secrets that are restricted to one unit. -/
def restrictedSecrets : SealedSecrets where
  devices := [['u']]
  recordingKey_length := .inr rfl
  oldRecordingKey_length := rfl

theorem sealedBody_codec_clearing :
    fromBody (Json.object clearingBody.entries) = .ok clearingSecrets ∧
      ((clearingSecrets.toBody : Dict Text (Json Unit)).Same (stripped clearingBody) ↔
        (clearingBody.get sealDevices).any isObject = false) ∧
      (clearingSecrets.recordingKey = some [] ↔
        clearingBody.get sealRecordingKey = some (.string [])) :=
  ⟨rfl, (sealedBody_codec clearingBody).2 clearingSecrets rfl⟩

/-- An object is accepted for a list of devices, and written back as one. -/
theorem fromBody_deviceObject :
    fromBody (Json.object deviceObjectBody.entries) = .ok restrictedSecrets ∧
      (restrictedSecrets.toBody : Dict Text (Json Unit)).get sealDevices =
        some (.array [.string ['u']]) ∧
      (stripped deviceObjectBody).get sealDevices = some (.object [(['u'], .int 1)]) :=
  ⟨rfl, rfl, rfl⟩

end VisioSchema.SettingsQr

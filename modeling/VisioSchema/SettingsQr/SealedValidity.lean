import VisioSchema.Library.JsonRoundTrip
import VisioSchema.SettingsQr.Sealing

/-!
# Sealing keeps a payload valid

What `seal_into` makes of a valid plaintext payload passes every rule of `validate` for a sealed
one but the last: `sealed.has` must not be empty, and it names only the two secrets that a device
acts on.  An envelope that holds nothing but a device list, an expiry or the old recording key is
therefore written, opens again, and is refused by the validator (`sealInto_keepsValid_iff`).

`validate` collects the problems of the sections, and has none exactly where each section is
valid (`validate_eq_nil_iff`).  Sealing touches two of them: the storage section loses its
secret, which leaves it valid (`validateStorage_clearedStorage`), and the `sealed` section is
made (`validateSealed_sealedSection`); the others are what they were
(`get_sealedPayload_section`).
-/

namespace VisioSchema.SettingsQr

open VisioSchema.Wire VisioSchema.Library VisioSchema.Crypto

variable {F : Type*}

/-! ## Valid payloads -/

theorem ifThere_eq_nil_iff {cfg : Dict Text (Json F)} {key : Text}
    {check : Json F → List Problem} :
    ifThere cfg key check = [] ↔ ∀ v, cfg.get key = some v → check v = [] := by
  rw [ifThere]
  cases cfg.get key with
  | none => simp
  | some v => simp

/-- What the rules of a version ask for. -/
structure Valid (py : Python F) (version : Version) (cfg : Dict Text (Json F)) : Prop where
  known : ∀ key ∈ cfg.keys, key ∈ knownKeys version
  sections : ∃ key ∈ knownKeys version, key ∉ [typeKey, versionKey] ∧ key ∈ cfg.keys
  metaValid : ∀ v, cfg.get metaKey = some v → validateMeta v = []
  storageValid : ∀ v, cfg.get storageKey = some v → validateStorage py version v = []
  autoUploadValid : ∀ v, cfg.get autoUploadKey = some v → validateAutoUpload v = []
  bitrateValid : ∀ v, cfg.get bitrateKey = some v → validateBitrate v = []
  resolutionValid : ∀ v, cfg.get resolutionKey = some v → validateResolution v = []
  wifiValid : ∀ v, cfg.get wifiKey = some v → validateWifi v = []
  sealedValid : ∀ v, cfg.get sealedKey = some v → validateSealed v = []

theorem problems_eq_nil_iff {py : Python F} {version : Version} {cfg : Dict Text (Json F)} :
    problems py version cfg = [] ↔ Valid py version cfg := by
  have hknown : ((cfg.keys.filter fun key => key ∉ knownKeys version).map fun key =>
        (⟨some key, .unknownKey⟩ : Problem)) = [] ↔
      ∀ key ∈ cfg.keys, key ∈ knownKeys version := by
    rw [List.map_eq_nil_iff, List.filter_eq_nil_iff]
    simp
  have hsections : (if (knownKeys version).any fun key =>
          key ∉ [typeKey, versionKey] && key ∈ cfg.keys then []
        else [(⟨none, .noSections⟩ : Problem)]) = [] ↔
      ∃ key ∈ knownKeys version, key ∉ [typeKey, versionKey] ∧ key ∈ cfg.keys := by
    rw [ite_eq_left_iff]
    simp [and_assoc]
  simp only [problems, List.append_eq_nil_iff, hknown, hsections, ifThere_eq_nil_iff]
  constructor
  · rintro ⟨h1, h2, h3, h4, h5, h6, h7, h8, h9⟩
    exact ⟨h1, h2, h3, h4, h5, h6, h7, h8, h9⟩
  · rintro ⟨h1, h2, h3, h4, h5, h6, h7, h8, h9⟩
    exact ⟨h1, h2, h3, h4, h5, h6, h7, h8, h9⟩

/-- A payload is valid when its type is right and the rules of its version hold. -/
theorem validate_eq_nil_iff {py : Python F} {version : Version} {cfg : Dict Text (Json F)}
    (hversion : versionOf py (field cfg.entries versionKey) = some (some version)) :
    validate py cfg = some [] ↔
      isPayloadType (field cfg.entries typeKey) = true ∧ Valid py version cfg := by
  rw [← problems_eq_nil_iff, validate]
  simp only [hversion, Option.some.injEq, List.append_eq_nil_iff, ite_eq_left_iff]
  simp

/-! ## The storage section -/

theorem field_withoutSecret (fields : List (Text × Json F)) {name : Text}
    (hname : name ≠ secretAccessKey) : field (withoutSecret fields) name = field fields name := by
  rw [field, field]
  induction fields with
  | nil => rfl
  | cons entry fields ih =>
      rw [withoutSecret, List.filter_cons, Dict.lookup_cons]
      by_cases hentry : entry.1 = secretAccessKey
      · rw [if_neg (by simpa using hentry), if_neg (hentry ▸ hname)]
        exact ih
      · rw [if_pos (by simpa using hentry), Dict.lookup_cons]
        split
        case isTrue => rfl
        case isFalse => exact ih

theorem storageString_withoutSecret (fields : List (Text × Json F)) {name : Text}
    (hname : name ≠ secretAccessKey) (required : Bool) :
    storageString (withoutSecret fields) name required = storageString fields name required := by
  rw [storageString, storageString, field_withoutSecret fields hname]

/-- Without the secret, the fields that a plaintext payload may have are those of a sealed one. -/
theorem storageUnknown_withoutSecret {fields : List (Text × Json F)} {plain allowed : List Text}
    {bucketOnly : List Text} (hallowed : ∀ name ∈ plain, name ≠ secretAccessKey → name ∈ allowed)
    (hnone : storageUnknown fields .plaintext plain bucketOnly = []) :
    storageUnknown (withoutSecret fields) .sealed allowed bucketOnly = [] := by
  rw [storageUnknown, List.map_eq_nil_iff, List.filter_eq_nil_iff] at hnone ⊢
  intro name hmem
  obtain ⟨entry, hentry, rfl⟩ := List.mem_map.mp hmem
  obtain ⟨hin, hsecret⟩ := List.mem_filter.mp hentry
  have hplain := hnone entry.1 (List.mem_map_of_mem hin)
  simp only [decide_not, Bool.not_eq_true', decide_eq_false_iff_not, not_not] at hplain hsecret ⊢
  exact hallowed entry.1 hplain hsecret

/-- A valid section stays valid without its secret. -/
theorem validateStorage_clearedStorage {py : Python F} {v : Json F}
    (hvalid : validateStorage py .plaintext v = []) :
    validateStorage py .sealed (clearedStorage v) = [] := by
  cases v with
  | object fields =>
      have hendpoint : field (withoutSecret fields) endpointUrl = field fields endpointUrl :=
        field_withoutSecret fields (by decide)
      have htext (name : Text) (required : Bool) (hname : name ≠ secretAccessKey) :=
        storageString_withoutSecret fields hname required
      rw [clearedStorage]
      rw [validateStorage] at hvalid ⊢
      rw [hendpoint]
      by_cases hingest : isIngestEndpoint (field fields endpointUrl)
      · rw [if_pos hingest] at hvalid ⊢
        simp only [validateIngestStorage, List.append_eq_nil_iff] at hvalid ⊢
        obtain ⟨hunknown, hurl, hhost, hkey, hhint, -⟩ := hvalid
        rw [htext _ _ (by decide), htext _ _ (by decide), htext _ _ (by decide)]
        exact ⟨storageUnknown_withoutSecret (by decide) hunknown, hurl, hhost, hkey, hhint, trivial⟩
      · rw [if_neg hingest] at hvalid ⊢
        simp only [validateBucketStorage, List.append_eq_nil_iff] at hvalid ⊢
        obtain ⟨hunknown, hurl, hhttp, hregion, htyped, hbucket, hkey, -, hpre⟩ := hvalid
        rw [htext _ _ (by decide), htext _ _ (by decide), htext _ _ (by decide),
          htext _ _ (by decide), htext _ _ (by decide)]
        exact ⟨storageUnknown_withoutSecret (by decide) hunknown, hurl, hhttp, hregion, htyped,
          hbucket, hkey, trivial, hpre⟩
  | _ => cases hvalid

/-! ## The sealed section -/

theorem digit_lowerHex : ∀ n < 16, Ingest.lowerHex (Nat.digitChar n) = true := by decide

/-- A key id is eight lowercase hex digits. -/
theorem keyId_form {prims : Primitives} (hlaw : prims.Lawful) (pubkey : List Byte) :
    (Envelope.keyId prims pubkey).length = 8 ∧
      (Envelope.keyId prims pubkey).all Ingest.lowerHex = true := by
  refine ⟨?_, ?_⟩
  · rw [Envelope.keyId, Envelope.length_hex, Envelope.length_keyIdBytes hlaw]
    rfl
  · rw [List.all_eq_true]
    intro c hc
    obtain ⟨n, hn, rfl⟩ := Envelope.exists_digit_of_mem_hex hc
    exact digit_lowerHex n hn

theorem validateHas_strings (has : List Text) (hnames : ∀ name ∈ has, name ∈ sealedHasNames) :
    validateHas (.array (has.map Json.string) : Json F) = [] ↔ has ≠ [] := by
  have hstrings : strings (has.map (Json.string : Text → Json F)) = some has :=
    strings_eq_some_iff.mpr rfl
  simp only [validateHas, hstrings]
  cases has with
  | nil => simp
  | cons name has =>
      have hnone : (name :: has).filter (fun name => name ∉ sealedHasNames) = [] := by
        rw [List.filter_eq_nil_iff]
        intro other hmem
        simpa using hnames other hmem
      simp only [hnone, List.map_nil, ne_eq, reduceCtorEq, not_false_eq_true]

/-- A section with a key id and a blob that fits is valid exactly when its hint says something. -/
theorem validateSealed_sealedSection {kid : Text} {has : List Text} {blob : List Byte}
    (hkid : kid.length = 8 ∧ kid.all Ingest.lowerHex = true)
    (hnames : ∀ name ∈ has, name ∈ sealedHasNames) (hblob : blob ≠ [])
    (hfits : blob.length ≤ sealedMaxBytes) :
    validateSealed (sealedSection kid has blob : Json F) = [] ↔ has ≠ [] := by
  have hb := B64url.three_mul_length_encode_le blob
  have hmax : ¬ (sealedMaxBytes * 4 + 2) / 3 < (B64url.encode blob).length := by
    rw [sealedMaxBytes] at hfits ⊢
    omega
  have hkidNil : kid ≠ [] := by
    rintro rfl
    exact absurd hkid.1 (by decide)
  have hkidField : field [(sealedKid, (.string kid : Json F)),
      (sealedHas, .array (has.map Json.string)), (sealedBlob, .string (B64url.encode blob))]
      sealedKid = .string kid := rfl
  have hhasField : field [(sealedKid, (.string kid : Json F)),
      (sealedHas, .array (has.map Json.string)), (sealedBlob, .string (B64url.encode blob))]
      sealedHas = .array (has.map Json.string) := rfl
  have hblobField : field [(sealedKid, (.string kid : Json F)),
      (sealedHas, .array (has.map Json.string)), (sealedBlob, .string (B64url.encode blob))]
      sealedBlob = .string (B64url.encode blob) := rfl
  have hunknown : unknownFields sealedKey [(sealedKid, (.string kid : Json F)),
      (sealedHas, .array (has.map Json.string)), (sealedBlob, .string (B64url.encode blob))]
      [sealedKid, sealedHas, sealedBlob] = [] := rfl
  rw [← validateHas_strings (F := F) has hnames, sealedSection, validateSealed, hkidField,
    hhasField, hblobField, hunknown]
  simp [stringField, hkidNil, hkid.1, hkid.2, B64url.encode_ne_nil hblob, hmax]

theorem has_names (secrets : SealedSecrets) : ∀ name ∈ secrets.has, name ∈ sealedHasNames := by
  intro name hmem
  rw [SealedSecrets.has, List.mem_append] at hmem
  rcases hmem with hmem | hmem
  · split at hmem
    case isTrue => exact List.mem_cons.mpr (.inl (List.mem_singleton.mp hmem))
    case isFalse => cases hmem
  · split at hmem
    case isTrue => exact List.mem_cons_of_mem _ hmem
    case isFalse => cases hmem

/-- The hint says something when a secret is set that a device acts on. -/
theorem has_ne_nil_iff (secrets : SealedSecrets) :
    secrets.has ≠ [] ↔ secrets.storageSecret ≠ none ∨ secrets.recordingKey ≠ none := by
  rw [SealedSecrets.has]
  cases secrets.storageSecret <;> cases secrets.recordingKey <;> simp

/-! ## The payload -/

/-- The payload around a blob. -/
def sealedPayload (cfg : Dict Text (Json F)) (kid : Text) (has : List Text) (blob : List Byte) :
    Dict Text (Json F) :=
  (payloadOf (popSecret cfg (copiedInto cfg)).2).set sealedKey (sealedSection kid has blob)

theorem get_sealedPayload (cfg : Dict Text (Json F)) (kid : Text) (has : List Text)
    (blob : List Byte) (key : Text) :
    (sealedPayload cfg kid has blob).get key =
      if key = sealedKey then some (sealedSection kid has blob)
      else if key = typeKey then some (.string payloadType)
      else if key = versionKey then some (.int Version.sealed.number)
      else (cfg.get key).map (cleared key) := by
  rw [sealedPayload, Dict.get_set, (popSecret_copiedInto cfg).2]

/-- A section that sealing leaves alone. -/
theorem get_sealedPayload_section {cfg : Dict Text (Json F)} {kid : Text} {has : List Text}
    {blob : List Byte} {key : Text}
    (hkey : key ∉ [sealedKey, typeKey, versionKey, storageKey]) :
    (sealedPayload cfg kid has blob).get key = cfg.get key := by
  simp only [List.mem_cons, List.not_mem_nil, or_false, not_or] at hkey
  obtain ⟨hsealed, htype, hversion, hstorage⟩ := hkey
  rw [get_sealedPayload, if_neg hsealed, if_neg htype, if_neg hversion]
  have hcleared : cleared key = (id : Json F → Json F) := by
    funext v
    exact if_neg hstorage
  rw [hcleared, Option.map_id]
  rfl

theorem get_sealedPayload_storage (cfg : Dict Text (Json F)) (kid : Text) (has : List Text)
    (blob : List Byte) :
    (sealedPayload cfg kid has blob).get storageKey = (cfg.get storageKey).map clearedStorage := by
  rw [get_sealedPayload, if_neg (by decide), if_neg (by decide), if_neg (by decide)]
  rfl

/-- What comes out of a valid plaintext payload is valid when its `sealed` section is. -/
theorem valid_sealedPayload_iff {py : Python F} {cfg : Dict Text (Json F)}
    (hvalid : Valid py .plaintext cfg) {kid : Text} {has : List Text} {blob : List Byte} :
    Valid py .sealed (sealedPayload cfg kid has blob) ↔
      validateSealed (sealedSection kid has blob : Json F) = [] := by
  have hsealed : (sealedPayload cfg kid has blob).get sealedKey =
      some (sealedSection kid has blob) := by
    rw [get_sealedPayload, if_pos rfl]
  constructor
  · intro hout
    exact hout.sealedValid _ hsealed
  · intro hsection
    exact
      { known := by
          intro key hmem
          obtain ⟨v, hv⟩ := Dict.mem_keys_iff.mp hmem
          rw [get_sealedPayload] at hv
          split_ifs at hv with hkey htype hversion
          · rw [hkey]
            decide
          · rw [htype]
            decide
          · rw [hversion]
            decide
          · obtain ⟨w, hw, -⟩ := Option.map_eq_some_iff.mp hv
            exact List.mem_append_left _ (hvalid.known key (Dict.mem_keys_iff.mpr ⟨w, hw⟩))
        sections :=
          ⟨sealedKey, by decide, by decide, Dict.mem_keys_iff.mpr ⟨_, hsealed⟩⟩
        metaValid := by
          rw [get_sealedPayload_section (by decide)]
          exact hvalid.metaValid
        storageValid := by
          intro v hv
          rw [get_sealedPayload_storage] at hv
          obtain ⟨w, hw, rfl⟩ := Option.map_eq_some_iff.mp hv
          exact validateStorage_clearedStorage (hvalid.storageValid w hw)
        autoUploadValid := by
          rw [get_sealedPayload_section (by decide)]
          exact hvalid.autoUploadValid
        bitrateValid := by
          rw [get_sealedPayload_section (by decide)]
          exact hvalid.bitrateValid
        resolutionValid := by
          rw [get_sealedPayload_section (by decide)]
          exact hvalid.resolutionValid
        wifiValid := by
          rw [get_sealedPayload_section (by decide)]
          exact hvalid.wifiValid
        sealedValid := by
          intro v hv
          rw [hsealed] at hv
          rw [← Option.some.inj hv]
          exact hsection }

/-- `validate` of the payload. -/
theorem validate_sealedPayload_iff {py : Python F} {cfg : Dict Text (Json F)}
    (hvalid : Valid py .plaintext cfg) {kid : Text}
    (hkid : kid.length = 8 ∧ kid.all Ingest.lowerHex = true) (secrets : SealedSecrets)
    {blob : List Byte} (hblob : blob ≠ []) (hfits : blob.length ≤ sealedMaxBytes) :
    validate py (sealedPayload cfg kid secrets.has blob) = some [] ↔
      secrets.storageSecret ≠ none ∨ secrets.recordingKey ≠ none := by
  have htype : (sealedPayload cfg kid secrets.has blob).get typeKey =
      some (.string payloadType) := by
    rw [get_sealedPayload, if_neg (by decide), if_pos rfl]
  have hversion : (sealedPayload cfg kid secrets.has blob).get versionKey = some (.int 2) := by
    rw [get_sealedPayload, if_neg (by decide), if_neg (by decide), if_pos rfl]
    rfl
  have htypeField : field (sealedPayload cfg kid secrets.has blob).entries typeKey =
      .string payloadType := by
    rw [field, ← Dict.get, htype, Option.getD_some]
  have hversionOf : versionOf py
      (field (sealedPayload cfg kid secrets.has blob).entries versionKey) =
        some (some .sealed) := by
    rw [field, ← Dict.get, hversion]
    rfl
  have hpayload : isPayloadType (.string payloadType : Json F) = true := by
    rw [isPayloadType]
    exact decide_eq_true rfl
  rw [validate_eq_nil_iff hversionOf, htypeField, valid_sealedPayload_iff hvalid,
    validateSealed_sealedSection hkid (has_names secrets) hblob hfits, has_ne_nil_iff]
  exact and_iff_right hpayload

/-! ## Sealing and opening -/

/-- A body is written as it is. -/
theorem written_toBody (secrets : SealedSecrets) :
    Json.Written (Json.object (secrets.toBody : Dict Text (Json F)).entries) := by
  refine .object secrets.toBody.nodup fun entry hmem => ?_
  rw [entries_toBody] at hmem
  have hentry {name : Text} {value : Option (Json F)} (hvalue : ∀ v ∈ value, Json.Written v)
      (hin : entry ∈ optionalEntry name value) : Json.Written entry.2 := by
    cases value with
    | none => cases hin
    | some v =>
        rw [List.mem_singleton.mp hin]
        exact hvalue v rfl
  have hstring {α : Type} (f : α → Text) (value : Option α) :
      ∀ v ∈ value.map fun x => (Json.string (f x) : Json F), Json.Written v := by
    intro v hv
    obtain ⟨x, -, rfl⟩ := Option.map_eq_some_iff.mp hv
    exact .string _
  simp only [SealedSecrets.bodyEntries, List.mem_append] at hmem
  rcases hmem with hmem | hmem | hmem | hmem | hmem
  · exact hentry (hstring id secrets.storageSecret) hmem
  · exact hentry (hstring keyText secrets.recordingKey) hmem
  · exact hentry (hstring B64url.encode secrets.oldRecordingKey) hmem
  · refine hentry (fun v hv => ?_) hmem
    split at hv
    case isTrue => cases hv
    case isFalse =>
      rw [← Option.some.inj hv]
      refine .array fun w hw => ?_
      obtain ⟨device, -, rfl⟩ := List.mem_map.mp hw
      exact .string _
  · refine hentry (fun v hv => ?_) hmem
    obtain ⟨n, -, rfl⟩ := Option.map_eq_some_iff.mp hv
    exact .int n

/-- What was sealed is read back. -/
theorem bodyOf_bodyBytes (floats : Floats F) (secrets : SealedSecrets) :
    bodyOf floats (bodyBytes floats secrets) = .ok secrets := by
  simp only [bodyOf, bodyBytes, Text.decode_encode,
    Json.loads_dumps floats (written_toBody secrets), fromBody_toBody]

variable {prims : Primitives} {floats : Floats F} {eph sk : PrivateKey}

/-- The key that an envelope is sealed to opens the payload. -/
theorem openSealed_sealedPayload (hlaw : prims.Lawful) {secrets : SealedSecrets} {blob : List Byte}
    (hblob : Envelope.sealEnvelope prims (bodyBytes floats secrets) (prims.publicKey sk) eph =
      some blob) (cfg : Dict Text (Json F)) (kid : Text) :
    openSealed prims floats (sealedPayload cfg kid secrets.has blob) sk = .ok secrets := by
  have hsealed : (sealedPayload cfg kid secrets.has blob).get sealedKey =
      some (.object [(sealedKid, .string kid), (sealedHas, .array (secrets.has.map Json.string)),
        (sealedBlob, .string (B64url.encode blob))]) := by
    rw [get_sealedPayload, if_pos rfl]
    rfl
  have hfield : Dict.lookup sealedBlob [(sealedKid, (.string kid : Json F)),
      (sealedHas, .array (secrets.has.map Json.string)),
      (sealedBlob, .string (B64url.encode blob))] = some (.string (B64url.encode blob)) := rfl
  simp only [openSealed, hsealed, blobOf, hfield, B64url.urlsafeB64decode_encode,
    Envelope.unsealEnvelope_seal hlaw hblob, bodyOf_bodyBytes]

/-- `seal_into` of a configuration that is not sealed yet, where the envelope fits: the caller's
configuration is left as it is. -/
theorem sealInto_eq (hlaw : prims.Lawful) {cfg : Dict Text (Json F)} (hcfg : sealedKey ∉ cfg.keys)
    {secrets : SealedSecrets} (hsecrets : secrets.isEmpty = false) {blob : List Byte}
    (hblob : Envelope.sealEnvelope prims (bodyBytes floats secrets) (prims.publicKey sk) eph =
      some blob) (hfits : blob.length ≤ sealedMaxBytes) :
    sealInto prims floats eph cfg secrets (prims.publicKey sk) =
      .ok (cfg,
        sealedPayload cfg (Envelope.keyId prims (prims.publicKey sk)) secrets.has blob) := by
  have hsecretsBlob : sealSecrets prims floats eph secrets (prims.publicKey sk) = .ok blob := by
    simp only [sealSecrets, hblob, if_neg (Nat.not_lt.mpr hfits)]
  simp only [sealInto, if_neg hcfg, hsecrets, Bool.false_eq_true, if_false, hsecretsBlob,
    Envelope.blobKeyId_seal hlaw hblob, (popSecret_copiedInto cfg).1]
  rfl

/-- No secret is left in the storage section. -/
theorem not_mem_storage_sealedPayload {cfg : Dict Text (Json F)} {kid : Text} {has : List Text}
    {blob : List Byte} {fields : List (Text × Json F)}
    (hget : (sealedPayload cfg kid has blob).get storageKey = some (.object fields)) :
    secretAccessKey ∉ fields.map Prod.fst := by
  rw [get_sealedPayload_storage] at hget
  obtain ⟨v, -, hv⟩ := Option.map_eq_some_iff.mp hget
  cases v with
  | object held =>
      obtain rfl := Json.object.inj hv
      intro hmem
      obtain ⟨entry, hentry, heq⟩ := List.mem_map.mp hmem
      have hne := (List.mem_filter.mp hentry).2
      rw [decide_eq_true_iff] at hne
      exact hne heq
  | _ => cases hv

/-- Sealing keeps the payload valid and hides its secret: it succeeds and leaves the configuration
as it is, the payload is valid and holds no storage secret, and it opens to the secrets. -/
def KeepsValid (prims : Primitives) (floats : Floats F) (py : Python F) (eph sk : PrivateKey)
    (cfg : Dict Text (Json F)) (secrets : SealedSecrets) : Prop :=
  ∃ out, sealInto prims floats eph cfg secrets (prims.publicKey sk) = .ok (cfg, out) ∧
    validate py out = some [] ∧
    (∀ fields, out.get storageKey = some (.object fields) →
      secretAccessKey ∉ fields.map Prod.fst) ∧
    openSealed prims floats out sk = .ok secrets

/-- Sealing a valid plaintext payload keeps it valid exactly when a secret is set that
`sealed.has` names. -/
theorem sealInto_keepsValid_iff (hlaw : prims.Lawful) {py : Python F} {cfg : Dict Text (Json F)}
    (hplain : versionOf py (field cfg.entries versionKey) = some (some .plaintext))
    (hvalid : validate py cfg = some []) {secrets : SealedSecrets}
    (hsecrets : secrets.isEmpty = false) {blob : List Byte}
    (hblob : Envelope.sealEnvelope prims (bodyBytes floats secrets) (prims.publicKey sk) eph =
      some blob) (hfits : blob.length ≤ sealedMaxBytes) :
    KeepsValid prims floats py eph sk cfg secrets ↔
      secrets.storageSecret ≠ none ∨ secrets.recordingKey ≠ none := by
  have hvalidCfg : Valid py .plaintext cfg := ((validate_eq_nil_iff hplain).mp hvalid).2
  have hcfg : sealedKey ∉ cfg.keys := fun hmem => absurd (hvalidCfg.known _ hmem) (by decide)
  have hseal := sealInto_eq hlaw hcfg hsecrets hblob hfits
  have hvalidate := validate_sealedPayload_iff hvalidCfg
    (keyId_form hlaw (prims.publicKey sk)) secrets (Envelope.seal_ne_nil hblob) hfits
  constructor
  · rintro ⟨out, hout, hnone, -⟩
    rw [hseal] at hout
    cases hout
    exact hvalidate.mp hnone
  · intro hset
    exact ⟨_, hseal, hvalidate.mpr hset, fun fields hget => not_mem_storage_sealedPayload hget,
      openSealed_sealedPayload hlaw hblob cfg _⟩

/-! ## A code that restricts a device and sets nothing -/

/-- A library of stand-ins: the shared secret is the sum of the keys, and a tag of zeros follows
the text. -/
def plainPrimitives : Primitives where
  publicKey := fun sk => sk.raw
  exchange := fun sk pubkey => some (List.zipWith (· + ·) sk.raw pubkey)
  hkdf := fun ikm _ _ length => ikm.take length
  encrypt := fun _ _ plaintext _ => plaintext ++ List.replicate tagLen 0
  decrypt := fun _ _ ciphertext _ => some (ciphertext.take (ciphertext.length - tagLen))
  sha256 := fun _ => List.replicate 32 7

theorem plainPrimitives_lawful : plainPrimitives.Lawful where
  length_publicKey := fun sk => sk.length_raw
  exchange_comm := by
    intro sk₁ sk₂
    exact congrArg some (List.zipWith_comm_of_comm fun a b => UInt8.add_comm a b)
  length_encrypt := by
    intro key nonce plaintext aad
    exact (List.length_append).trans (congrArg _ (List.length_replicate))
  decrypt_encrypt := by
    intro key nonce plaintext aad
    have hlength : (plaintext ++ List.replicate tagLen (0 : Byte)).length - tagLen =
        plaintext.length := by
      rw [List.length_append, List.length_replicate, Nat.add_sub_cancel]
    have htake : (plaintext ++ List.replicate tagLen (0 : Byte)).take plaintext.length =
        plaintext := List.take_left
    exact congrArg some (hlength ▸ htake)
  length_sha256 := fun _ => rfl

def zeroKey : PrivateKey := ⟨List.replicate keyLen 0, List.length_replicate⟩

def oneKey : PrivateKey := ⟨List.replicate keyLen 1, List.length_replicate⟩

/-- No body holds a float. -/
def noFloats : Floats Unit where
  text := fun _ => []
  ofText := fun _ => ()

def asciiPython : Python Unit where
  floatEq := fun _ _ => false
  lower := fun text => text.map Char.toLower
  hostname := fun _ => none

/-- A bucket with its secret. -/
def bucketConfig : Dict Text (Json Unit) where
  entries := [(versionKey, .int 1), (typeKey, .string payloadType),
    (storageKey, .object [(endpointUrl, .string (httpScheme ++ ['h'])),
      (regionField, .string ['r']), (bucketField, .string ['b']),
      (accessKeyId, .string ['a']), (secretAccessKey, .string ['s'])])]
  nodup := by decide

theorem requireKeyLength_none : requireKeyLength none = true := rfl

theorem noKey_length : (none : Option (List Byte)) = some [] ∨ requireKeyLength none = true :=
  .inr requireKeyLength_none

/-- The bucket's secret. -/
def bucketSecrets : SealedSecrets where
  storageSecret := some ['s']
  recordingKey_length := noKey_length
  oldRecordingKey_length := requireKeyLength_none

theorem sealInto_keepsValid_iff_bucket :
    KeepsValid plainPrimitives noFloats asciiPython oneKey zeroKey bucketConfig bucketSecrets ↔
      bucketSecrets.storageSecret ≠ none ∨ bucketSecrets.recordingKey ≠ none :=
  sealInto_keepsValid_iff plainPrimitives_lawful rfl (by decide) rfl rfl (by decide)

/-- A code that only restricts the units that may take it is refused by the validator. -/
theorem sealInto_devicesOnly :
    restrictedSecrets.isEmpty = false ∧
      ∃ out, sealInto plainPrimitives noFloats oneKey bucketConfig restrictedSecrets
          (plainPrimitives.publicKey zeroKey) = .ok (bucketConfig, out) ∧
        openSealed plainPrimitives noFloats out zeroKey = .ok restrictedSecrets ∧
        validate asciiPython out ≠ some [] := by
  refine ⟨rfl, _, sealInto_eq plainPrimitives_lawful (by decide) rfl rfl (by decide),
    openSealed_sealedPayload plainPrimitives_lawful rfl _ _, ?_⟩
  have hvalid : Valid asciiPython .plaintext bucketConfig :=
    ((validate_eq_nil_iff rfl).mp (by decide)).2
  rw [ne_eq, validate_sealedPayload_iff hvalid (keyId_form plainPrimitives_lawful _) _ (by decide)
    (by decide)]
  decide

end VisioSchema.SettingsQr

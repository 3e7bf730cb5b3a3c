import VisioSchema.Crypto.Envelope
import VisioSchema.SettingsQr.Payload
import VisioSchema.SettingsQr.SealedCodec

/-!
# Sealing a payload

`seal_into` and `open_sealed` of `settings_qr/sealed_body`.

`seal_into` copies the sections that are dictionaries and takes the others over as they are, so that
what is popped from `storage` could be popped from the caller's configuration.  The payload under
way therefore says of each value whether it is its own or the caller's (`Held`).
-/

namespace VisioSchema.SettingsQr

open VisioSchema.Wire VisioSchema.Library VisioSchema.Crypto

/-! ## Secrets -/

/-- `has`. -/
def SealedSecrets.has (secrets : SealedSecrets) : List Text :=
  (if secrets.storageSecret.isSome then [sealStorageSecret] else []) ++
    if secrets.recordingKey.isSome then [sealRecordingKey] else []

/-- `is_empty`. -/
def SealedSecrets.isEmpty (secrets : SealedSecrets) : Bool :=
  (secrets.toBody : Dict Text (Json Unit)).entries.isEmpty

/-- Why nothing is sealed. -/
inductive SealingError
  | alreadySealed
  | unusableKey
  | envelopeTooLarge (bytes : ℕ)
  | malformedEnvelope
  deriving DecidableEq, Repr

/-- Why nothing is opened. -/
inductive OpenError
  | noSealedSection
  | noBlob
  | notBase64
  | envelope (error : Envelope.SealError)
  | notText
  | notJson
  | body (error : BodyError)
  deriving DecidableEq, Repr

section Json

variable {F : Type*}

/-- What `seal_secrets` seals. -/
def bodyBytes (floats : Floats F) (secrets : SealedSecrets) : List Byte :=
  Text.encode (Json.dumps floats (.object secrets.toBody.entries))

/-- `seal_secrets`. -/
def sealSecrets (prims : Primitives) (floats : Floats F) (eph : PrivateKey)
    (secrets : SealedSecrets) (pubkey : List Byte) : Except SealingError (List Byte) :=
  match Envelope.sealEnvelope prims (bodyBytes floats secrets) pubkey eph with
  | none => .error .unusableKey
  | some blob =>
      if sealedMaxBytes < blob.length then .error (.envelopeTooLarge blob.length) else .ok blob

/-! ## Sealing -/

/-- A value of the payload: its own, or one that the caller's configuration holds too. -/
inductive Held (F : Type*)
  | own (v : Json F)
  | shared (v : Json F)

def Held.value : Held F → Json F
  | .own v => v
  | .shared v => v

/-- `dict(v) if isinstance(v, dict) else v`. -/
def copied : Json F → Held F
  | .object fields => .own (.object fields)
  | v => .shared v

theorem nodup_discriminator : [typeKey, versionKey].Nodup := by decide

/-- `{"t": PAYLOAD_TYPE, "v": SEALED_VERSION}`. -/
def discriminator : Dict Text (Held F) where
  entries :=
    [(typeKey, .own (.string payloadType)), (versionKey, .own (.int Version.sealed.number))]
  nodup := nodup_discriminator

/-- `out`, with the sections of the configuration. -/
def copiedInto (cfg : Dict Text (Json F)) : Dict Text (Held F) :=
  discriminator.setAll
    ((cfg.entries.filter fun entry => entry.1 ∉ [typeKey, versionKey]).map fun entry =>
      (entry.1, copied entry.2))

def withoutSecret (fields : List (Text × Json F)) : List (Text × Json F) :=
  fields.filter fun entry => entry.1 ≠ secretAccessKey

/-- `storage.pop("secret_access_key", None)`: the caller's configuration and the payload behind
it. -/
def popSecret (cfg : Dict Text (Json F)) (out : Dict Text (Held F)) :
    Dict Text (Json F) × Dict Text (Held F) :=
  match out.get storageKey with
  | some (.own (.object fields)) =>
      (cfg, out.set storageKey (.own (.object (withoutSecret fields))))
  | some (.shared (.object fields)) =>
      (cfg.set storageKey (.object (withoutSecret fields)),
        out.set storageKey (.shared (.object (withoutSecret fields))))
  | _ => (cfg, out)

def payloadOf (out : Dict Text (Held F)) : Dict Text (Json F) := out.mapValues fun _ v => v.value

/-- The `sealed` section. -/
def sealedSection (kid : Text) (has : List Text) (blob : List Byte) : Json F :=
  .object [(sealedKid, .string kid), (sealedHas, .array (has.map Json.string)),
    (sealedBlob, .string (B64url.encode blob))]

/-- `seal_into`: the caller's configuration after it, and the payload. -/
def sealInto (prims : Primitives) (floats : Floats F) (eph : PrivateKey)
    (cfg : Dict Text (Json F)) (secrets : SealedSecrets) (pubkey : List Byte) :
    Except SealingError (Dict Text (Json F) × Dict Text (Json F)) :=
  if sealedKey ∈ cfg.keys then .error .alreadySealed
  else
    let popped := popSecret cfg (copiedInto cfg)
    if secrets.isEmpty then .ok (popped.1, payloadOf popped.2)
    else
      match sealSecrets prims floats eph secrets pubkey with
      | .error error => .error error
      | .ok blob =>
          match Envelope.blobKeyId blob with
          | none => .error .malformedEnvelope
          | some kid =>
              .ok (popped.1,
                (payloadOf popped.2).set sealedKey (sealedSection kid secrets.has blob))

/-- The bytes of `_unb64(sealed["b"], …)`. -/
def blobOf (fields : List (Text × Json F)) : Except OpenError (List Byte) :=
  match Dict.lookup sealedBlob fields with
  | some (.string text) =>
      match urlsafeB64decode (padded text) with
      | some blob => .ok blob
      | none => .error .notBase64
  | _ => .error .noBlob

/-- The body in what an envelope held. -/
def bodyOf (floats : Floats F) (raw : List Byte) : Except OpenError SealedSecrets :=
  match Text.decode raw with
  | none => .error .notText
  | some text =>
      match Json.loads floats text with
      | none => .error .notJson
      | some body =>
          match fromBody body with
          | .error error => .error (.body error)
          | .ok secrets => .ok secrets

/-- `open_sealed`. -/
def openSealed (prims : Primitives) (floats : Floats F) (payload : Dict Text (Json F))
    (privkey : PrivateKey) : Except OpenError SealedSecrets :=
  match payload.get sealedKey with
  | some (.object fields) =>
      match blobOf fields with
      | .error error => .error error
      | .ok blob =>
          match Envelope.unsealEnvelope prims blob privkey with
          | .error error => .error (.envelope error)
          | .ok raw => bodyOf floats raw
  | _ => .error .noSealedSection

/-! ## The payload that comes out -/

/-- A storage section without its secret. -/
def clearedStorage : Json F → Json F
  | .object fields => .object (withoutSecret fields)
  | v => v

/-- A section of the configuration, as the payload has it. -/
def cleared (key : Text) (v : Json F) : Json F :=
  if key = storageKey then clearedStorage v else v

theorem value_copied (v : Json F) : (copied v).value = v := by cases v <;> rfl

/-- What the payload holds before the secret is popped. -/
theorem get_copiedInto (cfg : Dict Text (Json F)) (key : Text) :
    (copiedInto cfg).get key =
      if key = typeKey then some (.own (.string payloadType))
      else if key = versionKey then some (.own (.int Version.sealed.number))
      else (cfg.get key).map copied := by
  have hkeys : ((discriminator : Dict Text (Held F)).keys ++
      ((cfg.entries.filter fun entry => entry.1 ∉ [typeKey, versionKey]).map fun entry =>
        (entry.1, copied entry.2)).map Prod.fst).Nodup := by
    rw [List.map_map]
    refine List.nodup_append.mpr ⟨nodup_discriminator, ?_, ?_⟩
    · exact cfg.nodup.sublist ((List.filter_sublist).map Prod.fst)
    · rintro key hkey other hother rfl
      obtain ⟨entry, hentry, rfl⟩ := List.mem_map.mp hother
      have hnot := (List.mem_filter.mp hentry).2
      rw [decide_eq_true_iff] at hnot
      exact hnot hkey
  rw [Dict.get, copiedInto, Dict.entries_setAll hkeys, Dict.lookup_append]
  by_cases htype : key = typeKey
  · rw [if_pos htype, htype]
    rfl
  by_cases hversion : key = versionKey
  · rw [if_neg htype, if_pos hversion, hversion]
    rfl
  · have hfirst : Dict.lookup key (discriminator : Dict Text (Held F)).entries = none := by
      rw [← Dict.get, Dict.get_eq_none_iff]
      exact fun hmem => (List.mem_pair.mp hmem).elim htype hversion
    have hrest := Dict.get_mapValues (d := cfg.filter fun entry => entry.1 ∉ [typeKey, versionKey])
      (fun _ => copied) key
    rw [Dict.get_filter] at hrest
    rw [if_neg htype, if_neg hversion, hfirst, Option.none_or]
    refine hrest.trans ?_
    cases cfg.get key with
    | none => rfl
    | some v => rw [Option.filter_some, if_pos (by simp [htype, hversion])]

/-- Popping the secret leaves the configuration as it is: the section that it is popped from is a
copy. -/
theorem popSecret_copiedInto (cfg : Dict Text (Json F)) :
    (popSecret cfg (copiedInto cfg)).1 = cfg ∧
      ∀ key, (payloadOf (popSecret cfg (copiedInto cfg)).2).get key =
        if key = typeKey then some (.string payloadType)
        else if key = versionKey then some (.int Version.sealed.number)
        else (cfg.get key).map (cleared key) := by
  have hstorage : (copiedInto cfg).get storageKey = (cfg.get storageKey).map copied := by
    rw [get_copiedInto, if_neg (by decide), if_neg (by decide)]
  -- where no dictionary stands under `storage`, nothing is popped
  have hkept (key : Text) (hkey : ∀ v, cfg.get key = some v → cleared key v = v) :
      (payloadOf (copiedInto cfg)).get key =
        if key = typeKey then some (.string payloadType)
        else if key = versionKey then some (.int Version.sealed.number)
        else (cfg.get key).map (cleared key) := by
    rw [payloadOf, Dict.get_mapValues, get_copiedInto]
    split_ifs
    · rfl
    · rfl
    · rw [Option.map_map]
      refine Option.map_congr fun v hv => ?_
      rw [Function.comp_apply, value_copied, hkey v hv]
  have hother {key : Text} (hkey : key ≠ storageKey) (v : Json F) : cleared key v = v :=
    if_neg hkey
  cases hget : cfg.get storageKey with
  | none =>
      rw [hget, Option.map_none] at hstorage
      simp only [popSecret, hstorage]
      refine ⟨trivial, fun key => hkept key fun v hv => hother ?_ v⟩
      rintro rfl
      rw [hget] at hv
      cases hv
  | some v =>
      rw [hget, Option.map_some] at hstorage
      cases v with
      | object fields =>
          simp only [popSecret, hstorage, copied]
          refine ⟨trivial, fun key => ?_⟩
          by_cases hkey : key = storageKey
          · subst hkey
            rw [payloadOf, Dict.get_mapValues, Dict.get_set, if_pos rfl, if_neg (by decide),
              if_neg (by decide), hget, Option.map_some, Option.map_some, cleared, if_pos rfl]
            rfl
          · rw [← hkept key fun v _ => hother hkey v, payloadOf, payloadOf, Dict.get_mapValues,
              Dict.get_mapValues, Dict.get_set, if_neg hkey]
      | _ =>
          simp only [popSecret, hstorage, copied]
          refine ⟨trivial, fun key => hkept key fun v hv => ?_⟩
          by_cases hkey : key = storageKey
          · subst hkey
            rw [hget] at hv
            cases hv
            rfl
          · exact hother hkey v

end Json

end VisioSchema.SettingsQr

import VisioSchema.Library.Json
import VisioSchema.SessionJson.Torn

/-!
# Sidecars rebuilt from damaged sessions

`session_json_text` renders a capture mapping, and `session_text` the first mapping of a session's
parts that renders.  Only what the mapping says of each key matters, so that a session whose parts
hold one mapping, or none, has one sidecar, whichever of the parts holds it.
-/

namespace VisioSchema.SessionJson

open VisioSchema.Library VisioSchema.Wire

/-! ## The text of a mapping -/

/-- Python's numbers: `float(s)`, `math.isfinite`, `format(v, ".nf")` and `int(s)`. -/
structure Numerals (F : Type*) where
  parseFloat : Text → Option F
  zero : F
  isFinite : F → Bool
  format : F → ℕ → Text
  parseInt : Text → Option ℤ

/-- `ValueError`, with what it names. -/
inductive ValueError
  | notNumber (text : Text)
  | notFinite (key value : Text)

/-- One character between quotes, `ensure_ascii=False`. -/
def quoteChar (c : Char) : Text :=
  if c = '"' then ['\\', '"']
  else if c = '\\' then ['\\', '\\']
  else if c = '\n' then ['\\', 'n']
  else if c = '\r' then ['\\', 'r']
  else if c = '\t' then ['\\', 't']
  else if c = '\x0c' then ['\\', 'f']
  else if c = '\x08' then ['\\', 'b']
  else if c.toNat < 32 then Json.unicodeEscape c.toNat
  else [c]

/-- `_quote`. -/
def quote (text : Text) : Text := '"' :: (text.flatMap quoteChar ++ ['"'])

section Fields

variable {F : Type*} (numerals : Numerals F) (metadata : Text → Option Text)

/-- `_quote(meta.get(key, ""))`. -/
def quoted (key : String) : Except ValueError Text :=
  .ok (quote ((metadata key.toList).getD []))

/-- `_real`. -/
def real (key : String) (digits : ℕ) : Except ValueError Text :=
  match metadata key.toList with
  | none => .ok (numerals.format numerals.zero digits)
  | some text =>
      match numerals.parseFloat text with
      | none => .error (.notNumber text)
      | some value =>
          if numerals.isFinite value then .ok (numerals.format value digits)
          else .error (.notFinite key.toList text)

/-- `_integer`. -/
def integer (key : String) : Except ValueError Text :=
  match metadata key.toList with
  | none => .ok ['0']
  | some text =>
      match numerals.parseInt text with
      | none => .error (.notNumber text)
      | some n => .ok (Json.intText n)

/-- `[0-9a-f]`. -/
def isHexDigit (c : Char) : Bool :=
  (48 ≤ c.toNat && c.toNat ≤ 57) || (97 ≤ c.toNat && c.toNat ≤ 102)

/-- `_session_key`. -/
def sessionKey : Text :=
  let key := (metadata "session_key".toList).getD []
  if key.length = 32 ∧ key.all isHexDigit = true then key else []

/-- `meta` with its session key checked. -/
def checked (key : Text) : Option Text :=
  if key = "session_key".toList then some (sessionKey metadata) else metadata key

/-- The fields of the sidecar, in order. -/
def fields : List (String × Except ValueError Text) :=
  let metadata := checked metadata
  [("session_name", quoted metadata "session_name"),
    ("device_id", quoted metadata "serial"),
    ("hostname", quoted metadata "hostname"),
    ("kernel", quoted metadata "kernel"),
    ("app_version", quoted metadata "app_version"),
    ("start_time_unix", real numerals metadata "start_time_unix" 6),
    ("task", quoted metadata "task"),
    ("location", quoted metadata "location"),
    ("message", quoted metadata "message"),
    ("capturer", quoted metadata "capturer"),
    ("latitude", real numerals metadata "latitude" 7),
    ("longitude", real numerals metadata "longitude" 7),
    ("client_unix_us", integer numerals metadata "client_unix_us"),
    ("client_utc_offset_min", integer numerals metadata "client_utc_offset_min"),
    ("fps", integer numerals metadata "fps"),
    ("operator_id", quoted metadata "operator_id"),
    ("environment_id", quoted metadata "environment_id"),
    ("recording_key_fingerprint", quoted metadata "recording_key_fingerprint"),
    ("stop_cause", quoted metadata "stop_cause"),
    ("duration_s", integer numerals metadata "duration_s"),
    ("session_key", quoted metadata "session_key"),
    ("calibration_updated_at_us", integer numerals metadata "calibration_updated_at_us"),
    ("duration_source", quoted metadata "duration_source"),
    ("video_frames",
      if (metadata "video_frames".toList).getD [] ≠ [] then integer numerals metadata "video_frames"
      else .ok "null".toList)]

end Fields

/-- `",".join(f"{_quote(k)}:{v}" for k, v in fields)`, of the texts behind the first. -/
def joinFields : List (Text × Text) → Text
  | [] => []
  | (key, value) :: rest => ',' :: (quote key ++ ':' :: (value ++ joinFields rest))

/-- `session_json_text`. -/
def sessionJsonText {F : Type*} (numerals : Numerals F) (metadata : Dict Text Text) :
    Except ValueError Text := do
  let texts ← (fields numerals metadata.get).mapM fun field => do
    return (field.1.toList, ← field.2)
  return '{' :: ((joinFields texts).drop 1 ++ ['}', '\n'])

theorem sessionJsonText_same {F : Type*} (numerals : Numerals F) {first second : Dict Text Text}
    (hsame : first.Same second) :
    sessionJsonText numerals first = sessionJsonText numerals second := by
  have hget : first.get = second.get := funext hsame
  rw [sessionJsonText, sessionJsonText, hget]

/-! ## The text of a session -/

/-- A file of a session's parts, and what reading it gives. -/
structure PartFile (ε : Type) where
  name : Text
  content : Except ε (List Byte)

/-- An entry of `problems`. -/
inductive Problem (ε : Type)
  | unreadable (name : Text) (error : ε)
  | damaged (name : Text) (error : ValueError)

/-- What `session_text` says beside the text: its source, or why there is none. -/
inductive Detail (ε : Type)
  | source (name : Text)
  | unusable (problems : List (Problem ε))
  | noMetadata

section Sessions

variable {F : Type*} {ε : Type} (numerals : Numerals F)

/-- `session_text`, behind some problems. -/
def sessionText : List (PartFile ε) → List (Problem ε) → Except Fault (Option Text × Detail ε)
  | [], [] => .ok (none, .noMetadata)
  | [], problem :: rest => .ok (none, .unusable (problem :: rest))
  | part :: parts, problems =>
      match part.content with
      | .error error => sessionText parts (problems ++ [.unreadable part.name error])
      | .ok bytes => do
          let reading ← readCaptureMetadata bytes
          match reading.capture with
          | none => sessionText parts problems
          | some metadata =>
              match sessionJsonText numerals metadata with
              | .ok text => return (some text, .source part.name)
              | .error error => sessionText parts (problems ++ [.damaged part.name error])

/-- A part of a session: unreadable, or no other mapping is read from it. -/
def PartFile.OfSession (original : Dict Text Text) (part : PartFile ε) : Prop :=
  ∀ bytes, part.content = .ok bytes →
    bytes.length < 4611686018427387904 ∧ Survives original (capturedIn bytes)

/-- A part that holds the mapping. -/
def PartFile.Holds (original : Dict Text Text) (part : PartFile ε) : Prop :=
  ∃ bytes kv, part.content = .ok bytes ∧ capturedIn bytes = some kv ∧ kv.Same original

/-- What one part of a session does to its text. -/
theorem sessionText_cons {original : Dict Text Text} {part : PartFile ε}
    (hpart : part.OfSession original) (parts : List (PartFile ε)) (problems : List (Problem ε)) :
    (¬part.Holds original ∨ ∃ error, sessionJsonText numerals original = .error error) ∧
        (∃ more, sessionText numerals (part :: parts) problems =
          sessionText numerals parts more) ∨
      ∃ text detail, sessionJsonText numerals original = .ok text ∧
        sessionText numerals (part :: parts) problems = .ok (some text, detail) := by
  obtain ⟨name, content⟩ := part
  cases content with
  | error error =>
      refine Or.inl ⟨Or.inl ?_, _, rfl⟩
      rintro ⟨bytes, kv, hcontent, -⟩
      cases hcontent
  | ok bytes =>
      obtain ⟨hsize, hsurvives⟩ := hpart bytes rfl
      obtain ⟨reading, hread, -, hcapture⟩ := readCaptureMetadata_eq hsize
      rw [sessionText]
      dsimp only
      rw [hread]
      simp only [bind, Except.bind]
      rw [hcapture]
      cases hfound : capturedIn bytes with
      | none =>
          refine Or.inl ⟨Or.inl ?_, _, rfl⟩
          rintro ⟨other, kv, hcontent, hkv, -⟩
          cases hcontent
          rw [hfound] at hkv
          cases hkv
      | some kv =>
          have hsame := sessionJsonText_same numerals (hsurvives kv hfound)
          dsimp only
          rw [hsame]
          cases htext : sessionJsonText numerals original with
          | ok text => exact Or.inr ⟨text, _, rfl, rfl⟩
          | error error => exact Or.inl ⟨Or.inr ⟨error, rfl⟩, _, rfl⟩

/-- A session of which some part holds the mapping has the text of the mapping. -/
theorem sessionText_eq {original : Dict Text Text} {parts : List (PartFile ε)}
    (hparts : ∀ part ∈ parts, part.OfSession original)
    (hholds : (∃ part ∈ parts, part.Holds original) ∨
      ∃ error, sessionJsonText numerals original = .error error)
    (problems : List (Problem ε)) :
    (sessionText numerals parts problems).map Prod.fst =
      .ok (sessionJsonText numerals original).toOption := by
  induction parts generalizing problems with
  | nil =>
      rcases hholds with ⟨part, hpart, -⟩ | ⟨error, herror⟩
      · exact absurd hpart List.not_mem_nil
      · rw [herror]
        cases problems <;> rfl
  | cons part parts ih =>
      rcases sessionText_cons numerals (hparts part (List.mem_cons_self ..)) parts problems with
        ⟨hpart, more, hmore⟩ | ⟨text, detail, htext, hdone⟩
      · rw [hmore]
        refine ih (fun other hother => hparts other (List.mem_cons_of_mem _ hother)) ?_ more
        rcases hpart with hpart | herror
        · refine hholds.imp_left ?_
          rintro ⟨other, hother, hfound⟩
          rcases List.mem_cons.mp hother with rfl | hother
          · exact absurd hfound hpart
          · exact ⟨other, hother, hfound⟩
        · exact Or.inr herror
      · rw [hdone, htext]
        rfl

end Sessions

/-! ## Sessions with a torn part -/

/-- The parts around a torn one: of its session, and one behind it that holds the mapping. -/
structure Around (original : Dict Text Text) (ε : Type) where
  name : Text
  before : List (PartFile ε)
  after : List (PartFile ε)
  before_ofSession : ∀ part ∈ before, part.OfSession original
  after_ofSession : ∀ part ∈ after, part.OfSession original
  later : ∃ part ∈ after, part.Holds original

/-- The session with these bytes for the part. -/
def Around.session {original : Dict Text Text} {ε : Type} (around : Around original ε)
    (bytes : List Byte) : List (PartFile ε) :=
  around.before ++ ⟨around.name, .ok bytes⟩ :: around.after

theorem Around.sessionText_eq {F : Type*} {ε : Type} (numerals : Numerals F)
    {original : Dict Text Text} (around : Around original ε) {bytes : List Byte}
    (hsize : bytes.length < 4611686018427387904) (hbytes : Survives original (capturedIn bytes)) :
    (sessionText numerals (around.session bytes) []).map Prod.fst =
      .ok (sessionJsonText numerals original).toOption := by
  obtain ⟨part, hpart, hholds⟩ := around.later
  refine SessionJson.sessionText_eq numerals ?_ (Or.inl ⟨part, ?_, hholds⟩) []
  · intro part hpart
    rcases List.mem_append.mp hpart with hpart | hpart
    · exact around.before_ofSession part hpart
    · rcases List.mem_cons.mp hpart with rfl | hpart
      · intro found hfound
        cases hfound
        exact ⟨hsize, hbytes⟩
      · exact around.after_ofSession part hpart
  · exact List.mem_append_right _ (List.mem_cons_of_mem _ hpart)

theorem Part.length_torn_le (part : Part) (tear : Tear) :
    (part.torn tear).length ≤ part.bytes.length := by
  cases tear with
  | cut place =>
      rw [torn, bytes, List.length_append, List.length_append, List.length_append,
        List.length_take]
      omega
  | zeros place =>
      rw [torn, bytes, List.length_append, List.length_append, List.length_append,
        List.length_append, length_zeroed]

theorem Part.bytes_survives (part : Part) :
    Survives part.capture.kv (capturedIn part.bytes) := by
  have hwhole : part.torn (.zeros part.record.length) = part.bytes := by
    rw [torn, zeroed_of_le le_rfl, bytes]
  rw [← hwhole, torn_survives_iff]
  refine Or.inr (Or.inr (Or.inr fun b hb => ?_))
  rw [List.drop_length] at hb
  exact absurd hb List.not_mem_nil

/-- A torn capture record is read as nothing or as the whole mapping, and the session's sidecar is
the undamaged one's, exactly where the tear is spared; and no bytes at all raise anything or are
read beyond 64 records. -/
theorem readCaptureMetadata_torn_iff {F : Type*} {ε : Type} (numerals : Numerals F) (part : Part)
    (tear : Tear) (bytes : List Byte) (hpart : part.bytes.length < 4611686018427387904)
    (hbytes : bytes.length < 4611686018427387904) :
    (((∃ reading, readCaptureMetadata (part.torn tear) = .ok reading ∧
          Survives part.capture.kv reading.capture) ∧
        ∀ around : Around part.capture.kv ε,
          (sessionText numerals (around.session (part.torn tear)) []).map Prod.fst =
            (sessionText numerals (around.session part.bytes) []).map Prod.fst) ↔
      part.Spared tear) ∧
    ∃ reading, readCaptureMetadata bytes = .ok reading ∧ reading.records ≤ 64 := by
  have htorn := (part.length_torn_le tear).trans_lt hpart
  obtain ⟨found, hread, -, hcapture⟩ := readCaptureMetadata_eq htorn
  obtain ⟨other, hother, hrecords, -⟩ := readCaptureMetadata_eq hbytes
  refine ⟨⟨?_, fun hspared => ?_⟩, other, hother, hrecords⟩
  · rintro ⟨⟨reading, hreading, hsurvives⟩, -⟩
    rw [hread] at hreading
    rwa [← Except.ok.inj hreading, hcapture, part.torn_survives_iff] at hsurvives
  · have hsurvives := (part.torn_survives_iff tear).mpr hspared
    refine ⟨⟨found, hread, by rwa [hcapture]⟩, fun around => ?_⟩
    rw [around.sessionText_eq numerals htorn hsurvives,
      around.sessionText_eq numerals hpart part.bytes_survives]

/-- A mapping with a key behind the required ones. -/
def taskMapping : CaptureMapping where
  pairs := [(serialKey, ['e', '4']), (sessionNameKey, ['s', '3']), (startTimeKey, ['1']),
    (['t', 'a', 's', 'k'], ['f', 'o', 'l', 'd'])]
  sorted := by decide
  required := by decide
  size_lt := by decide +kernel

/-- Its part, as it is written first. -/
def taskPart : Part where
  front := []
  capture := taskMapping
  rest := []
  rest_silent := by
    intro payload hpayload
    rw [List.eq_nil_of_infix_nil hpayload]
    rfl

/-- A part with a mapping behind the required keys is whole up to the pair of `task`. -/
theorem taskPart_bytes : capturedIn taskPart.bytes = some taskMapping.kv :=
  taskPart.capturedIn_bytes (by decide) (by decide +kernel)

def taskNumerals : Numerals ℕ where
  parseFloat text := if text = ['1'] then some 1 else none
  zero := 0
  isFinite _ := true
  format n digits := Text.decimal n ++ '.' :: List.replicate digits '0'
  parseInt _ := none

/-- The torn part, and one behind it that is whole. -/
def taskAround : Around taskMapping.kv Unit where
  name := ['a']
  before := []
  after := [⟨['b'], .ok taskPart.bytes⟩]
  before_ofSession := fun _ hpart => absurd hpart List.not_mem_nil
  after_ofSession := by
    intro part hpart bytes hcontent
    rw [List.mem_singleton.mp hpart] at hcontent
    cases hcontent
    exact ⟨by decide +kernel, taskPart.bytes_survives⟩
  later := ⟨_, List.mem_singleton_self _, taskPart.bytes, taskMapping.kv, rfl, taskPart_bytes,
    fun _ => rfl⟩

/-- Zeros from the key `start_time_unix` on cost the part, and the session keeps its sidecar. -/
theorem readCaptureMetadata_torn_startTime :
    (sessionText taskNumerals (taskAround.session (taskPart.torn (.zeros 80))) []).map Prod.fst =
      (sessionText taskNumerals (taskAround.session taskPart.bytes) []).map Prod.fst :=
  ((readCaptureMetadata_torn_iff taskNumerals taskPart (.zeros 80) [] (by decide +kernel)
    (by decide)).1.mpr (Or.inr (Or.inr (Or.inl (by decide +kernel))))).2 taskAround

/-- Zeros from the key `task` on cost the mapping its task, and no more. -/
theorem readCaptureMetadata_torn_task :
    ∃ reading, readCaptureMetadata (taskPart.torn (.zeros 92)) = .ok reading ∧
      ¬Survives taskMapping.kv reading.capture := by
  obtain ⟨reading, hread, -, hcapture⟩ :=
    @readCaptureMetadata_eq (taskPart.torn (.zeros 92)) (by decide +kernel)
  refine ⟨reading, hread, fun hsurvives => ?_⟩
  have htask : (capturedIn (taskPart.torn (.zeros 92))).map
      (fun kv => kv.get ['t', 'a', 's', 'k']) = some none := by decide +kernel
  have hwas : taskMapping.kv.get ['t', 'a', 's', 'k'] = some ['f', 'o', 'l', 'd'] := by
    decide +kernel
  obtain ⟨kv, hkv, hnone⟩ := Option.map_eq_some_iff.mp htask
  rw [hsurvives kv (hcapture.trans hkv), hwas] at hnone
  cases hnone

end VisioSchema.SessionJson

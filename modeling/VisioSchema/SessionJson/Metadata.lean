import VisioSchema.Library.Dict
import VisioSchema.Library.LenientUtf8
import VisioSchema.Library.LittleEndian
import VisioSchema.Wire.Message

/-!
# The capture record of an MCAP part

`read_capture_metadata`: the records at the start of a part are skipped up to the `visio.capture`
Metadata record, whose key/value pairs are returned if none of the required keys is missing.  Every
length is read from the file, so that each read may come out short; what `struct` and `seek` raise
is a value here (`Fault`), and never comes (`readCaptureMetadata_eq`).
-/

namespace VisioSchema.SessionJson

open VisioSchema.Library VisioSchema.Wire

/-! ## Constants -/

/-- `_MAGIC`. -/
def magic : List Byte := [0x89, 77, 67, 65, 80, 48, 13, 10]

/-- `_OP_METADATA`. -/
def opMetadata : Byte := 0x0C

/-- `_OP_DATA_BEGINS`. -/
def opDataBegins : List Byte := [0x05, 0x06, 0x0F]

/-- `_CAPTURE_RECORD`. -/
def captureRecord : Text := ['v', 'i', 's', 'i', 'o', '.', 'c', 'a', 'p', 't', 'u', 'r', 'e']

/-- `_MAX_RECORDS`. -/
def maxRecords : ℕ := 64

/-- `_MIN_PAYLOAD`. -/
def minPayload : ℕ := 8

/-- `_MAX_PAYLOAD`. -/
def maxPayload : ℕ := 256 * 1024

def serialKey : Text := ['s', 'e', 'r', 'i', 'a', 'l']

def sessionNameKey : Text := ['s', 'e', 's', 's', 'i', 'o', 'n', '_', 'n', 'a', 'm', 'e']

def startTimeKey : Text :=
  ['s', 't', 'a', 'r', 't', '_', 't', 'i', 'm', 'e', '_', 'u', 'n', 'i', 'x']

/-- `_REQUIRED_KEYS`. -/
def requiredKeys : List Text := [serialKey, sessionNameKey, startTimeKey]

/-! ## A metadata record -/

/-- What reading a part raises beside the errors of the file system: `struct.error`, and `seek` of
a place that is no `off_t`. -/
inductive Fault
  | struct
  | seek
  deriving DecidableEq, Repr

/-- `struct.unpack_from`, of a number of some bytes. -/
def unpackFrom (width : ℕ) (bytes : List Byte) : Except Fault ℕ :=
  if bytes.length < width then .error .struct
  else .ok (LittleEndian.unpack (bytes.take width))

/-- `_take_bytes`, of the bytes between `at` and `end`: a string, and the bytes behind it. -/
def takeBytes (bytes : List Byte) : Except Fault (Option (List Byte × List Byte)) :=
  if bytes.length < 4 then .ok none
  else do
    let n ← unpackFrom 4 bytes
    let bytes := bytes.drop 4
    if bytes.length < n then return none
    return some (bytes.take n, bytes.drop n)

/-- The loop of `_parse_metadata_record`; no turn is without a byte. -/
def readPairs : ℕ → Dict Text Text → List Byte → Except Fault (Dict Text Text)
  | 0, kv, _ => .ok kv
  | fuel + 1, kv, bytes =>
      if bytes = [] then .ok kv
      else do
        match ← takeBytes bytes with
        | none => return kv
        | some (rawKey, bytes) =>
            match ← takeBytes bytes with
            | none => return kv
            | some (rawValue, bytes) =>
                readPairs fuel
                  (kv.set (Text.decodeReplace rawKey) (Text.decodeReplace rawValue)) bytes

/-- `_parse_metadata_record`. -/
def parseMetadataRecord (payload : List Byte) : Except Fault (Option (Dict Text Text)) := do
  match ← takeBytes payload with
  | none => return none
  | some (name, bytes) =>
      if Text.decodeReplace name ≠ captureRecord then return none
      if bytes.length < 4 then return none
      let mapLen ← unpackFrom 4 bytes
      let bytes := bytes.drop 4
      if bytes.length < mapLen then return none
      return some (← readPairs mapLen Dict.empty (bytes.take mapLen))

/-! ## The records of a part -/

/-- What is found in a part, and how many records were begun. -/
structure Reading where
  capture : Option (Dict Text Text)
  records : ℕ

/-- One record more. -/
def Reading.succ (reading : Reading) : Reading := { reading with records := reading.records + 1 }

/-- `f.read(n)`. -/
def readAt (bytes : List Byte) (pos n : ℕ) : List Byte := (bytes.drop pos).take n

/-- `f.seek(n, 1)`. -/
def seek (pos n : ℕ) : Except Fault ℕ :=
  if pos + n < 9223372036854775808 then .ok (pos + n) else .error .seek

/-- `kv and all(k in kv for k in _REQUIRED_KEYS)`. -/
def complete (kv : Dict Text Text) : Bool :=
  kv.entries ≠ [] && requiredKeys.all fun key => key ∈ kv.keys

/-- The loop of `read_capture_metadata`. -/
def readRecords (bytes : List Byte) : ℕ → ℕ → Except Fault Reading
  | 0, _ => .ok ⟨none, 0⟩
  | turns + 1, pos =>
      let header := readAt bytes pos 9
      if header.length ≠ 9 then .ok ⟨none, 1⟩
      else do
        let opcode := header.headD 0
        let length ← unpackFrom 8 (header.drop 1)
        if opcode ∈ opDataBegins ∨ bytes.length < length then return ⟨none, 1⟩
        else if opcode ≠ opMetadata then
          return (← readRecords bytes turns (← seek (pos + 9) length)).succ
        else if ¬(minPayload ≤ length ∧ length ≤ maxPayload) then return ⟨none, 1⟩
        else
          let payload := readAt bytes (pos + 9) length
          if payload.length ≠ length then return ⟨none, 1⟩
          else
            match (← parseMetadataRecord payload).filter complete with
            | some kv => return ⟨some kv, 1⟩
            | none => return (← readRecords bytes turns (pos + 9 + length)).succ

/-- `read_capture_metadata`, of the bytes of a part. -/
def readCaptureMetadata (bytes : List Byte) : Except Fault Reading :=
  if readAt bytes 0 8 ≠ magic then .ok ⟨none, 0⟩ else readRecords bytes maxRecords 8

/-! ## Nothing is raised -/

/-- A string with its length before it, and the bytes behind it. -/
def splitString (bytes : List Byte) : Option (List Byte × List Byte) :=
  if bytes.length < 4 then none
  else if (bytes.drop 4).length < LittleEndian.unpack (bytes.take 4) then none
  else
    some ((bytes.drop 4).take (LittleEndian.unpack (bytes.take 4)),
      (bytes.drop 4).drop (LittleEndian.unpack (bytes.take 4)))

/-- The pairs of a map, up to the first length that is not there. -/
def pairsOf : ℕ → List Byte → List (Text × Text)
  | 0, _ => []
  | fuel + 1, bytes =>
      match splitString bytes with
      | none => []
      | some (rawKey, bytes) =>
          match splitString bytes with
          | none => []
          | some (rawValue, bytes) =>
              (Text.decodeReplace rawKey, Text.decodeReplace rawValue) :: pairsOf fuel bytes

/-- The mapping of a payload, if it is the capture record's. -/
def captureOf (payload : List Byte) : Option (Dict Text Text) :=
  match splitString payload with
  | none => none
  | some (name, bytes) =>
      if Text.decodeReplace name ≠ captureRecord then none
      else (splitString bytes).map fun found =>
        Dict.empty.setAll (pairsOf found.1.length found.1)

/-- What the records of a part of some size say, from a place on. -/
def scan (size : ℕ) : ℕ → List Byte → Reading
  | 0, _ => ⟨none, 0⟩
  | turns + 1, bytes =>
      if bytes.length < 9 then ⟨none, 1⟩
      else
        let length := LittleEndian.unpack ((bytes.drop 1).take 8)
        let payload := (bytes.drop 9).take length
        if bytes.headD 0 ∈ opDataBegins ∨ size < length then ⟨none, 1⟩
        else if bytes.headD 0 ≠ opMetadata then (scan size turns (bytes.drop (9 + length))).succ
        else if ¬(minPayload ≤ length ∧ length ≤ maxPayload) ∨ payload.length ≠ length then
          ⟨none, 1⟩
        else
          match (captureOf payload).filter complete with
          | some kv => ⟨some kv, 1⟩
          | none => (scan size turns (bytes.drop (9 + length))).succ

theorem unpackFrom_eq {width : ℕ} {bytes : List Byte} (hlength : width ≤ bytes.length) :
    unpackFrom width bytes = .ok (LittleEndian.unpack (bytes.take width)) :=
  if_neg (not_lt.mpr hlength)

theorem takeBytes_eq (bytes : List Byte) : takeBytes bytes = .ok (splitString bytes) := by
  unfold takeBytes splitString
  split
  next => rfl
  next hlength =>
    rw [unpackFrom_eq (not_lt.mp hlength)]
    exact (apply_ite Except.ok _ _ _).symm

theorem readPairs_eq (fuel : ℕ) (kv : Dict Text Text) (bytes : List Byte) :
    readPairs fuel kv bytes = .ok (kv.setAll (pairsOf fuel bytes)) := by
  induction fuel generalizing kv bytes with
  | zero => rfl
  | succ fuel ih =>
      rw [readPairs, pairsOf]
      split
      next hempty =>
        rw [hempty]
        rfl
      next =>
        rw [takeBytes_eq]
        cases hkey : splitString bytes with
        | none => rfl
        | some found =>
            obtain ⟨rawKey, behind⟩ := found
            simp only [bind, Except.bind]
            rw [takeBytes_eq]
            cases hvalue : splitString behind with
            | none => rfl
            | some found =>
                obtain ⟨rawValue, last⟩ := found
                exact ih _ last

theorem parseMetadataRecord_eq (payload : List Byte) :
    parseMetadataRecord payload = .ok (captureOf payload) := by
  unfold parseMetadataRecord captureOf
  rw [takeBytes_eq]
  cases hname : splitString payload with
  | none => rfl
  | some found =>
      obtain ⟨name, bytes⟩ := found
      simp only [bind, Except.bind]
      by_cases hother : Text.decodeReplace name ≠ captureRecord
      · rw [if_pos hother, if_pos hother]
        rfl
      · rw [if_neg hother, if_neg hother]
        unfold splitString
        by_cases hlength : bytes.length < 4
        · rw [if_pos hlength, if_pos hlength]
          rfl
        · rw [if_neg hlength, if_neg hlength, unpackFrom_eq (not_lt.mp hlength)]
          dsimp only
          by_cases hshort : (bytes.drop 4).length < LittleEndian.unpack (bytes.take 4)
          · rw [if_pos hshort, if_pos hshort]
            rfl
          · have hmap : ((bytes.drop 4).take (LittleEndian.unpack (bytes.take 4))).length =
                LittleEndian.unpack (bytes.take 4) := by
              rw [List.length_take]
              omega
            rw [if_neg hshort, if_neg hshort, readPairs_eq, Option.map_some, hmap]
            rfl

/-- Reading raises nothing, and begins no more records than it has turns. -/
theorem readRecords_eq {bytes : List Byte} (hsize : bytes.length < 4611686018427387904)
    (turns pos : ℕ) :
    readRecords bytes turns pos = .ok (scan bytes.length turns (bytes.drop pos)) := by
  induction turns generalizing pos with
  | zero => rfl
  | succ turns ih =>
      rw [readRecords, scan]
      dsimp only
      by_cases hshort : (bytes.drop pos).length < 9
      · have hheader : (readAt bytes pos 9).length ≠ 9 := by
          rw [readAt, List.length_take]
          omega
        rw [if_pos hheader, if_pos hshort]
      · have hheader : ¬(readAt bytes pos 9).length ≠ 9 := by
          rw [readAt, List.length_take]
          omega
        have hopcode : (readAt bytes pos 9).headD 0 = (bytes.drop pos).headD 0 := by
          rw [readAt]
          cases bytes.drop pos <;> rfl
        -- The length of the record stands behind its opcode.
        have hlength : unpackFrom 8 ((readAt bytes pos 9).drop 1) =
            .ok (LittleEndian.unpack (((bytes.drop pos).drop 1).take 8)) := by
          have hdrop : (readAt bytes pos 9).drop 1 = ((bytes.drop pos).drop 1).take 8 := by
            rw [readAt, List.drop_take]
          rw [hdrop, unpackFrom_eq (by rw [List.length_take, List.length_drop]; omega),
            List.take_take]
          rfl
        have hbehind : ∀ length,
            (bytes.drop pos).drop (9 + length) = bytes.drop (pos + 9 + length) :=
          fun length => by rw [List.drop_drop, Nat.add_assoc]
        have hpayload : ∀ length, ((bytes.drop pos).drop 9).take length =
            readAt bytes (pos + 9) length := fun length => by rw [List.drop_drop, readAt]
        rw [if_neg hheader, if_neg hshort, hopcode, hlength]
        generalize LittleEndian.unpack (((bytes.drop pos).drop 1).take 8) = length
        simp only [bind, Except.bind, hbehind, hpayload]
        split
        next => rfl
        next hbegins =>
          rw [not_or] at hbegins
          split
          next =>
            -- A record that is skipped is not longer than the part, so no position leaves 63 bits.
            have hseek : seek (pos + 9) length = .ok (pos + 9 + length) := by
              refine if_pos ?_
              rw [List.length_drop] at hshort
              omega
            rw [hseek]
            dsimp only
            rw [ih]
            rfl
          next =>
            by_cases hbounds : minPayload ≤ length ∧ length ≤ maxPayload
            · by_cases hread : (readAt bytes (pos + 9) length).length = length
              · rw [if_neg (not_not.mpr hbounds), if_neg (not_not.mpr hread), if_neg (by tauto),
                  parseMetadataRecord_eq]
                dsimp only
                split
                next => rfl
                next =>
                  rw [ih]
                  rfl
              · rw [if_neg (not_not.mpr hbounds), if_pos hread, if_pos (Or.inr hread)]
                rfl
            · rw [if_pos hbounds, if_pos (Or.inl hbounds)]
              rfl

theorem scan_records_le (size turns : ℕ) (bytes : List Byte) :
    (scan size turns bytes).records ≤ turns := by
  induction turns generalizing bytes with
  | zero => exact Nat.le_refl 0
  | succ turns ih =>
      have hmore : ∀ bytes, (scan size turns bytes).succ.records ≤ turns + 1 :=
        fun bytes => Nat.succ_le_succ (ih bytes)
      have hone : ∀ capture, (Reading.mk capture 1).records ≤ turns + 1 :=
        fun _ => Nat.succ_le_succ (Nat.zero_le turns)
      rw [scan]
      dsimp only
      split
      · exact hone none
      · split
        · exact hone none
        · split
          · exact hmore _
          · split
            · exact hone none
            · split
              · exact hone _
              · exact hmore _

/-- What a part says of its session. -/
def capturedIn (bytes : List Byte) : Option (Dict Text Text) :=
  if bytes.take 8 ≠ magic then none else (scan bytes.length maxRecords (bytes.drop 8)).capture

/-- Of a part of less than 4 EiB. -/
theorem readCaptureMetadata_eq {bytes : List Byte} (hsize : bytes.length < 4611686018427387904) :
    ∃ reading, readCaptureMetadata bytes = .ok reading ∧ reading.records ≤ maxRecords ∧
      reading.capture = capturedIn bytes := by
  unfold readCaptureMetadata capturedIn
  have hmagic : readAt bytes 0 8 = bytes.take 8 := rfl
  rw [hmagic]
  by_cases hother : bytes.take 8 ≠ magic
  · rw [if_pos hother, if_pos hother]
    exact ⟨⟨none, 0⟩, rfl, Nat.zero_le _, rfl⟩
  · rw [if_neg hother, if_neg hother, readRecords_eq hsize]
    exact ⟨_, rfl, scan_records_le _ _ _, rfl⟩

end VisioSchema.SessionJson

import VisioSchema.SessionJson.Mapping

/-!
# Torn capture records

A part is its magic, the records before the capture record, that record, and the rest.  When the
record is cut off nothing is read; when its last bytes turn to zero, what is read depends on
where: up to the key `start_time_unix` the part says nothing, and behind that key the mapping is
read with what the zeros made of its last pairs.

## Strategy

* **The payload.**  It is the name of the record, the length of the map, and the map.  A tear in
  the name leaves another name (`captureOf_zeroed_name`), one in the length leaves no required
  key (`captureOf_zeroed_length`), and one in the map is the subject of `Mapping.lean`
  (`captureOf_zeroed_map`).
* **The part.**  The scan skips the records in front (`scan_front`) and reads the capture record
  as it stands (`scan_zeroed`); what follows it is `Silent`, and a record that is cut off yields
  nothing (`scan_cut`).

`torn_survives_iff` puts the two together: what a torn part says is nothing or the whole mapping
exactly where it is spared.
-/

namespace VisioSchema.SessionJson

open VisioSchema.Library VisioSchema.Wire

/-! ## Payloads -/

theorem captureOf_lengthed {name : List Byte} (hname : name.length < 4294967296)
    (behind : List Byte) :
    captureOf (lengthed name ++ behind) =
      if Text.decodeReplace name ≠ captureRecord then none
      else (splitString behind).map fun found =>
        Dict.empty.setAll (pairsOf found.1.length found.1) := by
  rw [captureOf, splitString_lengthed hname]

/-- A payload that is the capture record's begins with its name. -/
theorem exists_of_captureOf {payload : List Byte} (hcapture : captureOf payload ≠ none) :
    ∃ behind, payload = lengthed (Text.encode captureRecord) ++ behind := by
  cases hsplit : splitString payload with
  | none =>
      rw [captureOf, hsplit] at hcapture
      exact absurd rfl hcapture
  | some found =>
      obtain ⟨name, behind⟩ := found
      rw [captureOf, hsplit] at hcapture
      dsimp only at hcapture
      split at hcapture
      next => exact absurd rfl hcapture
      next hname =>
        have hread := not_not.mp hname
        have hencode : Text.encode captureRecord = name := by
          rw [← hread]
          refine Text.encode_decodeReplace ?_
          rw [hread]
          decide
        exact ⟨behind, by rw [hencode, eq_of_splitString hsplit]⟩

theorem lengthed_captureRecord :
    lengthed (Text.encode captureRecord) =
      [13, 0, 0, 0, 118, 105, 115, 105, 111, 46, 99, 97, 112, 116, 117, 114, 101] := by
  decide +kernel

/-- What begins with a zero byte is no capture record. -/
theorem captureOf_zero (payload : List Byte) : captureOf (0 :: payload) = none := by
  by_contra hcapture
  obtain ⟨behind, hpayload⟩ := exists_of_captureOf hcapture
  rw [lengthed_captureRecord, List.cons_append] at hpayload
  exact absurd (List.cons.inj hpayload).1 (by decide)

/-- What is read is nothing, or the whole mapping. -/
def Survives (original : Dict Text Text) (read : Option (Dict Text Text)) : Prop :=
  ∀ kv, read = some kv → kv.Same original

theorem survives_none (original : Dict Text Text) : Survives original none :=
  fun _ hread => nomatch hread

theorem survives_self (original : Dict Text Text) : Survives original (some original) := by
  intro kv hread
  rw [← Option.some.inj hread]
  exact fun _ => rfl

namespace CaptureMapping

variable (mapping : CaptureMapping)

/-- The payload of the capture record. -/
def payload : List Byte :=
  lengthed (Text.encode captureRecord) ++ lengthed (mapBytes mapping.pairs)

theorem length_payload : mapping.payload.length = 21 + (mapBytes mapping.pairs).length := by
  rw [payload, List.length_append, lengthed_captureRecord, length_lengthed, ← Nat.add_assoc]
  rfl

theorem captureOf_named (behind : List Byte) :
    captureOf (lengthed (Text.encode captureRecord) ++ behind) =
      (splitString behind).map fun found =>
        Dict.empty.setAll (pairsOf found.1.length found.1) := by
  rw [captureOf_lengthed (by decide +kernel), Text.decodeReplace_encode,
    if_neg (not_not.mpr rfl)]

theorem captureOf_payload : captureOf mapping.payload = some mapping.kv := by
  have hall : ∀ pairs : List (Text × Text), (∀ pair ∈ pairs, Fits pair) →
      pairsOf (mapBytes pairs).length (mapBytes pairs) = pairs := by
    intro pairs hfits
    have hcount := length_le_mapBytes pairs
    obtain ⟨fuel, hfuel⟩ := Nat.exists_eq_add_of_le
      (show pairs.length ≤ (mapBytes pairs).length by omega)
    have hread := pairsOf_map hfits fuel []
    rw [List.append_nil, ← hfuel] at hread
    have hnone : pairsOf fuel [] = [] := by cases fuel <;> rfl
    rw [hread, hnone, List.append_nil]
  have hsplit := splitString_lengthed mapping.size_lt []
  rw [List.append_nil] at hsplit
  rw [payload, captureOf_named, hsplit, Option.map_some, hall _ fun _ => mapping.fits,
    setAll_pairs]

theorem complete_kv : complete mapping.kv = true := complete_iff.mpr mapping.required

theorem length_name : (lengthed (Text.encode captureRecord)).length = 17 := by
  rw [lengthed_captureRecord]
  rfl

/-- Where the name is torn, its last byte is a zero. -/
theorem captureOf_zeroed_name {kept : ℕ} (hkept : kept < 17) :
    captureOf (zeroed mapping.payload kept) = none := by
  by_contra hcapture
  obtain ⟨behind, hbytes⟩ := exists_of_captureOf hcapture
  have hlast := congrArg (fun bytes => (bytes.drop 16).head?) hbytes
  have hzeros : mapping.payload.length - 16 = (mapBytes mapping.pairs).length + 4 + 1 := by
    rw [length_payload]
    omega
  rw [drop_zeroed (by omega), hzeros, List.replicate_succ, lengthed_captureRecord] at hlast
  exact absurd (Option.some.inj hlast) (by decide)

theorem zeroed_payload (place : ℕ) :
    zeroed mapping.payload (17 + place) =
      lengthed (Text.encode captureRecord) ++ zeroed (lengthed (mapBytes mapping.pairs)) place := by
  rw [payload, zeroed_append, zeroed_of_le (by rw [length_name]; omega), length_name,
    Nat.add_sub_cancel_left]

/-- Where the length of the map is torn, the map is zeros and has no required key. -/
theorem captureOf_zeroed_length {place : ℕ} (hplace : place ≤ 4)
    (htorn : place < 4 + (mapBytes mapping.pairs).length) :
    (captureOf (zeroed mapping.payload (17 + place))).filter complete = none := by
  obtain ⟨start, n, more, hsplit, hstart, -⟩ :=
    @splitString_torn _ mapping.size_lt place (4 + (mapBytes mapping.pairs).length - place)
      htorn (by omega)
  have hzero : start = 0 := by omega
  rw [hzero, List.take_zero, List.nil_append] at hsplit
  rw [zeroed_payload, captureOf_named, zeroed, length_lengthed, hsplit, Option.map_some,
    Option.filter_some, if_neg]
  rw [complete_iff]
  intro hall
  have hserial := hall serialKey (by decide)
  rw [Dict.mem_keys_setAll] at hserial
  rcases hserial with hserial | hserial
  · exact absurd hserial List.not_mem_nil
  · obtain ⟨blank, hblank, hkey⟩ := List.mem_map.mp hserial
    rw [pairsOf_zeros _ _ blank hblank] at hkey
    exact absurd hkey (by decide)

theorem zeroed_map (start : ℕ) :
    zeroed (lengthed (mapBytes mapping.pairs)) (4 + start) =
      LittleEndian.pack 4 (mapBytes mapping.pairs).length ++
        zeroed (mapBytes mapping.pairs) start := by
  have hfour : (LittleEndian.pack 4 (mapBytes mapping.pairs).length).length = 4 :=
    LittleEndian.length_pack ..
  rw [lengthed, zeroed_append, zeroed_of_le (by omega), hfour, Nat.add_sub_cancel_left]

theorem zeroed_payload_eq_iff (start : ℕ) :
    zeroed mapping.payload (17 + (4 + start)) = mapping.payload ↔
      zeroed (mapBytes mapping.pairs) start = mapBytes mapping.pairs := by
  constructor
  · intro hsame
    rw [zeroed_payload, zeroed_map] at hsame
    exact List.append_cancel_left (List.append_cancel_left hsame)
  · intro hsame
    rw [zeroed_payload, zeroed_map, hsame]
    rfl

/-- Where the map is torn, its pairs are read as they are. -/
theorem captureOf_zeroed_map (start : ℕ) :
    captureOf (zeroed mapping.payload (17 + (4 + start))) =
      some (Dict.empty.setAll (pairsOf (mapBytes mapping.pairs).length
        (zeroed (mapBytes mapping.pairs) start))) := by
  have hlength := length_zeroed (mapBytes mapping.pairs) start
  have hmap : zeroed (lengthed (mapBytes mapping.pairs)) (4 + start) =
      lengthed (zeroed (mapBytes mapping.pairs) start) ++ [] := by
    rw [zeroed_map, lengthed, hlength, List.append_nil]
  rw [zeroed_payload, captureOf_named, hmap,
    splitString_lengthed (by rw [hlength]; exact mapping.size_lt), Option.map_some, hlength]

/-- With zeros from a place in the payload on, nothing is read up to the end of the key
`start_time_unix`, and behind it the mapping survives if the zeros were there before. -/
theorem zeroed_payload_survives_iff (kept : ℕ) :
    Survives mapping.kv ((captureOf (zeroed mapping.payload kept)).filter complete) ↔
      kept < 21 + keyEnd startTimeKey mapping.pairs ∨
        zeroed mapping.payload kept = mapping.payload := by
  have hpos := keyEnd_pos startTimeKey mapping.pairs_ne_nil
  rcases lt_or_ge kept 17 with hname | hname
  · rw [mapping.captureOf_zeroed_name hname]
    exact iff_of_true (survives_none _) (Or.inl (by omega))
  obtain ⟨place, rfl⟩ := Nat.exists_eq_add_of_le hname
  by_cases hwhole : 4 + (mapBytes mapping.pairs).length ≤ place
  · have hsame : zeroed mapping.payload (17 + place) = mapping.payload :=
      zeroed_of_le (by rw [length_payload]; omega)
    rw [hsame, captureOf_payload, Option.filter_some, if_pos mapping.complete_kv]
    exact iff_of_true (survives_self _) (Or.inr rfl)
  rcases le_or_gt place 4 with hlength | hlength
  · rw [mapping.captureOf_zeroed_length hlength (by omega)]
    exact iff_of_true (survives_none _) (Or.inl (by omega))
  obtain ⟨start, rfl⟩ := Nat.exists_eq_add_of_le hlength.le
  obtain ⟨htorn⟩ := @pairsOf_tornMap mapping.pairs (fun _ => mapping.fits) start (by omega)
  by_cases hend : keyEnd startTimeKey mapping.pairs ≤ start
  · constructor
    · intro hsurvives
      rw [captureOf_zeroed_map, Option.filter_some, if_pos ((complete_torn_iff htorn).mpr hend)]
        at hsurvives
      rw [zeroed_payload_eq_iff]
      exact Or.inr (eq_of_same htorn hend (hsurvives _ rfl))
    · rintro (hlt | hsame)
      · omega
      · rw [hsame, captureOf_payload, Option.filter_some, if_pos mapping.complete_kv]
        exact survives_self _
  · rw [captureOf_zeroed_map, Option.filter_some,
      if_neg fun hcomplete => hend ((complete_torn_iff htorn).mp hcomplete)]
    exact iff_of_true (survives_none _) (Or.inl (by omega))

end CaptureMapping

/-! ## Parts -/

/-- `[opcode u8][length u64le][payload]`. -/
def recordBytes (opcode : Byte) (payload : List Byte) : List Byte :=
  opcode :: (LittleEndian.pack 8 payload.length ++ payload)

theorem length_recordBytes (opcode : Byte) (payload : List Byte) :
    (recordBytes opcode payload).length = 9 + payload.length := by
  rw [recordBytes, List.length_cons, List.length_append, LittleEndian.length_pack]
  omega

/-- A record that may stand before the capture record. -/
structure OtherRecord where
  opcode : Byte
  payload : List Byte
  not_metadata : opcode ≠ opMetadata
  not_data : opcode ∉ opDataBegins
  payload_lt : payload.length < 18446744073709551616

def OtherRecord.bytes (other : OtherRecord) : List Byte := recordBytes other.opcode other.payload

/-- No part of some bytes reads as a capture record. -/
def Silent (bytes : List Byte) : Prop :=
  ∀ payload, payload <:+: bytes → (captureOf payload).filter complete = none

/-- A part with its capture record, the only one. -/
structure Part where
  front : List OtherRecord
  capture : CaptureMapping
  rest : List Byte
  rest_silent : Silent rest

namespace Part

variable (part : Part)

/-- The capture record. -/
def record : List Byte := recordBytes opMetadata part.capture.payload

/-- What stands before it. -/
def head : List Byte := magic ++ part.front.flatMap OtherRecord.bytes

def bytes : List Byte := part.head ++ part.record ++ part.rest

end Part

/-- How the capture record is damaged: the part ends within it, or its bytes from a place on are
zeros. -/
inductive Tear
  | cut (place : ℕ)
  | zeros (place : ℕ)

/-- The bytes of a part whose capture record is torn. -/
def Part.torn (part : Part) : Tear → List Byte
  | .cut place => part.head ++ part.record.take place
  | .zeros place => part.head ++ zeroed part.record place ++ part.rest

/-- The tears that the capture mapping survives. -/
def Part.Spared (part : Part) : Tear → Prop
  | .cut _ => True
  | .zeros place =>
      maxRecords ≤ part.front.length ∨ maxPayload < part.capture.payload.length ∨
        place < 30 + keyEnd startTimeKey part.capture.pairs ∨ ∀ b ∈ part.record.drop place, b = 0

theorem Silent.of_suffix {bytes tail : List Byte} (hsilent : Silent bytes)
    (htail : tail <:+ bytes) : Silent tail :=
  fun payload hpayload => hsilent payload (hpayload.trans htail.isInfix)

theorem Silent.zeros {bytes : List Byte} (hsilent : Silent bytes) (n : ℕ) :
    Silent (List.replicate n 0 ++ bytes) := by
  induction n with
  | zero => exact hsilent
  | succ n ih =>
      rw [List.replicate_succ, List.cons_append]
      intro payload hpayload
      rcases List.infix_cons_iff.mp hpayload with hstart | hlater
      · cases payload with
        | nil => rfl
        | cons b payload =>
            rw [(List.cons_prefix_cons.mp hstart).1, captureOf_zero]
            rfl
      · exact ih payload hlater

/-- Where no payload reads as a capture record, none is found. -/
theorem scan_silent {bytes : List Byte} (hsilent : Silent (bytes.drop 9)) (size turns : ℕ) :
    (scan size turns bytes).capture = none := by
  induction turns generalizing bytes with
  | zero => rfl
  | succ turns ih =>
      have hlater : ∀ length, (scan size turns (bytes.drop (9 + length))).succ.capture = none := by
        intro length
        refine ih (hsilent.of_suffix ?_)
        rw [List.drop_drop]
        exact List.drop_suffix_drop_left _ (by omega)
      rw [scan]
      dsimp only
      split
      next => rfl
      next =>
        split
        next => rfl
        next =>
          split
          next => exact hlater _
          next =>
            split
            next => rfl
            next =>
              rw [hsilent _ (List.take_prefix _ _).isInfix]
              exact hlater _

/-- What the scan does at a record that is whole. -/
theorem scan_record {opcode : Byte} {payload : List Byte} {size : ℕ}
    (hlength : payload.length < 18446744073709551616) (hsize : payload.length ≤ size)
    (hopcode : opcode ∉ opDataBegins) (turns : ℕ) (tail : List Byte) :
    (scan size (turns + 1) (recordBytes opcode payload ++ tail)).capture =
      if opcode ≠ opMetadata then (scan size turns tail).capture
      else if ¬(minPayload ≤ payload.length ∧ payload.length ≤ maxPayload) then none
      else ((captureOf payload).filter complete).or (scan size turns tail).capture := by
  have hbytes : recordBytes opcode payload ++ tail =
      opcode :: (LittleEndian.pack 8 payload.length ++ (payload ++ tail)) := by
    rw [recordBytes, List.cons_append, List.append_assoc]
  have height : (LittleEndian.pack 8 payload.length).length = 8 := LittleEndian.length_pack ..
  have hnumber : LittleEndian.unpack (((recordBytes opcode payload ++ tail).drop 1).take 8) =
      payload.length := by
    rw [hbytes, List.drop_one, List.tail_cons, List.take_left' height]
    exact LittleEndian.unpack_pack (by simpa using hlength)
  have hnine : (recordBytes opcode payload ++ tail).drop 9 = payload ++ tail := by
    rw [hbytes, List.drop_succ_cons, List.drop_left' height]
  have hlater : (recordBytes opcode payload ++ tail).drop (9 + payload.length) = tail := by
    rw [← List.drop_drop, hnine, List.drop_left]
  have hhead : (recordBytes opcode payload ++ tail).headD 0 = opcode := by rw [hbytes]; rfl
  have hshort : ¬(recordBytes opcode payload ++ tail).length < 9 := by
    rw [List.length_append, length_recordBytes]
    omega
  rw [scan, if_neg hshort]
  dsimp only
  rw [hnumber, hnine, hhead, hlater, List.take_left, if_neg (not_or.mpr ⟨hopcode, by omega⟩)]
  by_cases hmetadata : opcode ≠ opMetadata
  · rw [if_pos hmetadata, if_pos hmetadata]
    rfl
  · rw [if_neg hmetadata, if_neg hmetadata]
    by_cases hbounds : minPayload ≤ payload.length ∧ payload.length ≤ maxPayload
    · rw [if_neg (not_or.mpr ⟨not_not.mpr hbounds, not_not.mpr rfl⟩),
        if_neg (not_not.mpr hbounds)]
      cases (captureOf payload).filter complete <;> rfl
    · rw [if_pos (Or.inl hbounds), if_pos hbounds]

/-- A record that is cut off yields nothing. -/
theorem scan_cut {payload : List Byte} (hlength : payload.length < 18446744073709551616)
    {place : ℕ} (hplace : place < 9 + payload.length) (size turns : ℕ) :
    (scan size turns ((recordBytes opMetadata payload).take place)).capture = none := by
  cases turns with
  | zero => rfl
  | succ turns =>
      have hcut : ((recordBytes opMetadata payload).take place).length = place := by
        rw [List.length_take, length_recordBytes]
        omega
      rw [scan]
      by_cases hshort : place < 9
      · rw [if_pos (by rwa [hcut])]
      · obtain ⟨more, rfl⟩ := Nat.exists_eq_add_of_le (not_lt.mp hshort)
        have height : (LittleEndian.pack 8 payload.length).length = 8 :=
          LittleEndian.length_pack ..
        have hbytes : (recordBytes opMetadata payload).take (9 + more) =
            opMetadata :: (LittleEndian.pack 8 payload.length ++ payload.take more) := by
          rw [recordBytes, show 9 + more = 8 + more + 1 by omega, List.take_succ_cons,
            List.take_append, height, Nat.add_sub_cancel_left, List.take_of_length_le (by omega)]
        have hnumber : LittleEndian.unpack
            ((((recordBytes opMetadata payload).take (9 + more)).drop 1).take 8) =
              payload.length := by
          rw [hbytes, List.drop_one, List.tail_cons, List.take_left' height]
          exact LittleEndian.unpack_pack (by simpa using hlength)
        have hread : ((((recordBytes opMetadata payload).take (9 + more)).drop 9).take
            payload.length).length ≠ payload.length := by
          rw [List.length_take, List.length_drop, hcut]
          omega
        have hhead : ((recordBytes opMetadata payload).take (9 + more)).headD 0 = opMetadata := by
          rw [hbytes]
          rfl
        rw [if_neg (by rwa [hcut])]
        dsimp only
        rw [hnumber, hhead, if_neg (not_not.mpr rfl), if_pos (Or.inr hread)]
        split <;> rfl

/-- The records before the capture record are skipped, as long as there are turns. -/
theorem scan_front {front : List OtherRecord} {size : ℕ}
    (hsize : (front.flatMap OtherRecord.bytes).length ≤ size) (turns : ℕ) (tail : List Byte) :
    (scan size (front.length + turns) (front.flatMap OtherRecord.bytes ++ tail)).capture =
      (scan size turns tail).capture := by
  induction front with
  | nil => rw [List.length_nil, Nat.zero_add]; rfl
  | cons other front ih =>
      rw [List.flatMap_cons, List.length_append, OtherRecord.bytes, length_recordBytes] at hsize
      rw [List.flatMap_cons, List.length_cons, Nat.add_right_comm, List.append_assoc,
        OtherRecord.bytes, scan_record other.payload_lt (by omega) other.not_data,
        if_pos other.not_metadata, ih (by omega)]

theorem scan_front_none {front : List OtherRecord} {size turns : ℕ}
    (hsize : (front.flatMap OtherRecord.bytes).length ≤ size) (hturns : turns ≤ front.length)
    (tail : List Byte) :
    (scan size turns (front.flatMap OtherRecord.bytes ++ tail)).capture = none := by
  obtain ⟨before, after, rfl, rfl⟩ : ∃ before after, front = before ++ after ∧
      turns = before.length :=
    ⟨front.take turns, front.drop turns, (List.take_append_drop ..).symm, by
      rw [List.length_take]
      omega⟩
  rw [List.flatMap_append, List.length_append] at hsize
  have hskip := @scan_front before size (by omega) 0
    (after.flatMap OtherRecord.bytes ++ tail)
  rw [Nat.add_zero, ← List.append_assoc, ← List.flatMap_append] at hskip
  exact hskip

/-! ## What a torn part says -/

theorem capturedIn_magic (bytes : List Byte) :
    capturedIn (magic ++ bytes) = (scan (magic ++ bytes).length maxRecords bytes).capture := by
  have hmagic : (magic ++ bytes).take 8 = magic := List.take_left' rfl
  have hbehind : (magic ++ bytes).drop 8 = bytes := List.drop_left' rfl
  rw [capturedIn, hmagic, hbehind, if_neg (not_not.mpr rfl)]

namespace Part

variable (part : Part)

theorem payload_lt : part.capture.payload.length < 18446744073709551616 := by
  have hsize := part.capture.size_lt
  rw [CaptureMapping.length_payload]
  omega

/-- With zeros in its payload the record is read as it stands, if it is not too long. -/
theorem scan_zeroed {size : ℕ} (hsize : part.capture.payload.length ≤ size) {tail : List Byte}
    (htail : Silent tail) (turns kept : ℕ) :
    (scan size (turns + 1) (zeroed part.record (9 + kept) ++ tail)).capture =
      if maxPayload < part.capture.payload.length then none
      else (captureOf (zeroed part.capture.payload kept)).filter complete := by
  have hlength := length_zeroed part.capture.payload kept
  have hrecord : zeroed part.record (9 + kept) =
      recordBytes opMetadata (zeroed part.capture.payload kept) := by
    have hheader : (opMetadata :: LittleEndian.pack 8 part.capture.payload.length).length = 9 := by
      rw [List.length_cons, LittleEndian.length_pack]
    rw [record, recordBytes, recordBytes, hlength, ← List.cons_append, ← List.cons_append,
      zeroed_append, zeroed_of_le (by omega), hheader, Nat.add_sub_cancel_left]
  have hmin : minPayload ≤ part.capture.payload.length := by
    rw [CaptureMapping.length_payload, minPayload]
    omega
  have hlater : (scan size turns tail).capture = none :=
    scan_silent (htail.of_suffix (List.drop_suffix _ _)) size turns
  rw [hrecord, scan_record (by rw [hlength]; exact part.payload_lt) (by rwa [hlength]) (by decide),
    if_neg (not_not.mpr rfl), hlength, hlater, Option.or_none]
  by_cases hmax : maxPayload < part.capture.payload.length
  · rw [if_pos hmax, if_pos fun hbounds => absurd hbounds.2 (not_le.mpr hmax)]
  · rw [if_neg hmax, if_neg (not_not.mpr ⟨hmin, not_lt.mp hmax⟩)]

/-- A part that is cut off within its capture record says nothing, and one that ends with it says
no other mapping. -/
theorem scan_cut_survives {size place : ℕ} (hsize : (part.record.take place).length ≤ size)
    (turns : ℕ) : Survives part.capture.kv (scan size turns (part.record.take place)).capture := by
  by_cases hplace : place < 9 + part.capture.payload.length
  · rw [record, scan_cut part.payload_lt hplace]
    exact survives_none _
  · have hwhole : part.record.length ≤ place := by
      rw [record, length_recordBytes]
      exact not_lt.mp hplace
    rw [List.take_of_length_le hwhole] at hsize ⊢
    cases turns with
    | zero => exact survives_none _
    | succ turns =>
        have hrecord : part.record =
            zeroed part.record (9 + part.capture.payload.length) ++ [] := by
          rw [zeroed_of_le (by rw [record, length_recordBytes]), List.append_nil]
        have hpayload : part.capture.payload.length ≤ size := by
          rw [record, length_recordBytes] at hsize
          omega
        rw [hrecord, part.scan_zeroed hpayload (part.rest_silent.of_suffix (List.nil_suffix))]
        split
        next => exact survives_none _
        next =>
          exact (part.capture.zeroed_payload_survives_iff _).mpr (Or.inr (zeroed_of_le le_rfl))

theorem drop_record (kept : ℕ) : part.record.drop (9 + kept) = part.capture.payload.drop kept := by
  have hheader : (opMetadata :: LittleEndian.pack 8 part.capture.payload.length).length = 9 := by
    rw [List.length_cons, LittleEndian.length_pack]
  rw [record, recordBytes, ← List.cons_append, ← List.drop_drop, List.drop_left' hheader]

/-- A part with zeros in its capture record says nothing or the whole mapping, except where the
zeros begin behind the key `start_time_unix`. -/
theorem scan_zeros_survives_iff {size : ℕ} (hsize : part.record.length ≤ size)
    (hturns : part.front.length < maxRecords) (place : ℕ) :
    Survives part.capture.kv (scan size (maxRecords - part.front.length)
        (zeroed part.record place ++ part.rest)).capture ↔
      part.Spared (.zeros place) := by
  obtain ⟨turns, hturn⟩ : ∃ turns, maxRecords - part.front.length = turns + 1 :=
    ⟨maxRecords - part.front.length - 1, by omega⟩
  have hrecord : part.record.length = 9 + part.capture.payload.length := length_recordBytes ..
  by_cases hheader : place < 9
  · -- the header is torn, and nothing behind it reads as a capture record
    have hbehind : Silent ((zeroed part.record place ++ part.rest).drop 9) := by
      rw [List.drop_append, length_zeroed, drop_zeroed hheader.le,
        show 9 - part.record.length = 0 by omega, List.drop_zero]
      exact part.rest_silent.zeros _
    rw [scan_silent hbehind]
    exact iff_of_true (survives_none _) (Or.inr (Or.inr (Or.inl (by omega))))
  · obtain ⟨kept, rfl⟩ := Nat.exists_eq_add_of_le (not_lt.mp hheader)
    rw [hturn, part.scan_zeroed (by omega) part.rest_silent]
    by_cases hmax : maxPayload < part.capture.payload.length
    · rw [if_pos hmax]
      exact iff_of_true (survives_none _) (Or.inr (Or.inl hmax))
    · rw [if_neg hmax, part.capture.zeroed_payload_survives_iff, zeroed_eq_iff, Spared,
        drop_record]
      constructor
      · rintro (hkept | hzeros)
        · exact Or.inr (Or.inr (Or.inl (by omega)))
        · exact Or.inr (Or.inr (Or.inr hzeros))
      · rintro (hfront | hlong | hkept | hzeros)
        · omega
        · exact absurd hlong hmax
        · exact Or.inl (by omega)
        · exact Or.inr hzeros

/-- What a torn part says is nothing or the whole mapping exactly where it is spared. -/
theorem torn_survives_iff (tear : Tear) :
    Survives part.capture.kv (capturedIn (part.torn tear)) ↔ part.Spared tear := by
  have hfront : ∀ size turns tail, (part.front.flatMap OtherRecord.bytes).length ≤ size →
      turns = maxRecords →
      (scan size turns (part.front.flatMap OtherRecord.bytes ++ tail)).capture =
        if part.front.length < maxRecords then
          (scan size (maxRecords - part.front.length) tail).capture
        else none := by
    rintro size turns tail hsize rfl
    split
    next hlt =>
      obtain ⟨more, hmore⟩ := Nat.exists_eq_add_of_le hlt.le
      rw [hmore, scan_front hsize, Nat.add_sub_cancel_left]
    next hle => exact scan_front_none hsize (not_lt.mp hle) tail
  cases tear with
  | cut place =>
      have hspared : part.Spared (.cut place) := trivial
      rw [torn, head, List.append_assoc, capturedIn_magic, hfront _ _ _ _ rfl]
      · refine iff_of_true ?_ hspared
        split
        next =>
          refine part.scan_cut_survives ?_ _
          rw [List.length_append, List.length_append]
          omega
        next => exact survives_none _
      · rw [List.length_append, List.length_append]
        omega
  | zeros place =>
      rw [torn, head, List.append_assoc, List.append_assoc, capturedIn_magic, hfront _ _ _ _ rfl]
      · split
        next hlt =>
          refine part.scan_zeros_survives_iff ?_ hlt place
          rw [List.length_append, List.length_append, List.length_append, length_zeroed]
          omega
        next hle => exact iff_of_true (survives_none _) (Or.inl (not_lt.mp hle))
      · rw [List.length_append, List.length_append]
        omega

/-- An undamaged part says its mapping, if the reader gets to it. -/
theorem capturedIn_bytes (hturns : part.front.length < maxRecords)
    (hmax : part.capture.payload.length ≤ maxPayload) :
    capturedIn part.bytes = some part.capture.kv := by
  obtain ⟨turns, hturn⟩ : ∃ turns, maxRecords = part.front.length + (turns + 1) :=
    ⟨maxRecords - part.front.length - 1, by omega⟩
  have hrecord : part.record = zeroed part.record (9 + part.capture.payload.length) := by
    rw [zeroed_of_le (by rw [record, length_recordBytes])]
  have hlength : part.record.length = 9 + part.capture.payload.length := length_recordBytes ..
  rw [bytes, head, List.append_assoc, List.append_assoc, capturedIn_magic]
  have hsize : ∀ size, size = (magic ++ (part.front.flatMap OtherRecord.bytes ++
      (part.record ++ part.rest))).length →
      (part.front.flatMap OtherRecord.bytes).length ≤ size ∧
        part.capture.payload.length ≤ size := by
    rintro size rfl
    rw [List.length_append, List.length_append, List.length_append]
    omega
  obtain ⟨hfront, hpayload⟩ := hsize _ rfl
  rw [hturn, scan_front hfront]
  generalize (magic ++ (part.front.flatMap OtherRecord.bytes ++
    (part.record ++ part.rest))).length = size at hfront hpayload ⊢
  rw [hrecord, part.scan_zeroed hpayload part.rest_silent, if_neg (not_lt.mpr hmax),
    zeroed_of_le le_rfl, CaptureMapping.captureOf_payload, Option.filter_some,
    if_pos part.capture.complete_kv]

end Part

end VisioSchema.SessionJson

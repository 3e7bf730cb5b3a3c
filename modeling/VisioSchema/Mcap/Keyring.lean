import VisioSchema.Crypto.Envelope
import VisioSchema.Library.JsonRoundTrip

/-!
# The keyring's text

The keyring is a JSON object of recording keys in hex, under the hex of their fingerprints.
`json.dump` writes it with an indent and sorted keys; what it wrote is a mapping again, with every
key that was in it (`row_dumpRing`).
-/

namespace VisioSchema.Mcap.Keyring

open VisioSchema.Library VisioSchema.Wire VisioSchema.Crypto

/-- A recording key. -/
abbrev Key := List Byte

/-! ## Keys in hex -/

/-- `_KEY_BYTES`. -/
def keyBytes : ℕ := 32

/-- The whitespace of `bytes.fromhex`. -/
def isAsciiSpace (c : Char) : Bool := (9 ≤ c.toNat && c.toNat ≤ 13) || c = ' '

/-- The whitespace of `str.strip`. -/
def isWhitespace (c : Char) : Bool :=
  isAsciiSpace c || (28 ≤ c.toNat && c.toNat ≤ 31) ||
    c.toNat ∈ [0x85, 0xA0, 0x1680, 0x2028, 0x2029, 0x202F, 0x205F, 0x3000] ||
    (0x2000 ≤ c.toNat && c.toNat ≤ 0x200A)

/-- `str.strip`. -/
def strip (text : Text) : Text :=
  ((text.dropWhile isWhitespace).reverse.dropWhile isWhitespace).reverse

/-- `bytes.fromhex`: pairs of digits, and whitespace between them. -/
def fromHex : Text → Option (List Byte)
  | [] => some []
  | [c] => if isAsciiSpace c then some [] else none
  | c :: d :: rest =>
      if isAsciiSpace c then fromHex (d :: rest)
      else
        match Json.hexValue c, Json.hexValue d with
        | some high, some low =>
            (fromHex rest).map fun bytes => UInt8.ofNat (16 * high + low) :: bytes
        | _, _ => none

/-- `bytes.fromhex(text.strip())`. -/
def keyOf (text : Text) : Option Key := fromHex (strip text)

/-- `_parse_hex_key`; a `ValueError` is `none`. -/
def parseHexKey (text : Text) : Option Key := (keyOf text).filter fun key => key.length = keyBytes

theorem digit_hex : ∀ n < 16, Json.hexValue (Nat.digitChar n) = some n ∧
    isWhitespace (Nat.digitChar n) = false ∧ isAsciiSpace (Nat.digitChar n) = false := by decide

theorem strip_hex (bytes : List Byte) : strip (Envelope.hex bytes) = Envelope.hex bytes := by
  have hkept : ∀ text : Text, (∀ c ∈ text, isWhitespace c = false) →
      text.dropWhile isWhitespace = text := by
    intro text hall
    cases text with
    | nil => rfl
    | cons c text =>
        exact List.dropWhile_cons_of_neg (by simp [hall c (List.mem_cons_self ..)])
  have hall : ∀ c ∈ Envelope.hex bytes, isWhitespace c = false := by
    intro c hc
    obtain ⟨n, hn, rfl⟩ := Envelope.exists_digit_of_mem_hex hc
    exact (digit_hex n hn).2.1
  rw [strip, hkept _ hall, hkept _ fun c hc => hall c (List.mem_reverse.mp hc),
    List.reverse_reverse]

/-- A key's hex is read as the key. -/
theorem keyOf_hex (key : Key) : keyOf (Envelope.hex key) = some key := by
  rw [keyOf, strip_hex]
  induction key with
  | nil => rfl
  | cons b key ih =>
      have hb := b.toNat_lt
      have hcons : Envelope.hex (b :: key) =
          Nat.digitChar (b.toNat / 16) :: Nat.digitChar (b.toNat % 16) :: Envelope.hex key := rfl
      have hbyte : UInt8.ofNat (16 * (b.toNat / 16) + b.toNat % 16) = b := by
        rw [Nat.div_add_mod, UInt8.ofNat_toNat]
      obtain ⟨hhigh, -, hspace⟩ := digit_hex (b.toNat / 16) (by omega)
      obtain ⟨hlow, -, -⟩ := digit_hex (b.toNat % 16) (by omega)
      rw [hcons, fromHex, hspace, if_neg (by decide), hhigh, hlow]
      dsimp only
      rw [ih, Option.map_some, hbyte]

theorem hex_injective : Function.Injective Envelope.hex := by
  intro first second heq
  have hread := keyOf_hex first
  rw [heq, keyOf_hex] at hread
  exact (Option.some.inj hread).symm

/-! ## The ring -/

/-- The ring's entries. -/
abbrev Entries (F : Type*) := Dict Text (Json F)

section Ring

variable {F : Type*} (floats : Floats F)

/-- `json.loads(ring.read_text())`, of an object. -/
def loadRing (content : List Byte) : Option (Entries F) :=
  match (Text.decode content).bind (Json.loads floats) with
  | some (.object fields) => some (Dict.empty.setAll fields)
  | _ => none

/-- `json.dump(entries, f, indent=2, sort_keys=True)`. -/
def dumpRing (entries : Entries F) : List Byte :=
  Text.encode (Json.dumpsSorted floats (.object entries.entries))

variable {floats}

/-- A key stands in the ring, under some fingerprint. -/
def Row (entries : Entries F) (keyFp : Text) (key : Key) : Prop :=
  ∃ text, entries.get keyFp = some (.string text) ∧ keyOf text = some key

theorem row_set (entries : Entries F) (keyFp : Text) (key : Key) :
    Row (entries.set keyFp (.string (Envelope.hex key))) keyFp key :=
  ⟨_, by rw [Dict.get_set, if_pos rfl], keyOf_hex key⟩

theorem Row.set {entries : Entries F} {keyFp otherFp : Text} {key : Key}
    (hrow : Row entries keyFp key) (hne : keyFp ≠ otherFp) (v : Json F) :
    Row (entries.set otherFp v) keyFp key := by
  obtain ⟨text, hget, hkey⟩ := hrow
  exact ⟨text, by rw [Dict.get_set, if_neg hne, hget], hkey⟩

/-- The entries can be written. -/
def Dumpable (floats : Floats F) (entries : Entries F) : Prop :=
  ∀ entry ∈ entries.entries, Json.Keyed floats entry.2

theorem dumpable_empty : Dumpable floats (Dict.empty : Entries F) :=
  fun _ hentry => absurd hentry List.not_mem_nil

theorem Dumpable.set {entries : Entries F} (hentries : Dumpable floats entries)
    (keyFp text : Text) : Dumpable floats (entries.set keyFp (.string text)) := by
  intro entry hentry
  have hall : Dict.set entries keyFp (.string text) = entries.setAll [(keyFp, .string text)] := rfl
  rw [hall] at hentry
  rcases Dict.mem_of_mem_entries_setAll hentry with hentry | hentry
  · exact hentries entry hentry
  · rw [List.mem_singleton.mp hentry]
    exact .string text

/-- What was read can be written. -/
theorem dumpable_of_loadRing (hfloats : ∀ x, Json.ReadsBack floats x) {content : List Byte}
    {entries : Entries F} (hload : loadRing floats content = some entries) :
    Dumpable floats entries := by
  unfold loadRing at hload
  split at hload
  next fields hloads =>
    cases hload
    obtain ⟨text, -, hloads⟩ := Option.bind_eq_some_iff.mp hloads
    have hkeyed := Json.keyed_of_loads hfloats hloads
    intro entry hentry
    rcases Dict.mem_of_mem_entries_setAll hentry with hnone | hentry
    · exact absurd hnone List.not_mem_nil
    · cases hkeyed with
      | object _ hfields => exact hfields entry hentry
  next => cases hload

/-- What was written is a mapping, and has the keys that were written. -/
theorem row_dumpRing {entries : Entries F} (hentries : Dumpable floats entries) :
    ∃ found, loadRing floats (dumpRing floats entries) = some found ∧
      ∀ keyFp key, Row entries keyFp key → Row found keyFp key := by
  have hkeyed : Json.Keyed floats (.object entries.entries) := .object entries.nodup hentries
  have hloads := Json.loads_dumpsSorted hkeyed
  rw [Json.sortKeys] at hloads
  have hperm := Json.sortEntries_perm (Json.sortFields entries.entries)
  have hmap : (Json.sortFields entries.entries).map Prod.fst = entries.keys := by
    rw [Json.sortFields_eq, List.map_map]
    rfl
  have hnodup : ((Json.sortEntries (Json.sortFields entries.entries)).map Prod.fst).Nodup := by
    rw [(hperm.map Prod.fst).nodup_iff, hmap]
    exact entries.nodup
  refine ⟨Dict.empty.setAll (Json.sortEntries (Json.sortFields entries.entries)), ?_, ?_⟩
  · rw [loadRing, dumpRing, Text.decode_encode, Option.bind_some, hloads]
  · rintro keyFp key ⟨text, hget, hkey⟩
    refine ⟨text, ?_, hkey⟩
    have hread : ((Dict.empty : Entries F).setAll
        (Json.sortEntries (Json.sortFields entries.entries))).entries =
          Json.sortEntries (Json.sortFields entries.entries) := Dict.entries_setAll hnodup
    rw [Dict.get_eq_some_iff, hread]
    refine hperm.mem_iff.mpr ?_
    rw [Json.sortFields_eq]
    exact List.mem_map.mpr ⟨(keyFp, .string text), Dict.get_eq_some_iff.mp hget, rfl⟩

end Ring

end VisioSchema.Mcap.Keyring

import VisioSchema.Library.JsonLayout

/-!
# JSON is read back as it was written

The reader skips the spaces that a layout puts in, and the first character of every part decides how
it goes on.  The induction is on the reader's fuel, which the length of the text bounds.  What is
written as it is read is what was read before (`keyed_of_loads`).
-/

namespace VisioSchema.Library.Json

variable {F : Type*}

/-! ## Strings -/

theorem hexValue_hexDigit : ∀ n < 16, hexValue (hexDigit n) = some n := by decide

theorem hex4_digits {n : ℕ} (hn : n < 65536) (rest : Text) :
    hex4 (hexDigit (n / 4096 % 16) :: hexDigit (n / 256 % 16) :: hexDigit (n / 16 % 16) ::
      hexDigit (n % 16) :: rest) = some (n, rest) := by
  have hvalue : n / 4096 % 16 * 4096 + n / 256 % 16 * 256 + n / 16 % 16 * 16 + n % 16 = n := by
    omega
  simp only [hex4, hexValue_hexDigit (n / 4096 % 16) (by omega),
    hexValue_hexDigit (n / 256 % 16) (by omega), hexValue_hexDigit (n / 16 % 16) (by omega),
    hexValue_hexDigit (n % 16) (by omega), hvalue]

/-- A character is no surrogate. -/
theorem toNat_char (c : Char) : c.toNat < 0xD800 ∨ 0xDFFF < c.toNat ∧ c.toNat < 0x110000 := c.valid

theorem scanChar_unicode {c : Char} (hc : c.toNat < 0x10000) (rest : Text) :
    scanChar (unicodeEscape c.toNat ++ rest) = some (c, rest) := by
  have hvalid := toNat_char c
  have hscan : scanChar (unicodeEscape c.toNat ++ rest) =
      scanUnicode ((unicodeEscape c.toNat).drop 2 ++ rest) := rfl
  have hhex : hex4 ((unicodeEscape c.toNat).drop 2 ++ rest) = some (c.toNat, rest) :=
    hex4_digits hc rest
  rw [hscan, scanUnicode, hhex]
  dsimp only
  rw [if_neg (by omega), if_neg (by omega), Char.ofNat_toNat]

theorem surrogatePair_eq {c : Char} (hc : 0x10000 ≤ c.toNat) :
    surrogatePair (0xD800 + (c.toNat - 0x10000) / 1024) (0xDC00 + (c.toNat - 0x10000) % 1024) =
      c := by
  have heq : 0x10000 + ((0xD800 + (c.toNat - 0x10000) / 1024 - 0xD800) * 1024 +
      (0xDC00 + (c.toNat - 0x10000) % 1024 - 0xDC00)) = c.toNat := by omega
  rw [surrogatePair, heq, Char.ofNat_toNat]

theorem scanUnicode_pair {high low : ℕ} (hhigh : 0xD800 ≤ high ∧ high ≤ 0xDBFF)
    (hlow : 0xDC00 ≤ low ∧ low ≤ 0xDFFF) (rest : Text) :
    scanUnicode ((unicodeEscape high).drop 2 ++ (unicodeEscape low ++ rest)) =
      some (surrogatePair high low, rest) := by
  have hfirst : hex4 ((unicodeEscape high).drop 2 ++ (unicodeEscape low ++ rest)) =
      some (high, unicodeEscape low ++ rest) := hex4_digits (by omega) _
  have hsecond : hex4 ((unicodeEscape low ++ rest).drop 2) = some (low, rest) :=
    hex4_digits (by omega) rest
  have hpair : (unicodeEscape low ++ rest).take 2 = ['\\', 'u'] := rfl
  simp only [scanUnicode, hfirst, hsecond, hpair, if_pos hhigh, if_pos hlow, if_true]

theorem scanChar_pair {c : Char} (hc : 0x10000 ≤ c.toNat) (rest : Text) :
    scanChar (unicodeEscape (0xD800 + (c.toNat - 0x10000) / 1024) ++
      unicodeEscape (0xDC00 + (c.toNat - 0x10000) % 1024) ++ rest) = some (c, rest) := by
  have hvalid := toNat_char c
  have hscan (high low : ℕ) : scanChar (unicodeEscape high ++ unicodeEscape low ++ rest) =
      scanUnicode ((unicodeEscape high).drop 2 ++ (unicodeEscape low ++ rest)) := rfl
  rw [hscan, scanUnicode_pair (by omega) (by omega), surrogatePair_eq hc]

/-- An escaped character is read back. -/
theorem scanChar_escapeChar (c : Char) (rest : Text) :
    scanChar (escapeChar c ++ rest) = some (c, rest) := by
  unfold escapeChar
  split_ifs with h1 h2 h3 h4 h5 h6 h7 h8 h9
  · rw [h1]; rfl
  · rw [h2]; rfl
  · rw [h3]; rfl
  · rw [h4]; rfl
  · rw [h5]; rfl
  · rw [h6]; rfl
  · rw [h7]; rfl
  · rw [List.singleton_append, scanChar, if_neg h2, if_neg (by omega)]
  · exact scanChar_unicode h9 rest
  · exact scanChar_pair (by omega) rest

theorem escapeChar_head (c : Char) : ∃ d rest, escapeChar c = d :: rest ∧ d ≠ '"' := by
  unfold escapeChar
  split_ifs with h1 h2 h3 h4 h5 h6 h7 h8 h9
  · exact ⟨'\\', _, rfl, by decide⟩
  · exact ⟨'\\', _, rfl, by decide⟩
  · exact ⟨'\\', _, rfl, by decide⟩
  · exact ⟨'\\', _, rfl, by decide⟩
  · exact ⟨'\\', _, rfl, by decide⟩
  · exact ⟨'\\', _, rfl, by decide⟩
  · exact ⟨'\\', _, rfl, by decide⟩
  · exact ⟨c, [], rfl, h1⟩
  · exact ⟨'\\', _, rfl, by decide⟩
  · exact ⟨'\\', _, rfl, by decide⟩

theorem length_le_flatMap_escapeChar (s : Text) : s.length ≤ (s.flatMap escapeChar).length := by
  induction s with
  | nil => exact Nat.le_refl 0
  | cons c s ih =>
      obtain ⟨d, rest, heq, -⟩ := escapeChar_head c
      rw [List.flatMap_cons, heq, List.length_append, List.length_cons, List.length_cons]
      omega

theorem scanString_flatMap (s rest : Text) {fuel : ℕ} (hfuel : s.length < fuel) :
    scanString fuel (s.flatMap escapeChar ++ '"' :: rest) = some (s, rest) := by
  induction s generalizing fuel with
  | nil =>
      cases fuel with
      | zero => cases hfuel
      | succ fuel => rfl
  | cons c s ih =>
      cases fuel with
      | zero => cases hfuel
      | succ fuel =>
          obtain ⟨d, more, heq, hne⟩ := escapeChar_head c
          have hchar := scanChar_escapeChar c (s.flatMap escapeChar ++ '"' :: rest)
          rw [List.flatMap_cons, List.append_assoc, scanString, hchar]
          rw [if_neg (by rw [heq]; simpa using hne)]
          dsimp only
          rw [ih (Nat.lt_of_succ_lt_succ hfuel), Option.map_some]

/-- A quoted string is read back, from behind its quote. -/
theorem scanString_quote (s rest : Text) {fuel : ℕ} (hfuel : (quote s).length ≤ fuel) :
    scanString fuel ((quote s ++ rest).tail) = some (s, rest) := by
  have hlength := length_le_flatMap_escapeChar s
  rw [quote, List.length_cons, List.length_append] at hfuel
  have htail : (quote s ++ rest).tail = s.flatMap escapeChar ++ '"' :: rest := by
    simp [quote]
  rw [htail]
  exact scanString_flatMap s rest (by omega)

/-! ## Numbers -/

/-- What may stand behind a value. -/
def Closed (rest : Text) : Prop :=
  rest = [] ∨ ∃ c more, rest = c :: more ∧ (isSpace c = true ∨ c = ',' ∨ c = ']' ∨ c = '\x7d')

theorem Closed.head {rest : Text} (hclosed : Closed rest) :
    (∀ c, rest.head? = some c → c.isDigit = false) ∧ rest.head? ≠ some '.' ∧
      rest.head? ≠ some 'e' ∧ rest.head? ≠ some 'E' := by
  rcases hclosed with rfl | ⟨c, more, rfl, hspace | rfl | rfl | rfl⟩
  · simp
  · simp only [isSpace, Bool.or_eq_true, decide_eq_true_eq] at hspace
    rcases hspace with ((rfl | rfl) | rfl) | rfl
    · simp
    · simp
    · simp
    · simp
  · simp
  · simp
  · simp

theorem Closed.dropWhile {rest : Text} (hclosed : Closed rest) :
    rest.takeWhile Char.isDigit = [] ∧ rest.dropWhile Char.isDigit = rest := by
  have hhead := hclosed.head.1
  cases rest with
  | nil => exact ⟨rfl, rfl⟩
  | cons c more =>
      have hc := hhead c rfl
      exact ⟨List.takeWhile_cons_of_neg (by simp [hc]), List.dropWhile_cons_of_neg (by simp [hc])⟩

/-- The first digit of a number is 0 for 0 only. -/
theorem decimal_head (n : ℕ) :
    (n = 0 ∧ Text.decimal n = ['0']) ∨
      ∃ c rest, Text.decimal n = c :: rest ∧ c ≠ '0' := by
  induction n using Nat.strongRecOn with
  | ind n ih =>
      by_cases hlt : n < 10
      · by_cases hn : n = 0
        · exact .inl ⟨hn, by rw [hn]; rfl⟩
        · refine .inr ⟨n.digitChar, [], Nat.toDigits_of_lt_base hlt, ?_⟩
          have hdigit : ∀ d < 10, d ≠ 0 → d.digitChar ≠ '0' := by decide
          exact hdigit n hlt hn
      · right
        have hstep : Text.decimal n = Text.decimal (n / 10) ++ [(n % 10).digitChar] :=
          Nat.toDigits_of_base_le (by decide) (by omega)
        rcases ih (n / 10) (by omega) with ⟨hzero, -⟩ | ⟨c, rest, heq, hne⟩
        · omega
        · exact ⟨c, rest ++ [(n % 10).digitChar], by rw [hstep, heq, List.cons_append], hne⟩

theorem all_isDigit_decimal (n : ℕ) : ∀ c ∈ Text.decimal n, c.isDigit = true :=
  fun _ hmem => Text.isDigit_of_mem_decimal hmem

theorem scanInt_decimal (n : ℕ) {rest : Text} (hclosed : Closed rest) :
    scanInt (Text.decimal n ++ rest) = some (Text.decimal n, rest) := by
  rcases decimal_head n with ⟨-, heq⟩ | ⟨c, more, heq, hne⟩
  · rw [heq]; rfl
  · have hall := all_isDigit_decimal n
    have hc : c.isDigit = true := hall c (by rw [heq]; exact List.mem_cons_self ..)
    have htake := @List.takeWhile_append_of_pos _ Char.isDigit _ rest hall
    have hdrop := @List.dropWhile_append_of_pos _ Char.isDigit _ rest hall
    rw [hclosed.dropWhile.1, List.append_nil] at htake
    rw [hclosed.dropWhile.2] at hdrop
    rw [heq, List.cons_append] at htake hdrop ⊢
    rw [scanInt, if_neg hne, if_pos hc, htake, hdrop]

theorem scanNumber_decimal (floats : Floats F) (negative : Bool) (n : ℕ) {rest : Text}
    (hclosed : Closed rest) :
    scanNumber floats negative (Text.decimal n ++ rest) =
      some (.int (if negative then -(n : ℤ) else n), rest) := by
  obtain ⟨-, hdot, he, hE⟩ := hclosed.head
  have hfraction : scanFraction rest = ([], rest) := by
    rw [scanFraction, if_neg]
    exact fun hand => hdot hand.1
  have hexponent : scanExponent rest = ([], rest) := by
    rw [scanExponent, if_neg]
    exact fun hand => hand.1.elim he hE
  have hvalue : Nat.ofDigitChars 10 (Text.decimal n) 0 = n :=
    Nat.ofDigitChars_toDigits (by decide) (by decide)
  rw [scanNumber, scanInt_decimal n hclosed]
  simp only [hfraction, hexponent, hvalue, and_self, if_true]

theorem scanOnce_int (floats : Floats F) (n : ℤ) {rest : Text} (hclosed : Closed rest)
    (fuel : ℕ) : scanOnce floats (fuel + 1) (intText n ++ rest) = some (.int n, rest) := by
  rw [scanOnce, intText]
  by_cases hneg : n < 0
  · have hnumber := scanNumber_decimal floats true n.natAbs hclosed
    have hvalue : -((n.natAbs : ℕ) : ℤ) = n := by omega
    rw [if_pos rfl, hvalue] at hnumber
    rw [if_pos hneg, List.cons_append, List.head?_cons, if_neg (by decide), if_neg (by decide),
      if_neg (by decide), scanScalar, List.head?_cons, if_neg (by decide), if_neg (by decide),
      if_neg (by decide), if_pos rfl, List.tail_cons, hnumber, Option.some_or]
  · have hnumber := scanNumber_decimal floats false n.natAbs hclosed
    have hvalue : ((n.natAbs : ℕ) : ℤ) = n := by omega
    rw [if_neg (by decide), hvalue] at hnumber
    rw [if_neg hneg]
    obtain ⟨c, more, heq⟩ : ∃ c more, Text.decimal n.natAbs = c :: more :=
      List.exists_cons_of_ne_nil Nat.toDigits_ne_nil
    have hdigit : c.isDigit = true :=
      all_isDigit_decimal n.natAbs c (by rw [heq]; exact List.mem_cons_self ..)
    have hhead {d : Char} (hd : d.isDigit = false) :
        ¬ (Text.decimal n.natAbs ++ rest).head? = some d := by
      rw [heq, List.cons_append, List.head?_cons, Option.some.injEq]
      rintro rfl
      rw [hd] at hdigit
      cases hdigit
    rw [if_neg (hhead rfl), if_neg (hhead rfl), if_neg (hhead rfl), scanScalar,
      if_neg (hhead rfl), if_neg (hhead rfl), if_neg (hhead rfl), if_neg (hhead rfl), hnumber,
      Option.some_or]

/-! ## Values -/

/-- A value that is written as it is: without floats, and with the keys of an object distinct. -/
inductive Written : Json F → Prop
  | null : Written .null
  | bool (b : Bool) : Written (.bool b)
  | int (n : ℤ) : Written (.int n)
  | string (s : Text) : Written (.string s)
  | array {items : List (Json F)} (hitems : ∀ v ∈ items, Written v) : Written (.array items)
  | object {fields : List (Text × Json F)} (hkeys : (fields.map Prod.fst).Nodup)
      (hfields : ∀ entry ∈ fields, Written entry.2) : Written (.object fields)

/-- A float whose text is read back, and begins neither with a space nor like another value. -/
structure ReadsBack (floats : Floats F) (x : F) : Prop where
  scan : ∀ rest, Closed rest → scanScalar floats (floats.text x ++ rest) = some (.real x, rest)
  head : ∃ c rest, floats.text x = c :: rest ∧ isSpace c = false ∧
    c ∉ ['"', '[', ']', '\x7b']

/-- A value with the keys of its objects distinct, and with floats that are read back. -/
inductive Keyed (floats : Floats F) : Json F → Prop
  | null : Keyed floats .null
  | bool (b : Bool) : Keyed floats (.bool b)
  | int (n : ℤ) : Keyed floats (.int n)
  | real {x : F} (hx : ReadsBack floats x) : Keyed floats (.real x)
  | string (s : Text) : Keyed floats (.string s)
  | array {items : List (Json F)} (hitems : ∀ v ∈ items, Keyed floats v) :
      Keyed floats (.array items)
  | object {fields : List (Text × Json F)} (hkeys : (fields.map Prod.fst).Nodup)
      (hfields : ∀ entry ∈ fields, Keyed floats entry.2) : Keyed floats (.object fields)

theorem Written.keyed (floats : Floats F) {v : Json F} (hv : Written v) : Keyed floats v := by
  induction hv with
  | null => exact .null
  | bool b => exact .bool b
  | int n => exact .int n
  | string s => exact .string s
  | array _ ih => exact .array ih
  | object hkeys _ ih => exact .object hkeys ih

/-- A value begins with no space, and with no bracket that closes. -/
theorem write_head {floats : Floats F} {v : Json F} (hv : Keyed floats v) (layout : Layout)
    (depth : ℕ) :
    ∃ c rest, write layout floats depth v = c :: rest ∧ isSpace c = false ∧ c ≠ ']' := by
  cases hv with
  | null => exact ⟨'n', _, rfl, by decide, by decide⟩
  | bool b =>
      cases b with
      | false => exact ⟨'f', _, rfl, by decide, by decide⟩
      | true => exact ⟨'t', _, rfl, by decide, by decide⟩
  | int n =>
      rw [write, intText]
      split
      · exact ⟨'-', _, rfl, by decide, by decide⟩
      · obtain ⟨c, more, heq⟩ : ∃ c more, Text.decimal n.natAbs = c :: more :=
          List.exists_cons_of_ne_nil Nat.toDigits_ne_nil
        have hdigit : c.isDigit = true :=
          all_isDigit_decimal n.natAbs c (by rw [heq]; exact List.mem_cons_self ..)
        refine ⟨c, more, heq, ?_, ?_⟩
        · by_contra hspace
          rw [Bool.not_eq_false, isSpace] at hspace
          simp only [Bool.or_eq_true, decide_eq_true_eq] at hspace
          rcases hspace with ((rfl | rfl) | rfl) | rfl <;> exact absurd hdigit (by decide)
        · rintro rfl
          exact absurd hdigit (by decide)
  | real hx =>
      obtain ⟨c, rest, heq, hspace, hne⟩ := hx.head
      exact ⟨c, rest, heq, hspace, fun hc => hne (by rw [hc]; decide)⟩
  | string s => exact ⟨'"', _, rfl, by decide, by decide⟩
  | @array items hitems =>
      cases items with
      | nil => exact ⟨'[', _, rfl, by decide, by decide⟩
      | cons v rest => exact ⟨'[', _, rfl, by decide, by decide⟩
  | @object fields hkeys hfields =>
      cases fields with
      | nil => exact ⟨'\x7b', _, rfl, by decide, by decide⟩
      | cons entry rest => exact ⟨'\x7b', _, rfl, by decide, by decide⟩

theorem skip_cons {c : Char} (hc : isSpace c = false) (rest : Text) :
    skip (c :: rest) = c :: rest := by
  rw [skip, List.dropWhile_cons_of_neg (by simp [hc])]

theorem skip_spaces {spaces : Text} (hspaces : ∀ c ∈ spaces, isSpace c = true) (rest : Text) :
    skip (spaces ++ rest) = skip rest := by
  rw [skip, List.dropWhile_append_of_pos hspaces, skip]

theorem skip_write {floats : Floats F} {v : Json F} (hv : Keyed floats v) (layout : Layout)
    (depth : ℕ) (rest : Text) :
    skip (write layout floats depth v ++ rest) = write layout floats depth v ++ rest := by
  obtain ⟨c, more, heq, hspace, -⟩ := write_head hv layout depth
  rw [heq, List.cons_append, skip_cons hspace]

theorem skip_quote (k rest : Text) : skip (quote k ++ rest) = quote k ++ rest := by
  rw [quote, List.cons_append, skip_cons (by decide)]

/-- Distinct keys make the same dictionary. -/
theorem ofPairs_eq {fields : List (Text × Json F)} (hkeys : (fields.map Prod.fst).Nodup) :
    ofPairs fields = fields := by
  have hnew : ((Dict.empty : Dict Text (Json F)).keys ++ fields.map Prod.fst).Nodup := by
    simpa [Dict.keys, Dict.empty] using hkeys
  exact Dict.entries_setAll hnew

theorem closed_spaces {spaces rest : Text} (hspaces : ∀ c ∈ spaces, isSpace c = true)
    (hclosed : Closed rest) : Closed (spaces ++ rest) := by
  cases spaces with
  | nil => exact hclosed
  | cons c spaces =>
      exact .inr ⟨c, spaces ++ rest, rfl, .inl (hspaces c (List.mem_cons_self ..))⟩

section Layouts

variable (layout : Layout) (floats : Floats F)

theorem writeItems_closed (depth : ℕ) (items : List (Json F)) (rest : Text) :
    Closed (writeItems layout floats depth items ++ rest) := by
  cases items with
  | nil =>
      rw [writeItems, List.append_assoc]
      exact closed_spaces (layout.gap_space depth) (.inr ⟨']', rest, rfl, .inr (.inr (.inl rfl))⟩)
  | cons v items => exact .inr ⟨',', _, rfl, .inr (.inl rfl)⟩

theorem writeFields_closed (depth : ℕ) (fields : List (Text × Json F)) (rest : Text) :
    Closed (writeFields layout floats depth fields ++ rest) := by
  cases fields with
  | nil =>
      rw [writeFields, List.append_assoc]
      exact closed_spaces (layout.gap_space depth)
        (.inr ⟨'\x7d', rest, rfl, .inr (.inr (.inr rfl))⟩)
  | cons entry fields => exact .inr ⟨',', _, rfl, .inr (.inl rfl)⟩

/-- What stands behind the brace or bracket of an object or array with something in it. -/
def fieldsText (depth : ℕ) (k : Text) (v : Json F) (fields : List (Text × Json F)) : Text :=
  quote k ++ ':' :: (layout.colon ++
    (write layout floats (depth + 1) v ++ writeFields layout floats depth fields))

def itemsText (depth : ℕ) (v : Json F) (items : List (Json F)) : Text :=
  write layout floats (depth + 1) v ++ writeItems layout floats depth items

/-- With fuel for the length of its text, every part is read back. -/
structure ReadBack (fuel : ℕ) : Prop where
  value : ∀ depth v rest, Keyed floats v → Closed rest →
    (write layout floats depth v).length ≤ fuel →
    scanOnce floats fuel (write layout floats depth v ++ rest) = some (v, rest)
  items : ∀ depth v items rest, Keyed floats v → (∀ w ∈ items, Keyed floats w) →
    (itemsText layout floats depth v items).length ≤ fuel →
    scanItems floats fuel (itemsText layout floats depth v items ++ rest) = some (v :: items, rest)
  fields : ∀ depth k v fields rest, Keyed floats v → (∀ entry ∈ fields, Keyed floats entry.2) →
    (fieldsText layout floats depth k v fields).length ≤ fuel →
    scanFields floats fuel (fieldsText layout floats depth k v fields ++ rest) =
      some ((k, v) :: fields, rest)

variable {layout floats}

theorem readBack_items {fuel : ℕ} (hread : ReadBack layout floats fuel) (depth : ℕ) {v : Json F}
    {items : List (Json F)} (rest : Text) (hv : Keyed floats v)
    (hitems : ∀ w ∈ items, Keyed floats w)
    (hlength : (itemsText layout floats depth v items).length ≤ fuel + 1) :
    scanItems floats (fuel + 1) (itemsText layout floats depth v items ++ rest) =
      some (v :: items, rest) := by
  have hbehind : 0 < (writeItems layout floats depth items).length := by
    cases items <;> simp [writeItems]
  rw [itemsText, List.length_append] at hlength
  rw [itemsText, scanItems, List.append_assoc,
    hread.value (depth + 1) v _ hv (writeItems_closed layout floats depth items rest) (by omega)]
  dsimp only
  cases items with
  | nil =>
      rw [writeItems, List.append_assoc, skip_spaces (layout.gap_space depth),
        List.singleton_append, skip_cons (by decide)]
      rfl
  | cons w items =>
      have hw : Keyed floats w := hitems w (List.mem_cons_self ..)
      have hrest : ∀ u ∈ items, Keyed floats u := fun u hu => hitems u (List.mem_cons_of_mem _ hu)
      rw [writeItems, List.length_cons, List.length_append] at hlength
      rw [writeItems, List.cons_append, skip_cons (by decide), if_pos (List.head?_cons ..),
        List.tail_cons, List.append_assoc, skip_spaces (layout.gap_space (depth + 1)),
        List.append_assoc, skip_write hw, ← List.append_assoc]
      have hmore := hread.items depth w items rest hw hrest (by rw [itemsText]; omega)
      rw [itemsText] at hmore
      rw [hmore]
      rfl

theorem readBack_fields {fuel : ℕ} (hread : ReadBack layout floats fuel) (depth : ℕ) {k : Text}
    {v : Json F} {fields : List (Text × Json F)} (rest : Text) (hv : Keyed floats v)
    (hfields : ∀ entry ∈ fields, Keyed floats entry.2)
    (hlength : (fieldsText layout floats depth k v fields).length ≤ fuel + 1) :
    scanFields floats (fuel + 1) (fieldsText layout floats depth k v fields ++ rest) =
      some ((k, v) :: fields, rest) := by
  have hbehind : 0 < (writeFields layout floats depth fields).length := by
    cases fields <;> simp [writeFields]
  rw [fieldsText, List.length_append, List.length_cons, List.length_append,
    List.length_append] at hlength
  have hquote : (fieldsText layout floats depth k v fields ++ rest).head? = some '"' := rfl
  rw [scanFields, if_pos hquote, fieldsText, List.append_assoc, scanString_quote k _ (by simp)]
  dsimp only
  rw [List.cons_append, skip_cons (by decide), if_pos (List.head?_cons ..), List.tail_cons,
    List.append_assoc, skip_spaces layout.colon_space, List.append_assoc, skip_write hv,
    hread.value (depth + 1) v _ hv (writeFields_closed layout floats depth fields rest) (by omega)]
  dsimp only
  cases fields with
  | nil =>
      rw [writeFields, List.append_assoc, skip_spaces (layout.gap_space depth),
        List.singleton_append, skip_cons (by decide)]
      rfl
  | cons entry fields =>
      obtain ⟨key, w⟩ := entry
      have hw : Keyed floats w := hfields (key, w) (List.mem_cons_self ..)
      have hrest : ∀ entry ∈ fields, Keyed floats entry.2 :=
        fun entry hmem => hfields entry (List.mem_cons_of_mem _ hmem)
      rw [writeFields, List.length_cons, List.length_append] at hlength
      rw [writeFields, List.cons_append, skip_cons (by decide), if_pos (List.head?_cons ..),
        List.tail_cons, List.append_assoc, skip_spaces (layout.gap_space (depth + 1)),
        List.append_assoc, skip_quote, ← List.append_assoc]
      have hmore := hread.fields depth key w fields rest hw hrest (by rw [fieldsText]; omega)
      rw [fieldsText] at hmore
      rw [hmore]
      rfl

theorem readBack_value {fuel : ℕ} (hread : ReadBack layout floats fuel) (depth : ℕ) {v : Json F}
    (rest : Text) (hv : Keyed floats v) (hclosed : Closed rest)
    (hlength : (write layout floats depth v).length ≤ fuel + 1) :
    scanOnce floats (fuel + 1) (write layout floats depth v ++ rest) = some (v, rest) := by
  cases hv with
  | null => rfl
  | bool b => cases b <;> rfl
  | int n => exact scanOnce_int floats n hclosed fuel
  | @real x hx =>
      -- A number's first character sends the reader past the string and bracket branches.
      obtain ⟨c, more, heq, -, hne⟩ := hx.head
      have hhead : ∀ d ∈ ['"', '[', '\x7b'], ¬(floats.text x ++ rest).head? = some d := by
        intro d hd hhead
        rw [heq, List.cons_append, List.head?_cons, Option.some.injEq] at hhead
        subst hhead
        refine hne ?_
        simp only [List.mem_cons, List.not_mem_nil, or_false] at hd ⊢
        tauto
      rw [write, scanOnce, if_neg (hhead _ (by decide)), if_neg (hhead _ (by decide)),
        if_neg (hhead _ (by decide)), hx.scan rest hclosed]
  | string s =>
      have hquote : (write layout floats depth (.string s) ++ rest).head? = some '"' := by
        rw [write]
        rfl
      rw [scanOnce, if_pos hquote, write, scanString_quote s rest (by simp), Option.map_some]
  | @array items hitems =>
      cases items with
      | nil => rfl
      | cons v items =>
          have hv : Keyed floats v := hitems v (List.mem_cons_self ..)
          have hrest : ∀ w ∈ items, Keyed floats w :=
            fun w hw => hitems w (List.mem_cons_of_mem _ hw)
          -- An array that is not empty: the first item's character is not the closing bracket.
          obtain ⟨c, more, heq, -, hne⟩ := write_head hv layout (depth + 1)
          rw [write, List.length_cons, List.length_append] at hlength
          have hmore := hread.items depth v items rest hv hrest (by rw [itemsText]; omega)
          rw [itemsText] at hmore
          rw [scanOnce, write, List.cons_append, List.head?_cons, if_neg (by decide), if_pos rfl,
            List.tail_cons, List.append_assoc, skip_spaces (layout.gap_space (depth + 1)),
            List.append_assoc, skip_write hv]
          rw [if_neg (by rw [heq]; simpa using hne), ← List.append_assoc, hmore]
          rfl
  | @object fields hkeys hfields =>
      cases fields with
      | nil => rfl
      | cons entry fields =>
          obtain ⟨k, v⟩ := entry
          have hv : Keyed floats v := hfields (k, v) (List.mem_cons_self ..)
          have hrest : ∀ entry ∈ fields, Keyed floats entry.2 :=
            fun entry hmem => hfields entry (List.mem_cons_of_mem _ hmem)
          rw [write, List.length_cons, List.length_append] at hlength
          have hmore := hread.fields depth k v fields rest hv hrest (by rw [fieldsText]; omega)
          rw [fieldsText] at hmore
          rw [scanOnce, write, List.cons_append, List.head?_cons, if_neg (by decide),
            if_neg (by decide), if_pos rfl, List.tail_cons, List.append_assoc,
            skip_spaces (layout.gap_space (depth + 1)), List.append_assoc, skip_quote]
          rw [if_neg (by simp [quote]), ← List.append_assoc, hmore, Option.map_some,
            ofPairs_eq hkeys]

theorem readBack (layout : Layout) (floats : Floats F) (fuel : ℕ) :
    ReadBack layout floats fuel := by
  induction fuel with
  | zero =>
      have hpos {v : Json F} (hv : Keyed floats v) (depth : ℕ) :
          0 < (write layout floats depth v).length := by
        obtain ⟨c, more, heq, -⟩ := write_head hv layout depth
        rw [heq, List.length_cons]
        exact Nat.succ_pos _
      refine ⟨?_, ?_, ?_⟩
      · intro depth v rest hv _ hlength
        have := hpos hv depth
        omega
      · intro depth v items rest hv _ hlength
        have := hpos hv (depth + 1)
        rw [itemsText, List.length_append] at hlength
        omega
      · intro depth k v fields rest hv _ hlength
        simp [fieldsText, quote] at hlength
  | succ fuel ih =>
      exact ⟨fun depth v rest hv hclosed hlength => readBack_value ih depth rest hv hclosed hlength,
        fun depth v items rest hv hitems hlength => readBack_items ih depth rest hv hitems hlength,
        fun depth k v fields rest hv hfields hlength =>
          readBack_fields ih depth rest hv hfields hlength⟩

/-- What was written is read back, in any layout. -/
theorem loads_write (layout : Layout) {floats : Floats F} {v : Json F} (hv : Keyed floats v) :
    loads floats (write layout floats 0 v) = some v := by
  have hscan := (readBack layout floats ((write layout floats 0 v).length + 1)).value 0 v [] hv
    (.inl rfl) (Nat.le_succ _)
  have hskip := skip_write hv layout 0 []
  rw [List.append_nil] at hscan hskip
  rw [loads, hskip, hscan]
  rfl

end Layouts

/-- What was written is read back. -/
theorem loads_dumps (floats : Floats F) {v : Json F} (hv : Written v) :
    loads floats (dumps floats v) = some v := by
  rw [dumps_eq_write floats 0 v, loads_write compact (hv.keyed floats)]

/-! ## Sorted keys -/

theorem Keyed.sortKeys {floats : Floats F} {v : Json F} (hv : Keyed floats v) :
    Keyed floats v.sortKeys := by
  induction hv with
  | null => exact .null
  | bool b => exact .bool b
  | int n => exact .int n
  | real hx => exact .real hx
  | string s => exact .string s
  | array _ ih =>
      rw [Json.sortKeys, sortItems_eq]
      refine .array fun w hw => ?_
      obtain ⟨v, hv, rfl⟩ := List.mem_map.mp hw
      exact ih v hv
  | @object fields hkeys _ ih =>
      have hperm := sortEntries_perm (sortFields fields)
      have hmap : (sortFields fields).map Prod.fst = fields.map Prod.fst := by
        rw [sortFields_eq, List.map_map]
        rfl
      refine .object ?_ fun entry hentry => ?_
      · rwa [(hperm.map Prod.fst).nodup_iff, hmap]
      · have hmem := hperm.mem_iff.mp hentry
        rw [sortFields_eq] at hmem
        obtain ⟨old, hold, rfl⟩ := List.mem_map.mp hmem
        exact ih old hold

theorem loads_dumpsSorted {floats : Floats F} {v : Json F} (hv : Keyed floats v) :
    loads floats (dumpsSorted floats v) = some v.sortKeys :=
  loads_write (indented 2) hv.sortKeys

/-! ## What is read -/

section Read

variable {floats : Floats F} (hfloats : ∀ x, ReadsBack floats x)

include hfloats

theorem keyed_of_scanScalar {text rest : Text} {v : Json F}
    (hscan : scanScalar floats text = some (v, rest)) : Keyed floats v := by
  have hword : ∀ {word : Text} {w : Json F} {text : Text} {found : Json F × Text},
      Keyed floats w → scanWord word w text = some found → Keyed floats found.1 := by
    intro word w text found hw hfound
    rw [scanWord] at hfound
    split at hfound
    · cases hfound
      exact hw
    · cases hfound
  have hnumber : ∀ {negative : Bool} {text : Text} {found : Json F × Text},
      scanNumber floats negative text = some found → Keyed floats found.1 := by
    intro negative text found hfound
    rw [scanNumber] at hfound
    split at hfound
    next => cases hfound
    next =>
      dsimp only at hfound
      split at hfound
      next =>
        cases hfound
        exact .int _
      next =>
        cases hfound
        exact .real (hfloats _)
  rw [scanScalar] at hscan
  split at hscan
  next => exact hword .null hscan
  split at hscan
  next => exact hword (.bool true) hscan
  split at hscan
  next => exact hword (.bool false) hscan
  split at hscan
  next =>
    rcases Option.or_eq_some_iff.mp hscan with hscan | ⟨-, hscan⟩
    · exact hnumber hscan
    · exact hword (.real (hfloats _)) hscan
  next =>
    rcases Option.or_eq_some_iff.mp hscan with hscan | ⟨-, hscan⟩
    · exact hnumber hscan
    · rcases Option.or_eq_some_iff.mp hscan with hscan | ⟨-, hscan⟩
      · exact hword (.real (hfloats _)) hscan
      · exact hword (.real (hfloats _)) hscan

/-- What any fuel reads has distinct keys. -/
structure ReadKeyed (floats : Floats F) (fuel : ℕ) : Prop where
  value : ∀ text v rest, scanOnce floats fuel text = some (v, rest) → Keyed floats v
  items : ∀ text items rest, scanItems floats fuel text = some (items, rest) →
    ∀ v ∈ items, Keyed floats v
  fields : ∀ text fields rest, scanFields floats fuel text = some (fields, rest) →
    ∀ entry ∈ fields, Keyed floats entry.2

theorem readKeyed (fuel : ℕ) : ReadKeyed floats fuel := by
  induction fuel with
  | zero =>
      refine ⟨?_, ?_, ?_⟩
      · intro text v rest hscan
        cases hscan
      · intro text items rest hscan
        cases hscan
      · intro text fields rest hscan
        cases hscan
  | succ fuel ih =>
      -- One more unit of fuel: a value, the items of an array and the fields of an object, each by
      -- the branches of its scanner.
      refine ⟨?_, ?_, ?_⟩
      · intro text v rest hscan
        rw [scanOnce] at hscan
        split at hscan
        next =>
          obtain ⟨found, -, heq⟩ := Option.map_eq_some_iff.mp hscan
          cases heq
          exact .string _
        split at hscan
        next =>
          split at hscan
          next =>
            cases hscan
            exact .array fun w hw => absurd hw List.not_mem_nil
          next =>
            obtain ⟨found, hfound, heq⟩ := Option.map_eq_some_iff.mp hscan
            cases heq
            exact .array (ih.items _ _ _ hfound)
        split at hscan
        next =>
          split at hscan
          next =>
            cases hscan
            exact .object List.nodup_nil fun entry hentry => absurd hentry List.not_mem_nil
          next =>
            obtain ⟨found, hfound, heq⟩ := Option.map_eq_some_iff.mp hscan
            cases heq
            -- The entries of the dictionary are among the fields that were read, and its keys are
            -- distinct whatever was read.
            refine .object (Dict.setAll Dict.empty found.1).nodup fun entry hentry => ?_
            rcases Dict.mem_of_mem_entries_setAll hentry with hnone | hentry
            · exact absurd hnone List.not_mem_nil
            · exact ih.fields _ _ _ hfound entry hentry
        next => exact keyed_of_scanScalar hfloats hscan
      · intro text items rest hscan
        rw [scanItems] at hscan
        split at hscan
        next => cases hscan
        next v behind hvalue =>
          have hv := ih.value _ _ _ hvalue
          split at hscan
          next =>
            obtain ⟨found, hfound, heq⟩ := Option.map_eq_some_iff.mp hscan
            cases heq
            intro w hw
            rcases List.mem_cons.mp hw with rfl | hw
            · exact hv
            · exact ih.items _ _ _ hfound w hw
          split at hscan
          next =>
            cases hscan
            intro w hw
            rw [List.mem_singleton.mp hw]
            exact hv
          next => cases hscan
      · intro text fields rest hscan
        rw [scanFields] at hscan
        split at hscan
        next =>
          split at hscan
          next => cases hscan
          next k behind hkey =>
            split at hscan
            next =>
              split at hscan
              next => cases hscan
              next v last hvalue =>
                have hv := ih.value _ _ _ hvalue
                split at hscan
                next =>
                  obtain ⟨found, hfound, heq⟩ := Option.map_eq_some_iff.mp hscan
                  cases heq
                  intro entry hentry
                  rcases List.mem_cons.mp hentry with rfl | hentry
                  · exact hv
                  · exact ih.fields _ _ _ hfound entry hentry
                split at hscan
                next =>
                  cases hscan
                  intro entry hentry
                  rw [List.mem_singleton.mp hentry]
                  exact hv
                next => cases hscan
            next => cases hscan
        next => cases hscan

/-- A value that was read can be written again. -/
theorem keyed_of_loads {text : Text} {v : Json F} (hloads : loads floats text = some v) :
    Keyed floats v := by
  rw [loads] at hloads
  split at hloads
  next found rest hscan =>
    split at hloads
    next =>
      cases hloads
      exact (readKeyed hfloats _).value _ _ _ hscan
    next => cases hloads
  next => cases hloads

end Read

end VisioSchema.Library.Json

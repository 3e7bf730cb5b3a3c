import VisioSchema.SessionJson.Metadata

/-!
# Maps with zeros for their last bytes

A map is a list of strings, each behind its length, keys and values in turn.  When its last bytes
turn to zero, the pairs before the tear stay, the one that it hits is read from what is left of
it, and the zeros behind read as pairs of empty strings (`TornMap`).

It goes in three stages, of which each uses the one before: a string whose last bytes are zeros
(`splitString_torn`), a pair (`TornPair`, by whether the tear hits the key or the value), and the
map, in which a place lies in one pair (`exists_pair`).
-/

namespace VisioSchema.SessionJson

open VisioSchema.Library VisioSchema.Wire

/-! ## Zeros from a place on -/

/-- Bytes with zeros from a place on. -/
def zeroed (bytes : List Byte) (kept : ℕ) : List Byte :=
  bytes.take kept ++ List.replicate (bytes.length - kept) 0

theorem length_zeroed (bytes : List Byte) (kept : ℕ) :
    (zeroed bytes kept).length = bytes.length := by
  rw [zeroed, List.length_append, List.length_take, List.length_replicate]
  omega

theorem zeroed_append (first second : List Byte) (kept : ℕ) :
    zeroed (first ++ second) kept = zeroed first kept ++ zeroed second (kept - first.length) := by
  rw [zeroed, zeroed, zeroed, List.take_append, List.length_append]
  by_cases hkept : kept ≤ first.length
  · have hsum : first.length + second.length - kept =
        (first.length - kept) + (second.length - (kept - first.length)) := by omega
    have hnone : second.take (kept - first.length) = [] := by
      rw [Nat.sub_eq_zero_of_le hkept, List.take_zero]
    rw [hnone, hsum, ← List.replicate_append_replicate, List.append_nil, List.nil_append,
      List.append_assoc]
  · have hsum : first.length + second.length - kept = second.length - (kept - first.length) := by
      omega
    have hfirst : first.length - kept = 0 := by omega
    rw [hsum, hfirst, List.replicate_zero, List.append_nil, List.append_assoc]

theorem zeroed_eq_iff (bytes : List Byte) (kept : ℕ) :
    zeroed bytes kept = bytes ↔ ∀ b ∈ bytes.drop kept, b = 0 := by
  calc zeroed bytes kept = bytes
      ↔ bytes.take kept ++ List.replicate (bytes.length - kept) 0 =
          bytes.take kept ++ bytes.drop kept := by rw [List.take_append_drop, zeroed]
    _ ↔ List.replicate (bytes.length - kept) 0 = bytes.drop kept := List.append_right_inj _
    _ ↔ ∀ b ∈ bytes.drop kept, b = 0 := by
        rw [eq_comm, List.eq_replicate_iff, List.length_drop]
        exact and_iff_right rfl

theorem zeroed_of_le {bytes : List Byte} {kept : ℕ} (hkept : bytes.length ≤ kept) :
    zeroed bytes kept = bytes := by
  rw [zeroed_eq_iff, List.drop_eq_nil_of_le hkept]
  exact fun _ hb => absurd hb List.not_mem_nil

theorem drop_zeroed {bytes : List Byte} {kept place : ℕ} (hkept : kept ≤ place) :
    (zeroed bytes kept).drop place = List.replicate (bytes.length - place) 0 := by
  rw [zeroed, List.drop_append, List.length_take, List.drop_eq_nil_of_le (by
    rw [List.length_take]
    omega), List.drop_replicate, List.nil_append]
  congr 1
  omega

/-! ## Strings -/

/-- A string behind its length. -/
def lengthed (s : List Byte) : List Byte := LittleEndian.pack 4 s.length ++ s

@[simp] theorem length_lengthed (s : List Byte) : (lengthed s).length = 4 + s.length := by
  rw [lengthed, List.length_append, LittleEndian.length_pack]

theorem splitString_lengthed {s : List Byte} (hs : s.length < 4294967296) (rest : List Byte) :
    splitString (lengthed s ++ rest) = some (s, rest) := by
  have hfour : (LittleEndian.pack 4 s.length).length = 4 := LittleEndian.length_pack ..
  have hnumber : LittleEndian.unpack (LittleEndian.pack 4 s.length) = s.length :=
    LittleEndian.unpack_pack (by simpa using hs)
  have hfirst : (lengthed s ++ rest).take 4 = LittleEndian.pack 4 s.length := by
    rw [lengthed, List.append_assoc, List.take_left' hfour]
  have hbehind : (lengthed s ++ rest).drop 4 = s ++ rest := by
    rw [lengthed, List.append_assoc, List.drop_left' hfour]
  unfold splitString
  rw [hfirst, hbehind, hnumber, List.take_left, List.drop_left, List.length_append,
    List.length_append, length_lengthed, if_neg (by omega), if_neg (by omega)]

theorem eq_of_splitString {bytes s rest : List Byte}
    (hsplit : splitString bytes = some (s, rest)) : bytes = lengthed s ++ rest := by
  unfold splitString at hsplit
  split at hsplit
  next => cases hsplit
  next hfour =>
    split at hsplit
    next => cases hsplit
    next hlength =>
      obtain ⟨hs, hrest⟩ := Prod.mk.inj (Option.some.inj hsplit)
      have hslength : s.length = LittleEndian.unpack (bytes.take 4) := by
        rw [← hs, List.length_take]
        omega
      have hpack : LittleEndian.pack 4 s.length = bytes.take 4 := by
        have hread := LittleEndian.pack_unpack (bytes.take 4)
        rwa [List.length_take, min_eq_left (not_lt.mp hfour), ← hslength] at hread
      rw [lengthed, hpack, ← hs, ← hrest, List.append_assoc, List.take_append_drop,
        List.take_append_drop]

/-- What a string with zeros for its last bytes reads as: what is left of it and zeros, or, where
the tear is in its length, zeros alone. -/
theorem splitString_torn {s : List Byte} (hs : s.length < 4294967296) {kept zeros : ℕ}
    (hkept : kept < 4 + s.length) (hzeros : 4 + s.length ≤ kept + zeros) :
    ∃ place n more, splitString ((lengthed s).take kept ++ List.replicate zeros 0) =
        some (s.take place ++ List.replicate n 0, List.replicate more 0) ∧
      (kept ≤ 4 ∧ place = 0 ∨ kept = 4 + place ∧ (s.take place).length + n = s.length) ∧
      kept + zeros ≤ 4 + s.length + more := by
  have hfour : (LittleEndian.pack 4 s.length).length = 4 := LittleEndian.length_pack ..
  by_cases hlength : kept ≤ 4
  · -- the length is torn, and the string is zeros
    let torn := (LittleEndian.pack 4 s.length).take kept ++ List.replicate (4 - kept) 0
    have htorn : torn.length = 4 := by
      rw [List.length_append, List.length_take, List.length_replicate, hfour]
      omega
    -- With its last bytes zeroed a number is not larger than before, so the zeros reach as far.
    have hle : LittleEndian.unpack torn ≤ s.length := by
      have hnumber : LittleEndian.unpack (LittleEndian.pack 4 s.length) = s.length :=
        LittleEndian.unpack_pack (by simpa using hs)
      have htornle := LittleEndian.unpack_torn_le (LittleEndian.pack 4 s.length) kept
      rwa [hfour, hnumber] at htornle
    have hpack : LittleEndian.pack 4 (LittleEndian.unpack torn) = torn := by
      have hread := LittleEndian.pack_unpack torn
      rwa [htorn] at hread
    have hbytes : (lengthed s).take kept ++ List.replicate zeros 0 =
        lengthed (List.replicate (LittleEndian.unpack torn) 0) ++
          List.replicate (kept + zeros - 4 - LittleEndian.unpack torn) 0 := by
      have hsum : zeros = (4 - kept) + (LittleEndian.unpack torn +
          (kept + zeros - 4 - LittleEndian.unpack torn)) := by omega
      have hfirst : (lengthed s).take kept = (LittleEndian.pack 4 s.length).take kept :=
        List.take_append_of_le_length (by omega)
      have hzeros' : lengthed (List.replicate (LittleEndian.unpack torn) 0) =
          torn ++ List.replicate (LittleEndian.unpack torn) 0 := by
        rw [lengthed, List.length_replicate, hpack]
      calc (lengthed s).take kept ++ List.replicate zeros 0
          = (LittleEndian.pack 4 s.length).take kept ++ List.replicate ((4 - kept) +
              (LittleEndian.unpack torn + (kept + zeros - 4 - LittleEndian.unpack torn))) 0 := by
            rw [hfirst, ← hsum]
        _ = lengthed (List.replicate (LittleEndian.unpack torn) 0) ++
              List.replicate (kept + zeros - 4 - LittleEndian.unpack torn) 0 := by
            rw [hzeros', ← List.replicate_append_replicate, ← List.replicate_append_replicate,
              List.append_assoc torn, ← List.append_assoc]
    rw [hbytes, splitString_lengthed (by rw [List.length_replicate]; omega)]
    exact ⟨0, _, _, rfl, Or.inl ⟨hlength, rfl⟩, by omega⟩
  · -- The length is whole, and the string ends in zeros.
    have hbytes : (lengthed s).take kept ++ List.replicate zeros 0 =
        lengthed (s.take (kept - 4) ++ List.replicate (4 + s.length - kept) 0) ++
          List.replicate (kept + zeros - 4 - s.length) 0 := by
      have hsum : zeros = (4 + s.length - kept) + (kept + zeros - 4 - s.length) := by omega
      have hsame : (s.take (kept - 4) ++ List.replicate (4 + s.length - kept) (0 : Byte)).length =
          s.length := by
        rw [List.length_append, List.length_take, List.length_replicate]
        omega
      have hfirst : (lengthed s).take kept = LittleEndian.pack 4 s.length ++ s.take (kept - 4) := by
        rw [lengthed, List.take_append, hfour, List.take_of_length_le (by omega)]
      rw [hfirst, lengthed, hsame, List.append_assoc, List.append_assoc, List.append_assoc,
        List.replicate_append_replicate, ← hsum]
    have hlength' : (s.take (kept - 4)).length + (4 + s.length - kept) = s.length := by
      rw [List.length_take]
      omega
    rw [hbytes, splitString_lengthed (by
      rw [List.length_append, List.length_replicate, hlength']
      exact hs)]
    exact ⟨kept - 4, _, _, rfl, Or.inr ⟨by omega, hlength'⟩, by omega⟩

theorem splitString_zeros (n : ℕ) :
    splitString (List.replicate n 0) =
      if n < 4 then none else some ([], List.replicate (n - 4) 0) := by
  by_cases hn : n < 4
  · rw [if_pos hn, splitString, List.length_replicate, if_pos hn]
  · have hbytes : List.replicate n (0 : Byte) = lengthed [] ++ List.replicate (n - 4) 0 := by
      have hempty : lengthed [] = List.replicate 4 0 := rfl
      rw [hempty, List.replicate_append_replicate]
      congr 1
      omega
    rw [if_neg hn, hbytes, splitString_lengthed (by decide)]

/-! ## Pairs -/

/-- A key and its value. -/
def pairBytes (pair : Text × Text) : List Byte :=
  lengthed (Text.encode pair.1) ++ lengthed (Text.encode pair.2)

/-- The lengths of a pair's strings are numbers of four bytes. -/
def Fits (pair : Text × Text) : Prop :=
  (Text.encode pair.1).length < 4294967296 ∧ (Text.encode pair.2).length < 4294967296

theorem length_pairBytes (pair : Text × Text) :
    (pairBytes pair).length =
      4 + (Text.encode pair.1).length + (4 + (Text.encode pair.2).length) := by
  rw [pairBytes, List.length_append, length_lengthed, length_lengthed]

theorem pairsOf_pair {pair : Text × Text} (hfits : Fits pair) (fuel : ℕ) (rest : List Byte) :
    pairsOf (fuel + 1) (pairBytes pair ++ rest) = pair :: pairsOf fuel rest := by
  rw [pairBytes, List.append_assoc, pairsOf, splitString_lengthed hfits.1]
  dsimp only
  rw [splitString_lengthed hfits.2]
  dsimp only
  rw [Text.decodeReplace_encode, Text.decodeReplace_encode]

/-- Zeros read as pairs of empty strings. -/
theorem pairsOf_zeros (fuel n : ℕ) :
    ∀ pair ∈ pairsOf fuel (List.replicate n 0), pair = ([], []) := by
  induction fuel generalizing n with
  | zero => exact fun _ hpair => absurd hpair List.not_mem_nil
  | succ fuel ih =>
      rw [pairsOf, splitString_zeros]
      split
      next => exact fun _ hpair => absurd hpair List.not_mem_nil
      next found hkey =>
        split at hkey
        next => cases hkey
        next =>
          cases hkey
          rw [splitString_zeros]
          split
          next => exact fun _ hpair => absurd hpair List.not_mem_nil
          next hvalue =>
            split at hvalue
            next => cases hvalue
            next =>
              cases hvalue
              intro pair hpair
              rcases List.mem_cons.mp hpair with rfl | hpair
              · rfl
              · exact ih _ pair hpair

/-- A torn text that reads as it was is as it was. -/
theorem torn_text {text : Text} {place n : ℕ}
    (hplace : place = 0 ∨ ((Text.encode text).take place).length + n = (Text.encode text).length)
    (hread : Text.decodeReplace ((Text.encode text).take place ++ List.replicate n 0) = text) :
    (Text.encode text).take place ++ List.replicate n 0 = Text.encode text := by
  rcases hplace with rfl | hlength
  · rw [List.take_zero, List.nil_append] at hread ⊢
    rw [Text.decodeReplace_zeros] at hread
    rw [← Text.encode_nuls, hread]
  · exact Text.torn_eq_of_decodeReplace hlength hread

/-- What a pair with zeros for its last bytes reads as. -/
structure TornPair (pair : Text × Text) (kept zeros : ℕ) (torn : Text × Text) : Prop where
  key_torn : kept < 4 + (Text.encode pair.1).length → torn.1 = [] ∨ '\x00' ∈ torn.1
  key_kept : 4 + (Text.encode pair.1).length ≤ kept → torn.1 = pair.1
  same : torn = pair →
    ∃ n, (pairBytes pair).take kept ++ List.replicate zeros 0 = pairBytes pair ++ List.replicate n 0

theorem pairsOf_tornPair {pair : Text × Text} (hfits : Fits pair) {kept zeros : ℕ}
    (hkept : kept < (pairBytes pair).length) (hzeros : (pairBytes pair).length ≤ kept + zeros)
    (fuel : ℕ) :
    ∃ torn n, TornPair pair kept zeros torn ∧
      pairsOf (fuel + 1) ((pairBytes pair).take kept ++ List.replicate zeros 0) =
        torn :: pairsOf fuel (List.replicate n 0) := by
  rw [length_pairBytes] at hkept hzeros
  by_cases hkey : kept < 4 + (Text.encode pair.1).length
  · have hbytes : (pairBytes pair).take kept = (lengthed (Text.encode pair.1)).take kept :=
      List.take_append_of_le_length (by rw [length_lengthed]; omega)
    obtain ⟨place, n, more, hsplit, hplace, hmore⟩ :=
      @splitString_torn _ hfits.1 kept zeros hkey (by omega)
    have hvalue : splitString (List.replicate more 0) =
        some ([], List.replicate (more - 4) 0) := by
      rw [splitString_zeros, if_neg (by omega)]
    refine ⟨(Text.decodeReplace ((Text.encode pair.1).take place ++ List.replicate n 0), []),
      more - 4, ⟨fun _ => ?_, fun hle => absurd hkey (not_lt.mpr hle), fun hsame => ?_⟩, ?_⟩
    · dsimp only
      rw [Text.decodeReplace_append_zeros]
      by_cases hn : n = 0
      · -- nothing is left of a key that lost no bytes: it has none
        have hnone : place = 0 := by
          rcases hplace with ⟨-, hplace⟩ | ⟨hlength, hsame⟩
          · exact hplace
          · rw [List.length_take] at hsame
            omega
        rw [hn, hnone]
        exact Or.inl rfl
      · exact Or.inr (List.mem_append_right _ (List.mem_replicate.mpr ⟨hn, rfl⟩))
    · -- the key reads as it was, and so is as it was; the value was empty
      obtain ⟨hkeySame, hvalueSame⟩ := Prod.mk.inj hsame
      have hraw := torn_text (hplace.imp And.right And.right) hkeySame
      refine ⟨more - 4, ?_⟩
      rw [hbytes, eq_of_splitString hsplit, hraw, eq_of_splitString hvalue, pairBytes,
        ← hvalueSame, List.append_assoc]
      rfl
    · rw [hbytes, pairsOf, hsplit]
      dsimp only
      rw [hvalue]
      rfl
  · have hbytes : (pairBytes pair).take kept = lengthed (Text.encode pair.1) ++
        (lengthed (Text.encode pair.2)).take (kept - (4 + (Text.encode pair.1).length)) := by
      rw [pairBytes, List.take_append, length_lengthed, List.take_of_length_le (by
        rw [length_lengthed]
        omega)]
    obtain ⟨place, n, more, hsplit, hplace, -⟩ :=
      @splitString_torn _ hfits.2 (kept - (4 + (Text.encode pair.1).length)) zeros (by omega)
        (by omega)
    refine ⟨(pair.1, Text.decodeReplace ((Text.encode pair.2).take place ++ List.replicate n 0)),
      more, ⟨fun hlt => absurd hlt hkey, fun _ => rfl, fun hsame => ?_⟩, ?_⟩
    · have hraw := torn_text (hplace.imp And.right And.right) (Prod.mk.inj hsame).2
      refine ⟨more, ?_⟩
      rw [hbytes, List.append_assoc, eq_of_splitString hsplit, hraw, pairBytes, List.append_assoc]
    · rw [hbytes, List.append_assoc, pairsOf, splitString_lengthed hfits.1]
      dsimp only
      rw [hsplit]
      dsimp only
      rw [Text.decodeReplace_encode]

/-! ## Maps -/

/-- The pairs one after the other. -/
def mapBytes (pairs : List (Text × Text)) : List Byte := pairs.flatMap pairBytes

theorem mapBytes_cons (pair : Text × Text) (rest : List (Text × Text)) :
    mapBytes (pair :: rest) = pairBytes pair ++ mapBytes rest := List.flatMap_cons

theorem length_mapBytes_append (before after : List (Text × Text)) :
    (mapBytes (before ++ after)).length = (mapBytes before).length + (mapBytes after).length := by
  rw [mapBytes, List.flatMap_append, List.length_append, mapBytes, mapBytes]

theorem length_le_mapBytes (pairs : List (Text × Text)) :
    8 * pairs.length ≤ (mapBytes pairs).length := by
  induction pairs with
  | nil => exact Nat.le_refl 0
  | cons pair rest ih =>
      rw [mapBytes_cons, List.length_append, List.length_cons, length_pairBytes]
      omega

theorem pairsOf_map {before : List (Text × Text)} (hfits : ∀ pair ∈ before, Fits pair)
    (fuel : ℕ) (rest : List Byte) :
    pairsOf (before.length + fuel) (mapBytes before ++ rest) = before ++ pairsOf fuel rest := by
  induction before with
  | nil => rw [List.length_nil, Nat.zero_add]; rfl
  | cons pair before ih =>
      have hbefore := ih fun other hother => hfits other (List.mem_cons_of_mem _ hother)
      rw [List.length_cons, Nat.add_right_comm, mapBytes_cons, List.append_assoc,
        pairsOf_pair (hfits pair (List.mem_cons_self ..)), hbefore, List.cons_append]

/-- The pair that a place of a map is in. -/
theorem exists_pair {pairs : List (Text × Text)} {kept : ℕ}
    (hkept : kept < (mapBytes pairs).length) :
    ∃ before pair after, pairs = before ++ pair :: after ∧ (mapBytes before).length ≤ kept ∧
      kept < (mapBytes before).length + (pairBytes pair).length := by
  induction pairs generalizing kept with
  | nil => exact absurd hkept (Nat.not_lt_zero kept)
  | cons pair rest ih =>
      by_cases hfirst : kept < (pairBytes pair).length
      · exact ⟨[], pair, rest, rfl, Nat.zero_le _, by rwa [mapBytes, List.flatMap_nil,
          List.length_nil, Nat.zero_add]⟩
      · rw [mapBytes_cons, List.length_append] at hkept
        obtain ⟨before, found, after, hrest, hle, hlt⟩ :=
          @ih (kept - (pairBytes pair).length) (by omega)
        refine ⟨pair :: before, found, after, by rw [hrest, List.cons_append], ?_, ?_⟩
        · rw [mapBytes_cons, List.length_append]
          omega
        · rw [mapBytes_cons, List.length_append]
          omega

/-- What a map with zeros for its last bytes reads as. -/
structure TornMap (pairs : List (Text × Text)) (kept : ℕ) (read : List (Text × Text)) where
  before : List (Text × Text)
  pair : Text × Text
  after : List (Text × Text)
  torn : Text × Text
  blanks : List (Text × Text)
  pairs_eq : pairs = before ++ pair :: after
  before_le : (mapBytes before).length ≤ kept
  pair_lt : kept < (mapBytes before).length + (pairBytes pair).length
  tornPair : TornPair pair (kept - (mapBytes before).length) ((mapBytes pairs).length - kept) torn
  blank : ∀ blank ∈ blanks, blank = ([], [])
  read_eq : read = before ++ torn :: blanks

theorem pairsOf_tornMap {pairs : List (Text × Text)} (hfits : ∀ pair ∈ pairs, Fits pair)
    {kept : ℕ} (hkept : kept < (mapBytes pairs).length) :
    Nonempty (TornMap pairs kept
      (pairsOf (mapBytes pairs).length (zeroed (mapBytes pairs) kept))) := by
  obtain ⟨before, pair, after, hpairs, hle, hlt⟩ := exists_pair hkept
  have hlength : (mapBytes pairs).length =
      (mapBytes before).length + ((pairBytes pair).length + (mapBytes after).length) := by
    rw [hpairs, length_mapBytes_append, mapBytes_cons, List.length_append]
  have htake : (mapBytes pairs).take kept =
      mapBytes before ++ (pairBytes pair).take (kept - (mapBytes before).length) := by
    have hbytes : mapBytes pairs = mapBytes before ++ (pairBytes pair ++ mapBytes after) := by
      rw [hpairs, mapBytes, List.flatMap_append, List.flatMap_cons]
      rfl
    rw [hbytes, List.take_append, List.take_of_length_le hle,
      List.take_append_of_le_length (by omega)]
  have hcount := length_le_mapBytes before
  have hpos := length_pairBytes pair
  obtain ⟨fuel, hfuel⟩ : ∃ fuel, (mapBytes pairs).length = before.length + (fuel + 1) :=
    ⟨(mapBytes pairs).length - before.length - 1, by omega⟩
  obtain ⟨torn, n, htorn, hread⟩ := @pairsOf_tornPair pair
    (hfits pair (by rw [hpairs]; exact List.mem_append_right _ (List.mem_cons_self ..)))
    (kept - (mapBytes before).length) ((mapBytes pairs).length - kept) (by omega) (by omega) fuel
  refine ⟨⟨before, pair, after, torn, pairsOf fuel (List.replicate n 0), hpairs, hle, hlt, htorn,
    pairsOf_zeros fuel n, ?_⟩⟩
  have hbefore : ∀ other ∈ before, Fits other := fun other hother =>
    hfits other (by rw [hpairs]; exact List.mem_append_left _ hother)
  calc pairsOf (mapBytes pairs).length (zeroed (mapBytes pairs) kept)
      = pairsOf (before.length + (fuel + 1)) (mapBytes before ++
          ((pairBytes pair).take (kept - (mapBytes before).length) ++
            List.replicate ((mapBytes pairs).length - kept) 0)) := by
        rw [zeroed, htake, List.append_assoc, ← hfuel]
    _ = before ++ torn :: pairsOf fuel (List.replicate n 0) := by
        rw [pairsOf_map hbefore, hread]

end VisioSchema.SessionJson

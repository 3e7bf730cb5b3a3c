import VisioSchema.SessionJson.TornMap

/-!
# Capture mappings

The device writes its mapping in the order of the keys' bytes, under the name of the capture record.
Of the required keys `start_time_unix` comes last: a mapping with zeros for its last bytes is taken
for complete exactly where that key is still there, and what is read then is another mapping unless
the zeros were there before.
-/

namespace VisioSchema.SessionJson

open VisioSchema.Library VisioSchema.Wire

/-! ## Keys -/

/-- The order of a map of byte strings. -/
def KeyBefore (first second : Text) : Prop :=
  List.Lex (fun b c : Byte => b.toNat < c.toNat) (Text.encode first) (Text.encode second)

instance (first second : Text) : Decidable (KeyBefore first second) := List.decidableLex _ _ _

theorem KeyBefore.irrefl (key : Text) : ¬KeyBefore key key :=
  List.lex_irrefl (fun b : Byte => Nat.lt_irrefl b.toNat) _

theorem KeyBefore.trans {first second third : Text} (hfirst : KeyBefore first second)
    (hsecond : KeyBefore second third) : KeyBefore first third :=
  List.lex_trans (fun h₁ h₂ => Nat.lt_trans h₁ h₂) hfirst hsecond

theorem serial_before_startTime : KeyBefore serialKey startTimeKey := by decide

theorem sessionName_before_startTime : KeyBefore sessionNameKey startTimeKey := by decide

/-- Where the first pair with a key has its key written. -/
def keyEnd (key : Text) : List (Text × Text) → ℕ
  | [] => 0
  | pair :: rest =>
      if pair.1 = key then 4 + (Text.encode key).length
      else (pairBytes pair).length + keyEnd key rest

theorem keyEnd_append_of_mem {key : Text} {before : List (Text × Text)}
    (hmem : key ∈ before.map Prod.fst) (after : List (Text × Text)) :
    keyEnd key (before ++ after) ≤ (mapBytes before).length := by
  induction before with
  | nil => exact absurd hmem List.not_mem_nil
  | cons pair before ih =>
      rw [List.cons_append, keyEnd, mapBytes_cons, List.length_append]
      split
      next hkey =>
        rw [length_pairBytes, hkey]
        omega
      next hkey =>
        have hbefore := ih ((List.mem_cons.mp hmem).resolve_left fun heq => hkey heq.symm)
        omega

theorem keyEnd_append_of_notMem {key : Text} {before : List (Text × Text)}
    (hnone : key ∉ before.map Prod.fst) (after : List (Text × Text)) :
    keyEnd key (before ++ after) = (mapBytes before).length + keyEnd key after := by
  induction before with
  | nil => exact (Nat.zero_add _).symm
  | cons pair before ih =>
      rw [List.map_cons, List.mem_cons, not_or] at hnone
      rw [List.cons_append, keyEnd, mapBytes_cons, List.length_append,
        if_neg fun heq => hnone.1 heq.symm, ih hnone.2, Nat.add_assoc]

theorem keyEnd_pos (key : Text) {pairs : List (Text × Text)} (hne : pairs ≠ []) :
    0 < keyEnd key pairs := by
  cases pairs with
  | nil => exact absurd rfl hne
  | cons pair rest =>
      have hlength := length_pairBytes pair
      rw [keyEnd]
      split <;> omega

/-- A mapping as the device writes it. -/
structure CaptureMapping where
  pairs : List (Text × Text)
  sorted : pairs.Pairwise fun first second => KeyBefore first.1 second.1
  required : ∀ key ∈ requiredKeys, key ∈ pairs.map Prod.fst
  size_lt : (mapBytes pairs).length < 4294967296

namespace CaptureMapping

variable (mapping : CaptureMapping)

theorem nodup : (mapping.pairs.map Prod.fst).Nodup := by
  refine List.pairwise_map.mpr (mapping.sorted.imp ?_)
  intro first second hbefore heq
  exact KeyBefore.irrefl first.1 (by rwa [← heq] at hbefore)

/-- The mapping as it is read. -/
def kv : Dict Text Text := ⟨mapping.pairs, mapping.nodup⟩

theorem fits {pair : Text × Text} (hpair : pair ∈ mapping.pairs) : Fits pair := by
  obtain ⟨before, after, hpairs⟩ := List.append_of_mem hpair
  have hsize := mapping.size_lt
  rw [hpairs, length_mapBytes_append, mapBytes_cons, List.length_append, length_pairBytes] at hsize
  exact ⟨by omega, by omega⟩

theorem setAll_pairs : Dict.empty.setAll mapping.pairs = mapping.kv := by
  have hentries : (Dict.empty.setAll mapping.pairs).entries = mapping.pairs :=
    Dict.entries_setAll mapping.nodup
  cases hread : Dict.empty.setAll mapping.pairs with
  | mk entries hnodup =>
      rw [hread] at hentries
      dsimp only at hentries
      subst hentries
      rfl

theorem pairs_ne_nil : mapping.pairs ≠ [] := by
  intro hnone
  have hserial := mapping.required serialKey (by decide)
  rw [hnone] at hserial
  exact List.not_mem_nil hserial

/-! ## Torn mappings -/

theorem complete_iff {kv : Dict Text Text} :
    complete kv = true ↔ ∀ key ∈ requiredKeys, key ∈ kv.keys := by
  rw [complete, Bool.and_eq_true, List.all_eq_true]
  constructor
  · rintro ⟨-, hall⟩ key hkey
    exact of_decide_eq_true (hall key hkey)
  · intro hall
    refine ⟨decide_eq_true fun hnone => ?_, fun key hkey => decide_eq_true (hall key hkey)⟩
    have hserial := hall serialKey (by decide)
    rw [Dict.keys, hnone] at hserial
    exact absurd hserial List.not_mem_nil

theorem mem_keys_torn {before blanks : List (Text × Text)} {torn : Text × Text}
    (hblank : ∀ blank ∈ blanks, blank = (([], []) : Text × Text)) {key : Text} (hne : key ≠ []) :
    key ∈ (Dict.empty.setAll (before ++ torn :: blanks)).keys ↔
      key ∈ before.map Prod.fst ∨ key = torn.1 := by
  have hempty : key ∉ (Dict.empty : Dict Text Text).keys := List.not_mem_nil
  have hblanks : key ∉ blanks.map Prod.fst := by
    intro hmem
    obtain ⟨blank, hmem, hkey⟩ := List.mem_map.mp hmem
    rw [hblank blank hmem] at hkey
    exact hne hkey.symm
  rw [Dict.mem_keys_setAll, List.map_append, List.map_cons, List.mem_append, List.mem_cons]
  tauto

theorem keyBefore_of_split {before after : List (Text × Text)} {pair : Text × Text}
    (hpairs : mapping.pairs = before ++ pair :: after) :
    (∀ key ∈ before.map Prod.fst, KeyBefore key pair.1) ∧
      ∀ key ∈ after.map Prod.fst, KeyBefore pair.1 key := by
  have hsorted := mapping.sorted
  rw [hpairs, List.pairwise_append, List.pairwise_cons] at hsorted
  obtain ⟨-, ⟨hafter, -⟩, hbefore⟩ := hsorted
  constructor
  · intro key hkey
    obtain ⟨other, hother, rfl⟩ := List.mem_map.mp hkey
    exact hbefore other hother pair (List.mem_cons_self ..)
  · intro key hkey
    obtain ⟨other, hother, rfl⟩ := List.mem_map.mp hkey
    exact hafter other hother

/-- A torn key is no required one. -/
theorem torn_ne_required {key torn : Text} (hkey : key ∈ requiredKeys)
    (htorn : torn = [] ∨ '\x00' ∈ torn) : key ≠ torn := by
  have hnul : ∀ key ∈ requiredKeys, key ≠ [] ∧ '\x00' ∉ key := by decide
  rintro rfl
  rcases htorn with hempty | hmem
  · exact (hnul _ hkey).1 hempty
  · exact (hnul _ hkey).2 hmem

theorem ne_nil_of_required {key : Text} (hkey : key ∈ requiredKeys) : key ≠ [] :=
  torn_ne_required hkey (Or.inl rfl)

variable {mapping} {kept : ℕ} {read : List (Text × Text)}

/-- The pair that the tear hits is not before `start_time_unix`, once that key is written. -/
theorem startTime_le (htorn : TornMap mapping.pairs kept read)
    (hend : keyEnd startTimeKey mapping.pairs ≤ kept) :
    startTimeKey ∈ htorn.before.map Prod.fst ∨
      startTimeKey = htorn.pair.1 ∧
        4 + (Text.encode htorn.pair.1).length ≤ kept - (mapBytes htorn.before).length := by
  by_cases hbefore : startTimeKey ∈ htorn.before.map Prod.fst
  · exact Or.inl hbefore
  · have hlt := htorn.pair_lt
    rw [htorn.pairs_eq, keyEnd_append_of_notMem hbefore, keyEnd] at hend
    split at hend
    next hkey =>
      rw [hkey]
      exact Or.inr ⟨rfl, by omega⟩
    next => omega

/-- The required keys come before the pair that the tear hits, or are its key. -/
theorem required_le (htorn : TornMap mapping.pairs kept read)
    (hend : keyEnd startTimeKey mapping.pairs ≤ kept) {key : Text} (hkey : key ∈ requiredKeys) :
    key ∈ htorn.before.map Prod.fst ∨ key = htorn.torn.1 := by
  obtain ⟨hbefore, hafter⟩ := mapping.keyBefore_of_split htorn.pairs_eq
  have hlast : key = startTimeKey ∨ KeyBefore key startTimeKey := by
    rcases List.mem_cons.mp hkey with rfl | hkey
    · exact Or.inr serial_before_startTime
    · rcases List.mem_cons.mp hkey with rfl | hkey
      · exact Or.inr sessionName_before_startTime
      · exact Or.inl (List.mem_singleton.mp hkey)
  have hmem := mapping.required key hkey
  rw [htorn.pairs_eq, List.map_append, List.map_cons, List.mem_append, List.mem_cons] at hmem
  rcases startTime_le htorn hend with hstart | ⟨hstart, hkept⟩
  · -- the key of the pair that is hit comes after the required ones
    have hpair := hbefore startTimeKey hstart
    have hle : KeyBefore key htorn.pair.1 := by
      rcases hlast with rfl | hlast
      · exact hpair
      · exact hlast.trans hpair
    rcases hmem with hmem | rfl | hmem
    · exact Or.inl hmem
    · exact absurd hle (KeyBefore.irrefl _)
    · exact absurd (hle.trans (hafter key hmem)) (KeyBefore.irrefl _)
  · rw [htorn.tornPair.key_kept hkept]
    rcases hmem with hmem | hmem | hmem
    · exact Or.inl hmem
    · exact Or.inr hmem
    · have hmore := hafter key hmem
      rw [← hstart] at hmore
      rcases hlast with rfl | hlast
      · exact absurd hmore (KeyBefore.irrefl _)
      · exact absurd (hlast.trans hmore) (KeyBefore.irrefl _)

/-- A torn mapping is taken for complete exactly where the last required key is still there. -/
theorem complete_torn_iff (htorn : TornMap mapping.pairs kept read) :
    complete (Dict.empty.setAll read) = true ↔ keyEnd startTimeKey mapping.pairs ≤ kept := by
  rw [complete_iff, htorn.read_eq]
  constructor
  · intro hall
    have hstart := (mem_keys_torn htorn.blank (ne_nil_of_required (by decide))).mp
      (hall startTimeKey (by decide))
    rcases hstart with hbefore | htornkey
    · rw [htorn.pairs_eq]
      exact (keyEnd_append_of_mem hbefore _).trans htorn.before_le
    · by_cases hkey : kept - (mapBytes htorn.before).length <
          4 + (Text.encode htorn.pair.1).length
      · exact absurd htornkey
          (torn_ne_required (by decide) (htorn.tornPair.key_torn hkey))
      · -- the pair that is hit is the one with the key, and its key is whole
        have hpair := htorn.tornPair.key_kept (not_lt.mp hkey)
        have hle := htorn.before_le
        rw [hpair] at htornkey
        have hnone : startTimeKey ∉ htorn.before.map Prod.fst := by
          intro hmem
          have hbefore := (mapping.keyBefore_of_split htorn.pairs_eq).1 _ hmem
          rw [htornkey] at hbefore
          exact KeyBefore.irrefl _ hbefore
        rw [htorn.pairs_eq, keyEnd_append_of_notMem hnone, keyEnd, if_pos htornkey.symm, htornkey]
        omega
  · intro hend key hkey
    rw [mem_keys_torn htorn.blank (ne_nil_of_required hkey)]
    exact required_le htorn hend hkey

theorem pair_ne_nil (htorn : TornMap mapping.pairs kept read)
    (hend : keyEnd startTimeKey mapping.pairs ≤ kept) : htorn.pair.1 ≠ [] := by
  intro hempty
  rcases startTime_le htorn hend with hstart | ⟨hstart, -⟩
  · have hlt := (mapping.keyBefore_of_split htorn.pairs_eq).1 startTimeKey hstart
    rw [hempty] at hlt
    exact List.not_lex_nil hlt
  · exact absurd (hstart.trans hempty) (by decide)

/-- A torn mapping that is taken for complete and reads as it was ends with the pair that the tear
hits, and that pair reads as it was. -/
theorem torn_eq_pair (htorn : TornMap mapping.pairs kept read)
    (hend : keyEnd startTimeKey mapping.pairs ≤ kept)
    (hsame : (Dict.empty.setAll read).Same mapping.kv) :
    htorn.after = [] ∧ htorn.torn = htorn.pair := by
  obtain ⟨hbefore, hafter⟩ := mapping.keyBefore_of_split htorn.pairs_eq
  have hpairNe := pair_ne_nil htorn hend
  have hpairs : ∀ pair ∈ htorn.before ++ htorn.pair :: htorn.after, pair ∈ mapping.pairs := by
    intro pair hpair
    rwa [htorn.pairs_eq]
  have hread : ∀ entry, entry ∈ read ↔ entry ∈ htorn.before ++ htorn.torn :: htorn.blanks := by
    intro entry
    rw [← htorn.read_eq]
  have hkeys : ∀ pair ∈ mapping.pairs, pair.1 ≠ [] →
      pair.1 ∈ htorn.before.map Prod.fst ∨ pair.1 = htorn.torn.1 := by
    intro pair hpair hne
    rw [← mem_keys_torn htorn.blank hne, ← htorn.read_eq, Dict.mem_keys_iff, hsame pair.1,
      ← Dict.mem_keys_iff]
    exact List.mem_map_of_mem hpair
  have hpairMem := hpairs _ (List.mem_append_right _ (List.mem_cons_self ..))
  have hpairKey : htorn.pair.1 = htorn.torn.1 :=
    (hkeys _ hpairMem hpairNe).resolve_left fun hmem => KeyBefore.irrefl _ (hbefore _ hmem)
  constructor
  · -- a key behind the pair would be read nowhere
    by_contra hne
    obtain ⟨other, hother⟩ := List.exists_mem_of_ne_nil _ hne
    have hlt := hafter _ (List.mem_map_of_mem (f := Prod.fst) hother)
    have hotherNe : other.1 ≠ [] := by
      intro hempty
      rw [hempty] at hlt
      exact List.not_lex_nil hlt
    have hotherMem := hpairs _ (List.mem_append_right _ (List.mem_cons_of_mem _ hother))
    rcases hkeys _ hotherMem hotherNe with hmem | hmem
    · exact KeyBefore.irrefl _ ((hbefore _ hmem).trans hlt)
    · rw [hmem, ← hpairKey] at hlt
      exact KeyBefore.irrefl _ hlt
  · have hvalue : ∃ v, (Dict.empty.setAll read).get htorn.pair.1 = some v ∧ v = htorn.torn.2 := by
      refine Dict.exists_get_setAll ?_ (Or.inl ?_)
      · intro entry hentry hkey
        rw [hread, List.mem_append, List.mem_cons] at hentry
        rcases hentry with hentry | rfl | hentry
        · have hlt := hbefore _ (List.mem_map_of_mem (f := Prod.fst) hentry)
          rw [hkey] at hlt
          exact absurd hlt (KeyBefore.irrefl _)
        · rfl
        · rw [htorn.blank entry hentry] at hkey
          exact absurd hkey.symm hpairNe
      · rw [hpairKey]
        exact List.mem_map_of_mem ((hread _).mpr
          (List.mem_append_right _ (List.mem_cons_self ..)))
    obtain ⟨v, hget, rfl⟩ := hvalue
    have hwas : mapping.kv.get htorn.pair.1 = some htorn.pair.2 :=
      Dict.get_eq_some_iff.mpr hpairMem
    rw [hsame, hwas] at hget
    exact Prod.ext hpairKey.symm (Option.some.inj hget).symm

/-- A torn mapping that is taken for complete and reads as it was has lost nothing. -/
theorem eq_of_same (htorn : TornMap mapping.pairs kept read)
    (hend : keyEnd startTimeKey mapping.pairs ≤ kept)
    (hsame : (Dict.empty.setAll read).Same mapping.kv) :
    zeroed (mapBytes mapping.pairs) kept = mapBytes mapping.pairs := by
  obtain ⟨hafter, htornPair⟩ := torn_eq_pair htorn hend hsame
  obtain ⟨n, hbytes⟩ := htorn.tornPair.same htornPair
  have hle := htorn.before_le
  have hlt := htorn.pair_lt
  have hmap : mapBytes mapping.pairs = mapBytes htorn.before ++ pairBytes htorn.pair := by
    have hpairs := congrArg mapBytes htorn.pairs_eq
    rwa [hafter, mapBytes, mapBytes, List.flatMap_append, List.flatMap_singleton] at hpairs
  have htake : (mapBytes mapping.pairs).take kept = mapBytes htorn.before ++
      (pairBytes htorn.pair).take (kept - (mapBytes htorn.before).length) := by
    rw [hmap, List.take_append, List.take_of_length_le hle]
  have htornBytes : zeroed (mapBytes mapping.pairs) kept =
      mapBytes mapping.pairs ++ List.replicate n 0 := by
    rw [zeroed, htake, List.append_assoc, hbytes, ← List.append_assoc, ← hmap]
  have hn : n = 0 := by
    have hlength := congrArg List.length htornBytes
    rw [length_zeroed, List.length_append, List.length_replicate] at hlength
    omega
  rw [htornBytes, hn, List.replicate_zero, List.append_nil]

end CaptureMapping

end VisioSchema.SessionJson

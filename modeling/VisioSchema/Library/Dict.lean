import Mathlib.Data.List.Nodup

/-!
# Dictionaries

A dictionary keeps its entries in the order in which their keys were first inserted: a key that is
set again keeps its place.  Two dictionaries are equal when they give the same value for every key,
in whatever order they hold them.
-/

namespace VisioSchema.Library

/-- An insertion-ordered dictionary. -/
structure Dict (κ α : Type*) where
  entries : List (κ × α)
  nodup : (entries.map Prod.fst).Nodup

namespace Dict

variable {κ α : Type*}

/-- The keys, in order. -/
def keys (d : Dict κ α) : List κ := d.entries.map Prod.fst

/-- `{}`. -/
def empty : Dict κ α := ⟨[], List.nodup_nil⟩

/-- The entries that a test keeps. -/
def filter (keep : κ × α → Bool) (d : Dict κ α) : Dict κ α where
  entries := d.entries.filter keep
  nodup := d.nodup.sublist ((List.filter_sublist).map Prod.fst)

/-- The values, changed in place. -/
def mapValues {β : Type*} (f : κ → α → β) (d : Dict κ α) : Dict κ β where
  entries := d.entries.map fun entry => (entry.1, f entry.1 entry.2)
  nodup := by
    rw [List.map_map]
    exact d.nodup

variable [DecidableEq κ]

/-- The value of the first entry with a key. -/
def lookup (k : κ) (entries : List (κ × α)) : Option α := entries.lookup k

/-- `d.get(k)`. -/
def get (d : Dict κ α) (k : κ) : Option α := lookup k d.entries

/-- The entries with a key set: in its place, or at the end. -/
def setEntry (k : κ) (v : α) : List (κ × α) → List (κ × α)
  | [] => [(k, v)]
  | entry :: rest => if entry.1 = k then (k, v) :: rest else entry :: setEntry k v rest

/-- The same dictionaries: every key has the same value in both. -/
def Same (d e : Dict κ α) : Prop := ∀ k, d.get k = e.get k

/-! ## Looking up -/

theorem lookup_nil (k : κ) : lookup k ([] : List (κ × α)) = none := rfl

theorem lookup_cons (entry : κ × α) (rest : List (κ × α)) (k : κ) :
    lookup k (entry :: rest) = if k = entry.1 then some entry.2 else lookup k rest := by
  rw [lookup, lookup, List.lookup_cons]
  by_cases hk : k = entry.1
  · rw [if_pos hk, beq_iff_eq.mpr hk]
  · rw [if_neg hk, beq_eq_false_iff_ne.mpr hk]

theorem lookup_append (first second : List (κ × α)) (k : κ) :
    lookup k (first ++ second) = (lookup k first).or (lookup k second) := List.lookup_append

theorem get_eq_some_iff {d : Dict κ α} {k : κ} {v : α} :
    d.get k = some v ↔ (k, v) ∈ d.entries := by
  obtain ⟨entries, hnodup⟩ := d
  rw [get]
  dsimp only
  induction entries with
  | nil => simp [lookup_nil]
  | cons entry rest ih =>
      obtain ⟨key, value⟩ := entry
      rw [List.map_cons, List.nodup_cons] at hnodup
      rw [lookup_cons, List.mem_cons, Prod.mk.injEq]
      by_cases hk : k = key
      · subst hk
        have hnot : (k, v) ∉ rest := by
          intro hmem
          exact hnodup.1 (List.mem_map.mpr ⟨(k, v), hmem, rfl⟩)
        simp [hnot, eq_comm]
      · rw [if_neg hk, ih hnodup.2]
        simp [hk]

theorem get_eq_none_iff {d : Dict κ α} {k : κ} : d.get k = none ↔ k ∉ d.keys := by
  rw [get, lookup, List.lookup_eq_none_iff, keys, List.mem_map]
  constructor
  · rintro hnone ⟨entry, hmem, heq⟩
    exact bne_iff_ne.mp (hnone entry hmem) heq.symm
  · intro hnot entry hmem
    exact bne_iff_ne.mpr fun heq => hnot ⟨entry, hmem, heq.symm⟩

theorem mem_keys_iff {d : Dict κ α} {k : κ} : k ∈ d.keys ↔ ∃ v, d.get k = some v := by
  rw [← Option.ne_none_iff_exists', ne_eq, get_eq_none_iff, not_not]

theorem get_filter {d : Dict κ α} (keep : κ × α → Bool) (k : κ) :
    (d.filter keep).get k = (d.get k).filter fun v => keep (k, v) := by
  apply Option.ext
  intro v
  rw [get_eq_some_iff, filter, List.mem_filter, Option.filter_eq_some_iff, get_eq_some_iff]

theorem get_mapValues {β : Type*} {d : Dict κ α} (f : κ → α → β) (k : κ) :
    (d.mapValues f).get k = (d.get k).map (f k) := by
  apply Option.ext
  intro v
  rw [get_eq_some_iff, mapValues, List.mem_map, Option.map_eq_some_iff]
  constructor
  · rintro ⟨entry, hmem, heq⟩
    obtain ⟨rfl, rfl⟩ := Prod.mk.inj heq
    exact ⟨entry.2, get_eq_some_iff.mpr hmem, rfl⟩
  · rintro ⟨w, hget, rfl⟩
    exact ⟨(k, w), get_eq_some_iff.mp hget, rfl⟩

/-! ## Setting -/

theorem map_fst_setEntry (k : κ) (v : α) (entries : List (κ × α)) :
    (setEntry k v entries).map Prod.fst =
      if k ∈ entries.map Prod.fst then entries.map Prod.fst else entries.map Prod.fst ++ [k] := by
  induction entries with
  | nil => rfl
  | cons entry rest ih =>
      rw [setEntry]
      by_cases hk : entry.1 = k
      · simp [hk]
      · rw [if_neg hk, List.map_cons, ih]
        by_cases hmem : k ∈ rest.map Prod.fst
        · rw [if_pos hmem, List.map_cons, if_pos (List.mem_cons_of_mem _ hmem)]
        · rw [if_neg hmem, List.map_cons, if_neg, List.cons_append]
          rw [List.mem_cons, not_or]
          exact ⟨Ne.symm hk, hmem⟩

/-- `d[k] = v`. -/
def set (d : Dict κ α) (k : κ) (v : α) : Dict κ α where
  entries := setEntry k v d.entries
  nodup := by
    rw [map_fst_setEntry]
    split
    case isTrue => exact d.nodup
    case isFalse hnot =>
      exact List.nodup_append.mpr ⟨d.nodup, List.nodup_singleton k, by
        rintro a ha b hb rfl
        exact hnot (List.mem_singleton.mp hb ▸ ha)⟩

theorem keys_set (d : Dict κ α) (k : κ) (v : α) :
    (d.set k v).keys = if k ∈ d.keys then d.keys else d.keys ++ [k] :=
  map_fst_setEntry k v d.entries

theorem lookup_setEntry (k : κ) (v : α) (entries : List (κ × α)) (key : κ) :
    lookup key (setEntry k v entries) = if key = k then some v else lookup key entries := by
  induction entries with
  | nil => rw [setEntry, lookup_cons]
  | cons entry rest ih =>
      rw [setEntry, lookup_cons]
      by_cases hentry : entry.1 = k
      · rw [if_pos hentry, lookup_cons, hentry]
        by_cases hkey : key = k
        · rw [if_pos hkey, if_pos hkey]
        · rw [if_neg hkey, if_neg hkey, if_neg hkey]
      · rw [if_neg hentry, lookup_cons, ih]
        by_cases hkey : key = k
        · rw [if_pos hkey, if_neg (by rw [hkey]; exact Ne.symm hentry), if_pos hkey]
        · rw [if_neg hkey, if_neg hkey]

theorem get_set (d : Dict κ α) (k : κ) (v : α) (key : κ) :
    (d.set k v).get key = if key = k then some v else d.get key :=
  lookup_setEntry k v d.entries key

/-- A new key comes last. -/
theorem entries_set {d : Dict κ α} {k : κ} (hnew : k ∉ d.keys) (v : α) :
    (d.set k v).entries = d.entries ++ [(k, v)] := by
  obtain ⟨entries, hnodup⟩ := d
  rw [keys] at hnew
  dsimp only [set] at hnew ⊢
  clear hnodup
  induction entries with
  | nil => rfl
  | cons entry rest ih =>
      rw [List.map_cons, List.mem_cons, not_or] at hnew
      rw [setEntry, if_neg (Ne.symm hnew.1), ih hnew.2, List.cons_append]

/-- The entries set one after the other, `d.update(…)`. -/
def setAll (d : Dict κ α) (entries : List (κ × α)) : Dict κ α :=
  entries.foldl (fun d entry => d.set entry.1 entry.2) d

/-- New keys come last, in their order. -/
theorem entries_setAll {entries : List (κ × α)} {d : Dict κ α}
    (hnew : (d.keys ++ entries.map Prod.fst).Nodup) :
    (d.setAll entries).entries = d.entries ++ entries := by
  induction entries generalizing d with
  | nil => rw [List.append_nil]; rfl
  | cons entry rest ih =>
      rw [List.map_cons] at hnew
      have hnot : entry.1 ∉ d.keys := fun hmem =>
        (List.disjoint_of_nodup_append hnew hmem) (List.mem_cons_self ..)
      have hkeys : (d.set entry.1 entry.2).keys = d.keys ++ [entry.1] := by
        rw [keys_set, if_neg hnot]
      have hrest := ih (d := d.set entry.1 entry.2)
        (by rw [hkeys, List.append_assoc]; exact hnew)
      rw [entries_set hnot, List.append_assoc] at hrest
      exact hrest

theorem setAll_append (d : Dict κ α) (first second : List (κ × α)) :
    d.setAll (first ++ second) = (d.setAll first).setAll second := List.foldl_append

theorem mem_keys_setAll {d : Dict κ α} {entries : List (κ × α)} {k : κ} :
    k ∈ (d.setAll entries).keys ↔ k ∈ d.keys ∨ k ∈ entries.map Prod.fst := by
  induction entries generalizing d with
  | nil => simp [setAll]
  | cons entry rest ih =>
      have hset : k ∈ (d.set entry.1 entry.2).keys ↔ k = entry.1 ∨ k ∈ d.keys := by
        rw [mem_keys_iff, get_set]
        by_cases hk : k = entry.1
        · simp [hk]
        · rw [if_neg hk, ← mem_keys_iff]
          simp [hk]
      have hstep : d.setAll (entry :: rest) = (d.set entry.1 entry.2).setAll rest := rfl
      rw [hstep, ih, hset, List.map_cons, List.mem_cons]
      tauto

/-- What holds of every value that a key is set to holds of the last. -/
theorem exists_get_setAll {P : α → Prop} {entries : List (κ × α)} {d : Dict κ α} {k : κ}
    (hentries : ∀ entry ∈ entries, entry.1 = k → P entry.2)
    (hk : k ∈ entries.map Prod.fst ∨ ∃ v, d.get k = some v ∧ P v) :
    ∃ v, (d.setAll entries).get k = some v ∧ P v := by
  induction entries generalizing d with
  | nil => exact hk.resolve_left List.not_mem_nil
  | cons entry rest ih =>
      refine ih (d := d.set entry.1 entry.2)
        (fun other hmem => hentries other (List.mem_cons_of_mem _ hmem)) ?_
      rw [get_set]
      by_cases hkey : k = entry.1
      · rw [if_pos hkey]
        exact .inr ⟨entry.2, rfl, hentries entry (List.mem_cons_self ..) hkey.symm⟩
      · rw [if_neg hkey]
        rw [List.map_cons, List.mem_cons] at hk
        exact hk.imp_left fun hmem => hmem.resolve_left hkey

theorem mem_of_mem_entries_setAll {entries : List (κ × α)} {d : Dict κ α} {entry : κ × α}
    (hmem : entry ∈ (d.setAll entries).entries) : entry ∈ d.entries ∨ entry ∈ entries := by
  induction entries generalizing d with
  | nil => exact .inl hmem
  | cons first rest ih =>
      rcases ih (d := d.set first.1 first.2) hmem with hset | hrest
      · obtain ⟨k, v⟩ := entry
        have hget := get_eq_some_iff.mpr hset
        rw [get_set] at hget
        split at hget
        case isTrue hk =>
          rw [hk, ← Option.some.inj hget]
          exact .inr (List.mem_cons_self ..)
        case isFalse => exact .inl (get_eq_some_iff.mp hget)
      · exact .inr (List.mem_cons_of_mem _ hrest)

end Dict

end VisioSchema.Library

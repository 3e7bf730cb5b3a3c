import VisioSchema.Ingest.Signing
import VisioSchema.Library.Delimited
import VisioSchema.Library.Sorting

/-!
# What a content digest covers

The text that `content_digest` hashes is read back line by line, since no name holds a newline, and
each line field by field, since no name and no MD5 holds a colon.  The names order the lines, so
that lists of entries with distinct names have the same text exactly when they are permutations of
each other (`manifestLines_eq_iff_perm`).
-/

namespace VisioSchema.Ingest

open VisioSchema.Library

/-! ## Lines -/

/-- A line without its newline. -/
def lineBody (entry : ManifestEntry) : Text :=
  entry.name ++ ':' :: (Text.decimal entry.size.toNat ++ ':' :: entry.md5)

theorem manifestLine_eq (entry : ManifestEntry) :
    manifestLine entry = lineBody entry ++ ['\n'] := by
  simp [manifestLine, lineBody]

/-- What is checked of an entry. -/
structure Digestible (entry : ManifestEntry) : Prop where
  colon : ':' ∉ entry.name
  newline : '\n' ∉ entry.name
  size : 0 ≤ entry.size
  md5 : ∀ c ∈ entry.md5, lowerHex c = true

theorem digestible_of_eq_true {entry : ManifestEntry} (h : digestible entry = true) :
    Digestible entry := by
  rw [digestible, Bool.and_eq_true, Bool.not_eq_true', Bool.or_eq_false_iff,
    decide_eq_false_iff_not, Int.not_lt, List.any_eq_false] at h
  obtain ⟨⟨hname, hsize⟩, hmd5⟩ := h
  refine ⟨fun hmem => hname _ hmem rfl, fun hmem => hname _ hmem rfl, hsize, ?_⟩
  intro c hc
  rw [Bool.or_eq_true, Bool.and_eq_true, List.all_eq_true] at hmd5
  rcases hmd5 with hempty | hhex
  · rw [List.isEmpty_iff.mp hempty] at hc
    cases hc
  · exact hhex.2 c hc

theorem decimal_free {n : ℕ} {c : Char} (hc : c.isDigit = false) : c ∉ Text.decimal n := by
  intro hmem
  rw [Text.isDigit_of_mem_decimal hmem] at hc
  cases hc

theorem newline_not_mem_lineBody {entry : ManifestEntry} (hentry : Digestible entry) :
    '\n' ∉ lineBody entry := by
  have hmd5 : '\n' ∉ entry.md5 := fun hmem => absurd (hentry.md5 _ hmem) (by decide)
  have hsize : '\n' ∉ Text.decimal entry.size.toNat := decimal_free rfl
  rw [lineBody, List.mem_append, List.mem_cons, List.mem_append, List.mem_cons]
  rintro (hname | hcolon | hdigit | hcolon | hhex)
  · exact hentry.newline hname
  · exact absurd hcolon (by decide)
  · exact hsize hdigit
  · exact absurd hcolon (by decide)
  · exact hmd5 hhex

/-- The fields of a line are read back. -/
theorem lineBody_inj {entry other : ManifestEntry} (hentry : Digestible entry)
    (hother : Digestible other) (heq : lineBody entry = lineBody other) : entry = other := by
  have hcolon (n : ℕ) : ':' ∉ Text.decimal n := decimal_free rfl
  have hname : entry.name = other.name := by
    have hsplit := congrArg (Delimited.split ':') heq
    rw [lineBody, lineBody, Delimited.split_run hentry.colon, Delimited.split_run hother.colon]
      at hsplit
    exact (List.cons.inj (Prod.mk.inj hsplit).1).1
  rw [lineBody, lineBody, hname] at heq
  have hrest := (List.cons.inj (List.append_cancel_left heq)).2
  have hsize : entry.size = other.size := by
    have hsplit := congrArg (Delimited.split ':') hrest
    rw [Delimited.split_run (hcolon _), Delimited.split_run (hcolon _)] at hsplit
    have hnat := Text.decimal_injective (List.cons.inj (Prod.mk.inj hsplit).1).1
    have := hentry.size
    have := hother.size
    omega
  rw [hsize] at hrest
  have hmd5 := (List.cons.inj (List.append_cancel_left hrest)).2
  cases entry
  cases other
  simp_all

/-! ## Texts -/

/-- The lines of a text are read back. -/
theorem split_lines {entries : List ManifestEntry} (hentries : ∀ e ∈ entries, Digestible e) :
    Delimited.split '\n' (entries.flatMap manifestLine) = (entries.map lineBody, []) := by
  induction entries with
  | nil => rfl
  | cons entry entries ih =>
      have hfree := newline_not_mem_lineBody (hentries entry (List.mem_cons_self ..))
      rw [List.flatMap_cons, manifestLine_eq, List.append_assoc, List.singleton_append,
        Delimited.split_run hfree, ih fun e he => hentries e (List.mem_cons_of_mem _ he)]
      rfl

theorem flatMap_manifestLine_inj {entries others : List ManifestEntry}
    (hentries : ∀ e ∈ entries, Digestible e) (hothers : ∀ e ∈ others, Digestible e)
    (heq : entries.flatMap manifestLine = others.flatMap manifestLine) : entries = others := by
  have hlines : entries.map lineBody = others.map lineBody := by
    have hsplit := congrArg (Delimited.split '\n') heq
    rw [split_lines hentries, split_lines hothers] at hsplit
    exact (Prod.mk.inj hsplit).1
  clear heq
  induction entries generalizing others with
  | nil => exact (List.map_eq_nil_iff.mp hlines.symm).symm
  | cons entry entries ih =>
      cases others with
      | nil => cases hlines
      | cons other others =>
          obtain ⟨hline, hrest⟩ := List.cons.inj hlines
          rw [lineBody_inj (hentries entry (List.mem_cons_self ..))
              (hothers other (List.mem_cons_self ..)) hline,
            ih (fun e he => hentries e (List.mem_cons_of_mem _ he))
              (fun e he => hothers e (List.mem_cons_of_mem _ he)) hrest]

theorem nameBytes_inj {entry other : ManifestEntry} (heq : nameBytes entry = nameBytes other) :
    entry.name = other.name :=
  Text.encode_injective (List.map_injective_iff.mpr (fun _ _ h => UInt8.toNat_inj.mp h) heq)

theorem manifestLines_eq_some_iff {parts : List ManifestEntry} {text : Text} :
    manifestLines parts = some text ↔ (∀ e ∈ parts, digestible e = true) ∧
      (parts.insertionSort fun p q => nameBytes p ≤ nameBytes q).flatMap manifestLine = text := by
  rw [manifestLines]
  by_cases hall : parts.all digestible
  · rw [if_pos hall, Option.some.injEq]
    exact (and_iff_right (List.all_eq_true.mp hall)).symm
  · rw [if_neg hall]
    simp only [reduceCtorEq, false_iff, not_and]
    exact fun h => absurd (List.all_eq_true.mpr h) hall

/-- Lists that are digested, one of them with distinct names, have the same text exactly when they
are permutations of each other. -/
theorem manifestLines_eq_iff_perm {parts others : List ManifestEntry}
    (hparts : (parts.map ManifestEntry.name).Nodup) {text text' : Text}
    (htext : manifestLines parts = some text) (htext' : manifestLines others = some text') :
    text = text' ↔ parts.Perm others := by
  obtain ⟨hdigest, rfl⟩ := manifestLines_eq_some_iff.mp htext
  obtain ⟨hdigest', rfl⟩ := manifestLines_eq_some_iff.mp htext'
  have hsorted := List.perm_insertionSort (fun p q => nameBytes p ≤ nameBytes q)
  constructor
  · intro heq
    have hlists := flatMap_manifestLine_inj
      (fun e he => digestible_of_eq_true (hdigest e ((hsorted parts).mem_iff.mp he)))
      (fun e he => digestible_of_eq_true (hdigest' e ((hsorted others).mem_iff.mp he))) heq
    calc parts.Perm (parts.insertionSort fun p q => nameBytes p ≤ nameBytes q) :=
          (hsorted parts).symm
      List.Perm _ (others.insertionSort fun p q => nameBytes p ≤ nameBytes q) :=
          List.Perm.of_eq hlists
      List.Perm _ others := hsorted others
  · intro hperm
    rw [sorted_eq_of_perm _ hperm]
    intro a ha b hb heq
    exact List.inj_on_of_nodup_map hparts ha hb (nameBytes_inj heq)

/-- A part named `a` and one named `a2`, in both orders. -/
theorem manifestLines_eq_iff_perm_swap :
    (['a', ':', '1', ':', '\n', 'a', '2', ':', '0', ':', '\n'] =
        ['a', ':', '1', ':', '\n', 'a', '2', ':', '0', ':', '\n'] ↔
      [(⟨['a'], 1, []⟩ : ManifestEntry), ⟨['a', '2'], 0, []⟩].Perm
        [⟨['a', '2'], 0, []⟩, ⟨['a'], 1, []⟩]) :=
  manifestLines_eq_iff_perm (by decide) (by decide) (by decide)

end VisioSchema.Ingest

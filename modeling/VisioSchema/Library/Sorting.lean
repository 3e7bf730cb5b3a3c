import Mathlib.Data.List.Lex
import Mathlib.Data.List.Pairwise
import Mathlib.Data.List.Sort

/-!
# Sorting by a key

Items are sorted by what a key says of them.  Where the key tells the items apart, the sorted list
depends on what is sorted alone, and not on the order it comes in.
-/

namespace VisioSchema.Library

variable {α β : Type*} [LinearOrder β] {key : α → β} [DecidableRel fun a b : α => key a ≤ key b]

theorem pairwise_sorted (items : List α) :
    (items.insertionSort fun a b => key a ≤ key b).Pairwise fun a b => key a ≤ key b := by
  have : Std.Total fun a b : α => key a ≤ key b := ⟨fun a b => le_total (key a) (key b)⟩
  have : IsTrans α fun a b : α => key a ≤ key b := ⟨fun a b c hab hbc => le_trans hab hbc⟩
  exact List.pairwise_insertionSort _ items

/-- Items that the key tells apart are sorted alike in whatever order they come. -/
theorem sorted_eq_of_perm {first second : List α}
    (hkey : ∀ a ∈ first, ∀ b ∈ first, key a = key b → a = b) (hperm : first.Perm second) :
    (first.insertionSort fun a b => key a ≤ key b) =
      second.insertionSort fun a b => key a ≤ key b := by
  have hfirst := List.perm_insertionSort (fun a b : α => key a ≤ key b) first
  have hsecond := List.perm_insertionSort (fun a b : α => key a ≤ key b) second
  refine List.Perm.eq_of_pairwise ?_ (pairwise_sorted first) (pairwise_sorted second)
    (hfirst.trans (hperm.trans hsecond.symm))
  intro a b ha hb hab hba
  exact hkey a (hfirst.mem_iff.mp ha) b (hperm.mem_iff.mpr (hsecond.mem_iff.mp hb))
    (le_antisymm hab hba)

omit [DecidableRel fun a b : α => key a ≤ key b] in
/-- Items in order of a key are those of any permutation in which the key increases. -/
theorem eq_of_perm_of_increasing {first second : List α} (hperm : first.Perm second)
    (hordered : first.Pairwise fun a b => key a ≤ key b)
    (hincreasing : second.Pairwise fun a b => key a < key b) : first = second := by
  refine List.Perm.eq_of_pairwise ?_ hordered (hincreasing.imp le_of_lt) hperm
  intro a b ha hb hab hba
  have hkeys : second.Pairwise fun a b => key a ≠ key b := hincreasing.imp ne_of_lt
  have : Std.Symm fun a b : α => key a ≠ key b := ⟨fun a b => Ne.symm⟩
  by_contra hne
  exact hkeys.forall (hperm.mem_iff.mp ha) hb hne (le_antisymm hab hba)

section Relations

variable {r r' : α → α → Prop} [DecidableRel r] [DecidableRel r']

/-- Relations that agree on a list sort it alike. -/
theorem insertionSort_congr {items : List α}
    (hsame : ∀ a ∈ items, ∀ b ∈ items, (r a b ↔ r' a b)) :
    items.insertionSort r = items.insertionSort r' := by
  have hinsert : ∀ (a : α) (l : List α), (∀ b ∈ l, (r a b ↔ r' a b)) →
      l.orderedInsert r a = l.orderedInsert r' a := by
    intro a l
    induction l with
    | nil => exact fun _ => rfl
    | cons b rest ih =>
        intro hl
        have hfirst := hl b (List.mem_cons_self ..)
        have hrest := ih fun c hc => hl c (List.mem_cons_of_mem b hc)
        simp only [List.orderedInsert, hfirst, hrest]
  induction items with
  | nil => rfl
  | cons a rest ih =>
      have hrest := ih fun b hb c hc =>
        hsame b (List.mem_cons_of_mem a hb) c (List.mem_cons_of_mem a hc)
      rw [List.insertionSort_cons, List.insertionSort_cons, hrest]
      refine hinsert a _ fun b hb => hsame a (List.mem_cons_self ..) b ?_
      exact List.mem_cons_of_mem a ((List.mem_insertionSort r').mp hb)

end Relations

/-- Lists are permutations of each other if they are among the items of each key. -/
theorem perm_of_filter_key {α κ : Type*} [DecidableEq κ] (key : α → κ) {first second : List α}
    (hkeys : ∀ k, (first.filter fun a => key a = k).Perm (second.filter fun a => key a = k)) :
    first.Perm second := by
  classical
  refine List.perm_iff_count.mpr fun a => ?_
  have hcount : ∀ items : List α,
      (items.filter fun b => key b = key a).count a = items.count a := fun items =>
    List.count_filter (decide_eq_true rfl)
  rw [← hcount first, ← hcount second]
  exact (hkeys (key a)).count_eq a

end VisioSchema.Library

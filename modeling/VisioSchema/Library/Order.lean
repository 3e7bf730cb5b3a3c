import Mathlib.Data.List.Perm.Basic

/-!
# Order by key

Two lists that hold the same items, and those of one key in the same order: what a
store keeps that delays some keys and lets others pass.
-/

namespace VisioSchema.Library

variable {α κ μ : Type*} [DecidableEq κ] [DecidableEq μ]

/-- For every key the two lists hold the same items in the same order. -/
def SameOrder (key : α → κ) (first second : List α) : Prop :=
  ∀ k, first.filter (fun x => key x = k) = second.filter fun x => key x = k

namespace SameOrder

variable {key : α → κ} {first second held : List α}

theorem refl (key : α → κ) (items : List α) : SameOrder key items items := fun _ => rfl

/-- The same item comes last in both. -/
theorem push (horder : SameOrder key first second) (x : α) :
    SameOrder key (first ++ [x]) (second ++ [x]) := by
  intro k
  rw [List.filter_append, List.filter_append, horder k]

/-- An item may pass the items that are held back, where none of them has its key. -/
theorem pass (horder : SameOrder key (first ++ held) second) {x : α}
    (hother : ∀ y ∈ held, key y ≠ key x) :
    SameOrder key (first ++ [x] ++ held) (second ++ [x]) := by
  intro k
  have hk := horder k
  rw [List.filter_append] at hk
  rw [List.filter_append, List.filter_append, List.filter_append]
  by_cases hkey : key x = k
  · have hnone : held.filter (fun y => key y = k) = [] := by
      refine List.filter_eq_nil_iff.mpr fun y hy => ?_
      simpa [← hkey] using hother y hy
    rw [hnone, List.append_nil] at hk
    rw [hnone, List.append_nil, hk]
  · have hskip : [x].filter (fun y => key y = k) = [] := by simp [hkey]
    rw [hskip, List.append_nil, List.append_nil, hk]

/-- A key that tells more apart. -/
theorem finer {finerKey : α → μ} (horder : SameOrder key first second)
    (hfiner : ∀ x y, finerKey x = finerKey y → key x = key y) :
    SameOrder finerKey first second := by
  intro m
  by_cases hsome : ∃ x, finerKey x = m
  · obtain ⟨x, rfl⟩ := hsome
    have hsplit : ∀ items : List α, items.filter (fun y => finerKey y = finerKey x) =
        (items.filter fun y => key y = key x).filter fun y => finerKey y = finerKey x := by
      intro items
      rw [List.filter_filter]
      refine List.filter_congr fun y _ => ?_
      by_cases hsame : finerKey y = finerKey x
      · simp [hsame, hfiner y x hsame]
      · simp [hsame]
    rw [hsplit first, hsplit second, horder (key x)]
  · have hnone : ∀ items : List α, items.filter (fun y => finerKey y = m) = [] := by
      intro items
      refine List.filter_eq_nil_iff.mpr fun y _ hy => hsome ⟨y, ?_⟩
      simpa using hy
    rw [hnone, hnone]

/-- The items are the same, with the same multiplicities. -/
theorem perm [DecidableEq α] (horder : SameOrder key first second) : first.Perm second := by
  refine List.perm_iff_count.mpr fun x => ?_
  have hcount : ∀ items : List α,
      items.count x = (items.filter fun y => key y = key x).count x := by
    intro items
    rw [List.count_filter (by simp)]
  rw [hcount first, hcount second, horder (key x)]

end SameOrder

end VisioSchema.Library

import Mathlib.Data.List.Basic
import Mathlib.Data.List.Pairwise
import Mathlib.Data.List.TakeWhile
import Mathlib.Order.Lattice

/-!
# Lists in order of time

Lists whose elements carry a time, in increasing order of it.  The part before a time and the
part from it on are found by `takeWhile` and `dropWhile`, as a binary search finds them; on an
ordered list these are filters.
-/

namespace VisioSchema.Library

variable {α : Type*}

/-! ## Splitting an ordered list -/

/-- On a list that a predicate splits, the longest front is everything it holds of. -/
theorem takeWhile_eq_filter {p : α → Bool} {l : List α}
    (hsplit : l.Pairwise fun a b => p b = true → p a = true) : l.takeWhile p = l.filter p := by
  induction l with
  | nil => rfl
  | cons a rest ih =>
      obtain ⟨hfirst, hrest⟩ := List.pairwise_cons.mp hsplit
      cases hp : p a with
      | true => simp [hp, ih hrest]
      | false =>
          have hnone : ∀ b ∈ rest, p b = false := by
            intro b hb
            by_contra hyes
            rw [hfirst b hb (by simpa using hyes)] at hp
            cases hp
          simpa [hp] using hnone

theorem dropWhile_eq_filter {p : α → Bool} {l : List α}
    (hsplit : l.Pairwise fun a b => p b = true → p a = true) :
    l.dropWhile p = l.filter fun a => !p a := by
  induction l with
  | nil => rfl
  | cons a rest ih =>
      obtain ⟨hfirst, hrest⟩ := List.pairwise_cons.mp hsplit
      cases hp : p a with
      | true => simp [hp, ih hrest]
      | false =>
          have hnone : ∀ b ∈ rest, (!p b) = true := by
            intro b hb
            by_contra hyes
            rw [hfirst b hb (by simpa using hyes)] at hp
            cases hp
          simp only [List.dropWhile_cons, hp, Bool.false_eq_true, if_false, List.filter_cons,
            Bool.not_false, if_true]
          rw [List.filter_eq_self.mpr hnone]

/-- A window of a list splits where the list does, if the list splits in the window. -/
theorem split_window {p : α → Bool} {lost kept future : List α} (hlost : ∀ a ∈ lost, p a = true)
    (hstops : kept.dropWhile p ≠ [] ∨ future = []) :
    (lost ++ kept ++ future).takeWhile p = lost ++ kept.takeWhile p ∧
      (lost ++ kept ++ future).dropWhile p = kept.dropWhile p ++ future := by
  rw [List.append_assoc, List.takeWhile_append_of_pos hlost, List.dropWhile_append_of_pos hlost]
  rcases hstops with hstops | rfl
  · have hshort : (kept.takeWhile p).length ≠ kept.length := by
      intro hwhole
      have hlengths := congrArg List.length (List.takeWhile_append_dropWhile (p := p) (l := kept))
      rw [List.length_append] at hlengths
      exact hstops (List.length_eq_zero_iff.mp (by omega))
    have hempty : (kept.dropWhile p).isEmpty = false := List.isEmpty_eq_false_iff.mpr hstops
    rw [List.takeWhile_append, if_neg hshort, List.dropWhile_append, hempty]
    exact ⟨rfl, rfl⟩
  · simp

section Time

variable {τ : Type*} [LinearOrder τ] (time : α → τ)

/-- The list is in strictly increasing order of time. -/
def InOrder (l : List α) : Prop := l.Pairwise fun a b => time a < time b

/-- An element at its place; it replaces one of the same time. -/
def insertAt (e : α) (l : List α) : List α :=
  let before := l.takeWhile fun a => decide (time a ≤ time e)
  let after := l.dropWhile fun a => decide (time a ≤ time e)
  match before.getLast? with
  | some last =>
      if time last = time e then before.dropLast ++ e :: after else before ++ e :: after
  | none => before ++ e :: after

/-- The elements from a time on. -/
def dropBefore (t : τ) (l : List α) : List α := l.dropWhile fun a => decide (time a < t)

variable {time} {l : List α}

theorem InOrder.split_le (hl : InOrder time l) (t : τ) :
    l.Pairwise fun a b => decide (time b ≤ t) = true → decide (time a ≤ t) = true := by
  refine hl.imp fun hab hb => ?_
  simp only [decide_eq_true_eq] at hb ⊢
  exact hab.le.trans hb

theorem InOrder.split_lt (hl : InOrder time l) (t : τ) :
    l.Pairwise fun a b => decide (time b < t) = true → decide (time a < t) = true := by
  refine hl.imp fun hab hb => ?_
  simp only [decide_eq_true_eq] at hb ⊢
  exact hab.trans hb

theorem InOrder.mem_dropBefore (hl : InOrder time l) {t : τ} {a : α} :
    a ∈ dropBefore time t l ↔ a ∈ l ∧ t ≤ time a := by
  rw [dropBefore, dropWhile_eq_filter (hl.split_lt t)]
  simp

theorem InOrder.mem_takeBefore (hl : InOrder time l) {t : τ} {a : α} :
    a ∈ (l.takeWhile fun b => decide (time b < t)) ↔ a ∈ l ∧ time a < t := by
  rw [takeWhile_eq_filter (hl.split_lt t)]
  simp

theorem InOrder.dropBefore (hl : InOrder time l) (t : τ) : InOrder time (dropBefore time t l) :=
  hl.sublist (List.dropWhile_sublist _)

/-- What an insertion does to an ordered list. -/
theorem InOrder.insertAt_eq (hl : InOrder time l) (e : α) :
    ∃ front same after, l = front ++ same ++ after ∧ insertAt time e l = front ++ e :: after ∧
      (∀ a ∈ front, time a < time e) ∧ (∀ a ∈ same, time a = time e) ∧
      ∀ a ∈ after, time e < time a := by
  have hwhole := List.takeWhile_append_dropWhile (p := fun a => decide (time a ≤ time e)) (l := l)
  have hbefore : ∀ a ∈ l.takeWhile (fun a => decide (time a ≤ time e)), time a ≤ time e :=
    fun a ha => by simpa using List.mem_takeWhile_imp ha
  have hafter : ∀ a ∈ l.dropWhile (fun a => decide (time a ≤ time e)), time e < time a := by
    intro a ha
    rw [dropWhile_eq_filter (hl.split_le _)] at ha
    simpa using (List.mem_filter.mp ha).2
  have horder : InOrder time (l.takeWhile fun a => decide (time a ≤ time e)) :=
    hl.sublist (List.takeWhile_sublist _)
  unfold insertAt
  dsimp only
  generalize l.takeWhile (fun a => decide (time a ≤ time e)) = before at *
  generalize l.dropWhile (fun a => decide (time a ≤ time e)) = after at *
  cases hlast : before.getLast? with
  | none =>
      have hempty : before = [] := List.getLast?_eq_none_iff.mp hlast
      subst hempty
      exact ⟨[], [], after, hwhole.symm, rfl, by simp, by simp, hafter⟩
  | some last =>
      have hsplit : before.dropLast ++ [last] = before := List.dropLast_append_getLast? last hlast
      have hfront : ∀ a ∈ before.dropLast, time a < time last := by
        intro a ha
        rw [← hsplit, InOrder, List.pairwise_append] at horder
        exact horder.2.2 a ha last (List.mem_singleton_self _)
      dsimp only
      by_cases hsame : time last = time e
      · rw [if_pos hsame]
        refine ⟨before.dropLast, [last], after, by rw [hsplit, hwhole], rfl, ?_, ?_, hafter⟩
        · intro a ha
          rw [← hsame]
          exact hfront a ha
        · simpa using hsame
      · rw [if_neg hsame]
        refine ⟨before, [], after, by rw [List.append_nil, hwhole], rfl, ?_, by simp, hafter⟩
        have hless : time last < time e := by
          refine lt_of_le_of_ne (hbefore last ?_) hsame
          rw [← hsplit]
          simp
        intro a ha
        rw [← hsplit] at ha
        rcases List.mem_append.mp ha with hold | hend
        · exact (hfront a hold).trans hless
        · rw [List.mem_singleton.mp hend]
          exact hless

theorem InOrder.mem_insertAt (hl : InOrder time l) {e a : α} :
    a ∈ insertAt time e l ↔ a = e ∨ a ∈ l ∧ time a ≠ time e := by
  obtain ⟨front, same, after, rfl, hinsert, hfront, hsame, hafter⟩ := hl.insertAt_eq e
  rw [hinsert]
  simp only [List.mem_append, List.mem_cons]
  constructor
  · rintro (ha | rfl | ha)
    · exact Or.inr ⟨Or.inl (Or.inl ha), (hfront a ha).ne⟩
    · exact Or.inl rfl
    · exact Or.inr ⟨Or.inr ha, (hafter a ha).ne'⟩
  · rintro (rfl | ⟨(ha | ha) | ha, hne⟩)
    · exact Or.inr (Or.inl rfl)
    · exact Or.inl ha
    · exact absurd (hsame a ha) hne
    · exact Or.inr (Or.inr ha)

theorem InOrder.insertAt (hl : InOrder time l) (e : α) : InOrder time (insertAt time e l) := by
  obtain ⟨front, same, after, rfl, hinsert, hfront, -, hafter⟩ := hl.insertAt_eq e
  rw [hinsert]
  rw [InOrder, List.pairwise_append, List.pairwise_append] at hl
  refine List.pairwise_append.mpr ⟨hl.1.1, List.pairwise_cons.mpr ⟨hafter, hl.2.1⟩, ?_⟩
  intro a ha b hb
  rcases List.mem_cons.mp hb with rfl | hb
  · exact hfront a ha
  · exact (hfront a ha).trans (hafter b hb)

/-- The first element of an ordered list is the oldest. -/
theorem InOrder.head_le (hl : InOrder time l) {first a : α} (hfirst : l.head? = some first)
    (ha : a ∈ l) : time first ≤ time a := by
  cases l with
  | nil => cases ha
  | cons b rest =>
      obtain rfl : b = first := by simpa using hfirst
      rcases List.mem_cons.mp ha with rfl | hrest
      · exact le_refl _
      · exact ((List.pairwise_cons.mp hl).1 a hrest).le

/-- The last element of an ordered list is the newest. -/
theorem InOrder.le_getLast (hl : InOrder time l) {last a : α} (hlast : l.getLast? = some last)
    (ha : a ∈ l) : time a ≤ time last := by
  have hsplit : l.dropLast ++ [last] = l := List.dropLast_append_getLast? last hlast
  rw [← hsplit] at ha hl
  rcases List.mem_append.mp ha with hold | hend
  · exact ((List.pairwise_append.mp hl).2.2 a hold last (List.mem_singleton_self _)).le
  · rw [List.mem_singleton.mp hend]

/-- Ordered lists with the same elements are equal. -/
theorem InOrder.ext {other : List α} (hl : InOrder time l) (hother : InOrder time other)
    (hsame : ∀ a, a ∈ l ↔ a ∈ other) : l = other := by
  refine List.Perm.eq_of_pairwise (fun a b _ _ hab hba => absurd hab hba.not_gt) hl hother ?_
  refine (List.perm_ext_iff_of_nodup ?_ ?_).mpr hsame
  · exact hl.imp fun hab heq => (heq ▸ hab).false
  · exact hother.imp fun hab heq => (heq ▸ hab).false

end Time

end VisioSchema.Library

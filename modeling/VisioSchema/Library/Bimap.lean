import Mathlib.Logic.Function.Basic

/-!
# Two maps that invert each other

A table of entries under keys, together with an index from the entries' labels
back to the keys.  `MutuallyInverse` says that the index is exact; the lemmas say
which updates of the two maps keep it so.
-/

namespace VisioSchema.Library

variable {α κ ν : Type*} {byName : α → Option κ} {byKey : κ → Option ν} {label : ν → α}

/-- `a` names `k` exactly when the entry under `k` is labelled `a`. -/
def MutuallyInverse (byName : α → Option κ) (byKey : κ → Option ν) (label : ν → α) : Prop :=
  ∀ a k, byName a = some k ↔ ∃ v, byKey k = some v ∧ label v = a

namespace MutuallyInverse

theorem empty : MutuallyInverse (fun _ => none : α → Option κ) (fun _ => none) label := by
  intro a k
  simp

/-- Two names of one key are equal. -/
theorem name_unique (hinv : MutuallyInverse byName byKey label) {a b : α} {k : κ}
    (ha : byName a = some k) (hb : byName b = some k) : a = b := by
  obtain ⟨v, hv, rfl⟩ := (hinv a k).mp ha
  obtain ⟨w, hw, rfl⟩ := (hinv b k).mp hb
  have hsame : v = w := Option.some.inj (hv.symm.trans hw)
  rw [hsame]

/-- A label that no entry carries names nothing. -/
theorem unnamed (hinv : MutuallyInverse byName byKey label) {a : α}
    (habsent : ∀ k v, byKey k = some v → label v ≠ a) : byName a = none := by
  cases hname : byName a with
  | none => rfl
  | some k =>
      obtain ⟨v, hv, hlabel⟩ := (hinv a k).mp hname
      exact absurd hlabel (habsent k v hv)

variable [DecidableEq α] [DecidableEq κ]

/-- Binding a key to an entry keeps the index exact when neither the key nor the
label is in use for anything else. -/
theorem insert (hinv : MutuallyInverse byName byKey label) {k : κ} {v : ν}
    (hkey : ∀ old, byKey k = some old → label old = label v)
    (hname : ∀ j, byName (label v) = some j → j = k) :
    MutuallyInverse (Function.update byName (label v) (some k))
      (Function.update byKey k (some v)) label := by
  intro a j
  by_cases ha : a = label v <;> by_cases hj : j = k
  · subst ha hj
    simp
  · subst ha
    simp only [Function.update_self, Function.update_of_ne hj, Option.some.injEq]
    constructor
    · rintro rfl
      exact absurd rfl hj
    · rintro hentry
      exact absurd (hname j ((hinv _ _).mpr hentry)) hj
  · subst hj
    simp only [Function.update_self, Function.update_of_ne ha, Option.some.injEq]
    constructor
    · intro hold
      obtain ⟨old, hentry, rfl⟩ := (hinv _ _).mp hold
      exact absurd (hkey old hentry) ha
    · rintro ⟨w, rfl, hlabel⟩
      exact absurd hlabel.symm ha
  · rw [Function.update_of_ne ha, Function.update_of_ne hj]
    exact hinv a j

/-- Removing an entry together with its name keeps the index exact. -/
theorem erase (hinv : MutuallyInverse byName byKey label) {k : κ} {v : ν}
    (hentry : byKey k = some v) :
    MutuallyInverse (Function.update byName (label v) none) (Function.update byKey k none)
      label := by
  intro a j
  by_cases ha : a = label v <;> by_cases hj : j = k
  · subst ha hj
    simp
  · subst ha
    simp only [Function.update_self, Function.update_of_ne hj, reduceCtorEq, false_iff]
    rintro ⟨w, hw, hlabel⟩
    -- a second entry with this label would be a second value of the index
    have hfirst : byName (label v) = some k := (hinv _ _).mpr ⟨v, hentry, rfl⟩
    have hsecond : byName (label v) = some j := (hinv _ _).mpr ⟨w, hw, hlabel⟩
    exact hj (Option.some.inj (hsecond.symm.trans hfirst))
  · subst hj
    simp only [Function.update_self, Function.update_of_ne ha, reduceCtorEq, false_and,
      exists_false, iff_false]
    intro hname
    exact ha (hinv.name_unique hname ((hinv _ _).mpr ⟨v, hentry, rfl⟩))
  · rw [Function.update_of_ne ha, Function.update_of_ne hj]
    exact hinv a j

end MutuallyInverse

end VisioSchema.Library

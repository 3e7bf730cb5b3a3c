import Mathlib.Algebra.Order.Archimedean.Basic
import VisioSchema.Library.Runs

/-!
# Endless runs

A machine that is fed an endless script has a state before every step.  Two facts end such runs:
a count that never falls and is bounded stays where it is from some step on, and a place whose
visits lie a fixed time apart is not visited for ever before a deadline.
-/

namespace VisioSchema.Library

variable {σ ι : Type*}

/-- The state before step `k` of an endless run. -/
def stateAt (step : σ → ι → σ) (s : σ) (script : ℕ → ι) : ℕ → σ
  | 0 => s
  | k + 1 => step (stateAt step s script k) (script k)

/-- The first `k` inputs of a script. -/
def inputsBefore (script : ℕ → ι) (k : ℕ) : List ι := (List.range k).map script

theorem stateAt_eq_foldl (step : σ → ι → σ) (s : σ) (script : ℕ → ι) (k : ℕ) :
    stateAt step s script k = (inputsBefore script k).foldl step s := by
  induction k with
  | zero => rfl
  | succ k ih => simp [stateAt, inputsBefore, List.range_succ, ih]

/-- A property that no step loses is kept from then on. -/
theorem stateAt_persists {step : σ → ι → σ} {s : σ} {script : ℕ → ι} {P : σ → Prop}
    (hstep : ∀ s i, P s → P (step s i)) {k j : ℕ} (hkj : k ≤ j)
    (hk : P (stateAt step s script k)) : P (stateAt step s script j) := by
  induction j, hkj using Nat.le_induction with
  | base => exact hk
  | succ j _ ih => exact hstep _ _ ih

/-- A bounded count that never falls stays where it is from some step on. -/
theorem eventually_constant {f : ℕ → ℕ} {bound start : ℕ}
    (hmono : ∀ k, start ≤ k → f k ≤ f (k + 1)) (hbound : ∀ k, start ≤ k → f k ≤ bound) :
    ∃ N, start ≤ N ∧ ∀ k, N ≤ k → f k = f N := by
  induction hgap : bound - f start using Nat.strong_induction_on generalizing start with
  | _ gap ih =>
      by_cases hconst : ∀ k, start ≤ k → f k = f start
      · exact ⟨start, Nat.le_refl _, hconst⟩
      simp only [not_forall] at hconst
      obtain ⟨k, hk, hne⟩ := hconst
      have hle : f start ≤ f k := by
        induction k, hk using Nat.le_induction with
        | base => exact Nat.le_refl _
        | succ j hj ihj =>
            by_cases hsame : f j = f start
            · exact hsame ▸ hmono j hj
            · exact Nat.le_trans (ihj hsame) (hmono j hj)
      have hupper := hbound k hk
      obtain ⟨N, hN, hstays⟩ := ih (bound - f k) (by omega)
        (fun j hj => hmono j (Nat.le_trans hk hj)) (fun j hj => hbound j (Nat.le_trans hk hj)) rfl
      exact ⟨N, Nat.le_trans hk hN, hstays⟩

/-- The first step after `i` at which something holds that holds at some step after it. -/
theorem exists_first_after {P : ℕ → Prop} {i : ℕ} (hlater : ∃ j, i < j ∧ P j) :
    ∃ j, i < j ∧ P j ∧ ∀ k, i < k → k < j → ¬ P k := by
  classical
  refine ⟨Nat.find hlater, (Nat.find_spec hlater).1, (Nat.find_spec hlater).2, ?_⟩
  intro k hik hkj hP
  exact Nat.find_min hlater hkj ⟨hik, hP⟩

/-- A place each visit to which is followed by another, a fixed time later, is visited past every
limit. -/
theorem no_visit {T : Type*} [AddCommGroup T] [LinearOrder T] [IsOrderedAddMonoid T]
    [Archimedean T] {V : ℕ → Prop} {clock : ℕ → T} {ε limit : T} (hε : 0 < ε)
    (hlimit : ∀ k, V k → clock k ≤ limit)
    (hnext : ∀ k, V k → ∃ j, V j ∧ clock k + ε ≤ clock j) (k : ℕ) : ¬ V k := by
  intro hk
  have hlater : ∀ m : ℕ, ∃ j, V j ∧ clock k + m • ε ≤ clock j := by
    intro m
    induction m with
    | zero => exact ⟨k, hk, by simp⟩
    | succ m ih =>
        obtain ⟨j, hj, hclock⟩ := ih
        obtain ⟨j', hj', hclock'⟩ := hnext j hj
        refine ⟨j', hj', le_trans ?_ hclock'⟩
        rw [succ_nsmul, ← add_assoc]
        exact add_le_add_left hclock ε
  obtain ⟨m, hm⟩ := Archimedean.arch (limit - clock k + ε) hε
  obtain ⟨j, hj, hclock⟩ := hlater m
  have hpast : limit + ε ≤ limit := by
    calc limit + ε = clock k + (limit - clock k + ε) := by abel
      _ ≤ clock k + m • ε := add_le_add_right hm _
      _ ≤ clock j := hclock
      _ ≤ limit := hlimit j hj
  exact absurd hpast (not_le.mpr (lt_add_of_pos_right limit hε))

end VisioSchema.Library

import Mathlib.Data.List.Basic
import Mathlib.Data.List.Infix

/-!
# Runs of a deterministic machine

A machine is a function `step : σ → ι → σ`; a run feeds it a list of inputs with
`List.foldl`.  Everything nondeterministic about the world (what a call
answers, which thread moves next) is in the inputs, so a statement about every
input list is a statement about every interleaving.

Three rules are used by every development built on this file:

* `run_invariant`: what every step keeps, every run keeps;
* `run_invariant_along`: the same for runs all of whose steps meet a condition
  on the state *before* the step (`Along`);
* `run_simulation`: two machines that agree step by step agree run by run.
-/

namespace VisioSchema.Library

variable {σ τ ι : Type*}

/-- The states a run visits, the first and the last included. -/
def visited (step : σ → ι → σ) : σ → List ι → List σ
  | s, [] => [s]
  | s, i :: rest => s :: visited step (step s i) rest

/-- Every step of the run is taken from a state, on an input, that meets `C`. -/
def Along (step : σ → ι → σ) (C : σ → ι → Prop) : σ → List ι → Prop
  | _, [] => True
  | s, i :: rest => C s i ∧ Along step C (step s i) rest

/-- The states the machine can be in after some run from `init`. -/
def Reachable (step : σ → ι → σ) (init : σ) (s : σ) : Prop :=
  ∃ inputs : List ι, inputs.foldl step init = s

/-- How many steps of the run are taken from a state, on an input, that meets `P`. -/
def tally (step : σ → ι → σ) (P : σ → ι → Bool) : σ → List ι → ℕ
  | _, [] => 0
  | s, i :: rest => (P s i).toNat + tally step P (step s i) rest

instance decidableAlong (step : σ → ι → σ) (C : σ → ι → Prop) [∀ s i, Decidable (C s i)] :
    ∀ s inputs, Decidable (Along step C s inputs)
  | _, [] => .isTrue trivial
  | s, i :: rest =>
      have := decidableAlong step C (step s i) rest
      inferInstanceAs (Decidable (C s i ∧ Along step C (step s i) rest))

section Rules

variable {step : σ → ι → σ} {C : σ → ι → Prop}

@[simp] theorem visited_nil (s : σ) : visited step s [] = [s] := rfl

@[simp] theorem visited_cons (s : σ) (i : ι) (rest : List ι) :
    visited step s (i :: rest) = s :: visited step (step s i) rest := rfl

@[simp] theorem along_nil (s : σ) : Along step C s [] := trivial

@[simp] theorem along_cons (s : σ) (i : ι) (rest : List ι) :
    Along step C s (i :: rest) ↔ C s i ∧ Along step C (step s i) rest := Iff.rfl

theorem along_append (s : σ) (first second : List ι) :
    Along step C s (first ++ second) ↔
      Along step C s first ∧ Along step C (first.foldl step s) second := by
  induction first generalizing s with
  | nil => simp
  | cons i rest ih => simp [ih, and_assoc]

theorem Along.mono {D : σ → ι → Prop} (himp : ∀ s i, C s i → D s i) {s : σ} {inputs : List ι}
    (halong : Along step C s inputs) : Along step D s inputs := by
  induction inputs generalizing s with
  | nil => trivial
  | cons i rest ih => exact ⟨himp _ _ halong.1, ih halong.2⟩

theorem along_and {D : σ → ι → Prop} {s : σ} {inputs : List ι} (hfirst : Along step C s inputs)
    (hsecond : Along step D s inputs) : Along step (fun s i => C s i ∧ D s i) s inputs := by
  induction inputs generalizing s with
  | nil => trivial
  | cons i rest ih => exact ⟨⟨hfirst.1, hsecond.1⟩, ih hfirst.2 hsecond.2⟩

/-- A condition that the inputs alone decide. -/
theorem along_of_mem {inputs : List ι} (hall : ∀ i ∈ inputs, ∀ s, C s i) (s : σ) :
    Along step C s inputs := by
  induction inputs generalizing s with
  | nil => trivial
  | cons i rest ih =>
      exact ⟨hall i (List.mem_cons_self ..) s,
        ih (fun j hj => hall j (List.mem_cons_of_mem _ hj)) _⟩

theorem mem_visited_self (s : σ) (inputs : List ι) : s ∈ visited step s inputs := by
  cases inputs <;> simp

theorem mem_visited_last (s : σ) (inputs : List ι) :
    inputs.foldl step s ∈ visited step s inputs := by
  induction inputs generalizing s with
  | nil => simp
  | cons i rest ih => exact List.mem_cons_of_mem _ (ih _)

/-- A visited state is the last state of a prefix of the run. -/
theorem mem_visited_iff {s t : σ} {inputs : List ι} :
    t ∈ visited step s inputs ↔ ∃ front, front <+: inputs ∧ front.foldl step s = t := by
  induction inputs generalizing s with
  | nil => simp [eq_comm]
  | cons i rest ih =>
      rw [visited_cons, List.mem_cons, ih]
      constructor
      · rintro (rfl | ⟨front, hprefix, rfl⟩)
        · exact ⟨[], List.nil_prefix, rfl⟩
        · exact ⟨i :: front, List.cons_prefix_cons.mpr ⟨rfl, hprefix⟩, rfl⟩
      · rintro ⟨front, hprefix, rfl⟩
        cases front with
        | nil => exact Or.inl rfl
        | cons j front =>
            obtain ⟨rfl, hrest⟩ := List.cons_prefix_cons.mp hprefix
            exact Or.inr ⟨front, hrest, rfl⟩

/-- What every step keeps, every run keeps. -/
theorem run_invariant {I : σ → Prop} (hstep : ∀ s i, I s → I (step s i)) {s : σ} (hs : I s)
    (inputs : List ι) : I (inputs.foldl step s) := by
  induction inputs generalizing s with
  | nil => exact hs
  | cons i rest ih => exact ih (hstep s i hs)

/-- The invariant rule for runs whose steps all meet a condition. -/
theorem run_invariant_along {I : σ → Prop} (hstep : ∀ s i, I s → C s i → I (step s i)) {s : σ}
    (hs : I s) {inputs : List ι} (halong : Along step C s inputs) :
    I (inputs.foldl step s) := by
  induction inputs generalizing s with
  | nil => exact hs
  | cons i rest ih => exact ih (hstep s i hs halong.1) halong.2

theorem visited_invariant_along {I : σ → Prop} (hstep : ∀ s i, I s → C s i → I (step s i))
    {s : σ} (hs : I s) {inputs : List ι} (halong : Along step C s inputs) :
    ∀ t ∈ visited step s inputs, I t := by
  induction inputs generalizing s with
  | nil => simpa using hs
  | cons i rest ih =>
      intro t ht
      rcases List.mem_cons.mp ht with rfl | ht
      · exact hs
      · exact ih (hstep _ i hs halong.1) halong.2 t ht

/-- A condition that an invariant implies is met all along. -/
theorem along_of_invariant {I : σ → Prop} (hstep : ∀ s i, I s → I (step s i))
    (himp : ∀ s i, I s → C s i) {s : σ} (hs : I s) (inputs : List ι) :
    Along step C s inputs := by
  induction inputs generalizing s with
  | nil => trivial
  | cons i rest ih => exact ⟨himp s i hs, ih (hstep s i hs)⟩

/-- The converse: where a single step breaks the invariant exactly when it
leaves the condition, a run that keeps the invariant everywhere meets the
condition at every step. -/
theorem along_of_visited {I : σ → Prop} (hstep : ∀ s i, I s → I (step s i) → C s i) {s : σ}
    {inputs : List ι} (hall : ∀ t ∈ visited step s inputs, I t) : Along step C s inputs := by
  induction inputs generalizing s with
  | nil => trivial
  | cons i rest ih =>
      have hfirst : I s := hall s (mem_visited_self s _)
      have hsecond : I (step s i) :=
        hall _ (List.mem_cons_of_mem _ (mem_visited_self (step s i) rest))
      exact ⟨hstep s i hfirst hsecond, ih fun t ht => hall t (List.mem_cons_of_mem _ ht)⟩

/-- Two conditions that an invariant makes equivalent hold along the same runs. -/
theorem along_congr {D : σ → ι → Prop} {I : σ → Prop} (hiff : ∀ s i, I s → (C s i ↔ D s i))
    (hstep : ∀ s i, I s → D s i → I (step s i)) {s : σ} (hs : I s) (inputs : List ι) :
    Along step C s inputs ↔ Along step D s inputs := by
  induction inputs generalizing s with
  | nil => exact Iff.rfl
  | cons i rest ih =>
      rw [along_cons, along_cons, hiff s i hs]
      refine and_congr_right fun hD => ?_
      exact ih (hstep s i hs hD)

/-- A property that no later step restores holds at the end of a run exactly when every step
of it meets the condition under which a step keeps the property. -/
theorem run_iff_along {I G : σ → Prop} (hinv : ∀ s i, I s → I (step s i))
    (hstep : ∀ s i, I s → (G (step s i) ↔ G s ∧ C s i)) {s : σ} (hs : I s) (inputs : List ι) :
    G (inputs.foldl step s) ↔ G s ∧ Along step C s inputs := by
  induction inputs generalizing s with
  | nil => simp
  | cons i rest ih => rw [List.foldl_cons, ih (hinv s i hs), hstep s i hs, along_cons, and_assoc]

@[simp] theorem tally_nil {P : σ → ι → Bool} (s : σ) : tally step P s [] = 0 := rfl

@[simp] theorem tally_cons {P : σ → ι → Bool} (s : σ) (i : ι) (rest : List ι) :
    tally step P s (i :: rest) = (P s i).toNat + tally step P (step s i) rest := rfl

theorem tally_append {P : σ → ι → Bool} (s : σ) (first second : List ι) :
    tally step P s (first ++ second) =
      tally step P s first + tally step P (first.foldl step s) second := by
  induction first generalizing s with
  | nil => simp
  | cons i rest ih => simp [ih, Nat.add_assoc]

/-- A counter that every step keeps in step counts what a run does. -/
theorem tally_counted {I : σ → Prop} {P : σ → ι → Bool} {count : σ → ℕ}
    (hinv : ∀ s i, I s → I (step s i))
    (hcount : ∀ s i, I s → count (step s i) = count s + (P s i).toNat) {s : σ} (hs : I s)
    (inputs : List ι) : count (inputs.foldl step s) = count s + tally step P s inputs := by
  induction inputs generalizing s with
  | nil => simp
  | cons i rest ih =>
      rw [List.foldl_cons, ih (hinv s i hs), hcount s i hs, tally_cons, Nat.add_assoc]

theorem Reachable.invariant {I : σ → Prop} {init s : σ} (hreach : Reachable step init s)
    (hinit : I init) (hstep : ∀ s i, I s → I (step s i)) : I s := by
  obtain ⟨inputs, rfl⟩ := hreach
  exact run_invariant hstep hinit inputs

/-- Two machines fed the same inputs, related step by step while the first one
meets a condition, stay related over whole runs. -/
theorem run_simulation {other : τ → ι → τ} {R : σ → τ → Prop}
    (hstep : ∀ s t i, R s t → C s i → R (step s i) (other t i)) {s : σ} {t : τ} (hR : R s t)
    {inputs : List ι} (halong : Along step C s inputs) :
    R (inputs.foldl step s) (inputs.foldl other t) := by
  induction inputs generalizing s t with
  | nil => exact hR
  | cons i rest ih => exact ih (hstep s t i hR halong.1) halong.2

end Rules

/-! ## Growing logs -/

section Logs

variable {α : Type*} {R S : List α → α → Prop}

/-- Every entry of `new` meets `R` on what stands before it, behind `log`. -/
def Logged (R : List α → α → Prop) (log new : List α) : Prop :=
  Along (fun log entry => log ++ [entry]) R log new

theorem foldl_push (log new : List α) :
    new.foldl (fun log entry => log ++ [entry]) log = log ++ new := by
  induction new generalizing log with
  | nil => simp
  | cons entry rest ih => rw [List.foldl_cons, ih, List.append_assoc, List.singleton_append]

theorem logged_append {log first second : List α} :
    Logged R log (first ++ second) ↔ Logged R log first ∧ Logged R (log ++ first) second := by
  rw [Logged, along_append, foldl_push]
  rfl

theorem logged_singleton {log : List α} {entry : α} : Logged R log [entry] ↔ R log entry := by
  simp [Logged]

theorem Logged.entry {log front back : List α} {entry : α}
    (hlogged : Logged R log (front ++ entry :: back)) : R (log ++ front) entry :=
  (logged_append.mp hlogged).2.1

/-- An entry of a grown log is one of the new entries, or was there before. -/
theorem append_eq_append_cons {log new before after : List α} {entry : α}
    (hsplit : log ++ new = before ++ entry :: after) :
    (∃ front, before = log ++ front ∧ new = front ++ entry :: after) ∨
      ∃ rest, log = before ++ entry :: rest ∧ after = rest ++ new := by
  rcases List.append_eq_append_iff.mp hsplit with ⟨front, hbefore, hnew⟩ | ⟨back, hlog, hback⟩
  · exact Or.inl ⟨front, hbefore, hnew⟩
  · cases back with
    | nil =>
        rw [List.append_nil] at hlog
        exact Or.inl ⟨[], by rw [hlog, List.append_nil], hback.symm⟩
    | cons first rest =>
        obtain ⟨rfl, hafter⟩ := List.cons.inj hback
        exact Or.inr ⟨rest, hlog, hafter⟩

end Logs

end VisioSchema.Library

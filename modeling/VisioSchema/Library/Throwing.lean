import Mathlib.Data.Nat.Notation

/-!
# Programs that may throw

A program over a state `σ` ends normally or throws; what it did to the state
stays either way.  `Run.andThen` is sequencing, and the rules say how a property
of states, or a relation between the state before and after, passes through it.
-/

namespace VisioSchema.Library

variable {σ : Type*}

/-- Where a program left the state, and whether it threw. -/
structure Run (σ : Type*) where
  state : σ
  threw : Bool := false
  deriving DecidableEq

namespace Run

/-- Sequencing: nothing runs after a throw. -/
def andThen (r : Run σ) (next : σ → Run σ) : Run σ :=
  if r.threw then r else next r.state

@[simp] theorem andThen_ok (s : σ) (next : σ → Run σ) : andThen ⟨s, false⟩ next = next s := rfl

@[simp] theorem andThen_throw (s : σ) (next : σ → Run σ) :
    andThen ⟨s, true⟩ next = ⟨s, true⟩ := rfl

theorem andThen_of_quiet {r : Run σ} (hquiet : r.threw = false) (next : σ → Run σ) :
    r.andThen next = next r.state := by
  rw [andThen, hquiet]
  rfl

/-- What holds after the first program and is kept by the second holds after
both, thrown or not. -/
theorem andThen_keeps {P : σ → Prop} {r : Run σ} {next : σ → Run σ} (hfirst : P r.state)
    (hnext : ∀ s, P s → P (next s).state) : P (r.andThen next).state := by
  unfold andThen
  split
  · exact hfirst
  · exact hnext _ hfirst

/-- The rule for a second program that runs only where the first did not throw. -/
theorem andThen_cases {P : Run σ → Prop} {r : Run σ} {next : σ → Run σ}
    (hthrew : r.threw = true → P r) (hquiet : r.threw = false → P (next r.state)) :
    P (r.andThen next) := by
  unfold andThen
  cases hr : r.threw with
  | true => exact hthrew hr
  | false => exact hquiet hr

/-- The program ends normally, in a state with `P`. -/
def Ends (r : Run σ) (P : σ → Prop) : Prop := r.threw = false ∧ P r.state

theorem ends_ok {P : σ → Prop} {s : σ} (hs : P s) : Ends ⟨s, false⟩ P := ⟨rfl, hs⟩

theorem Ends.andThen {P Q : σ → Prop} {r : Run σ} {next : σ → Run σ} (hfirst : r.Ends P)
    (hnext : ∀ s, P s → (next s).Ends Q) : (r.andThen next).Ends Q := by
  rw [andThen_of_quiet hfirst.1]
  exact hnext _ hfirst.2

theorem Ends.mono {P Q : σ → Prop} {r : Run σ} (hends : r.Ends P) (himp : ∀ s, P s → Q s) :
    r.Ends Q := ⟨hends.1, himp _ hends.2⟩

end Run

end VisioSchema.Library

import Mathlib.Data.List.Basic

/-!
# Drivers

A driver answers inputs one after the other until it stops.  Here are its run over a script of
inputs and three rules for it: inputs that change no state may be left out, two drivers whose steps
agree have runs that agree, and what holds of a run that stops is proved by what a step adds.
-/

namespace VisioSchema.Library

variable {σ τ ι χ ε : Type*}

/-- What a driver makes of one input: the calls that it makes, and the state it goes on from or
what it ends with. -/
inductive Step (σ χ ε : Type*)
  | next (calls : List χ) (state : σ)
  | stop (calls : List χ) (ending : ε)

/-- The same step, behind some calls. -/
def Step.after (before : List χ) : Step σ χ ε → Step σ χ ε
  | .next calls state => .next (before ++ calls) state
  | .stop calls ending => .stop (before ++ calls) ending

/-- The run over a script: its calls, and its ending or the state that it waits in. -/
def drive (step : σ → ι → Step σ χ ε) : σ → List ι → List χ × (σ ⊕ ε)
  | state, [] => ([], .inl state)
  | state, input :: script =>
      match step state input with
      | .next calls after => (calls ++ (drive step after script).1, (drive step after script).2)
      | .stop calls ending => (calls, .inr ending)

section Steps

variable {step : σ → ι → Step σ χ ε} {state after : σ} {input : ι} {calls : List χ}

theorem drive_next (hstep : step state input = .next calls after) (script : List ι) :
    drive step state (input :: script) =
      (calls ++ (drive step after script).1, (drive step after script).2) := by
  rw [drive, hstep]

theorem drive_stop {ending : ε} (hstep : step state input = .stop calls ending)
    (script : List ι) : drive step state (input :: script) = (calls, .inr ending) := by
  rw [drive, hstep]

/-! ## Inputs that change nothing -/

/-- The inputs that are left out leave every state as it is: then the run comes to the same. -/
theorem drive_filter (keep : ι → Bool)
    (hskip : ∀ state input, keep input = false → ∃ calls, step state input = .next calls state)
    (script : List ι) (state : σ) :
    (drive step state (script.filter keep)).2 = (drive step state script).2 := by
  induction script generalizing state with
  | nil => rfl
  | cons input script ih =>
      cases hkeep : keep input with
      | false =>
          obtain ⟨calls, hstep⟩ := hskip state input hkeep
          rw [List.filter_cons_of_neg (by simp [hkeep]), drive_next hstep]
          exact ih state
      | true =>
          rw [List.filter_cons_of_pos hkeep]
          cases hstep : step state input with
          | next calls after =>
              rw [drive_next hstep, drive_next hstep]
              exact ih after
          | stop calls ending => rw [drive_stop hstep, drive_stop hstep]

/-! ## Runs that stop -/

/-- What holds of the ending of a run: it holds where a step stops, and a step that goes on keeps
it. -/
theorem drive_ends {Post : σ → List ι → ε → Prop}
    (hstop : ∀ state input script calls ending, step state input = .stop calls ending →
      Post state (input :: script) ending)
    (hnext : ∀ state input script calls after ending, step state input = .next calls after →
      Post after script ending → Post state (input :: script) ending)
    {script : List ι} {state : σ} {ending : ε}
    (hends : (drive step state script).2 = .inr ending) : Post state script ending := by
  induction script generalizing state with
  | nil => cases hends
  | cons input script ih =>
      cases hstep : step state input with
      | next calls after =>
          rw [drive_next hstep] at hends
          exact hnext state input script calls after ending hstep (ih hends)
      | stop calls final =>
          rw [drive_stop hstep] at hends
          obtain rfl : final = ending := Sum.inr.inj hends
          exact hstop state input script calls final hstep

end Steps

/-! ## Two drivers -/

/-- Two steps that make the same calls, and end alike or go on from related states. -/
inductive Step.Related (R : σ → τ → Prop) : Step σ χ ε → Step τ χ ε → Prop
  | next {calls : List χ} {s : σ} {t : τ} (hrel : R s t) : Related R (.next calls s) (.next calls t)
  | stop {calls : List χ} {ending : ε} : Related R (.stop calls ending) (.stop calls ending)

theorem Step.Related.after {R : σ → τ → Prop} {first : Step σ χ ε} {second : Step τ χ ε}
    (hrel : Step.Related R first second) (before : List χ) :
    Step.Related R (first.after before) (second.after before) := by
  cases hrel with
  | next hrel => exact .next hrel
  | stop => exact .stop

/-- Two drivers whose steps agree on a script run through it with the same calls, to the same
ending or to related states. -/
theorem drive_related {R : σ → τ → Prop} {first : σ → ι → Step σ χ ε} {second : τ → ι → Step τ χ ε}
    {script : List ι}
    (hstep : ∀ input ∈ script, ∀ s t, R s t → Step.Related R (first s input) (second t input))
    {s : σ} {t : τ} (hrel : R s t) :
    (drive first s script).1 = (drive second t script).1 ∧
      Sum.LiftRel R Eq (drive first s script).2 (drive second t script).2 := by
  induction script generalizing s t with
  | nil => exact ⟨rfl, Sum.LiftRel.inl hrel⟩
  | cons input script ih =>
      have hone := hstep input (List.mem_cons_self ..) s t hrel
      have hrest : ∀ other ∈ script, ∀ s t, R s t →
          Step.Related R (first s other) (second t other) :=
        fun other hmem => hstep other (List.mem_cons_of_mem _ hmem)
      generalize hs : first s input = fromS at hone
      generalize ht : second t input = fromT at hone
      cases hone with
      | next hafter =>
          obtain ⟨hcalls, hout⟩ := ih hrest hafter
          rw [drive_next hs, drive_next ht, hcalls]
          exact ⟨rfl, hout⟩
      | stop =>
          rw [drive_stop hs, drive_stop ht]
          exact ⟨rfl, Sum.LiftRel.inr rfl⟩

end VisioSchema.Library

import Mathlib.Data.List.Basic

/-!
# Names that are kept by who claims them first

A log of claims, each for a name and under a key.  The first claim of a name decides under
which key it is held; a later claim under the same key renews it, one under another key is
refused.  `holder` reads the claim that holds a name off the log, and `holder_push` says what
one more claim changes.
-/

namespace VisioSchema.Library

variable {ε α κ : Type*} [DecidableEq α] [DecidableEq κ]

/-- The first claim of a name. -/
def claimant (name : ε → α) (claims : List ε) (a : α) : Option ε :=
  claims.find? fun claim => decide (name claim = a)

/-- The last claim of a name under the key of the first one. -/
def holder (name : ε → α) (key : ε → κ) (claims : List ε) (a : α) : Option ε :=
  (claimant name claims a).bind fun first =>
    claims.reverse.find? fun claim => decide (name claim = a ∧ key claim = key first)

variable {name : ε → α} {key : ε → κ} {claims : List ε} {a : α} {claim held : ε}

theorem claimant_spec (hfirst : claimant name claims a = some claim) :
    claim ∈ claims ∧ name claim = a := by
  refine ⟨List.mem_of_find?_eq_some hfirst, ?_⟩
  simpa using List.find?_some hfirst

theorem holder_spec (hheld : holder name key claims a = some held) :
    held ∈ claims ∧ name held = a ∧
      ∃ first, claimant name claims a = some first ∧ key held = key first := by
  obtain ⟨first, hfirst, hlast⟩ := Option.bind_eq_some_iff.mp hheld
  have hmeets : name held = a ∧ key held = key first := by simpa using List.find?_some hlast
  refine ⟨?_, hmeets.1, first, hfirst, hmeets.2⟩
  exact List.mem_reverse.mp (List.mem_of_find?_eq_some hlast)

/-- A name that was claimed is held. -/
theorem holder_of_claimant (key : ε → κ) {first : ε}
    (hfirst : claimant name claims a = some first) :
    ∃ held, holder name key claims a = some held := by
  obtain ⟨hmem, hname⟩ := claimant_spec hfirst
  have hfound : (claims.reverse.find? fun claim =>
      decide (name claim = a ∧ key claim = key first)).isSome = true := by
    rw [List.find?_isSome]
    exact ⟨first, List.mem_reverse.mpr hmem, by simp [hname]⟩
  obtain ⟨held, hheld⟩ := Option.isSome_iff_exists.mp hfound
  exact ⟨held, Option.bind_eq_some_iff.mpr ⟨first, hfirst, hheld⟩⟩

theorem claimant_eq_none_iff :
    claimant name claims a = none ↔ holder name key claims a = none := by
  constructor
  · intro hnone
    rw [holder, hnone, Option.bind_none]
  · intro hnone
    cases hfirst : claimant name claims a with
    | none => rfl
    | some first =>
        obtain ⟨held, hheld⟩ := holder_of_claimant key hfirst
        rw [hheld] at hnone
        cases hnone

theorem claimant_push_of_some {first : ε} (hfirst : claimant name claims a = some first) :
    claimant name (claims ++ [claim]) a = some first := by
  have hfound : claims.find? (fun claim => decide (name claim = a)) = some first := hfirst
  rw [claimant, List.find?_append, hfound, Option.some_or]

/-- What a claim for another name leaves alone. -/
theorem holder_push_other (hother : name claim ≠ a) :
    holder name key (claims ++ [claim]) a = holder name key claims a := by
  have hfirst : claimant name (claims ++ [claim]) a = claimant name claims a := by
    simp [claimant, List.find?_append, hother]
  rw [holder, holder, hfirst]
  cases claimant name claims a with
  | none => rfl
  | some first => simp [hother]

/-- The first claim of a name holds it. -/
theorem holder_push_free (hfree : holder name key claims (name claim) = none) :
    holder name key (claims ++ [claim]) (name claim) = some claim := by
  have hnone : claims.find? (fun other => decide (name other = name claim)) = none :=
    claimant_eq_none_iff.mpr hfree
  have hfirst : claimant name (claims ++ [claim]) (name claim) = some claim := by
    simp [claimant, List.find?_append, hnone]
  rw [holder, hfirst]
  simp

/-- A claim of a held name: under the key of its holder it takes over, else it is refused. -/
theorem holder_push (hheld : holder name key claims (name claim) = some held) :
    holder name key (claims ++ [claim]) (name claim) =
      if key claim = key held then some claim else some held := by
  obtain ⟨-, -, first, hfirst, hkey⟩ := holder_spec hheld
  have hlast : claims.reverse.find?
      (fun other => decide (name other = name claim ∧ key other = key first)) = some held := by
    rw [holder, hfirst] at hheld
    exact hheld
  rw [holder, claimant_push_of_some hfirst, hkey]
  by_cases hsame : key claim = key first
  · simp [hsame]
  · simpa [hsame] using hlast

end VisioSchema.Library

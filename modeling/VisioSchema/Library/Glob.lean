import Mathlib.Data.List.Basic
import Mathlib.Data.List.Forall2

/-!
# Patterns over lists

A pattern is a list of elements, some of which stand for any stretch of a list and the others
for one element of it.  A list matches if it can be cut into consecutive pieces that the
pattern's elements match one by one.
-/

namespace VisioSchema.Library

variable {π α : Type*} (star : π → Bool) (one : π → α → Bool)

/-- A piece is matched by a pattern element: any piece by a star, one element by any other. -/
def PieceMatches (s : π) (piece : List α) : Prop :=
  star s = true ∨ star s = false ∧ ∃ x, piece = [x] ∧ one s x = true

/-- The list can be cut into pieces that the pattern's elements match one by one. -/
def Covers (p : List π) (t : List α) : Prop :=
  ∃ pieces : List (List α), pieces.flatten = t ∧ List.Forall₂ (PieceMatches star one) p pieces

/-- The elements of a pattern are no stars, and match those of a list one by one. -/
def Fits (lits : List π) (items : List α) : Prop :=
  List.Forall₂ (fun s x => star s = false ∧ one s x = true) lits items

variable {star one}

/-! ## One element at a time -/

theorem covers_nil {t : List α} : Covers star one [] t ↔ t = [] := by
  constructor
  · rintro ⟨pieces, rfl, hpieces⟩
    cases hpieces
    rfl
  · rintro rfl
    exact ⟨[], rfl, List.Forall₂.nil⟩

theorem covers_cons {s : π} {p : List π} {t : List α} :
    Covers star one (s :: p) t ↔
      ∃ piece rest, t = piece ++ rest ∧ PieceMatches star one s piece ∧ Covers star one p rest := by
  constructor
  · rintro ⟨pieces, rfl, hpieces⟩
    cases hpieces with
    | cons hpiece hrest => exact ⟨_, _, rfl, hpiece, _, rfl, hrest⟩
  · rintro ⟨piece, rest, rfl, hpiece, pieces, rfl, hrest⟩
    exact ⟨piece :: pieces, rfl, List.Forall₂.cons hpiece hrest⟩

theorem covers_cons_star {s : π} {p : List π} {t : List α} (hs : star s = true) :
    Covers star one (s :: p) t ↔ ∃ k, Covers star one p (t.drop k) := by
  rw [covers_cons]
  constructor
  · rintro ⟨piece, rest, rfl, -, hrest⟩
    exact ⟨piece.length, by simpa using hrest⟩
  · rintro ⟨k, hrest⟩
    exact ⟨t.take k, t.drop k, (List.take_append_drop k t).symm, Or.inl hs, hrest⟩

theorem covers_cons_one {s : π} {p : List π} {t : List α} (hs : star s = false) :
    Covers star one (s :: p) t ↔ ∃ x rest, t = x :: rest ∧ one s x = true ∧
      Covers star one p rest := by
  rw [covers_cons]
  constructor
  · rintro ⟨piece, rest, rfl, hpiece, hrest⟩
    rcases hpiece with hstar | ⟨-, x, rfl, hx⟩
    · rw [hs] at hstar
      cases hstar
    · exact ⟨x, rest, rfl, hx, hrest⟩
  · rintro ⟨x, rest, rfl, hx, hrest⟩
    exact ⟨[x], rest, rfl, Or.inr ⟨hs, x, rfl, hx⟩, hrest⟩

/-- Nothing is left of the list: the pattern's rest are stars. -/
theorem covers_empty {p : List π} : Covers star one p [] ↔ ∀ s ∈ p, star s = true := by
  induction p with
  | nil => simp [covers_nil]
  | cons s p ih =>
      cases hs : star s with
      | true => simp [covers_cons_star hs, ih, hs]
      | false => simp [covers_cons_one hs, hs]

/-! ## A front without stars -/

theorem covers_fits_append {lits : List π} {items : List α} (hfits : Fits star one lits items)
    {p : List π} {t : List α} :
    Covers star one (lits ++ p) (items ++ t) ↔ Covers star one p t := by
  induction hfits with
  | nil => rfl
  | cons hfirst _ ih =>
      obtain ⟨hs, hx⟩ := hfirst
      rw [List.cons_append, List.cons_append, covers_cons_one hs, ← ih]
      constructor
      · rintro ⟨y, rest, heq, -, hrest⟩
        obtain ⟨rfl, rfl⟩ := List.cons.inj heq
        exact hrest
      · exact fun hrest => ⟨_, _, rfl, hx, hrest⟩

/-- A front without stars takes as many elements as it has. -/
theorem covers_front {lits : List π} (hlits : ∀ s ∈ lits, star s = false) {p : List π} {t : List α}
    (hcovers : Covers star one (lits ++ p) t) :
    lits.length ≤ t.length ∧ Covers star one p (t.drop lits.length) := by
  induction lits generalizing t with
  | nil => exact ⟨Nat.zero_le _, hcovers⟩
  | cons s lits ih =>
      rw [List.cons_append, covers_cons_one (hlits s (List.mem_cons_self ..))] at hcovers
      obtain ⟨x, rest, rfl, -, hrest⟩ := hcovers
      obtain ⟨hlen, hcovered⟩ := ih (fun s hs => hlits s (List.mem_cons_of_mem _ hs)) hrest
      exact ⟨Nat.succ_le_succ hlen, hcovered⟩

theorem Fits.no_star {lits : List π} {items : List α} (hfits : Fits star one lits items) :
    ∀ s ∈ lits, star s = false := by
  induction hfits with
  | nil => exact fun s hs => nomatch hs
  | cons hfirst _ ih =>
      intro s hs
      rcases List.mem_cons.mp hs with rfl | hs
      · exact hfirst.1
      · exact ih s hs

theorem Fits.length_eq {lits : List π} {items : List α} (hfits : Fits star one lits items) :
    lits.length = items.length := List.Forall₂.length_eq hfits

theorem Fits.snoc {lits : List π} {items : List α} (hfits : Fits star one lits items) {s : π}
    {x : α} (hs : star s = false) (hx : one s x = true) :
    Fits star one (lits ++ [s]) (items ++ [x]) :=
  List.rel_append hfits (List.Forall₂.cons ⟨hs, hx⟩ List.Forall₂.nil)

end VisioSchema.Library

import Mathlib.Data.List.Basic
import Mathlib.Data.List.Infix

/-!
# Streams made of whole frames

`Whole P bytes` says that `bytes` is a concatenation of frames that satisfy
`P`; `Cut P bytes` allows, after the whole frames, one proper prefix of such a
frame.  `Cut` is what a reader sees at any moment on a stream whose writer
sends frames one after another, in pieces of any size: it is reached from `Whole`
by writing any part of a block of frames (`Whole.append_take`).
-/

namespace VisioSchema.Library

variable {α : Type*} {P : List α → Prop}

/-- A concatenation of frames. -/
def Whole (P : List α → Prop) (bytes : List α) : Prop :=
  ∃ frames : List (List α), (∀ frame ∈ frames, P frame) ∧ bytes = frames.flatten

/-- A concatenation of frames, then at most one proper prefix of a frame. -/
def Cut (P : List α → Prop) (bytes : List α) : Prop :=
  ∃ done rest, Whole P done ∧ bytes = done ++ rest ∧
    (rest = [] ∨ ∃ frame, P frame ∧ rest <+: frame ∧ rest ≠ frame)

/-- A prefix of a concatenation ends inside its first part, or takes all of it
and a prefix of the second. -/
theorem prefix_append_cases {front first second : List α} (hfront : front <+: first ++ second) :
    front <+: first ∨ ∃ more, front = first ++ more ∧ more <+: second := by
  obtain ⟨back, hback⟩ := hfront
  rcases List.append_eq_append_iff.mp hback with ⟨mid, hfirst, _⟩ | ⟨mid, hfront, hsecond⟩
  · exact Or.inl ⟨mid, hfirst.symm⟩
  · exact Or.inr ⟨mid, hfront, back, hsecond.symm⟩

theorem whole_nil : Whole P ([] : List α) := ⟨[], by simp, rfl⟩

theorem whole_of_frame {frame : List α} (hframe : P frame) : Whole P frame :=
  ⟨[frame], by simpa using hframe, by simp⟩

theorem Whole.append {first second : List α} (hfirst : Whole P first) (hsecond : Whole P second) :
    Whole P (first ++ second) := by
  obtain ⟨f, hf, rfl⟩ := hfirst
  obtain ⟨g, hg, rfl⟩ := hsecond
  refine ⟨f ++ g, fun frame hmem => ?_, by simp⟩
  rcases List.mem_append.mp hmem with hmem | hmem
  exacts [hf frame hmem, hg frame hmem]

/-- A block assembled from entries that are each a frame is whole. -/
theorem whole_flatMap {β : Type*} {entries : List β} {data : β → List α}
    (hall : ∀ entry ∈ entries, P (data entry)) : Whole P (entries.flatMap data) :=
  ⟨entries.map data, by simpa using hall, by simp [List.flatMap_def]⟩

theorem Whole.cut {bytes : List α} (hwhole : Whole P bytes) : Cut P bytes :=
  ⟨bytes, [], hwhole, by simp, Or.inl rfl⟩

/-- Prepending whole frames to a cut stream leaves it cut. -/
theorem Whole.append_cut {first second : List α} (hfirst : Whole P first)
    (hsecond : Cut P second) : Cut P (first ++ second) := by
  obtain ⟨done, rest, hdone, rfl, htail⟩ := hsecond
  exact ⟨first ++ done, rest, hfirst.append hdone, by simp, htail⟩

/-- Any prefix of whole frames is a cut stream. -/
theorem Whole.cut_of_front {bytes front : List α} (hwhole : Whole P bytes)
    (hfront : front <+: bytes) : Cut P front := by
  obtain ⟨frames, hframes, rfl⟩ := hwhole
  induction frames generalizing front with
  | nil =>
      rw [List.flatten_nil, List.prefix_nil] at hfront
      exact hfront ▸ whole_nil.cut
  | cons frame frames ih =>
      have hframe : P frame := hframes frame (List.mem_cons_self ..)
      rw [List.flatten_cons] at hfront
      -- The prefix ends inside the first frame, or takes all of it.
      rcases prefix_append_cases hfront with hinside | ⟨more, rfl, hmore⟩
      · by_cases heq : front = frame
        · exact heq ▸ (whole_of_frame hframe).cut
        · exact ⟨[], front, whole_nil, rfl, Or.inr ⟨frame, hframe, hinside, heq⟩⟩
      · exact (whole_of_frame hframe).append_cut
          (ih (fun f hf => hframes f (List.mem_cons_of_mem _ hf)) hmore)

/-- Writing any number of elements of a block of whole frames after whole
frames gives a cut stream. -/
theorem Whole.append_take {done unit : List α} (hdone : Whole P done) (hunit : Whole P unit)
    (count : ℕ) : Cut P (done ++ unit.take count) :=
  hdone.append_cut (hunit.cut_of_front (List.take_prefix count unit))

end VisioSchema.Library

import Mathlib.Data.List.Basic

/-!
# Mixing a list with an infinite stream

A stream cipher combines the byte at position `p` of a text with the byte at position `p` of
a key stream.  `mixFrom` does so for a piece of the text that starts at a given position; a
text that is mixed piece by piece, in pieces of any lengths, is mixed as a whole.
-/

namespace VisioSchema.Library

variable {α : Type*} {mix : α → α → α} {stream other : ℕ → α}

/-- A piece that starts at position `start`, mixed with the stream. -/
def mixFrom (mix : α → α → α) (stream : ℕ → α) : ℕ → List α → List α
  | _, [] => []
  | start, a :: rest => mix a (stream start) :: mixFrom mix stream (start + 1) rest

@[simp] theorem mixFrom_nil (start : ℕ) : mixFrom mix stream start [] = [] := rfl

@[simp] theorem mixFrom_cons (start : ℕ) (a : α) (rest : List α) :
    mixFrom mix stream start (a :: rest) =
      mix a (stream start) :: mixFrom mix stream (start + 1) rest := rfl

@[simp] theorem mixFrom_length (start : ℕ) (text : List α) :
    (mixFrom mix stream start text).length = text.length := by
  induction text generalizing start with
  | nil => rfl
  | cons a rest ih => simp [ih]

/-- The second piece goes on where the first one ends. -/
theorem mixFrom_append (start : ℕ) (first second : List α) :
    mixFrom mix stream start (first ++ second) =
      mixFrom mix stream start first ++ mixFrom mix stream (start + first.length) second := by
  induction first generalizing start with
  | nil => rfl
  | cons a rest ih =>
      have hnext : start + 1 + rest.length = start + (rest.length + 1) := by omega
      simp [ih, hnext]

theorem mixFrom_drop (start n : ℕ) (text : List α) :
    (mixFrom mix stream start text).drop n = mixFrom mix stream (start + n) (text.drop n) := by
  induction n generalizing start text with
  | zero => rfl
  | succ n ih =>
      cases text with
      | nil => rfl
      | cons a rest =>
          have hnext : start + 1 + n = start + (n + 1) := by omega
          simp [ih, hnext]

theorem mixFrom_take (start n : ℕ) (text : List α) :
    (mixFrom mix stream start text).take n = mixFrom mix stream start (text.take n) := by
  induction n generalizing start text with
  | zero => rfl
  | succ n ih =>
      cases text with
      | nil => rfl
      | cons a rest => simp [ih]

/-- Streams that agree on the range of a piece mix it alike. -/
theorem mixFrom_congr {start place : ℕ} {text : List α}
    (hsame : ∀ i < text.length, stream (start + i) = other (place + i)) :
    mixFrom mix stream start text = mixFrom mix other place text := by
  induction text generalizing start place with
  | nil => rfl
  | cons a rest ih =>
      have hfirst : stream start = other place := hsame 0 (Nat.zero_lt_succ _)
      have hrest : ∀ i < rest.length, stream (start + 1 + i) = other (place + 1 + i) := by
        intro i hi
        have hnext := hsame (i + 1) (Nat.succ_lt_succ hi)
        rwa [Nat.add_comm i 1, ← Nat.add_assoc, ← Nat.add_assoc] at hnext
      rw [mixFrom_cons, mixFrom_cons, hfirst, ih hrest]

/-- Mixing twice with an involution gives the text back. -/
theorem mixFrom_mixFrom (hmix : ∀ a k, mix (mix a k) k = a) (start : ℕ) (text : List α) :
    mixFrom mix stream start (mixFrom mix stream start text) = text := by
  induction text generalizing start with
  | nil => rfl
  | cons a rest ih => simp [hmix, ih]

end VisioSchema.Library

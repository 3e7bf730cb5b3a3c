import Mathlib.Algebra.Order.Ring.Nat
import Mathlib.Logic.Function.Basic
import Mathlib.Tactic.Common

/-!
# A ring behind a stream

The end of a growing stream is kept in a ring of `size` cells, position `q` in cell
`q % size`.  The writer reserves positions before it copies into them, so a reader that finds
a position reserved no further than `size` behind the end has read the byte of the stream.
-/

namespace VisioSchema.Library

variable {β : Type*}

/-- Every copied position that no reserved one overwrites is in its cell. -/
def Mirrors (size : ℕ) (cells : ℕ → β) (stream : ℕ → β → Prop) (reserved copied : ℕ) : Prop :=
  ∀ q b, q < copied → reserved ≤ q + size → stream q b → cells (q % size) = b

variable {size : ℕ} {cells : ℕ → β} {stream : ℕ → β → Prop} {reserved copied : ℕ}

/-- Reserving more, of a stream that has grown. -/
theorem Mirrors.reserve {stream' : ℕ → β → Prop} {reserved' copied' : ℕ}
    (hmirrors : Mirrors size cells stream reserved copied) (hle : reserved ≤ reserved')
    (hold : ∀ q b, q < copied' → reserved' ≤ q + size → stream' q b →
      q < copied ∧ stream q b) : Mirrors size cells stream' reserved' copied' := by
  intro q b hq hkept hbyte
  obtain ⟨hcopied, hstream⟩ := hold q b hq hkept hbyte
  exact hmirrors q b hcopied (hle.trans hkept) hstream

/-- Copying the next reserved position. -/
theorem Mirrors.copy {b : β}
    (hmirrors : Mirrors size cells stream reserved copied) (hreserved : copied < reserved)
    (hbyte : ∀ b', stream copied b' → b' = b) :
    Mirrors size (Function.update cells (copied % size) b) stream reserved (copied + 1) := by
  intro q b' hq hkept hstream
  rcases Nat.lt_succ_iff_lt_or_eq.mp hq with hlt | rfl
  · have hother : q % size ≠ copied % size := by
      intro hsame
      -- two positions of one cell are a whole turn apart
      have hdvd : size ∣ copied - q :=
        Nat.dvd_of_mod_eq_zero (Nat.sub_mod_eq_zero_of_mod_eq hsame.symm)
      have hturn := Nat.le_of_dvd (by omega) hdvd
      omega
    rw [Function.update_of_ne hother]
    exact hmirrors q b' hlt hkept hstream
  · rw [Function.update_self, hbyte b' hstream]

/-- What a reader finds in the cell of a copied position, the reservation being read later. -/
theorem Mirrors.read (hmirrors : Mirrors size cells stream reserved copied) {q : ℕ} {b : β}
    (hq : q < copied) (hkept : reserved ≤ q + size) (hbyte : stream q b) :
    cells (q % size) = b :=
  hmirrors q b hq hkept hbyte

/-! ## A slice that may wrap -/

/-- Where the positions from `pos` on sit: a first cell, and how many follow it before the
rest starts again at cell 0. -/
def sliceAtWrap (size pos n : ℕ) : ℕ × ℕ := (pos % size, min n (size - pos % size))

/-- The cell of a slice's position. -/
def sliceCell (size pos n i : ℕ) : ℕ :=
  if i < (sliceAtWrap size pos n).2 then (sliceAtWrap size pos n).1 + i
  else i - (sliceAtWrap size pos n).2

theorem sliceCell_eq {pos n i : ℕ} (hi : i < n) (hn : n ≤ size) :
    sliceCell size pos n i = (pos + i) % size := by
  have hsize : 0 < size := by omega
  have hpos := Nat.mod_lt pos hsize
  have hsplit : (pos + i) % size = (pos % size + i) % size := by
    rw [Nat.mod_add_mod]
  have hlen : (sliceAtWrap size pos n).2 = min n (size - pos % size) := rfl
  have hidx : (sliceAtWrap size pos n).1 = pos % size := rfl
  rw [hsplit, sliceCell, hidx]
  by_cases hfirst : i < (sliceAtWrap size pos n).2
  · rw [if_pos hfirst]
    exact (Nat.mod_eq_of_lt (by omega)).symm
  · have hrest : pos % size + i = i - (sliceAtWrap size pos n).2 + size := by omega
    rw [if_neg hfirst, hrest, Nat.add_mod_right]
    exact (Nat.mod_eq_of_lt (by omega)).symm

end VisioSchema.Library

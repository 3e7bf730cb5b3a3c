import Mathlib.Algebra.Order.Ring.Nat
import Mathlib.Data.List.Basic

/-!
# Little-endian numbers

A number as some bytes, the least one first.  Bytes that turn to zero make it no larger.
-/

namespace VisioSchema.Library.LittleEndian

/-- The bytes of a number. -/
def pack : ℕ → ℕ → List UInt8
  | 0, _ => []
  | width + 1, n => UInt8.ofNat n :: pack width (n / 256)

/-- The number of some bytes. -/
def unpack : List UInt8 → ℕ
  | [] => 0
  | b :: rest => b.toNat + 256 * unpack rest

@[simp] theorem length_pack (width n : ℕ) : (pack width n).length = width := by
  induction width generalizing n with
  | zero => rfl
  | succ width ih => rw [pack, List.length_cons, ih]

theorem unpack_pack {width n : ℕ} (hn : n < 256 ^ width) : unpack (pack width n) = n := by
  induction width generalizing n with
  | zero =>
      have hzero : n = 0 := by simpa using hn
      rw [hzero]
      rfl
  | succ width ih =>
      have hrest : n / 256 < 256 ^ width := by
        rw [Nat.div_lt_iff_lt_mul (by decide)]
        rwa [Nat.pow_succ] at hn
      rw [pack, unpack, ih hrest, UInt8.toNat_ofNat']
      omega

theorem pack_unpack (bytes : List UInt8) : pack bytes.length (unpack bytes) = bytes := by
  induction bytes with
  | nil => rfl
  | cons b rest ih =>
      have hb := b.toNat_lt
      have hfirst : UInt8.ofNat (b.toNat + 256 * unpack rest) = b := by
        rw [← UInt8.toNat_inj, UInt8.toNat_ofNat']
        omega
      have hlater : (b.toNat + 256 * unpack rest) / 256 = unpack rest := by omega
      rw [List.length_cons, unpack, pack, hfirst, hlater, ih]

@[simp] theorem unpack_zeros (n : ℕ) : unpack (List.replicate n 0) = 0 := by
  induction n with
  | zero => rfl
  | succ n ih => rw [List.replicate_succ, unpack, ih]; rfl

/-- Zeros for the last bytes make a number no larger. -/
theorem unpack_torn_le (bytes : List UInt8) (place : ℕ) :
    unpack (bytes.take place ++ List.replicate (bytes.length - place) 0) ≤ unpack bytes := by
  induction bytes generalizing place with
  | nil => simp [unpack]
  | cons b rest ih =>
      cases place with
      | zero =>
          rw [List.take_zero, List.nil_append, unpack_zeros]
          exact Nat.zero_le _
      | succ place =>
          have hrest := ih place
          rw [List.take_succ_cons, List.cons_append, unpack, unpack, List.length_cons,
            Nat.add_sub_add_right]
          omega

end VisioSchema.Library.LittleEndian

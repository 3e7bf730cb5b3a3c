import Mathlib.Data.List.GetD

/-!
# Cyclic redundancy checks

A CRC as the shift register it is: `w` bits of state, one input bit a step, most
significant bit first.  The register is linear in its state and its input together
(`feed_xor`), which reduces every question about two inputs to one about their
difference, and with an odd polynomial no difference of at most `w` consecutive bits
is lost (`feed_ne_of_burst`).
-/

namespace VisioSchema.Library.Crc

variable {w : ℕ} (poly : BitVec w)

/-- One step of the register. -/
def shift (s : BitVec w) (bit : Bool) : BitVec w :=
  if s.msb ^^ bit then s <<< 1 ^^^ poly else s <<< 1

/-- The register after a string of bits. -/
def feed (s : BitVec w) (bits : List Bool) : BitVec w := bits.foldl (shift poly) s

@[simp] theorem feed_nil (s : BitVec w) : feed poly s [] = s := rfl

@[simp] theorem feed_cons (s : BitVec w) (bit : Bool) (bits : List Bool) :
    feed poly s (bit :: bits) = feed poly (shift poly s bit) bits := rfl

theorem feed_append (s : BitVec w) (front back : List Bool) :
    feed poly s (front ++ back) = feed poly (feed poly s front) back := List.foldl_append

/-! ## Linearity -/

theorem xor_xor_xor_cancel (x y p : BitVec w) : x ^^^ p ^^^ (y ^^^ p) = x ^^^ y := by
  rw [BitVec.xor_assoc, BitVec.xor_comm y p, ← BitVec.xor_assoc p p y, BitVec.xor_self,
    BitVec.zero_xor]

theorem shift_xor (s t : BitVec w) (a b : Bool) :
    shift poly (s ^^^ t) (a ^^ b) = shift poly s a ^^^ shift poly t b := by
  have hmsb : ((s ^^^ t).msb ^^ (a ^^ b)) = ((s.msb ^^ a) ^^ (t.msb ^^ b)) := by
    rw [BitVec.msb_xor, Bool.xor_assoc, Bool.xor_assoc, Bool.xor_left_comm t.msb a b]
  rw [shift, shift, shift, hmsb, BitVec.shiftLeft_xor_distrib]
  cases s.msb ^^ a <;> cases t.msb ^^ b
  · rfl
  · exact BitVec.xor_assoc ..
  · simp only [Bool.true_xor, Bool.not_false, if_true, Bool.false_eq_true, if_false]
    rw [BitVec.xor_assoc, BitVec.xor_comm _ poly, ← BitVec.xor_assoc]
  · exact (xor_xor_xor_cancel ..).symm

theorem feed_xor {front back : List Bool} (hlength : front.length = back.length)
    (s t : BitVec w) :
    feed poly (s ^^^ t) (List.zipWith xor front back) =
      feed poly s front ^^^ feed poly t back := by
  induction front generalizing back s t with
  | nil =>
      cases back with
      | nil => rfl
      | cons b back => cases hlength
  | cons a front ih =>
      cases back with
      | nil => cases hlength
      | cons b back =>
          rw [List.zipWith_cons_cons, feed_cons, feed_cons, feed_cons, shift_xor]
          exact ih (Nat.succ.inj hlength) _ _

/-! ## Several bits at a time -/

theorem zipWith_xor_self (bits : List Bool) :
    List.zipWith xor bits bits = List.replicate bits.length false := by
  induction bits with
  | nil => rfl
  | cons bit bits ih =>
      rw [List.zipWith_cons_cons, ih, Bool.xor_self, List.length_cons, List.replicate_succ]

theorem feed_zeros_xor (n : ℕ) (s t : BitVec w) :
    feed poly (s ^^^ t) (List.replicate n false) =
      feed poly s (List.replicate n false) ^^^ feed poly t (List.replicate n false) := by
  rw [← feed_xor poly rfl, zipWith_xor_self, List.length_replicate]

/-- Feeding bits is adding them to the front of the register and feeding zeros. -/
theorem feed_eq_feed_zeros {bits : List Bool} {t : BitVec w} (hlength : bits.length ≤ w)
    (ht : ∀ i < w, t.getMsbD i = bits.getD i false) (s : BitVec w) :
    feed poly s bits = feed poly (s ^^^ t) (List.replicate bits.length false) := by
  induction bits generalizing s t with
  | nil =>
      have hzero : t = 0 := BitVec.eq_of_getMsbD_eq fun i hi => by simpa using ht i hi
      rw [hzero]
      exact congrArg (feed poly · []) BitVec.xor_zero.symm
  | cons bit bits ih =>
      rw [List.length_cons] at hlength
      have hmsb : t.msb = bit := by
        rw [BitVec.msb_eq_getMsbD_zero, ht 0 (by omega), List.getD_cons_zero]
      have hstep : shift poly (s ^^^ t) false = shift poly s bit ^^^ t <<< 1 := by
        rw [← Bool.xor_self bit, shift_xor]
        simp [shift, hmsb]
      rw [feed_cons, List.length_cons, List.replicate_succ, feed_cons, hstep]
      refine ih (by omega) (fun i hi => ?_) _
      rw [BitVec.getMsbD_shiftLeft]
      by_cases hlast : i + 1 < w
      · rw [ht _ hlast, List.getD_cons_succ]
      · rw [List.getD_eq_default _ _ (by omega), BitVec.getMsbD_of_ge _ _ (by omega)]

/-- Zeros only move a register whose front is clear. -/
theorem feed_zeros_of_low {n : ℕ} {s : BitVec w} (hlow : ∀ i < n, s.getMsbD i = false) :
    feed poly s (List.replicate n false) = s <<< n := by
  induction n generalizing s with
  | zero => simp
  | succ n ih =>
      have hmsb : s.msb = false := by rw [BitVec.msb_eq_getMsbD_zero, hlow 0 (by omega)]
      have hstep : shift poly s false = s <<< 1 := by simp [shift, hmsb]
      rw [List.replicate_succ, feed_cons, hstep, ih, ← BitVec.shiftLeft_add, Nat.add_comm]
      intro i hi
      rw [BitVec.getMsbD_shiftLeft, hlow _ (by omega)]

/-! ## Differences -/

section Odd

variable {poly}

/-- With an odd polynomial the last bit tells whether it was added. -/
theorem shift_of_even (hodd : poly.getLsbD 0 = true) {s : BitVec w} {bit : Bool}
    (heven : (shift poly s bit).getLsbD 0 = false) :
    bit = s.msb ∧ shift poly s bit = s <<< 1 := by
  rw [shift] at heven ⊢
  cases hmsb : s.msb ^^ bit with
  | false =>
      refine ⟨?_, rfl⟩
      cases bit <;> simpa using hmsb
  | true =>
      rw [hmsb, if_pos rfl, BitVec.getLsbD_xor, hodd] at heven
      simp at heven

/-- Input that clears the register spelled out its state, if the register is no
shorter than the input. -/
theorem getMsbD_of_feed_eq_zero (hodd : poly.getLsbD 0 = true) {bits : List Bool}
    {s : BitVec w} (hzero : feed poly s bits = 0) (hlength : bits.length ≤ w) :
    ∀ i < w, s.getMsbD i = bits.getD i false := by
  induction bits generalizing s with
  | nil =>
      intro i _
      rw [feed_nil] at hzero
      simp [hzero]
  | cons bit bits ih =>
      intro i hi
      rw [List.length_cons] at hlength
      have hnext := ih hzero (by omega)
      have heven : (shift poly s bit).getLsbD 0 = false := by
        have hlast := hnext (w - 1) (by omega)
        rw [List.getD_eq_default _ _ (by omega)] at hlast
        rw [BitVec.getLsbD_eq_getMsbD, Nat.sub_zero, hlast, Bool.and_false]
      obtain ⟨hbit, hshift⟩ := shift_of_even hodd heven
      cases i with
      | zero => rw [List.getD_cons_zero, hbit, BitVec.msb_eq_getMsbD_zero]
      | succ i =>
          have hi' := hnext i (by omega)
          rwa [hshift, BitVec.getMsbD_shiftLeft] at hi'

theorem feed_ne_zero_of_short (hodd : poly.getLsbD 0 = true) {bits : List Bool}
    (hlength : bits.length ≤ w) (htrue : true ∈ bits) : feed poly 0 bits ≠ 0 := by
  intro hzero
  obtain ⟨i, hi, hbit⟩ := List.getElem_of_mem htrue
  have hnone := getMsbD_of_feed_eq_zero hodd hzero hlength i (by omega)
  rw [List.getD_eq_getElem _ _ hi, hbit] at hnone
  exact absurd hnone (by simp)

/-- Zeros never clear the register. -/
theorem feed_ne_zero_of_state (hodd : poly.getLsbD 0 = true) (n : ℕ) {s : BitVec w}
    (hs : s ≠ 0) : feed poly s (List.replicate n false) ≠ 0 := by
  induction n generalizing s with
  | zero => exact hs
  | succ n ih =>
      rw [List.replicate_succ, feed_cons]
      refine ih fun hzero => hs ?_
      have heven : (shift poly s false).getLsbD 0 = false := by
        rw [hzero]
        simp
      obtain ⟨hmsb, hshift⟩ := shift_of_even hodd heven
      refine BitVec.eq_of_getMsbD_eq fun i hi => ?_
      cases i with
      | zero => rw [← BitVec.msb_eq_getMsbD_zero, ← hmsb]; simp
      | succ i =>
          have hi' := congrArg (BitVec.getMsbD · i) (hshift.symm.trans hzero)
          simpa [BitVec.getMsbD_shiftLeft] using hi'

theorem true_mem_zipWith_xor {old new : List Bool} (hlength : old.length = new.length)
    (hne : old ≠ new) : true ∈ List.zipWith xor old new := by
  induction old generalizing new with
  | nil => exact absurd (List.length_eq_zero_iff.mp hlength.symm).symm hne
  | cons a old ih =>
      cases new with
      | nil => cases hlength
      | cons b new =>
          rw [List.zipWith_cons_cons, List.mem_cons]
          by_cases hab : a = b
          · exact Or.inr (ih (Nat.succ.inj hlength) fun heq => hne (by rw [hab, heq]))
          · refine Or.inl ?_
            cases a <;> cases b <;> first | rfl | exact absurd rfl hab

/-- A burst of at most `w` bits changes the check value, whatever surrounds it. -/
theorem feed_ne_of_burst (hodd : poly.getLsbD 0 = true) (s : BitVec w) (front back : List Bool)
    {old new : List Bool} (hlength : old.length = new.length) (hle : old.length ≤ w)
    (hne : old ≠ new) :
    feed poly s (front ++ old ++ back) ≠ feed poly s (front ++ new ++ back) := by
  intro heq
  have hback : ∀ t : BitVec w, t ^^^ t = 0 := fun t => BitVec.xor_self
  simp only [feed_append] at heq
  refine feed_ne_zero_of_state hodd back.length (s := feed poly (feed poly s front) old ^^^
    feed poly (feed poly s front) new) ?_ ?_
  · rw [← feed_xor poly hlength, hback]
    refine feed_ne_zero_of_short hodd ?_ (true_mem_zipWith_xor hlength hne)
    rw [List.length_zipWith]
    omega
  · rw [← zipWith_xor_self, feed_xor poly rfl, heq, hback]

end Odd

end VisioSchema.Library.Crc

import VisioSchema.Transport.WritePolicy

/-!
# The byte count under a drop bound

`ApplyDropBound` keeps the running byte count of a queue, for any kind of entry.
-/

namespace VisioSchema.Transport

variable {Entry : Type*} (sizeOf : Entry → ℕ)

/-- The bytes of a queue. -/
def totalSize : List Entry → ℕ
  | [] => 0
  | entry :: queue => sizeOf entry + totalSize queue

variable {sizeOf}

@[simp] theorem totalSize_nil : totalSize sizeOf [] = 0 := rfl

@[simp] theorem totalSize_cons (entry : Entry) (queue : List Entry) :
    totalSize sizeOf (entry :: queue) = sizeOf entry + totalSize sizeOf queue := rfl

@[simp] theorem totalSize_append (first second : List Entry) :
    totalSize sizeOf (first ++ second) = totalSize sizeOf first + totalSize sizeOf second := by
  induction first with
  | nil => rw [List.nil_append, totalSize_nil, Nat.zero_add]
  | cons entry first ih => rw [List.cons_append, totalSize_cons, totalSize_cons, ih, Nat.add_assoc]

theorem totalSize_perm {first second : List Entry} (hperm : first.Perm second) :
    totalSize sizeOf first = totalSize sizeOf second := by
  induction hperm with
  | nil => rfl
  | cons entry _ ih => rw [totalSize_cons, totalSize_cons, ih]
  | swap a b queue => simp only [totalSize_cons, Nat.add_left_comm]
  | trans _ _ hfirst hsecond => exact hfirst.trans hsecond

theorem evictWhile_totalSize {policy : WritePolicy} {tooFull : List Entry → ℕ → Bool}
    (fuel : ℕ) (queue : List Entry) :
    (evictWhile sizeOf policy tooFull fuel queue (totalSize sizeOf queue)).2 =
      totalSize sizeOf
        (evictWhile sizeOf policy tooFull fuel queue (totalSize sizeOf queue)).1 := by
  induction fuel generalizing queue with
  | zero => rfl
  | succ fuel ih =>
      rw [evictWhile]
      split
      · split
        next victim rest hevict =>
          have hsize : totalSize sizeOf queue - sizeOf victim = totalSize sizeOf rest := by
            rw [totalSize_perm (evictOne_perm hevict)]
            exact Nat.add_sub_cancel_left ..
          rw [hsize]
          exact ih rest
        next => rfl
      · rfl

/-- The running byte count stays the size of the queue. -/
theorem applyDropBound_totalSize {policy : WritePolicy} {queue left : List Entry}
    {bytes incoming : ℕ}
    (hbound : applyDropBound sizeOf policy queue (totalSize sizeOf queue) incoming =
      some (left, bytes)) : bytes = totalSize sizeOf left := by
  unfold applyDropBound at hbound
  split at hbound
  · have hpair := Option.some.inj hbound
    exact (congrArg Prod.snd hpair).symm.trans
      ((evictWhile_totalSize _ _).trans (congrArg (fun left => totalSize sizeOf left.1) hpair))
  · have hpair := Option.some.inj hbound
    exact (congrArg Prod.snd hpair).symm.trans
      ((evictWhile_totalSize _ _).trans (congrArg (fun left => totalSize sizeOf left.1) hpair))
  · split at hbound
    · obtain ⟨rfl, rfl⟩ : queue = left ∧ totalSize sizeOf queue = bytes := by
        simpa using hbound
      rfl
    · cases hbound

end VisioSchema.Transport

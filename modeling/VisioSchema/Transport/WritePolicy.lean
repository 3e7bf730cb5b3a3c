import Mathlib.Data.List.Basic
import Mathlib.Data.Nat.Notation
import Mathlib.Data.Int.Notation

/-!
# The bounded-queue policy

`WritePolicy` and `ApplyDropBound`, shared by the byte outboxes and the MCAP
endpoint: entries are any type with a size.
-/

namespace VisioSchema.Transport

inductive DropMode
  | dropOldest
  | dropOnFail
  | staleEviction
  deriving DecidableEq, Repr

inductive DrainMode
  | oneAtATime
  | batchAll
  deriving DecidableEq, Repr

/-- `SIZE_MAX` on a 64-bit target. -/
def sizeMax : ℕ := 18446744073709551615

structure WritePolicy where
  drop : DropMode := .dropOldest
  drain : DrainMode := .oneAtATime
  maxDepth : ℕ := 1024
  maxBytes : ℕ := sizeMax
  maxAge : ℤ := 0
  protectBelowBytes : ℕ := 0
  deriving DecidableEq, Repr

namespace WritePolicy

def dropOldest (depth : ℕ) : WritePolicy := { drop := .dropOldest, maxDepth := depth }

def lossless : WritePolicy := { drop := .dropOldest, maxDepth := sizeMax }

end WritePolicy

section Bound

variable {Entry : Type*} (sizeOf : Entry → ℕ)

/-- Removes the oldest entry of at least `protect` bytes, if there is one. -/
def evictBulk (protect : ℕ) : List Entry → Option (Entry × List Entry)
  | [] => none
  | entry :: queue =>
      if protect ≤ sizeOf entry then some (entry, queue)
      else (evictBulk protect queue).map fun (victim, rest) => (victim, entry :: rest)

/-- `evict_one`: the entry that goes and the queue left behind. -/
def evictOne (policy : WritePolicy) (queue : List Entry) : Option (Entry × List Entry) :=
  match if 0 < policy.protectBelowBytes then evictBulk sizeOf policy.protectBelowBytes queue
    else none with
  | some found => some found
  | none =>
      match queue with
      | [] => none
      | front :: rest => some (front, rest)

/-- The `while` loop around `evict_one`.  Every turn shortens the queue, so
the queue's length is fuel enough (`evictWhile_settled`). -/
def evictWhile (policy : WritePolicy) (tooFull : List Entry → ℕ → Bool) :
    ℕ → List Entry → ℕ → List Entry × ℕ
  | 0, queue, bytes => (queue, bytes)
  | fuel + 1, queue, bytes =>
      if tooFull queue bytes then
        match evictOne sizeOf policy queue with
        | some (victim, rest) => evictWhile policy tooFull fuel rest (bytes - sizeOf victim)
        | none => (queue, bytes)
      else (queue, bytes)

/-- `ApplyDropBound`: the queue and its byte count once one more entry of
`incoming` bytes fits, or `none` where the new entry is rejected. -/
def applyDropBound (policy : WritePolicy) (queue : List Entry) (bytes incoming : ℕ) :
    Option (List Entry × ℕ) :=
  match policy.drop with
  | .dropOldest =>
      some (evictWhile sizeOf policy (fun q _ => decide (policy.maxDepth ≤ q.length))
        queue.length queue bytes)
  | .staleEviction =>
      some (evictWhile sizeOf policy (fun _ b => decide (policy.maxBytes < b + incoming))
        queue.length queue bytes)
  | .dropOnFail => if queue.length < policy.maxDepth then some (queue, bytes) else none

variable {sizeOf} {policy : WritePolicy}

/-- An eviction takes one entry out of the queue and keeps the others in order. -/
theorem evictBulk_split {protect : ℕ} {queue rest : List Entry} {victim : Entry}
    (hevict : evictBulk sizeOf protect queue = some (victim, rest)) :
    ∃ front back, queue = front ++ victim :: back ∧ rest = front ++ back := by
  induction queue generalizing rest with
  | nil => simp [evictBulk] at hevict
  | cons entry queue ih =>
      rw [evictBulk] at hevict
      split at hevict
      · obtain ⟨rfl, rfl⟩ : entry = victim ∧ queue = rest := by simpa using hevict
        exact ⟨[], queue, rfl, rfl⟩
      · obtain ⟨⟨found, left⟩, hfound, hpair⟩ := Option.map_eq_some_iff.mp hevict
        obtain ⟨rfl, rfl⟩ : found = victim ∧ entry :: left = rest := by simpa using hpair
        obtain ⟨front, back, hqueue, hleft⟩ := ih hfound
        exact ⟨entry :: front, back, by simp [hqueue], by simp [hleft]⟩

theorem evictOne_split {queue rest : List Entry} {victim : Entry}
    (hevict : evictOne sizeOf policy queue = some (victim, rest)) :
    ∃ front back, queue = front ++ victim :: back ∧ rest = front ++ back := by
  unfold evictOne at hevict
  split at hevict
  next found hfound =>
    obtain rfl : found = (victim, rest) := by simpa using hevict
    split at hfound
    · exact evictBulk_split hfound
    · cases hfound
  next =>
    cases queue with
    | nil => cases hevict
    | cons front queue =>
        obtain ⟨rfl, rfl⟩ : front = victim ∧ queue = rest := by simpa using hevict
        exact ⟨[], queue, rfl, rfl⟩

theorem evictOne_eq_none {queue : List Entry} (hnone : evictOne sizeOf policy queue = none) :
    queue = [] := by
  unfold evictOne at hnone
  split at hnone
  · cases hnone
  · cases queue with
    | nil => rfl
    | cons front queue => cases hnone

/-- The loop stops because its condition fails or nothing is left to evict. -/
theorem evictWhile_settled {tooFull : List Entry → ℕ → Bool} (fuel : ℕ) (queue : List Entry)
    (bytes : ℕ) (hfuel : queue.length ≤ fuel) {left : List Entry} {bytes' : ℕ}
    (hleft : evictWhile sizeOf policy tooFull fuel queue bytes = (left, bytes')) :
    tooFull left bytes' = false ∨ left = [] := by
  induction fuel generalizing queue bytes with
  | zero =>
      obtain ⟨rfl, rfl⟩ : queue = left ∧ bytes = bytes' := by simpa [evictWhile] using hleft
      exact Or.inr (List.length_eq_zero_iff.mp (Nat.le_zero.mp hfuel))
  | succ fuel ih =>
      rw [evictWhile] at hleft
      split at hleft
      next =>
        split at hleft
        next victim rest hevict =>
          obtain ⟨front, back, rfl, rfl⟩ := evictOne_split hevict
          exact ih _ _ (by simp at hfuel ⊢; omega) hleft
        next hnone =>
          obtain ⟨rfl, rfl⟩ : queue = left ∧ bytes = bytes' := by simpa using hleft
          exact Or.inr (evictOne_eq_none hnone)
      next hfull =>
        obtain ⟨rfl, rfl⟩ : queue = left ∧ bytes = bytes' := by simpa using hleft
        exact Or.inl (by simpa using hfull)

theorem evictWhile_sublist {tooFull : List Entry → ℕ → Bool} (fuel : ℕ) (queue : List Entry)
    (bytes : ℕ) : (evictWhile sizeOf policy tooFull fuel queue bytes).1.Sublist queue := by
  induction fuel generalizing queue bytes with
  | zero => exact List.Sublist.refl _
  | succ fuel ih =>
      rw [evictWhile]
      split
      · split
        next victim rest hevict =>
          obtain ⟨front, back, rfl, rfl⟩ := evictOne_split hevict
          exact (ih _ _).trans ((List.sublist_cons_self victim back).append_left front)
        next => exact List.Sublist.refl _
      · exact List.Sublist.refl _

/-- Whatever the policy sheds, what is left was in the queue, in the same order. -/
theorem applyDropBound_sublist {queue left : List Entry} {bytes bytes' incoming : ℕ}
    (hbound : applyDropBound sizeOf policy queue bytes incoming = some (left, bytes')) :
    left.Sublist queue := by
  unfold applyDropBound at hbound
  split at hbound
  · obtain rfl : _ = left := congrArg Prod.fst (Option.some.inj hbound)
    exact evictWhile_sublist ..
  · obtain rfl : _ = left := congrArg Prod.fst (Option.some.inj hbound)
    exact evictWhile_sublist ..
  · split at hbound
    · obtain ⟨rfl, -⟩ : queue = left ∧ bytes = bytes' := by simpa using hbound
      exact List.Sublist.refl _
    · cases hbound

/-! ## The evictions of a call -/

/-- One turn of an eviction loop. -/
structure Eviction (Entry : Type*) where
  queue : List Entry
  victim : Entry
  rest : List Entry
  deriving DecidableEq, Repr

variable (sizeOf policy)

/-- The turns of `evictWhile`. -/
def evictions (tooFull : List Entry → ℕ → Bool) :
    ℕ → List Entry → ℕ → List (Eviction Entry)
  | 0, _, _ => []
  | fuel + 1, queue, bytes =>
      if tooFull queue bytes then
        match evictOne sizeOf policy queue with
        | some (victim, rest) =>
            ⟨queue, victim, rest⟩ :: evictions tooFull fuel rest (bytes - sizeOf victim)
        | none => []
      else []

/-- What `ApplyDropBound` evicts, turn by turn. -/
def dropBoundEvictions (queue : List Entry) (bytes incoming : ℕ) : List (Eviction Entry) :=
  match policy.drop with
  | .dropOldest =>
      evictions sizeOf policy (fun q _ => decide (policy.maxDepth ≤ q.length))
        queue.length queue bytes
  | .staleEviction =>
      evictions sizeOf policy (fun _ b => decide (policy.maxBytes < b + incoming))
        queue.length queue bytes
  | .dropOnFail => []

variable {sizeOf policy}

/-- One turn takes out one entry. -/
theorem evictOne_perm {queue rest : List Entry} {victim : Entry}
    (hevict : evictOne sizeOf policy queue = some (victim, rest)) :
    queue.Perm (victim :: rest) := by
  obtain ⟨front, back, rfl, rfl⟩ := evictOne_split hevict
  exact List.perm_middle

theorem evictWhile_perm {tooFull : List Entry → ℕ → Bool} (fuel : ℕ) (queue : List Entry)
    (bytes : ℕ) :
    queue.Perm ((evictions sizeOf policy tooFull fuel queue bytes).map Eviction.victim ++
      (evictWhile sizeOf policy tooFull fuel queue bytes).1) := by
  induction fuel generalizing queue bytes with
  | zero => exact List.Perm.refl _
  | succ fuel ih =>
      rw [evictWhile, evictions]
      split
      · split
        next victim rest hevict => exact (evictOne_perm hevict).trans ((ih _ _).cons victim)
        next => exact List.Perm.refl _
      · exact List.Perm.refl _

/-- Every frame of the queue is evicted or left. -/
theorem applyDropBound_perm {queue left : List Entry} {bytes bytes' incoming : ℕ}
    (hbound : applyDropBound sizeOf policy queue bytes incoming = some (left, bytes')) :
    queue.Perm ((dropBoundEvictions sizeOf policy queue bytes incoming).map Eviction.victim ++
      left) := by
  unfold applyDropBound at hbound
  unfold dropBoundEvictions
  split at hbound
  · obtain rfl : _ = left := congrArg Prod.fst (Option.some.inj hbound)
    exact evictWhile_perm ..
  · obtain rfl : _ = left := congrArg Prod.fst (Option.some.inj hbound)
    exact evictWhile_perm ..
  · split at hbound
    · obtain ⟨rfl, -⟩ : queue = left ∧ bytes = bytes' := by simpa using hbound
      exact List.Perm.refl _
    · cases hbound

end Bound

end VisioSchema.Transport

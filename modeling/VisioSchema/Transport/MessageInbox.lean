import VisioSchema.Library.Runs
import VisioSchema.Transport.DropBound

/-!
# The inbox between a reader thread and its consumer

`MessageInbox` of `message_inbox.hpp`: threads push and close, one consumer takes batches and waits
on a condition variable.  A critical section is one step; the notification that follows it outside
the lock is another, and only a push onto an empty queue has one.

In every run (`run_inbox`) a consumer that waits in front of messages, or in front of a closed
inbox, has a notification on its way; what was delivered and what waits is what was pushed, in that
order and less what was counted as dropped; and the byte count is that of the queue.
-/

namespace VisioSchema.Transport

open Library

namespace MessageInbox

/-! ## The inbox -/

/-- The consumer outside of `PopBatch`, in the wait of `PopBatch`, and woken in front of the
lock. -/
inductive ConsumerPc
  | idle
  | waiting (maxFrames : ℕ)
  | woken (maxFrames : ℕ)
  deriving DecidableEq

end MessageInbox

open MessageInbox

/-- The inbox, its consumer, the threads that have a notification ahead, and what was pushed and
what was taken so far. -/
structure MessageInbox (P Entry : Type*) where
  policy : WritePolicy
  queue : List Entry := []
  bytes : ℕ := 0
  closed : Bool := false
  dropped : ℕ := 0
  consumer : ConsumerPc := .idle
  notifying : P → Bool := fun _ => false
  pushed : List Entry := []
  delivered : List Entry := []

namespace MessageInbox

/-- What happens next: a thread pushes, closes or notifies, the consumer enters `PopBatch`, wakes
for no reason, gets the lock again, or its wait times out. -/
inductive Input (P Entry : Type*)
  | push (p : P) (msg : Entry)
  | close (p : P)
  | notify (p : P)
  | popBatch (maxFrames : ℕ)
  | wake
  | recheck
  | timeout

variable {P Entry : Type*} [DecidableEq P] (sizeOf : Entry → ℕ)

/-- `Push` under the lock. -/
def push (s : MessageInbox P Entry) (p : P) (msg : Entry) : MessageInbox P Entry :=
  match applyDropBound sizeOf s.policy s.queue s.bytes (sizeOf msg) with
  | none => { s with dropped := s.dropped + 1, pushed := s.pushed ++ [msg] }
  | some (left, bytes) =>
      { s with
        queue := left ++ [msg]
        bytes := bytes + sizeOf msg
        dropped := s.dropped + (s.queue.length - left.length)
        notifying := Function.update s.notifying p s.queue.isEmpty
        pushed := s.pushed ++ [msg] }

/-- `Close` under the lock. -/
def close (s : MessageInbox P Entry) (p : P) : MessageInbox P Entry :=
  { s with closed := true, notifying := Function.update s.notifying p true }

/-- `notify_one` or `notify_all`: there is one consumer to wake. -/
def notify (s : MessageInbox P Entry) (p : P) : MessageInbox P Entry :=
  { s with
    notifying := Function.update s.notifying p false
    consumer := match s.consumer with
      | .waiting maxFrames => .woken maxFrames
      | other => other }

/-- `!queue_.empty() || closed_`. -/
def ready (s : MessageInbox P Entry) : Bool := !s.queue.isEmpty || s.closed

/-- The batch that `PopBatch` returns. -/
def take (s : MessageInbox P Entry) (maxFrames : ℕ) : MessageInbox P Entry :=
  if maxFrames = 0 ∨ s.queue.length ≤ maxFrames then
    { s with queue := [], bytes := 0, consumer := .idle, delivered := s.delivered ++ s.queue }
  else
    { s with
      queue := s.queue.drop maxFrames
      bytes := s.bytes - totalSize sizeOf (s.queue.take maxFrames)
      consumer := .idle
      delivered := s.delivered ++ s.queue.take maxFrames }

/-- With the lock held: the batch if there is one, or a wait. -/
def popBatch (s : MessageInbox P Entry) (maxFrames : ℕ) : MessageInbox P Entry :=
  if s.ready then s.take sizeOf maxFrames else { s with consumer := .waiting maxFrames }

def step (s : MessageInbox P Entry) : Input P Entry → MessageInbox P Entry
  | .push p msg => if s.notifying p then s else s.push sizeOf p msg
  | .close p => if s.notifying p then s else s.close p
  | .notify p => if s.notifying p then s.notify p else s
  | .popBatch maxFrames =>
      match s.consumer with
      | .idle => s.popBatch sizeOf maxFrames
      | _ => s
  | .wake =>
      match s.consumer with
      | .waiting maxFrames => { s with consumer := .woken maxFrames }
      | _ => s
  | .recheck =>
      match s.consumer with
      | .woken maxFrames => s.popBatch sizeOf maxFrames
      | _ => s
  | .timeout =>
      match s.consumer with
      | .waiting maxFrames => s.take sizeOf maxFrames
      | _ => s

/-- A state that any order of steps leads to. -/
def run (policy : WritePolicy) (inputs : List (Input P Entry)) : MessageInbox P Entry :=
  inputs.foldl (step sizeOf) { policy := policy }

/-! ## What every step keeps -/

/-- What is delivered and what is queued was pushed in that order, and the rest is counted. -/
structure Conserved (s : MessageInbox P Entry) : Prop where
  bytes : s.bytes = totalSize sizeOf s.queue
  order : (s.delivered ++ s.queue).Sublist s.pushed
  count : s.delivered.length + s.queue.length + s.dropped = s.pushed.length

/-- A consumer that waits in front of something has a notification on its way. -/
def Notified (s : MessageInbox P Entry) : Prop :=
  ∀ maxFrames, s.consumer = .waiting maxFrames → s.ready = true → ∃ p, s.notifying p = true

/-- The queue is within what its policy allows; a single message always is. -/
def Bounded (s : MessageInbox P Entry) : Prop :=
  match s.policy.drop with
  | .dropOldest => s.queue.length ≤ max 1 s.policy.maxDepth
  | .staleEviction => s.bytes ≤ s.policy.maxBytes ∨ s.queue.length ≤ 1
  | .dropOnFail => s.queue.length ≤ s.policy.maxDepth

structure Ok (s : MessageInbox P Entry) : Prop where
  conserved : s.Conserved sizeOf
  notified : s.Notified
  bounded : s.Bounded

variable {sizeOf} {s : MessageInbox P Entry} {p : P} {msg : Entry}

omit [DecidableEq P] in
theorem ready_iff : s.ready = true ↔ s.queue ≠ [] ∨ s.closed = true := by
  simp [ready]

theorem Conserved.push (hs : s.Conserved sizeOf) : (s.push sizeOf p msg).Conserved sizeOf := by
  have hcount := hs.count
  unfold MessageInbox.push
  split
  next =>
    refine ⟨hs.bytes, hs.order.trans (List.sublist_append_left _ _), ?_⟩
    rw [List.length_append, List.length_singleton]
    show s.delivered.length + s.queue.length + (s.dropped + 1) = s.pushed.length + 1
    omega
  next left bytes hbound =>
    have hleft := applyDropBound_sublist hbound
    have hlength := hleft.length_le
    rw [hs.bytes] at hbound
    refine ⟨?_, ?_, ?_⟩
    · show bytes + sizeOf msg = totalSize sizeOf (left ++ [msg])
      rw [totalSize_append, applyDropBound_totalSize hbound, totalSize_cons, totalSize_nil,
        Nat.add_zero]
    · show (s.delivered ++ (left ++ [msg])).Sublist (s.pushed ++ [msg])
      rw [← List.append_assoc]
      exact ((hleft.append_left s.delivered).trans hs.order).append_right [msg]
    · show s.delivered.length + (left ++ [msg]).length +
        (s.dropped + (s.queue.length - left.length)) = (s.pushed ++ [msg]).length
      rw [List.length_append, List.length_append, List.length_singleton]
      omega

omit [DecidableEq P] in
theorem Conserved.take (hs : s.Conserved sizeOf) (maxFrames : ℕ) :
    (s.take sizeOf maxFrames).Conserved sizeOf := by
  have hcount := hs.count
  unfold MessageInbox.take
  split
  next =>
    refine ⟨rfl, ?_, ?_⟩
    · show (s.delivered ++ s.queue ++ []).Sublist s.pushed
      rw [List.append_nil]
      exact hs.order
    · show (s.delivered ++ s.queue).length + 0 + s.dropped = s.pushed.length
      rw [List.length_append, Nat.add_zero]
      exact hcount
  next =>
    refine ⟨?_, ?_, ?_⟩
    · show s.bytes - totalSize sizeOf (s.queue.take maxFrames) =
        totalSize sizeOf (s.queue.drop maxFrames)
      have hsplit : totalSize sizeOf s.queue = totalSize sizeOf (s.queue.take maxFrames) +
          totalSize sizeOf (s.queue.drop maxFrames) := by
        rw [← totalSize_append, List.take_append_drop]
      rw [hs.bytes, hsplit]
      exact Nat.add_sub_cancel_left ..
    · show (s.delivered ++ s.queue.take maxFrames ++ s.queue.drop maxFrames).Sublist s.pushed
      rw [List.append_assoc, List.take_append_drop]
      exact hs.order
    · show (s.delivered ++ s.queue.take maxFrames).length + (s.queue.drop maxFrames).length +
        s.dropped = s.pushed.length
      have hsplit := congrArg List.length (List.take_append_drop maxFrames s.queue)
      rw [List.length_append] at hsplit ⊢
      omega

/-- A push onto an empty queue has its notification ahead, and one onto a queue in front of which
the consumer waits finds another on its way. -/
theorem Notified.push (hs : s.Notified) (hquiet : s.notifying p = false) :
    (s.push sizeOf p msg).Notified := by
  intro maxFrames hwaiting hready
  unfold MessageInbox.push at hwaiting hready ⊢
  split
  next hbound =>
    simp only [hbound] at hwaiting hready
    exact hs maxFrames hwaiting hready
  next left bytes hbound =>
    simp only [hbound] at hwaiting hready
    cases hempty : s.queue.isEmpty with
    | true => exact ⟨p, Function.update_self ..⟩
    | false =>
        have hbefore : s.ready = true := by simp [ready, hempty]
        obtain ⟨q, hq⟩ := hs maxFrames hwaiting hbefore
        have hne : q ≠ p := by
          rintro rfl
          exact Bool.false_ne_true (hquiet.symm.trans hq)
        exact ⟨q, (Function.update_of_ne hne ..).trans hq⟩

omit [DecidableEq P] in
theorem notified_take (maxFrames : ℕ) : (s.take sizeOf maxFrames).Notified := by
  intro _ hwaiting
  unfold MessageInbox.take at hwaiting
  split at hwaiting <;> cases hwaiting

omit [DecidableEq P] in
theorem Conserved.popBatch (hs : s.Conserved sizeOf) (maxFrames : ℕ) :
    (s.popBatch sizeOf maxFrames).Conserved sizeOf := by
  unfold MessageInbox.popBatch
  split
  · exact hs.take maxFrames
  · exact ⟨hs.bytes, hs.order, hs.count⟩

/-- There is room behind a queue for one more message. -/
def Roomy (policy : WritePolicy) (queue : List Entry) (bytes incoming : ℕ) : Prop :=
  match policy.drop with
  | .dropOldest => queue.length < policy.maxDepth ∨ queue = []
  | .staleEviction => bytes + incoming ≤ policy.maxBytes ∨ queue = []
  | .dropOnFail => queue.length < policy.maxDepth

omit [DecidableEq P] in
theorem roomy_of_applyDropBound {queue left : List Entry} {policy : WritePolicy}
    {bytes bytes' incoming : ℕ}
    (hbound : applyDropBound sizeOf policy queue bytes incoming = some (left, bytes')) :
    Roomy policy left bytes' incoming := by
  unfold applyDropBound at hbound
  unfold Roomy
  cases hdrop : policy.drop with
  | dropOldest =>
      simp only [hdrop, Option.some.injEq] at hbound ⊢
      refine (evictWhile_settled _ _ _ (Nat.le_refl _) hbound).imp_left fun hroom => ?_
      simpa using hroom
  | staleEviction =>
      simp only [hdrop, Option.some.injEq] at hbound ⊢
      refine (evictWhile_settled _ _ _ (Nat.le_refl _) hbound).imp_left fun hroom => ?_
      simpa using hroom
  | dropOnFail =>
      simp only [hdrop] at hbound ⊢
      split at hbound
      next hroom =>
        cases hbound
        exact hroom
      next => cases hbound

theorem Bounded.push (hs : s.Bounded) : (s.push sizeOf p msg).Bounded := by
  unfold MessageInbox.push
  split
  next => exact hs
  next left bytes hbound =>
    have hroom := roomy_of_applyDropBound hbound
    unfold Roomy at hroom
    unfold Bounded
    dsimp only
    cases hdrop : s.policy.drop with
    | dropOldest =>
        simp only [hdrop] at hroom ⊢
        rw [List.length_append, List.length_singleton]
        rcases hroom with hless | rfl
        · exact Nat.le_trans hless (Nat.le_max_right 1 _)
        · exact Nat.le_max_left 1 _
    | staleEviction =>
        simp only [hdrop] at hroom ⊢
        rcases hroom with hfits | rfl
        · exact .inl hfits
        · exact .inr (Nat.le_refl 1)
    | dropOnFail =>
        simp only [hdrop] at hroom ⊢
        rw [List.length_append, List.length_singleton]
        exact hroom

omit [DecidableEq P] in
theorem Bounded.take (hs : s.Bounded) (maxFrames : ℕ) : (s.take sizeOf maxFrames).Bounded := by
  unfold MessageInbox.take
  split
  next =>
    unfold Bounded
    dsimp only
    split
    · exact Nat.zero_le _
    · exact .inl (Nat.zero_le _)
    · exact Nat.zero_le _
  next =>
    have hless : (s.queue.drop maxFrames).length ≤ s.queue.length := by
      rw [List.length_drop]
      exact Nat.sub_le _ _
    unfold Bounded at hs ⊢
    dsimp only
    cases hdrop : s.policy.drop with
    | dropOldest =>
        simp only [hdrop] at hs ⊢
        exact hless.trans hs
    | staleEviction =>
        simp only [hdrop] at hs ⊢
        exact hs.imp (Nat.sub_le _ _).trans hless.trans
    | dropOnFail =>
        simp only [hdrop] at hs ⊢
        exact hless.trans hs

omit [DecidableEq P] in
theorem Ok.take (hs : s.Ok sizeOf) (maxFrames : ℕ) : (s.take sizeOf maxFrames).Ok sizeOf :=
  ⟨hs.conserved.take maxFrames, notified_take maxFrames, hs.bounded.take maxFrames⟩

omit [DecidableEq P] in
theorem Ok.popBatch (hs : s.Ok sizeOf) (maxFrames : ℕ) :
    (s.popBatch sizeOf maxFrames).Ok sizeOf := by
  unfold MessageInbox.popBatch
  split
  next => exact hs.take maxFrames
  next hnot =>
    exact ⟨⟨hs.conserved.bytes, hs.conserved.order, hs.conserved.count⟩,
      fun _ _ hready => absurd hready hnot, hs.bounded⟩

/-! ## Runs -/

theorem Ok.step (hs : s.Ok sizeOf) (input : Input P Entry) : (s.step sizeOf input).Ok sizeOf := by
  have hconserved : ∀ (closed : Bool) (consumer : ConsumerPc) (notifying : P → Bool),
      Conserved sizeOf { s with closed := closed, consumer := consumer, notifying := notifying } :=
    fun _ _ _ => ⟨hs.conserved.bytes, hs.conserved.order, hs.conserved.count⟩
  cases input with
  | push p msg =>
      show (if s.notifying p then s else s.push sizeOf p msg).Ok sizeOf
      split
      next => exact hs
      next hquiet =>
        exact ⟨hs.conserved.push, hs.notified.push (Bool.not_eq_true _ ▸ hquiet), hs.bounded.push⟩
  | close p =>
      show (if s.notifying p then s else s.close p).Ok sizeOf
      split
      next => exact hs
      next => exact ⟨hconserved _ _ _, fun _ _ _ => ⟨p, Function.update_self ..⟩, hs.bounded⟩
  | notify p =>
      show (if s.notifying p then s.notify p else s).Ok sizeOf
      split
      next =>
        refine ⟨hconserved _ _ _, fun maxFrames hwaiting => ?_, hs.bounded⟩
        -- The consumer does not wait behind a notification.
        unfold MessageInbox.notify at hwaiting
        cases hconsumer : s.consumer <;> simp [hconsumer] at hwaiting
      next => exact hs
  | popBatch maxFrames =>
      simp only [MessageInbox.step]
      split
      next => exact hs.popBatch maxFrames
      next => exact hs
  | wake =>
      simp only [MessageInbox.step]
      split
      next => exact ⟨hconserved _ _ _, fun _ hwaiting => by simp at hwaiting, hs.bounded⟩
      next => exact hs
  | recheck =>
      simp only [MessageInbox.step]
      split
      next maxFrames _ => exact hs.popBatch maxFrames
      next => exact hs
  | timeout =>
      simp only [MessageInbox.step]
      split
      next maxFrames _ => exact hs.take maxFrames
      next => exact hs

omit [DecidableEq P] in
theorem init_ok (policy : WritePolicy) :
    ({ policy := policy } : MessageInbox P Entry).Ok sizeOf := by
  refine ⟨⟨rfl, List.Sublist.refl _, rfl⟩, ?_, ?_⟩
  · intro _ hwaiting
    cases hwaiting
  · unfold Bounded
    dsimp only
    split
    · exact Nat.zero_le _
    · exact .inl (Nat.zero_le _)
    · exact Nat.zero_le _

/-- In every run: what was delivered and what waits is a part of what was pushed, in its order, and
the count of dropped messages is that of the rest; the queue is within its policy and its byte
count is right; and a consumer that waits while no notification is on its way waits in front of an
empty and open inbox. -/
theorem run_inbox (policy : WritePolicy) (inputs : List (Input P Entry)) :
    let s := run sizeOf policy inputs
    s.Conserved sizeOf ∧ s.Bounded ∧
      ((∀ p, s.notifying p = false) → ∀ maxFrames, s.consumer = .waiting maxFrames →
        s.queue = [] ∧ s.closed = false) := by
  have hok : (run sizeOf policy inputs).Ok sizeOf :=
    run_invariant (fun _ input hs => hs.step input) (init_ok policy) inputs
  refine ⟨hok.conserved, hok.bounded, fun hquiet maxFrames hwaiting => ?_⟩
  have hnot : (run sizeOf policy inputs).ready ≠ true := by
    intro hready
    obtain ⟨p, hp⟩ := hok.notified maxFrames hwaiting hready
    exact Bool.false_ne_true ((hquiet p).symm.trans hp)
  rw [Ne, ready_iff, not_or, not_not, Bool.not_eq_true] at hnot
  exact hnot

end MessageInbox

end VisioSchema.Transport

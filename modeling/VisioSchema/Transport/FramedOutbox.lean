import Mathlib.Algebra.BigOperators.Group.List.Basic
import Mathlib.Algebra.Order.Ring.Nat
import VisioSchema.Library.Frames
import VisioSchema.Transport.WritePolicy
import VisioSchema.Wire.Codec

/-!
# The framed outbox

`FramedOutbox`: a bounded queue of framed payloads and the one unit that is
committed to the wire.  `Drain` releases the queue's lock around its writes, so
its phases are separate definitions here and the endpoint's I/O thread takes
them one at a time.
-/

namespace VisioSchema.Transport

open VisioSchema.Wire VisioSchema.Library

/-! ## The unit in flight -/

/-- `in_flight_` and `in_flight_off_`. -/
structure InFlight where
  data : Option (List Byte) := none
  off : ℕ := 0
  deriving DecidableEq, Repr

namespace InFlight

def bytes (unit : InFlight) : List Byte := unit.data.getD []

/-- `InFlightActive`. -/
def active (unit : InFlight) : Bool := decide (unit.off < unit.bytes.length)

/-- What the wire already carries of the unit, and what it still has to. -/
def written (unit : InFlight) : List Byte := unit.bytes.take unit.off

def remainder (unit : InFlight) : List Byte := unit.bytes.drop unit.off

/-- The bytes of one write when the link takes up to `accept` of them. -/
def chunk (unit : InFlight) (accept : ℕ) : List Byte := unit.remainder.take accept

/-- Advances past what was written; a finished unit is released. -/
def advance (unit : InFlight) (accept : ℕ) : InFlight :=
  let off := unit.off + (unit.chunk accept).length
  if off < unit.bytes.length then { unit with off := off } else {}

@[simp] theorem active_empty : ({} : InFlight).active = false := rfl

@[simp] theorem bytes_empty : ({} : InFlight).bytes = [] := rfl

theorem written_append_chunk (unit : InFlight) (accept : ℕ) :
    unit.written ++ unit.chunk accept = unit.bytes.take (unit.off + accept) := by
  rw [written, chunk, remainder, List.take_add]

/-- A write leaves the unit partly written, or finishes it. -/
theorem advance_cases (unit : InFlight) (accept : ℕ) :
    ((unit.advance accept).active = true ∧ (unit.advance accept).bytes = unit.bytes ∧
        (unit.advance accept).written = unit.written ++ unit.chunk accept) ∨
      (unit.advance accept = {} ∧ unit.written ++ unit.chunk accept = unit.bytes) := by
  rw [written_append_chunk]
  simp only [advance]
  split
  next hpartial =>
    refine Or.inl ⟨decide_eq_true hpartial, rfl, ?_⟩
    simp only [chunk, remainder, List.length_take, List.length_drop] at hpartial
    have hoff : unit.off + (unit.chunk accept).length = unit.off + accept := by
      simp only [chunk, remainder, List.length_take, List.length_drop]
      omega
    rw [written, hoff]
    rfl
  next hdone =>
    refine Or.inr ⟨rfl, List.take_of_length_le ?_⟩
    simp only [chunk, remainder, List.length_take, List.length_drop] at hdone
    omega

theorem remainder_of_inactive {unit : InFlight} (hidle : unit.active = false) :
    unit.remainder = [] :=
  List.drop_eq_nil_of_le (by simpa [active] using hidle)

theorem chunk_append_remainder (unit : InFlight) (accept : ℕ) :
    unit.chunk accept ++ (unit.advance accept).remainder = unit.remainder := by
  rcases unit.advance_cases accept with ⟨-, hbytes, hwritten⟩ | ⟨hempty, hall⟩
  · refine (List.append_right_inj unit.written).mp ?_
    calc unit.written ++ (unit.chunk accept ++ (unit.advance accept).remainder)
        = (unit.advance accept).written ++ (unit.advance accept).remainder := by
          rw [hwritten, List.append_assoc]
      _ = unit.bytes := by rw [written, remainder, List.take_append_drop, hbytes]
      _ = unit.written ++ unit.remainder := by rw [written, remainder, List.take_append_drop]
  · refine (List.append_right_inj unit.written).mp ?_
    rw [hempty, ← List.append_assoc, hall]
    simp [remainder, written]

end InFlight

/-! ## The outbox -/

structure Entry where
  data : List Byte
  enqueueUs : ℤ
  keyframe : Bool := false
  deriving DecidableEq, Repr

def Entry.size (entry : Entry) : ℕ := entry.data.length

structure FramedOutbox where
  policy : WritePolicy
  queue : List Entry := []
  queueBytes : ℕ := 0
  inFlight : InFlight := {}
  dropped : ℕ := 0
  deriving DecidableEq, Repr

namespace FramedOutbox

def hasPending (o : FramedOutbox) : Bool := o.inFlight.active || !o.queue.isEmpty

/-- `Enqueue`; the result is `false` only where `DropOnFail` rejects the frame. -/
def enqueue (o : FramedOutbox) (frame : List Byte) (keyframe : Bool) (nowUs : ℤ) :
    FramedOutbox × Bool :=
  match applyDropBound Entry.size o.policy o.queue o.queueBytes frame.length with
  | none => ({ o with dropped := o.dropped + 1 }, false)
  | some (queue, bytes) =>
      ({ o with
          queue := queue ++ [{ data := frame, enqueueUs := nowUs, keyframe := keyframe }]
          queueBytes := bytes + frame.length
          dropped := o.dropped + (o.queue.length - queue.length) }, true)

/-- `TryEnqueue`: bounded, but nothing already queued is shed. -/
def tryEnqueue (o : FramedOutbox) (frame : List Byte) (limit : ℕ) (nowUs : ℤ) :
    FramedOutbox × Bool :=
  if frame.isEmpty || decide (limit < frame.length) then (o, false)
  else if limit - frame.length < o.queueBytes then (o, false)
  else
    ({ o with
        queue := o.queue ++ [{ data := frame, enqueueUs := nowUs }]
        queueBytes := o.queueBytes + frame.length }, true)

/-- `DiscardQueued` leaves the committed bytes alone. -/
def discardQueued (o : FramedOutbox) : FramedOutbox := { o with queue := [], queueBytes := 0 }

/-- `Clear`. -/
def clear (o : FramedOutbox) : FramedOutbox :=
  { o with queue := [], queueBytes := 0, inFlight := {} }

/-- What the age pass keeps: the fresh, the sync points and the protected small. -/
def keepsAged (policy : WritePolicy) (nowUs : ℤ) (entry : Entry) : Bool :=
  decide (nowUs - entry.enqueueUs ≤ policy.maxAge) || entry.keyframe ||
    (decide (0 < policy.protectBelowBytes) && decide (entry.size < policy.protectBelowBytes))

/-- The age eviction of `Drain`'s second phase. -/
def ageEvict (o : FramedOutbox) (nowUs : ℤ) : FramedOutbox :=
  if o.policy.drop = .staleEviction ∧ 0 < o.policy.maxAge then
    let gone := o.queue.filter fun entry => !keepsAged o.policy nowUs entry
    { o with
        queue := o.queue.filter (keepsAged o.policy nowUs)
        queueBytes := o.queueBytes - (gone.map Entry.size).sum
        dropped := o.dropped + gone.length }
  else o

/-- `PromoteToInFlight`: the whole queue as one batch, or its front alone. -/
def promoteToInFlight (o : FramedOutbox) : FramedOutbox :=
  match o.queue with
  | [] => o
  | front :: rest =>
      if o.policy.drain = .batchAll ∧ 1 < o.queue.length then
        { o with queue := [], queueBytes := 0,
                 inFlight := { data := some (o.queue.flatMap Entry.data) } }
      else
        { o with queue := rest, queueBytes := o.queueBytes - front.size,
                 inFlight := { data := some front.data } }

/-- Accounts for a write of the unit in flight, in `Drain`'s first phase and
in its trailing write alike. -/
def wrote (o : FramedOutbox) (accept : ℕ) : FramedOutbox :=
  { o with inFlight := o.inFlight.advance accept }

section Lemmas

variable (o : FramedOutbox)

@[simp] theorem enqueue_inFlight (frame : List Byte) (keyframe : Bool) (nowUs : ℤ) :
    (o.enqueue frame keyframe nowUs).1.inFlight = o.inFlight := by
  unfold enqueue
  split <;> rfl

@[simp] theorem tryEnqueue_inFlight (frame : List Byte) (limit : ℕ) (nowUs : ℤ) :
    (o.tryEnqueue frame limit nowUs).1.inFlight = o.inFlight := by
  unfold tryEnqueue
  split_ifs <;> rfl

@[simp] theorem discardQueued_inFlight : o.discardQueued.inFlight = o.inFlight := rfl

@[simp] theorem discardQueued_queue : o.discardQueued.queue = [] := rfl

@[simp] theorem clear_inFlight : o.clear.inFlight = {} := rfl

@[simp] theorem clear_queue : o.clear.queue = [] := rfl

@[simp] theorem ageEvict_inFlight (nowUs : ℤ) : (o.ageEvict nowUs).inFlight = o.inFlight := by
  unfold ageEvict
  split <;> rfl

@[simp] theorem wrote_inFlight (accept : ℕ) :
    (o.wrote accept).inFlight = o.inFlight.advance accept := rfl

@[simp] theorem wrote_queue (accept : ℕ) : (o.wrote accept).queue = o.queue := rfl

/-! No operation changes the policy. -/

@[simp] theorem enqueue_policy (frame : List Byte) (keyframe : Bool) (nowUs : ℤ) :
    (o.enqueue frame keyframe nowUs).1.policy = o.policy := by
  unfold enqueue
  split <;> rfl

@[simp] theorem tryEnqueue_policy (frame : List Byte) (limit : ℕ) (nowUs : ℤ) :
    (o.tryEnqueue frame limit nowUs).1.policy = o.policy := by
  unfold tryEnqueue
  split_ifs <;> rfl

@[simp] theorem discardQueued_policy : o.discardQueued.policy = o.policy := rfl

@[simp] theorem clear_policy : o.clear.policy = o.policy := rfl

@[simp] theorem ageEvict_policy (nowUs : ℤ) : (o.ageEvict nowUs).policy = o.policy := by
  unfold ageEvict
  split <;> rfl

@[simp] theorem promoteToInFlight_policy : o.promoteToInFlight.policy = o.policy := by
  unfold promoteToInFlight
  split
  · rfl
  · split <;> rfl

@[simp] theorem wrote_policy (accept : ℕ) : (o.wrote accept).policy = o.policy := rfl

/-- Without the stale-eviction policy nothing ages out. -/
theorem ageEvict_eq_self (hpolicy : o.policy.drop ≠ .staleEviction) (nowUs : ℤ) :
    o.ageEvict nowUs = o := if_neg fun h => hpolicy h.1

variable {o}

/-- An enqueue puts only the new frame among what was queued. -/
theorem mem_enqueue {frame : List Byte} {keyframe : Bool} {nowUs : ℤ} {entry : Entry}
    (hmem : entry ∈ (o.enqueue frame keyframe nowUs).1.queue) :
    entry ∈ o.queue ∨ entry.data = frame := by
  unfold enqueue at hmem
  split at hmem
  next => exact Or.inl hmem
  next queue bytes hbound =>
    rcases List.mem_append.mp hmem with hmem | hmem
    · exact Or.inl ((applyDropBound_sublist hbound).mem hmem)
    · exact Or.inr (by rw [List.mem_singleton.mp hmem])

theorem mem_tryEnqueue {frame : List Byte} {limit : ℕ} {nowUs : ℤ} {entry : Entry}
    (hmem : entry ∈ (o.tryEnqueue frame limit nowUs).1.queue) :
    entry ∈ o.queue ∨ entry.data = frame := by
  unfold tryEnqueue at hmem
  split_ifs at hmem
  · exact Or.inl hmem
  · exact Or.inl hmem
  · rcases List.mem_append.mp hmem with hmem | hmem
    · exact Or.inl hmem
    · exact Or.inr (by rw [List.mem_singleton.mp hmem])

theorem mem_ageEvict {nowUs : ℤ} {entry : Entry} (hmem : entry ∈ (o.ageEvict nowUs).queue) :
    entry ∈ o.queue := by
  unfold ageEvict at hmem
  split at hmem
  · exact (List.mem_filter.mp hmem).1
  · exact hmem

/-- A queue that accepted a frame is not empty. -/
theorem enqueue_queue_ne_nil {frame : List Byte} {keyframe : Bool} {nowUs : ℤ}
    (hne : o.queue ≠ []) : (o.enqueue frame keyframe nowUs).1.queue ≠ [] := by
  unfold enqueue
  split <;> simp [hne]

theorem mem_promoteToInFlight {entry : Entry} (hmem : entry ∈ o.promoteToInFlight.queue) :
    entry ∈ o.queue := by
  unfold promoteToInFlight at hmem
  split at hmem
  next hempty => simp [hempty] at hmem ⊢
  next front rest hqueue =>
    split at hmem
    · simp at hmem
    · rw [hqueue]
      exact List.mem_cons_of_mem _ hmem

/-- A promoted unit is made of whole queued frames and nothing of it is on the
wire yet. -/
theorem promoteToInFlight_whole {P : List Byte → Prop} (hne : o.queue ≠ [])
    (hqueue : ∀ entry ∈ o.queue, P entry.data) :
    Whole P o.promoteToInFlight.inFlight.bytes ∧ o.promoteToInFlight.inFlight.written = [] := by
  unfold promoteToInFlight
  split
  next hempty => exact absurd hempty hne
  next front rest hcons =>
    split
    · exact ⟨whole_flatMap hqueue, rfl⟩
    · exact ⟨whole_of_frame (hqueue front (by simp [hcons])), rfl⟩

end Lemmas

end FramedOutbox

end VisioSchema.Transport

import Mathlib.Data.List.Sublists
import VisioSchema.Transport.DropBound
import VisioSchema.Transport.OutboxTraffic

/-!
# Nothing is lost in an outbox

`Conserved`: every accepted frame is fully written, in flight, queued, evicted or removed; the
writer's bytes are whole frames in the order of acceptance and the part of the unit in flight;
and the counters say what is there.

## Strategy

`Conserved` lists the accepted frames in the order in which they leave: those that were written,
those of the unit in flight, and those that are queued.  The steps differ in what they move
between these lists.

* A call admits a frame behind the queue, at the cost of evictions at its front
  (`conserved_accept`), or takes frames out of the queue (`conserved_discard`,
  `conserved_clear`).
* `Drain` is three steps.  The age pass evicts (`conserved_age`), promotion makes the front of
  the queue the unit in flight (`promoteToInFlight_spec`), and a write moves bytes to the wire
  (`conserved_wrote`).  Behind its first phase nothing is in flight (`Waiting`), which promotion
  relies on.
-/

namespace VisioSchema.Transport

open VisioSchema.Wire VisioSchema.Library

/-! ## Byte counts -/

/-- The bytes of queued frames. -/
def queuedSize (queue : List Entry) : ℕ := (queue.map Entry.size).sum

theorem queuedSize_eq (queue : List Entry) : queuedSize queue = totalSize Entry.size queue := by
  induction queue with
  | nil => rfl
  | cons entry queue ih => rw [totalSize_cons, ← ih, queuedSize, List.map_cons, List.sum_cons]; rfl

theorem queuedSize_append (first second : List Entry) :
    queuedSize (first ++ second) = queuedSize first + queuedSize second := by
  simp only [queuedSize_eq, totalSize_append]

namespace FramedOutbox

/-! ## The age pass -/

theorem victims_staleTurns (policy : WritePolicy) (nowUs : ℤ) (kept queue : List Entry) :
    (staleTurns policy nowUs kept queue).map Eviction.victim =
      queue.filter fun entry => !keepsAged policy nowUs entry := by
  induction queue generalizing kept with
  | nil => rfl
  | cons entry queue ih =>
      rw [staleTurns, List.filter_cons]
      by_cases hkeep : keepsAged policy nowUs entry
      · rw [if_pos hkeep, if_neg (by simp [hkeep]), ih]
      · rw [if_neg hkeep, if_pos (by simpa using hkeep), List.map_cons, ih]

theorem ageEvict_perm (o : FramedOutbox) (nowUs : ℤ) :
    o.queue.Perm ((o.ageEvictions nowUs).map Eviction.victim ++ (o.ageEvict nowUs).queue) := by
  unfold ageEvictions ageEvict
  split
  · rw [victims_staleTurns]
    exact ((List.filter_append_perm (keepsAged o.policy nowUs) o.queue).symm).trans
      List.perm_append_comm
  · exact List.Perm.refl _

theorem ageEvict_sublist (o : FramedOutbox) (nowUs : ℤ) :
    (o.ageEvict nowUs).queue.Sublist o.queue := by
  unfold ageEvict
  split
  · exact List.filter_sublist
  · exact List.Sublist.refl _

theorem ageEvict_queueBytes (o : FramedOutbox) (nowUs : ℤ)
    (hbytes : o.queueBytes = queuedSize o.queue) :
    (o.ageEvict nowUs).queueBytes = queuedSize (o.ageEvict nowUs).queue := by
  have hperm : totalSize Entry.size _ = totalSize Entry.size _ :=
    totalSize_perm (o.ageEvict_perm nowUs)
  rw [← queuedSize_eq, ← queuedSize_eq, queuedSize_append] at hperm
  unfold ageEvictions at hperm
  unfold ageEvict at hperm ⊢
  split
  next hpolicy =>
    rw [if_pos hpolicy, if_pos hpolicy, victims_staleTurns] at hperm
    dsimp only at hperm ⊢
    rw [hbytes, hperm, queuedSize, Nat.add_sub_cancel_left]
  next => exact hbytes

theorem ageEvict_dropped (o : FramedOutbox) (nowUs : ℤ) :
    (o.ageEvict nowUs).dropped = o.dropped + (o.ageEvictions nowUs).length := by
  unfold ageEvictions ageEvict
  split
  · rw [← List.length_map Eviction.victim, victims_staleTurns]
  · rfl

/-! ## Promotion -/

/-- What is promoted is the front of the queue, and becomes the unit in flight. -/
theorem promoteToInFlight_spec (o : FramedOutbox) (hne : o.queue ≠ []) :
    o.queue = o.promoted ++ o.promoteToInFlight.queue ∧
      o.promoteToInFlight.inFlight.bytes = o.promoted.flatMap Entry.data ∧
      o.promoteToInFlight.inFlight.written = [] ∧ o.promoteToInFlight.dropped = o.dropped := by
  obtain ⟨front, rest, hqueue⟩ := List.exists_cons_of_ne_nil hne
  simp only [promoteToInFlight, promoted, hqueue]
  split
  · exact ⟨(List.append_nil _).symm, rfl, rfl, rfl⟩
  · refine ⟨rfl, ?_, rfl, rfl⟩
    simp [InFlight.bytes]

theorem promoteToInFlight_queueBytes (o : FramedOutbox) (hne : o.queue ≠ [])
    (hbytes : o.queueBytes = queuedSize o.queue) :
    o.promoteToInFlight.queueBytes = queuedSize o.promoteToInFlight.queue := by
  unfold promoteToInFlight
  split
  next hempty => exact absurd hempty hne
  next front rest hqueue =>
    split
    · rfl
    · dsimp only
      rw [hbytes, hqueue]
      exact Nat.add_sub_cancel_left ..

end FramedOutbox

/-! ## The invariant -/

/-- Where the accepted frames are, in the order in which they leave. -/
structure Conserved (t : Traffic) : Prop where
  /-- Every accepted frame is in exactly one place. -/
  frames : t.accepted.Perm (t.past ++ t.written ++ t.committed ++ t.outbox.queue ++
    t.evictions.map Eviction.victim ++ t.removed)
  order : (t.written ++ t.committed ++ t.outbox.queue).Sublist t.accepted
  queueBytes : t.outbox.queueBytes = queuedSize t.outbox.queue
  wire : t.wire = t.written.flatMap Entry.data ++ t.outbox.inFlight.written
  unit : t.committed.flatMap Entry.data = t.outbox.inFlight.bytes
  idle : t.outbox.inFlight.active = false → t.committed = []
  dropped : t.outbox.dropped = t.rejected + t.evictions.length

namespace Traffic

variable {t : Traffic}

theorem conserved_init (policy : WritePolicy) : Conserved (init policy) :=
  ⟨List.Perm.refl _, List.Sublist.refl _, rfl, rfl, rfl, fun _ => rfl, rfl⟩

/-- Settling only says that a finished unit's frames are written. -/
theorem conserved_settle
    (hframes : t.accepted.Perm (t.past ++ t.written ++ t.committed ++ t.outbox.queue ++
      t.evictions.map Eviction.victim ++ t.removed))
    (horder : (t.written ++ t.committed ++ t.outbox.queue).Sublist t.accepted)
    (hbytes : t.outbox.queueBytes = queuedSize t.outbox.queue)
    (hdropped : t.outbox.dropped = t.rejected + t.evictions.length)
    (hwire : t.wire ++ t.outbox.inFlight.remainder =
      (t.written ++ t.committed).flatMap Entry.data)
    (hunit : t.outbox.inFlight.active = true →
      t.committed.flatMap Entry.data = t.outbox.inFlight.bytes)
    (hempty : t.outbox.inFlight.active = false → t.outbox.inFlight.bytes = []) :
    Conserved t.settle := by
  rw [settle]
  cases hactive : t.outbox.inFlight.active with
  | true =>
      rw [if_pos rfl]
      refine ⟨hframes, horder, hbytes, ?_, hunit hactive, by simp [hactive], hdropped⟩
      rw [List.flatMap_append, hunit hactive] at hwire
      refine (List.append_left_inj t.outbox.inFlight.remainder).mp ?_
      rw [hwire, List.append_assoc, InFlight.written, InFlight.remainder, List.take_append_drop]
  | false =>
      rw [if_neg (by simp)]
      have hremainder := InFlight.remainder_of_inactive hactive
      refine ⟨?_, ?_, hbytes, ?_, (hempty hactive).symm, fun _ => rfl, hdropped⟩
      · rw [List.append_nil, ← List.append_assoc]
        exact hframes
      · rw [List.append_nil]
        exact horder
      · rw [InFlight.written, hempty hactive, List.take_nil, List.append_nil, ← hwire, hremainder,
          List.append_nil]

theorem conserved_wrote (h : Conserved t) (accept : ℕ) : Conserved (t.wrote accept) := by
  have hchunk := t.outbox.inFlight.chunk_append_remainder accept
  refine conserved_settle h.frames h.order h.queueBytes h.dropped ?_ ?_ ?_
  · change t.wire ++ t.outbox.inFlight.chunk accept ++ (t.outbox.inFlight.advance accept).remainder
      = (t.written ++ t.committed).flatMap Entry.data
    rw [List.append_assoc, hchunk, h.wire, List.flatMap_append, h.unit, List.append_assoc,
      InFlight.written, InFlight.remainder, List.take_append_drop]
  · intro hstill
    rcases t.outbox.inFlight.advance_cases accept with ⟨-, hbytes, -⟩ | ⟨hempty, -⟩
    · exact h.unit.trans hbytes.symm
    · change (t.outbox.inFlight.advance accept).active = true at hstill
      rw [hempty] at hstill
      cases hstill
  · intro hdone
    rcases t.outbox.inFlight.advance_cases accept with ⟨hstill, -⟩ | ⟨hempty, -⟩
    · exact absurd (hstill.symm.trans hdone) (by simp)
    · change (t.outbox.inFlight.advance accept).bytes = []
      rw [hempty]
      rfl

/-- A frame that is let in, at the cost of `turns` evictions that leave `left`. -/
theorem conserved_accept (h : Conserved t) (entry : Entry) {left : List Entry}
    {turns : List (Eviction Entry)} (hsub : left.Sublist t.outbox.queue)
    (hperm : t.outbox.queue.Perm (turns.map Eviction.victim ++ left)) {o : FramedOutbox}
    (hqueue : o.queue = left ++ [entry]) (hflight : o.inFlight = t.outbox.inFlight)
    (hbytes : o.queueBytes = queuedSize o.queue)
    (hdropped : o.dropped = t.outbox.dropped + turns.length) :
    Conserved
      { t with
        outbox := o, accepted := t.accepted ++ [entry], evictions := t.evictions ++ turns } where
  frames := by
    refine List.perm_iff_count.mpr fun e => ?_
    have hold := h.frames.count_eq e
    have hout := hperm.count_eq e
    simp only [List.count_append, List.map_append, hqueue] at hold hout ⊢
    omega
  order := by
    rw [hqueue, ← List.append_assoc]
    exact ((hsub.append_left _).trans h.order).append (List.Sublist.refl _)
  queueBytes := hbytes
  wire := by rw [h.wire, hflight]
  unit := by rw [h.unit, hflight]
  idle hidle := h.idle (by rw [← hflight]; exact hidle)
  dropped := by
    rw [hdropped, h.dropped, List.length_append, Nat.add_assoc]

theorem conserved_enqueue (h : Conserved t) (frame : List Byte) (keyframe : Bool) (nowUs : ℤ) :
    Conserved (t.enqueueStep frame keyframe nowUs) := by
  rw [enqueueStep, FramedOutbox.enqueue]
  cases hbound : applyDropBound Entry.size t.outbox.policy t.outbox.queue t.outbox.queueBytes
    frame.length with
  | none =>
      refine ⟨h.frames, h.order, h.queueBytes, h.wire, h.unit, h.idle, ?_⟩
      change t.outbox.dropped + 1 = t.rejected + 1 + t.evictions.length
      rw [h.dropped]
      omega
  | some pair =>
      obtain ⟨left, bytes⟩ := pair
      have hperm := applyDropBound_perm hbound
      refine conserved_accept h _ (applyDropBound_sublist hbound) hperm rfl rfl ?_ ?_
      · rw [h.queueBytes, queuedSize_eq] at hbound
        change bytes + frame.length = queuedSize (left ++ [_])
        rw [applyDropBound_totalSize hbound, queuedSize_append, queuedSize_eq left]
        rfl
      · have hlength := hperm.length_eq
        rw [List.length_append, List.length_map] at hlength
        have hcount : t.outbox.queue.length - left.length =
            (t.outbox.enqueueEvictions frame.length).length := by
          rw [hlength]
          exact Nat.add_sub_cancel ..
        exact congrArg (t.outbox.dropped + ·) hcount

theorem conserved_tryEnqueue (h : Conserved t) (frame : List Byte) (limit : ℕ) (nowUs : ℤ) :
    Conserved (t.tryEnqueueStep frame limit nowUs) := by
  rw [tryEnqueueStep, FramedOutbox.tryEnqueue]
  by_cases hsize : frame.isEmpty || decide (limit < frame.length)
  · rw [if_pos hsize]
    exact ⟨h.frames, h.order, h.queueBytes, h.wire, h.unit, h.idle, h.dropped⟩
  rw [if_neg hsize]
  by_cases hfull : limit - frame.length < t.outbox.queueBytes
  · rw [if_pos hfull]
    exact ⟨h.frames, h.order, h.queueBytes, h.wire, h.unit, h.idle, h.dropped⟩
  rw [if_neg hfull]
  have hnone : t.outbox.queue.Perm (([] : List (Eviction Entry)).map Eviction.victim ++
      t.outbox.queue) := List.Perm.refl _
  have haccept := conserved_accept h { data := frame, enqueueUs := nowUs }
    (List.Sublist.refl _) hnone
    (o := { t.outbox with
      queue := t.outbox.queue ++ [{ data := frame, enqueueUs := nowUs }]
      queueBytes := t.outbox.queueBytes + frame.length }) rfl rfl ?_ rfl
  · rwa [List.append_nil] at haccept
  · rw [queuedSize_append, h.queueBytes]
    rfl

theorem conserved_discard (h : Conserved t) : Conserved t.discardStep where
  frames := by
    refine List.perm_iff_count.mpr fun e => ?_
    have hold := h.frames.count_eq e
    simp only [discardStep, FramedOutbox.discardQueued, List.count_append, List.count_nil]
      at hold ⊢
    omega
  order := (List.Sublist.append_left (List.nil_sublist _) _).trans h.order
  queueBytes := rfl
  wire := h.wire
  unit := h.unit
  idle := h.idle
  dropped := h.dropped

theorem conserved_clear (h : Conserved t) : Conserved t.clearStep where
  frames := by
    refine List.perm_iff_count.mpr fun e => ?_
    have hold := h.frames.count_eq e
    simp only [clearStep, FramedOutbox.clear, List.count_append, List.count_nil] at hold ⊢
    omega
  order := List.nil_sublist _
  queueBytes := rfl
  wire := rfl
  unit := rfl
  idle _ := rfl
  dropped := h.dropped

/-- Only the recorded program counter changes. -/
theorem conserved_goto (h : Conserved t) (pc : DrainPc) : Conserved { t with pc := pc } :=
  ⟨h.frames, h.order, h.queueBytes, h.wire, h.unit, h.idle, h.dropped⟩

theorem conserved_drain (h : Conserved t) (oneFrame : Bool) (accept : Option ℕ) :
    Conserved (t.drainStep oneFrame accept) := by
  unfold drainStep
  by_cases hactive : t.outbox.inFlight.active
  · rw [if_pos hactive]
    cases accept with
    | none => exact h
    | some count =>
        have hwrote := conserved_wrote h count
        dsimp only
        split
        · exact hwrote
        · exact conserved_goto hwrote _
  · rw [if_neg hactive]
    exact conserved_goto h _

theorem conserved_age (h : Conserved t) (nowUs : ℤ) :
    Conserved { t with
      outbox := t.outbox.ageEvict nowUs
      evictions := t.evictions ++ t.outbox.ageEvictions nowUs } where
  frames := by
    refine List.perm_iff_count.mpr fun e => ?_
    have hold := h.frames.count_eq e
    have hout := (t.outbox.ageEvict_perm nowUs).count_eq e
    simp only [List.count_append, List.map_append] at hold hout ⊢
    omega
  order := ((t.outbox.ageEvict_sublist nowUs).append_left _).trans h.order
  queueBytes := t.outbox.ageEvict_queueBytes nowUs h.queueBytes
  wire := by rw [h.wire, FramedOutbox.ageEvict_inFlight]
  unit := by rw [h.unit, FramedOutbox.ageEvict_inFlight]
  idle hidle := h.idle (by rwa [FramedOutbox.ageEvict_inFlight] at hidle)
  dropped := by
    rw [t.outbox.ageEvict_dropped, h.dropped, List.length_append, Nat.add_assoc]

theorem conserved_promote (h : Conserved t) (hidle : t.outbox.inFlight.active = false)
    (nowUs : ℤ) : Conserved (t.promoteStep nowUs) := by
  have haged := conserved_age h nowUs
  rw [promoteStep]
  dsimp only
  split
  · exact conserved_goto haged _
  next hqueue =>
    have hne : (t.outbox.ageEvict nowUs).queue ≠ [] := by simpa using hqueue
    obtain ⟨hsplit, hbytes, hwritten, hdropped⟩ :=
      (t.outbox.ageEvict nowUs).promoteToInFlight_spec hne
    have hnone : t.committed = [] := h.idle hidle
    have hremainder := List.take_append_drop
      (t.outbox.ageEvict nowUs).promoteToInFlight.inFlight.off
      (t.outbox.ageEvict nowUs).promoteToInFlight.inFlight.bytes
    change InFlight.written _ ++ InFlight.remainder _ = _ at hremainder
    rw [hwritten, List.nil_append] at hremainder
    refine conserved_settle ?_ ?_ ?_ ?_ ?_ ?_ ?_
    · refine List.perm_iff_count.mpr fun e => ?_
      have hold := haged.frames.count_eq e
      have hout := congrArg (List.count e) hsplit
      simp only [List.count_append, hnone, List.count_nil] at hold hout ⊢
      omega
    · have horder := haged.order
      dsimp only at horder ⊢
      rwa [hnone, List.append_nil, hsplit, ← List.append_assoc] at horder
    · exact (t.outbox.ageEvict nowUs).promoteToInFlight_queueBytes hne haged.queueBytes
    · exact hdropped.trans haged.dropped
    · have hwire := h.wire
      have hunit := h.unit
      rw [hnone] at hunit
      change t.wire ++ InFlight.remainder _ = (t.written ++ FramedOutbox.promoted _).flatMap _
      rw [hremainder, hbytes, hwire, InFlight.written, ← hunit, List.flatMap_append]
      simp
    · exact fun _ => hbytes.symm
    · intro hinactive
      exact hremainder.symm.trans (InFlight.remainder_of_inactive hinactive)

theorem conserved_trail (h : Conserved t) (accept : Option ℕ) : Conserved (t.trailStep accept) := by
  unfold trailStep
  cases accept with
  | none => exact conserved_goto h _
  | some count =>
      dsimp only
      split
      · exact conserved_goto (conserved_wrote h count) _
      · exact conserved_goto h _

/-- Behind its first phase `Drain` has nothing in flight. -/
def Waiting (t : Traffic) : Prop := t.pc = .queue → t.outbox.inFlight.active = false

theorem conserved_step (h : Conserved t) (hwaiting : Waiting t) (call : Call) :
    Conserved (t.step call) := by
  cases call with
  | enqueue frame keyframe nowUs =>
      cases frame with
      | none => exact h
      | some frame => exact conserved_enqueue h frame keyframe nowUs
  | tryEnqueue frame limit nowUs => exact conserved_tryEnqueue h frame limit nowUs
  | discardQueued => exact conserved_discard h
  | clear =>
      rw [step]
      split
      · exact conserved_clear h
      · exact h
  | drain oneFrame accept =>
      rw [step]
      split
      · exact conserved_drain h oneFrame accept
      · exact h
  | promote nowUs =>
      rw [step]
      split
      next hpc => exact conserved_promote h (hwaiting hpc) nowUs
      next => exact h
  | trail accept =>
      rw [step]
      split
      · exact conserved_trail h accept
      · exact h

@[simp] theorem settle_pc : t.settle.pc = t.pc := by
  unfold settle
  split <;> rfl

@[simp] theorem settle_outbox : t.settle.outbox = t.outbox := by
  unfold settle
  split <;> rfl

theorem enqueueStep_frame (frame : List Byte) (keyframe : Bool) (nowUs : ℤ) :
    (t.enqueueStep frame keyframe nowUs).pc = t.pc ∧
      (t.enqueueStep frame keyframe nowUs).outbox.inFlight = t.outbox.inFlight := by
  have hflight := t.outbox.enqueue_inFlight frame keyframe nowUs
  unfold enqueueStep
  cases hresult : t.outbox.enqueue frame keyframe nowUs with
  | mk o ok =>
      rw [hresult] at hflight
      cases ok <;> exact ⟨rfl, hflight⟩

theorem tryEnqueueStep_frame (frame : List Byte) (limit : ℕ) (nowUs : ℤ) :
    (t.tryEnqueueStep frame limit nowUs).pc = t.pc ∧
      (t.tryEnqueueStep frame limit nowUs).outbox.inFlight = t.outbox.inFlight := by
  have hflight := t.outbox.tryEnqueue_inFlight frame limit nowUs
  unfold tryEnqueueStep
  cases hresult : t.outbox.tryEnqueue frame limit nowUs with
  | mk o ok =>
      rw [hresult] at hflight
      cases ok <;> exact ⟨rfl, hflight⟩

theorem waiting_step (hwaiting : Waiting t) (call : Call) : Waiting (t.step call) := by
  cases call with
  | enqueue frame keyframe nowUs =>
      cases frame with
      | none => exact hwaiting
      | some frame =>
          obtain ⟨hpc, hflight⟩ := t.enqueueStep_frame frame keyframe nowUs
          intro hqueue
          rw [step, hflight]
          exact hwaiting (hpc.symm.trans hqueue)
  | tryEnqueue frame limit nowUs =>
      obtain ⟨hpc, hflight⟩ := t.tryEnqueueStep_frame frame limit nowUs
      intro hqueue
      rw [step, hflight]
      exact hwaiting (hpc.symm.trans hqueue)
  | discardQueued => exact hwaiting
  | clear =>
      rw [step]
      split
      · exact fun _ => rfl
      · exact hwaiting
  | drain oneFrame accept =>
      rw [step]
      split
      next hidle =>
        unfold drainStep
        by_cases hactive : t.outbox.inFlight.active
        · -- The first phase goes on to the queue only once the unit is finished.
          rw [if_pos hactive]
          cases accept with
          | none => exact hwaiting
          | some count =>
              dsimp only
              split
              · intro hqueue
                rw [wrote, settle_pc, hidle] at hqueue
                cases hqueue
              next hdone =>
                intro _
                rw [Bool.or_eq_true, not_or] at hdone
                exact Bool.eq_false_iff.mpr hdone.1
        · rw [if_neg hactive]
          exact fun _ => by simpa using hactive
      next => exact hwaiting
  | promote nowUs =>
      rw [step]
      split
      · unfold promoteStep
        dsimp only
        split
        · exact fun hqueue => by cases hqueue
        · intro hqueue
          rw [settle_pc] at hqueue
          cases hqueue
      · exact hwaiting
  | trail accept =>
      rw [step]
      split
      · unfold trailStep
        cases accept with
        | none => exact fun hqueue => by cases hqueue
        | some count =>
            dsimp only
            split <;> exact fun hqueue => by cases hqueue
      · exact hwaiting

theorem run_conserved (policy : WritePolicy) (calls : List Call) : Conserved (run policy calls) :=
  (run_invariant (I := fun t : Traffic => Conserved t ∧ Waiting t)
    (fun _ call h => ⟨conserved_step h.1 h.2 call, waiting_step h.2 call⟩)
    ⟨conserved_init policy, fun hqueue => by cases hqueue⟩ calls).1

/-! ## A lossless outbox -/

/-- Nothing was turned away or evicted. -/
structure Lossless (t : Traffic) : Prop where
  policy : t.outbox.policy = .lossless
  rejected : t.rejected = 0
  evictions : t.evictions = []

theorem lossless_enqueue (h : Lossless t) (hroom : t.outbox.queue.length < sizeMax)
    (frame : List Byte) (keyframe : Bool) (nowUs : ℤ) :
    Lossless (t.enqueueStep frame keyframe nowUs) := by
  have hpolicy := (t.outbox.enqueue_policy frame keyframe nowUs).trans h.policy
  have hnone : t.outbox.enqueueEvictions frame.length = [] := by
    rw [FramedOutbox.enqueueEvictions, dropBoundEvictions, h.policy]
    change Transport.evictions Entry.size _ (fun q _ => decide (sizeMax ≤ q.length)) _ _ _ = []
    cases hlength : t.outbox.queue.length with
    | zero => rfl
    | succ fuel => rw [Transport.evictions, if_neg (by simpa using hroom)]
  have hbound : applyDropBound Entry.size t.outbox.policy t.outbox.queue t.outbox.queueBytes
      frame.length ≠ none := by
    rw [applyDropBound, h.policy]
    exact Option.some_ne_none _
  unfold enqueueStep
  cases hresult : t.outbox.enqueue frame keyframe nowUs with
  | mk o ok =>
      rw [hresult] at hpolicy
      cases ok with
      | true => exact ⟨hpolicy, h.rejected, by rw [h.evictions, hnone]; rfl⟩
      | false =>
          unfold FramedOutbox.enqueue at hresult
          split at hresult
          next hrejected => exact absurd hrejected hbound
          next => cases congrArg Prod.snd hresult

theorem lossless_settle (h : Lossless t) : Lossless t.settle := by
  unfold settle
  split
  · exact h
  · exact ⟨h.policy, h.rejected, h.evictions⟩

theorem lossless_wrote (h : Lossless t) (accept : ℕ) : Lossless (t.wrote accept) :=
  lossless_settle ⟨h.policy, h.rejected, h.evictions⟩

theorem lossless_goto (h : Lossless t) (pc : DrainPc) : Lossless { t with pc := pc } :=
  ⟨h.policy, h.rejected, h.evictions⟩

theorem lossless_step (h : Lossless t) (hroom : t.outbox.queue.length < sizeMax) (call : Call) :
    Lossless (t.step call) := by
  cases call with
  | enqueue frame keyframe nowUs =>
      cases frame with
      | none => exact h
      | some frame => exact lossless_enqueue h hroom frame keyframe nowUs
  | tryEnqueue frame limit nowUs =>
      have hpolicy := (t.outbox.tryEnqueue_policy frame limit nowUs).trans h.policy
      rw [step, tryEnqueueStep]
      cases hresult : t.outbox.tryEnqueue frame limit nowUs with
      | mk o ok =>
          rw [hresult] at hpolicy
          cases ok <;> exact ⟨hpolicy, h.rejected, h.evictions⟩
  | discardQueued => exact ⟨h.policy, h.rejected, h.evictions⟩
  | clear =>
      rw [step]
      split
      · exact ⟨h.policy, h.rejected, h.evictions⟩
      · exact h
  | drain oneFrame accept =>
      rw [step]
      split
      · unfold drainStep
        split
        · cases accept with
          | none => exact h
          | some count =>
              dsimp only
              split
              · exact lossless_wrote h count
              · exact lossless_goto (lossless_wrote h count) _
        · exact lossless_goto h _
      · exact h
  | promote nowUs =>
      have hdrop : t.outbox.policy.drop ≠ .staleEviction := by rw [h.policy]; decide
      have hnone : t.outbox.ageEvictions nowUs = [] := if_neg fun hstale => hdrop hstale.1
      rw [step]
      split
      · rw [promoteStep, t.outbox.ageEvict_eq_self hdrop, hnone, List.append_nil]
        dsimp only
        split
        · exact lossless_goto h _
        · refine lossless_settle ⟨?_, h.rejected, h.evictions⟩
          exact t.outbox.promoteToInFlight_policy.trans h.policy
      · exact h
  | trail accept =>
      rw [step]
      split
      · unfold trailStep
        cases accept with
        | none => exact lossless_goto h _
        | some count =>
            dsimp only
            split
            · exact lossless_goto (lossless_wrote h count) _
            · exact lossless_goto h _
      · exact h

/-! ## The account -/

/-- Conservation, over every run; and a lossless outbox counts no frame in `Dropped`. -/
theorem run_accounts :
    (∀ policy calls, Conserved (run policy calls)) ∧
      ∀ calls, Along step (fun t _ => t.outbox.queue.length < sizeMax) (init .lossless) calls →
        (run .lossless calls).evictions = [] ∧ (run .lossless calls).outbox.dropped = 0 := by
  refine ⟨run_conserved, fun calls halong => ?_⟩
  have hlossless : Lossless (run .lossless calls) :=
    run_invariant_along (C := fun (t : Traffic) _ => t.outbox.queue.length < sizeMax)
      (fun _ call h hroom => lossless_step h hroom call) ⟨rfl, rfl, rfl⟩ halong
  refine ⟨hlossless.evictions, ?_⟩
  rw [(run_conserved .lossless calls).dropped, hlossless.rejected, hlossless.evictions]
  rfl

/-- A frame that waits, then goes out. -/
theorem run_accounts_tried :
    (run .lossless [.tryEnqueue [1, 2] 4 0, .drain true none, .promote 0]).outbox.dropped = 0 :=
  (run_accounts.2 [.tryEnqueue [1, 2] 4 0, .drain true none, .promote 0] (by decide +kernel)).2

/-- Two units that `Clear` cut off, and a whole frame. -/
def cutTwice : List Call :=
  [.enqueue (some [1, 2]) false 0, .drain true none, .promote 0, .trail (some 1), .clear,
    .enqueue (some [3, 4]) false 0, .drain true none, .promote 0, .trail (some 1), .clear,
    .enqueue (some [5, 6]) false 0, .drain true none, .promote 0, .trail (some 2)]

/-- Across `Clear` the writer's bytes are not whole frames and one part of a unit. -/
theorem not_run_accounts :
    ¬∀ policy calls, ∃ front unit back : List Entry, ∃ part : List Byte,
      (front ++ back).Sublist (run policy calls).accepted ∧
        unit.Sublist (run policy calls).accepted ∧ part <+: unit.flatMap Entry.data ∧
          (run policy calls).sent =
            front.flatMap Entry.data ++ part ++ back.flatMap Entry.data := by
  intro hall
  obtain ⟨front, unit, back, part, hframes, hunit, hpart, hsent⟩ := hall .lossless cutTwice
  have hlength := congrArg List.length hsent
  have hfour : (run .lossless cutTwice).sent.length = 4 := by decide +kernel
  rw [hfour, List.length_append, List.length_append] at hlength
  have hno : ∀ unit ∈ (run .lossless cutTwice).accepted.sublists,
      ∀ front ∈ (run .lossless cutTwice).accepted.sublists,
        ∀ back ∈ (run .lossless cutTwice).accepted.sublists, ∀ n < 5,
          (run .lossless cutTwice).sent ≠ front.flatMap Entry.data ++
            (unit.flatMap Entry.data).take n ++ back.flatMap Entry.data := by
    decide +kernel
  refine hno unit (List.mem_sublists.mpr hunit) front
    (List.mem_sublists.mpr ((List.sublist_append_left ..).trans hframes)) back
    (List.mem_sublists.mpr ((List.sublist_append_right ..).trans hframes)) part.length
    (by omega) ?_
  rw [hsent, ← List.prefix_iff_eq_take.mp hpart]

end Traffic

end VisioSchema.Transport

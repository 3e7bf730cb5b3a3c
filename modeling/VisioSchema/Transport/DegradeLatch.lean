import Mathlib.Tactic.ByContra
import VisioSchema.Transport.FramedFd

/-!
# The congestion latch

While the latch of an endpoint is on, `EnqueueOne` lets only keyframes of video through.  The
latch is one value for the whole endpoint, and the first keyframe past the hold lifts it for
every stream: `run_resumes` says when each stream still resumes at a keyframe of its own.

## Strategy

What the gates read is the `Door`, a few fields of the endpoint.  The I/O thread changes it only
where it arms the latch and where a dead link lifts it (`ioStep_door`), and a message only where
a keyframe past the hold lifts it (`enqueueOne_latch`).  A run is watched from outside: `Watched`
adds the streams that the latch has thinned and that have not resumed.

A thinned stream resumes at a keyframe as long as the latch is on while it is thinned
(`resumes_of_latched`).  So the invariant is `Latched`: without the latch no stream is thinned.
It breaks where a keyframe lifts the latch while another stream is thinned, and `LiftsForAll`
excludes just these inputs.
-/

namespace VisioSchema.Transport

open VisioSchema.Wire VisioSchema.Library

namespace FramedFdEndpoint

/-! ## What the producers' gates read -/

structure Door where
  degradeHoldNs : ℤ
  degradeHoldUntilNs : ℤ
  policy : Option ResolvedStreamPolicy
  decimGridUs : ℕ → Option RateGate
  batchStalled : Bool

def door (s : FramedFdEndpoint) : Door where
  degradeHoldNs := s.degradeHoldNs
  degradeHoldUntilNs := s.degradeHoldUntilNs
  policy := s.policy
  decimGridUs := s.decimGridUs
  batchStalled := s.batchStalled

variable {pbEncode : Header → List Byte}

/-- The latch after a pass of the I/O thread's stall check. -/
def armed (s : FramedFdEndpoint) (nowNs : ℤ) : ℤ :=
  if (s.outbox .bulk).dropped ≠ s.evictionsSeen then nowNs + s.degradeHoldNs
  else s.degradeHoldUntilNs

theorem updateStallState_door (s : FramedFdEndpoint) (nowNs : ℤ) :
    (s.updateStallState nowNs).door = { s.door with degradeHoldUntilNs := s.armed nowNs } := by
  unfold updateStallState armDegrade armed
  simp only
  split_ifs <;> rfl

/-- The I/O thread touches the gates' state only where it arms the latch and where a
dead link lifts it. -/
theorem ioStep_door (s : FramedFdEndpoint) (answer : IoAnswer) :
    (s.ioStep pbEncode answer).door =
      match s.pc with
      | .stall => { s.door with degradeHoldUntilNs := s.armed answer.nowNs }
      | .dying .latches => { s.door with degradeHoldUntilNs := 0 }
      | _ => s.door := by
  -- Only the stall check and the last section of `MarkLinkDead` touch what the gates read.
  cases hpc : s.pc with
  | idle | exited => simp only [ioStep, hpc]
  | flushed =>
      simp only [ioStep, hpc]
      rfl
  | flush =>
      simp only [ioStep, hpc]
      split <;> rfl
  | top i =>
      simp only [ioStep, hpc, topStep]
      split_ifs
      · rfl
      · rfl
      · split <;> rfl
  | takeTimed i =>
      simp only [ioStep, hpc, takeTimedStep]
      split
      · rfl
      · split <;> rfl
  | writeTimed i =>
      simp only [ioStep, hpc, writeTimedStep]
      split
      · rfl
      · split
        · rfl
        · split_ifs <;> rfl
  | pick i | pickReliable i =>
      simp only [ioStep, hpc]
      split <;> rfl
  | finish i lane =>
      simp only [ioStep, hpc, finishStep]
      split
      · split
        · rfl
        · split <;> rfl
      · rfl
  | promote i lane =>
      simp only [ioStep, hpc, promoteStep]
      split <;> rfl
  | trail i lane =>
      simp only [ioStep, hpc, trailStep]
      split
      · split <;> rfl
      · rfl
  | drained i lane =>
      simp only [ioStep, hpc, drainedStep]
      split_ifs <;> rfl
  | stall =>
      simp only [ioStep, hpc]
      exact s.updateStallState_door answer.nowNs
  | dying stage =>
      simp only [ioStep, hpc]
      cases stage with
      | fd =>
          simp only [deathStep]
          split <;> rfl
      | reliable | ctrl | bulk | timed | latches => rfl

/-! ## One message -/

/-- The stalled gate of `EnqueueOne`. -/
def doorRefuses (s : FramedFdEndpoint) (msg : Message) : Bool :=
  s.batchStalled && (msg.bulk || msg.decimatable)

/-- The frames that the latch may thin. -/
def thinnable (msg : Message) : Bool := msg.bulk && !msg.noDegrade

/-- The stream policy drops every message of the stream. -/
def dropsStream (s : FramedFdEndpoint) (streamId : ℕ) : Bool :=
  (s.ruleFor streamId).elim false StreamRule.drop

/-- A keyframe past the hold. -/
def lifts (s : FramedFdEndpoint) (msg : Message) (nowNs : ℤ) : Bool :=
  thinnable msg && s.degradeHoldUntilNs != 0 && msg.keyframe &&
    decide (s.degradeHoldUntilNs ≤ nowNs)

@[simp] theorem queueFrame_door (s : FramedFdEndpoint) (msg : Message) (frame : List Byte)
    (enqueueUs : ℤ) : (s.queueFrame msg frame enqueueUs).door = s.door := rfl

/-- The period that caps a message: its rule's, unless it is camera video. -/
def capOf (s : FramedFdEndpoint) (msg : Message) : ℤ :=
  if msg.bulk then 0 else (s.ruleFor msg.streamId).elim 0 StreamRule.minGapUs

/-- The stream policy's part of `EnqueueOne`: a drop rule, then the rate gate. -/
theorem queueByRule_spec (s : FramedFdEndpoint) (msg : Message) (frame : List Byte)
    (now : Readings) :
    (s.queueByRule msg frame now).2 =
        (!s.dropsStream msg.streamId &&
          (s.passesRateGate msg (s.capOf msg) now.gateUs).2) ∧
      (s.queueByRule msg frame now).1.door =
        if s.dropsStream msg.streamId then s.door
        else (s.passesRateGate msg (s.capOf msg) now.gateUs).1.door := by
  have huncapped : s.passesRateGate msg 0 now.gateUs = (s, true) := if_pos (Int.le_refl 0)
  unfold queueByRule dropsStream capOf
  cases hrule : s.ruleFor msg.streamId with
  | none => simp [huncapped]
  | some rule =>
      cases hdrop : rule.drop with
      | true => simp [hdrop]
      | false =>
          simp only [hdrop, Bool.false_eq_true, if_false, Option.elim_some, Bool.not_false,
            Bool.true_and]
          by_cases hcap : rule.minGapUs ≠ 0 ∧ msg.bulk = false
          · have hgap : (if msg.bulk = true then 0 else rule.minGapUs) = rule.minGapUs :=
              if_neg (by simp [hcap.2])
            rw [if_pos hcap, hgap]
            generalize s.passesRateGate msg rule.minGapUs now.gateUs = result
            obtain ⟨t, passes⟩ := result
            cases passes <;> exact ⟨rfl, rfl⟩
          · have hnone : (if msg.bulk = true then 0 else rule.minGapUs) = 0 := by
              split
              · rfl
              next hplain =>
                by_contra hgap
                exact hcap ⟨hgap, by simpa using hplain⟩
            rw [if_neg hcap, hnone, huncapped]
            exact ⟨rfl, rfl⟩

theorem passesRateGate_latch (s : FramedFdEndpoint) (msg : Message) (minGapUs steadyUs : ℤ) :
    (s.passesRateGate msg minGapUs steadyUs).1.door.degradeHoldUntilNs =
      s.degradeHoldUntilNs := by
  unfold passesRateGate
  split <;> rfl

theorem queueByRule_latch (s : FramedFdEndpoint) (msg : Message) (frame : List Byte)
    (now : Readings) :
    (s.queueByRule msg frame now).1.degradeHoldUntilNs = s.degradeHoldUntilNs := by
  have hdoor := congrArg Door.degradeHoldUntilNs (s.queueByRule_spec msg frame now).2
  refine hdoor.trans ?_
  split
  · rfl
  · exact s.passesRateGate_latch msg _ _

/-- Camera video passes every policy but a drop rule. -/
theorem queueByRule_bulk (s : FramedFdEndpoint) {msg : Message} (hbulk : msg.bulk = true)
    (frame : List Byte) (now : Readings) :
    (s.queueByRule msg frame now).2 = !s.dropsStream msg.streamId := by
  have hcap : s.capOf msg = 0 := if_pos hbulk
  rw [(s.queueByRule_spec msg frame now).1, hcap, passesRateGate, if_pos (Int.le_refl 0),
    Bool.and_true]

theorem liftDegrade_latch (s : FramedFdEndpoint) (msg : Message) (nowNs : ℤ) :
    (s.liftDegrade msg nowNs).degradeHoldUntilNs =
      if s.lifts msg nowNs then 0 else s.degradeHoldUntilNs := by
  unfold liftDegrade lifts thinnable
  split_ifs <;> rfl

theorem liftDegrade_ruleFor (s : FramedFdEndpoint) (msg : Message) (nowNs : ℤ) :
    (s.liftDegrade msg nowNs).ruleFor = s.ruleFor := by
  unfold liftDegrade
  split <;> rfl

/-- What `EnqueueOne` makes of a frame that the latch may thin. -/
theorem enqueueOne_thinnable (s : FramedFdEndpoint) {msg : Message}
    (hthin : thinnable msg = true) (frame : List Byte) (now : Readings) :
    ((s.enqueueOne msg frame now).2 = true ↔
      s.doorRefuses msg = false ∧ s.degradeRefuses msg = false ∧
        s.dropsStream msg.streamId = false) := by
  have hbulk : msg.bulk = true := by
    rw [thinnable, Bool.and_eq_true] at hthin
    exact hthin.1
  unfold enqueueOne
  rw [← doorRefuses]
  cases hdoor : s.doorRefuses msg with
  | true => simp
  | false =>
      rw [if_neg (by simp)]
      cases hgate : s.degradeRefuses msg with
      | true => simp
      | false =>
          rw [if_neg (by simp), queueByRule_bulk _ hbulk, dropsStream, liftDegrade_ruleFor]
          simp [dropsStream]

/-- A keyframe past the hold lifts the latch, and nothing else of a message does. -/
theorem enqueueOne_latch (s : FramedFdEndpoint) (msg : Message) (frame : List Byte)
    (now : Readings) :
    (s.enqueueOne msg frame now).1.degradeHoldUntilNs =
      if s.doorRefuses msg = false ∧ s.lifts msg now.monotonicNs = true then 0
      else s.degradeHoldUntilNs := by
  unfold enqueueOne
  rw [← doorRefuses]
  cases hdoor : s.doorRefuses msg with
  | true => simp
  | false =>
      rw [if_neg (by simp)]
      cases hgate : s.degradeRefuses msg with
      | true =>
          have hplain : s.lifts msg now.monotonicNs = false := by
            unfold degradeRefuses at hgate
            unfold lifts
            cases hkey : msg.keyframe with
            | true => simp [hkey] at hgate
            | false => simp
          simp [hplain]
      | false =>
          rw [if_neg (by simp), queueByRule_latch, liftDegrade_latch]
          simp

end FramedFdEndpoint

/-! ## Runs -/

/-- An endpoint, and the streams of which the latch has refused a frame on this link
and no frame was accepted since. -/
structure Watched where
  endpoint : FramedFdEndpoint
  thinned : ℕ → Bool := fun _ => false

namespace Watched

open FramedFdEndpoint

variable {pbEncode : Header → List Byte}

/-- What an input changes about the thinned streams. -/
def thinnedAfter (w : Watched) : Input pbEncode → ℕ → Bool
  | .enqueueOne out now =>
      if thinnable out.msg then
        if (w.endpoint.enqueueOne out.msg out.frame now).2 then
          Function.update w.thinned out.msg.streamId false
        else if !w.endpoint.doorRefuses out.msg && w.endpoint.degradeRefuses out.msg then
          Function.update w.thinned out.msg.streamId true
        else w.thinned
      else w.thinned
  -- A fresh link starts undegraded.
  | .io _ => if w.endpoint.pc = .dying .latches then fun _ => false else w.thinned
  | _ => w.thinned

def step (w : Watched) (input : Input pbEncode) : Watched where
  endpoint := w.endpoint.step input
  thinned := w.thinnedAfter input

/-- The first frame that is accepted of a thinned stream is a keyframe. -/
def ResumesAtKeyframe (w : Watched) : Input pbEncode → Prop
  | .enqueueOne out now =>
      thinnable out.msg = true → (w.endpoint.enqueueOne out.msg out.frame now).2 = true →
        w.thinned out.msg.streamId = true → out.msg.keyframe = true
  | _ => True

/-- A keyframe lifts the latch only if no other stream is thinned, nor its own
unless the stream policy lets it through; and no deadline is 0, the latch's off. -/
def LiftsForAll (w : Watched) : Input pbEncode → Prop
  | .enqueueOne out now =>
      w.endpoint.doorRefuses out.msg = false →
        w.endpoint.lifts out.msg now.monotonicNs = true →
          ∀ streamId, w.thinned streamId = true →
            streamId = out.msg.streamId ∧ w.endpoint.dropsStream streamId = false
  | .requestVideoDegrade nowNs => nowNs + w.endpoint.degradeHoldNs ≠ 0
  | .io answer =>
      w.endpoint.pc = .stall → (w.endpoint.outbox .bulk).dropped ≠ w.endpoint.evictionsSeen →
        answer.nowNs + w.endpoint.degradeHoldNs ≠ 0
  | _ => True

/-- Without the latch no stream is thinned. -/
def Latched (w : Watched) : Prop :=
  w.endpoint.degradeHoldUntilNs = 0 → ∀ streamId, w.thinned streamId = false

variable {w : Watched}

theorem latched_of_same (hlatched : Latched w) {t : FramedFdEndpoint}
    (hsame : t.degradeHoldUntilNs = w.endpoint.degradeHoldUntilNs) :
    Latched { endpoint := t, thinned := w.thinned } :=
  fun hzero => hlatched (hsame.symm.trans hzero)

theorem latched_enqueueOne (hlatched : Latched w) (out : Outgoing pbEncode) (now : Readings)
    (hlifts : w.LiftsForAll (.enqueueOne out now)) : Latched (w.step (.enqueueOne out now)) := by
  intro hzero streamId
  have hlatch := hzero.symm.trans (w.endpoint.enqueueOne_latch out.msg out.frame now)
  change w.thinnedAfter (.enqueueOne out now) streamId = false
  cases hthin : thinnable out.msg with
  | false =>
      have hplain : w.endpoint.lifts out.msg now.monotonicNs = false := by simp [lifts, hthin]
      rw [if_neg (by simp [hplain])] at hlatch
      simpa [thinnedAfter, hthin] using hlatched hlatch.symm streamId
  | true =>
      have haccepts := w.endpoint.enqueueOne_thinnable hthin out.frame now
      simp only [thinnedAfter, hthin, if_true]
      by_cases hlift : w.endpoint.doorRefuses out.msg = false ∧
          w.endpoint.lifts out.msg now.monotonicNs = true
      · -- The lifting keyframe is the thinned stream's own, and is accepted.
        have hthinned := hlifts hlift.1 hlift.2
        have hkey : out.msg.keyframe = true := by
          have hall := hlift.2
          simp only [lifts, Bool.and_eq_true] at hall
          exact hall.1.2
        have hgate : w.endpoint.degradeRefuses out.msg = false := by
          simp [degradeRefuses, hkey]
        cases hstream : w.thinned streamId with
        | false =>
            split
            · by_cases hself : streamId = out.msg.streamId
              · rw [hself, Function.update_self]
              · rw [Function.update_of_ne hself, hstream]
            · rw [hgate, Bool.and_false, if_neg (by simp), hstream]
        | true =>
            obtain ⟨rfl, hkept⟩ := hthinned streamId hstream
            rw [if_pos (haccepts.mpr ⟨hlift.1, hgate, hkept⟩), Function.update_self]
      · rw [if_neg hlift] at hlatch
        have hnone := hlatched hlatch.symm
        have hgate : w.endpoint.degradeRefuses out.msg = false := by
          simp [degradeRefuses, ← hlatch]
        split
        · by_cases hself : streamId = out.msg.streamId
          · rw [hself, Function.update_self]
          · rw [Function.update_of_ne hself, hnone]
        · rw [hgate, Bool.and_false, if_neg (by simp), hnone]

theorem latched_io (hlatched : Latched w) (answer : IoAnswer)
    (hlifts : w.LiftsForAll (.io answer : Input pbEncode)) :
    Latched (w.step (.io answer : Input pbEncode)) := by
  intro hzero streamId
  have hdoor : (w.endpoint.ioStep pbEncode answer).door = _ := w.endpoint.ioStep_door answer
  have hlatch := hzero.symm.trans (congrArg Door.degradeHoldUntilNs hdoor)
  change (if w.endpoint.pc = .dying .latches then fun _ => false else w.thinned) streamId = false
  split
  · rfl
  next hlive =>
    cases hpc : w.endpoint.pc with
    | stall =>
        rw [hpc] at hlatch
        change 0 = w.endpoint.armed answer.nowNs at hlatch
        rw [armed] at hlatch
        split at hlatch
        next hevicted => exact absurd hlatch.symm (hlifts hpc hevicted)
        next => exact hlatched hlatch.symm streamId
    | dying stage =>
        cases stage with
        | latches => exact absurd hpc hlive
        | reliable | fd | ctrl | bulk | timed =>
            rw [hpc] at hlatch
            exact hlatched hlatch.symm streamId
    | idle | flush | flushed | top | takeTimed | writeTimed | pick | pickReliable | finish
    | promote | trail | drained | exited =>
        rw [hpc] at hlatch
        exact hlatched hlatch.symm streamId

theorem latched_step (hlatched : Latched w) (input : Input pbEncode)
    (hlifts : w.LiftsForAll input) : Latched (w.step input) := by
  cases input with
  | enqueueOne out now => exact latched_enqueueOne hlatched out now hlifts
  | io answer => exact latched_io hlatched answer hlifts
  | requestVideoDegrade nowNs => exact fun hzero => absurd hzero hlifts
  | trySendReliable out nowUs =>
      refine latched_of_same hlatched ?_
      simp only [FramedFdEndpoint.step, trySendReliable]
      split_ifs
      · rfl
      · rfl
      · split <;> rfl
  | pump | linkDead | reopen | exit =>
      refine latched_of_same hlatched ?_
      simp only [FramedFdEndpoint.step]
      split <;> rfl
  | sendTimed msg finalize hasSent =>
      refine latched_of_same hlatched ?_
      simp only [FramedFdEndpoint.step, sendTimed]
      split <;> rfl
  | beginBatch | discardReliable | requestBulkFlush | setStreamPolicy | stop =>
      exact hlatched

/-- A stream resumes at a keyframe wherever the latch is on while it is thinned. -/
theorem resumes_of_latched (hlatched : Latched w) (input : Input pbEncode) :
    w.ResumesAtKeyframe input := by
  cases input with
  | enqueueOne out now =>
      intro hthin haccepted hthinned
      obtain ⟨-, hgate, -⟩ := (w.endpoint.enqueueOne_thinnable hthin _ _).mp haccepted
      have hon : w.endpoint.degradeHoldUntilNs ≠ 0 := fun hoff => by
        rw [hlatched hoff] at hthinned
        cases hthinned
      rw [thinnable, Bool.and_eq_true] at hthin
      unfold degradeRefuses at hgate
      simpa [hthin.1, hthin.2, hon] using hgate
  | _ => trivial

/-- Every stream resumes at a keyframe of its own in every run in which the latch is
only lifted for all of them. -/
theorem run_resumes (bulkPolicy : WritePolicy) (stallNs degradeHoldNs : ℤ)
    (reopenable fdUp : Bool) (inputs : List (Input pbEncode))
    (hlifts : Along step LiftsForAll
      { endpoint := .init bulkPolicy stallNs degradeHoldNs reopenable fdUp } inputs) :
    Along step ResumesAtKeyframe
      { endpoint := .init bulkPolicy stallNs degradeHoldNs reopenable fdUp } inputs := by
  have hinit : Latched { endpoint := .init bulkPolicy stallNs degradeHoldNs reopenable fdUp } :=
    fun _ _ => rfl
  generalize ({ endpoint := .init bulkPolicy stallNs degradeHoldNs reopenable fdUp } : Watched) = w
    at hlifts hinit ⊢
  induction inputs generalizing w with
  | nil => trivial
  | cons input inputs ih =>
      exact ⟨resumes_of_latched hinit input,
        ih _ hlifts.2 (latched_step hinit input hlifts.1)⟩

/-! ## Two streams under one latch -/

/-- A frame of a camera, with no header bytes. -/
def cameraFrame (streamId : ℕ) (keyframe : Bool) : Outgoing fun _ => [] where
  msg := { streamId := streamId, bulk := true, keyframe := keyframe }

/-- The latch is armed, one camera is thinned, and a keyframe of `lifting` passes the
hold before the camera goes on. -/
def latchedCamera (lifting : ℕ) : List (Input fun _ => []) :=
  [.requestVideoDegrade 1, .enqueueOne (cameraFrame 16 false) { monotonicNs := 2 },
    .enqueueOne (cameraFrame lifting true) { monotonicNs := 9 },
    .enqueueOne (cameraFrame 16 false) { monotonicNs := 9 }]

/-- The camera's own keyframe lifts the latch. -/
theorem run_resumes_alone :
    Along step ResumesAtKeyframe { endpoint := .init {} 3 5 false true }
      (latchedCamera 16) := by
  refine run_resumes {} 3 5 false true (latchedCamera 16)
    ⟨(by decide : (1 : ℤ) + 5 ≠ 0), fun _ hlift => absurd hlift (by decide +kernel),
      fun _ _ streamId hthinned => ?_,
      fun _ hlift => absurd hlift (by decide +kernel), trivial⟩
  change Function.update (fun _ => false) 16 true streamId = true at hthinned
  by_cases hself : streamId = 16
  · subst hself
    exact ⟨rfl, rfl⟩
  · rw [Function.update_of_ne hself] at hthinned
    cases hthinned

/-- Another camera's keyframe lifts the latch, and the first goes on in the middle of
its group of pictures. -/
theorem not_run_resumes :
    ¬∀ (bulkPolicy : WritePolicy) (stallNs degradeHoldNs : ℤ) (reopenable fdUp : Bool)
      (inputs : List (Input fun _ => [])), Along step ResumesAtKeyframe
        { endpoint := .init bulkPolicy stallNs degradeHoldNs reopenable fdUp } inputs := by
  intro hall
  have hcamera := hall {} 3 5 false true (latchedCamera 17)
  exact absurd (hcamera.2.2.2.1 rfl (by decide +kernel) (by decide +kernel)) (by decide)

end Watched

end VisioSchema.Transport

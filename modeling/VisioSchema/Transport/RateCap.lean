import Mathlib.Tactic.Ring
import VisioSchema.Library.SlotGate
import VisioSchema.Transport.DegradeLatch

/-!
# The rate cap

`PassesRateGate` steps a grid of whole periods.  Between messages the grid stands one period past
the slot of the last accepted one (`gridOf`), so the gate is the library's `SlotGate`, and
`SetStreamPolicy` with an unchanged period does not move it.

## Strategy

The answers of one stream's gate are to be those of a `SlotGate` over the capture times that
reach it (`gateLog_gated`).

* **One message.**  `stepRateGate_eq` reads the code's step on a grid as a step by slots.
* **One call.**  `EnqueueOne` has gates in front of this one.  `reachesGate` says whether they
  let a message through; a call that they stop, or that is about another stream, leaves the
  stream's gate alone (`capped_silent`), and so does an installation with the same period
  (`capped_setStreamPolicy`).
* **The installs.**  Whether a message of a capped stream reaches the gate is decided by the call
  alone (`reachesGate_iff`), so that the calls without the installs give the same answers
  (`askedAt_withoutInstalls`).
-/

namespace VisioSchema.Transport

open VisioSchema.Wire VisioSchema.Library

/-! ## The grid -/

/-- The grid behind the slot of the last accepted message. -/
def gridOf (gap : ℤ) (last : Option ℤ) : ℤ := last.elim 0 fun k => (k + 1) * gap

/-- A capture time in microseconds. -/
def captureUs (msg : Message) : ℤ := (timestampNs msg.timestamp).tdiv 1000

variable {gap : ℤ} {last : Option ℤ}

/-- Stepping from a multiple of the gap ends one period past the message's slot. -/
theorem step_grid (hgap : 0 < gap) {tUs k : ℤ} (hreached : k * gap ≤ tUs) :
    k * gap + gap * (1 + (tUs - k * gap).tdiv gap) = (tUs / gap + 1) * gap := by
  have hdiv : (tUs - k * gap).tdiv gap = tUs / gap - k := by
    rw [Int.tdiv_eq_ediv_of_nonneg (by omega), Int.sub_mul_ediv_right _ _ (by omega)]
  rw [hdiv]
  ring

/-- What the gate makes of a message with a capture time. -/
theorem stepRateGate_eq (gate : RateGate) {captureNs : ℤ} (hcapture : captureNs ≠ 0)
    (steadyUs gap : ℤ) :
    let tUs := captureNs.tdiv 1000
    let early := tUs < gate.gridUs ∧ gate.gridUs - gap - tUs ≤ kDecimEpochResetUs
    let grid := if tUs < gate.gridUs then 0 else gate.gridUs
    (FramedFdEndpoint.stepRateGate gate captureNs steadyUs gap).2 = !decide early ∧
      (FramedFdEndpoint.stepRateGate gate captureNs steadyUs gap).1.gridUs =
        if early then gate.gridUs else grid + gap * (1 + (tUs - grid).tdiv gap) := by
  intro tUs early grid
  have hcaptured : decide (captureNs ≠ 0) = true := decide_eq_true hcapture
  simp only [FramedFdEndpoint.stepRateGate, hcaptured, if_true]
  have hsame : (if gate.gridUs = 0 then { gate with captureTimed := true }
      else if true ≠ gate.captureTimed ∧ gate.mixedWarned = false then
        { gate with mixedWarned := true }
      else gate).gridUs = gate.gridUs := by
    split_ifs <;> rfl
  rw [hsame]
  by_cases hearly : early
  · rw [if_pos hearly, if_pos hearly]
    exact ⟨by simp [hearly], hsame⟩
  · rw [if_neg hearly, if_neg hearly]
    exact ⟨by simp [hearly], rfl⟩

/-- The gate of one stream answers by slots. -/
theorem stepRateGate_gated (hgap : 0 < gap) {gate : RateGate}
    (hgrid : gate.gridUs = gridOf gap last) (hlast : ∀ k ∈ last, 0 ≤ k) {captureNs : ℤ}
    (hcapture : 0 < captureNs) (steadyUs : ℤ) :
    let tUs := captureNs.tdiv 1000
    let passed := (FramedFdEndpoint.stepRateGate gate captureNs steadyUs gap).2
    (passed = true ↔ (∀ k ∈ last, k < SlotGate.slot gap tUs) ∨
        ¬SlotGate.Near gap kDecimEpochResetUs last tUs) ∧
      (FramedFdEndpoint.stepRateGate gate captureNs steadyUs gap).1.gridUs =
        gridOf gap (SlotGate.next gap last ⟨tUs, passed⟩) := by
  intro tUs passed
  obtain ⟨hpassed, hnext⟩ := stepRateGate_eq gate (Int.ne_of_gt hcapture) steadyUs gap
  change passed = _ at hpassed
  have htUs : 0 ≤ tUs := Int.tdiv_nonneg hcapture.le (by decide)
  change _ = if tUs < gate.gridUs ∧ gate.gridUs - gap - tUs ≤ kDecimEpochResetUs then gate.gridUs
    else (if tUs < gate.gridUs then 0 else gate.gridUs) +
      gap * (1 + (tUs - if tUs < gate.gridUs then 0 else gate.gridUs).tdiv gap) at hnext
  -- An accepted message moves the grid one period past its slot.
  have hseed : (0 : ℤ) + gap * (1 + (tUs - 0).tdiv gap) = (tUs / gap + 1) * gap := by
    have hreached : 0 * gap ≤ tUs := by rwa [Int.zero_mul]
    have hzero := step_grid hgap hreached
    rwa [Int.zero_mul] at hzero
  cases last with
  | none =>
      have hlate : ¬tUs < gate.gridUs := by
        rw [hgrid]
        exact Int.not_lt.mpr htUs
      have hyes : passed = true := by
        rw [hpassed, decide_eq_false fun hearly => hlate hearly.1]
        rfl
      have hzero : gate.gridUs = 0 := hgrid
      refine ⟨iff_of_true hyes (Or.inl (by simp)), ?_⟩
      rw [hnext, if_neg fun hearly => hlate hearly.1, if_neg hlate, hzero, hseed, SlotGate.next,
        if_pos hyes]
      rfl
  | some k =>
      have hstart : gate.gridUs = (k + 1) * gap := hgrid
      have hslot : tUs < gate.gridUs ↔ SlotGate.slot gap tUs ≤ k := by
        rw [hstart, SlotGate.slot, ← Int.ediv_lt_iff_lt_mul hgap]
        omega
      have hback : gate.gridUs - gap - tUs = k * gap - tUs := by rw [hstart]; ring
      have hnear : SlotGate.Near gap kDecimEpochResetUs (some k) tUs ↔
          gate.gridUs - gap - tUs ≤ kDecimEpochResetUs := by
        rw [hback]
        exact ⟨fun hall => hall k rfl, fun hle k' hk' => by rwa [← Option.mem_some_iff.mp hk']⟩
      have hbehind : (∀ k' ∈ some k, k' < SlotGate.slot gap tUs) ↔ ¬tUs < gate.gridUs := by
        rw [hslot, Int.not_le]
        exact ⟨fun hall => hall k rfl, fun hlt k' hk' => by rwa [← Option.mem_some_iff.mp hk']⟩
      by_cases hearly : tUs < gate.gridUs ∧ gate.gridUs - gap - tUs ≤ kDecimEpochResetUs
      · have hno : passed = false := by rw [hpassed, decide_eq_true hearly]; rfl
        refine ⟨iff_of_false (by simp [hno]) ?_, ?_⟩
        · rw [hbehind, hnear, not_or, not_not, not_not]
          exact hearly
        · rw [hnext, if_pos hearly, SlotGate.next, hno, hgrid]
          rfl
      · have hyes : passed = true := by rw [hpassed, decide_eq_false hearly]; rfl
        refine ⟨iff_of_true hyes ?_, ?_⟩
        · rw [hbehind, hnear, ← not_and_or]
          exact hearly
        · rw [hnext, if_neg hearly, SlotGate.next, if_pos hyes]
          by_cases hlt : tUs < gate.gridUs
          · rw [if_pos hlt, hseed]
            rfl
          · rw [if_neg hlt, hstart, step_grid hgap]
            · rfl
            · rw [← hstart]
              exact Int.not_lt.mp hlt

/-! ## Calls -/

/-- The producers' calls, serialized by the bus. -/
inductive PolicyCall
  | enqueueOne (msg : Message) (frame : List Byte) (stalled : Bool)
      (now : FramedFdEndpoint.Readings)
  | setStreamPolicy (policy : Option ResolvedStreamPolicy)

namespace FramedFdEndpoint

/-- `EnqueueOne` with the `stalled` of its caller. -/
def enqueueStalled (s : FramedFdEndpoint) (msg : Message) (frame : List Byte) (stalled : Bool)
    (now : Readings) : FramedFdEndpoint × Bool :=
  { s with batchStalled := stalled }.enqueueOne msg frame now

/-- `EnqueueOne` asks `PassesRateGate`. -/
def reachesGate (s : FramedFdEndpoint) (msg : Message) (stalled : Bool) : Bool :=
  !{ s with batchStalled := stalled }.doorRefuses msg && !s.degradeRefuses msg &&
    !s.dropsStream msg.streamId && decide (s.capOf msg ≠ 0)

/-- What `PassesRateGate` was asked about a stream, and what it answered. -/
def gateLog (streamId : ℕ) : FramedFdEndpoint → List PolicyCall → List SlotGate.Call
  | _, [] => []
  | s, .setStreamPolicy policy :: rest => gateLog streamId (s.setStreamPolicy policy) rest
  | s, .enqueueOne msg frame stalled now :: rest =>
      let result := s.enqueueStalled msg frame stalled now
      if msg.streamId = streamId ∧ s.reachesGate msg stalled then
        ⟨captureUs msg, result.2⟩ :: gateLog streamId result.1 rest
      else gateLog streamId result.1 rest

/-- `RuleIn`. -/
def ruleIn (table : Option ResolvedStreamPolicy) (streamId : ℕ) : Option StreamRule :=
  table.bind fun t => t streamId

/-- The period that a table gives a stream. -/
def gapIn (table : Option ResolvedStreamPolicy) (streamId : ℕ) : ℤ :=
  (ruleIn table streamId).elim 0 StreamRule.minGapUs

/-- The gate of a stream; an absent one reads as a zero grid. -/
def gateOf (s : FramedFdEndpoint) (streamId : ℕ) : RateGate := (s.decimGridUs streamId).getD {}

/-! ## One call -/

variable {s : FramedFdEndpoint}

theorem liftDegrade_door (s : FramedFdEndpoint) (msg : Message) (nowNs : ℤ) :
    (s.liftDegrade msg nowNs).door =
      { s.door with degradeHoldUntilNs := (s.liftDegrade msg nowNs).degradeHoldUntilNs } := by
  unfold liftDegrade
  split <;> rfl

/-- `EnqueueOne` behind its first two gates. -/
theorem enqueueOne_open {msg : Message} (hdoor : s.doorRefuses msg = false)
    (hgate : s.degradeRefuses msg = false) (frame : List Byte) (now : Readings) :
    s.enqueueOne msg frame now =
      (s.liftDegrade msg now.monotonicNs).queueByRule msg frame now := by
  unfold enqueueOne
  rw [← doorRefuses, hdoor, hgate]
  rfl

theorem enqueueOne_refused {msg : Message}
    (hrefused : s.doorRefuses msg = true ∨ s.degradeRefuses msg = true) (frame : List Byte)
    (now : Readings) :
    (s.enqueueOne msg frame now).1.door = s.door ∧ (s.enqueueOne msg frame now).2 = false := by
  unfold enqueueOne
  rw [← doorRefuses]
  rcases hrefused with hdoor | hgate
  · rw [hdoor]
    exact ⟨rfl, rfl⟩
  · rw [hgate]
    cases s.doorRefuses msg <;> exact ⟨rfl, rfl⟩

/-- Where the gate is not asked, or about another stream, a stream's gate is kept. -/
theorem passesRateGate_door (s : FramedFdEndpoint) (msg : Message) (minGapUs steadyUs : ℤ) :
    (s.passesRateGate msg minGapUs steadyUs).1.policy = s.policy ∧
      (∀ streamId ≠ msg.streamId,
        (s.passesRateGate msg minGapUs steadyUs).1.decimGridUs streamId =
          s.decimGridUs streamId) ∧
        (0 < minGapUs →
          (s.passesRateGate msg minGapUs steadyUs).2 =
              (stepRateGate (s.gateOf msg.streamId) (timestampNs msg.timestamp) steadyUs
                minGapUs).2 ∧
            (s.passesRateGate msg minGapUs steadyUs).1.gateOf msg.streamId =
              (stepRateGate (s.gateOf msg.streamId) (timestampNs msg.timestamp) steadyUs
                minGapUs).1) := by
  unfold passesRateGate
  by_cases hgap : minGapUs ≤ 0
  · rw [if_pos hgap]
    exact ⟨rfl, fun _ _ => rfl, fun hpos => absurd hpos (Int.not_lt.mpr hgap)⟩
  · rw [if_neg hgap]
    refine ⟨rfl, fun streamId hne => Function.update_of_ne hne .., fun _ => ⟨rfl, ?_⟩⟩
    simp only [gateOf, Function.update_self, Option.getD_some]

section Call

variable {msg : Message} {stalled : Bool} (frame : List Byte) (now : Readings)

/-- The state that the stream policy's part of `EnqueueOne` starts from. -/
theorem enqueueStalled_open 
    (hdoor : ({ s with batchStalled := stalled } : FramedFdEndpoint).doorRefuses msg = false)
    (hgate : s.degradeRefuses msg = false) :
    ∃ l : FramedFdEndpoint, l.policy = s.policy ∧ l.decimGridUs = s.decimGridUs ∧
      s.enqueueStalled msg frame stalled now = l.queueByRule msg frame now := by
  have hlift := liftDegrade_door { s with batchStalled := stalled } msg now.monotonicNs
  exact ⟨_, congrArg Door.policy hlift, congrArg Door.decimGridUs hlift,
    enqueueOne_open hdoor hgate frame now⟩

/-- What `EnqueueOne` does when it asks the gate. -/
theorem enqueueStalled_asks (hreaches : s.reachesGate msg stalled = true)
    (hcap : 0 < s.capOf msg) :
    let asked := stepRateGate (s.gateOf msg.streamId) (timestampNs msg.timestamp) now.gateUs
      (s.capOf msg)
    (s.enqueueStalled msg frame stalled now).2 = asked.2 ∧
      (s.enqueueStalled msg frame stalled now).1.gateOf msg.streamId = asked.1 := by
  intro asked
  simp only [reachesGate, Bool.and_eq_true, Bool.not_eq_true', decide_eq_true_eq] at hreaches
  obtain ⟨⟨⟨hdoor, hgate⟩, hdrops⟩, -⟩ := hreaches
  obtain ⟨l, hpolicy, hgrids, heq⟩ := enqueueStalled_open frame now hdoor hgate
  have hrule : l.ruleFor = s.ruleFor := by
    funext streamId
    rw [ruleFor, ruleFor, hpolicy]
  have hcapl : l.capOf msg = s.capOf msg := by rw [capOf, capOf, hrule]
  have hdropsl : l.dropsStream msg.streamId = false := by
    rw [dropsStream, hrule]
    exact hdrops
  have hgatel : l.gateOf msg.streamId = s.gateOf msg.streamId := by rw [gateOf, gateOf, hgrids]
  obtain ⟨hanswer, hafter⟩ := l.queueByRule_spec msg frame now
  obtain ⟨-, -, hasked⟩ := l.passesRateGate_door msg (l.capOf msg) now.gateUs
  obtain ⟨hpasses, hgate'⟩ := hasked (by rwa [hcapl])
  rw [hcapl, hgatel] at hpasses hgate'
  rw [hdropsl, Bool.not_false, Bool.true_and, hcapl, hpasses] at hanswer
  rw [hdropsl, if_neg (by simp), hcapl] at hafter
  rw [heq]
  refine ⟨hanswer, ?_⟩
  rw [← hgate', gateOf, gateOf]
  exact congrArg (fun d : Door => (d.decimGridUs msg.streamId).getD {}) hafter

/-- No call of `EnqueueOne` touches the policy, or the gate of a stream that it does
not ask about. -/
theorem enqueueStalled_keeps :
    (s.enqueueStalled msg frame stalled now).1.policy = s.policy ∧
      ∀ streamId, streamId ≠ msg.streamId ∨ s.reachesGate msg stalled = false →
        (s.enqueueStalled msg frame stalled now).1.decimGridUs streamId =
          s.decimGridUs streamId := by
  by_cases hrefused :
      ({ s with batchStalled := stalled } : FramedFdEndpoint).doorRefuses msg = true ∨
        s.degradeRefuses msg = true
  · obtain ⟨hdoor, -⟩ := enqueueOne_refused (s := { s with batchStalled := stalled }) hrefused
      frame now
    exact ⟨congrArg Door.policy hdoor,
      fun streamId _ => congrArg (fun d : Door => d.decimGridUs streamId) hdoor⟩
  rw [not_or, Bool.not_eq_true, Bool.not_eq_true] at hrefused
  obtain ⟨l, hpolicy, hgrids, heq⟩ := enqueueStalled_open frame now hrefused.1 hrefused.2
  have hrule : l.ruleFor = s.ruleFor := by
    funext streamId
    rw [ruleFor, ruleFor, hpolicy]
  obtain ⟨-, hafter⟩ := l.queueByRule_spec msg frame now
  obtain ⟨hpass, hother, -⟩ := l.passesRateGate_door msg (l.capOf msg) now.gateUs
  rw [heq]
  by_cases hdrops : l.dropsStream msg.streamId = true
  · rw [if_pos hdrops] at hafter
    exact ⟨(congrArg Door.policy hafter).trans hpolicy, fun streamId _ =>
      (congrArg (fun d : Door => d.decimGridUs streamId) hafter).trans
        (congrFun hgrids streamId)⟩
  · rw [if_neg hdrops] at hafter
    refine ⟨(congrArg Door.policy hafter).trans (hpass.trans hpolicy), fun streamId hsilent => ?_⟩
    refine (congrArg (fun d : Door => d.decimGridUs streamId) hafter).trans ?_
    refine Eq.trans ?_ (congrFun hgrids streamId)
    rcases hsilent with hne | hsilent
    · exact hother streamId hne
    · -- Not asked, though nothing refused it: the message is not capped.
      have huncapped : l.capOf msg = 0 := by
        rw [capOf, hrule]
        rw [dropsStream, hrule, ← dropsStream, Bool.not_eq_true] at hdrops
        simpa [reachesGate, hrefused.1, hrefused.2, hdrops, capOf] using hsilent
      change (l.passesRateGate msg (l.capOf msg) now.gateUs).1.decimGridUs streamId = _
      rw [huncapped, passesRateGate, if_pos (Int.le_refl 0)]

/-- An asked gate caps by the table's period. -/
theorem capOf_of_reaches (hreaches : s.reachesGate msg stalled = true) :
    s.capOf msg = gapIn s.policy msg.streamId := by
  have hcapped : s.capOf msg ≠ 0 := by
    simp only [reachesGate, Bool.and_eq_true, decide_eq_true_eq] at hreaches
    exact hreaches.2
  rw [capOf] at hcapped ⊢
  cases hbulk : msg.bulk with
  | true => exact absurd (if_pos hbulk) hcapped
  | false => rfl

/-! ## The invariant -/

/-- The stream is capped at `gap`, or not capped yet, and its gate stands behind `last`. -/
structure Capped (streamId : ℕ) (gap : ℤ) (last : Option ℤ) (s : FramedFdEndpoint) : Prop where
  rule : gapIn s.policy streamId = gap ∨ gapIn s.policy streamId = 0
  grid : (s.gateOf streamId).gridUs = gridOf gap last
  nonneg : ∀ k ∈ last, 0 ≤ k
  fresh : gapIn s.policy streamId = 0 → last = none

variable {streamId : ℕ}

/-- An install with the same period leaves the stream's gate where it is. -/
theorem capped_setStreamPolicy (hgap : 0 < gap) (hcapped : Capped streamId gap last s)
    {table : Option ResolvedStreamPolicy} (htable : gapIn table streamId = gap) :
    Capped streamId gap last (s.setStreamPolicy table) := by
  have hkept : (s.setStreamPolicy table).decimGridUs streamId =
      if gapIn table streamId ≠ 0 ∧ gapIn table streamId = gapIn s.policy streamId then
        s.decimGridUs streamId
      else none := rfl
  refine ⟨Or.inl htable, ?_, hcapped.nonneg, fun hzero => ?_⟩
  · rw [gateOf, hkept, htable]
    by_cases hsame : gap = gapIn s.policy streamId
    · rw [if_pos ⟨by omega, hsame⟩]
      exact hcapped.grid
    · have hlast := hcapped.fresh (hcapped.rule.resolve_left fun heq => hsame heq.symm)
      rw [if_neg fun hboth => hsame hboth.2, hlast]
      rfl
  · have : gapIn table streamId = 0 := hzero
    omega

/-- What a call of `EnqueueOne` that asks the stream's gate does to it. -/
theorem capped_asks (hgap : 0 < gap) (hcapped : Capped streamId gap last s)
    (hstream : msg.streamId = streamId) (hreaches : s.reachesGate msg stalled = true)
    (htimed : 0 < timestampNs msg.timestamp) :
    let passed := (s.enqueueStalled msg frame stalled now).2
    (passed = true ↔ (∀ k ∈ last, k < SlotGate.slot gap (captureUs msg)) ∨
        ¬SlotGate.Near gap kDecimEpochResetUs last (captureUs msg)) ∧
      Capped streamId gap (SlotGate.next gap last ⟨captureUs msg, passed⟩)
        (s.enqueueStalled msg frame stalled now).1 := by
  intro passed
  subst hstream
  have hnonzero : s.capOf msg ≠ 0 := by
    simp only [reachesGate, Bool.and_eq_true, decide_eq_true_eq] at hreaches
    exact hreaches.2
  have hcap := capOf_of_reaches hreaches
  have hrule : gapIn s.policy msg.streamId = gap :=
    hcapped.rule.resolve_right fun hzero => hnonzero (hcap.trans hzero)
  rw [hrule] at hcap
  obtain ⟨hanswer, hgate⟩ := enqueueStalled_asks frame now hreaches (by omega)
  obtain ⟨hpolicy, -⟩ := @enqueueStalled_keeps s msg stalled frame now
  rw [hcap] at hanswer hgate
  obtain ⟨hiff, hgrid⟩ :=
    stepRateGate_gated hgap hcapped.grid hcapped.nonneg htimed now.gateUs
  rw [← hanswer, ← hgate] at hgrid
  rw [← hanswer] at hiff
  refine ⟨hiff, Or.inl (by rw [hpolicy, hrule]), hgrid, fun k hk => ?_, fun hzero => ?_⟩
  · rw [SlotGate.next] at hk
    split at hk
    · rw [← Option.mem_some_iff.mp hk]
      exact Int.ediv_nonneg (Int.tdiv_nonneg htimed.le (by decide)) hgap.le
    · exact hcapped.nonneg k hk
  · rw [hpolicy, hrule] at hzero
    omega

/-- Any other call of `EnqueueOne` leaves the stream's gate alone. -/
theorem capped_silent (hcapped : Capped streamId gap last s)
    (hsilent : ¬(msg.streamId = streamId ∧ s.reachesGate msg stalled = true)) :
    Capped streamId gap last (s.enqueueStalled msg frame stalled now).1 := by
  obtain ⟨hpolicy, hgates⟩ := @enqueueStalled_keeps s msg stalled frame now
  have hkept := hgates streamId (by
    by_cases hstream : msg.streamId = streamId
    · exact Or.inr (by simpa using fun hreaches => hsilent ⟨hstream, hreaches⟩)
    · exact Or.inl fun heq => hstream heq.symm)
  refine ⟨by rw [hpolicy]; exact hcapped.rule, ?_, hcapped.nonneg, ?_⟩
  · rw [gateOf, hkept]
    exact hcapped.grid
  · rw [hpolicy]
    exact hcapped.fresh

end Call

/-! ## Runs -/

variable {streamId : ℕ} {calls : List PolicyCall}

/-- A call under a cap of `gap` on the stream: its messages have a capture time, and
every table gives it that period. -/
def PolicyCall.Caps (streamId : ℕ) (gap : ℤ) : PolicyCall → Prop
  | .enqueueOne msg _ _ _ => msg.streamId = streamId → 0 < timestampNs msg.timestamp
  | .setStreamPolicy table => gapIn table streamId = gap

/-- The gate of a capped stream answers by slots, over any calls. -/
theorem gateLog_gated (hgap : 0 < gap) (hcapped : Capped streamId gap last s)
    (hcalls : ∀ call ∈ calls, PolicyCall.Caps streamId gap call) :
    SlotGate.Gated gap kDecimEpochResetUs last (gateLog streamId s calls) := by
  induction calls generalizing s last with
  | nil => trivial
  | cons call rest ih =>
      have hrest : ∀ call ∈ rest, PolicyCall.Caps streamId gap call :=
        fun call hmem => hcalls call (List.mem_cons_of_mem _ hmem)
      have hcall := hcalls call List.mem_cons_self
      cases call with
      | setStreamPolicy table => exact ih (capped_setStreamPolicy hgap hcapped hcall) hrest
      | enqueueOne msg frame stalled now =>
          by_cases hasks : msg.streamId = streamId ∧ s.reachesGate msg stalled = true
          · obtain ⟨hrule, hnext⟩ :=
              capped_asks frame now hgap hcapped hasks.1 hasks.2 (hcall hasks.1)
            rw [gateLog, if_pos hasks]
            exact ⟨hrule, ih hnext hrest⟩
          · rw [gateLog, if_neg hasks]
            exact ih (capped_silent frame now hcapped hasks) hrest

/-! ## Without the installs -/

/-- The calls of `EnqueueOne`. -/
def withoutInstalls (calls : List PolicyCall) : List PolicyCall :=
  calls.filter fun
    | .enqueueOne .. => true
    | .setStreamPolicy _ => false

/-- A table whose rule for the stream is a drop or a cap, never both. -/
def OneKind (streamId : ℕ) (table : Option ResolvedStreamPolicy) : Prop :=
  ∀ rule ∈ ruleIn table streamId, rule.drop = false ∨ rule.minGapUs = 0

/-- The capture time that a call brings to the gate of a stream that is capped and not
dropped. -/
def askedAt (streamId : ℕ) : PolicyCall → Option ℤ
  | .setStreamPolicy _ => none
  | .enqueueOne msg _ stalled _ =>
      if msg.streamId = streamId ∧ msg.bulk = false ∧ (stalled && msg.decimatable) = false then
        some (captureUs msg)
      else none

theorem capRule (hgap : 0 < gap) {table : Option ResolvedStreamPolicy}
    (hone : OneKind streamId table) (htable : gapIn table streamId = gap) :
    ruleIn table streamId = some { drop := false, minGapUs := gap } := by
  unfold OneKind at hone
  unfold gapIn at htable
  cases hrule : ruleIn table streamId with
  | none =>
      rw [hrule] at htable
      exact absurd htable (Int.ne_of_lt hgap)
  | some rule =>
      rw [hrule] at hone htable
      obtain ⟨drop, minGapUs⟩ := rule
      have hperiod : minGapUs = gap := htable
      rcases hone _ rfl with hdrop | hzero
      · rw [hperiod, show drop = false from hdrop]
      · have hzero : minGapUs = 0 := hzero
        omega

/-- Whether a capped stream's message reaches the gate is decided by the call alone. -/
theorem reachesGate_iff {msg : Message} {stalled : Bool} (hgap : 0 < gap)
    (hrule : ruleIn s.policy msg.streamId = some { drop := false, minGapUs := gap }) :
    s.reachesGate msg stalled = true ↔
      msg.bulk = false ∧ (stalled && msg.decimatable) = false := by
  have hrule' : s.ruleFor msg.streamId = some { drop := false, minGapUs := gap } := hrule
  have hne : gap ≠ 0 := by omega
  unfold reachesGate doorRefuses degradeRefuses dropsStream capOf
  rw [hrule']
  cases msg.bulk <;> cases stalled <;> simp [hne]

theorem gateLog_times (hgap : 0 < gap)
    (hrule : ruleIn s.policy streamId = some { drop := false, minGapUs := gap })
    (hinstalls : ∀ table, .setStreamPolicy table ∈ calls →
      ruleIn table streamId = some { drop := false, minGapUs := gap }) :
    (gateLog streamId s calls).map SlotGate.Call.time = calls.filterMap (askedAt streamId) := by
  induction calls generalizing s with
  | nil => rfl
  | cons call rest ih =>
      have hrest := fun table hmem => hinstalls table (List.mem_cons_of_mem _ hmem)
      cases call with
      | setStreamPolicy table => exact ih (hinstalls table List.mem_cons_self) hrest
      | enqueueOne msg frame stalled now =>
          obtain ⟨hpolicy, -⟩ :=
            @enqueueStalled_keeps s msg stalled frame now
          have hlater := ih (s := (s.enqueueStalled msg frame stalled now).1)
            (by rw [hpolicy]; exact hrule) hrest
          have hasked : (msg.streamId = streamId ∧ s.reachesGate msg stalled = true) ↔
              msg.streamId = streamId ∧ msg.bulk = false ∧
                (stalled && msg.decimatable) = false := by
            refine and_congr_right fun hstream => reachesGate_iff hgap ?_
            rw [hstream]
            exact hrule
          by_cases hasks : msg.streamId = streamId ∧ s.reachesGate msg stalled = true
          · rw [gateLog, if_pos hasks, List.map_cons, hlater]
            have htime : askedAt streamId (.enqueueOne msg frame stalled now) =
                some (captureUs msg) := if_pos (hasked.mp hasks)
            rw [List.filterMap_cons_some htime]
          · rw [gateLog, if_neg hasks, hlater]
            have htime : askedAt streamId (.enqueueOne msg frame stalled now) = none :=
              if_neg fun hcall => hasks (hasked.mpr hcall)
            rw [List.filterMap_cons_none htime]

theorem askedAt_withoutInstalls :
    (withoutInstalls calls).filterMap (askedAt streamId) =
      calls.filterMap (askedAt streamId) := by
  rw [withoutInstalls, List.filterMap_filter]
  refine List.filterMap_congr fun call _ => ?_
  cases call <;> rfl

/-- A capped stream passes one message per slot, over any calls in which every table
gives it the same period.  The answers depend on the times that the gate is asked
alone, so that the installs change nothing. -/
theorem run_rate_cap (hgap : 0 < gap) (hfresh : s.decimGridUs streamId = none)
    (hstart : gapIn s.policy streamId = gap ∨ gapIn s.policy streamId = 0)
    (hcalls : ∀ call ∈ calls, PolicyCall.Caps streamId gap call) :
    SlotGate.OnePerSlot gap kDecimEpochResetUs (gateLog streamId s calls) ∧
      (∀ (t : FramedFdEndpoint) (others : List PolicyCall), t.decimGridUs streamId = none →
        (gapIn t.policy streamId = gap ∨ gapIn t.policy streamId = 0) →
        (∀ call ∈ others, PolicyCall.Caps streamId gap call) →
        (gateLog streamId t others).map SlotGate.Call.time =
            (gateLog streamId s calls).map SlotGate.Call.time →
          gateLog streamId t others = gateLog streamId s calls) ∧
        (gapIn s.policy streamId = gap → OneKind streamId s.policy →
          (∀ table, .setStreamPolicy table ∈ calls → OneKind streamId table) →
            gateLog streamId s (withoutInstalls calls) = gateLog streamId s calls) := by
  have hgated {t : FramedFdEndpoint} {others : List PolicyCall}
      (hfresh : t.decimGridUs streamId = none)
      (hstart : gapIn t.policy streamId = gap ∨ gapIn t.policy streamId = 0)
      (hothers : ∀ call ∈ others, PolicyCall.Caps streamId gap call) :
      SlotGate.Gated gap kDecimEpochResetUs none (gateLog streamId t others) :=
    gateLog_gated hgap
      ⟨hstart, by rw [gateOf, hfresh]; rfl, fun _ hk => absurd hk (by simp), fun _ => rfl⟩ hothers
  have hlog := hgated hfresh hstart hcalls
  refine ⟨hlog.onePerSlot, fun t others hfresh' hstart' hothers htimes => ?_,
    fun hgiven hkind hkinds => ?_⟩
  · exact (hgated hfresh' hstart' hothers).unique hlog htimes
  · have hrule := capRule hgap hkind hgiven
    have hinstalls : ∀ table, .setStreamPolicy table ∈ calls →
        ruleIn table streamId = some { drop := false, minGapUs := gap } :=
      fun table hmem => capRule hgap (hkinds table hmem) (hcalls _ hmem)
    have hkept : ∀ call ∈ withoutInstalls calls, call ∈ calls :=
      fun call hmem => List.mem_of_mem_filter hmem
    refine (hgated hfresh hstart fun call hmem => hcalls call (hkept call hmem)).unique hlog ?_
    rw [gateLog_times hgap hrule hinstalls,
      gateLog_times hgap hrule fun table hmem => hinstalls table (hkept _ hmem),
      askedAt_withoutInstalls]

def sensorTable : Option ResolvedStreamPolicy :=
  some fun streamId => if streamId = 16 then some { minGapUs := 10000 } else none

def sensorCall (captureNs : ℤ) : PolicyCall :=
  .enqueueOne { streamId := 16, timestamp := setTimestampNs captureNs } [] false {}

/-- Two messages of one slot, with an install between them, and one of the next slot. -/
def sensorCalls : List PolicyCall :=
  [.setStreamPolicy sensorTable, sensorCall 1000000, .setStreamPolicy sensorTable,
    sensorCall 9000000, sensorCall 11000000]

theorem run_rate_cap_sensor :
    gateLog 16 (init {} 3 5 false true) sensorCalls =
        [⟨1000, true⟩, ⟨9000, false⟩, ⟨11000, true⟩] ∧
      SlotGate.OnePerSlot 10000 kDecimEpochResetUs
        (gateLog 16 (init {} 3 5 false true) sensorCalls) :=
  ⟨by decide +kernel,
    (run_rate_cap (by decide) rfl (Or.inr rfl) (by
      intro call hcall
      simp only [sensorCalls, List.mem_cons, List.not_mem_nil, or_false] at hcall
      rcases hcall with rfl | rfl | rfl | rfl | rfl
      · exact (rfl : gapIn sensorTable 16 = 10000)
      · exact fun _ => by decide
      · exact (rfl : gapIn sensorTable 16 = 10000)
      · exact fun _ => by decide
      · exact fun _ => by decide)).1⟩

end FramedFdEndpoint

end VisioSchema.Transport

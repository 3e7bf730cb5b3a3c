import VisioSchema.Transport.Splice

/-!
# Control before video

A control frame that waits while neither control nor reliable bytes are in flight is passed only
by timed frames and, where a bulk frame was half written already, by the bulk lane; reliable
frames never pass it.

The header of `Pump` bounds the bulk lane to the remainder of the frame in flight.  That much is
proved up to the lane's next promotion.  `Drain` itself may promote a bulk frame in the same
turn, so nothing is said about what follows.

## Strategy

The statement is about a stretch of a run, from a state `s₀` in which control waits.  `Waits s₀
s` says that control still waits at `s` and what has passed it since, and `Ends` what a step
looks like that ends the wait; every step does one of the two (`Waits.step`).

* Where the I/O thread may stand meanwhile is `waitTurn`: it promotes from control, or from the
  bulk lane if that was in flight at `s₀`.  At a boundary `Pump` picks control, so no other lane
  comes up.
* A producer queues behind control and leaves the thread's view as it is (`Waits.produce`).
* A bulk write continues the unit of `s₀` (`Waits.writeBulk`), and a timed write touches no
  outbox (`Waits.timed`).

`run_bypass` is the induction over the steps; `Outcome` is what it carries once the wait has
ended.
-/

namespace VisioSchema.Transport

open VisioSchema.Wire VisioSchema.Library

/-! ## Events -/

namespace Event

/-- Control is promoted, or the link is gone and its queues with it. -/
def endsWait : Event → Bool
  | .promoted .ctrl _ | .died => true
  | _ => false

def isTimed : Event → Bool
  | .wrote .timed _ | .timedSent _ => true
  | _ => false

def isBulk : Event → Bool
  | .wrote (.lane .bulk) _ | .promoted .bulk _ => true
  | _ => false

def promotesBulk : Event → Bool
  | .promoted .bulk _ => true
  | _ => false

def bulkBytes : Event → List Byte
  | .wrote (.lane .bulk) bytes => bytes
  | _ => []

def bytes : Event → List Byte
  | .wrote _ bytes => bytes
  | _ => []

end Event

namespace FramedFdEndpoint

/-! ## Waiting -/

/-- A control frame is queued, and no control or reliable frame is in flight. -/
structure Waiting (s : FramedFdEndpoint) : Prop where
  up : s.fdUp = true
  queued : (s.outbox .ctrl).queue ≠ []
  ctrl : (s.outbox .ctrl).inFlight.active = false
  reliable : (s.outbox .reliable).inFlight.active = false

/-- The I/O thread has not already chosen to promote from another lane. -/
def turnOpen (s : FramedFdEndpoint) : Bool :=
  match s.pc with
  | .pickReliable _ => false
  | .finish _ lane => lane = .ctrl || (s.outbox lane).inFlight.active
  | .promote _ lane => lane = .ctrl
  | _ => true

/-- What happens after `s` in a run. -/
def since {pbEncode : Header → List Byte} (s : FramedFdEndpoint)
    (inputs : List (Input pbEncode)) : List Event :=
  (s.run inputs).log.drop s.log.length

/-- What may pass a control frame that waits since `s`. -/
structure Bypass (s : FramedFdEndpoint) (events : List Event) : Prop where
  waits : ∀ event ∈ events, event.endsWait = false
  only : ∀ event ∈ events, event.isTimed = true ∨
    event.isBulk = true ∧ (s.outbox .bulk).inFlight.active = true
  remainder : (∀ event ∈ events, event.promotesBulk = false) →
    events.flatMap Event.bulkBytes <+: (s.outbox .bulk).inFlight.remainder

/-! ## The policy of a lane never changes -/

variable {pbEncode : Header → List Byte}

theorem setOutbox_policy {s : FramedFdEndpoint} {lane : Lane} {o : FramedOutbox}
    (ho : o.policy = (s.outbox lane).policy) (other : Lane) :
    ((s.setOutbox lane o).outbox other).policy = (s.outbox other).policy := by
  by_cases heq : other = lane
  · subst heq
    simpa [setOutbox] using ho
  · simp [setOutbox, Function.update_of_ne heq]

theorem enqueueOne_policy (s : FramedFdEndpoint) (msg : Message) (frame : List Byte)
    (now : Readings) (lane : Lane) :
    ((s.enqueueOne msg frame now).1.outbox lane).policy = (s.outbox lane).policy := by
  obtain ⟨t, houtbox, -, -, heq | heq⟩ := enqueueOne_cases s msg frame now
  · rw [heq, houtbox]
  · rw [heq, queueFrame, setOutbox_policy (by simp), houtbox]

theorem ioStep_policy (s : FramedFdEndpoint) (answer : IoAnswer) (lane : Lane) :
    ((s.ioStep pbEncode answer).outbox lane).policy = (s.outbox lane).policy := by
  have hwrite : ∀ other accept,
      ((s.writeLane other accept).outbox lane).policy = (s.outbox lane).policy :=
    fun other accept => setOutbox_policy (by simp) lane
  cases hpc : s.pc with
  | idle | exited | flushed => simp only [ioStep, hpc]
  | flush =>
      simp only [ioStep, hpc]
      split
      · exact setOutbox_policy (by simp) lane
      · rfl
  | top i =>
      simp only [ioStep, hpc, topStep]
      split_ifs
      · rfl
      · rfl
      · split <;> rfl
  | takeTimed i =>
      simp only [ioStep, hpc, takeTimedStep]
      split
      · rfl
      · split <;> rfl
  | writeTimed i =>
      simp only [ioStep, hpc, writeTimedStep]
      split
      · rfl
      · split
        · rfl
        · split_ifs <;> rfl
  | pick i | pickReliable i =>
      simp only [ioStep, hpc]
      split <;> rfl
  | finish i other =>
      simp only [ioStep, hpc, finishStep]
      split
      · split
        · rfl
        · split <;> exact hwrite other _
      · rfl
  | promote i other =>
      simp only [ioStep, hpc, promoteStep]
      split <;> exact setOutbox_policy (by simp) lane
  | trail i other =>
      simp only [ioStep, hpc, trailStep]
      split
      · split
        · rfl
        · exact hwrite other _
      · rfl
  | drained i other =>
      simp only [ioStep, hpc, drainedStep]
      split_ifs <;> rfl
  | stall =>
      simp only [ioStep, hpc, updateStallState, armDegrade]
      split_ifs <;> rfl
  | dying stage =>
      simp only [ioStep, hpc]
      cases stage with
      | reliable | ctrl | bulk => exact setOutbox_policy (by simp) lane
      | fd =>
          simp only [deathStep]
          split <;> rfl
      | timed | latches => rfl

theorem step_policy (s : FramedFdEndpoint) (input : Input pbEncode) (lane : Lane) :
    ((step s input).outbox lane).policy = (s.outbox lane).policy := by
  cases input with
  | beginBatch | requestBulkFlush | requestVideoDegrade nowNs | setStreamPolicy policy | stop =>
      rfl
  | enqueueOne out now => exact enqueueOne_policy s out.msg out.frame now lane
  | trySendReliable out nowUs =>
      rcases trySendReliable_cases s out.frame nowUs with heq | heq <;> rw [step, heq]
      exact setOutbox_policy (by simp) lane
  | discardReliable => exact setOutbox_policy (by simp) lane
  | sendTimed msg finalize hasSent =>
      simp only [step, sendTimed]
      split <;> rfl
  | pump | linkDead | reopen =>
      simp only [step]
      split <;> rfl
  | exit =>
      simp only [step]
      split
      · exact setOutbox_policy (by simp) lane
      · rfl
  | io answer => exact ioStep_policy s answer lane

/-! ## Steps while control waits -/

/-- Where the I/O thread may stand while control waits since `s₀`: it promotes
from control, or from the bulk lane when that was in flight at `s₀`. -/
def waitTurn (s₀ s : FramedFdEndpoint) : Prop :=
  match s.pc with
  | .pickReliable _ => False
  | .finish _ lane => lane = .ctrl ∨ (s.outbox lane).inFlight.active = true
  | .promote _ lane => lane = .ctrl ∨ lane = .bulk ∧ (s₀.outbox .bulk).inFlight.active = true
  | .dying stage => stage = .reliable ∨ stage = .fd
  | _ => True

/-- Control still waits at `s`, and `events` is what passed it since `s₀`. -/
structure Waits (s₀ s : FramedFdEndpoint) (events : List Event) : Prop where
  log : s.log = s₀.log ++ events
  waiting : Waiting s
  policy : (s.outbox .ctrl).policy = controlPolicy
  turn : waitTurn s₀ s
  bulk : (s.outbox .bulk).inFlight.active = true → (s₀.outbox .bulk).inFlight.active = true
  fronts : ∀ front, front <+: events → Bypass s₀ front
  tally : (∀ event ∈ events, event.promotesBulk = false) →
    events.flatMap Event.bulkBytes ++ (s.outbox .bulk).inFlight.remainder =
      (s₀.outbox .bulk).inFlight.remainder

/-- A step is over for control when it is promoted, or the link is gone. -/
def Ends (s t : FramedFdEndpoint) : Prop :=
  ∃ stop : Event, stop.endsWait = true ∧ t.log = s.log ++ [stop]

variable {s₀ s t : FramedFdEndpoint} {events : List Event}

/-- A silent step that leaves control waiting and the bulk unit as it is. -/
theorem Waits.silent (hwaits : Waits s₀ s events) (hlog : t.log = s.log) (hup : t.fdUp = s.fdUp)
    (hqueue : (t.outbox .ctrl).queue ≠ [])
    (hctrl : (t.outbox .ctrl).inFlight = (s.outbox .ctrl).inFlight)
    (hpolicy : (t.outbox .ctrl).policy = (s.outbox .ctrl).policy)
    (hreliable : (t.outbox .reliable).inFlight.active = false)
    (hbulk : (t.outbox .bulk).inFlight.active = (s.outbox .bulk).inFlight.active)
    (hremainder : (t.outbox .bulk).inFlight.remainder = (s.outbox .bulk).inFlight.remainder)
    (hturn : waitTurn s₀ t) : Waits s₀ t events where
  log := hlog.trans hwaits.log
  waiting := ⟨hup.trans hwaits.waiting.up, hqueue, hctrl ▸ hwaits.waiting.ctrl, hreliable⟩
  policy := hpolicy.trans hwaits.policy
  turn := hturn
  bulk hactive := hwaits.bulk (hbulk ▸ hactive)
  fronts := hwaits.fronts
  tally hnone := hremainder ▸ hwaits.tally hnone

theorem Waits.goto (hwaits : Waits s₀ s events) (pc : Pc) (hturn : waitTurn s₀ (s.goto pc)) :
    Waits s₀ (s.goto pc) events :=
  hwaits.silent rfl rfl hwaits.waiting.queued rfl rfl hwaits.waiting.reliable rfl rfl hturn

/-- A producer's step: the I/O thread's view stays, control stays queued. -/
theorem Waits.produce (hwaits : Waits s₀ s events) (hview : t.ioView = s.ioView)
    (hpolicy : (t.outbox .ctrl).policy = (s.outbox .ctrl).policy)
    (hqueue : (t.outbox .ctrl).queue ≠ []) : Waits s₀ t events := by
  have hflight : ∀ lane, (t.outbox lane).inFlight = (s.outbox lane).inFlight :=
    fun lane => congrFun (congrArg IoView.flight hview) lane
  have hpc : t.pc = s.pc := congrArg IoView.pc hview
  refine hwaits.silent (congrArg IoView.log hview) (congrArg IoView.fdUp hview) hqueue
    (hflight _) hpolicy ?_ (by rw [hflight]) (by rw [hflight]) ?_
  · rw [hflight]
    exact hwaits.waiting.reliable
  · have hturn := hwaits.turn
    unfold waitTurn at hturn ⊢
    rw [hpc]
    split <;> simp_all

/-- One more event passes control. -/
theorem Waits.snoc (hwaits : Waits s₀ s events) {event : Event} (hlog : t.log = s.log ++ [event])
    (hend : event.endsWait = false)
    (honly : event.isTimed = true ∨
      event.isBulk = true ∧ (s₀.outbox .bulk).inFlight.active = true)
    (hwaiting : Waiting t) (hpolicy : (t.outbox .ctrl).policy = (s.outbox .ctrl).policy)
    (hturn : waitTurn s₀ t)
    (hbulk : (t.outbox .bulk).inFlight.active = true → (s₀.outbox .bulk).inFlight.active = true)
    (htally : event.promotesBulk = false →
      event.bulkBytes ++ (t.outbox .bulk).inFlight.remainder =
        (s.outbox .bulk).inFlight.remainder) : Waits s₀ t (events ++ [event]) := by
  have hsum : (∀ e ∈ events ++ [event], e.promotesBulk = false) →
      (events ++ [event]).flatMap Event.bulkBytes ++ (t.outbox .bulk).inFlight.remainder =
        (s₀.outbox .bulk).inFlight.remainder := by
    intro hnone
    rw [← hwaits.tally fun e he => hnone e (List.mem_append_left _ he),
      ← htally (hnone event (by simp))]
    simp
  refine ⟨by rw [hlog, hwaits.log, List.append_assoc], hwaiting, hpolicy.trans hwaits.policy,
    hturn, hbulk, ?_, hsum⟩
  intro front hfront
  rcases List.prefix_concat_iff.mp hfront with rfl | hfront
  · have hall := hwaits.fronts events (List.prefix_refl _)
    refine ⟨fun e he => ?_, fun e he => ?_, fun hnone => ⟨_, hsum hnone⟩⟩
    · rcases List.mem_append.mp he with he | he
      · exact hall.waits e he
      · exact List.mem_singleton.mp he ▸ hend
    · rcases List.mem_append.mp he with he | he
      · exact hall.only e he
      · exact List.mem_singleton.mp he ▸ honly
  · exact hwaits.fronts front hfront

/-- A step of the timed lane touches no outbox. -/
theorem Waits.timed (hwaits : Waits s₀ s events) {new : List Event}
    (hnew : ∀ event ∈ new, event.isTimed = true) (hlog : t.log = s.log ++ new)
    (hup : t.fdUp = s.fdUp) (houtbox : t.outbox = s.outbox) (hturn : waitTurn s₀ t) :
    Waits s₀ t (events ++ new) := by
  induction new using List.reverseRecOn generalizing t with
  | nil =>
      rw [List.append_nil] at hlog ⊢
      refine hwaits.silent hlog hup ?_ ?_ ?_ ?_ ?_ ?_ hturn <;> rw [houtbox]
      exacts [hwaits.waiting.queued, hwaits.waiting.reliable]
  | append_singleton new event ih =>
      have hbefore : Waits s₀ { t with log := s.log ++ new } (events ++ new) :=
        ih (fun e he => hnew e (List.mem_append_left _ he)) rfl hup houtbox hturn
      have htimed : event.isTimed = true := hnew event (by simp)
      rw [← List.append_assoc]
      refine hbefore.snoc (by rw [hlog, List.append_assoc]) ?_ (Or.inl htimed)
        ⟨hbefore.waiting.up, hbefore.waiting.queued, hbefore.waiting.ctrl,
          hbefore.waiting.reliable⟩ rfl hturn hbefore.bulk ?_
      · cases event <;> simp_all [Event.isTimed, Event.endsWait]
      · intro _
        cases event with
        | wrote source bytes => cases source <;> simp_all [Event.isTimed, Event.bulkBytes]
        | _ => simp_all [Event.isTimed, Event.bulkBytes]

/-- A write from the bulk lane continues the remainder of its unit. -/
theorem Waits.writeBulk (hwaits : Waits s₀ s events)
    (hactive : (s.outbox .bulk).inFlight.active = true) (accept : ℕ) {pc : Pc}
    (hturn : waitTurn s₀ ((s.writeLane .bulk accept).goto pc)) :
    Waits s₀ ((s.writeLane .bulk accept).goto pc)
      (events ++ [.wrote (.lane .bulk) ((s.outbox .bulk).inFlight.chunk accept)]) := by
  have hothers : ∀ lane, lane ≠ .bulk →
      ((s.writeLane .bulk accept).goto pc).outbox lane = s.outbox lane :=
    fun lane hne => Function.update_of_ne hne ..
  have hself : (((s.writeLane .bulk accept).goto pc).outbox .bulk).inFlight =
      (s.outbox .bulk).inFlight.advance accept := by
    simp [FramedFdEndpoint.goto, writeLane, setOutbox]
  refine hwaits.snoc rfl rfl (Or.inr ⟨rfl, hwaits.bulk hactive⟩) ⟨hwaits.waiting.up, ?_, ?_, ?_⟩
    ?_ hturn (fun _ => hwaits.bulk hactive) fun _ => ?_
  · exact hothers .ctrl (by simp) ▸ hwaits.waiting.queued
  · exact hothers .ctrl (by simp) ▸ hwaits.waiting.ctrl
  · exact hothers .reliable (by simp) ▸ hwaits.waiting.reliable
  · rw [hothers .ctrl (by simp)]
  · rw [hself]
    exact InFlight.chunk_append_remainder ..

/-- Only the bulk lane can have a unit in flight while control waits. -/
theorem Waiting.lane_eq_bulk (hwaiting : Waiting s) {lane : Lane}
    (hactive : (s.outbox lane).inFlight.active = true) : lane = .bulk := by
  cases lane with
  | ctrl => simp [hwaiting.ctrl] at hactive
  | reliable => simp [hwaiting.reliable] at hactive
  | bulk => rfl

theorem Waits.finishStep (hwaits : Waits s₀ s events) {i : ℕ} {lane : Lane}
    (hpc : s.pc = .finish i lane) (answer : IoAnswer) :
    ∃ new, Waits s₀ (s.finishStep i lane answer) (events ++ new) := by
  have hturn : lane = .ctrl ∨ (s.outbox lane).inFlight.active = true := by
    have hturn := hwaits.turn
    rwa [waitTurn, hpc] at hturn
  unfold FramedFdEndpoint.finishStep
  split
  next hactive =>
    obtain rfl := hwaits.waiting.lane_eq_bulk hactive
    split
    next => exact ⟨[], by simpa using hwaits.goto (.dying .reliable) (Or.inl rfl)⟩
    next accept _ =>
      refine ⟨[.wrote (.lane .bulk) ((s.outbox .bulk).inFlight.chunk accept)], ?_⟩
      simp only
      split
      · exact hwaits.writeBulk hactive accept trivial
      · exact hwaits.writeBulk hactive accept (Or.inr ⟨rfl, hwaits.bulk hactive⟩)
  next hidle =>
    obtain rfl := hturn.resolve_right hidle
    exact ⟨[], by simpa using hwaits.goto (.promote i .ctrl) (Or.inl rfl)⟩

theorem Waits.promoteStep (hwaits : Waits s₀ s events) {i : ℕ} {lane : Lane}
    (hpc : s.pc = .promote i lane) (answer : IoAnswer) :
    (∃ new, Waits s₀ (s.promoteStep i lane answer) (events ++ new)) ∨
      Ends s (s.promoteStep i lane answer) := by
  have hturn : lane = .ctrl ∨ lane = .bulk ∧ (s₀.outbox .bulk).inFlight.active = true := by
    have hturn := hwaits.turn
    rwa [waitTurn, hpc] at hturn
  unfold FramedFdEndpoint.promoteStep
  rcases hturn with rfl | ⟨rfl, hbulk⟩
  · -- The control queue never ages out, so it is promoted here.
    have hpolicy : (s.outbox .ctrl).policy.drop ≠ .staleEviction := by
      rw [hwaits.policy]
      decide
    simp only [FramedOutbox.ageEvict_eq_self _ hpolicy]
    split
    next hempty => exact absurd hempty hwaits.waiting.queued
    next => exact Or.inr ⟨_, rfl, rfl⟩
  · refine Or.inl ?_
    have hothers : ∀ (o : FramedOutbox) (lane : Lane), lane ≠ .bulk →
        (s.setOutbox .bulk o).outbox lane = s.outbox lane :=
      fun o lane => s.outbox_setOutbox_of_ne o
    generalize haged : (s.outbox .bulk).ageEvict answer.nowUs = aged
    simp only
    split
    next =>
      refine ⟨[], ?_⟩
      rw [List.append_nil]
      refine hwaits.silent rfl rfl ?_ ?_ ?_ ?_ ?_ ?_ trivial
      · exact hothers aged .ctrl (by simp) ▸ hwaits.waiting.queued
      · exact congrArg _ (hothers aged .ctrl (by simp))
      · exact congrArg _ (hothers aged .ctrl (by simp))
      · exact hothers aged .reliable (by simp) ▸ hwaits.waiting.reliable
      · simp [FramedFdEndpoint.goto, ← haged]
      · simp [FramedFdEndpoint.goto, ← haged]
    next =>
      generalize aged.promoteToInFlight = o
      refine ⟨[_], hwaits.snoc rfl rfl (Or.inr ⟨rfl, hbulk⟩) ⟨hwaits.waiting.up, ?_, ?_, ?_⟩ ?_
        trivial (fun _ => hbulk) (fun hnone => by cases hnone)⟩
      · exact hothers o .ctrl (by simp) ▸ hwaits.waiting.queued
      · exact hothers o .ctrl (by simp) ▸ hwaits.waiting.ctrl
      · exact hothers o .reliable (by simp) ▸ hwaits.waiting.reliable
      · exact congrArg _ (hothers o .ctrl (by simp))

theorem Waits.trailStep (hwaits : Waits s₀ s events) {i : ℕ} {lane : Lane} (answer : IoAnswer) :
    ∃ new, Waits s₀ (s.trailStep i lane answer) (events ++ new) := by
  unfold FramedFdEndpoint.trailStep
  split
  next hactive =>
    obtain rfl := hwaits.waiting.lane_eq_bulk hactive
    split
    next => exact ⟨[], by simpa using hwaits.goto (.dying .reliable) (Or.inl rfl)⟩
    next accept _ => exact ⟨[_], hwaits.writeBulk hactive accept trivial⟩
  next => exact ⟨[], by simpa using hwaits.goto (.drained i lane) trivial⟩

theorem Waits.writeTimedStep (hwaits : Waits s₀ s events) {i : ℕ} (answer : IoAnswer) :
    ∃ new, Waits s₀ (s.writeTimedStep pbEncode i answer) (events ++ new) := by
  unfold FramedFdEndpoint.writeTimedStep
  split
  next => exact ⟨[], hwaits.timed (by simp) (by simp [FramedFdEndpoint.goto]) rfl rfl trivial⟩
  next waiting _ =>
    generalize waiting.stamped pbEncode answer.nowNs = frame
    split
    next => exact ⟨[], hwaits.timed (by simp) (by simp) rfl rfl (Or.inl rfl)⟩
    next accept _ =>
      simp only
      generalize (frame.bytes.drop frame.offset).take accept = chunk
      have htimed : ∀ event ∈ frame.events chunk, event.isTimed = true := by
        unfold TimedFrame.events
        split <;> simp [Event.isTimed]
      split_ifs
      · exact ⟨[], hwaits.timed (by simp) (by simp) rfl rfl trivial⟩
      · exact ⟨_, hwaits.timed htimed rfl rfl rfl trivial⟩
      · exact ⟨_, hwaits.timed htimed rfl rfl rfl trivial⟩

theorem Waits.topStep (hwaits : Waits s₀ s events) (i : ℕ) : Waits s₀ (s.topStep i) events := by
  unfold FramedFdEndpoint.topStep
  split_ifs
  · exact hwaits.goto _ trivial
  · exact hwaits.goto _ trivial
  · split
    next lane hlane => exact hwaits.goto _ (Or.inr (inFlightLane_eq_some hlane))
    next => exact hwaits.goto _ trivial

/-- A step of the I/O thread lets control wait on, or ends its wait. -/
theorem Waits.ioStep (hwaits : Waits s₀ s events) (answer : IoAnswer) :
    (∃ new, Waits s₀ (s.ioStep pbEncode answer) (events ++ new)) ∨
      Ends s (s.ioStep pbEncode answer) := by
  have hstay : ∀ t, Waits s₀ t events → (∃ new, Waits s₀ t (events ++ new)) ∨ Ends s t :=
    fun t ht => Or.inl ⟨[], by simpa using ht⟩
  -- Clearing one lane leaves the other lanes as they are.
  have hcleared : ∀ lane other : Lane, other ≠ lane →
      (s.setOutbox lane (s.outbox lane).clear).outbox other = s.outbox other :=
    fun lane other => s.outbox_setOutbox_of_ne _
  cases hpc : s.pc with
  | idle | exited => exact hstay _ (by simpa only [FramedFdEndpoint.ioStep, hpc] using hwaits)
  | flush =>
      simp only [FramedFdEndpoint.ioStep, hpc]
      split
      next hflush =>
        have hidle : (s.outbox .bulk).inFlight.active = false := by
          simpa using (Bool.and_eq_true_iff.mp hflush).2
        refine hstay _ (hwaits.silent rfl rfl ?_ ?_ ?_ ?_ ?_ ?_ trivial)
        · exact hcleared .bulk .ctrl (by simp) ▸ hwaits.waiting.queued
        · exact congrArg _ (hcleared .bulk .ctrl (by simp))
        · exact congrArg _ (hcleared .bulk .ctrl (by simp))
        · exact hcleared .bulk .reliable (by simp) ▸ hwaits.waiting.reliable
        · simp [FramedFdEndpoint.goto, setOutbox, hidle]
        · rw [InFlight.remainder_of_inactive hidle]
          simp [FramedFdEndpoint.goto, setOutbox, InFlight.remainder]
      next => exact hstay _ (hwaits.goto _ trivial)
  | flushed =>
      simp only [FramedFdEndpoint.ioStep, hpc]
      exact hstay _ (hwaits.silent rfl rfl hwaits.waiting.queued rfl rfl hwaits.waiting.reliable
        rfl rfl trivial)
  | top i =>
      simp only [FramedFdEndpoint.ioStep, hpc]
      exact hstay _ (hwaits.topStep i)
  | takeTimed i =>
      simp only [FramedFdEndpoint.ioStep, hpc, takeTimedStep]
      refine hstay _ ?_
      split
      · exact hwaits.goto _ trivial
      · split
        · exact hwaits.goto _ trivial
        · exact hwaits.silent rfl rfl hwaits.waiting.queued rfl rfl hwaits.waiting.reliable
            rfl rfl trivial
  | writeTimed i =>
      simp only [FramedFdEndpoint.ioStep, hpc]
      exact Or.inl (hwaits.writeTimedStep answer)
  | pick i =>
      -- The choice between the lanes: control is pending, so it is control's turn.
      have hpending : (s.outbox .ctrl).hasPending = true := by
        simp [FramedOutbox.hasPending, hwaits.waiting.queued]
      simp only [FramedFdEndpoint.ioStep, hpc, hpending, if_true]
      exact hstay _ (hwaits.goto _ (Or.inl rfl))
  | pickReliable i =>
      -- Reliable is asked only where control has nothing, which is not so.
      have hturn := hwaits.turn
      rw [waitTurn, hpc] at hturn
      exact hturn.elim
  | finish i lane =>
      simp only [FramedFdEndpoint.ioStep, hpc]
      exact Or.inl (hwaits.finishStep hpc answer)
  | promote i lane =>
      simp only [FramedFdEndpoint.ioStep, hpc]
      exact hwaits.promoteStep hpc answer
  | trail i lane =>
      simp only [FramedFdEndpoint.ioStep, hpc]
      exact Or.inl (hwaits.trailStep answer)
  | drained i lane =>
      simp only [FramedFdEndpoint.ioStep, hpc, drainedStep]
      refine hstay _ ?_
      split_ifs <;> exact hwaits.goto _ trivial
  | stall =>
      simp only [FramedFdEndpoint.ioStep, hpc, updateStallState, armDegrade]
      refine hstay _ ?_
      split_ifs <;>
        exact hwaits.silent rfl rfl hwaits.waiting.queued rfl rfl hwaits.waiting.reliable
          rfl rfl trivial
  | dying stage =>
      -- The queues of control outlive the first two sections of `MarkLinkDead`; the second tells
      -- the death of the link, which ends the wait.
      have hturn : stage = .reliable ∨ stage = .fd := by
        have hturn := hwaits.turn
        rwa [waitTurn, hpc] at hturn
      simp only [FramedFdEndpoint.ioStep, hpc]
      rcases hturn with rfl | rfl
      · refine hstay _ (hwaits.silent rfl rfl ?_ ?_ ?_ ?_ ?_ ?_ (Or.inr rfl))
        · exact hcleared .reliable .ctrl (by simp) ▸ hwaits.waiting.queued
        · exact congrArg _ (hcleared .reliable .ctrl (by simp))
        · exact congrArg _ (hcleared .reliable .ctrl (by simp))
        · simp [deathStep, setOutbox]
        · exact congrArg _ (congrArg _ (hcleared .reliable .bulk (by simp)))
        · exact congrArg _ (congrArg _ (hcleared .reliable .bulk (by simp)))
      · refine Or.inr ⟨.died, rfl, ?_⟩
        simp [deathStep, hwaits.waiting.up, emit]

theorem Waits.enqueueOne (hwaits : Waits s₀ s events) (msg : Message) (frame : List Byte)
    (now : Readings) : Waits s₀ (s.enqueueOne msg frame now).1 events := by
  obtain ⟨t, houtbox, -, hview, heq | heq⟩ := enqueueOne_cases s msg frame now
  · rw [heq]
    exact hwaits.produce hview (by rw [houtbox]) (houtbox ▸ hwaits.waiting.queued)
  · have hpolicy := enqueueOne_policy s msg frame now .ctrl
    rw [heq] at hpolicy ⊢
    refine hwaits.produce ((ioView_queueFrame ..).trans hview) hpolicy ?_
    by_cases hlane : laneOf msg = .ctrl
    · rw [queueFrame, hlane, outbox_setOutbox_self, houtbox]
      exact FramedOutbox.enqueue_queue_ne_nil hwaits.waiting.queued
    · rw [queueFrame, outbox_setOutbox_of_ne _ _ (Ne.symm hlane), houtbox]
      exact hwaits.waiting.queued

theorem Waits.step (hwaits : Waits s₀ s events) (input : Input pbEncode) :
    (∃ new, Waits s₀ (step s input) (events ++ new)) ∨ Ends s (step s input) := by
  have hstay : ∀ t, Waits s₀ t events → (∃ new, Waits s₀ t (events ++ new)) ∨ Ends s t :=
    fun t ht => Or.inl ⟨[], by simpa using ht⟩
  have hup : s.fdUp = true := hwaits.waiting.up
  have hreliable : ∀ o : FramedOutbox, o.inFlight = (s.outbox .reliable).inFlight →
      Waits s₀ (s.setOutbox .reliable o) events := by
    intro o ho
    refine hwaits.produce ?_ ?_ ?_
    · rw [ioView_setOutbox, ho]
      exact setFlight_self s.ioView .reliable
    · rw [outbox_setOutbox_of_ne _ _ (by simp)]
    · rw [outbox_setOutbox_of_ne _ _ (by simp)]
      exact hwaits.waiting.queued
  cases input with
  | beginBatch | requestBulkFlush | requestVideoDegrade nowNs | setStreamPolicy policy | stop =>
      exact hstay _ (hwaits.produce rfl rfl hwaits.waiting.queued)
  | enqueueOne out now => exact hstay _ (hwaits.enqueueOne out.msg out.frame now)
  | trySendReliable out nowUs =>
      refine hstay _ ?_
      rcases trySendReliable_cases s out.frame nowUs with heq | heq <;>
        rw [FramedFdEndpoint.step, heq]
      · exact hwaits
      · exact hreliable _ (by simp)
  | discardReliable => exact hstay _ (hreliable _ (by simp))
  | sendTimed msg finalize hasSent =>
      refine hstay _ ?_
      simp only [FramedFdEndpoint.step, sendTimed]
      split <;> exact hwaits.produce rfl rfl hwaits.waiting.queued
  | pump =>
      refine hstay _ ?_
      simp only [FramedFdEndpoint.step]
      split
      · exact hwaits.silent rfl rfl hwaits.waiting.queued rfl rfl hwaits.waiting.reliable
          rfl rfl trivial
      · exact hwaits
  | linkDead =>
      refine hstay _ ?_
      simp only [FramedFdEndpoint.step]
      split
      · exact hwaits.goto _ (Or.inl rfl)
      · exact hwaits
  | reopen => exact hstay _ (by simpa [FramedFdEndpoint.step, hup] using hwaits)
  | exit =>
      simp only [FramedFdEndpoint.step]
      split
      · exact Or.inr ⟨.died, rfl, by simp⟩
      · exact hstay _ hwaits
  | io answer => exact hwaits.ioStep answer

/-- The log only grows. -/
theorem ioStep_log (s : FramedFdEndpoint) (answer : IoAnswer) :
    s.log <+: (s.ioStep pbEncode answer).log := by
  cases hpc : s.pc with
  | idle | exited | flushed =>
      simp only [FramedFdEndpoint.ioStep, hpc]
      exact List.prefix_refl _
  | flush | pick i | pickReliable i =>
      simp only [FramedFdEndpoint.ioStep, hpc]
      split <;> exact List.prefix_refl _
  | top i =>
      simp only [FramedFdEndpoint.ioStep, hpc, FramedFdEndpoint.topStep]
      split_ifs
      · exact List.prefix_refl _
      · exact List.prefix_refl _
      · split <;> exact List.prefix_refl _
  | takeTimed i =>
      simp only [FramedFdEndpoint.ioStep, hpc, takeTimedStep]
      split
      · exact List.prefix_refl _
      · split <;> exact List.prefix_refl _
  | writeTimed i =>
      -- The steps that hand bytes to the fd append to the log, the others leave it.
      simp only [FramedFdEndpoint.ioStep, hpc, FramedFdEndpoint.writeTimedStep]
      split
      · exact List.prefix_refl _
      · split
        · exact List.prefix_refl _
        · split_ifs
          · exact List.prefix_refl _
          · exact List.prefix_append ..
          · exact List.prefix_append ..
  | finish i lane =>
      simp only [FramedFdEndpoint.ioStep, hpc, FramedFdEndpoint.finishStep]
      split
      · split
        · exact List.prefix_refl _
        · split <;> exact List.prefix_append ..
      · exact List.prefix_refl _
  | promote i lane =>
      simp only [FramedFdEndpoint.ioStep, hpc, FramedFdEndpoint.promoteStep]
      split
      · exact List.prefix_refl _
      · exact List.prefix_append ..
  | trail i lane =>
      simp only [FramedFdEndpoint.ioStep, hpc, FramedFdEndpoint.trailStep]
      split
      · split
        · exact List.prefix_refl _
        · exact List.prefix_append ..
      · exact List.prefix_refl _
  | drained i lane =>
      simp only [FramedFdEndpoint.ioStep, hpc, drainedStep]
      split_ifs <;> exact List.prefix_refl _
  | stall =>
      simp only [FramedFdEndpoint.ioStep, hpc, updateStallState, armDegrade]
      split_ifs <;> exact List.prefix_refl _
  | dying stage =>
      simp only [FramedFdEndpoint.ioStep, hpc]
      cases stage with
      | fd =>
          simp only [deathStep]
          split
          · exact List.prefix_append ..
          · exact List.prefix_refl _
      | reliable | ctrl | bulk | timed | latches => exact List.prefix_refl _

theorem step_log (s : FramedFdEndpoint) (input : Input pbEncode) :
    s.log <+: (FramedFdEndpoint.step s input).log := by
  cases input with
  | beginBatch | requestBulkFlush | requestVideoDegrade nowNs | setStreamPolicy policy | stop |
    discardReliable => exact List.prefix_refl _
  | enqueueOne out now =>
      have hlog : (s.enqueueOne out.msg out.frame now).1.log = s.log :=
        congrArg IoView.log (ioView_enqueueOne ..)
      exact hlog.symm ▸ List.prefix_refl _
  | trySendReliable out nowUs =>
      have hlog : (s.trySendReliable out.frame nowUs).1.log = s.log :=
        congrArg IoView.log (ioView_trySendReliable ..)
      exact hlog.symm ▸ List.prefix_refl _
  | sendTimed msg finalize hasSent =>
      simp only [FramedFdEndpoint.step, sendTimed]
      split <;> exact List.prefix_refl _
  | pump | linkDead =>
      simp only [FramedFdEndpoint.step]
      split <;> exact List.prefix_refl _
  | reopen =>
      simp only [FramedFdEndpoint.step]
      split
      · exact List.prefix_append ..
      · exact List.prefix_refl _
  | exit =>
      simp only [FramedFdEndpoint.step]
      split
      · simp only
        split
        · exact List.prefix_append ..
        · exact List.prefix_refl _
      · exact List.prefix_refl _
  | io answer => exact ioStep_log s answer

/-! ## Whole runs -/

/-- Control still waits, or what passed it before its wait ended is on record. -/
def Outcome (s₀ s : FramedFdEndpoint) : Prop :=
  (∃ events, Waits s₀ s events) ∨
    ∃ events stop rest, s.log = s₀.log ++ (events ++ stop :: rest) ∧ stop.endsWait = true ∧
      ∀ front, front <+: events → Bypass s₀ front

theorem step_outcome (houtcome : Outcome s₀ s) (input : Input pbEncode) :
    Outcome s₀ (FramedFdEndpoint.step s input) := by
  rcases houtcome with ⟨events, hwaits⟩ | ⟨events, stop, rest, hlog, hstop, hfronts⟩
  · rcases hwaits.step input with ⟨new, hnext⟩ | ⟨stop, hstop, hlog⟩
    · exact Or.inl ⟨_, hnext⟩
    · exact Or.inr ⟨events, stop, [], by rw [hlog, hwaits.log, List.append_assoc], hstop,
        hwaits.fronts⟩
  · obtain ⟨more, hmore⟩ := step_log s input
    exact Or.inr ⟨events, stop, rest ++ more, by rw [← hmore, hlog]; simp, hstop, hfronts⟩

theorem Outcome.bypass (houtcome : Outcome s₀ s) {front : List Event}
    (hfront : front <+: s.log.drop s₀.log.length)
    (hwait : ∀ event ∈ front, event.endsWait = false) : Bypass s₀ front := by
  rcases houtcome with ⟨events, hwaits⟩ | ⟨events, stop, rest, hlog, hstop, hfronts⟩
  · rw [hwaits.log, List.drop_left] at hfront
    exact hwaits.fronts front hfront
  · rw [hlog, List.drop_left] at hfront
    rcases prefix_append_cases hfront with hinside | ⟨more, rfl, hmore⟩
    · exact hfronts front hinside
    · cases more with
      | nil => exact hfronts _ (by simp)
      | cons first more =>
          obtain ⟨rfl, -⟩ := List.cons_prefix_cons.mp hmore
          exact absurd (hwait first (by simp)) (by simp [hstop])

/-- From every reachable state on a live fd in which a control frame waits, no
control or reliable frame is in flight and the I/O thread has not picked another
outbox yet: until control is promoted or the link dies, only timed frames and the
bulk lane pass it, the bulk lane only where it was in flight, and up to the next
bulk promotion with nothing but the remainder of that frame. -/
theorem run_bypass {bulkPolicy : WritePolicy} {stallNs degradeHoldNs : ℤ}
    {reopenable fdUp : Bool} {s : FramedFdEndpoint}
    (hreach : Reachable (step : FramedFdEndpoint → Input pbEncode → FramedFdEndpoint)
      (init bulkPolicy stallNs degradeHoldNs reopenable fdUp) s)
    (hwaiting : Waiting s) (hopen : turnOpen s = true) (inputs : List (Input pbEncode))
    (front : List Event) (hfront : front <+: since s inputs)
    (hwait : ∀ event ∈ front, event.endsWait = false) : Bypass s front := by
  obtain ⟨⟨hstream, -⟩, hpolicy⟩ := hreach.invariant
    (I := fun s => (Stream (fun _ => True) s.ioView ∧ Handed pbEncode (fun _ => True) s) ∧
      (s.outbox .ctrl).policy = controlPolicy)
    ⟨init_boundary bulkPolicy stallNs degradeHoldNs reopenable fdUp, rfl⟩
    fun t input hinv => ⟨step_boundary hinv.1.1 hinv.1.2 fun _ _ => trivial,
      (step_policy t input .ctrl).trans hinv.2⟩
  have hturn : waitTurn s s := by
    unfold turnOpen at hopen
    unfold waitTurn
    split <;> simp_all
    next stage hpc => simpa [ioView, hwaiting.up] using hstream.fallen stage hpc
  have hstart : Waits s s [] :=
    ⟨by simp, hwaiting, hpolicy, hturn, id, fun front hprefix => by
      rw [List.prefix_nil.mp hprefix]
      exact ⟨by simp, by simp, fun _ => List.nil_prefix⟩, fun _ => rfl⟩
  have houtcome : Outcome s (s.run inputs) :=
    run_invariant (I := Outcome s) (fun t input ht => step_outcome ht input)
      (Or.inl ⟨[], hstart⟩) inputs
  exact houtcome.bypass hfront hwait

/-- Two bulk frames are queued and the link takes one byte of the first; then a
control frame is queued. -/
def halfWrittenVideo : List (Input nanopbHeader) :=
  [.enqueueOne { msg := { streamId := 16, bulk := true } } {},
    .enqueueOne { msg := { streamId := 16, seq := 1, bulk := true } } {},
    .pump, .io {}, .io {}, .io {}, .io {}, .io {}, .io {}, .io { accept := some 1 }, .io {}, .io {},
    .enqueueOne { msg := { streamId := 4 } } {}]

/-- A control frame and a timed frame are queued on an idle link. -/
def controlAndTimed : List (Input nanopbHeader) :=
  [.enqueueOne { msg := { streamId := 4 } } {},
    .sendTimed { streamId := 3 } (fun msg _ => msg) false]

def idleLink : FramedFdEndpoint := init (.dropOldest 1024) 3000000000 5000000000 false true

/-- One call of `Pump` and its next steps, the link taking up to `accept` bytes a write. -/
def pumpSteps (count accept : ℕ) : List (Input nanopbHeader) :=
  .pump :: List.replicate count (.io { accept := some accept })

theorem run_bypass_halfWrittenVideo :
    Bypass (idleLink.run halfWrittenVideo)
      (since (idleLink.run halfWrittenVideo) (pumpSteps 3 2)) :=
  run_bypass ⟨halfWrittenVideo, rfl⟩
    ⟨by decide +kernel, by decide +kernel, by decide +kernel, by decide +kernel⟩
    (by decide +kernel) (pumpSteps 3 2) _ (List.prefix_refl _) (by decide +kernel)

/-- The stricter reading: before control nothing but the remainder of a bulk frame
in flight is written, and no bulk frame is promoted. -/
def ControlFirst (s : FramedFdEndpoint) (inputs : List (Input pbEncode)) : Prop :=
  s.pc = .idle → Waiting s → ∀ front, front <+: since s inputs →
    (∀ event ∈ front, event.endsWait = false) →
      (∀ event ∈ front, event.promotesBulk = false) ∧
        front.flatMap Event.bytes <+: (s.outbox .bulk).inFlight.remainder

/-- A timed frame goes first at a boundary, and the turn that finishes a bulk frame
promotes the next one. -/
theorem not_controlFirst :
    ¬ ControlFirst (idleLink.run controlAndTimed) (pumpSteps 4 100) ∧
      ¬ ControlFirst (idleLink.run halfWrittenVideo) (pumpSteps 4 100) := by
  constructor
  · intro hfirst
    have hbytes := (hfirst (by decide +kernel)
      ⟨by decide +kernel, by decide +kernel, by decide +kernel, by decide +kernel⟩ _
      (List.prefix_refl _) (by decide +kernel)).2
    exact absurd hbytes (by decide +kernel)
  · intro hfirst
    have hnone := (hfirst (by decide +kernel)
      ⟨by decide +kernel, by decide +kernel, by decide +kernel, by decide +kernel⟩ _
      (List.prefix_refl _) (by decide +kernel)).1
    exact absurd hnone (by decide +kernel)

end FramedFdEndpoint

end VisioSchema.Transport

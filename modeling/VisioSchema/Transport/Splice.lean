import VisioSchema.Transport.Boundary

/-!
# No spliced frames

Producers only queue whole frames, so what the I/O thread promotes and writes is made of frames
that were sent.  With the boundary invariant of the I/O thread this gives the shape of the byte
stream in every run (`run_wire_cut`).

`Handed` says of everything that waits that it came from a producer.  The I/O thread takes from
the front of what waits, which keeps it (`ioStep_handed`).  A producer's call leaves the view of
the I/O thread as it is and queues only its own frame, whatever its gates do to counters, the
latch and the rate grids (`enqueueOne_cases`).  The two sides meet in `step_boundary`.
-/

namespace VisioSchema.Transport

open VisioSchema.Wire VisioSchema.Library

namespace FramedFdEndpoint

variable {pbEncode : Header → List Byte} {S : List Byte → Prop}

/-! ## What is queued -/

theorem Handed.setOutbox {s : FramedFdEndpoint} (hhanded : Handed pbEncode S s) (lane : Lane)
    (o : FramedOutbox) (hqueue : ∀ entry ∈ o.queue, S entry.data) :
    Handed pbEncode S (s.setOutbox lane o) := by
  refine ⟨fun other entry hmem => ?_, hhanded.timed, hhanded.active⟩
  by_cases heq : other = lane
  · subst heq
    exact hqueue entry (by simpa [FramedFdEndpoint.setOutbox] using hmem)
  · exact hhanded.queued other entry
      (by simpa [FramedFdEndpoint.setOutbox, Function.update_of_ne heq] using hmem)

theorem Handed.goto {s : FramedFdEndpoint} (hhanded : Handed pbEncode S s) (pc : Pc) :
    Handed pbEncode S (s.goto pc) :=
  ⟨hhanded.queued, hhanded.timed, hhanded.active⟩

theorem Handed.writeLane {s : FramedFdEndpoint} (hhanded : Handed pbEncode S s) (lane : Lane)
    (accept : ℕ) : Handed pbEncode S (s.writeLane lane accept) := by
  have hset := hhanded.setOutbox lane ((s.outbox lane).wrote accept) (hhanded.queued lane)
  exact ⟨hset.queued, hset.timed, hset.active⟩

theorem takeTimedStep_handed {s : FramedFdEndpoint} (hhanded : Handed pbEncode S s) (i : ℕ) :
    Handed pbEncode S (s.takeTimedStep i) := by
  unfold takeTimedStep
  split
  next => exact hhanded.goto _
  next =>
    split
    next => exact hhanded.goto _
    next frame rest hcons =>
      refine ⟨hhanded.queued, fun other hmem => ?_, fun other hmem => ?_⟩
      · exact hhanded.timed other (hcons ▸ List.mem_cons_of_mem _ hmem)
      · obtain rfl : frame = other := by simpa using hmem
        exact (hhanded.timed frame (hcons ▸ List.mem_cons_self ..)).2

theorem writeTimedStep_handed {s : FramedFdEndpoint} (hhanded : Handed pbEncode S s) (i : ℕ)
    (answer : IoAnswer) : Handed pbEncode S (s.writeTimedStep pbEncode i answer) := by
  unfold writeTimedStep
  split
  next => exact hhanded.goto _
  next waiting hwaiting =>
    have hfinal : Finalizes pbEncode S (waiting.stamped pbEncode answer.nowNs) :=
      stamped_finalizes _ (hhanded.active waiting hwaiting)
    generalize waiting.stamped pbEncode answer.nowNs = frame at *
    split
    next =>
      exact ⟨hhanded.queued, hhanded.timed, fun other hmem => by
        obtain rfl : frame = other := by simpa using hmem
        exact hfinal⟩
    next accept _ =>
      simp only
      split_ifs
      · exact ⟨hhanded.queued, hhanded.timed, fun other hmem => by
          obtain rfl : frame = other := by simpa using hmem
          exact hfinal⟩
      · exact ⟨hhanded.queued, hhanded.timed, by simp⟩
      · refine ⟨hhanded.queued, hhanded.timed, fun other hmem => ?_⟩
        generalize ((frame.bytes.drop frame.offset).take accept).length = count at hmem
        obtain rfl : { frame with offset := frame.offset + count } = other := by simpa using hmem
        exact hfinal

theorem updateStallState_handed {s : FramedFdEndpoint} (hhanded : Handed pbEncode S s)
    (nowNs : ℤ) : Handed pbEncode S (s.updateStallState nowNs) := by
  unfold updateStallState armDegrade
  simp only
  split_ifs <;> exact ⟨hhanded.queued, hhanded.timed, hhanded.active⟩

theorem deathStep_handed {s : FramedFdEndpoint} (hhanded : Handed pbEncode S s)
    (stage : DeathStage) : Handed pbEncode S (s.deathStep stage) := by
  have hclear : ∀ lane, Handed pbEncode S (s.setOutbox lane (s.outbox lane).clear) :=
    fun lane => hhanded.setOutbox _ _ (by simp)
  cases stage with
  | reliable => exact ⟨(hclear .reliable).queued, hhanded.timed, hhanded.active⟩
  | fd =>
      simp only [deathStep]
      split <;> exact ⟨hhanded.queued, hhanded.timed, hhanded.active⟩
  | ctrl => exact (hclear .ctrl).goto _
  | bulk => exact (hclear .bulk).goto _
  | timed => exact ⟨hhanded.queued, by simp [deathStep], by simp [deathStep]⟩
  | latches => exact ⟨hhanded.queued, hhanded.timed, hhanded.active⟩

theorem ioStep_handed {s : FramedFdEndpoint} (hhanded : Handed pbEncode S s) (answer : IoAnswer) :
    Handed pbEncode S (s.ioStep pbEncode answer) := by
  cases hpc : s.pc with
  | idle | exited => simpa only [ioStep, hpc] using hhanded
  | flush =>
      simp only [ioStep, hpc]
      split
      · exact (hhanded.setOutbox _ _ (by simp)).goto _
      · exact hhanded.goto _
  | flushed =>
      simp only [ioStep, hpc]
      exact ⟨hhanded.queued, hhanded.timed, hhanded.active⟩
  | top i =>
      simp only [ioStep, hpc, topStep]
      split_ifs
      · exact hhanded.goto _
      · exact hhanded.goto _
      · split <;> exact hhanded.goto _
  | takeTimed i =>
      simp only [ioStep, hpc]
      exact takeTimedStep_handed hhanded i
  | writeTimed i =>
      simp only [ioStep, hpc]
      exact writeTimedStep_handed hhanded i answer
  | pick i | pickReliable i =>
      simp only [ioStep, hpc]
      split <;> exact hhanded.goto _
  | finish i lane =>
      simp only [ioStep, hpc, finishStep]
      split
      · split
        · exact hhanded.goto _
        · split <;> exact (hhanded.writeLane lane _).goto _
      · exact hhanded.goto _
  | promote i lane =>
      simp only [ioStep, hpc, promoteStep]
      split
      · exact (hhanded.setOutbox _ _ fun entry hmem =>
          hhanded.queued lane entry (FramedOutbox.mem_ageEvict hmem)).goto _
      · have hset := hhanded.setOutbox lane
          ((s.outbox lane).ageEvict answer.nowUs).promoteToInFlight fun entry hmem =>
            hhanded.queued lane entry
              (FramedOutbox.mem_ageEvict (FramedOutbox.mem_promoteToInFlight hmem))
        exact ⟨hset.queued, hset.timed, hset.active⟩
  | trail i lane =>
      simp only [ioStep, hpc, trailStep]
      split
      · split
        · exact hhanded.goto _
        · exact (hhanded.writeLane lane _).goto _
      · exact hhanded.goto _
  | drained i lane =>
      simp only [ioStep, hpc, drainedStep]
      split_ifs <;> exact hhanded.goto _
  | stall =>
      simp only [ioStep, hpc]
      exact (updateStallState_handed hhanded _).goto _
  | dying stage =>
      simp only [ioStep, hpc]
      exact deathStep_handed hhanded stage

/-! ## Steps of the producers -/

@[simp] theorem ioView_queueFrame (s : FramedFdEndpoint) (msg : Message) (frame : List Byte)
    (enqueueUs : ℤ) : (s.queueFrame msg frame enqueueUs).ioView = s.ioView := by
  rw [queueFrame, ioView_setOutbox, FramedOutbox.enqueue_inFlight]
  exact setFlight_self s.ioView (laneOf msg)

theorem queueFrame_handed {s : FramedFdEndpoint} (hhanded : Handed pbEncode S s) {msg : Message}
    {frame : List Byte} {enqueueUs : ℤ} (hframe : S frame) :
    Handed pbEncode S (s.queueFrame msg frame enqueueUs) := by
  refine hhanded.setOutbox _ _ fun entry hmem => ?_
  rcases FramedOutbox.mem_enqueue hmem with hmem | heq
  · exact hhanded.queued _ entry hmem
  · exact heq ▸ hframe

/-- What `EnqueueOne` can do: its gates change counters, the latch and the rate
grids (`t`), and then the frame is queued or it is not. -/
theorem enqueueOne_cases (s : FramedFdEndpoint) (msg : Message) (frame : List Byte)
    (now : Readings) : ∃ t : FramedFdEndpoint, t.outbox = s.outbox ∧
      t.timedQueue = s.timedQueue ∧ t.ioView = s.ioView ∧
      ((s.enqueueOne msg frame now).1 = t ∨
        (s.enqueueOne msg frame now).1 = t.queueFrame msg frame now.enqueueUs) := by
  have hlift : ∃ l : FramedFdEndpoint, s.liftDegrade msg now.monotonicNs = l ∧
      l.outbox = s.outbox ∧ l.timedQueue = s.timedQueue ∧ l.ioView = s.ioView := by
    unfold liftDegrade
    split <;> exact ⟨_, rfl, rfl, rfl, rfl⟩
  obtain ⟨l, hl, houtbox, hqueue, hview⟩ := hlift
  unfold enqueueOne
  split_ifs
  · refine ⟨_, ?_, ?_, ?_, Or.inl rfl⟩ <;> rfl
  · refine ⟨_, ?_, ?_, ?_, Or.inl rfl⟩ <;> rfl
  · rw [hl]
    unfold queueByRule passesRateGate
    split
    · exact ⟨l, houtbox, hqueue, hview, Or.inr rfl⟩
    · split_ifs
      · exact ⟨l, houtbox, hqueue, hview, Or.inl rfl⟩
      · exact ⟨l, houtbox, hqueue, hview, Or.inr rfl⟩
      · simp only
        split_ifs
        · refine ⟨_, ?_, ?_, ?_, Or.inr rfl⟩
          exacts [houtbox, hqueue, hview]
        · refine ⟨_, ?_, ?_, ?_, Or.inl rfl⟩
          exacts [houtbox, hqueue, hview]
      · exact ⟨l, houtbox, hqueue, hview, Or.inr rfl⟩

/-- `EnqueueOne` leaves the I/O thread's view alone and queues only its own frame. -/
theorem ioView_enqueueOne (s : FramedFdEndpoint) (msg : Message) (frame : List Byte)
    (now : Readings) : (s.enqueueOne msg frame now).1.ioView = s.ioView := by
  obtain ⟨t, -, -, hview, heq | heq⟩ := enqueueOne_cases s msg frame now
  · rw [heq, hview]
  · rw [heq, ioView_queueFrame, hview]

theorem enqueueOne_handed {s : FramedFdEndpoint} (hhanded : Handed pbEncode S s) {msg : Message}
    {frame : List Byte} {now : Readings} (hframe : S frame) :
    Handed pbEncode S (s.enqueueOne msg frame now).1 := by
  obtain ⟨t, houtbox, hqueue, hview, hresult⟩ := enqueueOne_cases s msg frame now
  have hactive : t.timedActive = s.timedActive := congrArg IoView.timed hview
  have hgates : Handed pbEncode S t :=
    ⟨houtbox ▸ hhanded.queued, hqueue ▸ hhanded.timed, hactive ▸ hhanded.active⟩
  rcases hresult with heq | heq <;> rw [heq]
  · exact hgates
  · exact queueFrame_handed hgates hframe

/-- `TrySendReliable` refuses, or queues its frame in the reliable lane. -/
theorem trySendReliable_cases (s : FramedFdEndpoint) (frame : List Byte) (nowUs : ℤ) :
    (s.trySendReliable frame nowUs).1 = s ∨ (s.trySendReliable frame nowUs).1 =
      s.setOutbox .reliable
        ((s.outbox .reliable).tryEnqueue frame kReliableQueueBytes nowUs).1 := by
  unfold trySendReliable
  split_ifs
  · exact Or.inl rfl
  · exact Or.inl rfl
  · split
    next o htry => exact Or.inr (by rw [htry])
    next => exact Or.inl rfl

theorem ioView_trySendReliable (s : FramedFdEndpoint) (frame : List Byte) (nowUs : ℤ) :
    (s.trySendReliable frame nowUs).1.ioView = s.ioView := by
  rcases trySendReliable_cases s frame nowUs with heq | heq
  · rw [heq]
  · rw [heq, ioView_setOutbox, FramedOutbox.tryEnqueue_inFlight]
    exact setFlight_self s.ioView .reliable

theorem trySendReliable_handed {s : FramedFdEndpoint} (hhanded : Handed pbEncode S s)
    {frame : List Byte} {nowUs : ℤ} (hframe : S frame) :
    Handed pbEncode S (s.trySendReliable frame nowUs).1 := by
  rcases trySendReliable_cases s frame nowUs with heq | heq <;> rw [heq]
  · exact hhanded
  · refine hhanded.setOutbox _ _ fun entry hmem => ?_
    rcases FramedOutbox.mem_tryEnqueue hmem with hmem | heq
    · exact hhanded.queued _ entry hmem
    · exact heq ▸ hframe

theorem sendTimed_handed {s : FramedFdEndpoint} (hhanded : Handed pbEncode S s)
    {frame : TimedFrame} (hoff : frame.offset = 0) (hfinal : Finalizes pbEncode S frame) :
    Handed pbEncode S (s.sendTimed frame) := by
  unfold sendTimed
  refine ⟨?_, fun other hmem => ?_, ?_⟩
  · split <;> exact hhanded.queued
  · rcases List.mem_append.mp hmem with hmem | hmem
    · refine hhanded.timed other ?_
      split at hmem
      · exact List.mem_of_mem_tail hmem
      · exact hmem
    · obtain rfl := List.mem_singleton.mp hmem
      exact ⟨hoff, hfinal⟩
  · split <;> exact hhanded.active

/-! ## Whole runs -/

/-- The frames that encode what an input hands to the endpoint.  A timed message
is finalized when it is first written, and again after each try that wrote nothing. -/
def Input.Hands : Input pbEncode → List Byte → Prop
  | .enqueueOne out _ => fun frame => frame = encodeFramed pbEncode out.msg
  | .trySendReliable out _ => fun frame => frame = encodeFramed pbEncode out.msg
  | .sendTimed msg finalize _ => fun frame => ∃ stamps : List ℤ, stamps ≠ [] ∧
      frame = encodeFramed pbEncode (stamps.foldl finalize msg)
  | _ => fun _ => False

/-- The `EncodeFramed` bytes of one message sent in the run. -/
def Sent (inputs : List (Input pbEncode)) (frame : List Byte) : Prop :=
  ∃ input ∈ inputs, input.Hands frame

theorem step_boundary {s : FramedFdEndpoint} {input : Input pbEncode}
    (hstream : Stream S s.ioView) (hhanded : Handed pbEncode S s)
    (hsent : ∀ frame, input.Hands frame → S frame) :
    Stream S (step s input).ioView ∧ Handed pbEncode S (step s input) := by
  cases input with
  | beginBatch | requestBulkFlush | requestVideoDegrade nowNs | setStreamPolicy policy | stop =>
      exact ⟨hstream, hhanded.queued, hhanded.timed, hhanded.active⟩
  | enqueueOne out now =>
      refine ⟨?_, enqueueOne_handed hhanded (hsent _ out.frame_eq)⟩
      rw [step, ioView_enqueueOne]
      exact hstream
  | trySendReliable out nowUs =>
      refine ⟨?_, trySendReliable_handed hhanded (hsent _ out.frame_eq)⟩
      rw [step, ioView_trySendReliable]
      exact hstream
  | discardReliable =>
      refine ⟨?_, hhanded.setOutbox _ _ (by simp)⟩
      rw [step, ioView_setOutbox, FramedOutbox.discardQueued_inFlight]
      exact (setFlight_self s.ioView .reliable).symm ▸ hstream
  | sendTimed msg finalize hasSent =>
      refine ⟨?_, sendTimed_handed hhanded rfl fun stamps hne => hsent _ ⟨stamps, hne, rfl⟩⟩
      simp only [step, sendTimed]
      split <;> exact hstream
  | pump =>
      simp only [step]
      split
      next hready =>
        obtain ⟨hidle, hup, -⟩ := hready
        refine ⟨?_, hhanded.queued, hhanded.timed, hhanded.active⟩
        exact stream_of_frames hup trivial ((hstream.linked (Or.inl ⟨hidle, hup⟩)).goto .flush)
          (fun _ _ => trivial) hstream.units hstream.timed
      next => exact ⟨hstream, hhanded⟩
  | linkDead =>
      simp only [step]
      split
      · exact ⟨hstream.die hstream.timed, hhanded.goto _⟩
      · exact ⟨hstream, hhanded⟩
  | reopen =>
      simp only [step]
      split
      next hready =>
        obtain ⟨hidle, hdown, -⟩ := hready
        have hrest := hstream.idle hidle hdown
        refine ⟨?_, hhanded.queued, hhanded.timed, hhanded.active⟩
        -- A fresh fd starts at a boundary because nothing was left in flight.
        have hwire : wire (s.log ++ [.adopted]) = [] := by simp [wireStep]
        exact {
          cut := hwire.symm ▸ whole_nil.cut
          holds := fun source hsource => absurd hsource (hrest source)
          up := fun _ => rfl
          idle := fun _ hdown => by cases hdown
          fallen := fun stage hdying => by simp [ioView, emit, hidle] at hdying
          linked := fun _ => ⟨fun a _ ha => absurd ha (hrest a),
            fun _ => hwire.symm ▸ whole_nil, fun source hsource => absurd hsource (hrest source)⟩
          units := hstream.units
          timed := hstream.timed }
      next => exact ⟨hstream, hhanded⟩
  | exit =>
      simp only [step]
      split
      next hready =>
        have hset := hhanded.setOutbox .reliable (s.outbox .reliable).clear (by simp)
        refine ⟨?_, hset.queued, by simp, by simp⟩
        refine stream_of_dead rfl id ?_ (fun _ _ => trivial) (fun hidle => by cases hidle) ?_
          (by simp [ioView])
        · have hcut := hstream.cut
          simp only [ioView]
          split
          · simpa [wireStep, ioView] using hcut
          · exact hcut
        · intro lane
          by_cases heq : lane = .reliable
          · subst heq
            simpa [ioView, setOutbox] using whole_nil
          · simpa [ioView, setOutbox, Function.update_of_ne heq] using hstream.units lane
      next => exact ⟨hstream, hhanded⟩
  | io answer => exact ⟨ioStep_stream hstream hhanded answer, ioStep_handed hhanded answer⟩

/-- Before anything is sent every lane is empty. -/
theorem init_boundary (bulkPolicy : WritePolicy) (stallNs degradeHoldNs : ℤ)
    (reopenable fdUp : Bool) :
    Stream S (init bulkPolicy stallNs degradeHoldNs reopenable fdUp).ioView ∧
      Handed pbEncode S (init bulkPolicy stallNs degradeHoldNs reopenable fdUp) := by
  have hempty : ∀ lane,
      ((init bulkPolicy stallNs degradeHoldNs reopenable fdUp).outbox lane).inFlight = {} ∧
      ((init bulkPolicy stallNs degradeHoldNs reopenable fdUp).outbox lane).queue = [] := by
    intro lane
    cases lane <;> exact ⟨rfl, rfl⟩
  have hrest : ∀ source,
      ¬ (init bulkPolicy stallNs degradeHoldNs reopenable fdUp).ioView.Active source := by
    intro source
    cases source with
    | lane lane => simp [IoView.Active, ioView, (hempty lane).1]
    | timed => simp [IoView.Active, ioView, init]
  refine ⟨?_, fun lane => by simp [(hempty lane).2], by simp [init], by simp [init]⟩
  exact {
    cut := whole_nil.cut
    holds := fun source hsource => absurd hsource (hrest source)
    up := fun hpump => hpump.elim
    idle := fun _ _ => hrest
    fallen := fun _ hdying => by cases hdying
    linked := fun _ => ⟨fun a _ ha => absurd ha (hrest a), fun _ => whole_nil,
      fun source hsource => absurd hsource (hrest source)⟩
    units := fun lane => by simpa [ioView, (hempty lane).1] using whole_nil
    timed := by simp [ioView, init] }

/-- Whatever the producers, the clocks and the link do, the bytes on the fd are
frames that were sent, followed by at most one proper prefix of such a frame. -/
theorem run_wire_cut (bulkPolicy : WritePolicy) (stallNs degradeHoldNs : ℤ)
    (reopenable fdUp : Bool) (inputs : List (Input pbEncode)) :
    Cut (Sent inputs)
      (wire ((init bulkPolicy stallNs degradeHoldNs reopenable fdUp).run inputs).log) := by
  have hrun := run_invariant_along
    (I := fun s => Stream (Sent inputs) s.ioView ∧ Handed pbEncode (Sent inputs) s)
    (C := fun _ input => ∀ frame, input.Hands frame → Sent inputs frame)
    (fun _ _ hinv hsent => step_boundary hinv.1 hinv.2 hsent)
    (init_boundary bulkPolicy stallNs degradeHoldNs reopenable fdUp)
    (along_of_mem (fun input hmem _ frame hhands => ⟨input, hmem, hhands⟩) _)
  exact hrun.1.cut

end FramedFdEndpoint

end VisioSchema.Transport

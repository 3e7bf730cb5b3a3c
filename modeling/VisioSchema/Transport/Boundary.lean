import VisioSchema.Transport.FramedFd

/-!
# One holder of the wire

Four lanes share one fd.  What keeps their frames apart is that at most one of them is ever half
written (`OnFrames.solo`) and that the I/O thread leaves a lane only at a boundary (`mayHold`).
Producers touch neither: everything the invariant says about the wire is about `IoView`, which
only the I/O thread changes.

## Strategy

What a step can do to the view is one of three things, each with a lemma of its own.

* `OnFrames.write`: the lane that holds the wire, or any lane at a boundary, writes more of its
  unit.  Only that lane can be half written afterwards (`holder_write`).
* `OnFrames.install`: at a boundary a lane takes up a unit of which nothing is on the wire.
  Stamping a timed frame anew is an installation too, since it happens before the first byte
  (`stamped_written`).
* `OnFrames.release`: a finished unit is dropped.

Each step of the I/O thread is then a choice among these and a move of the program counter
(`Stream.goto`), for which `mayHold` has to allow the holder at the new place.  A death of the
link ends what is said about its wire (`Stream.die`); `ioStep_stream` goes through the program
counters.
-/

namespace VisioSchema.Transport

open VisioSchema.Wire VisioSchema.Library

namespace FramedFdEndpoint

/-! ## What the I/O thread owns -/

/-- The part of the endpoint that only the I/O thread changes. -/
structure IoView where
  fdUp : Bool
  flight : Lane → InFlight
  timed : Option TimedFrame
  pc : Pc
  log : List Event

def ioView (s : FramedFdEndpoint) : IoView where
  fdUp := s.fdUp
  flight := fun lane => (s.outbox lane).inFlight
  timed := s.timedActive
  pc := s.pc
  log := s.log

namespace IoView

/-- A lane with a unit in flight, or an active timed frame. -/
def Active (v : IoView) : Source → Prop
  | .lane lane => (v.flight lane).active = true
  | .timed => v.timed.isSome = true

/-- The bytes of the unit in flight that the wire already carries. -/
def written (v : IoView) : Source → List Byte
  | .lane lane => (v.flight lane).written
  | .timed => v.timed.elim [] fun frame => frame.bytes.take frame.offset

def setFlight (v : IoView) (lane : Lane) (unit : InFlight) : IoView :=
  { v with flight := Function.update v.flight lane unit }

@[simp] theorem active_setFlight_self (v : IoView) (lane : Lane) (unit : InFlight) :
    (v.setFlight lane unit).Active (.lane lane) ↔ unit.active = true := by
  simp [Active, setFlight]

theorem active_setFlight_of_ne (v : IoView) {lane : Lane} {unit : InFlight} {source : Source}
    (hne : source ≠ .lane lane) : (v.setFlight lane unit).Active source ↔ v.Active source := by
  cases source with
  | lane other =>
      have hother : other ≠ lane := fun heq => hne (heq ▸ rfl)
      simp [Active, setFlight, Function.update_of_ne hother]
  | timed => rfl

@[simp] theorem written_setFlight_self (v : IoView) (lane : Lane) (unit : InFlight) :
    (v.setFlight lane unit).written (.lane lane) = unit.written := by
  simp [written, setFlight]

theorem written_setFlight_of_ne (v : IoView) {lane : Lane} {unit : InFlight} {source : Source}
    (hne : source ≠ .lane lane) : (v.setFlight lane unit).written source = v.written source := by
  cases source with
  | lane other =>
      have hother : other ≠ lane := fun heq => hne (heq ▸ rfl)
      simp [written, setFlight, Function.update_of_ne hother]
  | timed => rfl

end IoView

/-! ## The invariant -/

section Invariant

variable (pbEncode : Header → List Byte) (S : List Byte → Prop)

/-- The wire ends at a frame boundary, or inside the unit of its one holder. -/
structure OnFrames (v : IoView) : Prop where
  solo : ∀ a b, v.Active a → v.Active b → a = b
  rested : (∀ source, ¬ v.Active source) → Whole S (wire v.log)
  half : ∀ source, v.Active source →
    ∃ done, Whole S done ∧ wire v.log = done ++ v.written source

/-- Who may be half written while the I/O thread stands at `pc`. -/
def mayHold : Pc → Source → Prop
  | .takeTimed _ | .writeTimed _ => fun source => source = .timed
  | .pick _ | .pickReliable _ | .promote _ _ => fun _ => False
  | .finish _ lane | .trail _ lane | .drained _ lane => fun source => source = .lane lane
  | .dying .fd | .dying .ctrl => fun source => source ≠ .lane .reliable
  | .dying .bulk => fun source => source = .lane .bulk ∨ source = .timed
  | .dying .timed => fun source => source = .timed
  | .dying .latches => fun _ => False
  | _ => fun _ => True

/-- `Pump` runs only on a live fd. -/
def pumping : Pc → Prop
  | .idle | .dying _ | .exited => False
  | _ => True

/-- Every way of finalizing the frame, once or again after zero-byte tries,
gives a frame in `S`. -/
def Finalizes (frame : TimedFrame) : Prop :=
  ∀ stamps : List ℤ, stamps ≠ [] →
    S (encodeFramed pbEncode (stamps.foldl frame.finalize frame.msg))

structure Stream (v : IoView) : Prop where
  cut : Cut S (wire v.log)
  holds : ∀ source, v.Active source → mayHold v.pc source
  up : pumping v.pc → v.fdUp = true
  idle : v.pc = .idle → v.fdUp = false → ∀ source, ¬ v.Active source
  fallen : ∀ stage, v.pc = .dying stage → stage = .reliable ∨ stage = .fd ∨ v.fdUp = false
  linked : v.pc = .idle ∧ v.fdUp = true ∨ pumping v.pc → OnFrames S v
  units : ∀ lane, Whole S (v.flight lane).bytes
  timed : ∀ frame ∈ v.timed, frame.offset ≠ 0 →
    S frame.bytes ∧ frame.offset < frame.bytes.length

/-- What waits to be written came from a producer. -/
structure Handed (s : FramedFdEndpoint) : Prop where
  queued : ∀ lane, ∀ entry ∈ (s.outbox lane).queue, S entry.data
  timed : ∀ frame ∈ s.timedQueue, frame.offset = 0 ∧ Finalizes pbEncode S frame
  active : ∀ frame ∈ s.timedActive, Finalizes pbEncode S frame

end Invariant

variable {pbEncode : Header → List Byte} {S : List Byte → Prop}

/-! ## Steps of the view -/

/-- A boundary or a half-written unit is a cut stream either way. -/
theorem OnFrames.cut {v : IoView} (hframes : OnFrames S v)
    (hunits : ∀ lane, Whole S (v.flight lane).bytes)
    (htimed : ∀ frame ∈ v.timed, frame.offset ≠ 0 → S frame.bytes ∧
      frame.offset < frame.bytes.length) : Cut S (wire v.log) := by
  by_cases hrest : ∀ source, ¬ v.Active source
  · exact (hframes.rested hrest).cut
  · push Not at hrest
    obtain ⟨source, hactive⟩ := hrest
    obtain ⟨done, hdone, hwire⟩ := hframes.half source hactive
    rw [hwire]
    cases source with
    | lane lane => exact hdone.append_take (hunits lane) _
    | timed =>
        obtain ⟨frame, hframe⟩ := Option.isSome_iff_exists.mp hactive
        simp only [IoView.written, hframe, Option.elim_some]
        by_cases hoff : frame.offset = 0
        · simpa [hoff] using hdone.cut
        · exact hdone.append_take (whole_of_frame (htimed frame hframe hoff).1) _

/-- The view after a write of the unit in flight of `lane`. -/
def IoView.write (v : IoView) (lane : Lane) (accept : ℕ) : IoView :=
  { v.setFlight lane ((v.flight lane).advance accept) with
    log := v.log ++ [.wrote (.lane lane) ((v.flight lane).chunk accept)] }

theorem active_write_iff (v : IoView) (lane : Lane) (accept : ℕ) (source : Source) :
    (v.write lane accept).Active source ↔
      (v.setFlight lane ((v.flight lane).advance accept)).Active source := Iff.rfl

/-- Only the writing lane can be half written after its write. -/
theorem holder_write {v : IoView} {lane : Lane} {accept : ℕ} {source : Source}
    (hholder : ∀ other, v.Active other → other = .lane lane)
    (hactive : (v.write lane accept).Active source) : source = .lane lane := by
  by_contra hne
  rw [active_write_iff, v.active_setFlight_of_ne hne] at hactive
  exact hne (hholder source hactive)

theorem OnFrames.write {v : IoView} {lane : Lane} {accept : ℕ} (hframes : OnFrames S v)
    (hunit : Whole S (v.flight lane).bytes) (hactive : v.Active (.lane lane)) :
    OnFrames S (v.write lane accept) := by
  have hholder : ∀ other, v.Active other → other = .lane lane :=
    fun other hother => hframes.solo _ _ hother hactive
  obtain ⟨done, hdone, hwire⟩ := hframes.half _ hactive
  have hafter : wire (v.write lane accept).log =
      done ++ ((v.flight lane).written ++ (v.flight lane).chunk accept) := by
    simp [IoView.write, wireStep, hwire, IoView.written]
  refine ⟨fun a b ha hb => (holder_write hholder ha).trans (holder_write hholder hb).symm, ?_, ?_⟩
  · intro hrest
    rw [hafter]
    -- The unit is finished: what was written of it is all of it.
    rcases (v.flight lane).advance_cases accept with ⟨hstill, -⟩ | ⟨-, hall⟩
    · exact absurd ((active_write_iff ..).mpr ((v.active_setFlight_self lane _).mpr hstill))
        (hrest (.lane lane))
    · exact hall ▸ hdone.append hunit
  · intro source hsource
    obtain rfl := holder_write hholder hsource
    refine ⟨done, hdone, ?_⟩
    rw [active_write_iff, IoView.active_setFlight_self] at hsource
    rcases (v.flight lane).advance_cases accept with ⟨-, -, hwritten⟩ | ⟨hempty, -⟩
    · rw [hafter, ← hwritten]
      exact congrArg (done ++ ·) (v.written_setFlight_self lane _).symm
    · simp [hempty] at hsource

/-- Installing a unit none of which is on the wire, at a boundary. -/
theorem OnFrames.install {v : IoView} {lane : Lane} {unit : InFlight} {log : List Event}
    (hframes : OnFrames S v) (hrest : ∀ source, ¬ v.Active source) (hlog : wire log = wire v.log)
    (hunit : unit.written = []) : OnFrames S { v.setFlight lane unit with log := log } := by
  have hholder : ∀ source, (v.setFlight lane unit).Active source → source = .lane lane := by
    intro source hactive
    by_contra hne
    exact hrest source ((v.active_setFlight_of_ne hne).mp hactive)
  refine ⟨fun a b ha hb => (hholder a ha).trans (hholder b hb).symm, fun _ => ?_, ?_⟩
  · exact hlog ▸ hframes.rested hrest
  · intro source hactive
    obtain rfl := hholder source hactive
    refine ⟨wire v.log, hframes.rested hrest, ?_⟩
    have : IoView.written { v.setFlight lane unit with log := log } (.lane lane) = [] :=
      (v.written_setFlight_self lane unit).trans hunit
    rw [this, List.append_nil]
    exact hlog

/-- Dropping the finished unit of a lane changes nothing that is on the wire. -/
theorem OnFrames.release {v : IoView} {lane : Lane} (hframes : OnFrames S v)
    (hidle : ¬ v.Active (.lane lane)) : OnFrames S (v.setFlight lane {}) := by
  have hactive : ∀ source, (v.setFlight lane {}).Active source → v.Active source ∧
      (v.setFlight lane {}).written source = v.written source := by
    intro source hsource
    by_cases heq : source = .lane lane
    · subst heq
      simp at hsource
    · exact ⟨(v.active_setFlight_of_ne heq).mp hsource, v.written_setFlight_of_ne heq⟩
  refine ⟨fun a b ha hb => hframes.solo a b (hactive a ha).1 (hactive b hb).1, ?_, ?_⟩
  · intro hrest
    refine hframes.rested fun source hsource => ?_
    by_cases heq : source = .lane lane
    · exact hidle (heq ▸ hsource)
    · exact hrest source ((v.active_setFlight_of_ne heq).mpr hsource)
  · intro source hsource
    obtain ⟨hold, hwritten⟩ := hactive source hsource
    exact hwritten ▸ hframes.half source hold

/-! ## Steps of the I/O thread -/

theorem OnFrames.goto {v : IoView} (hframes : OnFrames S v) (pc : Pc) :
    OnFrames S { v with pc := pc } :=
  ⟨hframes.solo, hframes.rested, hframes.half⟩

/-- Inside `Pump` the invariant comes down to the wire, the holder and the units. -/
theorem stream_of_frames {v : IoView} (hup : v.fdUp = true) (hpump : pumping v.pc)
    (hframes : OnFrames S v) (hholds : ∀ source, v.Active source → mayHold v.pc source)
    (hunits : ∀ lane, Whole S (v.flight lane).bytes)
    (htimed : ∀ frame ∈ v.timed, frame.offset ≠ 0 → S frame.bytes ∧
      frame.offset < frame.bytes.length) : Stream S v where
  cut := hframes.cut hunits htimed
  holds := hholds
  up _ := hup
  idle hidle := by simp [hidle, pumping] at hpump
  fallen stage hdying := by simp [hdying, pumping] at hpump
  linked _ := hframes
  units := hunits
  timed := htimed

theorem Stream.goto {v : IoView} (hstream : Stream S v) (hfrom : pumping v.pc) {pc : Pc}
    (hto : pumping pc) (hholds : ∀ source, v.Active source → mayHold pc source) :
    Stream S { v with pc := pc } :=
  stream_of_frames (hstream.up hfrom) hto ((hstream.linked (Or.inr hfrom)).goto pc) hholds
    hstream.units hstream.timed

/-- From anywhere on a live or a dead link `MarkLinkDead` may begin. -/
theorem Stream.die {v : IoView} (hstream : Stream S v) {frame? : Option TimedFrame}
    (htimed : ∀ frame ∈ frame?, frame.offset ≠ 0 →
      S frame.bytes ∧ frame.offset < frame.bytes.length) :
    Stream S { v with timed := frame?, pc := .dying .reliable } where
  cut := hstream.cut
  holds _ _ := trivial
  up hpump := hpump.elim
  idle hidle := by cases hidle
  fallen stage hstage := Or.inl (by cases hstage; rfl)
  linked hlink := by rcases hlink with ⟨hidle, -⟩ | hpump <;> [cases hidle; exact hpump.elim]
  units := hstream.units
  timed := htimed

theorem Stream.write {v : IoView} (hstream : Stream S v) (hfrom : pumping v.pc) {lane : Lane}
    (hactive : v.Active (.lane lane)) (accept : ℕ) {pc : Pc} (hto : pumping pc)
    (hholds : ∀ source, (v.write lane accept).Active source → mayHold pc source) :
    Stream S { v.write lane accept with pc := pc } := by
  refine stream_of_frames (hstream.up hfrom) hto
    (((hstream.linked (Or.inr hfrom)).write (hstream.units lane) hactive).goto pc) hholds ?_
    hstream.timed
  intro other
  by_cases heq : other = lane
  · subst heq
    have hflight : ((v.write other accept).flight other) = (v.flight other).advance accept :=
      Function.update_self ..
    show Whole S ((v.write other accept).flight other).bytes
    rw [hflight]
    rcases (v.flight other).advance_cases accept with ⟨-, hbytes, -⟩ | ⟨hempty, -⟩
    · exact hbytes ▸ hstream.units other
    · exact hempty ▸ whole_nil
  · have hflight : ((v.write lane accept).flight other) = v.flight other :=
      Function.update_of_ne heq ..
    exact hflight ▸ hstream.units other

theorem Stream.holder_write {v : IoView} (hstream : Stream S v) (hfrom : pumping v.pc)
    {lane : Lane} (hactive : v.Active (.lane lane)) {accept : ℕ} {source : Source}
    (hsource : (v.write lane accept).Active source) : source = .lane lane :=
  FramedFdEndpoint.holder_write
    (fun other hother => (hstream.linked (Or.inr hfrom)).solo other _ hother hactive) hsource

@[simp] theorem ioView_goto (s : FramedFdEndpoint) (pc : Pc) :
    (s.goto pc).ioView = { s.ioView with pc := pc } := rfl

@[simp] theorem ioView_setOutbox (s : FramedFdEndpoint) (lane : Lane) (o : FramedOutbox) :
    (s.setOutbox lane o).ioView = s.ioView.setFlight lane o.inFlight := by
  have hflight : (fun other => (Function.update s.outbox lane o other).inFlight) =
      Function.update (fun other => (s.outbox other).inFlight) lane o.inFlight := by
    funext other
    by_cases heq : other = lane
    · subst heq
      simp
    · simp [Function.update_of_ne heq]
  simp only [ioView, setOutbox, IoView.setFlight, hflight]

@[simp] theorem ioView_writeLane (s : FramedFdEndpoint) (lane : Lane) (accept : ℕ) :
    (s.writeLane lane accept).ioView = s.ioView.write lane accept := by
  have hset := congrArg IoView.flight
    (ioView_setOutbox s lane ((s.outbox lane).wrote accept))
  simp only [ioView] at hset
  simp only [ioView, writeLane, hset]
  rfl

@[simp] theorem setFlight_self (v : IoView) (lane : Lane) :
    v.setFlight lane (v.flight lane) = v := by
  simp [IoView.setFlight]

theorem inFlightLane_eq_some {s : FramedFdEndpoint} {lane : Lane}
    (hlane : s.inFlightLane = some lane) : s.ioView.Active (.lane lane) := by
  unfold inFlightLane at hlane
  split_ifs at hlane with hctrl hreliable hbulk <;> obtain rfl := Option.some.inj hlane
  exacts [hctrl, hreliable, hbulk]

theorem inFlightLane_eq_none {s : FramedFdEndpoint} (hnone : s.inFlightLane = none)
    (lane : Lane) : ¬ s.ioView.Active (.lane lane) := by
  unfold inFlightLane at hnone
  split_ifs at hnone with hctrl hreliable hbulk
  cases lane
  exacts [hctrl, hreliable, hbulk]

theorem topStep_stream {s : FramedFdEndpoint} (hstream : Stream S s.ioView)
    (hpc : pumping s.pc) (i : ℕ) : Stream S (s.topStep i).ioView := by
  have hframes : OnFrames S s.ioView := hstream.linked (Or.inr hpc)
  unfold topStep
  split_ifs with hlast htimed
  · exact hstream.goto hpc trivial fun _ _ => trivial
  · refine hstream.goto hpc trivial fun source hsource => ?_
    -- Either the timed frame holds the wire already, or no lane does.
    rcases Bool.or_eq_true_iff.mp htimed with hactive | hboundary
    · exact hframes.solo source .timed hsource hactive
    · have hnone : s.inFlightLane = none := by simpa using (Bool.and_eq_true_iff.mp hboundary).2
      cases source with
      | lane lane => exact absurd hsource (inFlightLane_eq_none hnone lane)
      | timed => rfl
  · split
    next lane hlane =>
      exact hstream.goto hpc trivial fun source hsource =>
        hframes.solo source _ hsource (inFlightLane_eq_some hlane)
    next hnone =>
      refine hstream.goto hpc trivial fun source hsource => ?_
      cases source with
      | lane lane => exact absurd hsource (inFlightLane_eq_none hnone lane)
      | timed =>
          have : s.timedActive.isSome = true := hsource
          simp [this] at htimed

/-- With every lane at rest, the timed frame alone decides where the wire ends. -/
theorem onFrames_of_timed {v : IoView} {done : List Byte}
    (hlanes : ∀ lane, ¬ v.Active (.lane lane)) (hdone : Whole S done)
    (hwire : wire v.log = done ++ v.written .timed) : OnFrames S v := by
  have honly : ∀ source, v.Active source → source = .timed := by
    intro source hsource
    cases source with
    | lane lane => exact absurd hsource (hlanes lane)
    | timed => rfl
  refine ⟨fun a b ha hb => (honly a ha).trans (honly b hb).symm, fun hrest => ?_, ?_⟩
  · have hnone : v.timed = none := by simpa [IoView.Active] using hrest .timed
    rw [hwire, IoView.written, hnone]
    simpa using hdone
  · intro source hsource
    exact honly source hsource ▸ ⟨done, hdone, hwire⟩

theorem takeTimedStep_stream {s : FramedFdEndpoint} {i : ℕ} (hstream : Stream S s.ioView)
    (hpc : s.pc = .takeTimed i) (hqueue : ∀ frame ∈ s.timedQueue, frame.offset = 0) :
    Stream S (s.takeTimedStep i).ioView := by
  have hpump : pumping s.ioView.pc := by simp [ioView, hpc, pumping]
  have hlanes : ∀ lane, ¬ s.ioView.Active (.lane lane) := by
    intro lane hlane
    have hmay : mayHold s.pc (.lane lane) := hstream.holds _ hlane
    simp [hpc, mayHold] at hmay
  unfold takeTimedStep
  split
  next frame hactive =>
    refine hstream.goto hpump trivial fun source hsource => ?_
    have hmay : mayHold s.pc source := hstream.holds _ hsource
    rw [hpc] at hmay
    exact hmay
  next hnone =>
    have hwhole : Whole S (wire s.log) := by
      refine (hstream.linked (Or.inr hpump)).rested fun source hsource => ?_
      cases source with
      | lane lane => exact hlanes lane hsource
      | timed => simp [IoView.Active, ioView, hnone] at hsource
    split
    next => exact hstream.goto hpump trivial fun _ _ => trivial
    next frame rest hcons =>
      have hoff : frame.offset = 0 := hqueue frame (by simp [hcons])
      refine stream_of_frames (hstream.up hpump) trivial
        (onFrames_of_timed hlanes hwhole (by simp [ioView, IoView.written, hoff])) ?_
        hstream.units ?_
      · intro source hsource
        cases source with
        | lane lane => exact absurd hsource (hlanes lane)
        | timed => rfl
      · intro other hother hne
        obtain rfl : frame = other := by simpa [ioView] using hother
        exact absurd hoff hne

section Timed

variable {frame : TimedFrame} (nowNs : ℤ)

@[simp] theorem stamped_offset :
    (frame.stamped pbEncode nowNs).offset = frame.offset := by
  unfold TimedFrame.stamped
  split <;> rfl

/-- Stamping replaces only bytes of which none is on the wire. -/
theorem stamped_written :
    (frame.stamped pbEncode nowNs).bytes.take frame.offset =
      frame.bytes.take frame.offset := by
  unfold TimedFrame.stamped
  split
  next hzero => simp [hzero]
  next => rfl

theorem stamped_frame (hfinal : Finalizes pbEncode S frame)
    (htimed : frame.offset ≠ 0 → S frame.bytes ∧ frame.offset < frame.bytes.length) :
    S (frame.stamped pbEncode nowNs).bytes ∧
      frame.offset < (frame.stamped pbEncode nowNs).bytes.length := by
  unfold TimedFrame.stamped
  split
  next hzero =>
    refine ⟨hfinal [nowNs] (by simp), ?_⟩
    rw [hzero]
    exact List.length_pos_of_ne_nil (encodeFramed_ne_nil _)
  next hpos => exact htimed hpos

theorem stamped_finalizes (hfinal : Finalizes pbEncode S frame) :
    Finalizes pbEncode S (frame.stamped pbEncode nowNs) := by
  unfold TimedFrame.stamped
  split
  · intro stamps hstamps
    exact hfinal (nowNs :: stamps) (by simp)
  · exact hfinal

theorem wire_events (log : List Event) (chunk : List Byte) :
    wire (log ++ TimedFrame.events frame chunk) = wire log ++ chunk := by
  unfold TimedFrame.events
  split <;> simp [wire, wireStep]

end Timed

theorem writeTimedStep_stream {s : FramedFdEndpoint} {i : ℕ} (hstream : Stream S s.ioView)
    (hpc : s.pc = .writeTimed i) (hfinal : ∀ frame ∈ s.timedActive, Finalizes pbEncode S frame)
    (answer : IoAnswer) : Stream S (s.writeTimedStep pbEncode i answer).ioView := by
  have hpump : pumping s.ioView.pc := by simp [ioView, hpc, pumping]
  have hlanes : ∀ lane, ¬ s.ioView.Active (.lane lane) := by
    intro lane hlane
    have hmay : mayHold s.pc (.lane lane) := hstream.holds _ hlane
    simp [hpc, mayHold] at hmay
  unfold writeTimedStep
  split
  next => exact hstream.goto hpump trivial fun _ _ => trivial
  next waiting hwaiting =>
    obtain ⟨done, hdone, hwire⟩ := (hstream.linked (Or.inr hpump)).half .timed
      (by simp [IoView.Active, ioView, hwaiting])
    obtain ⟨hframe, hshort⟩ := stamped_frame answer.nowNs (hfinal waiting hwaiting)
      (hstream.timed waiting hwaiting)
    have hoff : (waiting.stamped pbEncode answer.nowNs).offset = waiting.offset :=
      stamped_offset answer.nowNs
    have hsame : (waiting.stamped pbEncode answer.nowNs).bytes.take waiting.offset =
        waiting.bytes.take waiting.offset := stamped_written answer.nowNs
    generalize waiting.stamped pbEncode answer.nowNs = frame at *
    rw [← hoff] at hshort hsame
    have hwire : wire s.log = done ++ frame.bytes.take frame.offset := by
      rw [hsame, hoff]
      simpa [ioView, IoView.written, hwaiting] using hwire
    have hgood : ∀ other ∈ some frame, other.offset ≠ 0 →
        S other.bytes ∧ other.offset < other.bytes.length := by
      intro other hother _
      obtain rfl : frame = other := by simpa using hother
      exact ⟨hframe, hshort⟩
    split
    next => exact hstream.die hgood
    next accept _ =>
      simp only
      generalize hchunk : (frame.bytes.drop frame.offset).take accept = chunk
      have hlog : wire (s.log ++ frame.events chunk) =
          done ++ frame.bytes.take (frame.offset + chunk.length) := by
        rw [wire_events, hwire, List.append_assoc, List.take_add, ← hchunk]
        simp
      split_ifs with hnothing hall
      · exact stream_of_frames (hstream.up hpump) trivial
          (onFrames_of_timed hlanes hdone hwire) (fun _ _ => trivial) hstream.units hgood
      · rw [hall, List.take_length] at hlog
        exact stream_of_frames (hstream.up hpump) trivial
          (onFrames_of_timed hlanes (hdone.append (whole_of_frame hframe))
            (by simpa [ioView, IoView.written] using hlog)) (fun _ _ => trivial) hstream.units
          (by simp [ioView])
      · have hle : frame.offset + chunk.length ≤ frame.bytes.length := by
          rw [← hchunk, List.length_take, List.length_drop]
          omega
        refine stream_of_frames (hstream.up hpump) trivial
          (onFrames_of_timed hlanes hdone (by simpa [ioView, IoView.written] using hlog))
          (fun _ _ => trivial) hstream.units ?_
        intro other hother _
        obtain rfl : { frame with offset := frame.offset + chunk.length } = other := by
          simpa [ioView] using hother
        exact ⟨hframe, by simp only; omega⟩

/-- After a write, `Drain` yields in its lane or, the unit finished, goes on. -/
theorem finishStep_stream {s : FramedFdEndpoint} {i : ℕ} {lane : Lane}
    (hstream : Stream S s.ioView) (hpc : s.pc = .finish i lane) (answer : IoAnswer) :
    Stream S (s.finishStep i lane answer).ioView := by
  have hpump : pumping s.ioView.pc := by simp [ioView, hpc, pumping]
  have hmay : ∀ source, s.ioView.Active source → source = .lane lane := by
    intro source hsource
    have hmay : mayHold s.pc source := hstream.holds _ hsource
    rw [hpc] at hmay
    exact hmay
  unfold finishStep
  split
  next hactive =>
    split
    next => exact hstream.die hstream.timed
    next accept _ =>
      have hwriter : ∀ source, (s.ioView.write lane accept).Active source →
          source = .lane lane := fun source => hstream.holder_write hpump hactive
      simp only
      split
      next =>
        rw [ioView_goto, ioView_writeLane]
        exact hstream.write hpump hactive accept trivial hwriter
      next hdone =>
        rw [ioView_goto, ioView_writeLane]
        refine hstream.write hpump hactive accept trivial fun source hsource => ?_
        have hstill := hwriter source hsource ▸ hsource
        rw [← ioView_writeLane] at hstill
        exact hdone (by simpa [ioView, IoView.Active] using Or.inl hstill)
  next hidle =>
    refine hstream.goto hpump trivial fun source hsource => ?_
    obtain rfl := hmay source hsource
    exact hidle hsource

theorem promoteStep_stream {s : FramedFdEndpoint} {i : ℕ} {lane : Lane}
    (hstream : Stream S s.ioView) (hpc : s.pc = .promote i lane)
    (hqueue : ∀ entry ∈ (s.outbox lane).queue, S entry.data) (answer : IoAnswer) :
    Stream S (s.promoteStep i lane answer).ioView := by
  have hpump : pumping s.ioView.pc := by simp [ioView, hpc, pumping]
  have hrest : ∀ source, ¬ s.ioView.Active source := by
    intro source hsource
    have hmay : mayHold s.pc source := hstream.holds _ hsource
    rw [hpc] at hmay
    exact hmay
  unfold promoteStep
  simp only
  split
  next =>
    have hview : (s.setOutbox lane ((s.outbox lane).ageEvict answer.nowUs)).ioView = s.ioView := by
      rw [ioView_setOutbox, FramedOutbox.ageEvict_inFlight]
      exact setFlight_self s.ioView lane
    rw [ioView_goto, hview]
    exact hstream.goto hpump trivial fun source hsource => absurd hsource (hrest source)
  next front rest hcons =>
    obtain ⟨hunit, hunwritten⟩ := FramedOutbox.promoteToInFlight_whole (P := S)
      (o := (s.outbox lane).ageEvict answer.nowUs) (by simp [hcons])
      fun entry hmem => hqueue entry (FramedOutbox.mem_ageEvict hmem)
    generalize ((s.outbox lane).ageEvict answer.nowUs).promoteToInFlight = o at hunit hunwritten
    have hview : (((s.setOutbox lane o).emit (.promoted lane o.inFlight.bytes)).goto
        (.trail i lane)).ioView = { s.ioView.setFlight lane o.inFlight with
          log := s.log ++ [.promoted lane o.inFlight.bytes], pc := .trail i lane } := by
      rw [← ioView_setOutbox]
      rfl
    have hlog : wire (s.log ++ [.promoted lane o.inFlight.bytes]) = wire s.ioView.log := by
      simp [wireStep, ioView]
    rw [hview]
    refine stream_of_frames (hstream.up hpump) trivial
      (((hstream.linked (Or.inr hpump)).install hrest hlog hunwritten).goto _) ?_ ?_ hstream.timed
    · intro source hsource
      by_contra hne
      exact hrest source ((s.ioView.active_setFlight_of_ne hne).mp hsource)
    · intro other
      by_cases heq : other = lane
      · subst heq
        simpa [IoView.setFlight] using hunit
      · simpa [IoView.setFlight, Function.update_of_ne heq] using hstream.units other

theorem trailStep_stream {s : FramedFdEndpoint} {i : ℕ} {lane : Lane}
    (hstream : Stream S s.ioView) (hpc : s.pc = .trail i lane) (answer : IoAnswer) :
    Stream S (s.trailStep i lane answer).ioView := by
  have hpump : pumping s.ioView.pc := by simp [ioView, hpc, pumping]
  unfold trailStep
  split
  next hactive =>
    split
    next => exact hstream.die hstream.timed
    next accept _ =>
      rw [ioView_goto, ioView_writeLane]
      exact hstream.write hpump hactive accept trivial
        fun source => hstream.holder_write hpump hactive
  next =>
    refine hstream.goto hpump trivial fun source hsource => ?_
    have hmay : mayHold s.pc source := hstream.holds _ hsource
    rw [hpc] at hmay
    exact hmay

@[simp] theorem ioView_updateStallState (s : FramedFdEndpoint) (nowNs : ℤ) :
    (s.updateStallState nowNs).ioView = s.ioView := by
  unfold updateStallState armDegrade
  simp only
  split_ifs <;> rfl

/-- On a dead link nothing is said about the wire beyond what it carried. -/
theorem stream_of_dead {v : IoView} (hdown : v.fdUp = false) (hpc : ¬ pumping v.pc)
    (hcut : Cut S (wire v.log)) (hholds : ∀ source, v.Active source → mayHold v.pc source)
    (hidle : v.pc = .idle → ∀ source, ¬ v.Active source)
    (hunits : ∀ lane, Whole S (v.flight lane).bytes)
    (htimed : ∀ frame ∈ v.timed, frame.offset ≠ 0 → S frame.bytes ∧
      frame.offset < frame.bytes.length) : Stream S v where
  cut := hcut
  holds := hholds
  up hpump := absurd hpump hpc
  idle hpcidle _ := hidle hpcidle
  fallen _ _ := Or.inr (Or.inr hdown)
  linked hlink := by
    rcases hlink with ⟨-, hup⟩ | hpump
    · rw [hdown] at hup
      cases hup
    · exact absurd hpump hpc
  units := hunits
  timed := htimed

/-- Clearing a lane drops its unit, and with it its hold on the wire. -/
theorem Stream.clear {v : IoView} (hstream : Stream S v) {lane : Lane} {stage next : DeathStage}
    (hpc : v.pc = .dying stage) (hdown : next = .fd ∨ v.fdUp = false)
    (hholds : ∀ source, mayHold (.dying stage) source → source ≠ .lane lane →
      mayHold (.dying next) source) :
    Stream S { v.setFlight lane {} with pc := .dying next } where
  cut := hstream.cut
  holds source hsource := by
    have hne : source ≠ .lane lane := by
      rintro rfl
      have := (v.active_setFlight_self lane {}).mp hsource
      simp at this
    have hmay := hstream.holds source ((v.active_setFlight_of_ne hne).mp hsource)
    exact hholds source (hpc ▸ hmay) hne
  up hpump := hpump.elim
  idle hidle := by cases hidle
  fallen other hother := by
    cases hother
    rcases hdown with rfl | hdown
    · exact Or.inr (Or.inl rfl)
    · exact Or.inr (Or.inr hdown)
  linked hlink := by rcases hlink with ⟨hidle, -⟩ | hpump <;> [cases hidle; exact hpump.elim]
  units other := by
    by_cases heq : other = lane
    · subst heq
      simpa [IoView.setFlight] using whole_nil
    · simpa [IoView.setFlight, Function.update_of_ne heq] using hstream.units other
  timed := hstream.timed

theorem deathStep_stream {s : FramedFdEndpoint} {stage : DeathStage}
    (hstream : Stream S s.ioView) (hpc : s.pc = .dying stage) :
    Stream S (s.deathStep stage).ioView := by
  have hmay : ∀ source, s.ioView.Active source → mayHold (.dying stage) source :=
    fun source hsource => hpc ▸ hstream.holds source hsource
  have hdown : stage ≠ .reliable → stage ≠ .fd → s.ioView.fdUp = false := by
    intro hreliable hfd
    rcases hstream.fallen stage hpc with h | h | h
    exacts [absurd h hreliable, absurd h hfd, h]
  cases stage with
  | reliable =>
      have hview : (s.deathStep .reliable).ioView =
          { s.ioView.setFlight .reliable {} with pc := .dying .fd } := by
        rw [← FramedOutbox.clear_inFlight (s.outbox .reliable), ← ioView_setOutbox]
        rfl
      rw [hview]
      exact hstream.clear hpc (Or.inl rfl) fun _ _ hne => hne
  | fd =>
      simp only [deathStep]
      split
      next =>
        exact stream_of_dead rfl id (by simpa [ioView, emit, wireStep] using hstream.cut) hmay
          (fun hidle => by cases hidle) hstream.units hstream.timed
      next hfd =>
        exact stream_of_dead (by simpa [ioView, FramedFdEndpoint.goto] using hfd) id
          hstream.cut hmay (fun hidle => by cases hidle) hstream.units hstream.timed
  | ctrl =>
      simp only [deathStep]
      rw [ioView_goto, ioView_setOutbox]
      refine hstream.clear hpc (Or.inr (hdown (by simp) (by simp))) fun source hreliable hctrl => ?_
      cases source with
      | lane lane => cases lane <;> simp_all [mayHold]
      | timed => exact Or.inr rfl
  | bulk =>
      simp only [deathStep]
      rw [ioView_goto, ioView_setOutbox]
      exact hstream.clear hpc (Or.inr (hdown (by simp) (by simp))) fun source hmay hbulk =>
        hmay.resolve_left hbulk
  | timed =>
      refine stream_of_dead (hdown (by simp) (by simp)) id hstream.cut ?_
        (fun hidle => by cases hidle) hstream.units (by simp [ioView, deathStep])
      intro source hsource
      cases source with
      | lane lane => cases hmay (.lane lane) hsource
      | timed => simp [IoView.Active, ioView, deathStep] at hsource
  | latches =>
      exact stream_of_dead (hdown (by simp) (by simp)) id hstream.cut (fun _ _ => trivial)
        (fun _ => hmay) hstream.units hstream.timed

/-- The heart of the argument: no step of the I/O thread leaves a frame half written
and hands the wire to another lane. -/
theorem ioStep_stream {s : FramedFdEndpoint} (hstream : Stream S s.ioView)
    (hhanded : Handed pbEncode S s) (answer : IoAnswer) :
    Stream S (s.ioStep pbEncode answer).ioView := by
  cases hpc : s.pc with
  | idle | exited => simpa only [ioStep, hpc] using hstream
  | flush =>
      have hpump : pumping s.ioView.pc := by simp [ioView, hpc, pumping]
      simp only [ioStep, hpc]
      split
      next hflush =>
        have hidle : ¬ s.ioView.Active (.lane .bulk) := by
          simpa [IoView.Active, ioView] using (Bool.and_eq_true_iff.mp hflush).2
        rw [ioView_goto, ioView_setOutbox]
        -- The flush drops what is queued in the bulk lane; its unit is not on the wire.
        refine stream_of_frames (hstream.up hpump) trivial
          (((hstream.linked (Or.inr hpump)).release hidle).goto _) (fun _ _ => trivial) ?_
          hstream.timed
        intro other
        by_cases heq : other = .bulk
        · subst heq
          simpa [IoView.setFlight] using whole_nil
        · simpa [IoView.setFlight, Function.update_of_ne heq] using hstream.units other
      next => exact hstream.goto hpump trivial fun _ _ => trivial
  | flushed =>
      simp only [ioStep, hpc]
      exact hstream.goto (by simp [ioView, hpc, pumping]) trivial fun _ _ => trivial
  | top i =>
      simp only [ioStep, hpc]
      exact topStep_stream hstream (by simp [hpc, pumping]) i
  | takeTimed i =>
      simp only [ioStep, hpc]
      exact takeTimedStep_stream hstream hpc fun frame hmem => (hhanded.timed frame hmem).1
  | writeTimed i =>
      simp only [ioStep, hpc]
      exact writeTimedStep_stream hstream hpc hhanded.active answer
  | pick i | pickReliable i =>
      have hpump : pumping s.ioView.pc := by simp [ioView, hpc, pumping]
      -- A lane is chosen at a boundary only.
      have hrest : ∀ source, ¬ s.ioView.Active source := by
        intro source hsource
        have hmay : mayHold s.pc source := hstream.holds _ hsource
        rw [hpc] at hmay
        exact hmay
      simp only [ioStep, hpc]
      split <;> exact hstream.goto hpump trivial fun source hsource => absurd hsource (hrest source)
  | finish i lane =>
      simp only [ioStep, hpc]
      exact finishStep_stream hstream hpc answer
  | promote i lane =>
      simp only [ioStep, hpc]
      exact promoteStep_stream hstream hpc (hhanded.queued lane) answer
  | trail i lane =>
      simp only [ioStep, hpc]
      exact trailStep_stream hstream hpc answer
  | drained i lane =>
      have hpump : pumping s.ioView.pc := by simp [ioView, hpc, pumping]
      simp only [ioStep, hpc, drainedStep]
      split_ifs <;> exact hstream.goto hpump trivial fun _ _ => trivial
  | stall =>
      have hpump : pumping s.ioView.pc := by simp [ioView, hpc, pumping]
      simp only [ioStep, hpc, ioView_goto, ioView_updateStallState]
      -- The stall check writes no byte and touches no unit.
      have hframes := (hstream.linked (Or.inr hpump)).goto .idle
      exact {
        cut := hstream.cut
        holds := fun _ _ => trivial
        up := fun hidle => hidle.elim
        idle := fun _ hdown => by
          have hup := hstream.up hpump
          simp_all
        fallen := fun _ hdying => by cases hdying
        linked := fun _ => hframes
        units := hstream.units
        timed := hstream.timed }
  | dying stage =>
      simp only [ioStep, hpc]
      exact deathStep_stream hstream hpc

end FramedFdEndpoint

end VisioSchema.Transport

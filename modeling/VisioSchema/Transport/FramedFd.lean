import Mathlib.Logic.Function.Basic
import VisioSchema.Library.Runs
import VisioSchema.Transport.FramedOutbox

/-!
# The framed fd endpoint

`FramedFdEndpoint`: three outboxes and a lane of timed frames over one fd.
Producers run on other threads than the I/O thread, so the endpoint is a machine
whose inputs are the producers' calls and the single steps of the I/O thread
(`Pc`), in any order.  A step ends where the code takes or releases a lock, reads
an atomic that another thread writes, or calls `WriteSome`.

The clock and the link are in the inputs: every reading of a clock may be any
integer and every write may take any number of bytes, or fail.
-/

namespace VisioSchema.Transport

open VisioSchema.Wire VisioSchema.Library

/-! ## Data -/

/-- `ctrl_outbox_`, `reliable_outbox_` and `outbox_`. -/
inductive Lane
  | ctrl
  | reliable
  | bulk
  deriving DecidableEq, Repr

/-- Who a written byte belongs to. -/
inductive Source
  | lane (lane : Lane)
  | timed
  deriving DecidableEq, Repr

structure StreamRule where
  drop : Bool := false
  minGapUs : ℤ := 0
  deriving DecidableEq, Repr

abbrev ResolvedStreamPolicy := ℕ → Option StreamRule

structure RateGate where
  gridUs : ℤ := 0
  captureTimed : Bool := false
  mixedWarned : Bool := false
  deriving DecidableEq, Repr

/-- A timed frame; `hasSent` says whether it came with a `sent` callback. -/
structure TimedFrame where
  msg : Message
  finalize : Message → ℤ → Message
  hasSent : Bool
  bytes : List Byte := []
  offset : ℕ := 0
  stampNs : ℤ := 0

inductive SendResult
  | accepted
  | backpressure
  | closed
  | unsupported
  deriving DecidableEq, Repr

/-- The critical sections of `MarkLinkDead`, in order. -/
inductive DeathStage
  | reliable
  | fd
  | ctrl
  | bulk
  | timed
  | latches
  deriving DecidableEq, Repr

/-- Where the I/O thread stands: in `Loop`, or inside `Pump` at its iteration
`i`, `PumpTimed`, `Drain` or `MarkLinkDead`. -/
inductive Pc
  | idle
  | flush
  | flushed
  | top (i : ℕ)
  | takeTimed (i : ℕ)
  | writeTimed (i : ℕ)
  | pick (i : ℕ)
  | pickReliable (i : ℕ)
  | finish (i : ℕ) (lane : Lane)
  | promote (i : ℕ) (lane : Lane)
  | trail (i : ℕ) (lane : Lane)
  | drained (i : ℕ) (lane : Lane)
  | stall
  | dying (stage : DeathStage)
  | exited
  deriving DecidableEq, Repr

/-- What can be observed of the endpoint. -/
inductive Event
  | adopted
  | promoted (lane : Lane) (unit : List Byte)
  | wrote (source : Source) (bytes : List Byte)
  | timedSent (stampNs : ℤ)
  | died
  deriving DecidableEq, Repr

structure FramedFdEndpoint where
  stallNs : ℤ
  degradeHoldNs : ℤ
  reopenable : Bool
  fdUp : Bool
  outbox : Lane → FramedOutbox
  reliableLinkUp : Bool
  bulkFlush : Bool := false
  linkStalled : Bool := false
  doorDropped : ℕ := 0
  acceptedTotal : ℕ := 0
  degradeHoldUntilNs : ℤ := 0
  degradeDropped : ℕ := 0
  evictionsSeen : ℕ := 0
  lastProgressNs : ℤ := 0
  policy : Option ResolvedStreamPolicy := none
  decimGridUs : ℕ → Option RateGate := fun _ => none
  timedQueue : List TimedFrame := []
  timedActive : Option TimedFrame := none
  timedPending : ℕ := 0
  closedReported : Bool := false
  stop : Bool := false
  /-- The local `stalled` of the `SendBatch` that is being dispatched. -/
  batchStalled : Bool := false
  /-- The local `accepted` of `Pump`. -/
  accepted : ℕ := 0
  pc : Pc := .idle
  log : List Event := []

/-- `ControlPolicy`. -/
def controlPolicy : WritePolicy := { WritePolicy.dropOldest 512 with drain := .batchAll }

def kReliableQueueBytes : ℕ := 8 * 1024

def kMaxFramesPerPump : ℕ := 64

def kDecimEpochResetUs : ℤ := 1000000

/-- What the constructors leave: `bulkPolicy` and the times are the caller's. -/
def FramedFdEndpoint.init (bulkPolicy : WritePolicy) (stallNs degradeHoldNs : ℤ)
    (reopenable fdUp : Bool) : FramedFdEndpoint where
  stallNs := stallNs
  degradeHoldNs := degradeHoldNs
  reopenable := reopenable
  fdUp := fdUp
  outbox
    | .ctrl => { policy := controlPolicy }
    | .reliable => { policy := .lossless }
    | .bulk => { policy := bulkPolicy }
  reliableLinkUp := fdUp

namespace TimedFrame

/-- An unstarted frame is stamped, finalized and framed anew. -/
def stamped (pbEncode : Header → List Byte) (frame : TimedFrame) (nowNs : ℤ) : TimedFrame :=
  if frame.offset = 0 then
    let msg := frame.finalize frame.msg nowNs
    { frame with stampNs := nowNs, msg := msg, bytes := encodeFramed pbEncode msg }
  else frame

/-- A write of the frame, and its `sent` callback when it is the first. -/
def events (frame : TimedFrame) (chunk : List Byte) : List Event :=
  .wrote .timed chunk ::
    if frame.offset = 0 ∧ frame.hasSent then [.timedSent frame.stampNs] else []

end TimedFrame

namespace FramedFdEndpoint

variable (s : FramedFdEndpoint)

def setOutbox (lane : Lane) (o : FramedOutbox) : FramedFdEndpoint :=
  { s with outbox := Function.update s.outbox lane o }

@[simp] theorem outbox_setOutbox_self (lane : Lane) (o : FramedOutbox) :
    (s.setOutbox lane o).outbox lane = o := Function.update_self ..

theorem outbox_setOutbox_of_ne {lane other : Lane} (o : FramedOutbox) (hne : other ≠ lane) :
    (s.setOutbox lane o).outbox other = s.outbox other := Function.update_of_ne hne ..

def emit (event : Event) : FramedFdEndpoint := { s with log := s.log ++ [event] }

def goto (pc : Pc) : FramedFdEndpoint := { s with pc := pc }

/-! ## Producers -/

/-- The clocks one `EnqueueOne` reads, in the order it reads them. -/
structure Readings where
  monotonicNs : ℤ := 0
  gateUs : ℤ := 0
  enqueueUs : ℤ := 0
  deriving DecidableEq, Repr

/-- The keyframes-only gate of `EnqueueOne`. -/
def degradeRefuses (msg : Message) : Bool :=
  msg.bulk && !msg.noDegrade && s.degradeHoldUntilNs != 0 && !msg.keyframe

/-- A keyframe past the hold lifts the latch. -/
def liftDegrade (msg : Message) (nowNs : ℤ) : FramedFdEndpoint :=
  if msg.bulk && !msg.noDegrade && s.degradeHoldUntilNs != 0 && msg.keyframe &&
      decide (s.degradeHoldUntilNs ≤ nowNs) then
    { s with degradeHoldUntilNs := 0 }
  else s

/-- `RuleFor`. -/
def ruleFor (streamId : ℕ) : Option StreamRule := s.policy.bind fun table => table streamId

/-- `PassesRateGate` on the gate of the message's stream. -/
def stepRateGate (gate : RateGate) (captureNs steadyUs minGapUs : ℤ) : RateGate × Bool :=
  let captured := decide (captureNs ≠ 0)
  let tUs := if captured then captureNs.tdiv 1000 else steadyUs
  let gate :=
    if gate.gridUs = 0 then { gate with captureTimed := captured }
    else if captured ≠ gate.captureTimed ∧ gate.mixedWarned = false then
      { gate with mixedWarned := true }
    else gate
  if tUs < gate.gridUs ∧ gate.gridUs - minGapUs - tUs ≤ kDecimEpochResetUs then (gate, false)
  else
    let grid := if tUs < gate.gridUs then 0 else gate.gridUs
    ({ gate with gridUs := grid + minGapUs * (1 + (tUs - grid).tdiv minGapUs) }, true)

/-- `PassesRateGate`. -/
def passesRateGate (msg : Message) (minGapUs steadyUs : ℤ) : FramedFdEndpoint × Bool :=
  if minGapUs ≤ 0 then (s, true)
  else
    let (gate, passes) := stepRateGate ((s.decimGridUs msg.streamId).getD {})
      (timestampNs msg.timestamp) steadyUs minGapUs
    ({ s with decimGridUs := Function.update s.decimGridUs msg.streamId (some gate) }, passes)

/-- The lane of a message: camera video is bulk, everything else control. -/
def laneOf (msg : Message) : Lane := if msg.bulk then .bulk else .ctrl

/-- Framing and enqueue, once every gate is passed. -/
def queueFrame (msg : Message) (frame : List Byte) (enqueueUs : ℤ) : FramedFdEndpoint :=
  s.setOutbox (laneOf msg) ((s.outbox (laneOf msg)).enqueue frame msg.keyframe enqueueUs).1

/-- The stream policy's part of `EnqueueOne`: a drop rule, then a rate cap. -/
def queueByRule (msg : Message) (frame : List Byte) (now : Readings) : FramedFdEndpoint × Bool :=
  match s.ruleFor msg.streamId with
  | none => (s.queueFrame msg frame now.enqueueUs, true)
  | some rule =>
      if rule.drop then (s, false)
      else if rule.minGapUs ≠ 0 ∧ msg.bulk = false then
        let (s, passes) := s.passesRateGate msg rule.minGapUs now.gateUs
        if passes then (s.queueFrame msg frame now.enqueueUs, true) else (s, false)
      else (s.queueFrame msg frame now.enqueueUs, true)

/-- `EnqueueOne`, with the `stalled` of the batch under way. -/
def enqueueOne (msg : Message) (frame : List Byte) (now : Readings) : FramedFdEndpoint × Bool :=
  if s.batchStalled && (msg.bulk || msg.decimatable) then
    ({ s with doorDropped := s.doorDropped + 1 }, false)
  else if s.degradeRefuses msg then ({ s with degradeDropped := s.degradeDropped + 1 }, false)
  else (s.liftDegrade msg now.monotonicNs).queueByRule msg frame now

/-- `TrySendReliable`. -/
def trySendReliable (frame : List Byte) (nowUs : ℤ) : FramedFdEndpoint × SendResult :=
  if s.stop || !s.reliableLinkUp then (s, .closed)
  else if kReliableQueueBytes < frame.length then (s, .unsupported)
  else
    match (s.outbox .reliable).tryEnqueue frame kReliableQueueBytes nowUs with
    | (o, true) => (s.setOutbox .reliable o, .accepted)
    | (_, false) => (s, .backpressure)

/-- `SendTimed`: at most sixteen frames wait. -/
def sendTimed (frame : TimedFrame) : FramedFdEndpoint :=
  let s := if 16 ≤ s.timedQueue.length then
      { s with timedQueue := s.timedQueue.tail, timedPending := s.timedPending - 1 } else s
  { s with timedQueue := s.timedQueue ++ [frame], timedPending := s.timedPending + 1 }

/-- `SetStreamPolicy`: a stream's phase survives only an unchanged period. -/
def setStreamPolicy (policy : Option ResolvedStreamPolicy) : FramedFdEndpoint :=
  let gap (table : Option ResolvedStreamPolicy) (id : ℕ) : ℤ :=
    ((table.bind fun t => t id).elim 0 StreamRule.minGapUs)
  { s with
    decimGridUs := fun id =>
      if gap policy id ≠ 0 ∧ gap policy id = gap s.policy id then s.decimGridUs id else none
    policy := policy }

/-! ## The I/O thread -/

/-- What one step of the I/O thread may learn: how many bytes the link takes
(`none` is a dead link) and what the clocks read. -/
structure IoAnswer where
  accept : Option ℕ := some 0
  nowNs : ℤ := 0
  nowUs : ℤ := 0
  deriving DecidableEq, Repr

/-- Writes from the unit in flight of `lane`. -/
def writeLane (lane : Lane) (accept : ℕ) : FramedFdEndpoint :=
  let chunk := (s.outbox lane).inFlight.chunk accept
  { s.setOutbox lane ((s.outbox lane).wrote accept) with
    accepted := s.accepted + chunk.length
    log := s.log ++ [.wrote (.lane lane) chunk] }

/-- The lane of a unit in flight, in the order `Pump` asks. -/
def inFlightLane : Option Lane :=
  if (s.outbox .ctrl).inFlight.active then some .ctrl
  else if (s.outbox .reliable).inFlight.active then some .reliable
  else if (s.outbox .bulk).inFlight.active then some .bulk
  else none

/-- The head of `Pump`'s loop: finish what is under way, or start choosing. -/
def topStep (i : ℕ) : FramedFdEndpoint :=
  if kMaxFramesPerPump ≤ i then s.goto .stall
  else if s.timedActive.isSome || (s.timedPending != 0 && s.inFlightLane.isNone) then
    s.goto (.takeTimed i)
  else
    match s.inFlightLane with
    | some lane => s.goto (.finish i lane)
    | none => s.goto (.pick i)

/-- `PumpTimed` takes the oldest frame unless one is already active. -/
def takeTimedStep (i : ℕ) : FramedFdEndpoint :=
  match s.timedActive with
  | some _ => s.goto (.writeTimed i)
  | none =>
      match s.timedQueue with
      | [] => s.goto (.top (i + 1))
      | frame :: rest =>
          { s with timedActive := some frame, timedQueue := rest, pc := .writeTimed i }

/-- The write of `PumpTimed` and what `Pump` does with its progress. -/
def writeTimedStep (pbEncode : Header → List Byte) (i : ℕ) (answer : IoAnswer) : FramedFdEndpoint :=
  match s.timedActive with
  | none => s.goto (.top (i + 1))
  | some waiting =>
      let frame := waiting.stamped pbEncode answer.nowNs
      match answer.accept with
      | none => { s with timedActive := some frame, pc := .dying .reliable }
      | some accept =>
          let chunk := (frame.bytes.drop frame.offset).take accept
          -- A zero-byte try is made again with a fresh timestamp.
          if chunk.length = 0 then { s with timedActive := some frame, pc := .stall }
          else
            let s := { s with
              accepted := s.accepted + chunk.length, log := s.log ++ frame.events chunk }
            if frame.offset + chunk.length = frame.bytes.length then
              { s with timedActive := none, timedPending := s.timedPending - 1, pc := .top (i + 1) }
            else
              { s with
                timedActive := some { frame with offset := frame.offset + chunk.length }
                pc := .stall }

/-- `Drain`'s first phase; the reliable lane then yields (`one_frame`). -/
def finishStep (i : ℕ) (lane : Lane) (answer : IoAnswer) : FramedFdEndpoint :=
  if (s.outbox lane).inFlight.active then
    match answer.accept with
    | none => s.goto (.dying .reliable)
    | some accept =>
        let s := s.writeLane lane accept
        if (s.outbox lane).inFlight.active || lane = .reliable then s.goto (.drained i lane)
        else s.goto (.promote i lane)
  else s.goto (.promote i lane)

/-- `Drain`'s second phase, under the queue's lock. -/
def promoteStep (i : ℕ) (lane : Lane) (answer : IoAnswer) : FramedFdEndpoint :=
  let o := (s.outbox lane).ageEvict answer.nowUs
  match o.queue with
  | [] => (s.setOutbox lane o).goto (.drained i lane)
  | _ :: _ =>
      ((s.setOutbox lane o.promoteToInFlight).emit
        (.promoted lane o.promoteToInFlight.inFlight.bytes)).goto (.trail i lane)

/-- `Drain`'s trailing write. -/
def trailStep (i : ℕ) (lane : Lane) (answer : IoAnswer) : FramedFdEndpoint :=
  if (s.outbox lane).inFlight.active then
    match answer.accept with
    | none => s.goto (.dying .reliable)
    | some accept => (s.writeLane lane accept).goto (.drained i lane)
  else s.goto (.drained i lane)

/-- The three outboxes' `HasPending`. -/
def lanesPending : Bool :=
  (s.outbox .ctrl).hasPending || (s.outbox .reliable).hasPending || (s.outbox .bulk).hasPending

/-- The foot of `Pump`'s loop. -/
def drainedStep (i : ℕ) (lane : Lane) : FramedFdEndpoint :=
  if (s.outbox lane).inFlight.active then s.goto .stall
  else if s.lanesPending then s.goto (.top (i + 1))
  else s.goto .stall

/-- The congestion latch of `UpdateStallState`. -/
def armDegrade (nowNs : ℤ) : FramedFdEndpoint :=
  if (s.outbox .bulk).dropped ≠ s.evictionsSeen then
    { s with
      evictionsSeen := (s.outbox .bulk).dropped
      degradeHoldUntilNs := nowNs + s.degradeHoldNs }
  else s

/-- `UpdateStallState`. -/
def updateStallState (nowNs : ℤ) : FramedFdEndpoint :=
  let s := { s with acceptedTotal := s.acceptedTotal + s.accepted }.armDegrade nowNs
  if 0 < s.accepted ∨ (s.lanesPending || s.timedPending != 0) = false then
    let s := { s with lastProgressNs := nowNs }
    if s.linkStalled ∧ 0 < s.accepted then { s with linkStalled := false, bulkFlush := true } else s
  else if s.lastProgressNs = 0 then { s with lastProgressNs := nowNs }
  else if s.stallNs < nowNs - s.lastProgressNs ∧ s.linkStalled = false then
    { s with linkStalled := true }
  else s

/-- One critical section of `MarkLinkDead`. -/
def deathStep : DeathStage → FramedFdEndpoint
  | .reliable =>
      { s.setOutbox .reliable (s.outbox .reliable).clear with
        reliableLinkUp := false, pc := .dying .fd }
  | .fd => if s.fdUp then { s.emit .died with fdUp := false, pc := .dying .ctrl }
      else s.goto (.dying .ctrl)
  | .ctrl => (s.setOutbox .ctrl (s.outbox .ctrl).clear).goto (.dying .bulk)
  | .bulk => (s.setOutbox .bulk (s.outbox .bulk).clear).goto (.dying .timed)
  | .timed =>
      { s with timedQueue := [], timedActive := none, timedPending := 0, pc := .dying .latches }
  | .latches =>
      { s with
        linkStalled := false
        degradeHoldUntilNs := 0
        evictionsSeen := (s.outbox .bulk).dropped
        closedReported := s.closedReported || !s.reopenable
        lastProgressNs := 0
        pc := .idle }

/-- The next step of the I/O thread inside `Pump`. -/
def ioStep (pbEncode : Header → List Byte) (answer : IoAnswer) : FramedFdEndpoint :=
  match s.pc with
  | .idle => s
  | .flush =>
      if s.bulkFlush && !(s.outbox .bulk).inFlight.active then
        (s.setOutbox .bulk (s.outbox .bulk).clear).goto .flushed
      else s.goto (.top 0)
  | .flushed => { s with bulkFlush := false, pc := .top 0 }
  | .top i => s.topStep i
  | .takeTimed i => s.takeTimedStep i
  | .writeTimed i => s.writeTimedStep pbEncode i answer
  | .pick i =>
      if (s.outbox .ctrl).hasPending then s.goto (.finish i .ctrl) else s.goto (.pickReliable i)
  | .pickReliable i =>
      if (s.outbox .reliable).hasPending then s.goto (.finish i .reliable)
      else s.goto (.finish i .bulk)
  | .finish i lane => s.finishStep i lane answer
  | .promote i lane => s.promoteStep i lane answer
  | .trail i lane => s.trailStep i lane answer
  | .drained i lane => s.drainedStep i lane
  | .stall => (s.updateStallState answer.nowNs).goto .idle
  | .dying stage => s.deathStep stage
  | .exited => s

/-! ## The machine -/

/-- A producer's call, a turn of `Loop`, or a step of `Pump`. -/
inductive Input (pbEncode : Header → List Byte)
  | beginBatch
  | enqueueOne (out : Outgoing pbEncode) (now : Readings)
  | trySendReliable (out : Outgoing pbEncode) (nowUs : ℤ)
  | discardReliable
  | sendTimed (msg : Message) (finalize : Message → ℤ → Message) (hasSent : Bool)
  | requestBulkFlush
  | requestVideoDegrade (nowNs : ℤ)
  | setStreamPolicy (policy : Option ResolvedStreamPolicy)
  | stop
  /-- `Loop` calls `Pump`. -/
  | pump
  /-- A read finds the fd dead, or the serial watchdog gives it up. -/
  | linkDead
  /-- `Tick` opens a fresh fd. -/
  | reopen
  /-- `Loop` sees `stop_` and returns; `Stop` closes the fd. -/
  | exit
  | io (answer : IoAnswer)

def step {pbEncode : Header → List Byte} (s : FramedFdEndpoint) :
    Input pbEncode → FramedFdEndpoint
  | .beginBatch => { s with batchStalled := s.linkStalled }
  | .enqueueOne out now => (s.enqueueOne out.msg out.frame now).1
  | .trySendReliable out nowUs => (s.trySendReliable out.frame nowUs).1
  | .discardReliable => s.setOutbox .reliable (s.outbox .reliable).discardQueued
  | .sendTimed msg finalize hasSent =>
      s.sendTimed { msg := msg, finalize := finalize, hasSent := hasSent }
  | .requestBulkFlush => { s with bulkFlush := true }
  | .requestVideoDegrade nowNs => { s with degradeHoldUntilNs := nowNs + s.degradeHoldNs }
  | .setStreamPolicy policy => s.setStreamPolicy policy
  | .stop => { s with stop := true, reliableLinkUp := false }
  | .pump =>
      if s.pc = .idle ∧ s.fdUp ∧ s.stop = false then { s with accepted := 0, pc := .flush } else s
  | .linkDead => if s.pc = .idle then s.goto (.dying .reliable) else s
  | .reopen =>
      if s.pc = .idle ∧ s.fdUp = false ∧ s.reopenable then
        { s.emit .adopted with fdUp := true, reliableLinkUp := true }
      else s
  | .exit =>
      if s.pc = .idle ∧ s.stop then
        { s.setOutbox .reliable (s.outbox .reliable).clear with
          fdUp := false, timedQueue := [], timedActive := none, timedPending := 0
          log := if s.fdUp then s.log ++ [.died] else s.log
          pc := .exited }
      else s
  | .io answer => s.ioStep pbEncode answer

/-- The state after a run. -/
def run {pbEncode : Header → List Byte} (s : FramedFdEndpoint) (inputs : List (Input pbEncode)) :
    FramedFdEndpoint :=
  inputs.foldl step s

/-! ## The wire -/

def wireStep (bytes : List Byte) : Event → List Byte
  | .adopted => []
  | .wrote _ chunk => bytes ++ chunk
  | _ => bytes

/-- The bytes handed to the fd adopted last. -/
def wire (log : List Event) : List Byte := log.foldl wireStep []

@[simp] theorem wire_append (log : List Event) (event : Event) :
    wire (log ++ [event]) = wireStep (wire log) event := by
  simp [wire]

end FramedFdEndpoint

end VisioSchema.Transport

import VisioSchema.Library.Runs
import VisioSchema.Mcap.Record
import VisioSchema.Transport.DropBound

/-!
# The writer endpoint

`McapWriterEndpoint`: `Send` queues frames under a drop bound, the writer thread swaps
the queue out and writes the batch, and `StopFor` ends both.  Every input is one
section of the code between two points where another thread may come in; the writer,
the storage and the arena answer in the inputs.

What was admitted, written and shed is recorded beside the endpoint; nothing of the
code reads it.
-/

namespace VisioSchema.Mcap

open VisioSchema.Wire VisioSchema.Library VisioSchema.Routing VisioSchema.Transport

namespace McapWriterEndpoint

/-- A queued frame.  The channel is a pointer that `DrainBatch` checks. -/
structure Entry where
  channel : Option Channel
  timestamp : Timestamp
  seq : ℕ
  keyframe : Bool
  syncPoint : SyncPoint
  size : ℕ
  payload : List Byte
  deriving DecidableEq, Repr

/-- The entry of a message. -/
def entryOf (channel : Channel) (msg : Message) : Entry where
  channel := some channel
  timestamp := msg.timestamp
  seq := msg.seq
  keyframe := msg.keyframe
  syncPoint := msg.syncPoint
  size := msg.payload.length
  payload := msg.payload

/-- Whose `ReleaseFront` it is: the drain's, the one release point of the loop, or that
of a stop that has no thread. -/
inductive Releaser
  | drain
  | clean
  | inline
  deriving DecidableEq, Repr

/-- Where the owner of the I/O stands. -/
inductive Pc
  | unborn
  /-- About to take the lock and wait. -/
  | wait
  /-- The queue is swapped out. -/
  | decide
  | flush
  /-- At the head of the loop of `DrainBatch`. -/
  | drain
  /-- In `Write`. -/
  | write
  /-- The front entry is written. -/
  | release
  /-- In `Run`, with the lock dropped. -/
  | reclaim (releaser : Releaser)
  /-- The front entry is off its queue, and still counted. -/
  | account (releaser : Releaser)
  /-- At the head of the release loop. -/
  | clean
  | zero
  /-- At the head of the loop of `StopFor`. -/
  | inline
  | finalize
  | exited
  deriving DecidableEq, Repr

end McapWriterEndpoint

open McapWriterEndpoint in
structure McapWriterEndpoint where
  policy : WritePolicy
  channelCache : ℕ → Option Channel := fun _ => none
  selectedVideoIds : List ℕ := []
  freezeVideoMembership : Bool := false
  selectedVideoTopics : String → Option Channel := fun _ => none
  queue : List Entry := []
  queueBytes : ℕ := 0
  batch : List Entry := []
  inflightBytes : ℕ := 0
  stop : Bool := false
  finalized : Bool := false
  finalizingInline : Bool := false
  reclaimInFlight : Bool := false
  failed : Bool := false
  /-- `storage_refused()` of the writer. -/
  storageRefused : Bool := false
  dropped : ℕ := 0
  unmapped : ℕ := 0
  statWrites : ℕ := 0
  statMaxPendingBytes : ℕ := 0
  pc : Pc := .unborn
  /-- The entry that a `ReleaseFront` of the batch, or of the queue, has popped. -/
  releasing : Option Entry := none
  releasingQueued : Option Entry := none
  /-- The record. -/
  admitted : List Entry := []
  written : List Entry := []
  shed : List Entry := []

namespace McapWriterEndpoint

def kArenaChunkBytes : ℕ := 262144

variable (s : McapWriterEndpoint)

/-! ## Send -/

/-- The channel of a stream id; `resolved` is what the registry says. -/
def resolve (streamId : ℕ) (resolved : Option Channel) : McapWriterEndpoint × Option Channel :=
  match s.channelCache streamId with
  | some channel => (s, some channel)
  | none =>
      match resolved with
      | none =>
          (if kFirstDynamic ≤ streamId then { s with unmapped := s.unmapped + 1 } else s, none)
      | some resolved =>
          let original :=
            if isVideo resolved then s.selectedVideoTopics resolved.topic else none
          let channel := original.getD resolved
          ({ s with
              selectedVideoTopics :=
                if channel.id ∈ s.selectedVideoIds ∧ s.selectedVideoTopics channel.topic = none then
                  Function.update s.selectedVideoTopics channel.topic (some channel)
                else s.selectedVideoTopics
              channelCache := Function.update s.channelCache streamId (some channel) },
            some channel)

/-- A video channel that was not selected when the membership was frozen. -/
def frozenOut (channel : Channel) : Bool :=
  s.freezeVideoMembership && isVideo channel && !s.selectedVideoIds.contains channel.id

/-- `Send` behind its gates, under the lock. -/
def enqueueEntry (entry : Entry) : McapWriterEndpoint :=
  match applyDropBound Entry.size s.policy s.queue s.queueBytes entry.size with
  | none =>
      { s with
        dropped := s.dropped + 1
        admitted := s.admitted ++ [entry]
        shed := s.shed ++ [entry] }
  | some (left, bytes) =>
      let turns := dropBoundEvictions Entry.size s.policy s.queue s.queueBytes entry.size
      { s with
        queue := left ++ [entry]
        queueBytes := bytes + entry.size
        dropped := s.dropped + (s.queue.length - left.length)
        statMaxPendingBytes := max s.statMaxPendingBytes (bytes + entry.size)
        admitted := s.admitted ++ [entry]
        shed := s.shed ++ turns.map Eviction.victim }

/-- `Send`; a call that waits for a chunk is made again. -/
def send (msg : Message) (resolved : Option Channel) (canPut : Bool) : McapWriterEndpoint :=
  let found := s.resolve msg.streamId resolved
  match found.2 with
  | none => found.1
  | some channel =>
      let len := msg.payload.length
      let waits := found.1.reclaimInFlight && decide (0 < len) && decide (len ≤ kArenaChunkBytes)
        && !found.1.stop && !canPut
      if found.1.frozenOut channel || waits || found.1.stop then found.1
      else found.1.enqueueEntry (entryOf channel msg)

/-! ## The owner of the I/O -/

/-- What a step of the owner learns. -/
structure Answer where
  /-- The rotation deadline has passed. -/
  wakes : Bool := false
  /-- `FlushDue` or `Write` throws. -/
  throws : Bool := false
  /-- The release empties a chunk above the resident set. -/
  reclaims : Bool := false
  deriving DecidableEq, Repr

def writeFailed : Bool := s.failed || s.storageRefused

/-- The batch is given up: counted, and left to the release loop. -/
def shedBatch : McapWriterEndpoint :=
  { s with
    dropped := s.dropped + s.batch.length, shed := s.shed ++ s.batch, pc := .clean }

/-- `ReleaseFront` up to the hand-back of a chunk. -/
def popBatch (releaser : Releaser) (reclaims : Bool) : McapWriterEndpoint :=
  match s.batch with
  | [] => s
  | front :: rest =>
      { s with
        batch := rest, releasing := some front
        reclaimInFlight := s.reclaimInFlight || reclaims
        pc := if reclaims then .reclaim releaser else .account releaser }

def popQueue (reclaims : Bool) : McapWriterEndpoint :=
  match s.queue with
  | [] => s
  | front :: rest =>
      { s with
        queue := rest, releasingQueued := some front
        reclaimInFlight := s.reclaimInFlight || reclaims
        pc := if reclaims then .reclaim .inline else .account .inline }

/-- The wait of `WriterLoop`, and the swap. -/
def swap (wakes : Bool) : McapWriterEndpoint :=
  if s.stop || !s.queue.isEmpty || wakes then
    { s with
      batch := s.queue, queue := s.batch, inflightBytes := s.queueBytes, queueBytes := 0
      pc := if s.queue.isEmpty && s.stop then .finalize else .decide }
  else s

def drainStep : McapWriterEndpoint :=
  match s.batch with
  | [] => { s with pc := .clean }
  | front :: _ =>
      if s.storageRefused then s.shedBatch
      else if front.channel.isSome then { s with pc := .write }
      else { s with pc := .release }

def writeStep (throws : Bool) : McapWriterEndpoint :=
  if throws then { s with failed := true }.shedBatch
  else
    { s with
      statWrites := s.statWrites + 1, written := s.written ++ s.batch.head?.toList
      pc := .release }

/-- The byte count follows the entry. -/
def accountStep : Releaser → McapWriterEndpoint
  | .drain =>
      { s with
        inflightBytes := s.inflightBytes - s.releasing.elim 0 Entry.size
        releasing := none, pc := .drain }
  | .clean =>
      { s with
        inflightBytes := s.inflightBytes - s.releasing.elim 0 Entry.size
        releasing := none, pc := .clean }
  | .inline =>
      { s with
        queueBytes := s.queueBytes - s.releasingQueued.elim 0 Entry.size
        releasingQueued := none, pc := .inline }

/-- One step of `WriterLoop`, or of a `StopFor` without a thread. -/
def ioStep (answer : Answer) : McapWriterEndpoint :=
  match s.pc with
  | .unborn | .exited => s
  | .wait => s.swap answer.wakes
  | .decide => if s.writeFailed then s.shedBatch else { s with pc := .flush }
  | .flush => if answer.throws then { s with failed := true }.shedBatch else { s with pc := .drain }
  | .drain => s.drainStep
  | .write => s.writeStep answer.throws
  | .release => s.popBatch .drain answer.reclaims
  | .reclaim releaser => { s with reclaimInFlight := false, pc := .account releaser }
  | .account releaser => s.accountStep releaser
  | .clean => if s.batch.isEmpty then { s with pc := .zero } else s.popBatch .clean answer.reclaims
  | .zero => { s with inflightBytes := 0, pc := .wait }
  | .inline =>
      if s.queue.isEmpty then { s with pc := .finalize } else s.popQueue answer.reclaims
  | .finalize => { s with finalized := true, pc := .exited }

/-! ## The machine -/

/-- `StopFor`, up to its wait: `spawns` is whether a thread can be made, `forever` whether
the timeout is the longest. -/
def stopFor (spawns forever : Bool) : McapWriterEndpoint :=
  let s := { s with stop := true }
  if s.finalized || s.finalizingInline || decide (s.pc ≠ .unborn) then s
  else if spawns then { s with pc := .wait }
  else if !forever then { s with failed := true }
  else
    { s with
      failed := true, finalizingInline := true
      dropped := s.dropped + s.queue.length, shed := s.shed ++ s.queue, pc := .inline }

inductive Input
  | start
  | send (msg : Message) (resolved : Option Channel) (canPut : Bool)
  | stopFor (spawns forever : Bool)
  | storageRefuses
  | io (answer : Answer)
  deriving DecidableEq, Repr

def step : Input → McapWriterEndpoint
  | .start => if !s.stop && decide (s.pc = .unborn) then { s with pc := .wait } else s
  | .send msg resolved canPut => s.send msg resolved canPut
  | .stopFor spawns forever => s.stopFor spawns forever
  | .storageRefuses => { s with storageRefused := true }
  | .io answer => s.ioStep answer

/-- The constructor; `rotationVideoIds` are those of a rotation policy. -/
def make (policy : WritePolicy) (rotationVideoIds : Option (List ℕ)) : McapWriterEndpoint where
  policy := policy
  selectedVideoIds := rotationVideoIds.getD []
  freezeVideoMembership := rotationVideoIds.isSome

def run (policy : WritePolicy) (rotationVideoIds : Option (List ℕ)) (inputs : List Input) :
    McapWriterEndpoint := inputs.foldl step (make policy rotationVideoIds)

end McapWriterEndpoint

end VisioSchema.Mcap

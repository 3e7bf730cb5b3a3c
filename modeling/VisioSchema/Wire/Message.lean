import Mathlib.Data.Int.Notation
import Mathlib.Data.Nat.Notation

/-!
# Wire messages

The in-memory message of `wire/message.hpp` and the header that is serialized
for it.  Unsigned fields are natural numbers, signed ones integers.
-/

namespace VisioSchema.Wire

abbrev Byte := UInt8

structure Timestamp where
  seconds : ℤ := 0
  nanos : ℤ := 0
  deriving DecidableEq, Repr

/-- `TimestampNs`. -/
def timestampNs (ts : Timestamp) : ℤ := ts.seconds * 1000000000 + ts.nanos

/-- `SetTimestampNs`; C++ division truncates. -/
def setTimestampNs (ns : ℤ) : Timestamp where
  seconds := ns.tdiv 1000000000
  nanos := ns.tmod 1000000000

@[simp] theorem timestampNs_setTimestampNs (ns : ℤ) : timestampNs (setTimestampNs ns) = ns := by
  rw [timestampNs, setTimestampNs, Int.mul_comm]
  exact Int.mul_tdiv_add_tmod ns 1000000000

structure SyncPoint where
  authorityEpoch : ℕ := 0
  gridGeneration : ℕ := 0
  frameIndex : ℕ := 0
  deriving DecidableEq, Repr

def SyncPoint.valid (point : SyncPoint) : Bool :=
  point.authorityEpoch != 0 && point.gridGeneration != 0

/-- `Message`, less its cache of framed bytes (see `Outgoing`).  Only the
fields that `toHeader` reads are serialized. -/
structure Message where
  streamId : ℕ := 0
  seq : ℕ := 0
  timestamp : Timestamp := {}
  clockAuthorityEpoch : ℕ := 0
  clockRevision : ℕ := 0
  syncPoint : SyncPoint := {}
  receiveMonoNs : ℤ := 0
  payload : List Byte := []
  bulk : Bool := false
  keyframe : Bool := false
  decimatable : Bool := false
  noDegrade : Bool := false
  sourceAligned : Bool := true
  deriving DecidableEq, Repr

/-- The generated `visio_schema_v1_wire_Header`; an absent submessage is `none`. -/
structure Header where
  streamId : ℕ
  seq : ℕ
  timestamp : Option Timestamp
  keyframe : Bool
  clockAuthorityEpoch : ℕ
  clockRevision : ℕ
  syncPoint : Option SyncPoint
  deriving DecidableEq, Repr

/-- `ToHeader`. -/
def toHeader (msg : Message) : Header where
  streamId := msg.streamId
  seq := msg.seq
  timestamp := some msg.timestamp
  keyframe := msg.keyframe
  clockAuthorityEpoch := msg.clockAuthorityEpoch
  clockRevision := msg.clockRevision
  syncPoint := if msg.syncPoint.valid then some msg.syncPoint else none

end VisioSchema.Wire

import VisioSchema.Library.Bimap
import VisioSchema.Wire.Message

/-!
# The channel registry

`ChannelRegistry`: the topic and schema table of one peer.  Own outputs are
declared, foreign channels are learned from announces; both live in one table
by id, with an index from the topic.
-/

namespace VisioSchema.Routing

open VisioSchema.Wire

/-- The two implementations; only C++ keeps a learned id off the own outputs,
and only its ids have 32 bits. -/
inductive Binding
  | cpp
  | python
  deriving DecidableEq, Repr

structure Channel where
  id : ℕ := 0
  topic : String := ""
  encoding : String := "protobuf"
  schemaName : String := ""
  schema : List Byte := []
  schemaEncoding : String := "protobuf"
  deriving DecidableEq, Repr

/-- What `Learn` throws: the topic is mapped to another id, or (C++) the id is
an own output. -/
inductive DuplicateTopicError
  | topic (topic : String) (id : ℕ)
  | own (id : ℕ)
  deriving DecidableEq, Repr

/-- `kFirstDynamic`; the ids below it are control streams. -/
def kFirstDynamic : ℕ := 16

def kDeviceInfo : ℕ := 1

def kDeviceInfoTopic : String := "/device_info"

def kDeviceInfoSchema : String := "visio_schema.v1.service.device_info.DeviceInfo"

structure ChannelRegistry where
  byId : ℕ → Option Channel := fun _ => none
  topicToId : String → Option ℕ := fun _ => none
  ownIds : List ℕ := []
  nextId : ℕ := kFirstDynamic
  droppedUnmapped : ℕ := 0

/-- `Routed`: what to forward, and the channel to record it against. -/
structure Routed where
  message : Option Message := none
  channel : Option Channel := none
  deriving DecidableEq, Repr

namespace ChannelRegistry

/-- The channel of the DeviceInfo stream, outside the table; its schema is the
build's descriptor blob. -/
def deviceInfoChannel (blob : List Byte) : Channel where
  id := kDeviceInfo
  topic := kDeviceInfoTopic
  schemaName := kDeviceInfoSchema
  schema := blob

/-- Both maps of one channel. -/
def bind (r : ChannelRegistry) (ch : Channel) : ChannelRegistry :=
  { r with
    byId := Function.update r.byId ch.id (some ch)
    topicToId := Function.update r.topicToId ch.topic (some ch.id) }

/-- `Alloc`: the id, and the registry with the counter moved on. -/
def alloc (b : Binding) (r : ChannelRegistry) : ℕ × ChannelRegistry :=
  let next := match b with
    | .cpp => (r.nextId + 1) % 4294967296
    | .python => r.nextId + 1
  (r.nextId, { r with nextId := next })

/-- `Declare`; `channel.id` is not read. -/
def declare (b : Binding) (r : ChannelRegistry) (channel : Channel) : ℕ × ChannelRegistry :=
  match r.topicToId channel.topic with
  | some id => (id, r)
  | none =>
      let (cid, r) := r.alloc b
      let r := r.bind { channel with id := cid }
      (cid, { r with ownIds := r.ownIds.insert cid })

/-- `Learn`; nothing is changed where it throws. -/
def learn (b : Binding) (r : ChannelRegistry) (channel : Channel) :
    Except DuplicateTopicError ChannelRegistry :=
  match r.topicToId channel.topic with
  | some id =>
      if id ≠ channel.id then .error (.topic channel.topic id)
      else if b = .cpp ∧ channel.id ∈ r.ownIds then .error (.own channel.id)
      else .ok (r.bind channel)
  | none =>
      if b = .cpp ∧ channel.id ∈ r.ownIds then .error (.own channel.id)
      else .ok (r.bind channel)

def forgetOne (r : ChannelRegistry) (cid : ℕ) : ChannelRegistry :=
  let r := match r.byId cid with
    | some ch =>
        { r with
          byId := Function.update r.byId cid none
          topicToId :=
            if r.topicToId ch.topic = some cid then Function.update r.topicToId ch.topic none
            else r.topicToId }
    | none => r
  { r with ownIds := r.ownIds.filter (· ≠ cid) }

/-- `Forget`. -/
def forget (r : ChannelRegistry) (ids : List ℕ) : ChannelRegistry := ids.foldl forgetOne r

/-- `Resolve`. -/
def resolve (blob : List Byte) (r : ChannelRegistry) (streamId : ℕ) : Option Channel :=
  if streamId = kDeviceInfo then some (deviceInfoChannel blob) else r.byId streamId

/-- One channel of an announce; a duplicate is logged and skipped. -/
def learnOrWarn (b : Binding) (r : ChannelRegistry) (channel : Channel) : ChannelRegistry :=
  match r.learn b channel with
  | .ok r => r
  | .error _ => r

/-- `OnAnnounce`; `decode` is the protobuf decoder, `none` where the payload is
malformed. -/
def onAnnounce (b : Binding) (decode : List Byte → Option (List Channel)) (r : ChannelRegistry)
    (payload : List Byte) : ChannelRegistry :=
  match decode payload with
  | some channels => channels.foldl (learnOrWarn b) r
  | none => r

/-- `Accept`. -/
def accept (b : Binding) (decode : List Byte → Option (List Channel)) (blob : List Byte)
    (r : ChannelRegistry) (msg : Message) : Routed × ChannelRegistry :=
  if msg.streamId = kDeviceInfo then ({}, r.onAnnounce b decode msg.payload)
  else if msg.streamId < kFirstDynamic then ({ message := some msg }, r)
  else match r.resolve blob msg.streamId with
    | some ch => ({ message := some msg, channel := some ch }, r)
    | none => ({}, { r with droppedUnmapped := r.droppedUnmapped + 1 })

/-! ## Calls in sequence -/

inductive Call
  | declare (channel : Channel)
  | learn (channel : Channel)
  | forget (ids : List ℕ)
  | onAnnounce (payload : List Byte)
  | accept (msg : Message)

/-- One call; the caller of a `Learn` that throws goes on with the registry as it
was. -/
def step (b : Binding) (decode : List Byte → Option (List Channel)) (blob : List Byte)
    (r : ChannelRegistry) : Call → ChannelRegistry
  | .declare channel => (r.declare b channel).2
  | .learn channel => r.learnOrWarn b channel
  | .forget ids => r.forget ids
  | .onAnnounce payload => r.onAnnounce b decode payload
  | .accept msg => (r.accept b decode blob msg).2

end ChannelRegistry

end VisioSchema.Routing

import VisioSchema.Mcap.Parts

/-!
# Recording a message

`record.cc`: a message into the current part, behind the rolls of the policies
without continuation parts and behind the keyframe gate of each video stream.
-/

namespace VisioSchema.Mcap

open VisioSchema.Library VisioSchema.Wire VisioSchema.Routing

/-- `kCompressedVideoSchema`. -/
def kCompressedVideoSchema : String := "foxglove.CompressedVideo"

def isVideo (channel : Channel) : Bool := channel.schemaName = kCompressedVideoSchema

/-- `SelectedVideo`. -/
def WriterConfig.selectedVideo (cfg : WriterConfig) (channel : Channel) : Bool :=
  match cfg.policy with
  | some policy => isVideo channel && decide (channel.id ∈ policy.videoIds)
  | none => false

namespace McapWriter

/-- `storage_refused`. -/
def storageRefused (w : McapWriter) : Bool := w.outcome.refused || w.ended

section Record

variable (cfg : WriterConfig) (env : Env)

/-- `starts_new_pair`. -/
def startsNewPair (w : McapWriter) (channel : Channel) (msg : RecordedMessage) : Bool :=
  isVideo channel && msg.keyframe &&
    decide (w.partMaxVideoTs + cfg.pairGuardNs < timestampNs msg.timestamp)

/-- The roll of `WriteRecord`, which a rotation policy makes elsewhere. -/
def rollIfDue (w : McapWriter) (channel : Channel) (msg : RecordedMessage) : Run McapWriter :=
  if cfg.policy.isSome || !cfg.rotating then ⟨w, false⟩
  else
    let due := (w.shouldRoll cfg env).1
    let w := (w.shouldRoll cfg env).2
    if cfg.rotateOnKeyframe then
      if due && w.startsNewPair cfg channel msg then w.roll cfg env
      else if w.mustCut cfg ||
          (0 < cfg.maxBytes && cfg.maxBytes + cfg.maxBytes / 8 ≤ w.partBytes) then
        w.roll cfg env
      else ⟨w, false⟩
    else if due then w.roll cfg env
    else ⟨w, false⟩

/-- The keyframe gate: whether the message passes. -/
def gate (w : McapWriter) (channel : Channel) (msg : RecordedMessage) : Bool × McapWriter :=
  if isVideo channel && (cfg.policy.isNone || cfg.selectedVideo channel) &&
      !decide (channel.id ∈ w.primed) then
    if msg.keyframe then
      (true,
        { w with
          primed := channel.id :: w.primed
          everPrimed := w.everPrimed.insert channel.id })
    else
      (false,
        { w with
          startupDropped := w.startupDropped + 1
          keyframeGated := w.keyframeGated + if channel.id ∈ w.everPrimed then 1 else 0 })
  else (true, w)

/-- What an accepted message counts for. -/
def countRecord (w : McapWriter) (channel : Channel) (msg : RecordedMessage) : McapWriter :=
  { w with
    log := w.log ++ [.record w.partIndex channel msg]
    partBytes := w.partBytes + msg.payload.length
    videoFramesWritten :=
      w.videoFramesWritten + if isVideo channel && !w.outcome.lostBytes then 1 else 0
    partMaxVideoTs :=
      if isVideo channel && decide (w.partMaxVideoTs < timestampNs msg.timestamp) then
        timestampNs msg.timestamp
      else w.partMaxVideoTs
    bytesWritten := w.bytesWritten + msg.payload.length }

/-- The library writes the message, behind its schema and its channel where they are
new to the part. -/
def writeMessage (w : McapWriter) (channel : Channel) (msg : RecordedMessage) : McapWriter :=
  let accepted := env.ok w.tick
  let w := w.libraryWrites cfg env
  if !accepted || w.outcome.refused then w else w.countRecord channel msg

/-- `WriteRecord`. -/
def writeRecord (w : McapWriter) (channel : Channel) (msg : RecordedMessage) : Run McapWriter :=
  if w.closed || !w.writerOpen || w.storageRefused then ⟨w, false⟩
  else
    (w.rollIfDue cfg env channel msg).andThen fun w =>
      if !w.writerOpen || w.outcome.refused then ⟨w, false⟩
      else
        let passes := (w.gate cfg channel msg).1
        let w := (w.gate cfg channel msg).2
        ⟨if passes then w.writeMessage cfg env channel msg else w, false⟩

/-- `SetMetadata`. -/
def setMetadata (w : McapWriter) (nonempty : Bool) : McapWriter :=
  { w with hasMeta := nonempty }.writeStoredMetadata cfg env

end Record

end McapWriter

end VisioSchema.Mcap

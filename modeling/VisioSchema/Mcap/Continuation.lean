import VisioSchema.Mcap.Record

/-!
# Continuation parts

`continuation.cc`: under a rotation policy a cut waits, with the messages behind it
staged, until every selected camera has sent its keyframe for one shared point; and
the calls that make up the life of a writer.
-/

namespace VisioSchema.Mcap

open VisioSchema.Library VisioSchema.Wire VisioSchema.Routing

/-- How long past its start a part may wait for an aligned cut. -/
def WriterConfig.forcedCutWait (cfg : WriterConfig) : ℤ :=
  match cfg.policy with
  | some policy => cfg.maxDurationNs + policy.idrWait + policy.maxWait
  | none => cfg.maxDurationNs

namespace McapWriter

def setStaging (w : McapWriter) (update : Staging → Staging) : McapWriter :=
  { w with staging := update w.staging }

/-! ## Forced cuts -/

section Flushing

variable (cfg : WriterConfig) (env : Env)

/-- `ForcedCutDue`. -/
def forcedCutDue (w : McapWriter) : Bool × McapWriter :=
  if w.mustCut cfg then (true, w)
  else if 0 < cfg.maxBytes then
    (decide (cfg.maxBytes + cfg.maxBytes / 8 ≤ w.partBytes), w)
  else if 0 < cfg.maxDurationNs ∧ 0 < w.partBytes then
    (decide (cfg.forcedCutWait ≤ w.now env - w.partStart), w.tock)
  else (false, w)

/-- A forced cut. -/
def forceRoll (w : McapWriter) : Run McapWriter :=
  ((w.setStaging fun s => { s with cutReason := .forced }).roll cfg env).andThen fun w =>
    ⟨w.setStaging fun s => { s with forcedCuts := s.forcedCuts + 1 }, false⟩

/-- `ForceRollIfDue`. -/
def forceRollIfDue (w : McapWriter) : Run McapWriter :=
  let due := (w.forcedCutDue cfg env).1
  let w := (w.forcedCutDue cfg env).2
  if due then w.forceRoll cfg env else ⟨w, false⟩

/-! ## Flushing the staged messages -/

/-- What `FlushStaged` does before it writes the staged messages: an aligned cut, the
metadata of the synchronized start, or the count of a cancelled cut. -/
def cutForFlush (w : McapWriter) (rotate : Bool) : Run McapWriter :=
  if !rotate then
    ⟨w.setStaging fun s => { s with cancelledCuts := s.cancelledCuts + 1 }, false⟩
  else if w.staging.startStatus = .waiting then w.writeMetadata cfg env
  else
    ((w.setStaging fun s => { s with cutReason := .aligned }).roll cfg env).andThen fun w =>
      ⟨w.setStaging fun s => { s with alignedCuts := s.alignedCuts + 1 }, false⟩

/-- The front of the staged messages has been written. -/
def popStaged (w : McapWriter) (entry : Pending) : McapWriter :=
  w.setStaging fun s =>
    { s with
      staged := s.staged.tail
      stagedBytes := s.stagedBytes - entry.bytes
      stagedPayloadBytes := s.stagedPayloadBytes - entry.msg.payload.length }

/-- The loop of `FlushStaged`. -/
def flushEntries (rotate allowForced : Bool) : List Pending → McapWriter → Run McapWriter
  | [], w => ⟨w, false⟩
  | entry :: rest, w =>
      let forced : Run McapWriter :=
        if allowForced && (!rotate || w.mustCut cfg) then w.forceRollIfDue cfg env else ⟨w, false⟩
      (forced.andThen fun w => w.writeRecord cfg env entry.channel entry.msg).andThen fun w =>
        flushEntries rotate allowForced rest (w.popStaged entry)

/-- `FlushStaged`. -/
def flushStaged (w : McapWriter) (rotate allowForced : Bool) : Run McapWriter :=
  if w.staging.staged = [] then ⟨w, false⟩
  else
    let starting := w.staging.startStatus = .waiting
    (w.cutForFlush cfg env rotate).andThen fun w =>
      (flushEntries cfg env rotate allowForced w.staging.staged w).andThen fun w =>
        ⟨w.setStaging fun s =>
          { s with
            candidateIds := []
            startStatus := if starting ∧ rotate = true then .ready else s.startStatus }, false⟩

/-! ## Deadlines -/

/-- `rotation_deadline`. -/
def rotationDeadline (w : McapWriter) : Option ℤ :=
  if w.staging.staged ≠ [] then some w.staging.candidateDeadline
  else if w.staging.startStatus = .waiting then some w.staging.startDeadline
  else none

/-- The staged messages and their group are given up. -/
def clearStaged (w : McapWriter) : McapWriter :=
  w.setStaging fun s =>
    { s with staged := [], candidateIds := [], stagedBytes := 0, stagedPayloadBytes := 0 }

/-- `FailStart`. -/
def failStart (w : McapWriter) : McapWriter :=
  w.clearStaged.setStaging fun s => { s with startStatus := .timedOut }

/-- `FlushDue`. -/
def flushDue (w : McapWriter) : Run McapWriter :=
  match w.rotationDeadline with
  | none => ⟨w, false⟩
  | some deadline =>
      if w.now env < deadline then ⟨w.tock, false⟩
      else if w.staging.startStatus = .waiting then ⟨w.tock.failStart, false⟩
      else w.tock.flushStaged cfg env false true

/-- `ArmStart`. -/
def armStart (policy : RotationPolicy) (w : McapWriter) (target : SyncPoint) (wait : ℤ) :
    Run McapWriter :=
  if wait < 0 then ⟨w, true⟩
  else if w.staging.startStatus ≠ .waiting then ⟨w, false⟩
  else if w.staging.candidateIds ≠ [] then ⟨w, true⟩
  else
    ⟨w.tock.setStaging fun s =>
      { s with
        startTarget := target
        startDeadline := w.now env + if wait = 0 then policy.startWait else wait }, false⟩

end Flushing

/-! ## Writing under a rotation policy -/

section Continuation

variable (cfg : WriterConfig) (env : Env) (policy : RotationPolicy)

def dropStartup (w : McapWriter) : McapWriter := { w with startupDropped := w.startupDropped + 1 }

/-- `idr`: the message may open a group or join one. -/
def isIdr (w : McapWriter) (channel : Channel) (msg : RecordedMessage) : Bool :=
  cfg.selectedVideo channel && msg.keyframe && msg.syncPoint.valid &&
    (decide (w.staging.candidateIds ≠ []) || decide (w.staging.startStatus = .waiting) ||
      decide (msg.syncPoint ≠ w.staging.candidatePoint))

/-- A camera outside the group that the take waits for. -/
def outsideGroup (w : McapWriter) (channel : Channel) : Bool :=
  decide (w.staging.candidateIds ≠ []) && cfg.selectedVideo channel &&
    !decide (channel.id ∈ w.staging.candidateIds)

/-- A frame that an armed start does not take. -/
def beforeStart (w : McapWriter) (channel : Channel) (msg : RecordedMessage) : Bool :=
  decide (w.staging.startStatus = .waiting) && w.staging.startTarget.valid &&
    cfg.selectedVideo channel && !decide (channel.id ∈ w.staging.candidateIds) &&
    (!msg.keyframe || decide (msg.syncPoint ≠ w.staging.startTarget))

/-- A frame older than the group. -/
def precedesGroup (w : McapWriter) (msg : RecordedMessage) : Bool :=
  decide (timestampNs msg.timestamp < w.staging.candidateMinNs - policy.toleranceNs)

/-- A frame that neither precedes the group nor joins it. -/
def breaksGroup (w : McapWriter) (channel : Channel) (msg : RecordedMessage) : Bool :=
  let stamp := timestampNs msg.timestamp
  !w.isIdr cfg channel msg || decide (msg.syncPoint ≠ w.staging.candidatePoint) ||
    decide (policy.toleranceNs <
      max stamp w.staging.candidateMaxNs - min stamp w.staging.candidateMinNs)

/-- A camera's frame from before the group, which stays in the old part. -/
def writePreceding (w : McapWriter) (channel : Channel) (msg : RecordedMessage) :
    Run McapWriter :=
  if w.staging.startStatus = .waiting then ⟨w.dropStartup, false⟩
  else
    let due := (w.forcedCutDue cfg env).1
    let w := (w.forcedCutDue cfg env).2
    let flushed : Run McapWriter :=
      if due then (w.flushStaged cfg env false true).andThen fun w => w.forceRollIfDue cfg env
      else ⟨w, false⟩
    flushed.andThen fun w => w.writeRecord cfg env channel msg

/-- The first frame of a group. -/
def beginGroup (w : McapWriter) (channel : Channel) (msg : RecordedMessage) : McapWriter :=
  let stamp := timestampNs msg.timestamp
  let deadline := w.now env + policy.maxWait
  let deadline :=
    if w.staging.startStatus = .waiting then w.staging.startDeadline
    else if cfg.maxBytes = 0 ∧ 0 < cfg.maxDurationNs then
      min deadline (w.partStart + cfg.maxDurationNs + policy.idrWait + policy.maxWait)
    else deadline
  w.tock.setStaging fun s =>
    { s with
      candidatePoint := msg.syncPoint
      candidateMinNs := stamp
      candidateMaxNs := stamp
      candidateDeadline := deadline
      candidateIds := [channel.id] }

/-- Whether a cut is due. -/
def cutDue (w : McapWriter) : Bool × McapWriter :=
  if w.staging.startStatus = .waiting then (true, w)
  else if cfg.rotating then w.shouldRoll cfg env
  else (false, w)

/-- Whether the cut that is due does not wait for a group. -/
def cutsAtOnce (w : McapWriter) : Bool × McapWriter :=
  if w.staging.startStatus = .waiting then (false, w)
  else
    ((w.forcedCutDue cfg env).1 || policy.videoIds.isEmpty || !cfg.rotateOnKeyframe,
      (w.forcedCutDue cfg env).2)

/-- Without a group, a cut that is due is made at once or waits for the group that an
IDR opens. -/
def openGroup (w : McapWriter) (idr : Bool) (channel : Channel) (msg : RecordedMessage) :
    Run McapWriter :=
  if w.staging.candidateIds ≠ [] then ⟨w, false⟩
  else
    let due := (w.cutDue cfg env).1
    let w := (w.cutDue cfg env).2
    if due then
      let atOnce := (w.cutsAtOnce cfg env policy).1
      let w := (w.cutsAtOnce cfg env policy).2
      if atOnce then w.forceRoll cfg env
      else ⟨if idr then w.beginGroup cfg env policy channel msg else w, false⟩
    else ⟨w, false⟩

/-- What a staged message holds in memory. -/
def pendingBytes (channel : Channel) (msg : RecordedMessage) : ℕ :=
  cfg.pendingSize + msg.payload.length + channel.schema.length + channel.topic.utf8ByteSize +
    channel.schemaName.utf8ByteSize

/-- The message is staged, and its camera may join the group. -/
def stage (w : McapWriter) (idr : Bool) (channel : Channel) (msg : RecordedMessage) :
    McapWriter :=
  let stamp := timestampNs msg.timestamp
  let bytes := pendingBytes cfg channel msg
  let w := w.setStaging fun s =>
    { s with
      staged := s.staged ++ [⟨channel, msg, bytes⟩]
      stagedPayloadBytes := s.stagedPayloadBytes + msg.payload.length
      stagedBytes := s.stagedBytes + bytes
      stagePeak := max s.stagePeak (s.stagedBytes + bytes) }
  if idr ∧ msg.syncPoint = w.staging.candidatePoint ∧ channel.id ∉ w.staging.candidateIds then
    w.setStaging fun s =>
      { s with
        candidateIds := channel.id :: s.candidateIds
        candidateMinNs := min s.candidateMinNs stamp
        candidateMaxNs := max s.candidateMaxNs stamp }
  else w

/-- The staged messages do not leave room for one more. -/
def overflows (w : McapWriter) (channel : Channel) (msg : RecordedMessage) : Bool :=
  let bytes := pendingBytes cfg channel msg
  decide (policy.maxStagedBytes < bytes) ||
    decide (policy.maxStagedBytes - bytes < w.staging.stagedBytes)

/-- After a message is staged: the group is complete, or the part is at its ceiling. -/
def flushIfComplete (w : McapWriter) : Run McapWriter :=
  if w.staging.candidateIds.length = policy.videoIds.length then w.flushStaged cfg env true true
  else if w.staging.startStatus ≠ .waiting ∧ 0 < cfg.maxBytes ∧
      cfg.maxBytes + cfg.maxBytes / 8 ≤ w.partBytes + w.staging.stagedPayloadBytes then
    w.flushStaged cfg env false true
  else ⟨w, false⟩

/-- A message while a group is waited for. -/
def writeBehindGroup (w : McapWriter) (idr : Bool) (channel : Channel) (msg : RecordedMessage) :
    Run McapWriter :=
  if w.overflows cfg policy channel msg then
    if w.staging.startStatus = .waiting then ⟨w.failStart, false⟩
    else
      ((w.flushStaged cfg env false true).andThen fun w => w.forceRollIfDue cfg env).andThen
        fun w => w.writeRecord cfg env channel msg
  else (w.stage cfg idr channel msg).flushIfComplete cfg env policy

/-- A message without a group. -/
def writeDirectly (w : McapWriter) (channel : Channel) (msg : RecordedMessage) :
    Run McapWriter :=
  if w.staging.startStatus = .waiting then
    ⟨if isVideo channel then w.dropStartup else w, false⟩
  else w.writeRecord cfg env channel msg

/-- The end of `WriteContinuation`, once the group is known not to be broken. -/
def continueTake (w : McapWriter) (idr : Bool) (channel : Channel) (msg : RecordedMessage) :
    Run McapWriter :=
  (w.openGroup cfg env policy idr channel msg).andThen fun w =>
    if w.staging.candidateIds = [] then w.writeDirectly cfg env channel msg
    else w.writeBehindGroup cfg env policy idr channel msg

/-- `WriteContinuation`. -/
def writeContinuation (w : McapWriter) (channel : Channel) (msg : RecordedMessage) :
    Run McapWriter :=
  (w.flushDue cfg env).andThen fun w =>
    let idr := w.isIdr cfg channel msg
    if w.staging.startStatus = .timedOut ∨
        isVideo channel = true ∧ cfg.selectedVideo channel = false then ⟨w, false⟩
    else if w.beforeStart cfg channel msg then ⟨w.dropStartup, false⟩
    else if w.outsideGroup cfg channel then
      if w.precedesGroup policy msg then w.writePreceding cfg env channel msg
      else if w.breaksGroup cfg policy channel msg then
        if w.staging.startStatus = .waiting then ⟨w.failStart, false⟩
        else
          (w.flushStaged cfg env false true).andThen fun w =>
            w.continueTake cfg env policy idr channel msg
      else w.continueTake cfg env policy idr channel msg
    else w.continueTake cfg env policy idr channel msg

end Continuation

/-! ## The calls of a writer -/

inductive Op
  | write (channel : Channel) (msg : RecordedMessage)
  | flushDue
  | armStart (target : SyncPoint) (wait : ℤ)
  | setMetadata (nonempty : Bool)
  | close
  deriving DecidableEq, Repr

section Calls

variable (cfg : WriterConfig) (env : Env)

/-- `Write`. -/
def write (w : McapWriter) (channel : Channel) (msg : RecordedMessage) : Run McapWriter :=
  if w.closed || !w.writerOpen || w.storageRefused then ⟨w, false⟩
  else
    match cfg.policy with
    | some policy => w.writeContinuation cfg env policy channel msg
    | none => w.writeRecord cfg env channel msg

/-- `Close` once nothing is staged. -/
def finish (w : McapWriter) : McapWriter :=
  let w := { w with closed := true }
  let w := if w.writerOpen then w.closeCurrentPart cfg env else w
  { w with
    bytesWritten :=
      if w.outcome.refused || 0 < w.outcome.unconfirmedParts then
        min w.bytesWritten w.physicalClosed
      else w.bytesWritten }

/-- `Close`. -/
def close (w : McapWriter) : Run McapWriter :=
  if w.closed then ⟨w, false⟩
  else
    let flushed : Run McapWriter :=
      if w.staging.startStatus = .ready then w.flushStaged cfg env false false
      else ⟨w.clearStaged, false⟩
    flushed.andThen fun w => ⟨w.finish cfg env, false⟩

/-- One call. -/
def apply (w : McapWriter) : Op → Run McapWriter
  | .write channel msg => w.write cfg env channel msg
  | .flushDue => w.flushDue cfg env
  | .armStart target wait =>
      match cfg.policy with
      | some policy => w.armStart env policy target wait
      | none => ⟨w, decide (wait < 0)⟩
  | .setMetadata nonempty => ⟨w.setMetadata cfg env nonempty, false⟩
  | .close => w.close cfg env

/-- The constructor, before it opens the first part; it draws the recording's
identity where there is a rotation policy. -/
def arm (w : McapWriter) : Run McapWriter :=
  match cfg.policy with
  | none => ⟨w, false⟩
  | some policy =>
      let w :=
        if policy.videoIds = [] then w
        else
          w.tock.setStaging fun s =>
            { s with startStatus := .waiting, startDeadline := w.now env + policy.startWait }
      ⟨w.tock, !env.random w.tick⟩

/-- The constructor. -/
def construct : Run McapWriter := (arm cfg env {}).andThen fun w => w.openPart cfg env

/-- A caller goes on after a call that threw. -/
def runFrom (w : McapWriter) (ops : List Op) : McapWriter :=
  ops.foldl (fun w op => (w.apply cfg env op).state) w

/-- The writer after a list of calls; there is none to call if its constructor threw. -/
def run (ops : List Op) : McapWriter :=
  if (construct cfg env).threw then (construct cfg env).state
  else (construct cfg env).state.runFrom cfg env ops

end Calls

end McapWriter

end VisioSchema.Mcap

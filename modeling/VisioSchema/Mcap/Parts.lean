import VisioSchema.Library.Throwing
import VisioSchema.Mcap.PartFile

/-!
# Opening, cutting and closing parts

`parts.cc`: the open loop with its retries, the conditions that cut a part, and
the close of a part, which either completes it with storage or removes it.
-/

namespace VisioSchema.Mcap

open VisioSchema.Library

namespace McapWriter

section Parts

variable (cfg : WriterConfig) (env : Env)

/-! ## Removing files -/

/-- `RemoveDurably`. -/
def removeDurably (w : McapWriter) (sync : Bool) : IoResult × McapWriter :=
  let removed := w.answer env .remove
  let w := w.storage env .remove
  if removed.error ≠ 0 ∨ sync = false then (removed, w)
  else (w.answer env .syncRemoval, w.storage env .syncRemoval)

/-- `NoteDropFailure`. -/
def noteDropFailure (w : McapWriter) : McapWriter := { w with dropFailures := w.dropFailures + 1 }

/-- `DropUnopenedPart`: whether the name is free again. -/
def dropUnopenedPart (w : McapWriter) (last : Bool) : Bool × McapWriter :=
  let removed := (w.removeDurably env last).1
  let w := (w.removeDurably env last).2
  if removed.error = 0 then (true, w) else (decide (removed.step ≠ .remove), w.noteDropFailure)

/-! ## Opening -/

/-- `PartAttempt`. -/
structure PartAttempt where
  failure : IoResult := {}
  nameTaken : Bool := false
  costs : Bool := true
  deriving DecidableEq, Repr

/-- What an attempt adds to the count of attempts, and to that of skipped names. -/
def PartAttempt.attempts (attempt : PartAttempt) : ℕ := if attempt.costs then 1 else 0

def PartAttempt.skipped (attempt : PartAttempt) : ℕ := if attempt.costs then 0 else 1

/-- What `TryOpenPart` resets before it opens the file. -/
def beginAttempt (w : McapWriter) : McapWriter :=
  { w.tock with
    primed := if cfg.policy.isSome then w.primed else []
    partMaxVideoTs := -9223372036854775808
    partBytes := 0
    partStart := w.now env
    outcome := w.outcome.begin }

def logAttempt (w : McapWriter) (costs : Bool) : McapWriter :=
  { w with log := w.log ++ [.attempted w.partIndex costs] }

/-- The branch of `TryOpenPart` for a file that did not open. -/
def refuseAttempt (w : McapWriter) (last : Bool) (opening : PartOpening) :
    PartAttempt × McapWriter :=
  let error := opening.failure.error
  if opening.created then
    let dropped := w.dropUnopenedPart env (last || endsRecording error)
    ({ failure := opening.failure, nameTaken := !dropped.1 }, dropped.2.logAttempt true)
  else
    ({ failure := opening.failure, nameTaken := error = EEXIST, costs := error ≠ EEXIST },
      w.logAttempt (error ≠ EEXIST))

/-- `WriteStoredMetadata`; its status is only logged. -/
def writeStoredMetadata (w : McapWriter) : McapWriter :=
  if w.writerOpen && w.hasMeta then w.libraryWrites cfg env else w

/-- A call into the MCAP library whose refusal throws. -/
def writeMetadata (w : McapWriter) : Run McapWriter where
  state := w.libraryWrites cfg env
  threw := !env.ok w.tick

/-- `WriteRotationMetadata`. -/
def writeRotationMetadata (w : McapWriter) : Run McapWriter :=
  if cfg.policy.isSome then w.writeMetadata cfg env else ⟨w, false⟩

/-- The branch of `TryOpenPart` for a file that opened. -/
def startPart (w : McapWriter) : Run McapWriter :=
  let opened : McapWriter :=
    { w with
      writerOpen := true
      log := w.log ++ [.opened w.partIndex w.staging.cutReason w.staging.candidatePoint] }
  ((opened.libraryWrites cfg env).writeStoredMetadata cfg env).writeRotationMetadata cfg env

/-- `TryOpenPart`. -/
def tryOpenPart (w : McapWriter) (last : Bool) : PartAttempt × Run McapWriter :=
  let opening := ((w.beginAttempt cfg env).openFile cfg env).1
  let w := ((w.beginAttempt cfg env).openFile cfg env).2
  if opening.failure.error ≠ 0 then
    ((w.refuseAttempt env last opening).1, ⟨(w.refuseAttempt env last opening).2, false⟩)
  else ({}, w.startPart cfg env)

/-- `OpenMayRetry`. -/
def openMayRetry (attempt : PartAttempt) (attempts skipped : ℕ) : Bool :=
  !endsRecording attempt.failure.error && !(attempt.nameTaken && !cfg.rotating) &&
    (attempts < 4 && skipped ≤ 16)

/-- `EndOpening`. -/
def endOpening (w : McapWriter) (failed : IoResult) : Run McapWriter :=
  let w := if endsRecording failed.error then w.note failed else w
  { state := { w with ended := true, log := w.log ++ [.gaveUp w.partIndex] }, threw := true }

/-- The next name, if this one is taken, and one more retry. -/
def retryPart (w : McapWriter) (attempt : PartAttempt) : McapWriter :=
  { w with
    partIndex := if attempt.nameTaken then w.partIndex + 1 else w.partIndex
    partOpenRetries := w.partOpenRetries + 1 }

/-- The loop of `OpenPart`, from given counts of attempts and of skipped names. -/
def openLoop (w : McapWriter) (attempts skipped : ℕ) : Run McapWriter :=
  let attempt := (w.tryOpenPart cfg env (attempts + 1 = 4)).1
  let r := (w.tryOpenPart cfg env (attempts + 1 = 4)).2
  if attempt.failure.error = 0 then r
  else
    let attempts' := attempts + attempt.attempts
    let skipped' := skipped + attempt.skipped
    if openMayRetry cfg attempt attempts' skipped' then
      (r.state.retryPart attempt).openLoop attempts' skipped'
    else r.state.endOpening attempt.failure
termination_by (4 - attempts) + (17 - skipped)
decreasing_by
  simp only [openMayRetry, PartAttempt.attempts, PartAttempt.skipped] at *
  grind

/-- `OpenPart`. -/
def openPart (w : McapWriter) : Run McapWriter := w.openLoop cfg env 0 0

/-! ## Cutting -/

/-- `MustCut`. -/
def mustCut (w : McapWriter) : Bool := cfg.rotating && 0 < w.partBytes && w.outcome.lostBytes

/-- `ShouldRoll`. -/
def shouldRoll (w : McapWriter) : Bool × McapWriter :=
  if w.partBytes = 0 then (false, w)
  else if w.mustCut cfg then (true, w)
  else if 0 < cfg.maxBytes ∧ cfg.maxBytes ≤ w.partBytes then (true, w)
  else if 0 < cfg.maxDurationNs then
    (decide (cfg.maxDurationNs ≤ w.now env - w.partStart), w.tock)
  else (false, w)

/-! ## Closing -/

/-- The start of the take is still to complete. -/
def pendingStart (w : McapWriter) : Bool :=
  cfg.policy.isSome && w.staging.startStatus != .ready

/-- `drop_part`. -/
def dropsPart (w : McapWriter) : Bool :=
  (0 < w.partIndex || w.pendingStart cfg) && w.partBytes = 0 && !w.outcome.failed

/-- The library's `close`: its last bytes, then `end`. -/
def closeWriter (w : McapWriter) : McapWriter :=
  let w := (w.libraryWrites cfg env).endFile env
  { w with physicalClosed := w.physicalClosed + w.outcome.result.accepted }

/-- The branch of `CloseCurrentPart` that removes the file. -/
def dropPart (w : McapWriter) : McapWriter :=
  let removed := (w.removeDurably env true).1
  let failed := w.outcome.result.error ≠ 0 ∨ removed.error ≠ 0
  let w := (w.removeDurably env true).2
  if failed then w.noteDropFailure else w

/-- The branch of `CloseCurrentPart` that completes the part. -/
def completePart (w : McapWriter) : McapWriter :=
  let w := w.report env .syncParent
  let completed := w.answer env (.completed w.outcome.result)
  let w := w.storage env (.completed w.outcome.result)
  { w with outcome := w.outcome.complete completed }

/-- `CloseCurrentPart`. -/
def closeCurrentPart (w : McapWriter) : McapWriter :=
  let closed := w.closeWriter cfg env
  if w.dropsPart cfg then closed.dropPart env else closed.completePart env

/-- `Roll`. -/
def roll (w : McapWriter) : Run McapWriter :=
  if w.writerOpen then
    let w := { w.closeCurrentPart cfg env with writerOpen := false }
    if w.outcome.refused then ⟨w, false⟩
    else { w with partIndex := w.partIndex + 1 }.openPart cfg env
  else ⟨w, false⟩

end Parts

end McapWriter

end VisioSchema.Mcap

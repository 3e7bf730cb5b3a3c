import Mathlib.Algebra.Ring.Int.Defs
import VisioSchema.Mcap.Storage

/-!
# The writer's state and the file of a part

The state of `McapWriter`, and `CloexecFileWriter`: every byte of a part goes
through it into storage, with the writeback spans, the checkpoints and the VREC
encryption on the way.

Storage, the clock, the MCAP library, the random source and the cipher are an
`Env`, which answers each call by its number; `Event`s log what was called.
-/

namespace VisioSchema.Mcap

open VisioSchema.Wire VisioSchema.Routing

/-! ## What the writer is built with -/

/-- `McapRotationPolicy`, as the constructor accepts it; times in nanoseconds. -/
structure RotationPolicy where
  videoIds : List ℕ
  toleranceNs : ℤ := 1000000
  maxStagedBytes : ℕ := 8 * 1024 * 1024
  maxWait : ℤ := 100000000
  startWait : ℤ := 1100000000
  idrWait : ℤ := 1000000000
  distinct : videoIds.Nodup
  tolerance_nonneg : 0 ≤ toleranceNs
  maxStagedBytes_pos : 0 < maxStagedBytes
  maxWait_nonneg : 0 ≤ maxWait
  startWait_pos : 0 < startWait

/-- The constructor's arguments.  `durationSet` is `max_duration_s > 0`, of which
`maxDurationNs` is the rounded value; `pendingSize` is `sizeof(Pending)`. -/
structure WriterConfig where
  policy : Option RotationPolicy := none
  maxBytes : ℕ := 0
  maxDurationNs : ℤ := 0
  durationSet : Bool := false
  rotateOnKeyframe : Bool := false
  pairGuardNs : ℤ := 0
  syncSpanBytes : ℕ := 0
  encrypting : Bool := false
  checkpointInterval : ℤ := 0
  pendingSize : ℕ := 400
  duration_of_pos : 0 < maxDurationNs → durationSet = true

/-- `rotating_`. -/
def WriterConfig.rotating (cfg : WriterConfig) : Bool := 0 < cfg.maxBytes || cfg.durationSet

/-- What everything outside the writer answers to its `tick`-th call: storage, the
clock, the sizes the MCAP library hands to `handleWrite`, its status, the random
source and the cipher. -/
structure Env where
  io : ℕ → StorageCall → IoResult
  made : ℕ → Bool
  now : ℕ → ℤ
  writes : ℕ → List ℕ
  ok : ℕ → Bool
  random : ℕ → Bool
  cipher : ℕ → Bool

/-! ## State -/

inductive StartStatus
  | waiting
  | ready
  | timedOut
  deriving DecidableEq, Repr

/-- `Pending`. -/
structure Pending where
  channel : Channel
  msg : RecordedMessage
  bytes : ℕ
  deriving DecidableEq, Repr

/-- The staging side of a rotation policy. -/
structure Staging where
  staged : List Pending := []
  candidateIds : List ℕ := []
  candidatePoint : SyncPoint := {}
  startTarget : SyncPoint := {}
  startStatus : StartStatus := .ready
  startDeadline : ℤ := 0
  candidateMinNs : ℤ := 0
  candidateMaxNs : ℤ := 0
  candidateDeadline : ℤ := 0
  stagedBytes : ℕ := 0
  stagedPayloadBytes : ℕ := 0
  cutReason : CutReason := .initial
  alignedCuts : ℕ := 0
  forcedCuts : ℕ := 0
  cancelledCuts : ℕ := 0
  stagePeak : ℕ := 0
  deriving DecidableEq, Repr

/-- `CloexecFileWriter`, with its file open. -/
structure PartFile where
  size : ℕ := 0
  headerBytes : ℕ := 0
  syncedOff : ℕ := 0
  prevOff : ℕ := 0
  prevLen : ℕ := 0
  syncDisabled : Bool := false
  checkpointAt : ℤ := 0
  deriving DecidableEq, Repr

def PartFile.fileSize (file : PartFile) : ℕ := file.size + file.headerBytes

/-- `McapWriter`, its number of calls and the log of its events.  `hasMeta` is a
nonempty `meta_`. -/
structure McapWriter where
  staging : Staging := {}
  outcome : PartOutcome := {}
  file : Option PartFile := none
  writerOpen : Bool := false
  closed : Bool := false
  ended : Bool := false
  hasMeta : Bool := false
  partIndex : ℕ := 0
  partBytes : ℕ := 0
  partStart : ℤ := 0
  partMaxVideoTs : ℤ := -9223372036854775808
  primed : List ℕ := []
  everPrimed : List ℕ := []
  physicalClosed : ℕ := 0
  bytesWritten : ℕ := 0
  videoFramesWritten : ℕ := 0
  keyframeGated : ℕ := 0
  startupDropped : ℕ := 0
  dropFailures : ℕ := 0
  partOpenRetries : ℕ := 0
  tick : ℕ := 0
  log : List Event := []
  deriving DecidableEq

/-! ## Calls -/

namespace McapWriter

section Calls

variable (env : Env) (w : McapWriter)

/-- What the clock says next. -/
def now : ℤ := env.now w.tick

/-- What storage answers next. -/
def answer (call : StorageCall) : IoResult := env.io w.tick call

/-- A call that leaves no trace in the log: of the clock, the random source, the cipher. -/
def tock : McapWriter := { w with tick := w.tick + 1 }

/-- A call into storage about the current part. -/
def storage (call : StorageCall) : McapWriter :=
  { w with
    tick := w.tick + 1
    log := w.log ++ [.called w.partIndex call (w.answer env call)] }

def note (failure : IoResult) : McapWriter := { w with outcome := w.outcome.note failure }

/-- A call whose failure is the part's. -/
def report (call : StorageCall) : McapWriter :=
  if (w.answer env call).error ≠ 0 then (w.storage env call).note (w.answer env call)
  else w.storage env call

def setFile (update : PartFile → PartFile) : McapWriter :=
  { w with file := w.file.map update }

end Calls

/-! ## Writing -/

/-- `RoundDownToPage`. -/
def roundDownToPage (n : ℕ) : ℕ := n - n % 4096

/-- `sync_span_bytes_`, at least a page. -/
def syncSpanBytes (cfg : WriterConfig) : ℕ :=
  if cfg.syncSpanBytes = 0 then 0 else max cfg.syncSpanBytes 4096

/-- `WritebackFailed`: writeback that is not offered stops the bounding. -/
def writebackFailed (w : McapWriter) (error : ℕ) : McapWriter :=
  if writebackUnsupported error then w.setFile fun file => { file with syncDisabled := true }
  else w.note { step := .writeback, error := error, uncertain := true }

section Writing

variable (cfg : WriterConfig) (env : Env)

/-- `checkpoint_at_`, from the clock. -/
def stampFile (w : McapWriter) : McapWriter :=
  w.tock.setFile fun file => { file with checkpointAt := w.now env }

/-- One `Writeback`, if it is the last of a span, and what its failure costs. -/
def writebackLast (w : McapWriter) (wait : Bool) : McapWriter :=
  let error := (w.answer env (.writeback wait)).error
  let w := w.storage env (.writeback wait)
  if error ≠ 0 then w.writebackFailed error else w

/-- The span goes to writeback, and the one before it is waited out. -/
def writeSpan (w : McapWriter) (file : PartFile) (stop : ℕ) : McapWriter :=
  let written :=
    if (w.answer env (.writeback false)).error = 0 ∧ 0 < file.prevLen then
      (w.storage env (.writeback false)).writebackLast env true
    else w.writebackLast env false
  written.setFile fun file =>
    { file with prevOff := file.syncedOff, prevLen := stop - file.syncedOff, syncedOff := stop }

/-- `SyncSpan`. -/
def syncSpan (w : McapWriter) (file : PartFile) : McapWriter :=
  let flushed := w.answer env .flush
  let w := w.report env .flush
  if flushed.error ≠ 0 then
    w.setFile fun file => { file with syncedOff := roundDownToPage file.fileSize, prevLen := 0 }
  else if file.syncDisabled then
    w.setFile fun file => { file with syncedOff := roundDownToPage file.fileSize }
  else if roundDownToPage file.fileSize ≤ file.syncedOff then w
  else w.writeSpan env file (roundDownToPage file.fileSize)

def syncSpanIfDue (w : McapWriter) : McapWriter :=
  match w.file with
  | some file =>
      if 0 < syncSpanBytes cfg ∧ syncSpanBytes cfg ≤ file.fileSize - file.syncedOff then
        w.syncSpan env file
      else w
  | none => w

def checkpointIfDue (w : McapWriter) : McapWriter :=
  match w.file with
  | some file =>
      if 0 < cfg.checkpointInterval then
        if cfg.checkpointInterval ≤ w.now env - file.checkpointAt then
          (w.tock.report env .checkpoint).stampFile env
        else w.tock
      else w
  | none => w

/-- `WriteBytes`; what landed is what storage answers. -/
def writeBytes (w : McapWriter) (slice size : ℕ) : McapWriter :=
  let result := w.answer env (.append slice size)
  let w := w.storage env (.append slice size)
  let w := if result.error ≠ 0 ∨ result.accepted ≠ size then w.note result else w
  let w := w.setFile fun file => { file with size := file.size + result.accepted }
  (w.syncSpanIfDue cfg env).checkpointIfDue cfg env

/-- The slices that `handleWrite` encrypts one by one, numbered. -/
def slices (size : ℕ) : List (ℕ × ℕ) :=
  (List.replicate (size / 65536) 65536 ++
    if size % 65536 = 0 then [] else [size % 65536]).zipIdx

/-- A slice that cannot be encrypted, or does not land whole, is the last. -/
def writeSlices (w : McapWriter) : List (ℕ × ℕ) → McapWriter
  | [] => w
  | (n, slice) :: rest =>
      if env.cipher w.tick then
        let landed := (w.tock.answer env (.append slice n)).accepted
        let w := w.tock.writeBytes cfg env slice n
        if landed ≠ n then w else w.writeSlices rest
      else
        { w.tock with log := w.log ++ [Event.encryptFailed w.partIndex] }.note
          { step := .append, error := EIO, uncertain := true }

/-- `handleWrite`. -/
def handleWrite (w : McapWriter) (size : ℕ) : McapWriter :=
  if w.file.isNone || w.outcome.refused then w
  else if cfg.encrypting then w.writeSlices cfg env (slices size)
  else w.writeBytes cfg env 0 size

/-- A call into the MCAP library, which writes as it sees fit. -/
def libraryWrites (w : McapWriter) : McapWriter :=
  (env.writes w.tick).foldl (fun w size => w.handleWrite cfg env size) w.tock

/-! ## Opening and closing the file -/

/-- `end`. -/
def endFile (w : McapWriter) : McapWriter :=
  if w.file.isNone then w
  else
    let w := w.report env .checkpoint
    let bytes := (w.answer env .close).accepted
    let w := w.report env .close
    { w with file := none, outcome := w.outcome.closed bytes }

/-- `Discard`: nothing of a part that never opened is reported. -/
def discard (w : McapWriter) : McapWriter :=
  if w.file.isNone then w else { w.storage env .discard with file := none }

/-- `BeginVrec`: the failure, if any. -/
def beginVrec (w : McapWriter) : IoResult × McapWriter :=
  let refusal : IoResult := { step := .open, error := EIO, uncertain := true }
  if env.random w.tick then
    let wrote := w.tock.answer env .header
    let w := w.tock.storage env .header
    if wrote.error ≠ 0 ∨ wrote.accepted ≠ 32 then (explained wrote, w)
    else
      let w := w.setFile fun file => { file with headerBytes := 32 }
      (if env.cipher w.tick then {} else refusal, w.tock)
  else (refusal, w.tock)

/-- The failure that `Create` returns; one without an errno is explained. -/
def createFailure (w : McapWriter) : IoResult :=
  if env.made w.tick then {} else explained (w.answer env .create)

/-- `Create`. -/
def create (w : McapWriter) : McapWriter :=
  { w with
    tick := w.tick + 1
    log := w.log ++ [.called w.partIndex .create (w.createFailure env)]
    file := if env.made w.tick then some {} else none }

/-- `PartOpening`: the failure, and whether a file was made. -/
structure PartOpening where
  failure : IoResult := {}
  created : Bool := false
  deriving DecidableEq, Repr

/-- `CloexecFileWriter::open`. -/
def openFile (w : McapWriter) : PartOpening × McapWriter :=
  if env.made w.tick then
    let w := (w.create env).stampFile env
    if cfg.encrypting then
      let failure := (w.beginVrec env).1
      let w := (w.beginVrec env).2
      if failure.error ≠ 0 then ({ failure := failure, created := true }, w.discard env)
      else ({ created := true }, w)
    else ({ created := true }, w)
  else ({ failure := w.createFailure env }, w.create env)

end Writing

end McapWriter

end VisioSchema.Mcap

import VisioSchema.Library.MirrorRing
import VisioSchema.Library.Runs
import VisioSchema.Mcap.PartFile

/-!
# Reading back what the medium holds

`SpanReadback`: every byte the sink writes is also copied into a ring; a span that was written
back and evicted is queued, read from the medium and compared with the ring, rewritten once on
a mismatch and read again.  The writer's thread and the stepping one take turns at single
memory accesses, in any order; a call of the writer is made when the last one has returned.
-/

namespace VisioSchema.Mcap

open VisioSchema.Library VisioSchema.Wire

/-- `RoundUpToPage`. -/
def roundUpToPage (n : ℕ) : ℕ := McapWriter.roundDownToPage (n + 4095)

/-- How many pieces `close_flush_ms` gives `Finish` time for is up to the schedule. -/
structure McapReadbackOptions where
  ringBytes : ℕ := 0
  settleBytes : ℕ := 1048576
  pieceBytes : ℕ := 262144
  deriving DecidableEq, Repr

/-- `ring_bytes_`. -/
def McapReadbackOptions.ringSize (o : McapReadbackOptions) : ℕ :=
  roundUpToPage (max o.ringBytes 4096)

/-- `piece_bytes_`. -/
def McapReadbackOptions.pieceSize (o : McapReadbackOptions) : ℕ :=
  roundUpToPage (max o.pieceBytes 4096)

structure McapReadbackStats where
  spansVerified : ℕ := 0
  bytesVerified : ℕ := 0
  spansMismatched : ℕ := 0
  spansRewrittenOk : ℕ := 0
  spansUnrepaired : ℕ := 0
  spansSkipped : ℕ := 0
  readFailed : ℕ := 0
  maxLagBytes : ℕ := 0
  deriving DecidableEq, Repr

/-- A part stands for its path, and has the number of its `BeginPart`; `id` is the number of
the offer. -/
structure Span where
  part : ℕ
  fileOff : ℕ
  len : ℕ
  ringPos : ℕ
  id : ℕ
  deriving DecidableEq, Repr

inductive ReadbackPass
  | verify
  | rewrite
  | reverify
  deriving DecidableEq, Repr

structure InFlight where
  span : Span
  pass : ReadbackPass
  done : ℕ
  deriving DecidableEq, Repr

/-- What became of a span. -/
inductive Verdict
  | verified
  | unrepaired
  | skipped
  | readFailed
  deriving DecidableEq, Repr

/-- Where the writer is in a call. -/
inductive WriterAt
  | idle
  | copying (pos : ℕ) (src : List Byte) (i : ℕ)
  | publishing (stop : ℕ)
  deriving DecidableEq, Repr

/-- Where the stepping thread is in a piece; bytes read from the medium are by file offset. -/
inductive StepperAt
  | idle
  | comparing (got : ℕ → Byte) (i : ℕ)
  | compared (got : ℕ → Byte) (differs : Bool)
  | copying (bytes : List Byte)
  | writing (bytes : List Byte)

def StepperAt.isIdle : StepperAt → Bool
  | .idle => true
  | _ => false

/-- A read that was counted as a mismatch. -/
structure Mismatch where
  part : ℕ
  fileOff : ℕ
  len : ℕ
  got : ℕ → Byte

/-- Bytes that were put into a part's file, or of which a failed write put some. -/
structure Put where
  part : ℕ
  fileOff : ℕ
  bytes : List Byte
  deriving DecidableEq, Repr

/-- What happened so far, beside what the program keeps: the bytes of each part's file and the
ring position of its first, and the spans offered with what became of them. -/
structure ReadbackHistory where
  files : ℕ → List Byte := fun _ => []
  bases : ℕ → ℕ := fun _ => 0
  offered : ℕ := 0
  verdicts : List (ℕ × Verdict) := []
  disabled : ℕ := 0
  mismatches : List Mismatch := []
  puts : List Put := []

structure SpanReadback where
  options : McapReadbackOptions
  /-- Whether the constructor got its buffers. -/
  allocated : Bool
  /-- Whether `Finish` has let go of them. -/
  released : Bool := false
  ring : ℕ → Byte := fun _ => 0
  head : ℕ := 0
  reserve : ℕ := 0
  part : ℕ := 0
  partBase : ℕ := 0
  pendingTail : Option Span := none
  /-- The spans from the pop index to the push index. -/
  queue : List Span := []
  noMoreWrites : Bool := false
  inFlight : Option InFlight := none
  stats : McapReadbackStats := {}
  storageFault : Bool := false
  writer : WriterAt := .idle
  stepper : StepperAt := .idle
  history : ReadbackHistory := {}

/-- How the system answers a piece: whether the part opens (else, whether for EIO), what its
read comes to, whether its write succeeds. -/
inductive PieceRead
  | ok (got : ℕ → Byte)
  | shortFile
  | error (eio : Bool)

structure Medium where
  openError : Option Bool := none
  reads : PieceRead := .shortFile
  writes : Bool := true

/-- The counters of a span's end. -/
def McapReadbackStats.count (stats : McapReadbackStats) (len : ℕ) : Verdict → McapReadbackStats
  | .verified => { stats with
      spansVerified := stats.spansVerified + 1, bytesVerified := stats.bytesVerified + len }
  | .unrepaired => { stats with spansUnrepaired := stats.spansUnrepaired + 1 }
  | .skipped => { stats with spansSkipped := stats.spansSkipped + 1 }
  | .readFailed => { stats with readFailed := stats.readFailed + 1 }

namespace SpanReadback

variable (s : SpanReadback)

/-- `ring_` is not null. -/
def on : Bool := s.allocated && !s.released

def ringSize : ℕ := s.options.ringSize

/-! ## The writer's side -/

/-- A span's end. -/
def settle (sp : Span) (verdict : Verdict) : SpanReadback :=
  { s with
    stats := s.stats.count sp.len verdict
    history := { s.history with verdicts := s.history.verdicts ++ [(sp.id, verdict)] } }

/-- `Enqueue`. -/
def enqueue (sp : Span) : SpanReadback :=
  if s.on = false then s
  else if s.ringSize < sp.len then s.settle sp .skipped
  else if s.queue.length = 64 then s.settle sp .skipped
  else { s with queue := s.queue ++ [sp] }

/-- The span of the current part that an offer names. -/
def offer (fileOff len : ℕ) : Span × SpanReadback :=
  (⟨s.part, fileOff, len, s.partBase + fileOff, s.history.offered⟩,
    { s with history := { s.history with offered := s.history.offered + 1 } })

/-- `pending_tail_` is given up. -/
def skipTail : SpanReadback :=
  match s.pendingTail with
  | some sp => { s.settle sp .skipped with pendingTail := none }
  | none => s

/-- `BeginPart`, up to the publication of the head. -/
def beginPart : SpanReadback :=
  let s := s.skipTail
  let base := roundUpToPage s.head
  { s with
    part := s.part + 1
    partBase := base
    reserve := base
    writer := .publishing base
    history := { s.history with bases := Function.update s.history.bases (s.part + 1) base } }

/-- `OnBytesWritten`, up to the reservation; of a huge write only the newest ring's worth is
copied. -/
def onBytesWritten (fileOff : ℕ) (data : List Byte) : SpanReadback :=
  let s := { s with history := { s.history with
    files := Function.update s.history.files s.part (s.history.files s.part ++ data) } }
  if s.on = false ∨ data = [] then s
  else
    let drop := data.length - s.ringSize
    { s with
      reserve := s.partBase + fileOff + data.length
      writer := .copying (s.partBase + fileOff + drop) (data.drop drop) 0 }

/-- The writer's next access: a byte copied into the ring, or the head published. -/
def writerStep : SpanReadback :=
  match s.writer with
  | .idle => s
  | .copying pos src i =>
      match src[i]? with
      | some b =>
          { s with
            ring := Function.update s.ring (sliceCell s.ringSize pos src.length i) b
            writer := .copying pos src (i + 1) }
      | none => { s with head := pos + src.length, writer := .idle }
  | .publishing stop => { s with head := stop, writer := .idle }

/-- `OnSpanEvicted`. -/
def onSpanEvicted (fileOff len : ℕ) : SpanReadback :=
  let (sp, s) := s.offer fileOff len
  s.enqueue sp

/-- `OnSyncDisabled`. -/
def onSyncDisabled : SpanReadback :=
  { s with
    stats := { s.stats with spansSkipped := s.stats.spansSkipped + 1 }
    history := { s.history with disabled := s.history.disabled + 1 } }

/-- `NotePartEnd`. -/
def notePartEnd (unverifiedFrom fileSize : ℕ) (syncDisabled : Bool) : SpanReadback :=
  if fileSize ≤ unverifiedFrom then s
  else
    let (sp, s) := s.offer unverifiedFrom (fileSize - unverifiedFrom)
    if syncDisabled then s.settle sp .skipped else { s with pendingTail := some sp }

/-- `CommitTail`. -/
def commitTail : SpanReadback :=
  match s.pendingTail with
  | some sp => { s.enqueue sp with pendingTail := none }
  | none => s

/-! ## The stepping side -/

/-- One turn of the loop of `StartNextSpan`. -/
def startNextSpan : SpanReadback :=
  match s.queue with
  | [] => s
  | sp :: rest =>
      if s.ringSize < s.head - sp.ringPos then { s.settle sp .skipped with queue := rest }
      else if s.noMoreWrites = false ∧ s.head - (sp.ringPos + sp.len) < s.options.settleBytes then s
      else
        { s with
          inFlight := some ⟨sp, .verify, 0⟩
          stats := { s.stats with
            maxLagBytes := max s.stats.maxLagBytes (s.head - (sp.ringPos + sp.len)) } }

/-- `FinishSpan`. -/
def finishSpan : SpanReadback :=
  { s with inFlight := none, queue := s.queue.tail, stepper := .idle }

/-- `NoteUnrepaired`. -/
def noteUnrepaired (sp : Span) : SpanReadback :=
  { s.settle sp .unrepaired with storageFault := true }

/-- `AbandonInFlight`. -/
def abandonInFlight (c : InFlight) : SpanReadback :=
  if c.pass = .verify then s.settle c.span .skipped else s.noteUnrepaired c.span

/-- `NoteReadFailed`; `eio` is an error, and EIO. -/
def noteReadFailed (c : InFlight) (eio : Bool) : SpanReadback :=
  if c.pass ≠ .verify ∨ eio then s.noteUnrepaired c.span else s.settle c.span .readFailed

/-- `SpanStillInRing`. -/
def spanStillInRing (sp : Span) : Prop := s.reserve - sp.ringPos ≤ s.ringSize

instance (sp : Span) : Decidable (s.spanStillInRing sp) := Nat.decLe _ _

def pieceLen (c : InFlight) : ℕ := min s.options.pieceSize (c.span.len - c.done)

/-- The ring's byte of the piece. -/
def ringByte (c : InFlight) (i : ℕ) : Byte :=
  s.ring (sliceCell s.ringSize (c.span.ringPos + c.done) (s.pieceLen c) i)

/-- `RunPiece`, up to the compare or the copy. -/
def runPiece (c : InFlight) (m : Medium) : SpanReadback :=
  match m.openError with
  | some eio => (s.noteReadFailed c eio).finishSpan
  | none =>
      if c.pass = .rewrite then { s with stepper := .copying [] }
      else
        match m.reads with
        | .ok got => { s with stepper := .comparing got 0 }
        | .shortFile => (s.noteReadFailed c false).finishSpan
        | .error eio => (s.noteReadFailed c eio).finishSpan

/-- `FindFirstDiffAgainstRing`, one byte on. -/
def compareByte (c : InFlight) (got : ℕ → Byte) (i : ℕ) : SpanReadback :=
  if i < s.pieceLen c then
    if got (c.span.fileOff + c.done + i) = s.ringByte c i then
      { s with stepper := .comparing got (i + 1) }
    else { s with stepper := .compared got true }
  else { s with stepper := .compared got false }

/-- The span goes on at the next piece. -/
def continueSpan (c : InFlight) : SpanReadback :=
  { s with inFlight := some c, stepper := .idle }

/-- `spans_verified_`, and what follows it. -/
def verifySpan (c : InFlight) : SpanReadback :=
  let s := s.settle c.span .verified
  finishSpan (if c.pass = .reverify then
    { s with stats := { s.stats with spansRewrittenOk := s.stats.spansRewrittenOk + 1 } }
  else s)

/-- A mismatch of the first pass: the span is to be rewritten. -/
def noteMismatch (c : InFlight) (got : ℕ → Byte) : SpanReadback :=
  { s with
    stats := { s.stats with spansMismatched := s.stats.spansMismatched + 1 }
    inFlight := some { c with pass := .rewrite, done := 0 }
    stepper := .idle
    history := { s.history with mismatches := s.history.mismatches ++
      [⟨c.span.part, c.span.fileOff + c.done, s.pieceLen c, got⟩] } }

/-- `VerifyPiece`, from the compare on. -/
def verifyPiece (c : InFlight) (got : ℕ → Byte) (differs : Bool) : SpanReadback :=
  if ¬ s.spanStillInRing c.span then (s.abandonInFlight c).finishSpan
  else if differs then
    if c.pass = .verify then s.noteMismatch c got else (s.noteUnrepaired c.span).finishSpan
  else if c.done + s.pieceLen c < c.span.len then
    s.continueSpan { c with done := c.done + s.pieceLen c }
  else s.verifySpan c

/-- `CopyFromRing`, one byte on, and the check that nothing tore it. -/
def copyByte (c : InFlight) (bytes : List Byte) : SpanReadback :=
  if bytes.length < s.pieceLen c then
    { s with stepper := .copying (bytes ++ [s.ringByte c bytes.length]) }
  else if ¬ s.spanStillInRing c.span then (s.abandonInFlight c).finishSpan
  else { s with stepper := .writing bytes }

def recordPut (put : Put) : SpanReadback :=
  { s with history := { s.history with puts := s.history.puts ++ [put] } }

/-- `RewritePiece`, from the write on. -/
def rewritePiece (c : InFlight) (bytes : List Byte) (writes : Bool) : SpanReadback :=
  let s := s.recordPut ⟨c.span.part, c.span.fileOff + c.done, bytes⟩
  if writes = false then (s.noteUnrepaired c.span).finishSpan
  else if c.done + s.pieceLen c < c.span.len then
    s.continueSpan { c with done := c.done + s.pieceLen c }
  else s.continueSpan { c with pass := .reverify, done := 0 }

/-- The stepping thread's next access, in `Step` or in `Finish`. -/
def stepperStep (m : Medium) : SpanReadback :=
  if s.on = false then s
  else
    match s.inFlight, s.stepper with
    | none, _ => s.startNextSpan
    | some c, .idle => s.runPiece c m
    | some c, .comparing got i => s.compareByte c got i
    | some c, .compared got differs => s.verifyPiece c got differs
    | some c, .copying bytes => s.copyByte c bytes
    | some c, .writing bytes => s.rewritePiece c bytes m.writes

/-- `Finish`, up to its steps: it has the lock, so that no piece is under way. -/
def finish : SpanReadback := { s with noMoreWrites := true }

/-- The queue's spans are given up. -/
def skipQueue : SpanReadback :=
  { s.queue.foldl (fun s sp => s.settle sp .skipped) s with queue := [] }

/-- The span in flight, if there is one, is given up. -/
def giveUpFlight : SpanReadback :=
  match s.inFlight with
  | some c => (s.abandonInFlight c).finishSpan
  | none => s

/-- `Finish`, from its steps on. -/
def finishEnd : SpanReadback :=
  let s :=
    match s.inFlight with
    | some c => (s.abandonInFlight c).finishSpan
    | none => s
  { s.skipQueue.skipTail with released := true }

theorem finishEnd_eq : s.finishEnd = { s.giveUpFlight.skipQueue.skipTail with released := true } :=
  rfl

/-! ## Runs -/

/-- A call of the writer, an access of one of the threads, or a half of `Finish`. -/
inductive Event
  | beginPart
  | onBytesWritten (fileOff : ℕ) (data : List Byte)
  | onSpanEvicted (fileOff len : ℕ)
  | onSyncDisabled
  | notePartEnd (unverifiedFrom fileSize : ℕ) (syncDisabled : Bool)
  | commitTail
  | finish
  | writer
  | stepper (m : Medium)
  | finishEnd

/-- The writer's thread can make a call; `Finish` is its last. -/
def callable : Prop := s.writer = .idle ∧ s.noMoreWrites = false

instance : Decidable s.callable := inferInstanceAs (Decidable (_ ∧ _))

/-- `Finish` is between two pieces. -/
def finishable : Prop :=
  s.noMoreWrites = true ∧ s.stepper.isIdle = true ∧ s.released = false

instance : Decidable s.finishable := inferInstanceAs (Decidable (_ ∧ _ ∧ _))

def call : Event → SpanReadback
  | .beginPart => s.beginPart
  | .onBytesWritten fileOff data => s.onBytesWritten fileOff data
  | .onSpanEvicted fileOff len => s.onSpanEvicted fileOff len
  | .onSyncDisabled => s.onSyncDisabled
  | .notePartEnd unverifiedFrom fileSize syncDisabled =>
      s.notePartEnd unverifiedFrom fileSize syncDisabled
  | .commitTail => s.commitTail
  | .finish => if s.stepper.isIdle then s.finish else s
  | _ => s

/-- A thread whose turn it is not, or that waits for the lock, does nothing. -/
def step (event : Event) : SpanReadback :=
  match event with
  | .writer => s.writerStep
  | .stepper m => s.stepperStep m
  | .finishEnd => if s.finishable then s.finishEnd else s
  | event => if s.callable then s.call event else s

/-- What the sink keeps to: bytes are appended, spans lie in what was written, and a part's
stream ends once. -/
def Obeys (event : Event) : Prop :=
  match event with
  | .onBytesWritten fileOff _ => s.callable → fileOff = (s.history.files s.part).length
  | .onSpanEvicted fileOff len => s.callable → fileOff + len ≤ (s.history.files s.part).length
  | .notePartEnd _ fileSize _ =>
      s.callable → fileSize ≤ (s.history.files s.part).length ∧ s.pendingTail = none
  | _ => True

/-- The constructor, with buffers or without. -/
def start (options : McapReadbackOptions) (allocated : Bool) : SpanReadback where
  options := options
  allocated := allocated

end SpanReadback

end VisioSchema.Mcap

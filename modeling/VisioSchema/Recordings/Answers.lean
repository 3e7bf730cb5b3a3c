import VisioSchema.Recordings.Pull

/-!
# Pulls from any answer

What comes back to a pull is checked by the client alone.  Here an open is answered in any way:
`PullFile` and `pull_file` run against a list of replies and reads, each in its own arithmetic.
C++ adds the fields of an answer in 64 bits; Python's integers do not wrap.
-/

namespace VisioSchema.Recordings

open VisioSchema.Wire

/-! ## The two clients -/

inductive Puller
  | cpp
  | python
  deriving DecidableEq, Repr

def word64 : ℕ := 18446744073709551616

/-- A reply to an open, and what its data socket reads. -/
structure Answered where
  reply : Reply
  reads : List SocketRead := []
  deriving DecidableEq, Repr

/-- Bytes handed to the sink, and whether it took them. -/
structure Handed where
  offset : ℕ
  bytes : List Byte
  taken : Bool
  deriving DecidableEq, Repr

/-- What a pull keeps between two opens. -/
structure Pulled where
  offset : ℕ
  expect : Identity
  idleOpens : ℤ := 0
  lastOpen : Option RecordingFileOpen := none
  sunk : List Handed := []
  deriving DecidableEq, Repr

/-- How many bytes one `recv` asks for. -/
def want (opened : RecordingFileOpen) (received : ℕ) : ℕ :=
  min kBufferBytes (opened.length - received)

namespace Puller

/-- `+` on offsets: `uint64_t` or `int`. -/
def add : Puller → ℕ → ℕ → ℕ
  | .cpp, a, b => (a + b) % word64
  | .python, a, b => a + b

/-- What the clients do each in their own way. -/
def client : Puller → Client
  | .cpp =>
      { carries := fun file => { size := file.size, mtimeNs := file.mtimeNs }
        targetFits := fun target => decide (target.length < 32) && !target.contains 0
        invalid := .failed "invalid_request"
        noAnswer := .failed "no_answer"
        sinkFailed := .failed "sink" }
  | .python =>
      { carries := id
        targetFits := fun _ => true
        invalid := .raised
        noAnswer := .raised
        sinkFailed := .raised }

variable (p : Puller)

/-- The check of an answer against the offset that was asked for. -/
def describesRange (opened : RecordingFileOpen) (offset : ℕ) : Bool :=
  opened.offset == offset && p.add opened.offset opened.length == opened.file.size

/-- `Receive`, from `received` bytes on. -/
def receive (opened : RecordingFileOpen) : ℕ → List SocketRead → List Handed × Received
  | received, [] => ([], { received := received })
  | received, read :: reads =>
      if opened.length ≤ received then ([], { received := received })
      else
        match read with
        | .interrupted => receive opened received reads
        | .failed errno => ([], { received := received, error := errno })
        | .data bytes sinkTakes =>
            let got := bytes.take (want opened received)
            let handed : Handed :=
              { offset := p.add opened.offset received, bytes := got, taken := sinkTakes }
            if got = [] then ([], { received := received })
            else if sinkTakes = false then ([handed], { received := received, sinkFailed := true })
            else
              let result := receive opened (received + got.length) reads
              (handed :: result.1, result.2)

variable (request : PullRequest)

/-- The loop after a good answer: receive, then go on or end. -/
def afterOpen (pulled : Pulled) (opened : RecordingFileOpen) (reads : List SocketRead) :
    Pulled × Option Ending :=
  let pinned := { pulled with lastOpen := some opened, expect := p.client.carries opened.file }
  if opened.length = 0 then (pinned, some .complete)
  else
    let got := (p.receive opened 0 reads).2
    let moved :=
      { pinned with offset := p.add pulled.offset got.received
                    sunk := pulled.sunk ++ (p.receive opened 0 reads).1 }
    if got.sinkFailed then (moved, some p.client.sinkFailed)
    else if moved.offset = opened.file.size then (moved, some .complete)
    else if got.received ≠ 0 then ({ moved with idleOpens := 0 }, none)
    else
      let idle := { moved with idleOpens := pulled.idleOpens + 1 }
      if request.maxOpensWithoutProgress ≤ idle.idleOpens then
        (idle, some (.failed "no_progress"))
      else (idle, none)

/-- One pass of the loop: an open, its answer and, if that is good, its bytes. -/
def attempt (pulled : Pulled) (turn : Answered) : Pulled × Option Ending :=
  let named := plainName request.sessionName && plainName request.fileName
  if (named && p.client.targetFits request.targetDevice) = false then
    (pulled, some p.client.invalid)
  else
    match turn.reply with
    | .noAnswer => (pulled, some p.client.noAnswer)
    | .refused errorCode =>
        (pulled, some (.failed (if errorCode = "" then "failed" else errorCode)))
    | .otherPayload => (pulled, some (.failed "protocol"))
    | .fileOpen opened =>
        if p.describesRange opened pulled.offset = false then (pulled, some (.failed "protocol"))
        else p.afterOpen request pulled opened turn.reads

/-- The loop. -/
def pullFrom : Pulled → List Answered → Pulled × Ending
  | pulled, [] => (pulled, .pulling)
  | pulled, turn :: turns =>
      match p.attempt request pulled turn with
      | (pulled, some ending) => (pulled, ending)
      | (pulled, none) => pullFrom pulled turns

/-- `PullFile` / `pull_file`. -/
def pullFile (turns : List Answered) : Pulled × Ending :=
  p.pullFrom request { offset := request.offset, expect := p.client.carries request.expect } turns

end Puller

/-! ## The check of an answer -/

/-- The fields of an answer have 64 bits. -/
structure RecordingFileOpen.Fits (opened : RecordingFileOpen) : Prop where
  offset : opened.offset < word64
  length : opened.length < word64
  size : opened.file.size < word64

/-- The answer is about the requested offset, and its range ends with the file. -/
def RecordingFileOpen.Exact (opened : RecordingFileOpen) (offset : ℕ) : Prop :=
  opened.offset = offset ∧ opened.offset + opened.length = opened.file.size

/-- The range of the answer ends `2^64` bytes past the file. -/
def RecordingFileOpen.Wraps (opened : RecordingFileOpen) : Prop :=
  opened.offset + opened.length = opened.file.size + word64

/-- `PullFile` goes on from the exact answers alone, as `pull_file` does, and then never asks the
socket for more than the rest of the file. -/
structure CheckedExactly (opened : RecordingFileOpen) (offset : ℕ) : Prop where
  goesOn : Puller.cpp.describesRange opened offset = true ↔ opened.Exact offset
  alike : Puller.cpp.describesRange opened offset = Puller.python.describesRange opened offset
  asks : Puller.cpp.describesRange opened offset = true → ∀ received, received < opened.length →
    received + want opened received ≤ opened.file.size - offset

variable {opened : RecordingFileOpen} {offset : ℕ}

theorem describesRange_python :
    Puller.python.describesRange opened offset = true ↔ opened.Exact offset := by
  simp [Puller.describesRange, Puller.add, RecordingFileOpen.Exact]

/-- Two 64-bit numbers add up to a third, or to `2^64` more. -/
theorem describesRange_cpp (hfits : opened.Fits) :
    Puller.cpp.describesRange opened offset = true ↔
      opened.Exact offset ∨ opened.offset = offset ∧ opened.Wraps := by
  obtain ⟨hoffset, hlength, hsize⟩ := hfits
  simp only [Puller.describesRange, Puller.add, RecordingFileOpen.Exact, RecordingFileOpen.Wraps,
    Bool.and_eq_true, beq_iff_eq]
  unfold word64 at *
  omega

theorem RecordingFileOpen.Exact.asks (hexact : opened.Exact offset) {received : ℕ}
    (hreceived : received < opened.length) :
    received + want opened received ≤ opened.file.size - offset := by
  obtain ⟨hoffset, hsum⟩ := hexact
  have hwant : want opened received ≤ opened.length - received := Nat.min_le_right _ _
  omega

/-- The sum that C++ checks wraps, or else the check is exact. -/
theorem checkedExactly_iff (opened : RecordingFileOpen) (offset : ℕ) (hfits : opened.Fits) :
    CheckedExactly opened offset ↔ ¬ (opened.offset = offset ∧ opened.Wraps) := by
  constructor
  · rintro hchecked ⟨hoffset, hwraps⟩
    have hexact := hchecked.goesOn.mp ((describesRange_cpp hfits).mpr (Or.inr ⟨hoffset, hwraps⟩))
    have hsum := hexact.2
    unfold RecordingFileOpen.Wraps word64 at hwraps
    omega
  · intro hno
    have hgoesOn : Puller.cpp.describesRange opened offset = true ↔ opened.Exact offset := by
      rw [describesRange_cpp hfits]
      exact or_iff_left hno
    refine ⟨hgoesOn, ?_, fun hgoes received hreceived => (hgoesOn.mp hgoes).asks hreceived⟩
    rw [Bool.eq_iff_iff, hgoesOn, describesRange_python]

/-- The last 4 of 7 bytes. -/
def tailAnswer : RecordingFileOpen :=
  { port := 50002, offset := 3, length := 4, file := { size := 7 } }

theorem checkedExactly_iff_tail :
    CheckedExactly tailAnswer 3 ↔ ¬ (tailAnswer.offset = 3 ∧ tailAnswer.Wraps) :=
  checkedExactly_iff tailAnswer 3 ⟨by decide, by decide, by decide⟩

/-- A range of `2^64 - 1` bytes from offset 2 of a file of one byte. -/
def wrappingAnswer : RecordingFileOpen :=
  { port := 50002, offset := 2, length := 18446744073709551615, file := { size := 1 } }

/-- C++ takes it. -/
theorem not_checkedExactly :
    wrappingAnswer.Fits ∧ Puller.cpp.describesRange wrappingAnswer 2 = true ∧
      Puller.python.describesRange wrappingAnswer 2 = false ∧
      ¬ CheckedExactly wrappingAnswer 2 := by
  have hgoes : Puller.cpp.describesRange wrappingAnswer 2 = true := by decide
  refine ⟨⟨by decide, by decide, by decide⟩, hgoes, by decide, fun hchecked => ?_⟩
  exact absurd (hchecked.goesOn.mp hgoes).2 (by decide)

end VisioSchema.Recordings

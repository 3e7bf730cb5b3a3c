import Mathlib.Data.List.Basic
import VisioSchema.Wire.Message

/-!
# Pulling a recording

The pull of one recorded file (`wire/recordings`): the device's answer to an open
(`recordings_pull.md`, section 2), the read of the data socket, and the retry loop of
the three clients.  A pull runs against a list of turns, one for each open.
-/

namespace VisioSchema.Recordings

open VisioSchema.Wire

/-! ## Messages -/

/-- What tells a file from its replacement.  In a request a zero is unchecked. -/
structure Identity where
  size : ℕ := 0
  mtimeNs : ℕ := 0
  objectVersion : ℕ := 0
  catalogueGeneration : ℕ := 0
  deriving DecidableEq, Repr

structure OpenRecordingFile where
  targetDevice : List Byte
  sessionName : List Byte
  fileName : List Byte
  offset : ℕ
  expect : Identity
  deriving DecidableEq, Repr

structure RecordingFileOpen where
  port : ℕ
  offset : ℕ
  length : ℕ
  file : Identity
  deriving DecidableEq, Repr

/-- How a command came back to the client. -/
inductive Reply
  | noAnswer
  | refused (errorCode : String)
  | fileOpen (opened : RecordingFileOpen)
  | otherPayload
  deriving DecidableEq, Repr

/-! ## The device -/

/-- The identity check of an open. -/
def changed (expect file : Identity) : Bool :=
  ((expect.size != 0 || expect.mtimeNs != 0) &&
      !(expect.size == file.size && expect.mtimeNs == file.mtimeNs)) ||
    (expect.objectVersion != 0 && expect.objectVersion != file.objectVersion) ||
    (expect.catalogueGeneration != 0 && expect.catalogueGeneration != file.catalogueGeneration)

/-- A device at one open: the file as it is then, and the first failing check of those
that come before the identity. -/
structure Device where
  file : Identity
  port : ℕ := 50002
  answers : Bool := true
  refuses : Option String := none
  deriving DecidableEq, Repr

def Device.openRecordingFile (device : Device) (cmd : OpenRecordingFile) : Reply :=
  if device.answers = false then .noAnswer
  else
    match device.refuses with
    | some errorCode => .refused errorCode
    | none =>
        if changed cmd.expect device.file then .refused "changed"
        else if device.file.size < cmd.offset then .refused "out_of_range"
        else
          .fileOpen
            { port := device.port, offset := cmd.offset
              length := device.file.size - cmd.offset, file := device.file }

/-! ## The data socket -/

/-- One `recv`, and whether the sink takes what it read. -/
inductive SocketRead
  | data (bytes : List Byte) (sinkTakes : Bool)
  | interrupted
  | failed (errno : ℕ)
  deriving DecidableEq, Repr

/-- Bytes that a client handed to its sink, with the open they came from. -/
structure Delivery where
  opened : RecordingFileOpen
  offset : ℕ
  bytes : List Byte
  deriving DecidableEq, Repr

structure Received where
  received : ℕ := 0
  error : ℕ := 0
  sinkFailed : Bool := false
  deriving DecidableEq, Repr

/-- The size of the buffer of `Receive`. -/
def kBufferBytes : ℕ := 1048576

/-- `Receive`, from `received` bytes on.  A device that closes reads as no data. -/
def receive (opened : RecordingFileOpen) : ℕ → List SocketRead → List Delivery × Received
  | received, [] => ([], { received := received })
  | received, read :: reads =>
      if opened.length ≤ received then ([], { received := received })
      else
        match read with
        | .interrupted => receive opened received reads
        | .failed errno => ([], { received := received, error := errno })
        | .data bytes sinkTakes =>
            let got := bytes.take (min kBufferBytes (opened.length - received))
            let delivery : Delivery :=
              { opened := opened, offset := opened.offset + received, bytes := got }
            if got = [] then ([], { received := received })
            else if sinkTakes = false then
              ([delivery], { received := received, sinkFailed := true })
            else
              let result := receive opened (received + got.length) reads
              (delivery :: result.1, result.2)

/-! ## The clients -/

/-- How a pull ended. -/
inductive Ending
  | complete
  | failed (code : String)
  /-- An exception other than `RecordingsError`. -/
  | raised
  /-- The turns ran out. -/
  | pulling
  deriving DecidableEq, Repr

structure PullRequest where
  sessionName : List Byte
  fileName : List Byte
  offset : ℕ := 0
  expect : Identity := {}
  targetDevice : List Byte := []
  maxOpensWithoutProgress : ℤ := 5
  deriving DecidableEq, Repr

/-- What the clients do each in their own way. -/
structure Client where
  /-- The fields of an identity that the client sends. -/
  carries : Identity → Identity
  /-- `target_device` fits its field, where the client looks. -/
  targetFits : List Byte → Bool
  invalid : Ending
  noAnswer : Ending
  sinkFailed : Ending

def kMaxNameBytes : ℕ := 63

/-- `PlainName`: no leading dot, no slash, no NUL. -/
def plainName (name : List Byte) : Bool :=
  !name.isEmpty && decide (name.length ≤ kMaxNameBytes) && name.head? != some 46 &&
    !name.contains 47 && !name.contains 0

/-- What a pull keeps between two opens. -/
structure Progress where
  offset : ℕ
  expect : Identity
  idleOpens : ℤ := 0
  lastOpen : Option RecordingFileOpen := none
  sunk : List Delivery := []

/-- The device and the data socket at one open. -/
structure Turn where
  device : Device
  reads : List SocketRead := []
  deriving DecidableEq, Repr

namespace Client

variable (client : Client) (request : PullRequest)

/-- The open is answered as the request says. -/
def describesRange (opened : RecordingFileOpen) (offset : ℕ) : Bool :=
  opened.offset == offset && opened.offset + opened.length == opened.file.size

/-- The loop after a good answer: receive, then go on or end. -/
def afterOpen (progress : Progress) (opened : RecordingFileOpen) (reads : List SocketRead) :
    Progress × Option Ending :=
  let pinned :=
    { progress with lastOpen := some opened, expect := client.carries opened.file }
  if opened.length = 0 then (pinned, some .complete)
  else
    let got := (receive opened 0 reads).2
    let moved :=
      { pinned with offset := progress.offset + got.received
                    sunk := progress.sunk ++ (receive opened 0 reads).1 }
    if got.sinkFailed then (moved, some client.sinkFailed)
    else if moved.offset = opened.file.size then (moved, some .complete)
    else if got.received ≠ 0 then ({ moved with idleOpens := 0 }, none)
    else
      let idle := { moved with idleOpens := progress.idleOpens + 1 }
      if request.maxOpensWithoutProgress ≤ idle.idleOpens then
        (idle, some (.failed "no_progress"))
      else (idle, none)

/-- One pass of the loop: an open and, if the device grants it, its bytes. -/
def attempt (progress : Progress) (turn : Turn) : Progress × Option Ending :=
  let named := plainName request.sessionName && plainName request.fileName
  if (named && client.targetFits request.targetDevice) = false then
    (progress, some client.invalid)
  else
    match turn.device.openRecordingFile
      { targetDevice := request.targetDevice, sessionName := request.sessionName
        fileName := request.fileName, offset := progress.offset
        expect := progress.expect } with
    | .noAnswer => (progress, some client.noAnswer)
    | .refused errorCode =>
        (progress, some (.failed (if errorCode = "" then "failed" else errorCode)))
    | .otherPayload => (progress, some (.failed "protocol"))
    | .fileOpen opened =>
        if describesRange opened progress.offset = false then
          (progress, some (.failed "protocol"))
        else client.afterOpen request progress opened turn.reads

/-- The loop. -/
def pullFrom : Progress → List Turn → Progress × Ending
  | progress, [] => (progress, .pulling)
  | progress, turn :: turns =>
      match client.attempt request progress turn with
      | (progress, some ending) => (progress, ending)
      | (progress, none) => pullFrom progress turns

def pullFile (turns : List Turn) : Progress × Ending :=
  client.pullFrom request
    { offset := request.offset, expect := client.carries request.expect } turns

end Client

/-- `PullFile` of `recordings.hpp`. -/
def Cpp.pullFile : PullRequest → List Turn → Progress × Ending :=
  Client.pullFile
    { carries := fun file => { size := file.size, mtimeNs := file.mtimeNs }
      targetFits := fun target => decide (target.length < 32) && !target.contains 0
      invalid := .failed "invalid_request"
      noAnswer := .failed "no_answer"
      sinkFailed := .failed "sink" }

/-- `pull_file` of `recordings.py`. -/
def Python.pullFile : PullRequest → List Turn → Progress × Ending :=
  Client.pullFile
    { carries := id
      targetFits := fun _ => true
      invalid := .raised
      noAnswer := .raised
      sinkFailed := .raised }

/-- `pullFile` of `recordings.ts`; its `receive` is the caller's. -/
def Typescript.pullFile : PullRequest → List Turn → Progress × Ending :=
  Client.pullFile
    { carries := fun file => { size := file.size, mtimeNs := file.mtimeNs }
      targetFits := fun _ => true
      invalid := .raised
      noAnswer := .raised
      sinkFailed := .raised }

end VisioSchema.Recordings

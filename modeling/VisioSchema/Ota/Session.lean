import Mathlib.Algebra.Ring.Int.Defs
import VisioSchema.Wire.Message

/-!
# The OTA session

Messages, statuses and options of one firmware transfer, and the pure parts of
its three hand-written drivers: C++ (`wire/ota.hpp`), Python (`wire/ota.py`)
and TypeScript (`wire/ota.ts`).  What the three write differently is a function
of the `Driver`; everything else is shared.
-/

namespace VisioSchema.Ota

open VisioSchema.Wire

/-- One of the three implementations of the sender. -/
inductive Driver
  | cpp
  | python
  | ts
  deriving DecidableEq, Repr

/-- The UTF-8 bytes of a text field. -/
abbrev Text := List Byte

/-! ## Messages -/

inductive OtaBody
  | begin (totalBytes chunkBytes : ℕ) (fwVersion board : Text)
  | chunk (offset : ℕ) (data : List Byte)
  | commit
  | abort (reason : Text)
  | query
  deriving DecidableEq, Repr

structure OtaMessage where
  targetDevice : Text
  sessionId : UInt64
  body : OtaBody
  deriving DecidableEq, Repr

inductive State
  | idle
  | receiving
  | verifying
  | staged
  | applying
  | success
  | failed
  | needsResume
  deriving DecidableEq, Repr

structure OtaStatus where
  sessionId : UInt64 := 0
  state : State := .idle
  bytesReceived : UInt64 := 0
  errorCode : Text := []
  errorMessage : Text := []
  maxChunkBytes : UInt32 := 0
  deriving DecidableEq, Repr

/-- Why a relay ended. -/
inductive Reason
  | okStaged
  | okSuccess
  | okStagedNoTransfer
  | okCommittedUnconfirmed
  | okLinkAfterCommit
  | failDevice
  | failStalled
  | failDeadline
  | failTooLossy
  | failLinkDropped
  | okUploadOnly
  deriving DecidableEq, Repr

structure Outcome where
  ok : Bool
  reason : Reason
  acked : ℕ
  total : ℕ
  resumes : ℕ
  deriving DecidableEq, Repr

/-- What the caller chooses; `T` is the type of clock readings and durations.
`maxResumes = none` derives the limit from the image size, which C++ spells
`max_resumes = 0`. -/
structure Options (T : Type*) where
  fwVersion : Text := []
  board : Text := []
  targetDevice : Text := []
  sessionId : UInt64 := 0xCA11
  commit : Bool := true
  negotiate : Bool := true
  hasQuiesce : Bool := false
  window : ℕ := 2 * 1024 * 1024
  chunk : ℕ := 32 * 1024
  chunkCap : ℕ := 0
  maxResumes : Option ℕ := none
  stallTimeout : T
  softRetry : T
  commitWait : T
  deadline : T
  queryWait : T

/-- The default durations, in milliseconds. -/
def defaultOptions : Options ℤ where
  stallTimeout := 45000
  softRetry := 6000
  commitWait := 8000
  deadline := 900000
  queryWait := 1500

/-- The defaults without negotiation. -/
def plainOptions : Options ℤ := { defaultOptions with negotiate := false }

/-! ## Where the drivers differ -/

def word32 : ℕ := 4294967296

def word64 : ℕ := 18446744073709551616

/-- `snprintf` into a `char[32]`: up to the first NUL, 31 bytes at most. -/
def snprintf31 (text : Text) : Text := (text.takeWhile (· ≠ 0)).take 31

/-- A text option as it goes onto the wire. -/
def outText : Driver → Text → Text
  | .cpp, text => snprintf31 text
  | .python, text | .ts, text => text

/-- A text of a decoded status as the driver reads it; nanopb hands C++ a
NUL-terminated array. -/
def inText : Driver → Text → Text
  | .cpp, text => text.takeWhile (· ≠ 0)
  | .python, text | .ts, text => text

/-- `OtaChunk.data`; the size of a nanopb bytes array has 16 bits. -/
def chunkData : Driver → List Byte → List Byte
  | .cpp, data => data.take (data.length % 65536)
  | .python, data | .ts, data => data

/-- `(cursor - acked) + n <= window`, on `uint64_t` or on integers. -/
def inWindow : Driver → (window cursor acked n : ℕ) → Bool
  | .cpp, window, cursor, acked, n =>
      decide (((cursor + (word64 - acked)) % word64 + n) % word64 ≤ window)
  | .python, window, cursor, acked, n | .ts, window, cursor, acked, n =>
      decide ((cursor : ℤ) - acked + n ≤ window)

/-- `++resumes`. -/
def bump : Driver → ℕ → ℕ
  | .cpp, resumes => (resumes + 1) % word32
  | .python, resumes | .ts, resumes => resumes + 1

/-- The limit derived from the image size. -/
def derivedResumes (total chunk : ℕ) : ℕ := 2 * (total / max chunk 1 + 2) + 16

def maxResumes : Driver → (given : Option ℕ) → (total chunk : ℕ) → ℕ
  | .cpp, given, total, chunk =>
      match given.getD 0 with
      | 0 => derivedResumes total chunk % word32
      | limit => limit
  | .python, given, total, chunk | .ts, given, total, chunk =>
      given.getD (derivedResumes total chunk)

/-! ## Encoders -/

section Encoders

variable {T : Type*} (d : Driver) (opts : Options T)

def message (body : OtaBody) : OtaMessage where
  targetDevice := outText d opts.targetDevice
  sessionId := opts.sessionId
  body := body

def beginMessage (total chunk : ℕ) : OtaMessage :=
  message d opts (.begin total chunk (outText d opts.fwVersion) (outText d opts.board))

def chunkMessage (offset : ℕ) (data : List Byte) : OtaMessage :=
  message d opts (.chunk offset (chunkData d data))

def commitMessage : OtaMessage := message d opts .commit

def abortMessage (reason : String) : OtaMessage :=
  message d opts (.abort reason.toUTF8.toList)

def queryMessage : OtaMessage := message d opts .query

end Encoders

/-! ## Negotiation -/

def kMaxChunkBytes : ℕ := 60 * 1024

def kMinChunkBytes : ℕ := 8 * 1024

/-- The smallest advert so far; `0` is none. -/
def foldAdvert (smallest : ℕ) (status : OtaStatus) : ℕ :=
  if status.maxChunkBytes = 0 then smallest
  else if smallest = 0 then status.maxChunkBytes.toNat
  else min smallest status.maxChunkBytes.toNat

/-- The chunk size that is declared and sent, from the caller's own and the
smallest advert. -/
def negotiatedChunk (want cap smallest : ℕ) : ℕ :=
  let out := if smallest = 0 then want else max kMinChunkBytes (min smallest kMaxChunkBytes)
  if cap = 0 then out else min out cap

theorem negotiatedChunk_le {want cap smallest : ℕ} (hwant : want ≤ kMaxChunkBytes) :
    negotiatedChunk want cap smallest ≤ kMaxChunkBytes := by
  simp only [negotiatedChunk, kMinChunkBytes, kMaxChunkBytes] at hwant ⊢
  split <;> split <;> omega

/-! ## Folding a status -/

/-- `st`: what the driver knows of the device. -/
structure Folded where
  acked : ℕ := 0
  staged : Bool := false
  succeeded : Bool := false
  failure : Option Text := none
  resumeTo : Option ℕ := none
  deriving DecidableEq, Repr

/-- The send loop runs while this is false. -/
def Folded.finished (st : Folded) : Bool := st.failure.isSome || st.succeeded || st.staged

/-- A status stamped for another session is not folded; an unset one is. -/
def foreign (session : UInt64) (status : OtaStatus) : Bool :=
  status.sessionId != 0 && status.sessionId != session

/-- The failure a status reports, as text. -/
def failureText (code text : Text) : Text :=
  if text ≠ [] then text
  else if code ≠ [] then code
  else "device reported FAILED".toUTF8.toList

/-- `fold`, for a status of the own session. -/
def foldOwn (d : Driver) (st : Folded) (status : OtaStatus) : Folded :=
  let code := inText d status.errorCode
  let bytes := status.bytesReceived.toNat
  match status.state with
  | .staged => { st with staged := true, acked := max st.acked bytes }
  | .success => { st with succeeded := true }
  | .needsResume =>
      if st.staged || st.succeeded then st else { st with resumeTo := some bytes }
  | state =>
      if code ≠ [] ∨ state = .failed then
        -- in-flight chunks bounce off a device that already rebooted
        if (st.staged || st.succeeded) && (code = [] || code = "no_session".toUTF8.toList) then st
        else { st with failure := some (failureText code (inText d status.errorMessage)) }
      else { st with acked := max st.acked bytes }

/-- `fold`. -/
def fold (d : Driver) (session : UInt64) (st : Folded) (status : OtaStatus) : Folded :=
  if foreign session status then st else foldOwn d st status

theorem fold_of_foreign {d : Driver} {session : UInt64} {status : OtaStatus}
    (hforeign : foreign session status = true) (st : Folded) : fold d session st status = st :=
  if_pos hforeign

theorem fold_of_own {d : Driver} {session : UInt64} {status : OtaStatus}
    (hown : foreign session status = false) (st : Folded) :
    fold d session st status = foldOwn d st status := by
  simp [fold, hown]

/-- Folding moves the watermark to the status's own count or not at all. -/
theorem foldOwn_acked (d : Driver) (st : Folded) (status : OtaStatus) :
    (foldOwn d st status).acked = st.acked ∨
      (foldOwn d st status).acked = max st.acked status.bytesReceived.toNat := by
  cases hstate : status.state
  case staged => exact Or.inr (by simp only [foldOwn, hstate])
  case success => exact Or.inl (by simp only [foldOwn, hstate])
  case needsResume =>
      left
      simp only [foldOwn, hstate]
      split <;> rfl
  all_goals
      simp only [foldOwn, hstate]
      split
      · left
        split <;> rfl
      · exact Or.inr rfl

/-- `succeeded` is only ever set by a SUCCESS. -/
theorem foldOwn_succeeded (d : Driver) (st : Folded) (status : OtaStatus)
    (hstate : status.state ≠ .success) : (foldOwn d st status).succeeded = st.succeeded := by
  cases hcase : status.state
  case success => exact absurd hcase hstate
  case staged => simp only [foldOwn, hcase]
  case needsResume =>
      simp only [foldOwn, hcase]
      split <;> rfl
  all_goals
      simp only [foldOwn, hcase]
      split
      · split <;> rfl
      · rfl

end VisioSchema.Ota

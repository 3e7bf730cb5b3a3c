import Mathlib.Order.Lattice
import VisioSchema.Library.Driving
import VisioSchema.Library.Text
import VisioSchema.Wire.Message

/-!
# Reading a diagnostic log

`read_file` of `wire/diag.py` and its twin `readFile` of `wire/diag.ts`.  Each is a loop over the
replies of one session, which it takes off a channel that other sessions may share.

A driver runs against a script of turns, one for each call of `recv`: what `recv` comes to, and
what the clock reads before and behind it.  The clock of the first deadline is read in front of
the script, behind the send in Python and before it in TypeScript.
-/

namespace VisioSchema.Diag

open VisioSchema.Wire VisioSchema.Library

/-! ## Messages -/

inductive DiagRequestBody
  | list
  | read (name : Text) (offset len : ℕ)
  | abort
  deriving DecidableEq, Repr

structure DiagRequest where
  targetDevice : Text
  sessionId : ℕ
  body : DiagRequestBody
  deriving DecidableEq, Repr

structure DiagChunk where
  name : Text
  offset : ℕ
  data : List Byte
  last : Bool
  deriving DecidableEq, Repr

inductive DiagState
  | idle
  | reading
  | done
  | failed
  | other (value : ℤ)
  deriving DecidableEq, Repr

structure DiagStatus where
  state : DiagState
  errorCode : Text
  errorMessage : Text
  deriving DecidableEq, Repr

/-- The body of a reply; what a listing holds is not read here. -/
inductive DiagBody
  | unset
  | listing
  | chunk (chunk : DiagChunk)
  | status (status : DiagStatus)
  deriving DecidableEq, Repr

structure DiagReply where
  sessionId : ℕ
  body : DiagBody
  deriving DecidableEq, Repr

/-! ## Calls and scripts -/

/-- The arguments of a call. -/
structure ReadArgs (Time : Type*) where
  name : Text
  offset : ℕ
  length : ℕ
  sessionId : ℕ
  targetDevice : Text
  timeout : Time

/-- What a `recv` comes to: nothing, bytes that are no `DiagReply`, or a reply. -/
inductive Answer
  | silence
  | garbled
  | reply (reply : DiagReply)
  deriving DecidableEq, Repr

/-- One `recv`, between two readings of the clock. -/
structure Turn (Time : Type*) where
  before : Time
  answer : Answer
  behind : Time

/-- What a driver does to the world. -/
inductive Call (Time : Type*)
  | send (request : DiagRequest)
  | recv (timeout : Time)
  | progress (bytes : ℕ)

/-- How a driver ends: with bytes, with a `DiagError` (`timeout` to `decode`), or with an exception
of a library. -/
inductive Ending (Time : Type*)
  | returned (data : List Byte)
  | timeout (window : Time)
  | gap (chunk expected : Text × ℕ)
  | declined (code message : Text)
  | link
  | decode
  | parseError
  | osError

/-- What a driver has come to behind a script. -/
inductive Outcome (Time : Type*)
  | waiting (deadline : Time)
  | ended (ending : Ending Time)

/-- What a turn of the reply loop comes to: no reply, a reply under a new deadline, or an error. -/
inductive Yielded (Time : Type*)
  | quiet
  | reply (reply : DiagReply) (deadline : Time)
  | error (ending : Ending Time)

section Drivers

variable {Time : Type*} [LinearOrder Time] [Add Time] [Sub Time] [Zero Time]

def readMessage (args : ReadArgs Time) : DiagRequest where
  targetDevice := args.targetDevice
  sessionId := args.sessionId
  body := .read args.name args.offset args.length

def abortMessage (args : ReadArgs Time) : DiagRequest where
  targetDevice := args.targetDevice
  sessionId := args.sessionId
  body := .abort

/-- `error_code or "failed"`. -/
def declinedCode (status : DiagStatus) : Text :=
  if status.errorCode = [] then ['f', 'a', 'i', 'l', 'e', 'd'] else status.errorCode

/-! ## Python -/

namespace Py

/-- What `read_file` and its generator hold. -/
structure Reading (Time : Type*) where
  deadline : Time
  out : List Byte
  expect : ℕ

/-- One turn of `_replies`. -/
def replies (args : ReadArgs Time) (deadline : Time) (turn : Turn Time) : Yielded Time :=
  match turn.answer with
  | .silence => if deadline ≤ turn.behind then .error (.timeout args.timeout) else .quiet
  | .garbled => .error .parseError
  | .reply r =>
      if r.sessionId ≠ args.sessionId then .quiet  -- someone else's transfer on a shared channel
      else .reply r (turn.behind + args.timeout)

/-- The body of the loop of `read_file`. -/
def onReply (args : ReadArgs Time) (st : Reading Time) (r : DiagReply) :
    Step (Reading Time) (Call Time) (Ending Time) :=
  match r.body with
  | .chunk c =>
      if c.name ≠ args.name ∨ c.offset ≠ st.expect then
        .stop [.send (abortMessage args)] (.gap (c.name, c.offset) (args.name, st.expect))
      else if c.last then
        .stop [.progress (st.out ++ c.data).length] (.returned (st.out ++ c.data))
      else
        .next [.progress (st.out ++ c.data).length]
          { st with out := st.out ++ c.data, expect := st.expect + c.data.length }
  | .status s =>
      if s.state = .done then .stop [] (.returned st.out)
      else if s.errorCode ≠ [] ∨ s.state = .failed then
        .stop [] (.declined (declinedCode s) s.errorMessage)
      else .next [] st
  | .listing => .next [] st
  | .unset => .next [] st

/-- A turn of both loops. -/
def step (args : ReadArgs Time) (st : Reading Time) (turn : Turn Time) :
    Step (Reading Time) (Call Time) (Ending Time) :=
  match replies args st.deadline turn with
  | .quiet => .next [.recv (max 0 (st.deadline - turn.before))] st
  | .error ending => .stop [.recv (max 0 (st.deadline - turn.before))] ending
  | .reply r deadline =>
      (onReply args { st with deadline := deadline } r).after
        [.recv (max 0 (st.deadline - turn.before))]

def outcome : Reading Time ⊕ Ending Time → Outcome Time
  | .inl st => .waiting st.deadline
  | .inr ending => .ended ending

/-- `read_file`; `sent` says whether the link takes the request, and `started` is the clock's first
reading. -/
def readFile (args : ReadArgs Time) (sent : Bool) (started : Time) (script : List (Turn Time)) :
    List (Call Time) × Outcome Time :=
  if sent then
    let run := drive (step args) ⟨started + args.timeout, [], args.offset⟩ script
    (.send (readMessage args) :: run.1, outcome run.2)
  else ([.send (readMessage args)], .ended .osError)

end Py

/-! ## TypeScript -/

namespace Ts

/-- What `readFile` and its generator hold. -/
structure Reading (Time : Type*) where
  deadline : Time
  parts : List (List Byte)
  total : ℕ
  expect : ℕ

/-- `out.set(p, start)`. -/
def setAt (out : List Byte) (start : ℕ) (p : List Byte) : List Byte :=
  out.take start ++ p ++ out.drop (start + p.length)

/-- `joined`: every part is copied behind the one before it. -/
def joined (parts : List (List Byte)) (total : ℕ) : List Byte :=
  (parts.foldl (fun (copied : List Byte × ℕ) p => (setAt copied.1 copied.2 p, copied.2 + p.length))
    (List.replicate total 0, 0)).1

/-- One turn of `replies`. -/
def replies (args : ReadArgs Time) (deadline : Time) (turn : Turn Time) : Yielded Time :=
  match turn.answer with
  | .silence => if turn.behind ≥ deadline then .error (.timeout args.timeout) else .quiet
  | .garbled => .error .decode
  | .reply r =>
      if r.sessionId ≠ args.sessionId then .quiet
      else .reply r (turn.behind + args.timeout)

/-- The body of the loop of `readFile`. -/
def onReply (args : ReadArgs Time) (st : Reading Time) (r : DiagReply) :
    Step (Reading Time) (Call Time) (Ending Time) :=
  match r.body with
  | .chunk c =>
      if c.name ≠ args.name ∨ c.offset ≠ st.expect then
        .stop [.send (abortMessage args)] (.gap (c.name, c.offset) (args.name, st.expect))
      else
        let parts := st.parts ++ [c.data]
        let total := st.total + c.data.length
        if c.last then .stop [.progress total] (.returned (joined parts total))
        else
          .next [.progress total]
            { st with parts := parts, total := total, expect := st.expect + c.data.length }
  | .status s =>
      if s.state = .done then .stop [] (.returned (joined st.parts st.total))
      else if s.errorCode ≠ [] ∨ s.state = .failed then
        .stop [] (.declined (declinedCode s) s.errorMessage)
      else .next [] st
  | .listing => .next [] st
  | .unset => .next [] st

/-- A turn of both loops. -/
def step (args : ReadArgs Time) (st : Reading Time) (turn : Turn Time) :
    Step (Reading Time) (Call Time) (Ending Time) :=
  match replies args st.deadline turn with
  | .quiet => .next [.recv (max 0 (st.deadline - turn.before))] st
  | .error ending => .stop [.recv (max 0 (st.deadline - turn.before))] ending
  | .reply r deadline =>
      (onReply args { st with deadline := deadline } r).after
        [.recv (max 0 (st.deadline - turn.before))]

def outcome : Reading Time ⊕ Ending Time → Outcome Time
  | .inl st => .waiting st.deadline
  | .inr ending => .ended ending

/-- `readFile`. -/
def readFile (args : ReadArgs Time) (sent : Bool) (started : Time) (script : List (Turn Time)) :
    List (Call Time) × Outcome Time :=
  if sent then
    let run := drive (step args) ⟨started + args.timeout, [], 0, args.offset⟩ script
    (.send (readMessage args) :: run.1, outcome run.2)
  else ([.send (readMessage args)], .ended .link)

end Ts

end Drivers

end VisioSchema.Diag

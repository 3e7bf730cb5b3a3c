import VisioSchema.Library.Runs
import VisioSchema.Transport.FramedOutbox

/-!
# The calls on an outbox

The outbox under any sequence of calls.  `Drain` runs its phases on the I/O thread
and takes the queue's lock only in the second, so its phases are inputs of their own
and the other calls may fall between them.

What went in and out is recorded beside the outbox; nothing of the code reads it.
-/

namespace VisioSchema.Transport

open VisioSchema.Wire VisioSchema.Library

namespace FramedOutbox

/-! ## What a call moves -/

/-- The evictions of an `Enqueue`. -/
def enqueueEvictions (o : FramedOutbox) (incoming : ℕ) : List (Eviction Entry) :=
  dropBoundEvictions Entry.size o.policy o.queue o.queueBytes incoming

/-- The turns of the age pass that erase a frame; `kept` is in front of the iterator. -/
def staleTurns (policy : WritePolicy) (nowUs : ℤ) :
    List Entry → List Entry → List (Eviction Entry)
  | _, [] => []
  | kept, entry :: queue =>
      if keepsAged policy nowUs entry then staleTurns policy nowUs (kept ++ [entry]) queue
      else ⟨kept ++ entry :: queue, entry, kept ++ queue⟩ :: staleTurns policy nowUs kept queue

/-- The evictions of `Drain`'s second phase. -/
def ageEvictions (o : FramedOutbox) (nowUs : ℤ) : List (Eviction Entry) :=
  if o.policy.drop = .staleEviction ∧ 0 < o.policy.maxAge then
    staleTurns o.policy nowUs [] o.queue
  else []

/-- The frames that `PromoteToInFlight` commits. -/
def promoted (o : FramedOutbox) : List Entry :=
  match o.queue with
  | [] => []
  | front :: _ => if o.policy.drain = .batchAll ∧ 1 < o.queue.length then o.queue else [front]

end FramedOutbox

/-! ## The machine -/

/-- Where `Drain` stands: not called, about to take the lock, or at its last write. -/
inductive DrainPc
  | idle
  | queue
  | trail
  deriving DecidableEq, Repr

/-- An outbox and the record of its traffic. -/
structure Traffic where
  outbox : FramedOutbox
  pc : DrainPc := .idle
  /-- The frames that were accepted, in order. -/
  accepted : List Entry := []
  /-- How many frames `DropOnFail` turned away. -/
  rejected : ℕ := 0
  /-- The bytes that the writer took, and those of them since the last `Clear`. -/
  sent : List Byte := []
  wire : List Byte := []
  /-- The frames fully written before the last `Clear`, and since. -/
  past : List Entry := []
  written : List Entry := []
  /-- The frames of the unit in flight. -/
  committed : List Entry := []
  evictions : List (Eviction Entry) := []
  removed : List Entry := []
  deriving DecidableEq, Repr

inductive Call
  | enqueue (frame : Option (List Byte)) (keyframe : Bool) (nowUs : ℤ)
  | tryEnqueue (frame : List Byte) (limit : ℕ) (nowUs : ℤ)
  | discardQueued
  | clear
  /-- `Drain` is called; `accept` is what its first write takes, if it makes one. -/
  | drain (oneFrame : Bool) (accept : Option ℕ)
  | promote (nowUs : ℤ)
  | trail (accept : Option ℕ)
  deriving DecidableEq, Repr

namespace Traffic

variable (t : Traffic)

def init (policy : WritePolicy) : Traffic where
  outbox := { policy := policy }

/-- The frames of a unit that is off the drainer's hands are fully written. -/
def settle : Traffic :=
  if t.outbox.inFlight.active then t
  else { t with written := t.written ++ t.committed, committed := [] }

def wrote (accept : ℕ) : Traffic :=
  let chunk := t.outbox.inFlight.chunk accept
  { t with
    outbox := t.outbox.wrote accept
    sent := t.sent ++ chunk
    wire := t.wire ++ chunk }.settle

def enqueueStep (frame : List Byte) (keyframe : Bool) (nowUs : ℤ) : Traffic :=
  match t.outbox.enqueue frame keyframe nowUs with
  | (o, true) =>
      { t with
        outbox := o
        accepted := t.accepted ++ [{ data := frame, enqueueUs := nowUs, keyframe := keyframe }]
        evictions := t.evictions ++ t.outbox.enqueueEvictions frame.length }
  | (o, false) => { t with outbox := o, rejected := t.rejected + 1 }

def tryEnqueueStep (frame : List Byte) (limit : ℕ) (nowUs : ℤ) : Traffic :=
  match t.outbox.tryEnqueue frame limit nowUs with
  | (o, true) =>
      { t with
        outbox := o
        accepted := t.accepted ++ [{ data := frame, enqueueUs := nowUs }] }
  | (o, false) => { t with outbox := o }

def discardStep : Traffic :=
  { t with outbox := t.outbox.discardQueued, removed := t.removed ++ t.outbox.queue }

def clearStep : Traffic :=
  { t with
    outbox := t.outbox.clear
    wire := []
    past := t.past ++ t.written
    written := []
    committed := []
    removed := t.removed ++ (t.committed ++ t.outbox.queue) }

/-- `Drain`'s first phase; a dead link, a partial write and `one_frame` end the call. -/
def drainStep (oneFrame : Bool) (accept : Option ℕ) : Traffic :=
  if t.outbox.inFlight.active then
    match accept with
    | none => t
    | some count =>
        let t := t.wrote count
        if t.outbox.inFlight.active || oneFrame then t else { t with pc := .queue }
  else { t with pc := .queue }

/-- `Drain`'s second phase, under the lock. -/
def promoteStep (nowUs : ℤ) : Traffic :=
  let o := t.outbox.ageEvict nowUs
  let t := { t with outbox := o, evictions := t.evictions ++ t.outbox.ageEvictions nowUs }
  if o.queue.isEmpty then { t with pc := .idle }
  else { t with outbox := o.promoteToInFlight, committed := o.promoted, pc := .trail }.settle

/-- `Drain`'s trailing write. -/
def trailStep (accept : Option ℕ) : Traffic :=
  match accept with
  | some count =>
      if t.outbox.inFlight.active then { t.wrote count with pc := .idle }
      else { t with pc := .idle }
  | none => { t with pc := .idle }

def step : Call → Traffic
  | .enqueue none _ _ => t
  | .enqueue (some frame) keyframe nowUs => t.enqueueStep frame keyframe nowUs
  | .tryEnqueue frame limit nowUs => t.tryEnqueueStep frame limit nowUs
  | .discardQueued => t.discardStep
  -- `Clear` and `Drain` are the I/O thread's: they do not overlap.
  | .clear => if t.pc = .idle then t.clearStep else t
  | .drain oneFrame accept => if t.pc = .idle then t.drainStep oneFrame accept else t
  | .promote nowUs => if t.pc = .queue then t.promoteStep nowUs else t
  | .trail accept => if t.pc = .trail then t.trailStep accept else t

def run (policy : WritePolicy) (calls : List Call) : Traffic := calls.foldl step (init policy)

end Traffic

end VisioSchema.Transport

import Mathlib.Logic.Function.Basic
import VisioSchema.Library.Blocks
import VisioSchema.Wire.Message

/-!
# The payload arena

`PayloadArena`: the queued payloads of a recorder, bump-allocated in chunks of one
reservation.  A chunk that is emptied above the resident set is claimed for reclaim, and
handed back by a `Reclaim` that may stay outstanding.
-/

namespace VisioSchema.Mcap

open VisioSchema.Wire VisioSchema.Library

inductive Residency
  | untouched
  | touched
  | reclaiming
  deriving DecidableEq, Repr

/-- The reservation reads as zeros until it is written. -/
structure PayloadArena where
  chunkBytes : ℕ
  residentChunks : ℕ
  /-- The size of `live_` and `residency_`: zero without a reservation. -/
  chunks : ℕ
  memory : ℕ → Byte := fun _ => 0
  live : ℕ → ℕ := fun _ => 0
  residency : ℕ → Residency := fun _ => .untouched
  current : Option ℕ := none
  fill : ℕ := 0
  handBackFailedLogged : Bool := false

/-- A record is where its bytes are. -/
abbrev Record := Block

namespace PayloadArena

/-- The constructor; `reserves` is whether `mmap` succeeds. -/
def make (capacity chunkBytes residentChunks : ℕ) (reserves : Bool) : PayloadArena where
  chunkBytes := chunkBytes
  residentChunks := residentChunks
  chunks := if reserves ∧ chunkBytes ≠ 0 then capacity / chunkBytes else 0

variable (a : PayloadArena)

def bytes (record : Record) : List Byte := Block.load a.memory record

def lowestFreeChunk : Option ℕ :=
  (List.range a.chunks).find? fun c =>
    decide (some c ≠ a.current) && decide (a.live c = 0) && decide (a.residency c ≠ .reclaiming)

def chooseChunk (size : ℕ) : Option ℕ :=
  if a.chunks = 0 ∨ size = 0 ∨ a.chunkBytes < size then none
  else if a.current ≠ none ∧ size ≤ a.chunkBytes - a.fill then a.current
  else a.lowestFreeChunk

def canPut (size : ℕ) : Bool := (a.chooseChunk size).isSome

/-- The rest of `Put`, in the chunk it chose. -/
def putIn (next : ℕ) (bytes : List Byte) : PayloadArena × Record :=
  let fill := if some next ≠ a.current then 0 else a.fill
  let offset := next * a.chunkBytes + fill
  ({ a with
      current := some next
      memory := Block.store a.memory offset bytes
      fill := fill + bytes.length
      live := Function.update a.live next (a.live next + 1)
      residency := Function.update a.residency next .touched },
    { offset := offset, size := bytes.length })

def put (bytes : List Byte) : PayloadArena × Option Record :=
  match a.chooseChunk bytes.length with
  | none => (a, none)
  | some next =>
      let result := a.putIn next bytes
      (result.1, some result.2)

/-- `Free`: the chunk is claimed when its last record above the resident set goes. -/
def free (offset : ℕ) : PayloadArena × Option ℕ :=
  let chunk := offset / a.chunkBytes
  let left := { a with live := Function.update a.live chunk (a.live chunk - 1) }
  if left.live chunk ≠ 0 then (left, none)
  else
    let emptied :=
      if some chunk = a.current then
        { left with
          fill := 0
          current := if chunk < a.residentChunks then a.current else none }
      else left
    if chunk < a.residentChunks then (emptied, none)
    else
      ({ emptied with residency := Function.update a.residency chunk .reclaiming }, some chunk)

/-- `Reclaim::Run`; `error` is what `madvise` leaves. -/
def runReclaim (chunk error : ℕ) : PayloadArena :=
  if error = 0 then
    { a with memory := Block.erase a.memory ⟨chunk * a.chunkBytes, a.chunkBytes⟩ 0 }
  else { a with handBackFailedLogged := true }

def completeReclaim (chunk error : ℕ) : PayloadArena :=
  { a with
    residency :=
      Function.update a.residency chunk (if error ≠ 0 then .touched else .untouched) }

def residentBytes : ℕ :=
  ((List.range a.chunks).countP fun c => decide (a.residency c ≠ .untouched)) * a.chunkBytes

end PayloadArena

/-! ## Its owner -/

/-- A claimed chunk, and what the last `Run` left. -/
structure Reclaim where
  chunk : ℕ
  ran : Option ℕ := none
  deriving DecidableEq, Repr

/-- An arena, and what its owner holds of it. -/
structure ArenaUse where
  arena : PayloadArena
  /-- The live records, with what was put. -/
  records : List (Record × List Byte) := []
  reclaims : List Reclaim := []
  /-- The chunks that were written since they were last handed back. -/
  written : ℕ → Bool := fun _ => false

inductive ArenaCall
  | put (bytes : List Byte)
  /-- `Record::Release` of a record. -/
  | release (i : ℕ)
  /-- `Record::Reset`, whose `madvise` leaves `error`. -/
  | reset (i error : ℕ)
  | run (i error : ℕ)
  /-- `CompleteReclaim` with what the `Run` returned. -/
  | completeReclaim (i : ℕ)
  deriving DecidableEq, Repr

namespace ArenaUse

variable (u : ArenaUse)

def put (bytes : List Byte) : ArenaUse :=
  let result := u.arena.put bytes
  match result.2 with
  | none => { u with arena := result.1 }
  | some record =>
      { u with
        arena := result.1
        records := u.records ++ [(record, bytes)]
        written := Function.update u.written (record.offset / u.arena.chunkBytes) true }

def release (i : ℕ) : ArenaUse :=
  match u.records[i]? with
  | none => u
  | some (record, _) =>
      let result := u.arena.free record.offset
      { u with
        arena := result.1
        records := u.records.eraseIdx i
        reclaims := u.reclaims ++ (result.2.map fun chunk => { chunk := chunk }).toList }

def run (i error : ℕ) : ArenaUse :=
  match u.reclaims[i]? with
  | none => u
  | some reclaim =>
      { u with
        arena := u.arena.runReclaim reclaim.chunk error
        reclaims := u.reclaims.set i { reclaim with ran := some error } }

def completeReclaim (i : ℕ) : ArenaUse :=
  match u.reclaims[i]? with
  | some { chunk, ran := some error } =>
      { u with
        arena := u.arena.completeReclaim chunk error
        reclaims := u.reclaims.eraseIdx i
        written := if error = 0 then Function.update u.written chunk false else u.written }
  | _ => u

/-- `Reset` runs and completes the claim that `Release` gives it. -/
def reset (i error : ℕ) : ArenaUse :=
  let released := u.release i
  if u.reclaims.length < released.reclaims.length then
    (released.run u.reclaims.length error).completeReclaim u.reclaims.length
  else released

def step : ArenaCall → ArenaUse
  | .put bytes => u.put bytes
  | .release i => u.release i
  | .reset i error => u.reset i error
  | .run i error => u.run i error
  | .completeReclaim i => u.completeReclaim i

end ArenaUse

end VisioSchema.Mcap

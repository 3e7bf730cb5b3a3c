import VisioSchema.Library.Retention
import VisioSchema.Library.Runs
import VisioSchema.Reader.Domain

/-!
# Every key's value at one instant

`sync`: a stream's elements grouped onto shared instants.  The match keys define the instants
(`StreamMatcher`); the resampled keys are evaluated there (`_Resampler`), from samples that are
discarded when no later instant should need them (`prune_before`).
-/

namespace VisioSchema.Reader

open VisioSchema.Library

inductive ResampleMode
  | holdLast
  | nearest
  | interpolate
  deriving DecidableEq, Repr

inductive OnFuture
  | hold
  | extrapolate
  deriving DecidableEq, Repr

/-- The arguments of `sync`.  `blend` may raise, and has no answer for what cannot be blended;
`on_incomplete` is whether it is `emit_partial`. -/
structure SyncConfig (K V ε : Type*) where
  matchKeys : List K
  resample : List (K × ResampleMode)
  /-- A mapping. -/
  resample_nodup : (resample.map Prod.fst).Nodup
  tolNs : ℤ
  lagNs : ℤ
  onFuture : OnFuture
  staleNs : Option ℤ
  window : ℤ
  passthrough : Bool
  emitPartial : Bool
  blend : Element K V → Element K V → ℤ → Except ε (Option (Element K V))

/-- What the stream of groups ends with, if not with the end of its source. -/
inductive SyncError (K ε : Type*)
  | matcherArguments
  | keyOverlap (keys : List K)
  | blend (error : ε)
  deriving DecidableEq, Repr

/-- A match set, before its resampled keys are known. -/
structure Matched (K V : Type*) where
  tNs : ℤ
  byTopic : List (K × Sampled K V)
  deriving DecidableEq, Repr

/-- What the matcher yields: a match set, or an element it gave up on. -/
inductive Outcome (K V : Type*)
  | matched (set : Matched K V)
  | dropped (el : Element K V)
  deriving DecidableEq, Repr

/-- What `sync` yields. -/
inductive SyncOut (K V : Type*)
  | group (group : SyncGroup K V)
  | element (el : Element K V)
  deriving DecidableEq, Repr

variable {K V ε : Type*}

/-! ## The matcher -/

/-- The elements held for each key. -/
abbrev Buffers (K V : Type*) := K → List (Element K V)

namespace StreamMatcher

/-- The keys' heads, if each key has one. -/
def heads (keys : List K) (bufs : Buffers K V) : Option (List (K × Element K V)) :=
  keys.mapM fun k => (bufs k).head?.map fun el => (k, el)

/-- The first of the earliest heads. -/
def oldestOf : K × Element K V → List (K × Element K V) → K × Element K V
  | best, [] => best
  | best, other :: rest =>
      if other.2.tNs < best.2.tNs then oldestOf other rest else oldestOf best rest

def latestNs : ℤ → List (K × Element K V) → ℤ
  | best, [] => best
  | best, other :: rest => latestNs (max best other.2.tNs) rest

/-- `oldest_ns`. -/
def oldestNs (keys : List K) (bufs : Buffers K V) : Option ℤ :=
  match keys.filterMap fun k => (bufs k).head?.map fun el => (k, el) with
  | [] => none
  | first :: rest => some (oldestOf first rest).2.tNs

variable [DecidableEq K]

/-- `popleft` of one key. -/
def pop (bufs : Buffers K V) (key : K) : Buffers K V := Function.update bufs key (bufs key).tail

/-- One turn of `flush`: nothing where a key has run dry. -/
def flushTurn (cfg : SyncConfig K V ε) (bufs : Buffers K V) :
    Option (List (Outcome K V) × Buffers K V) :=
  match heads cfg.matchKeys bufs with
  | none => none
  | some [] => none
  | some (first :: rest) =>
      let oldest := oldestOf first rest
      let lo := oldest.2.tNs
      if cfg.tolNs < latestNs first.2.tNs rest - lo then
        some (if cfg.emitPartial then [.dropped oldest.2] else [], pop bufs oldest.1)
      else
        some ([.matched ⟨lo, (first :: rest).map fun head =>
            (head.1, ⟨head.2, .matched, head.2.tNs - lo⟩)⟩],
          cfg.matchKeys.foldl pop bufs)

/-- `flush`, for as many turns as there are elements to pop. -/
def flush (cfg : SyncConfig K V ε) : ℕ → Buffers K V → List (Outcome K V) × Buffers K V
  | 0, bufs => ([], bufs)
  | turns + 1, bufs =>
      match flushTurn cfg bufs with
      | none => ([], bufs)
      | some (outcomes, bufs') =>
          let (rest, last) := flush cfg turns bufs'
          (outcomes ++ rest, last)

/-- The number of elements buffered. -/
def buffered (keys : List K) (bufs : Buffers K V) : ℕ :=
  keys.foldr (fun k n => (bufs k).length + n) 0

def flushAll (cfg : SyncConfig K V ε) (bufs : Buffers K V) : List (Outcome K V) × Buffers K V :=
  flush cfg (buffered cfg.matchKeys bufs) bufs

/-- `push`. -/
def push (cfg : SyncConfig K V ε) (bufs : Buffers K V) (el : Element K V) :
    List (Outcome K V) × Buffers K V :=
  let buf := bufs el.topic ++ [el]
  if cfg.window < buf.length then
    let (rest, last) := flushAll cfg (Function.update bufs el.topic buf.tail)
    ((if cfg.emitPartial then buf.head?.toList.map .dropped else []) ++ rest, last)
  else flushAll cfg (Function.update bufs el.topic buf)

end StreamMatcher

/-! ## The resampler -/

namespace Resampler

/-- `push`: an element not in order is inserted. -/
def push [DecidableEq K] (samples : Buffers K V) (el : Element K V) : Buffers K V :=
  Function.update samples el.topic <|
    match (samples el.topic).getLast? with
    | some last =>
        if el.tNs < last.tNs then insort Element.tNs el (samples el.topic)
        else samples el.topic ++ [el]
    | none => samples el.topic ++ [el]

variable (cfg : SyncConfig K V ε)

/-- `_bracketed`. -/
def bracketed (lo hi : Element K V) (t : ℤ) (mode : ResampleMode) : Except ε (Sampled K V) :=
  let residual := min (t - lo.tNs) (hi.tNs - t)
  let nearest : Sampled K V :=
    ⟨if t - lo.tNs ≤ hi.tNs - t then lo else hi, .nearest, residual⟩
  match mode with
  | .holdLast => .ok ⟨lo, .held, t - lo.tNs⟩
  | .nearest => .ok nearest
  | .interpolate =>
      match cfg.blend lo hi t with
      | .error e => .error e
      | .ok (some mixed) => .ok ⟨mixed, .interpolated, residual⟩
      | .ok none => .ok nearest

/-- `_past_end`; `previous` is the last sample but one. -/
def pastEnd (previous : Option (Element K V)) (lo : Element K V) (t : ℤ) :
    Except ε (Sampled K V) :=
  match previous with
  | some p =>
      if cfg.onFuture = .extrapolate ∧ p.tNs < lo.tNs then
        match cfg.blend p lo t with
        | .error e => .error e
        | .ok (some projected) => .ok ⟨projected, .extrapolated, t - lo.tNs⟩
        | .ok none => .ok ⟨lo, .held, t - lo.tNs⟩
      else .ok ⟨lo, .held, t - lo.tNs⟩
  | none => .ok ⟨lo, .held, t - lo.tNs⟩

/-- `_value_at`. -/
def valueAt (buf : List (Element K V)) (t : ℤ) (mode : ResampleMode) :
    Except ε (Option (Sampled K V)) :=
  match (upTo Element.tNs t buf).getLast?, (after Element.tNs t buf).head? with
  | none, none => .ok none
  | none, some hi => .ok (some ⟨hi, .nearest, hi.tNs - t⟩)
  | some lo, hi =>
      if lo.tNs = t then .ok (some ⟨lo, .exact, 0⟩)
      else
        match hi with
        | none => (pastEnd cfg buf.dropLast.getLast? lo t).map some
        | some hi => (bracketed cfg lo hi t mode).map some

def tooStale (staleNs : Option ℤ) (got : Sampled K V) : Bool :=
  match staleNs with
  | some stale => decide (stale < got.residualNs)
  | none => false

/-- `at`: the topics in their order, up to one that raises. -/
def valuesAt (samples : Buffers K V) (t : ℤ) :
    List (K × ResampleMode) → Except ε (List (K × Sampled K V) × List K)
  | [] => .ok ([], [])
  | (topic, mode) :: rest =>
      match valueAt cfg (samples topic) t mode with
      | .error e => .error e
      | .ok got =>
          match valuesAt samples t rest with
          | .error e => .error e
          | .ok (values, missing) =>
              match got with
              | some sampled =>
                  if tooStale cfg.staleNs sampled then .ok (values, topic :: missing)
                  else .ok ((topic, sampled) :: values, missing)
              | none => .ok (values, topic :: missing)

/-- `close`. -/
def close (samples : Buffers K V) (set : Matched K V) : Except ε (SyncGroup K V) :=
  match valuesAt cfg samples set.tNs cfg.resample with
  | .error e => .error e
  | .ok (values, missing) => .ok ⟨set.tNs, set.byTopic ++ values, missing⟩

/-- The groups due by an instant closed, up to one that raises. -/
def release (samples : Buffers K V) (due : ℤ) :
    List (Matched K V) → List (SyncOut K V) × List (Matched K V) × Option ε
  | [] => ([], [], none)
  | set :: rest =>
      if set.tNs ≤ due then
        match close cfg samples set with
        | .error e => ([], rest, some e)
        | .ok group =>
            let (out, pending, error) := release samples due rest
            (.group group :: out, pending, error)
      else ([], set :: rest, none)

end Resampler

/-! ## The loop -/

/-- `floor` is not the program's: for each resampled key, the latest of the samples that were
the oldest kept when some were discarded. -/
structure SyncState (K V ε : Type*) where
  bufs : Buffers K V := fun _ => []
  samples : Buffers K V := fun _ => []
  pending : List (Matched K V) := []
  watermark : ℤ := 0
  out : List (SyncOut K V) := []
  error : Option ε := none
  floor : K → Option ℤ := fun _ => none

namespace SyncConfig

variable (cfg : SyncConfig K V ε)

def resampleKeys : List K := cfg.resample.map Prod.fst

/-- `_frontier`. -/
def frontier (s : SyncState K V ε) : ℤ :=
  match s.pending with
  | set :: _ => set.tNs
  | [] => (StreamMatcher.oldestNs cfg.matchKeys s.bufs).getD s.watermark

/-- `_absorb`. -/
def absorb (s : SyncState K V ε) (outcomes : List (Outcome K V)) : SyncState K V ε :=
  { s with
    pending := s.pending ++ outcomes.filterMap fun
      | .matched set => some set
      | .dropped _ => none
    out := s.out ++ outcomes.filterMap fun
      | .matched _ => none
      | .dropped el => some (.element el) }

variable [DecidableEq K]

/-- The element taken in. -/
def take (s : SyncState K V ε) (el : Element K V) : SyncState K V ε :=
  if el.topic ∈ cfg.matchKeys then
    let (outcomes, bufs) := StreamMatcher.push cfg s.bufs el
    absorb { s with bufs := bufs } outcomes
  else if el.topic ∈ cfg.resampleKeys then { s with samples := Resampler.push s.samples el }
  else if cfg.passthrough then { s with out := s.out ++ [.element el] }
  else s

/-- The groups that are due closed. -/
def releaseDue (s : SyncState K V ε) (due : ℤ) : SyncState K V ε :=
  let (out, pending, error) := Resampler.release cfg s.samples due s.pending
  { s with pending := pending, out := s.out ++ out, error := error }

/-- `prune_before`, of every resampled key. -/
def prune (s : SyncState K V ε) (t : ℤ) : SyncState K V ε :=
  { s with
    samples := fun k =>
      if k ∈ cfg.resampleKeys then retain Element.tNs t (s.samples k) else s.samples k
    floor := fun k =>
      if k ∈ cfg.resampleKeys then
        floorOf Element.tNs (s.floor k) (s.samples k) (retain Element.tNs t (s.samples k))
      else s.floor k }

/-- One turn of the loop; `prunes` is whether it has its `prune_before`. -/
def step (prunes : Bool) (s : SyncState K V ε) (el : Element K V) : SyncState K V ε :=
  if s.error.isSome then s
  else
    let s := { s with watermark := max s.watermark el.tNs }
    let s := cfg.take s el
    let s := cfg.releaseDue s (s.watermark - cfg.lagNs)
    if s.error.isSome ∨ prunes = false then s else cfg.prune s (cfg.frontier s)

/-- A set closed, unless one has raised. -/
def closeNext (s : SyncState K V ε) (set : Matched K V) : SyncState K V ε :=
  if s.error.isSome then s
  else
    match Resampler.close cfg s.samples set with
    | .error e => { s with error := some e }
    | .ok group => { s with out := s.out ++ [.group group] }

/-- The end of the stream: what the buffers still hold, then every group. -/
def finish (s : SyncState K V ε) : SyncState K V ε :=
  if s.error.isSome then s
  else
    let (outcomes, bufs) := StreamMatcher.flushAll cfg s.bufs
    let s := absorb { s with bufs := bufs } outcomes
    s.pending.foldl cfg.closeNext { s with pending := [] }

/-- The `ValueError` of the arguments, if they have one. -/
def argumentError : Option (SyncError K ε) :=
  if cfg.matchKeys = [] ∨ ¬cfg.matchKeys.Nodup ∨ cfg.window < 1 ∨ cfg.tolNs < 0 then
    some .matcherArguments
  else
    match cfg.matchKeys.filter fun k => decide (k ∈ cfg.resampleKeys) with
    | [] => none
    | overlap => some (.keyOverlap overlap)

/-- `sync`: what it yields, and what it raises at its end. -/
def sync (prunes : Bool) (stream : List (Element K V)) :
    List (SyncOut K V) × Option (SyncError K ε) :=
  match cfg.argumentError with
  | some error => ([], some error)
  | none =>
      let s := cfg.finish (stream.foldl (cfg.step prunes) {})
      (s.out, s.error.map .blend)

end SyncConfig

end VisioSchema.Reader

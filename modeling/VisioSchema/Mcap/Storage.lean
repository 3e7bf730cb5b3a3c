import VisioSchema.Routing.Registry

/-!
# Storage steps and what a part makes of them

`storage.hpp` and `part_outcome.hpp`: the results of storage steps, the events
of a recording, and `PartOutcome`, which keeps a part's first failure and its
first failure that may have lost bytes.
-/

namespace VisioSchema.Mcap

open VisioSchema.Wire VisioSchema.Routing

/-! ## Results -/

inductive IoStep
  | none
  | open
  | read
  | append
  | flush
  | checkpoint
  | close
  | namespaceSync
  | remove
  | writeback
  | complete
  deriving DecidableEq, Repr

structure IoResult where
  step : IoStep := .none
  error : ℕ := 0
  accepted : ℕ := 0
  uncertain : Bool := false
  deriving DecidableEq, Repr

def EIO : ℕ := 5
def EEXIST : ℕ := 17
def ENODEV : ℕ := 19
def EINVAL : ℕ := 22
def ENOSPC : ℕ := 28
def EROFS : ℕ := 30
def ENOSYS : ℕ := 38
def EOPNOTSUPP : ℕ := 95

/-- `EndsRecording`: no later part could escape the failure. -/
def endsRecording (error : ℕ) : Bool := error = EROFS || error = ENOSPC || error = ENODEV

/-- `LosesBytes`: the step may have lost bytes that were counted as written. -/
def losesBytes (step : IoStep) : Bool :=
  step = .append || step = .flush || step = .close || step = .checkpoint || step = .writeback

/-- `WritebackUnsupported`. -/
def writebackUnsupported (error : ℕ) : Bool :=
  error = ENOSYS || error = EINVAL || error = EOPNOTSUPP

/-- `Explained`: a failure that storage reported without an errno is EIO. -/
def explained (failed : IoResult) : IoResult :=
  if failed.error ≠ 0 then failed else { failed with error := EIO, uncertain := true }

theorem explained_of_error {failed : IoResult} (herror : failed.error ≠ 0) :
    explained failed = failed := if_pos herror

theorem explained_error_ne (failed : IoResult) : (explained failed).error ≠ 0 := by
  unfold explained
  split
  next herror => exact herror
  next => exact Nat.succ_ne_zero 4

/-! ## Outcomes -/

/-- `PartOutcome`, less the words it logs. -/
structure PartOutcome where
  firstFailure : IoResult := {}
  lossyFailure : IoResult := {}
  closedBytes : ℕ := 0
  refused : Bool := false
  unconfirmedParts : ℕ := 0
  deriving DecidableEq, Repr

namespace PartOutcome

def failed (o : PartOutcome) : Bool := o.firstFailure.error ≠ 0

def lostBytes (o : PartOutcome) : Bool := o.lossyFailure.error ≠ 0

/-- `Begin`. -/
def begin (o : PartOutcome) : PartOutcome :=
  { o with firstFailure := {}, lossyFailure := {}, closedBytes := 0 }

/-- `Note`. -/
def note (o : PartOutcome) (failure : IoResult) : PartOutcome :=
  let failure := explained failure
  { o with
    refused := o.refused || endsRecording failure.error
    firstFailure := if o.failed then o.firstFailure else failure
    lossyFailure :=
      if losesBytes failure.step && !o.lostBytes then failure else o.lossyFailure }

/-- `Closed`. -/
def closed (o : PartOutcome) (bytes : ℕ) : PartOutcome := { o with closedBytes := bytes }

/-- `result`: what storage completion is told. -/
def result (o : PartOutcome) : IoResult :=
  { (if o.lostBytes then o.lossyFailure else o.firstFailure) with accepted := o.closedBytes }

/-- `Complete`. -/
def complete (o : PartOutcome) (completed : IoResult) : PartOutcome :=
  let o := if completed.error ≠ 0 then o.note completed else o
  if o.failed then { o with unconfirmedParts := o.unconfirmedParts + 1 } else o

end PartOutcome

/-! ## Events -/

/-- A call into storage, with what it is made for.  `header` is the append of a
VREC header, `discard` closes and `remove` and `syncRemoval` unlink a file that is
given up; `syncRemoval` is the `SyncParent` behind a `Remove`.  An `append` says which
slice of one `handleWrite` it is. -/
inductive StorageCall
  | create
  | header
  | append (slice size : ℕ)
  | flush
  | checkpoint
  | writeback (wait : Bool)
  | close
  | discard
  | syncParent
  | remove
  | syncRemoval
  | completed (told : IoResult)
  deriving DecidableEq, Repr

inductive CutReason
  | initial
  | aligned
  | forced
  deriving DecidableEq, Repr

/-- What the writer records of a message. -/
structure RecordedMessage where
  timestamp : Timestamp := {}
  seq : ℕ := 0
  keyframe : Bool := false
  payload : List Byte := []
  syncPoint : SyncPoint := {}
  deriving DecidableEq, Repr

/-- One thing that happened to a part.  `attempted` closes one try at opening it,
`gaveUp` the last one. -/
inductive Event
  | called (part : ℕ) (call : StorageCall) (result : IoResult)
  | encryptFailed (part : ℕ)
  | attempted (part : ℕ) (costs : Bool)
  | gaveUp (part : ℕ)
  | opened (part : ℕ) (reason : CutReason) (point : SyncPoint)
  | record (part : ℕ) (channel : Channel) (msg : RecordedMessage)
  deriving DecidableEq, Repr

namespace Event

def part : Event → ℕ
  | called part _ _ | encryptFailed part | attempted part _ | gaveUp part | opened part _ _
  | record part _ _ => part

/-- The failure of its part that the writer notes for the event. -/
def failure : Event → Option IoResult
  | called _ (.append _ size) result =>
      if result.error ≠ 0 ∨ result.accepted ≠ size then some (explained result) else none
  | called _ .flush result | called _ .checkpoint result | called _ .close result
  | called _ .syncParent result | called _ (.completed _) result =>
      if result.error ≠ 0 then some result else none
  | called _ (.writeback _) result =>
      if result.error ≠ 0 ∧ writebackUnsupported result.error = false then
        some { step := .writeback, error := result.error, uncertain := true }
      else none
  | encryptFailed _ => some { step := .append, error := EIO, uncertain := true }
  | _ => none

end Event

/-- The failures noted for a list of events, in order. -/
def failures (events : List Event) : List IoResult := events.filterMap Event.failure

/-- The first failure that may have lost bytes, else the first failure, else
success. -/
def verdict (noted : List IoResult) : IoResult :=
  ((noted.find? fun failure => losesBytes failure.step).or noted.head?).getD {}

/-! ## The outcome is a function of the events -/

namespace PartOutcome

/-- The outcome after further events. -/
def absorb (o : PartOutcome) (events : List Event) : PartOutcome :=
  (failures events).foldl note o

/-- What an outcome holds of the failures since `Begin`. -/
structure Holds (o : PartOutcome) (noted : List IoResult) : Prop where
  first : o.firstFailure = noted.head?.getD {}
  lossy : o.lossyFailure = (noted.find? fun failure => losesBytes failure.step).getD {}
  errors : ∀ failure ∈ noted, failure.error ≠ 0

theorem holds_begin (o : PartOutcome) : Holds o.begin [] := ⟨rfl, rfl, by simp⟩

variable {o : PartOutcome} {noted : List IoResult}

theorem Holds.failed_iff (hholds : Holds o noted) : o.failed = true ↔ noted ≠ [] := by
  cases noted with
  | nil => simp [failed, hholds.first]
  | cons failure rest =>
      have herror : failure.error ≠ 0 := hholds.errors failure (List.mem_cons_self ..)
      simp [failed, hholds.first, herror]

theorem Holds.lostBytes_eq (hholds : Holds o noted) :
    o.lostBytes = (noted.find? fun failure => losesBytes failure.step).isSome := by
  unfold lostBytes
  cases hfind : noted.find? fun failure => losesBytes failure.step with
  | none => simp [hholds.lossy, hfind]
  | some failure =>
      have herror : failure.error ≠ 0 := hholds.errors failure (List.mem_of_find?_eq_some hfind)
      simp [hholds.lossy, hfind, herror]

theorem Holds.note (hholds : Holds o noted) {failure : IoResult} (herror : failure.error ≠ 0) :
    Holds (o.note failure) (noted ++ [failure]) where
  first := by
    have hfailed := hholds.failed_iff
    simp only [PartOutcome.note, explained_of_error herror]
    cases noted with
    | nil =>
        have hnot : o.failed = false := by simpa using hfailed
        simp [hnot]
    | cons first rest =>
        have hyes : o.failed = true := hfailed.mpr (by simp)
        simp [hyes, hholds.first]
  lossy := by
    simp only [PartOutcome.note, explained_of_error herror, List.find?_append, hholds.lostBytes_eq,
      hholds.lossy]
    cases hfind : noted.find? fun failure => losesBytes failure.step with
    | some lossy => simp
    | none => cases hloses : losesBytes failure.step <;> simp [hloses]
  errors := by
    intro other hother
    rcases List.mem_append.mp hother with hbefore | hlast
    · exact hholds.errors other hbefore
    · rw [List.mem_singleton.mp hlast]
      exact herror

theorem Holds.closed (hholds : Holds o noted) (bytes : ℕ) : Holds (o.closed bytes) noted :=
  ⟨hholds.first, hholds.lossy, hholds.errors⟩

/-- What storage completion is told is the verdict on the noted failures. -/
theorem Holds.result_eq (hholds : Holds o noted) :
    o.result = { verdict noted with accepted := o.closedBytes } := by
  unfold result verdict
  rw [hholds.lostBytes_eq, hholds.lossy, hholds.first]
  cases noted.find? fun failure => losesBytes failure.step <;> rfl

end PartOutcome

theorem failure_error_ne {event : Event} {failure : IoResult}
    (hfailure : event.failure = some failure) : failure.error ≠ 0 := by
  unfold Event.failure at hfailure
  split at hfailure
  · split at hfailure
    · cases hfailure
      exact explained_error_ne _
    · cases hfailure
  case h_7 =>
      split at hfailure
      next herror =>
        cases hfailure
        exact herror.1
      · cases hfailure
  case h_8 =>
      cases hfailure
      decide
  case h_9 => cases hfailure
  all_goals
      split at hfailure
      next herror =>
        cases hfailure
        exact herror
      · cases hfailure

theorem failures_append (first second : List Event) :
    failures (first ++ second) = failures first ++ failures second :=
  List.filterMap_append

namespace PartOutcome

@[simp] theorem absorb_nil (o : PartOutcome) : o.absorb [] = o := rfl

theorem absorb_append (o : PartOutcome) (first second : List Event) :
    o.absorb (first ++ second) = (o.absorb first).absorb second := by
  rw [absorb, failures_append, List.foldl_append]
  rfl

theorem absorb_of_failures_nil {o : PartOutcome} {events : List Event}
    (hnone : failures events = []) : o.absorb events = o := by
  rw [absorb, hnone]
  rfl

theorem absorb_singleton (o : PartOutcome) (event : Event) :
    o.absorb [event] = (event.failure.map o.note).getD o := by
  unfold absorb failures
  cases hfailure : event.failure <;> simp [hfailure]

theorem Holds.absorb {o : PartOutcome} {before : List Event} (hholds : Holds o (failures before))
    (events : List Event) : Holds (o.absorb events) (failures (before ++ events)) := by
  induction events generalizing o before with
  | nil => simpa using hholds
  | cons event rest ih =>
      have hfirst : Holds (o.absorb [event]) (failures (before ++ [event])) := by
        rw [absorb_singleton, failures_append]
        cases hfailure : event.failure with
        | none => simpa [failures, hfailure] using hholds
        | some failure =>
            simpa [failures, hfailure] using hholds.note (failure_error_ne hfailure)
      have hrest := ih hfirst
      rwa [← absorb_append, List.append_assoc, List.singleton_append] at hrest

theorem absorb_closedBytes (o : PartOutcome) (events : List Event) :
    (o.absorb events).closedBytes = o.closedBytes := by
  unfold absorb
  induction failures events generalizing o with
  | nil => rfl
  | cons failure rest ih =>
      rw [List.foldl_cons, ih]
      rfl

/-- Storage has refused for good once a noted failure ends the recording. -/
theorem absorb_refused (o : PartOutcome) (events : List Event) :
    (o.absorb events).refused =
      (o.refused || (failures events).any fun failure => endsRecording failure.error) := by
  induction events generalizing o with
  | nil => simp [failures]
  | cons event rest ih =>
      have hsplit : o.absorb (event :: rest) = (o.absorb [event]).absorb rest :=
        absorb_append o [event] rest
      rw [hsplit, ih, absorb_singleton]
      cases hfailure : event.failure with
      | none => simp [failures, hfailure]
      | some failure =>
          simp [failures, hfailure, note, explained_of_error (failure_error_ne hfailure),
            Bool.or_assoc]

end PartOutcome

end VisioSchema.Mcap

import VisioSchema.Ota.Session

/-!
# The relay

`Relay` / `relay`: one firmware transfer as a machine that takes one turn at a time.  A turn
makes the external calls between two decisions of the driver, and its `Answer` says what they
return: the clock, the link and the image are all in the answers, so a list of answers is a run
of the driver.

`calls` and `heard` are history; no branch reads them.

The three drivers are one machine with a parameter (`Driver`); where they differ, a branch names
the one it is about.  What a turn can do to a configuration is said once, by `Turn`, and
`step_turn` is assembled from one lemma for each turn.  An invariant of all runs is then shown by
the cases of `Turn`, and does not unfold the driver.
-/

namespace VisioSchema.Ota

open VisioSchema.Wire

/-! ## Configurations -/

/-- What `recv` hands back. -/
inductive Recv
  | nothing
  | undecodable
  | status (status : OtaStatus)
  deriving DecidableEq, Repr

/-- What the calls of one turn return; `raised` is an `OSError` in Python and a
rejection in TypeScript, and cannot happen in C++. -/
structure Answer (T : Type*) where
  clock : T
  send : Bool := true
  recv : Recv := .nothing
  quiesce : Bool := true
  read : Bool := true
  raised : Bool := false
  deriving DecidableEq, Repr

inductive Call
  | sent (msg : OtaMessage)
  | quiesce (quiet : Bool)
  deriving DecidableEq, Repr

/-- Where `pump` returns to. -/
inductive Back (T : Type*)
  | start
  | sending
  | committing (deadline : T)
  deriving DecidableEq, Repr

/-- The driver's place.  An outcome `none` is an exception that leaves `relay`. -/
inductive Pc (T : Type*)
  | quiesceOn
  | querySend
  | queryHead (deadline : T) (smallest : ℕ)
  | queryRecv (deadline : T) (smallest : ℕ)
  | beginSend
  | pump (back : Back T)
  | head
  | chunkSend (n : ℕ)
  | tail
  | commitSend
  | commitHead (deadline : T)
  | restore (outcome : Option Outcome)
  | done (outcome : Option Outcome)
  deriving DecidableEq, Repr

structure Config (T : Type*) [Zero T] where
  pc : Pc T := .quiesceOn
  st : Folded := {}
  chunk : ℕ := 0
  resumes : ℕ := 0
  cursor : ℕ := 0
  lastAck : ℕ := 0
  start : T := 0
  lastProgress : T := 0
  lastSoft : T := 0
  quieted : Bool := false
  committed : Bool := false
  calls : List Call := []
  heard : List OtaStatus := []
  deriving DecidableEq, Repr

namespace Config

variable {T : Type*} [Zero T]

/-- The messages handed to `send`, in order. -/
def sent (c : Config T) : List OtaMessage :=
  c.calls.filterMap fun
    | .sent msg => some msg
    | .quiesce _ => none

/-- What the relay returned, once it has. -/
def outcome (c : Config T) : Option Outcome :=
  match c.pc with
  | .done outcome => outcome
  | _ => none

/-- The largest `bytes_received` among the statuses of this session. -/
def largestHeard (session : UInt64) (c : Config T) : ℕ :=
  c.heard.foldr (fun status largest =>
    if foreign session status then largest else max status.bytesReceived.toNat largest) 0

end Config

/-! ## Ways out -/

section Exits

variable {T : Type*} [Zero T]

def call (c : Config T) (made : Call) : Config T := { c with calls := c.calls ++ [made] }

/-- The link is put back on every exit. -/
def finish (c : Config T) (outcome : Option Outcome) : Config T :=
  { c with pc := if c.quieted then .restore outcome else .done outcome }

/-- `done`. -/
def endWith (image : List Byte) (c : Config T) (ok : Bool) (reason : Reason) : Config T :=
  finish c (some ⟨ok, reason, c.st.acked, image.length, c.resumes⟩)

/-- `except OSError` and `catch`. -/
def linkRaised (image : List Byte) (c : Config T) : Config T :=
  if c.st.staged || c.committed then endWith image c true .okLinkAfterCommit
  else endWith image c false .failLinkDropped

/-- `abort_now`, then `done`. -/
def abortWith (d : Driver) (opts : Options T) (image : List Byte) (c : Config T) (why : String)
    (ok : Bool) (reason : Reason) : Config T :=
  endWith image (call c (.sent (abortMessage d opts why))) ok reason

end Exits

/-! ## Answers as the drivers see them -/

section Answers

variable {T : Type*}

def Answer.throws (d : Driver) (a : Answer T) : Bool := d ≠ .cpp && a.raised

inductive SendResult
  | ok
  | gone
  | raised
  deriving DecidableEq, Repr

/-- Python's `send` returns nothing, so there a lost link can only raise. -/
def Answer.sendResult (d : Driver) (a : Answer T) : SendResult :=
  if a.throws d then .raised
  else if d ≠ .python ∧ a.send = false then .gone
  else .ok

end Answers

/-! ## The turns -/

section Turns

variable {T : Type*} [Zero T] [Add T] [Sub T] [LT T] [DecidableLT T] [Min T]
variable (d : Driver) (opts : Options T) (image : List Byte)

/-- The chunk size is settled before the begin. -/
def chooseChunk (c : Config T) (smallest : ℕ) : Config T :=
  { c with chunk := negotiatedChunk opts.chunk opts.chunkCap smallest, pc := .beginSend }

def afterQuiesce (c : Config T) : Config T :=
  if opts.negotiate then { c with pc := .querySend } else chooseChunk opts c 0

def quiesceOn (c : Config T) (a : Answer T) : Config T :=
  if opts.hasQuiesce = false then afterQuiesce opts c
  else if a.throws d then linkRaised image (call c (.quiesce true))
  else afterQuiesce opts { call c (.quiesce true) with quieted := a.quiesce }

def querySend (c : Config T) (a : Answer T) : Config T :=
  let c := call c (.sent (queryMessage d opts))
  match a.sendResult d with
  | .ok => { c with pc := .queryHead (a.clock + opts.queryWait) 0 }
  | .gone => chooseChunk opts c 0
  | .raised => linkRaised image c

/-- TypeScript reads the clock once and tests what is left. -/
def waiting (deadline : T) (a : Answer T) : Bool :=
  if d = .ts then 0 < deadline - a.clock else a.clock < deadline

def queryHead (c : Config T) (deadline : T) (smallest : ℕ) (a : Answer T) : Config T :=
  if waiting d deadline a then { c with pc := .queryRecv deadline smallest }
  else chooseChunk opts c smallest

/-- A payload that does not decode: skipped, an escaping `DecodeError`, or a
rejection that `catch` turns into an outcome. -/
def undecodable (c : Config T) : Config T :=
  match d with
  | .cpp => c
  | .python => finish c none
  | .ts => linkRaised image c

def queryRecv (c : Config T) (deadline : T) (smallest : ℕ) (a : Answer T) : Config T :=
  if a.throws d then linkRaised image c
  else match a.recv with
    | .nothing =>
        if d = .ts then chooseChunk opts c smallest
        else { c with pc := .queryHead deadline smallest }
    | .undecodable => undecodable d image { c with pc := .queryHead deadline smallest }
    | .status status =>
        { c with
          pc := .queryHead deadline
            (if foreign opts.sessionId status then smallest else foldAdvert smallest status) }

def beginSend (c : Config T) (a : Answer T) : Config T :=
  let c := call c (.sent (beginMessage d opts image.length c.chunk))
  match a.sendResult d with
  | .ok =>
      { c with
        start := a.clock, lastProgress := a.clock, lastSoft := a.clock, pc := .pump .start }
  | .gone => endWith image c false .failLinkDropped
  | .raised => linkRaised image c

def pumped (back : Back T) : Pc T :=
  match back with
  | .start => .head
  | .sending => .tail
  | .committing deadline => .commitHead deadline

/-- `pump` and `fold`: one status a turn, until there is none. -/
def pump (c : Config T) (back : Back T) (a : Answer T) : Config T :=
  if a.throws d then linkRaised image c
  else match a.recv with
    | .nothing => { c with pc := pumped back }
    | .undecodable => undecodable d image c
    | .status status =>
        { c with st := fold d opts.sessionId c.st status, heard := status :: c.heard }

/-- Past the send loop. -/
def afterLoop (c : Config T) : Config T :=
  if c.st.failure.isSome then endWith image c false .failDevice
  else if c.st.staged then endWith image c true .okStagedNoTransfer
  else if opts.commit then { c with pc := .commitSend }
  else abortWith d opts image c "no-flash" true .okUploadOnly

/-- `cursor = resume_to`, unless there have been too many. -/
def rewind (c : Config T) (target : ℕ) : Config T :=
  let c := { c with resumes := bump d c.resumes }
  if maxResumes d opts.maxResumes image.length c.chunk < c.resumes then
    abortWith d opts image c "too lossy" false .failTooLossy
  else { c with cursor := target, st := { c.st with resumeTo := none } }

/-- The loop's condition and its body as far as the choice of what to do. -/
def head (c : Config T) (a : Answer T) : Config T :=
  if c.st.finished then afterLoop d opts image c
  else if opts.deadline < a.clock - c.start then
    abortWith d opts image c "deadline" false .failDeadline
  else match c.st.resumeTo with
    | some target => rewind d opts image c target
    | none =>
        let n := min c.chunk (image.length - c.cursor)
        if c.cursor < image.length ∧ inWindow d opts.window c.cursor c.st.acked n then
          { c with pc := .chunkSend n }
        else if image.length ≤ c.cursor ∧ image.length ≤ c.st.acked then afterLoop d opts image c
        else { c with pc := .pump .sending }

/-- `image[offset:offset + length]`. -/
def slice (image : List Byte) (offset length : ℕ) : List Byte := (image.drop offset).take length

def chunkSend (c : Config T) (n : ℕ) (a : Answer T) : Config T :=
  if a.read = false then
    if d = .python ∨ a.throws d then linkRaised image c else endWith image c false .failDevice
  else
    let c := call c (.sent (chunkMessage d opts c.cursor (slice image c.cursor n)))
    match a.sendResult d with
    | .ok => { c with cursor := c.cursor + n, pc := .pump .sending }
    | .gone => endWith image c false .failLinkDropped
    | .raised => linkRaised image c

/-- The stall and soft-retry clocks at the end of the loop's body. -/
def tail (c : Config T) (a : Answer T) : Config T :=
  if c.lastAck < c.st.acked then
    { c with lastAck := c.st.acked, lastProgress := a.clock, lastSoft := a.clock, pc := .head }
  else if opts.stallTimeout < a.clock - c.lastProgress then
    abortWith d opts image c "stall" false .failStalled
  else if opts.softRetry < a.clock - c.lastSoft ∧ c.st.resumeTo = none ∧ c.st.acked < c.cursor then
    { c with
      lastSoft := a.clock, st := { c.st with resumeTo := some c.st.acked }, pc := .head }
  else { c with pc := .head }

def commitSend (c : Config T) (a : Answer T) : Config T :=
  let c := call c (.sent (commitMessage d opts))
  match a.sendResult d with
  | .ok =>
      { c with
        committed := true
        pc := .commitHead (a.clock + min opts.stallTimeout opts.commitWait) }
  | .gone => endWith image c false .failLinkDropped
  | .raised => linkRaised image c

def verdict (c : Config T) : Config T :=
  if c.st.failure.isSome then endWith image c false .failDevice
  else if c.st.succeeded then endWith image c true .okSuccess
  else if c.st.staged then endWith image c true .okStaged
  else endWith image c true .okCommittedUnconfirmed

def commitHead (c : Config T) (deadline : T) (a : Answer T) : Config T :=
  if c.st.finished then verdict image c
  else if a.clock < deadline then { c with pc := .pump (.committing deadline) }
  else verdict image c

def step (c : Config T) (a : Answer T) : Config T :=
  match c.pc with
  | .quiesceOn => quiesceOn d opts image c a
  | .querySend => querySend d opts image c a
  | .queryHead deadline smallest => queryHead d opts c deadline smallest a
  | .queryRecv deadline smallest => queryRecv d opts image c deadline smallest a
  | .beginSend => beginSend d opts image c a
  | .pump back => pump d opts image c back a
  | .head => head d opts image c a
  | .chunkSend n => chunkSend d opts image c n a
  | .tail => tail d opts image c a
  | .commitSend => commitSend d opts image c a
  | .commitHead deadline => commitHead image c deadline a
  | .restore outcome => { call c (.quiesce false) with pc := .done outcome }
  | .done _ => c

/-- The relay fed a list of answers. -/
def relay (answers : List (Answer T)) : Config T := answers.foldl (step d opts image) {}

end Turns

/-! ## What a turn can do -/

section Effects

variable {T : Type*} [Zero T]

/-- Nothing is folded, the commit is no nearer, and a chunk that is about to be
sent has the size that was settled. -/
structure Quiet (opts : Options T) (c c' : Config T) : Prop where
  acked : c'.st.acked = c.st.acked
  succeeded : c'.st.succeeded = c.st.succeeded
  heard : c'.heard = c.heard
  pc : c'.pc ≠ .commitSend
  chunk : c'.chunk = c.chunk ∨
    ∃ smallest, c'.chunk = negotiatedChunk opts.chunk opts.chunkCap smallest
  sized : ∀ n, c'.pc = .chunkSend n → n ≤ c.chunk

/-- A call belongs to the place it is made from. -/
def Due (d : Driver) (image : List Byte) (c : Config T) : Call → Prop
  | .quiesce _ => True
  | .sent msg =>
      match msg.body with
      | .begin .. => c.pc = .beginSend
      | .chunk offset data => ∃ n, data = chunkData d (slice image offset n)
      | .commit => c.pc = .commitSend
      | .abort _ | .query => True

/-- Everything one turn can do to a configuration. -/
inductive Turn (d : Driver) (opts : Options T) (image : List Byte) (c : Config T) (a : Answer T) :
    Config T → Prop
  | silent {c' : Config T} (hquiet : Quiet opts c c') (hcalls : c'.calls = c.calls) :
      Turn d opts image c a c'
  | calls {c' : Config T} (made : Call) (hdue : Due d image c made) (hquiet : Quiet opts c c')
      (hcalls : c'.calls = c.calls ++ [made]) : Turn d opts image c a c'
  | hears (back : Back T) (status : OtaStatus) (hpc : c.pc = .pump back)
      (hrecv : a.recv = .status status) :
      Turn d opts image c a
        { c with st := fold d opts.sessionId c.st status, heard := status :: c.heard }
  | leaves (hpc : c.pc = .head) (hfailure : c.st.failure = none) (hstaged : c.st.staged = false)
      (hcommit : opts.commit = true)
      (hall : c.st.succeeded = true ∨ image.length ≤ c.st.acked) :
      Turn d opts image c a { c with pc := .commitSend }

variable {d : Driver} {opts : Options T} {image : List Byte} {c c' : Config T} {a : Answer T}

theorem finish_quiet (outcome : Option Outcome) (hst : c'.st = c.st) (hheard : c'.heard = c.heard)
    (hchunk : c'.chunk = c.chunk) :
    Quiet opts c (finish c' outcome) := by
  refine ⟨congrArg _ hst, congrArg _ hst, hheard, ?_, Or.inl hchunk, ?_⟩ <;>
  · simp only [finish]
    split <;> simp

theorem endWith_quiet (ok : Bool) (reason : Reason) (hst : c'.st = c.st)
    (hheard : c'.heard = c.heard)
    (hchunk : c'.chunk = c.chunk) : Quiet opts c (endWith image c' ok reason) :=
  finish_quiet _ hst hheard hchunk

@[simp] theorem endWith_calls (ok : Bool) (reason : Reason) :
    (endWith image c ok reason).calls = c.calls := rfl

theorem linkRaised_quiet (hst : c'.st = c.st) (hheard : c'.heard = c.heard)
    (hchunk : c'.chunk = c.chunk) :
    Quiet opts c (linkRaised image c') := by
  unfold linkRaised
  split <;> exact endWith_quiet _ _ hst hheard hchunk

@[simp] theorem linkRaised_calls : (linkRaised image c).calls = c.calls := by
  unfold linkRaised
  split <;> rfl

@[simp] theorem linkRaised_heard : (linkRaised image c).heard = c.heard := by
  unfold linkRaised
  split <;> rfl

theorem abortWith_turn (why : String) (ok : Bool) (reason : Reason) (hst : c'.st = c.st)
    (hheard : c'.heard = c.heard) (hchunk : c'.chunk = c.chunk) (hcalls : c'.calls = c.calls) :
    Turn d opts image c a (abortWith d opts image c' why ok reason) :=
  .calls (.sent (abortMessage d opts why)) trivial (endWith_quiet _ _ hst hheard hchunk)
    (congrArg (· ++ _) hcalls)

theorem chooseChunk_quiet (smallest : ℕ) (hst : c'.st = c.st) (hheard : c'.heard = c.heard) :
    Quiet opts c (chooseChunk opts c' smallest) :=
  ⟨congrArg _ hst, congrArg _ hst, hheard, by simp [chooseChunk], Or.inr ⟨smallest, rfl⟩,
    by simp [chooseChunk]⟩

theorem undecodable_turn (hst : c'.st = c.st) (hheard : c'.heard = c.heard)
    (hchunk : c'.chunk = c.chunk) (hcalls : c'.calls = c.calls) (hpc : c'.pc ≠ .commitSend)
    (hsized : ∀ n, c'.pc ≠ .chunkSend n) : Turn d opts image c a (undecodable d image c') := by
  cases d with
  | cpp =>
      exact .silent ⟨congrArg _ hst, congrArg _ hst, hheard, hpc, Or.inl hchunk,
        fun n hn => absurd hn (hsized n)⟩ hcalls
  | python => exact .silent (finish_quiet none hst hheard hchunk) hcalls
  | ts => exact .silent (linkRaised_quiet hst hheard hchunk) (by simpa [undecodable] using hcalls)

end Effects

/-! ### One lemma for each turn -/

section Turns

variable {T : Type*} [Zero T] {d : Driver} {opts : Options T} {image : List Byte} {c : Config T}

theorem afterQuiesce_quiet {c' : Config T} (hst : c'.st = c.st) (hheard : c'.heard = c.heard)
    (hchunk : c'.chunk = c.chunk) :
    Quiet opts c (afterQuiesce opts c') := by
  unfold afterQuiesce
  split
  · exact ⟨congrArg _ hst, congrArg _ hst, hheard, by simp, Or.inl hchunk, by simp⟩
  · exact chooseChunk_quiet 0 hst hheard

theorem afterQuiesce_calls : (afterQuiesce opts c).calls = c.calls := by
  unfold afterQuiesce chooseChunk
  split <;> rfl

theorem quiesceOn_turn (a : Answer T) :
    Turn d opts image c a (quiesceOn d opts image c a) := by
  unfold quiesceOn
  split
  · exact .silent (afterQuiesce_quiet rfl rfl rfl) afterQuiesce_calls
  split
  · exact .calls (.quiesce true) trivial (linkRaised_quiet rfl rfl rfl) linkRaised_calls
  · exact .calls (.quiesce true) trivial (afterQuiesce_quiet rfl rfl rfl) afterQuiesce_calls

theorem pump_turn (back : Back T) (a : Answer T) (hpc : c.pc = .pump back) :
    Turn d opts image c a (pump d opts image c back a) := by
  unfold pump
  split
  · exact .silent (linkRaised_quiet rfl rfl rfl) linkRaised_calls
  cases hrecv : a.recv with
  | nothing =>
      cases back <;>
        exact .silent ⟨rfl, rfl, rfl, by simp [pumped], Or.inl rfl, by simp [pumped]⟩ rfl
  | undecodable => exact undecodable_turn rfl rfl rfl rfl (by simp [hpc]) (by simp [hpc])
  | status status => exact .hears back status hpc hrecv

theorem afterLoop_turn (a : Answer T) (hpc : c.pc = .head)
    (hall : c.st.succeeded = true ∨ c.st.staged = true ∨ c.st.failure.isSome = true ∨
      image.length ≤ c.st.acked) :
    Turn d opts image c a (afterLoop d opts image c) := by
  unfold afterLoop
  split
  · exact .silent (endWith_quiet _ _ rfl rfl rfl) rfl
  next hfailure =>
    split
    · exact .silent (endWith_quiet _ _ rfl rfl rfl) rfl
    next hstaged =>
      split
      next hcommit =>
        refine .leaves hpc (by simpa using hfailure) (by simpa using hstaged) hcommit ?_
        simpa [hfailure, hstaged] using hall
      · exact abortWith_turn _ _ _ rfl rfl rfl rfl

theorem verdict_quiet : Quiet opts c (verdict image c) := by
  unfold verdict
  split
  · exact endWith_quiet _ _ rfl rfl rfl
  split
  · exact endWith_quiet _ _ rfl rfl rfl
  split <;> exact endWith_quiet _ _ rfl rfl rfl

theorem verdict_calls : (verdict image c).calls = c.calls := by
  unfold verdict
  split
  · rfl
  split
  · rfl
  split <;> rfl

set_option linter.unusedSectionVars false

variable [Add T] [Sub T] [LT T] [DecidableLT T] [Min T]

theorem querySend_turn (a : Answer T) :
    Turn d opts image c a (querySend d opts image c a) := by
  simp only [querySend]
  cases a.sendResult d with
  | ok =>
      exact .calls (.sent (queryMessage d opts)) trivial
        ⟨rfl, rfl, rfl, by simp, Or.inl rfl, by simp⟩ rfl
  | gone => exact .calls (.sent (queryMessage d opts)) trivial (chooseChunk_quiet 0 rfl rfl) rfl
  | raised =>
      exact .calls (.sent (queryMessage d opts)) trivial (linkRaised_quiet rfl rfl rfl)
        linkRaised_calls

theorem queryHead_turn (deadline : T) (smallest : ℕ) (a : Answer T) :
    Turn d opts image c a (queryHead d opts c deadline smallest a) := by
  unfold queryHead
  split
  · exact .silent ⟨rfl, rfl, rfl, by simp, Or.inl rfl, by simp⟩ rfl
  · exact .silent (chooseChunk_quiet smallest rfl rfl) rfl

theorem queryRecv_turn (deadline : T) (smallest : ℕ) (a : Answer T) :
    Turn d opts image c a (queryRecv d opts image c deadline smallest a) := by
  unfold queryRecv
  split
  · exact .silent (linkRaised_quiet rfl rfl rfl) linkRaised_calls
  cases a.recv with
  | nothing =>
      simp only
      split
      · exact .silent (chooseChunk_quiet smallest rfl rfl) rfl
      · exact .silent ⟨rfl, rfl, rfl, by simp, Or.inl rfl, by simp⟩ rfl
  | undecodable => exact undecodable_turn rfl rfl rfl rfl (by simp) (by simp)
  | status status => exact .silent ⟨rfl, rfl, rfl, by simp, Or.inl rfl, by simp⟩ rfl

theorem beginSend_turn (a : Answer T) (hpc : c.pc = .beginSend) :
    Turn d opts image c a (beginSend d opts image c a) := by
  simp only [beginSend]
  cases a.sendResult d with
  | ok =>
      exact .calls (.sent (beginMessage d opts _ _)) hpc
        ⟨rfl, rfl, rfl, by simp, Or.inl rfl, by simp⟩ rfl
  | gone => exact .calls (.sent (beginMessage d opts _ _)) hpc (endWith_quiet _ _ rfl rfl rfl) rfl
  | raised =>
      exact .calls (.sent (beginMessage d opts _ _)) hpc (linkRaised_quiet rfl rfl rfl)
        linkRaised_calls

theorem head_turn (a : Answer T) (hpc : c.pc = .head) :
    Turn d opts image c a (head d opts image c a) := by
  unfold head
  split
  next hfinished =>
    refine afterLoop_turn a hpc ?_
    simp only [Folded.finished, Bool.or_eq_true] at hfinished
    rcases hfinished with (hfailure | hsucceeded) | hstaged
    · exact Or.inr (Or.inr (Or.inl hfailure))
    · exact Or.inl hsucceeded
    · exact Or.inr (Or.inl hstaged)
  split
  · exact abortWith_turn _ _ _ rfl rfl rfl rfl
  split
  · simp only [rewind]
    split
    · exact abortWith_turn _ _ _ rfl rfl rfl rfl
    · exact .silent ⟨rfl, rfl, rfl, by simp [hpc], Or.inl rfl, by simp [hpc]⟩ rfl
  · simp only
    split
    · refine .silent ⟨rfl, rfl, rfl, by simp, Or.inl rfl, ?_⟩ rfl
      intro n hn
      cases hn
      exact Nat.min_le_left _ _
    split
    next hacked => exact afterLoop_turn a hpc (Or.inr (Or.inr (Or.inr hacked.2)))
    · exact .silent ⟨rfl, rfl, rfl, by simp, Or.inl rfl, by simp⟩ rfl

theorem chunkSend_turn (n : ℕ) (a : Answer T) :
    Turn d opts image c a (chunkSend d opts image c n a) := by
  unfold chunkSend
  split
  · split
    · exact .silent (linkRaised_quiet rfl rfl rfl) linkRaised_calls
    · exact .silent (endWith_quiet _ _ rfl rfl rfl) rfl
  · have hdue : Due d image c
        (.sent (chunkMessage d opts c.cursor (slice image c.cursor n))) := ⟨n, rfl⟩
    simp only
    cases a.sendResult d with
    | ok => exact .calls _ hdue ⟨rfl, rfl, rfl, by simp, Or.inl rfl, by simp⟩ rfl
    | gone => exact .calls _ hdue (endWith_quiet _ _ rfl rfl rfl) rfl
    | raised => exact .calls _ hdue (linkRaised_quiet rfl rfl rfl) linkRaised_calls

theorem tail_turn (a : Answer T) : Turn d opts image c a (tail d opts image c a) := by
  unfold tail
  split
  · exact .silent ⟨rfl, rfl, rfl, by simp, Or.inl rfl, by simp⟩ rfl
  split
  · exact abortWith_turn _ _ _ rfl rfl rfl rfl
  split
  · exact .silent ⟨rfl, rfl, rfl, by simp, Or.inl rfl, by simp⟩ rfl
  · exact .silent ⟨rfl, rfl, rfl, by simp, Or.inl rfl, by simp⟩ rfl

theorem commitSend_turn (a : Answer T) (hpc : c.pc = .commitSend) :
    Turn d opts image c a (commitSend d opts image c a) := by
  simp only [commitSend]
  cases a.sendResult d with
  | ok =>
      exact .calls (.sent (commitMessage d opts)) hpc
        ⟨rfl, rfl, rfl, by simp, Or.inl rfl, by simp⟩ rfl
  | gone => exact .calls (.sent (commitMessage d opts)) hpc (endWith_quiet _ _ rfl rfl rfl) rfl
  | raised =>
      exact .calls (.sent (commitMessage d opts)) hpc (linkRaised_quiet rfl rfl rfl)
        linkRaised_calls

theorem commitHead_turn (deadline : T) (a : Answer T) :
    Turn d opts image c a (commitHead image c deadline a) := by
  unfold commitHead
  split
  · exact .silent verdict_quiet verdict_calls
  split
  · exact .silent ⟨rfl, rfl, rfl, by simp, Or.inl rfl, by simp⟩ rfl
  · exact .silent verdict_quiet verdict_calls

theorem step_turn (d : Driver) (opts : Options T) (image : List Byte) (c : Config T)
    (a : Answer T) : Turn d opts image c a (step d opts image c a) := by
  unfold step
  cases hpc : c.pc with
  | quiesceOn => exact quiesceOn_turn a
  | querySend => exact querySend_turn a
  | queryHead deadline smallest => exact queryHead_turn deadline smallest a
  | queryRecv deadline smallest => exact queryRecv_turn deadline smallest a
  | beginSend => exact beginSend_turn a hpc
  | pump back => exact pump_turn back a hpc
  | head => exact head_turn a hpc
  | chunkSend n => exact chunkSend_turn n a
  | tail => exact tail_turn a
  | commitSend => exact commitSend_turn a hpc
  | commitHead deadline => exact commitHead_turn deadline a
  | restore outcome =>
      exact .calls (.quiesce false) trivial ⟨rfl, rfl, rfl, by simp, Or.inl rfl, by simp⟩ rfl
  | done outcome => exact .silent ⟨rfl, rfl, rfl, by simp [hpc], Or.inl rfl, by simp [hpc]⟩ rfl

end Turns

end VisioSchema.Ota

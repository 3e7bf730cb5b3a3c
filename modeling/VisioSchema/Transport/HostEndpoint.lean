import Mathlib.Data.List.Forall2
import VisioSchema.Library.Runs
import VisioSchema.Transport.Reassembly
import VisioSchema.Wire.HostCodec

/-!
# The endpoint of a Python host

`FramedFdEndpoint` of `transport/framed_fd.py`.  Producers call `send` on any thread; one I/O
thread writes the outbox to the fd, reads from it and opens a fresh fd for a dead one.  As in the
C++ twin a step of the I/O thread ends where it takes a lock, calls the operating system or
branches on what another thread writes, and the calls of the others come between any two steps.

What happened on one fd is recorded as a `HostLink`.  Three invariants hold in every run and are
kept step by step.  `Tied` is about the wire: each fd has taken whole frames up to what is in
flight, and what was read from it is extracted.  `Accounted` is about the outbox: what was sent is
taken, waiting, dropped or discarded, in order.  `Reported` is about `on_closed`.

The frames of a link can be read off the bytes that it took, cut anywhere, since the delimiter
occurs in no frame (`extractFrames_prefix`).  So on links that end in another host's endpoint,
whatever is cut, dropped, torn or opened again, that host hears a subsequence of what was sent
(`hosts_deliver`).
-/

namespace VisioSchema.Transport

open VisioSchema.Wire VisioSchema.Library

/-! ## The endpoint -/

/-- What happened on one fd: the frames that were taken for it, the bytes that it took, the bytes
that were read from it and the messages that were handed on. -/
structure HostLink where
  taken : List (List Byte) := []
  written : List Byte := []
  heard : List Byte := []
  delivered : List HostMessage := []
  deriving DecidableEq, Repr

/-- Where the I/O thread stands: at `select`, in `_pump` before a write or before the lock, in
`_mark_link_dead`, before the read and at `tick`.  Inside `_pump` the thread remembers whether
`select` found the fd readable; `_mark_link_dead` goes back to `_pump`, or to the read (`none`). -/
inductive HostPc
  | select
  | pump (readable : Bool)
  | take (readable : Bool)
  | dying (readable : Option Bool)
  | cleared (readable : Option Bool)
  | read (readable : Bool)
  | tick
  | exited
  deriving DecidableEq, Repr

/-- The arguments of the constructor, and whether it gets an fd. -/
structure HostOptions where
  reopenable : Bool := false
  maxOutbox : ℕ := 4096
  reopenBackoffNs : ℤ := 500000000
  fdUp : Bool := true
  deriving DecidableEq, Repr

structure HostEndpoint where
  reopenable : Bool
  maxOutbox : ℕ
  reopenBackoffNs : ℤ
  fdUp : Bool
  nextReopenNs : ℤ := 0
  outbox : List (List Byte) := []
  outboxBytes : ℤ := 0
  dropped : ℕ := 0
  inflight : List Byte := []
  rx : List Byte := []
  stop : Bool := false
  closedReports : ℕ := 0
  pc : HostPc := .select
  /-- The fds that were closed, and the one in use. -/
  past : List HostLink := []
  link : HostLink := {}
  sent : List HostMessage := []
  discarded : ℕ := 0
  deriving Repr

/-- What the operating system answers to a step: whether `select` finds the fd readable, how many
bytes a write takes (`none` is a broken fd), what a read gives (`none` is an end or a dead fd), the
clock, and whether the factory opens an fd. -/
structure HostAnswer where
  readable : Bool := false
  accept : Option ℕ := some 0
  chunk : Option (List Byte) := some []
  nowNs : ℤ := 0
  opens : Bool := false
  deriving DecidableEq, Repr

namespace HostEndpoint

variable (lib : HostLibraries)
  (s : HostEndpoint)

def goto (pc : HostPc) : HostEndpoint := { s with pc := pc }

/-- Every fd there was. -/
def links : List HostLink := if s.fdUp then s.past ++ [s.link] else s.past

/-- `pending_bytes`. -/
def pendingBytes : ℤ := s.outboxBytes + s.inflight.length

/-- The oldest frame makes room; `popleft` of an empty outbox raises. -/
def makeRoom : Option HostEndpoint :=
  if s.maxOutbox ≤ s.outbox.length then
    match s.outbox with
    | [] => none
    | old :: rest => some
        { s with
          outbox := rest
          outboxBytes := s.outboxBytes - old.length
          dropped := s.dropped + 1 }
  else some s

/-- The end of `send`. -/
def queue (msg : HostMessage) (framed : List Byte) : HostEndpoint :=
  { s with
    outbox := s.outbox ++ [framed]
    outboxBytes := s.outboxBytes + framed.length
    sent := s.sent ++ [msg] }

/-- `send`; a message that cannot be framed raises before the lock. -/
def send (msg : HostMessage) : HostEndpoint :=
  match lib.frameBytes msg with
  | .error _ => s
  | .ok framed =>
      match s.makeRoom with
      | none => s
      | some s => s.queue msg framed

/-- `close_fd`. -/
def closeFd : HostEndpoint :=
  if s.fdUp then { s with fdUp := false, past := s.past ++ [s.link], link := {} } else s

/-- `_adopt` of a fresh fd. -/
def adopt : HostEndpoint := { s with fdUp := true, rx := [] }

/-- The head of the loop of `_pump`. -/
def pumpStep (readable : Bool) (answer : HostAnswer) : HostEndpoint :=
  if s.fdUp = false then s.goto (.read readable)
  else if s.inflight = [] then s.goto (.take readable)
  else
    match answer.accept with
    | none => s.closeFd.goto (.dying (some readable))
    | some n =>
        let chunk := s.inflight.take n
        if chunk = [] then s.goto (.read readable)
        else
          let s := { s with
            inflight := s.inflight.drop n
            link := { s.link with written := s.link.written ++ chunk } }
          -- a partial write waits for the fd
          if s.inflight = [] then s.goto (.take readable) else s.goto (.read readable)

/-- The lock of `_pump`: the next frame. -/
def takeStep (readable : Bool) : HostEndpoint :=
  match s.outbox with
  | [] => s.goto (.read readable)
  | frame :: rest =>
      { s with
        outbox := rest
        outboxBytes := s.outboxBytes - frame.length
        inflight := frame
        link := { s.link with taken := s.link.taken ++ [frame] }
        pc := .pump readable }

/-- The lock of `_mark_link_dead`. -/
def dyingStep (readable : Option Bool) : HostEndpoint :=
  { s with
    outbox := []
    outboxBytes := 0
    discarded := s.discarded + s.outbox.length
    pc := .cleared readable }

/-- The end of `_mark_link_dead`. -/
def clearedStep (readable : Option Bool) : HostEndpoint :=
  { s with
    inflight := []
    rx := []
    nextReopenNs := 0
    pc := match readable with
      | some readable => .read readable
      | none => .tick }

/-- `_read_inbound`; the read of a closed fd fails. -/
def readStep (answer : HostAnswer) : HostEndpoint :=
  match if s.fdUp then answer.chunk else none with
  | none =>
      if s.reopenable then s.closeFd.goto (.dying none)
      else { s with closedReports := s.closedReports + 1, stop := true, pc := .tick }
  | some chunk =>
      let got := extractFrames lib.unframe (s.rx ++ chunk)
      { s with
        rx := got.2
        link := { s.link with
          heard := s.link.heard ++ chunk
          delivered := s.link.delivered ++ got.1 }
        pc := .tick }

/-- `tick`: a dead fd is opened again, with a backoff behind a failure. -/
def tickStep (answer : HostAnswer) : HostEndpoint :=
  if s.fdUp ∨ s.reopenable = false ∨ answer.nowNs < s.nextReopenNs then s.goto .select
  else if answer.opens then s.adopt.goto .select
  else { s with nextReopenNs := answer.nowNs + s.reopenBackoffNs, pc := .select }

/-- The next step of the I/O thread. -/
def ioStep (answer : HostAnswer) : HostEndpoint :=
  match s.pc with
  | .select => if s.stop then s.goto .exited else s.goto (.pump (s.fdUp && answer.readable))
  | .pump readable => s.pumpStep readable answer
  | .take readable => s.takeStep readable
  | .dying readable => s.dyingStep readable
  | .cleared readable => s.clearedStep readable
  | .read readable => if readable then s.readStep lib answer else s.goto .tick
  | .tick => s.tickStep answer
  | .exited => s

/-! ## The machine -/

/-- A call of another thread, or a step of the I/O thread.  `stop` ends in `joined`. -/
inductive Input
  | send (msg : HostMessage)
  | stop
  | joined
  | start
  | io (answer : HostAnswer)
  deriving DecidableEq, Repr

def step : Input → HostEndpoint
  | .send msg => s.send lib msg
  | .stop => { s with stop := true }
  | .joined => if s.pc = .exited then s.closeFd else s
  | .start => if s.pc = .exited then { s with stop := false, pc := .select } else s
  | .io answer => s.ioStep lib answer

/-- The state after a run. -/
def run (inputs : List Input) : HostEndpoint :=
  inputs.foldl (step lib) s

/-- What the constructor leaves. -/
def init (options : HostOptions) : HostEndpoint where
  reopenable := options.reopenable
  maxOutbox := options.maxOutbox
  reopenBackoffNs := options.reopenBackoffNs
  fdUp := options.fdUp

/-- An endpoint without an fd is not started again with the rest of a frame in flight: `stop` leaves
it there. -/
def CleanStart : Input → Prop
  | .start => s.pc = .exited → s.fdUp = false → s.inflight = []
  | _ => True

/-! ## The wire -/

/-- A message is refused, queued, or queued in the room of the oldest frame. -/
theorem send_cases (msg : HostMessage) :
    s.send lib msg = s ∨
      (∃ framed, lib.frameBytes msg = .ok framed ∧ s.outbox.length < s.maxOutbox ∧
        s.send lib msg = s.queue msg framed) ∨
      ∃ framed old rest, lib.frameBytes msg = .ok framed ∧ s.outbox = old :: rest ∧
        s.send lib msg = ({ s with
          outbox := rest
          outboxBytes := s.outboxBytes - old.length
          dropped := s.dropped + 1 } : HostEndpoint).queue msg framed := by
  unfold send makeRoom
  cases hframed : lib.frameBytes msg with
  | error exc => exact Or.inl rfl
  | ok framed =>
      by_cases hfull : s.maxOutbox ≤ s.outbox.length
      · rw [if_pos hfull]
        cases hbox : s.outbox with
        | nil => exact Or.inl rfl
        | cons old rest => exact Or.inr (Or.inr ⟨framed, old, rest, rfl, rfl, rfl⟩)
      · rw [if_neg hfull]
        exact Or.inr (Or.inl ⟨framed, rfl, Nat.lt_of_not_le hfull, rfl⟩)

/-- The I/O thread is inside `_mark_link_dead`, or gone. -/
def Leaving (pc : HostPc) : Prop := (∃ r, pc = .dying r) ∨ (∃ r, pc = .cleared r) ∨ pc = .exited

/-- Each fd has taken whole frames, up to what is in flight; what was read is extracted. -/
structure Tied (lib : HostLibraries) (s : HostEndpoint) : Prop where
  current : s.fdUp = true → s.link.taken.flatten = s.link.written ++ s.inflight
  heard : s.fdUp = true →
    extractFrames lib.unframe s.link.heard = (s.link.delivered, s.rx)
  past : ∀ link ∈ s.past, link.written <+: link.taken.flatten ∧
    link.delivered = (extractFrames lib.unframe link.heard).1
  blank : s.fdUp = false → s.link = {}
  down : s.fdUp = false → s.inflight = [] ∨ Leaving s.pc
  taking : ∀ r, s.pc = .take r → s.fdUp = true ∧ s.inflight = []
  dead : (∃ r, s.pc = .dying r) ∨ (∃ r, s.pc = .cleared r) → s.fdUp = false

section Tied

variable {lib} {s : HostEndpoint}

theorem tied_init (options : HostOptions) : Tied lib (init options) where
  current := fun _ => rfl
  heard := by
    intro _
    rw [extractFrames_eq]
    rfl
  past := by simp [init]
  blank := fun _ => rfl
  down := fun _ => Or.inl rfl
  taking := by simp [init]
  dead := by simp [init]

/-- Steps that leave the fd and what is in flight alone, outside `_mark_link_dead`. -/
theorem Tied.goto (htied : Tied lib s) (hstay : ¬ Leaving s.pc) (pc : HostPc)
    (htake : ∀ r, pc = .take r → s.fdUp = true ∧ s.inflight = [])
    (hdead : ¬ ((∃ r, pc = .dying r) ∨ (∃ r, pc = .cleared r))) :
    Tied lib (s.goto pc) where
  current := htied.current
  heard := htied.heard
  past := htied.past
  blank := htied.blank
  down := fun hdown => Or.inl ((htied.down hdown).resolve_right hstay)
  taking := htake
  dead := fun hpc => absurd hpc hdead

/-- The link that is closed is one that was. -/
theorem Tied.closeFd (htied : Tied lib s) {pc : HostPc} (hpc : Leaving pc) :
    Tied lib (s.closeFd.goto pc) := by
  have htake : ∀ r, pc = .take r → False := by
    rintro r rfl
    simp [Leaving] at hpc
  unfold HostEndpoint.closeFd
  cases hup : s.fdUp with
  | false =>
      exact ⟨fun h => absurd h (by simp [HostEndpoint.goto, hup]),
        fun h => absurd h (by simp [HostEndpoint.goto, hup]), htied.past, htied.blank,
        fun _ => Or.inr hpc, fun r h => absurd h (htake r), fun _ => hup⟩
  | true =>
      refine ⟨fun h => absurd h (by simp [HostEndpoint.goto]),
        fun h => absurd h (by simp [HostEndpoint.goto]), ?_, fun _ => rfl, fun _ => Or.inr hpc,
        fun r h => absurd h (htake r), fun _ => rfl⟩
      intro link hmem
      rcases List.mem_append.mp hmem with hold | hnew
      · exact htied.past link hold
      · obtain rfl := List.mem_singleton.mp hnew
        refine ⟨?_, ?_⟩
        · rw [htied.current hup]
          exact List.prefix_append ..
        · rw [htied.heard hup]

/-- The outbox and the counters are no part of it. -/
theorem Tied.of_outbox (htied : Tied lib s) (outbox : List (List Byte)) (outboxBytes : ℤ)
    (dropped discarded : ℕ) (sent : List HostMessage) :
    Tied lib { s with
      outbox := outbox, outboxBytes := outboxBytes, dropped := dropped, discarded := discarded
      sent := sent } :=
  ⟨htied.current, htied.heard, htied.past, htied.blank, htied.down, htied.taking, htied.dead⟩

theorem pumpStep_tied (htied : Tied lib s) {r : Bool} (hpc : s.pc = .pump r)
    (answer : HostAnswer) : Tied lib (s.pumpStep r answer) := by
  have hstay : ¬ Leaving s.pc := by simp [Leaving, hpc]
  unfold pumpStep
  by_cases hup : s.fdUp = false
  · rw [if_pos hup]
    exact htied.goto hstay _ (by simp) (by simp)
  rw [if_neg hup]
  have hup : s.fdUp = true := by simpa using hup
  by_cases hidle : s.inflight = []
  · rw [if_pos hidle]
    exact htied.goto hstay _ (fun _ _ => ⟨hup, hidle⟩) (by simp)
  rw [if_neg hidle]
  cases answer.accept with
  | none => exact htied.closeFd (Or.inl ⟨_, rfl⟩)
  | some n =>
      dsimp only
      by_cases hnone : s.inflight.take n = []
      · rw [if_pos hnone]
        exact htied.goto hstay _ (by simp) (by simp)
      · rw [if_neg hnone]
        have hwritten : Tied lib
            { s with
              inflight := s.inflight.drop n
              link := { s.link with written := s.link.written ++ s.inflight.take n } } := by
          refine ⟨fun _ => ?_, htied.heard, htied.past, fun hdown => ?_, fun hdown => ?_, ?_,
            htied.dead⟩
          · dsimp only
            rw [htied.current hup, List.append_assoc, List.take_append_drop]
          · rw [hup] at hdown
            cases hdown
          · rw [hup] at hdown
            cases hdown
          · intro r' htake
            rw [hpc] at htake
            cases htake
        by_cases hdone : s.inflight.drop n = []
        · rw [if_pos hdone]
          exact hwritten.goto hstay _ (fun _ _ => ⟨hup, hdone⟩) (by simp)
        · rw [if_neg hdone]
          exact hwritten.goto hstay _ (by simp) (by simp)

theorem takeStep_tied (htied : Tied lib s) {r : Bool} (hpc : s.pc = .take r) :
    Tied lib (s.takeStep r) := by
  have hstay : ¬ Leaving s.pc := by simp [Leaving, hpc]
  obtain ⟨hup, hidle⟩ := htied.taking r hpc
  unfold takeStep
  cases hbox : s.outbox with
  | nil => exact htied.goto hstay _ (by simp) (by simp)
  | cons frame rest =>
      refine ⟨fun _ => ?_, htied.heard, htied.past, fun hdown => ?_, fun hdown => ?_, by simp,
        by simp⟩
      · dsimp only
        rw [List.flatten_append, htied.current hup, hidle]
        simp
      · rw [show s.fdUp = false from hdown] at hup
        cases hup
      · rw [show s.fdUp = false from hdown] at hup
        cases hup

theorem clearedStep_tied (htied : Tied lib s) {r : Option Bool} (hpc : s.pc = .cleared r) :
    Tied lib (s.clearedStep r) := by
  have hdown : s.fdUp = false := htied.dead (Or.inr ⟨r, hpc⟩)
  refine ⟨fun hup => ?_, fun hup => ?_, htied.past, htied.blank, fun _ => Or.inl rfl, ?_, ?_⟩
  · rw [show s.fdUp = true from hup] at hdown
    cases hdown
  · rw [show s.fdUp = true from hup] at hdown
    cases hdown
  · cases r <;> simp [clearedStep]
  · cases r <;> simp [clearedStep]

theorem readStep_tied (htied : Tied lib s) {r : Bool} (hpc : s.pc = .read r)
    (answer : HostAnswer) : Tied lib (s.readStep lib answer) := by
  have hstay : ¬ Leaving s.pc := by simp [Leaving, hpc]
  unfold readStep
  cases hread : if s.fdUp then answer.chunk else none with
  | none =>
      dsimp only
      by_cases hreopen : s.reopenable = true
      · rw [if_pos hreopen]
        exact htied.closeFd (Or.inl ⟨_, rfl⟩)
      · rw [if_neg hreopen]
        have hended := htied.goto hstay .tick (by simp) (by simp)
        exact ⟨hended.current, hended.heard, hended.past, hended.blank, hended.down,
          hended.taking, hended.dead⟩
  | some chunk =>
      have hup : s.fdUp = true := by
        by_contra hdown
        rw [if_neg hdown] at hread
        cases hread
      refine ⟨htied.current, fun _ => ?_, htied.past, fun hdown => ?_, fun hdown => ?_, by simp,
        by simp⟩
      · dsimp only
        rw [extractFrames_append, htied.heard hup]
      · rw [show s.fdUp = false from hdown] at hup
        cases hup
      · rw [show s.fdUp = false from hdown] at hup
        cases hup

theorem tickStep_tied (htied : Tied lib s) (hpc : s.pc = .tick) (answer : HostAnswer) :
    Tied lib (s.tickStep answer) := by
  have hstay : ¬ Leaving s.pc := by simp [Leaving, hpc]
  unfold tickStep
  by_cases hwait : s.fdUp ∨ s.reopenable = false ∨ answer.nowNs < s.nextReopenNs
  · rw [if_pos hwait]
    exact htied.goto hstay _ (by simp) (by simp)
  rw [if_neg hwait]
  have hdown : s.fdUp = false := by
    have hnot : ¬ s.fdUp = true := fun h => hwait (Or.inl h)
    simpa using hnot
  cases answer.opens with
  | true =>
      -- nothing is in flight on a link that starts
      have hidle : s.inflight = [] := (htied.down hdown).resolve_right hstay
      have hblank : s.link = {} := htied.blank hdown
      refine ⟨fun _ => ?_, fun _ => ?_, htied.past, fun h => by simp [adopt, goto] at h,
        fun h => by simp [adopt, goto] at h, by simp [goto], by simp [goto]⟩
      · simp [adopt, goto, hidle, hblank]
      · dsimp only [adopt, goto]
        rw [hblank, extractFrames_eq]
        rfl
  | false =>
      have hended := htied.goto hstay .select (by simp) (by simp)
      exact ⟨hended.current, hended.heard, hended.past, hended.blank, hended.down,
        hended.taking, hended.dead⟩

theorem ioStep_tied (htied : Tied lib s) (answer : HostAnswer) :
    Tied lib (s.ioStep lib answer) := by
  unfold ioStep
  cases hpc : s.pc with
  | select =>
      have hstay : ¬ Leaving s.pc := by simp [Leaving, hpc]
      dsimp only
      by_cases hstop : s.stop = true
      · rw [if_pos hstop]
        exact htied.goto hstay _ (by simp) (by simp)
      · rw [if_neg hstop]
        exact htied.goto hstay _ (by simp) (by simp)
  | pump r => exact pumpStep_tied htied hpc answer
  | take r => exact takeStep_tied htied hpc
  | dying r =>
      have hdown : s.fdUp = false := htied.dead (Or.inl ⟨r, hpc⟩)
      have hbox := htied.of_outbox [] 0 s.dropped (s.discarded + s.outbox.length) s.sent
      exact ⟨hbox.current, hbox.heard, hbox.past, hbox.blank,
        fun _ => Or.inr (Or.inr (Or.inl ⟨r, rfl⟩)), by simp [dyingStep], fun _ => hdown⟩
  | cleared r => exact clearedStep_tied htied hpc
  | read r =>
      cases r with
      | true => exact readStep_tied htied hpc answer
      | false => exact htied.goto (by simp [Leaving, hpc]) _ (by simp) (by simp)
  | tick => exact tickStep_tied htied hpc answer
  | exited => exact htied

theorem send_tied (htied : Tied lib s) (msg : HostMessage) : Tied lib (s.send lib msg) := by
  rcases send_cases lib s msg with hsame | ⟨framed, -, -, hsend⟩ | ⟨framed, old, rest, -, -, hsend⟩
  · rw [hsame]
    exact htied
  · rw [hsend]
    exact htied.of_outbox _ _ s.dropped s.discarded _
  · rw [hsend]
    exact htied.of_outbox _ _ _ s.discarded _

theorem closeFd_goto_self {pc : HostPc} (hpc : s.pc = pc) : s.closeFd.goto pc = s.closeFd := by
  subst hpc
  unfold HostEndpoint.closeFd
  by_cases hup : s.fdUp = true
  · rw [if_pos hup]
    rfl
  · rw [if_neg hup]
    rfl

theorem step_tied (htied : Tied lib s) {input : Input} (hclean : CleanStart s input) :
    Tied lib (s.step lib input) := by
  cases input with
  | send msg => exact send_tied htied msg
  | stop =>
      exact ⟨htied.current, htied.heard, htied.past, htied.blank, htied.down, htied.taking,
        htied.dead⟩
  | joined =>
      change Tied lib (if s.pc = .exited then s.closeFd else s)
      by_cases hpc : s.pc = .exited
      · rw [if_pos hpc, ← closeFd_goto_self hpc]
        exact htied.closeFd (Or.inr (Or.inr rfl))
      · rw [if_neg hpc]
        exact htied
  | start =>
      change Tied lib
        (if s.pc = .exited then { s with stop := false, pc := .select } else s)
      by_cases hpc : s.pc = .exited
      · rw [if_pos hpc]
        exact ⟨htied.current, htied.heard, htied.past, htied.blank,
          fun hdown => Or.inl (hclean hpc hdown), by simp, by simp⟩
      · rw [if_neg hpc]
        exact htied
  | io answer => exact ioStep_tied htied answer

end Tied

/-! ## The accounts -/

/-- The frames that were taken from the outbox, over all fds. -/
def taken (s : HostEndpoint) : List (List Byte) :=
  s.past.flatMap HostLink.taken ++ s.link.taken

/-- Frames leave the outbox in the order in which they were sent, each at most once; every one is
taken, waiting, dropped to make room or discarded with a dead fd, and the bytes that wait are
counted. -/
structure Accounted (lib : HostLibraries) (s : HostEndpoint) : Prop where
  sendable : ∀ msg ∈ s.sent, lib.frameBytes msg = .ok (lib.framed msg)
  order : (s.taken ++ s.outbox).Sublist (s.sent.map lib.framed)
  count : s.sent.length = s.taken.length + s.outbox.length + s.dropped + s.discarded
  bytes : s.outboxBytes = s.outbox.flatten.length
  bound : s.outbox.length ≤ s.maxOutbox

section Accounted

variable {lib} {s : HostEndpoint}

theorem accounted_init (options : HostOptions) : Accounted lib (init options) :=
  ⟨by simp [init], List.Sublist.refl _, rfl, rfl, Nat.zero_le _⟩

/-- Steps that move no frame. -/
theorem Accounted.of_same (haccounted : Accounted lib s) {s' : HostEndpoint}
    (htaken : s'.taken = s.taken) (houtbox : s'.outbox = s.outbox)
    (hbytes : s'.outboxBytes = s.outboxBytes) (hdropped : s'.dropped = s.dropped)
    (hdiscarded : s'.discarded = s.discarded) (hsent : s'.sent = s.sent)
    (hmax : s'.maxOutbox = s.maxOutbox) : Accounted lib s' where
  sendable := by
    rw [hsent]
    exact haccounted.sendable
  order := by
    rw [htaken, houtbox, hsent]
    exact haccounted.order
  count := by
    rw [htaken, houtbox, hsent, hdropped, hdiscarded]
    exact haccounted.count
  bytes := by
    rw [houtbox, hbytes]
    exact haccounted.bytes
  bound := by
    rw [houtbox, hmax]
    exact haccounted.bound

theorem Accounted.goto (haccounted : Accounted lib s) (pc : HostPc) :
    Accounted lib (s.goto pc) :=
  haccounted.of_same rfl rfl rfl rfl rfl rfl rfl

theorem taken_closeFd (s : HostEndpoint) : s.closeFd.taken = s.taken := by
  unfold HostEndpoint.closeFd taken
  by_cases hup : s.fdUp = true
  · rw [if_pos hup]
    simp
  · rw [if_neg hup]

theorem Accounted.closeFd (haccounted : Accounted lib s) : Accounted lib s.closeFd := by
  have htaken := taken_closeFd s
  unfold HostEndpoint.closeFd at htaken ⊢
  by_cases hup : s.fdUp = true
  · rw [if_pos hup] at htaken ⊢
    exact haccounted.of_same htaken rfl rfl rfl rfl rfl rfl
  · rw [if_neg hup]
    exact haccounted

/-- A frame is dropped to make room. -/
theorem Accounted.dropOldest (haccounted : Accounted lib s) {old : List Byte}
    {rest : List (List Byte)} (hbox : s.outbox = old :: rest) :
    Accounted lib { s with
      outbox := rest
      outboxBytes := s.outboxBytes - old.length
      dropped := s.dropped + 1 } ∧ rest.length < s.maxOutbox := by
  obtain ⟨hsendable, horder, hcount, hbytes, hbound⟩ := haccounted
  rw [hbox] at horder hcount hbytes hbound
  rw [List.flatten_cons, List.length_append] at hbytes
  rw [List.length_cons] at hcount hbound
  have hrest : (s.taken ++ rest).Sublist (s.taken ++ old :: rest) :=
    (List.sublist_cons_self old rest).append_left s.taken
  refine ⟨⟨hsendable, hrest.trans horder, ?_, ?_, ?_⟩, hbound⟩
  · change s.sent.length = s.taken.length + rest.length + (s.dropped + 1) + s.discarded
    omega
  · dsimp only
    omega
  · exact Nat.le_of_succ_le hbound

/-- A message is queued where there is room. -/
theorem Accounted.queue (haccounted : Accounted lib s) (hroom : s.outbox.length < s.maxOutbox)
    {msg : HostMessage} {framed : List Byte} (hframed : lib.frameBytes msg = .ok framed) :
    Accounted lib (s.queue msg framed) := by
  obtain ⟨hsendable, horder, hcount, hbytes, hbound⟩ := haccounted
  have heq := HostLibraries.framed_eq hframed
  refine ⟨?_, ?_, ?_, ?_, ?_⟩
  · intro m hm
    rcases List.mem_append.mp hm with hold | hnew
    · exact hsendable m hold
    · rw [List.mem_singleton.mp hnew, heq]
      exact hframed
  · change (s.taken ++ (s.outbox ++ [framed])).Sublist ((s.sent ++ [msg]).map lib.framed)
    rw [List.map_append, List.map_singleton, heq, ← List.append_assoc]
    exact horder.append_right _
  · change (s.sent ++ [msg]).length =
      s.taken.length + (s.outbox ++ [framed]).length + s.dropped + s.discarded
    rw [List.length_append, List.length_append, List.length_singleton, List.length_singleton]
    omega
  · change s.outboxBytes + framed.length = (s.outbox ++ [framed]).flatten.length
    rw [List.flatten_append, List.flatten_singleton, List.length_append]
    omega
  · change (s.outbox ++ [framed]).length ≤ s.maxOutbox
    rw [List.length_append, List.length_singleton]
    exact hroom

theorem send_accounted (haccounted : Accounted lib s) (msg : HostMessage) :
    Accounted lib (s.send lib msg) := by
  rcases send_cases lib s msg with hsame | ⟨framed, hframed, hroom, hsend⟩ |
    ⟨framed, old, rest, hframed, hbox, hsend⟩
  · rw [hsame]
    exact haccounted
  · rw [hsend]
    exact haccounted.queue hroom hframed
  · obtain ⟨hdropped, hroom⟩ := haccounted.dropOldest hbox
    rw [hsend]
    exact hdropped.queue hroom hframed

theorem pumpStep_accounted (haccounted : Accounted lib s) (r : Bool)
    (answer : HostAnswer) : Accounted lib (s.pumpStep r answer) := by
  unfold pumpStep
  by_cases hup : s.fdUp = false
  · rw [if_pos hup]
    exact haccounted.goto _
  rw [if_neg hup]
  by_cases hidle : s.inflight = []
  · rw [if_pos hidle]
    exact haccounted.goto _
  rw [if_neg hidle]
  cases answer.accept with
  | none => exact haccounted.closeFd.goto _
  | some n =>
      dsimp only
      by_cases hnone : s.inflight.take n = []
      · rw [if_pos hnone]
        exact haccounted.goto _
      · rw [if_neg hnone]
        by_cases hdone : s.inflight.drop n = []
        · rw [if_pos hdone]
          exact haccounted.of_same rfl rfl rfl rfl rfl rfl rfl
        · rw [if_neg hdone]
          exact haccounted.of_same rfl rfl rfl rfl rfl rfl rfl

/-- The frame at the head of the outbox goes to the fd. -/
theorem takeStep_accounted (haccounted : Accounted lib s) (r : Bool) :
    Accounted lib (s.takeStep r) := by
  unfold takeStep
  cases hbox : s.outbox with
  | nil => exact haccounted.goto _
  | cons frame rest =>
      obtain ⟨hsendable, horder, hcount, hbytes, hbound⟩ := haccounted
      rw [hbox] at horder hcount hbytes hbound
      rw [List.flatten_cons, List.length_append] at hbytes
      rw [List.length_cons] at hcount hbound
      have htaken : ({ s with
        outbox := rest
        outboxBytes := s.outboxBytes - frame.length
        inflight := frame
        link := { s.link with taken := s.link.taken ++ [frame] }
        pc := .pump r } : HostEndpoint).taken = s.taken ++ [frame] :=
        (List.append_assoc ..).symm
      refine ⟨hsendable, ?_, ?_, ?_, ?_⟩
      · rw [htaken, List.append_assoc]
        exact horder
      · rw [htaken, List.length_append, List.length_singleton]
        dsimp only
        omega
      · dsimp only
        omega
      · dsimp only
        omega

theorem dyingStep_accounted (haccounted : Accounted lib s) (r : Option Bool) :
    Accounted lib (s.dyingStep r) := by
  obtain ⟨hsendable, horder, hcount, -, -⟩ := haccounted
  have htaken : (s.dyingStep r).taken = s.taken := rfl
  refine ⟨hsendable, ?_, ?_, rfl, Nat.zero_le _⟩
  · rw [htaken]
    have hfront : (s.taken ++ []).Sublist (s.taken ++ s.outbox) :=
      (List.nil_sublist _).append_left s.taken
    exact hfront.trans horder
  · rw [htaken]
    dsimp only [dyingStep]
    rw [List.length_nil]
    omega

theorem readStep_accounted (haccounted : Accounted lib s) (answer : HostAnswer) :
    Accounted lib (s.readStep lib answer) := by
  unfold readStep
  cases if s.fdUp then answer.chunk else none with
  | none =>
      dsimp only
      by_cases hreopen : s.reopenable = true
      · rw [if_pos hreopen]
        exact haccounted.closeFd.goto _
      · rw [if_neg hreopen]
        exact haccounted.of_same rfl rfl rfl rfl rfl rfl rfl
  | some chunk => exact haccounted.of_same rfl rfl rfl rfl rfl rfl rfl

theorem tickStep_accounted (haccounted : Accounted lib s) (answer : HostAnswer) :
    Accounted lib (s.tickStep answer) := by
  unfold tickStep
  by_cases hwait : s.fdUp ∨ s.reopenable = false ∨ answer.nowNs < s.nextReopenNs
  · rw [if_pos hwait]
    exact haccounted.goto _
  rw [if_neg hwait]
  cases answer.opens with
  | true => exact haccounted.of_same rfl rfl rfl rfl rfl rfl rfl
  | false => exact haccounted.of_same rfl rfl rfl rfl rfl rfl rfl

theorem step_accounted (haccounted : Accounted lib s) (input : Input) :
    Accounted lib (s.step lib input) := by
  cases input with
  | send msg => exact send_accounted haccounted msg
  | stop => exact haccounted.of_same rfl rfl rfl rfl rfl rfl rfl
  | joined =>
      change Accounted lib (if s.pc = .exited then s.closeFd else s)
      by_cases hpc : s.pc = .exited
      · rw [if_pos hpc]
        exact haccounted.closeFd
      · rw [if_neg hpc]
        exact haccounted
  | start =>
      change Accounted lib
        (if s.pc = .exited then { s with stop := false, pc := .select } else s)
      by_cases hpc : s.pc = .exited
      · rw [if_pos hpc]
        exact haccounted.of_same rfl rfl rfl rfl rfl rfl rfl
      · rw [if_neg hpc]
        exact haccounted
  | io answer =>
      change Accounted lib (s.ioStep lib answer)
      unfold ioStep
      cases s.pc with
      | select =>
          dsimp only
          by_cases hstop : s.stop = true
          · rw [if_pos hstop]
            exact haccounted.goto _
          · rw [if_neg hstop]
            exact haccounted.goto _
      | pump r => exact pumpStep_accounted haccounted r answer
      | take r => exact takeStep_accounted haccounted r
      | dying r => exact dyingStep_accounted haccounted r
      | cleared r => exact haccounted.of_same rfl rfl rfl rfl rfl rfl rfl
      | read r =>
          cases r with
          | true => exact readStep_accounted haccounted answer
          | false => exact haccounted.goto _
      | tick => exact tickStep_accounted haccounted answer
      | exited => exact haccounted

end Accounted

/-! ## Closed links -/

/-- Steps that report nothing and leave the options alone. -/
structure Quiet (s s' : HostEndpoint) : Prop where
  reports : s'.closedReports = s.closedReports
  reopenable : s'.reopenable = s.reopenable
  maxOutbox : s'.maxOutbox = s.maxOutbox

/-- `on_closed` is called at most once for each of the `starts`, and the I/O thread ends behind the
call; an endpoint with a factory never calls it. -/
structure Reported (options : HostOptions) (starts : ℕ) (s : HostEndpoint) : Prop where
  once : s.closedReports ≤ starts
  ending : s.closedReports = starts →
    s.stop = true ∧ (s.pc = .tick ∨ s.pc = .select ∨ s.pc = .exited)
  never : options.reopenable = true → s.closedReports = 0
  reopenable : s.reopenable = options.reopenable
  maxOutbox : s.maxOutbox = options.maxOutbox

section Reported

variable {lib} {s : HostEndpoint} {options : HostOptions} {starts : ℕ}

theorem closeFd_quiet (pc : HostPc) : Quiet s (s.closeFd.goto pc) := by
  unfold HostEndpoint.closeFd
  by_cases hup : s.fdUp = true
  · rw [if_pos hup]
    exact ⟨rfl, rfl, rfl⟩
  · rw [if_neg hup]
    exact ⟨rfl, rfl, rfl⟩

theorem pumpStep_quiet (r : Bool) (answer : HostAnswer) : Quiet s (s.pumpStep r answer) := by
  unfold pumpStep
  by_cases hup : s.fdUp = false
  · rw [if_pos hup]
    exact ⟨rfl, rfl, rfl⟩
  rw [if_neg hup]
  by_cases hidle : s.inflight = []
  · rw [if_pos hidle]
    exact ⟨rfl, rfl, rfl⟩
  rw [if_neg hidle]
  cases answer.accept with
  | none => exact closeFd_quiet _
  | some n =>
      dsimp only
      by_cases hnone : s.inflight.take n = []
      · rw [if_pos hnone]
        exact ⟨rfl, rfl, rfl⟩
      · rw [if_neg hnone]
        by_cases hdone : s.inflight.drop n = []
        · rw [if_pos hdone]
          exact ⟨rfl, rfl, rfl⟩
        · rw [if_neg hdone]
          exact ⟨rfl, rfl, rfl⟩

theorem takeStep_quiet (r : Bool) : Quiet s (s.takeStep r) := by
  unfold takeStep
  cases s.outbox with
  | nil => exact ⟨rfl, rfl, rfl⟩
  | cons frame rest => exact ⟨rfl, rfl, rfl⟩

theorem tickStep_quiet (answer : HostAnswer) : Quiet s (s.tickStep answer) := by
  unfold tickStep
  by_cases hwait : s.fdUp ∨ s.reopenable = false ∨ answer.nowNs < s.nextReopenNs
  · rw [if_pos hwait]
    exact ⟨rfl, rfl, rfl⟩
  rw [if_neg hwait]
  cases answer.opens <;> exact ⟨rfl, rfl, rfl⟩

theorem send_quiet (msg : HostMessage) :
    Quiet s (s.send lib msg) ∧ (s.send lib msg).stop = s.stop ∧
      (s.send lib msg).pc = s.pc := by
  rcases send_cases lib s msg with hsame | ⟨framed, -, -, hsend⟩ | ⟨framed, old, rest, -, -, hsend⟩
  · rw [hsame]
    exact ⟨⟨rfl, rfl, rfl⟩, rfl, rfl⟩
  · rw [hsend]
    exact ⟨⟨rfl, rfl, rfl⟩, rfl, rfl⟩
  · rw [hsend]
    exact ⟨⟨rfl, rfl, rfl⟩, rfl, rfl⟩

/-- Inside a turn nothing was reported since the last start. -/
theorem Reported.running (hreported : Reported options starts s)
    (hpc : ¬ (s.pc = .tick ∨ s.pc = .select ∨ s.pc = .exited)) : s.closedReports < starts :=
  lt_of_le_of_ne hreported.once fun heq => hpc (hreported.ending heq).2

theorem Reported.of_running (hreported : Reported options starts s)
    (hpc : ¬ (s.pc = .tick ∨ s.pc = .select ∨ s.pc = .exited)) {s' : HostEndpoint}
    (hquiet : Quiet s s') : Reported options starts s' where
  once := by
    rw [hquiet.reports]
    exact hreported.once
  ending := by
    intro heq
    rw [hquiet.reports] at heq
    exact absurd heq (hreported.running hpc).ne
  never := by
    rw [hquiet.reports]
    exact hreported.never
  reopenable := hquiet.reopenable.trans hreported.reopenable
  maxOutbox := hquiet.maxOutbox.trans hreported.maxOutbox

/-- Steps that only move on within the end of the thread. -/
theorem Reported.of_ending (hreported : Reported options starts s) {s' : HostEndpoint}
    (hquiet : Quiet s s') (hstop : s.stop = true → s'.stop = true)
    (hpc : s.stop = true → s.pc = .tick ∨ s.pc = .select ∨ s.pc = .exited →
      s'.pc = .tick ∨ s'.pc = .select ∨ s'.pc = .exited) : Reported options starts s' where
  once := by
    rw [hquiet.reports]
    exact hreported.once
  ending := by
    intro heq
    rw [hquiet.reports] at heq
    obtain ⟨hstopped, hplace⟩ := hreported.ending heq
    exact ⟨hstop hstopped, hpc hstopped hplace⟩
  never := by
    rw [hquiet.reports]
    exact hreported.never
  reopenable := hquiet.reopenable.trans hreported.reopenable
  maxOutbox := hquiet.maxOutbox.trans hreported.maxOutbox

theorem readStep_reported (hreported : Reported options starts s) {r : Bool} (hpc : s.pc = .read r)
    (answer : HostAnswer) : Reported options starts (s.readStep lib answer) := by
  have hrunning : ¬ (s.pc = .tick ∨ s.pc = .select ∨ s.pc = .exited) := by simp [hpc]
  unfold readStep
  cases if s.fdUp then answer.chunk else none with
  | none =>
      dsimp only
      by_cases hreopen : s.reopenable = true
      · rw [if_pos hreopen]
        exact hreported.of_running hrunning (closeFd_quiet _)
      · rw [if_neg hreopen]
        exact ⟨hreported.running hrunning, fun _ => ⟨rfl, Or.inl rfl⟩,
          fun hfactory => absurd (hreported.reopenable.trans hfactory) hreopen,
          hreported.reopenable, hreported.maxOutbox⟩
  | some chunk => exact hreported.of_running hrunning ⟨rfl, rfl, rfl⟩

theorem ioStep_reported (hreported : Reported options starts s) (answer : HostAnswer) :
    Reported options starts (s.ioStep lib answer) := by
  unfold ioStep
  cases hpc : s.pc with
  | select =>
      dsimp only
      by_cases hstop : s.stop = true
      · rw [if_pos hstop]
        exact hreported.of_ending ⟨rfl, rfl, rfl⟩ id fun _ _ => Or.inr (Or.inr rfl)
      · rw [if_neg hstop]
        exact hreported.of_ending ⟨rfl, rfl, rfl⟩ id fun h => absurd h hstop
  | pump r => exact hreported.of_running (by simp [hpc]) (pumpStep_quiet r answer)
  | take r => exact hreported.of_running (by simp [hpc]) (takeStep_quiet r)
  | dying r => exact hreported.of_running (by simp [hpc]) ⟨rfl, rfl, rfl⟩
  | cleared r => exact hreported.of_running (by simp [hpc]) ⟨rfl, rfl, rfl⟩
  | read r =>
      cases r with
      | true => exact readStep_reported hreported hpc answer
      | false => exact hreported.of_running (by simp [hpc]) ⟨rfl, rfl, rfl⟩
  | tick =>
      obtain ⟨hstop, hselect⟩ : (s.tickStep answer).stop = s.stop ∧
          (s.tickStep answer).pc = .select := by
        unfold tickStep
        by_cases hwait : s.fdUp ∨ s.reopenable = false ∨ answer.nowNs < s.nextReopenNs
        · rw [if_pos hwait]
          exact ⟨rfl, rfl⟩
        rw [if_neg hwait]
        cases answer.opens <;> exact ⟨rfl, rfl⟩
      exact hreported.of_ending (tickStep_quiet answer) (fun h => hstop.trans h)
        fun _ _ => Or.inr (Or.inl hselect)
  | exited => exact hreported

/-- A call of `start` counts one more. -/
theorem step_reported (hreported : Reported options starts s) (input : Input) :
    Reported options (starts + [input].count .start) (s.step lib input) := by
  cases input with
  | send msg =>
      obtain ⟨hquiet, hstop, hpc⟩ := @send_quiet lib s msg
      refine hreported.of_ending hquiet (fun h => hstop.trans h) fun _ hplace => ?_
      rw [← hpc] at hplace
      exact hplace
  | stop => exact hreported.of_ending ⟨rfl, rfl, rfl⟩ (fun _ => rfl) fun _ hplace => hplace
  | joined =>
      change Reported options starts (if s.pc = .exited then s.closeFd else s)
      by_cases hpc : s.pc = .exited
      · rw [if_pos hpc, ← closeFd_goto_self hpc]
        refine hreported.of_ending (closeFd_quiet _) (fun h => ?_) fun _ _ => Or.inr (Or.inr rfl)
        unfold HostEndpoint.closeFd
        by_cases hup : s.fdUp = true
        · rw [if_pos hup]
          exact h
        · rw [if_neg hup]
          exact h
      · rw [if_neg hpc]
        exact hreported
  | start =>
      -- one start more than there were reports
      have hmore : ∀ s' : HostEndpoint, Quiet s s' → Reported options (starts + 1) s' := by
        intro s' hquiet
        refine ⟨?_, fun heq => ?_, ?_, hquiet.reopenable.trans hreported.reopenable,
          hquiet.maxOutbox.trans hreported.maxOutbox⟩
        · rw [hquiet.reports]
          exact hreported.once.trans (Nat.le_succ _)
        · rw [hquiet.reports] at heq
          have honce := hreported.once
          omega
        · rw [hquiet.reports]
          exact hreported.never
      change Reported options (starts + 1) (if s.pc = .exited then _ else s)
      by_cases hpc : s.pc = .exited
      · rw [if_pos hpc]
        exact hmore _ ⟨rfl, rfl, rfl⟩
      · rw [if_neg hpc]
        exact hmore _ ⟨rfl, rfl, rfl⟩
  | io answer => exact ioStep_reported hreported answer

theorem reported_init (options : HostOptions) : Reported options 1 (init options) where
  once := Nat.zero_le _
  ending := by simp [init]
  never := fun _ => rfl
  reopenable := rfl
  maxOutbox := rfl

theorem run_reported (hreported : Reported options starts s) (inputs : List Input) :
    Reported options (starts + inputs.count .start) (s.run lib inputs) := by
  induction inputs generalizing s starts with
  | nil => exact hreported
  | cons input rest ih =>
      have hrest := ih (@step_reported lib s options starts hreported input)
      rw [Nat.add_assoc, ← List.count_append, List.singleton_append] at hrest
      exact hrest

end Reported

/-! ## Runs -/

section Runs

variable {lib} {s : HostEndpoint}

theorem run_ok (htied : Tied lib s) (haccounted : Accounted lib s)
    {inputs : List Input} (hclean : Along (step lib) CleanStart s inputs) :
    Tied lib (s.run lib inputs) ∧
      Accounted lib (s.run lib inputs) := by
  refine run_invariant_along (I := fun s => Tied lib s ∧ Accounted lib s) ?_
    ⟨htied, haccounted⟩ hclean
  intro s input hs hinput
  exact ⟨step_tied hs.1 hinput, step_accounted hs.2 input⟩

/-- What every fd took: whole frames but for a rest of the last one; what was read from it was
extracted. -/
theorem Tied.links (htied : Tied lib s) {link : HostLink} (hlink : link ∈ s.links) :
    link.written <+: link.taken.flatten ∧
      link.delivered = (extractFrames lib.unframe link.heard).1 := by
  unfold HostEndpoint.links at hlink
  by_cases hup : s.fdUp = true
  · rw [if_pos hup] at hlink
    rcases List.mem_append.mp hlink with hold | hnew
    · exact htied.past link hold
    · obtain rfl := List.mem_singleton.mp hnew
      refine ⟨?_, ?_⟩
      · rw [htied.current hup]
        exact List.prefix_append ..
      · rw [htied.heard hup]
  · rw [if_neg hup] at hlink
    exact htied.past link hlink

theorem taken_links (htied : Tied lib s) : s.taken = s.links.flatMap HostLink.taken := by
  unfold taken HostEndpoint.links
  by_cases hup : s.fdUp = true
  · rw [if_pos hup, List.flatMap_append, List.flatMap_singleton]
  · have hdown : s.fdUp = false := by simpa using hup
    rw [if_neg hup, htied.blank hdown, List.append_nil]

end Runs

/-- In every run the frames leave the outbox in the order in which they were sent, each at most
once: every message that was sent is taken for an fd, waiting, dropped to make room or discarded
with a dead fd.  `pending_bytes` is what waits and what is in flight, the outbox stays within its
bound, and `on_closed` is called at most once until the next start and never with a factory. -/
theorem host_accounts (lib : HostLibraries) (options : HostOptions) (inputs : List Input) :
    let s := (init options).run lib inputs
    (∀ msg ∈ s.sent, lib.frameBytes msg = .ok (lib.framed msg)) ∧
      (s.taken ++ s.outbox).Sublist (s.sent.map lib.framed) ∧
      s.sent.length = s.taken.length + s.outbox.length + s.dropped + s.discarded ∧
      s.pendingBytes = ((s.outbox.flatten.length + s.inflight.length : ℕ) : ℤ) ∧
      s.outbox.length ≤ options.maxOutbox ∧
      s.closedReports ≤ 1 + inputs.count .start ∧
      (∀ later : List Input, .start ∉ later →
        (s.run lib later).closedReports ≤ s.closedReports + 1) ∧
      (options.reopenable = true → s.closedReports = 0) := by
  intro s
  have haccounted : Accounted lib s :=
    @run_invariant _ _ (step lib) (Accounted lib)
      (fun s input hs => step_accounted hs input) _ (accounted_init options) inputs
  have hreported : Reported options (1 + inputs.count .start) s :=
    run_reported (reported_init options) inputs
  refine ⟨haccounted.sendable, haccounted.order, haccounted.count, ?_, ?_, hreported.once, ?_,
    hreported.never⟩
  · rw [pendingBytes, haccounted.bytes]
    rfl
  · rw [← hreported.maxOutbox]
    exact haccounted.bound
  · intro later hlater
    -- from here on one report more is all that there can be
    have hnext : Reported options (s.closedReports + 1) s :=
      ⟨Nat.le_succ _, fun heq => absurd heq (Nat.ne_of_lt (Nat.lt_succ_self _)), hreported.never,
        hreported.reopenable, hreported.maxOutbox⟩
    have hrun := @run_reported lib s options _ hnext later
    rw [List.count_eq_zero.mpr hlater] at hrun
    exact hrun.once

/-! ## Two hosts -/

section Pair

variable {lib}

/-- A part of a stream of frames that starts with it is extracted to the first messages. -/
theorem extractFrames_prefix (hlib : lib.RoundTrip) {msgs : List HostMessage}
    (hmsgs : ∀ msg ∈ msgs, lib.frameBytes msg = .ok (lib.framed msg)) {heard : List Byte}
    (hheard : heard <+: (msgs.map lib.framed).flatten) :
    (extractFrames lib.unframe heard).1 <+: msgs := by
  induction msgs generalizing heard with
  | nil =>
      have hempty : heard = [] := List.prefix_nil.mp hheard
      rw [hempty, extractFrames_eq]
      exact List.prefix_rfl
  | cons msg rest ih =>
      obtain ⟨frame, hframe, hfree, hne, hunframe⟩ :=
        HostLibraries.unframe_frameBytes hlib (hmsgs msg List.mem_cons_self)
      rw [List.map_cons, List.flatten_cons, hframe, List.append_assoc,
        List.singleton_append] at hheard
      have hrun : frame <+: frame ++ 0 :: (rest.map lib.framed).flatten := List.prefix_append ..
      rcases List.prefix_or_prefix_of_prefix hheard hrun with hshort | ⟨tail, rfl⟩
      · -- inside the run there is no delimiter
        have hnone : 0 ∉ heard := fun hmem => hfree (hshort.subset hmem)
        rw [extractFrames_eq, Delimited.split_of_not_mem hnone]
        exact List.nil_prefix
      · have htail := (List.prefix_append_right_inj _).mp hheard
        cases tail with
        | nil =>
            rw [List.append_nil, extractFrames_eq, Delimited.split_of_not_mem hfree]
            exact List.nil_prefix
        | cons byte tail =>
            obtain ⟨rfl, hrest⟩ := List.cons_prefix_cons.mp htail
            have hlater := ih (fun m hm => hmsgs m (List.mem_cons_of_mem _ hm)) hrest
            rw [extractFrames_eq] at hlater ⊢
            rw [Delimited.split_run hfree]
            dsimp only
            rw [decodeRuns_cons _ hne hunframe]
            exact List.cons_prefix_cons.mpr ⟨rfl, hlater⟩

/-- Link by link, what the receivers of the links of a sender hand on. -/
theorem delivered_sublist (hlib : lib.RoundTrip) {links matched heard : List HostLink}
    {msgs : List HostMessage}
    (hmsgs : ∀ msg ∈ msgs, lib.frameBytes msg = .ok (lib.framed msg))
    (htaken : links.flatMap HostLink.taken = msgs.map lib.framed)
    (hwritten : ∀ link ∈ links, link.written <+: link.taken.flatten)
    (hmatched : matched.Sublist links)
    (hheard : List.Forall₂ (fun into out => into.heard <+: out.written) heard matched)
    (hdelivered : ∀ link ∈ heard,
      link.delivered = (extractFrames lib.unframe link.heard).1) :
    (heard.flatMap HostLink.delivered).Sublist msgs := by
  induction hmatched generalizing heard msgs with
  | slnil =>
      rw [List.forall₂_nil_right_iff.mp hheard]
      exact List.nil_sublist _
  | cons link _ ih =>
      rw [List.flatMap_cons] at htaken
      obtain ⟨first, later, rfl, -, hlater⟩ := List.map_eq_append_iff.mp htaken.symm
      have hrest := ih (fun m hm => hmsgs m (List.mem_append_right _ hm)) hlater.symm
        (fun l hl => hwritten l (List.mem_cons_of_mem _ hl)) hheard hdelivered
      exact hrest.trans (List.sublist_append_right ..)
  | cons_cons link _ ih =>
      obtain ⟨into, heard, hfirst, hnext, rfl⟩ := List.forall₂_cons_right_iff.mp hheard
      rw [List.flatMap_cons] at htaken
      obtain ⟨first, later, rfl, hmap, hlater⟩ := List.map_eq_append_iff.mp htaken.symm
      have hrest := ih (fun m hm => hmsgs m (List.mem_append_right _ hm)) hlater.symm
        (fun l hl => hwritten l (List.mem_cons_of_mem _ hl)) hnext
        (fun l hl => hdelivered l (List.mem_cons_of_mem _ hl))
      have hhead : into.delivered <+: first := by
        rw [hdelivered into List.mem_cons_self]
        apply extractFrames_prefix hlib fun m hm => hmsgs m (List.mem_append_left _ hm)
        rw [hmap]
        exact hfirst.trans (hwritten link List.mem_cons_self)
      rw [List.flatMap_cons]
      exact hhead.sublist.append hrest

end Pair

/-- Two hosts over any number of connections, each an fd of the sender and one of the receiver: as
long as a connection gives the receiver a first part of the bytes that the sender has written to
it, what the receiver hands on, over all connections, is a subsequence of what was sent.  Nothing is
torn, made up, repeated or reordered, whatever the links and the schedules do. -/
theorem hosts_deliver (lib : HostLibraries) (hlib : lib.RoundTrip)
    (senderOptions receiverOptions : HostOptions) (sending receiving : List Input)
    (hsending : Along (step lib) CleanStart (init senderOptions) sending)
    (hreceiving : Along (step lib) CleanStart (init receiverOptions) receiving)
    (connected : List (List Byte))
    (hconnected : connected.Sublist
      (((init senderOptions).run lib sending).links.map HostLink.written))
    (hpipe : List.Forall₂ (· <+: ·)
      (((init receiverOptions).run lib receiving).links.map HostLink.heard) connected) :
    (((init receiverOptions).run lib receiving).links.flatMap HostLink.delivered).Sublist
      ((init senderOptions).run lib sending).sent := by
  obtain ⟨hsender, haccounted⟩ := run_ok (tied_init senderOptions)
    (@accounted_init lib senderOptions) hsending
  obtain ⟨hreceiver, -⟩ := run_ok (tied_init receiverOptions)
    (@accounted_init lib receiverOptions) hreceiving
  obtain ⟨matched, hmatched, rfl⟩ := List.sublist_map_iff.mp hconnected
  rw [List.forall₂_map_left_iff, List.forall₂_map_right_iff] at hpipe
  -- the frames that were taken are those of some of the messages
  have htaken := (List.sublist_append_left _ _).trans haccounted.order
  rw [taken_links hsender] at htaken
  obtain ⟨msgs, hsub, hframes⟩ := List.sublist_map_iff.mp htaken
  have hdelivered := delivered_sublist hlib
    (fun msg hmem => haccounted.sendable msg (hsub.subset hmem)) hframes
    (fun link hlink => (hsender.links hlink).1) hmatched hpipe
    (fun link hlink => (hreceiver.links hlink).2)
  exact hdelivered.trans hsub

/-- A sync point that C++ would not send. -/
def pointed : HostMessage := { syncPoint := some { gridGeneration := 5 } }

/-- The packages on two headers. -/
def smallHost : HostLibraries where
  serialize := fun header =>
    if header ∈ [HostMessage.toHeader {}, pointed.toHeader] then .ok (nanopbHeader header)
    else .error "Value out of range"
  parse := fun bytes =>
    match [HostMessage.toHeader {}, pointed.toHeader].find? (nanopbHeader · = bytes) with
    | some header => .ok header
    | none => .error "Error parsing message"
  cobsEncode := cobsEncode
  cobsDecode := fun run =>
    match cobsDecode run with
    | some data => .ok data
    | none => .error "zero byte found in input"

theorem smallHost_roundTrip : smallHost.RoundTrip where
  parses := by
    intro header bytes hbytes
    unfold smallHost at hbytes
    dsimp only at hbytes
    by_cases hsmall : header ∈ [HostMessage.toHeader {}, pointed.toHeader]
    · rw [if_pos hsmall] at hbytes
      obtain rfl := Except.ok.inj hbytes
      rcases List.mem_pair.mp hsmall with rfl | rfl
      · decide +kernel
      · decide +kernel
    · rw [if_neg hsmall] at hbytes
      cases hbytes
  decodes := by
    intro data
    unfold smallHost
    dsimp only
    rw [cobsDecode_cobsEncode]
  zeroFree := zero_not_mem_cobsEncode
  nonempty := cobsEncode_ne_nil

/-- Two messages, a link that dies inside the second frame, a fresh one and a third message. -/
def tornSending : List Input :=
  [.send {}, .send {}, .io {}, .io {}, .io {}, .io { accept := some 7 }, .io {},
    .io { accept := some 3 }, .io {}, .io {}, .io {}, .io { accept := none }, .io {}, .io {},
    .io {}, .io { opens := true }, .send pointed, .io {}, .io {}, .io {}, .io { accept := some 11 }]

/-- The other end: nine bytes and the end of the first link, then all of the second. -/
def tornReceiving : List Input :=
  [.io { readable := true }, .io {}, .io {},
    .io { chunk := some (smallHost.framed {} ++ (smallHost.framed {}).take 2) }, .io {},
    .io { readable := true }, .io {}, .io {}, .io { chunk := none }, .io {}, .io {},
    .io { opens := true }, .io { readable := true }, .io {}, .io {},
    .io { chunk := some (smallHost.framed pointed) }]

theorem hosts_deliver_torn :
    (((init { reopenable := true }).run smallHost tornReceiving).links.flatMap
      HostLink.delivered).Sublist [{}, {}, pointed] := by
  have hsent : ((init { reopenable := true }).run smallHost tornSending).sent =
      [{}, {}, pointed] := by decide +kernel
  have hresult := hosts_deliver smallHost smallHost_roundTrip { reopenable := true }
    { reopenable := true } tornSending tornReceiving ?_ ?_
    [smallHost.framed {} ++ (smallHost.framed {}).take 3, smallHost.framed pointed] ?_ ?_
  · rw [hsent] at hresult
    exact hresult
  · exact along_of_mem (by simp [tornSending, CleanStart]) _
  · exact along_of_mem (by simp [tornReceiving, CleanStart]) _
  · have hwritten : (((init { reopenable := true }).run smallHost tornSending).links.map
        HostLink.written) =
        [smallHost.framed {} ++ (smallHost.framed {}).take 3, smallHost.framed pointed] := by
      decide +kernel
    rw [hwritten]
  · have hheard : (((init { reopenable := true }).run smallHost tornReceiving).links.map
        HostLink.heard) =
        [smallHost.framed {} ++ (smallHost.framed {}).take 2, smallHost.framed pointed] := by
      decide +kernel
    rw [hheard]
    refine .cons ((List.prefix_append_right_inj _).mpr ?_) (.cons List.prefix_rfl .nil)
    exact List.take_prefix_take_left (by decide)

end HostEndpoint

end VisioSchema.Transport

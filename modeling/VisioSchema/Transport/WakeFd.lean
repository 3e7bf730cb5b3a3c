import Mathlib.Data.Finset.Card
import VisioSchema.Library.Runs

/-!
# The coalesced wakeup of an I/O loop

`WakeFd` of `wake_fd.hpp`, at the grain of its atomic actions: the exchange and the write of
`Signal`, every read and the store of `Drain`, and the stores of `Open` and `Close`.  Any number of
threads put work in place and call `Signal` (`FramedFdEndpoint::Send`, `TcpAcceptor::Stop`); one
loop polls, drains, and looks at what there is to do (`FramedFdEndpoint::Loop`,
`TcpAcceptor::Loop`).  A `Signal` that finds a wakeup pending writes nothing: it relies on a write
that another thread has made or has yet to make, and on the loop to look after its drain.

The actions take effect in the order of the program, but for one.  The store that ends `Drain` has
release order only, and what the loop loads when it looks may be older than it: a turn of the loop
says whether the store takes effect before the look or after it.

The invariant `WakeFd.Loop.Ok` says where the wakeup is while the flag is up (in the fd, in a
thread that is about to write it, or with a loop that drains) and that work whose call is over has
the flag up behind it or a look in front of it.  With it the loop does not block on work that was
put in place and signalled, and each turn brings it closer to a look
(`WakeFd.Loop.looks_at_announced`).  Two windows are excluded by `WakeFd.Loop.Timely`, since a call
that finds the flag up in them relies on a wakeup that nobody sends: the one between the two
stores of `Open`, and the one between a look and the store of the `Drain` in front of it.
-/

namespace VisioSchema.Transport

open Library

/-! ## The primitive -/

/-- The pokes in the fd, which is there while it is open, and `signalled_`. -/
structure WakeFd where
  fd : Option ℕ := none
  signalled : Bool := false

namespace WakeFd

/-- How many pokes a poll sees. -/
def pokes (w : WakeFd) : ℕ := w.fd.getD 0

/-- `signalled_.store(false)`. -/
def cleared (w : WakeFd) : WakeFd := { w with signalled := false }

/-- The write of `Signal`, of which a full pipe takes nothing. -/
def written (w : WakeFd) (full : Bool) : WakeFd :=
  { w with fd := w.fd.map fun n => if full = true ∧ 0 < n then n else n + 1 }

/-- A read of `Drain` that finds pokes: it takes at least one of them. -/
def drained (w : WakeFd) (taken : ℕ) : WakeFd := { w with fd := w.fd.map (· - max 1 taken) }

/-- The new fd of `Open`. -/
def opened (w : WakeFd) : WakeFd := { w with fd := some 0 }

/-- `Close`. -/
def closed (_ : WakeFd) : WakeFd := {}

@[simp] theorem pokes_cleared (w : WakeFd) : w.cleared.pokes = w.pokes := rfl

@[simp] theorem pokes_opened (w : WakeFd) : w.opened.pokes = 0 := rfl

theorem pokes_written_le (w : WakeFd) (full : Bool) : (w.written full).pokes ≤ w.pokes + 1 := by
  obtain ⟨_ | n, signalled⟩ := w
  · exact Nat.zero_le _
  show (if full = true ∧ 0 < n then n else n + 1) ≤ n + 1
  split <;> omega

theorem pokes_le_written (w : WakeFd) (full : Bool) : w.pokes ≤ (w.written full).pokes := by
  obtain ⟨_ | n, signalled⟩ := w
  · exact Nat.zero_le _
  show n ≤ if full = true ∧ 0 < n then n else n + 1
  split <;> omega

/-- After a write on an open fd a poll returns. -/
theorem pokes_written_pos {w : WakeFd} (hopen : w.fd ≠ none) (full : Bool) :
    0 < (w.written full).pokes := by
  obtain ⟨_ | n, signalled⟩ := w
  · exact absurd rfl hopen
  show 0 < if full = true ∧ 0 < n then n else n + 1
  split <;> omega

theorem pokes_drained_lt {w : WakeFd} (hpokes : 0 < w.pokes) (taken : ℕ) :
    (w.drained taken).pokes < w.pokes := by
  obtain ⟨_ | n, signalled⟩ := w
  · exact absurd hpokes (Nat.lt_irrefl 0)
  have hn : 0 < n := hpokes
  show n - max 1 taken < n
  omega

/-! ## The threads -/

/-- How far a thread is that puts work in place and calls `Signal`: the work is there, the fd is
seen to be open, the flag was down and the write is ahead. -/
inductive Caller
  | idle
  | published
  | checked
  | writing
  deriving DecidableEq

/-- Where the loop stands; while it is off the thread that starts and stops it owns the fd.  It is
`late` when it has looked (and found `stop_` or not) before the store of its `Drain` took
effect. -/
inductive LoopPc
  | off
  | opening
  | looking
  | polling
  | draining
  | clearing
  | late (stop : Bool)
  | closing
  deriving DecidableEq

/-- A loop, the threads that wake it, the work that it has not looked at (and whether the call
that announces it has made its exchange), and how often the flag was raised, the flag was cleared,
a read found pokes and the loop looked. -/
structure Loop (P : Type*) where
  wake : WakeFd := {}
  caller : P → Caller := fun _ => .idle
  pc : LoopPc := .off
  unseen : List (P × Bool) := []
  sets : ℕ := 0
  clears : ℕ := 0
  reads : ℕ := 0
  looks : ℕ := 0

namespace Loop

/-- The next action of a thread, or a turn of the loop: what else ends the poll, how much a read
takes, whether a look finds `stop_`, and whether it comes before the store of `Drain`. -/
inductive Input (P : Type*)
  | publish (p : P)
  | check (p : P)
  | exchange (p : P)
  | write (p : P) (full : Bool)
  | turn (other : Bool) (taken : ℕ) (stop : Bool) (early : Bool := false)

variable {P : Type*}

/-- `while (::read(...) > 0)` of `Drain`. -/
def drain (s : Loop P) (taken : ℕ) : Loop P :=
  if 0 < s.wake.pokes then { s with wake := s.wake.drained taken, reads := s.reads + 1 }
  else { s with pc := .clearing }

/-- `Loop`, between the `Open` of `Start` and the `Close` of `Stop`. -/
def turn (s : Loop P) (other : Bool) (taken : ℕ) (stop early : Bool) : Loop P :=
  match s.pc with
  | .off => { s with wake := s.wake.cleared, pc := .opening, clears := s.clears + 1 }
  | .opening => { s with wake := s.wake.opened, pc := .looking }
  | .looking =>
      { s with pc := if stop then .closing else .polling, unseen := [], looks := s.looks + 1 }
  | .polling =>
      if 0 < s.wake.pokes then { s with pc := .draining }
      else if other then { s with pc := .looking } else s
  | .draining => s.drain taken
  | .clearing =>
      -- `signalled_.store(false, release)`, which the loads of the look may overtake
      if early then { s with pc := .late stop, unseen := [], looks := s.looks + 1 }
      else { s with wake := s.wake.cleared, pc := .looking, clears := s.clears + 1 }
  | .late stopped =>
      { s with wake := s.wake.cleared, pc := if stopped then .closing else .polling,
               clears := s.clears + 1 }
  | .closing => { s with wake := s.wake.closed, pc := .off, clears := s.clears + 1 }

variable [DecidableEq P]

def goto (s : Loop P) (p : P) (caller : Caller) : Loop P :=
  { s with caller := Function.update s.caller p caller }

/-- The call of a thread has announced what the thread put in place. -/
def announce (s : Loop P) (p : P) : Loop P :=
  { s with unseen := s.unseen.map fun work => if work.1 = p then (p, true) else work }

/-- Work is put in place where the loop will look (a frame is queued, `stop_` is set). -/
def publish (s : Loop P) (p : P) : Loop P :=
  { s.goto p .published with unseen := s.unseen ++ [(p, false)] }

/-- `if (write_fd_ < 0) return;` -/
def check (s : Loop P) (p : P) : Loop P :=
  if s.wake.fd = none then (s.announce p).goto p .idle else s.goto p .checked

/-- `if (signalled_.exchange(true, …)) return;` -/
def exchange (s : Loop P) (p : P) : Loop P :=
  if s.wake.signalled then (s.announce p).goto p .idle
  else { (s.announce p).goto p .writing with
    wake := { s.wake with signalled := true }, sets := s.sets + 1 }

def write (s : Loop P) (p : P) (full : Bool) : Loop P :=
  { s.goto p .idle with wake := s.wake.written full }

def step (s : Loop P) : Input P → Loop P
  | .publish p => if s.caller p = .idle then s.publish p else s
  | .check p => if s.caller p = .published then s.check p else s
  | .exchange p => if s.caller p = .checked then s.exchange p else s
  | .write p full => if s.caller p = .writing then s.write p full else s
  | .turn other taken stop early => s.turn other taken stop early

/-- `Open` clears the flag before it makes the fd.  A `Signal` that saw the previous fd must not
make its exchange in between: it would leave the flag up over an empty fd.  Nor must a `Signal`
make it after a look and before the store of the `Drain` in front of that look: it would find the
flag of a wakeup that is drained already. -/
def Timely (s : Loop P) : Input P → Prop
  | .exchange p => s.caller p = .checked → s.pc ≠ .opening ∧ ∀ stop, s.pc ≠ .late stop
  | _ => True

/-- A state that any actions of the threads lead to. -/
def run (inputs : List (Input P)) : Loop P := inputs.foldl step {}

/-! ## The invariant -/

/-- The threads whose write is ahead. -/
def Ahead (s : Loop P) (ahead : Finset P) : Prop := ∀ p, p ∈ ahead ↔ s.caller p = .writing

/-- Work that is announced now is looked at: it is behind a raised flag, or in front of a look. -/
def Covered (s : Loop P) : Prop :=
  (s.wake.signalled = true ∧ ∀ stop, s.pc ≠ .late stop) ∨ s.pc = .off ∨ s.pc = .opening ∨
    s.pc = .looking

/-- While the flag is up a wakeup is in the fd, is about to be written, or is being drained; and
work that was announced is covered. -/
structure Ok (s : Loop P) : Prop where
  hasFd : s.wake.fd = none ↔ s.pc = .off ∨ s.pc = .opening
  raised : s.wake.signalled = true →
    s.pc = .off ∨ s.pc = .draining ∨ s.pc = .clearing ∨ (∃ stop, s.pc = .late stop) ∨
      0 < s.wake.pokes ∨ ∃ p, s.caller p = .writing
  fresh : s.pc = .opening → s.wake.signalled = false
  announced : ∀ p, (p, true) ∈ s.unseen → s.Covered
  unannounced : ∀ p, (p, false) ∈ s.unseen → s.caller p = .published ∨ s.caller p = .checked
  counted : s.sets ≤ s.clears + s.wake.signalled.toNat
  written : ∃ ahead, s.Ahead ahead ∧ s.wake.pokes + s.reads + ahead.card ≤ s.sets

variable {s : Loop P} {p q : P} {caller : Caller} {ahead : Finset P}

@[simp] theorem caller_goto_self (s : Loop P) (p : P) (caller : Caller) :
    (s.goto p caller).caller p = caller := Function.update_self ..

theorem caller_goto_of_ne (hne : q ≠ p) : (s.goto p caller).caller q = s.caller q :=
  Function.update_of_ne hne ..

theorem Ahead.goto (hahead : s.Ahead ahead) (hold : s.caller p ≠ .writing)
    (hnew : caller ≠ .writing) : (s.goto p caller).Ahead ahead := by
  intro q
  by_cases hq : q = p
  · subst hq
    simp [hahead q, hold, hnew]
  · rw [caller_goto_of_ne hq]
    exact hahead q

theorem Ahead.goto_writing (hahead : s.Ahead ahead) :
    (s.goto p .writing).Ahead (insert p ahead) := by
  intro q
  by_cases hq : q = p
  · subst hq
    simp
  · rw [caller_goto_of_ne hq, Finset.mem_insert]
    simp [hq, hahead q]

theorem Ahead.goto_written (hahead : s.Ahead ahead) (hnew : caller ≠ .writing) :
    (s.goto p caller).Ahead (ahead.erase p) := by
  intro q
  by_cases hq : q = p
  · subst hq
    simp [hnew]
  · rw [caller_goto_of_ne hq, Finset.mem_erase]
    simp [hq, hahead q]

/-- A thread that has nothing to write goes on: the writes that are ahead stay. -/
theorem exists_writing_goto (hold : s.caller p ≠ .writing)
    (hwriting : ∃ q, s.caller q = .writing) : ∃ q, (s.goto p caller).caller q = .writing := by
  obtain ⟨q, hq⟩ := hwriting
  refine ⟨q, ?_⟩
  have hne : q ≠ p := by
    rintro rfl
    exact hold hq
  rw [caller_goto_of_ne hne]
  exact hq

theorem mem_announce {b : Bool} (hmem : (q, b) ∈ (s.announce p).unseen) :
    b = true ∧ q = p ∨ q ≠ p ∧ (q, b) ∈ s.unseen := by
  obtain ⟨work, hwork, heq⟩ := List.mem_map.mp hmem
  by_cases hp : work.1 = p
  · rw [if_pos hp] at heq
    cases heq
    exact .inl ⟨rfl, rfl⟩
  · rw [if_neg hp] at heq
    subst heq
    exact .inr ⟨hp, hwork⟩

/-- A thread goes on that has nothing to write, then or before. -/
theorem Ok.goto (hs : s.Ok) (hold : s.caller p ≠ .writing) (hnew : caller ≠ .writing)
    (hunseen : (p, false) ∈ s.unseen → caller = .published ∨ caller = .checked) :
    (s.goto p caller).Ok := by
  refine ⟨hs.hasFd, fun hup => ?_, hs.fresh, hs.announced, fun q hq => ?_, hs.counted, ?_⟩
  · rcases hs.raised hup with hoff | hdraining | hclearing | hlate | hpokes | hwriting
    · exact .inl hoff
    · exact .inr (.inl hdraining)
    · exact .inr (.inr (.inl hclearing))
    · exact .inr (.inr (.inr (.inl hlate)))
    · exact .inr (.inr (.inr (.inr (.inl hpokes))))
    · exact .inr (.inr (.inr (.inr (.inr (exists_writing_goto hold hwriting)))))
  · by_cases hqp : q = p
    · subst hqp
      rw [caller_goto_self]
      exact hunseen hq
    · rw [caller_goto_of_ne hqp]
      exact hs.unannounced q hq
  · obtain ⟨ahead, hahead, hcount⟩ := hs.written
    exact ⟨ahead, hahead.goto hold hnew, hcount⟩

omit [DecidableEq P] in
theorem Ok.push (hs : s.Ok) (hcaller : s.caller p = .published) :
    { s with unseen := s.unseen ++ [(p, false)] }.Ok := by
  refine ⟨hs.hasFd, hs.raised, hs.fresh, fun q hq => ?_, fun q hq => ?_, hs.counted, hs.written⟩
  · rcases List.mem_append.mp hq with hq | hq
    · exact hs.announced q hq
    · simp at hq
  · rcases List.mem_append.mp hq with hq | hq
    · exact hs.unannounced q hq
    · obtain rfl : q = p := congrArg Prod.fst (List.mem_singleton.mp hq)
      exact .inl hcaller

theorem Ok.announce (hs : s.Ok) (p : P) (hcovered : s.Covered) : (s.announce p).Ok := by
  refine ⟨hs.hasFd, hs.raised, hs.fresh, fun _ _ => hcovered, fun q hq => ?_, hs.counted,
    hs.written⟩
  rcases mem_announce hq with ⟨hfalse, -⟩ | ⟨-, hq⟩
  · exact absurd hfalse Bool.false_ne_true
  · exact hs.unannounced q hq

theorem not_mem_announce (s : Loop P) (p : P) : (p, false) ∉ (s.announce p).unseen := by
  intro hmem
  rcases mem_announce hmem with ⟨hfalse, -⟩ | ⟨hne, -⟩
  · exact Bool.false_ne_true hfalse
  · exact hne rfl

theorem Ok.publish (hs : s.Ok) (hidle : s.caller p = .idle) : (s.publish p).Ok := by
  have hgoto : (s.goto p .published).Ok :=
    hs.goto (by simp [hidle]) (by simp) fun _ => .inl rfl
  exact hgoto.push (caller_goto_self ..)

theorem Ok.check (hs : s.Ok) (hpublished : s.caller p = .published) : (s.check p).Ok := by
  unfold Loop.check
  split
  next hclosed =>
    -- The loop has yet to start, and looks before it polls.
    have hlook : (s.announce p).Ok :=
      hs.announce p (.inr ((hs.hasFd.mp hclosed).imp_right .inl))
    refine hlook.goto ?_ (by simp) fun hmem => absurd hmem (not_mem_announce s p)
    show s.caller p ≠ .writing
    simp [hpublished]
  next => exact hs.goto (by simp [hpublished]) (by simp) fun _ => .inr rfl

theorem Ok.exchange (hs : s.Ok) (hchecked : s.caller p = .checked) (hpc : s.pc ≠ .opening)
    (hlate : ∀ stop, s.pc ≠ .late stop) : (s.exchange p).Ok := by
  unfold Loop.exchange
  split
  next hup =>
    refine (hs.announce p (.inl ⟨hup, hlate⟩)).goto ?_ (by simp) fun hmem =>
      absurd hmem (not_mem_announce s p)
    show s.caller p ≠ .writing
    simp [hchecked]
  next hdown =>
    refine ⟨hs.hasFd, fun _ => ?_, fun hopening => absurd hopening hpc,
      fun _ _ => .inl ⟨rfl, hlate⟩, fun q hq => ?_, ?_, ?_⟩
    · exact .inr (.inr (.inr (.inr (.inr ⟨p, caller_goto_self ..⟩))))
    · rcases mem_announce hq with ⟨hfalse, -⟩ | ⟨hqp, hq⟩
      · exact absurd hfalse Bool.false_ne_true
      · show (s.goto p .writing).caller q = .published ∨ (s.goto p .writing).caller q = .checked
        rw [caller_goto_of_ne hqp]
        exact hs.unannounced q hq
    · have hcounted := hs.counted
      rw [Bool.not_eq_true] at hdown
      rw [hdown] at hcounted
      exact Nat.succ_le_succ hcounted
    · obtain ⟨ahead, hahead, hcount⟩ := hs.written
      have hcard := Finset.card_insert_le p ahead
      refine ⟨insert p ahead, hahead.goto_writing, ?_⟩
      show s.wake.pokes + s.reads + (insert p ahead).card ≤ s.sets + 1
      omega

theorem Ok.write (hs : s.Ok) (hwriting : s.caller p = .writing) (full : Bool) :
    (s.write p full).Ok := by
  refine ⟨?_, fun hup => ?_, hs.fresh, hs.announced, fun q hq => ?_, hs.counted, ?_⟩
  · show s.wake.fd.map _ = none ↔ _
    rw [Option.map_eq_none_iff]
    exact hs.hasFd
  · by_cases hfd : s.wake.fd = none
    · rcases hs.hasFd.mp hfd with hoff | hopening
      · exact .inl hoff
      · exact absurd ((hs.fresh hopening).symm.trans hup) Bool.false_ne_true
    · exact .inr (.inr (.inr (.inr (.inl (pokes_written_pos hfd full)))))
  · have hqp : q ≠ p := by
      rintro rfl
      rcases hs.unannounced q hq with hpublished | hchecked
      · simp [hwriting] at hpublished
      · simp [hwriting] at hchecked
    show (s.goto p .idle).caller q = .published ∨ (s.goto p .idle).caller q = .checked
    rw [caller_goto_of_ne hqp]
    exact hs.unannounced q hq
  · obtain ⟨ahead, hahead, hcount⟩ := hs.written
    have hcard := Finset.card_erase_add_one ((hahead p).mpr hwriting)
    have hpokes := pokes_written_le s.wake full
    refine ⟨ahead.erase p, hahead.goto_written (by simp), ?_⟩
    show (s.wake.written full).pokes + s.reads + (ahead.erase p).card ≤ s.sets
    omega

omit [DecidableEq P] in
theorem Ok.turn (hs : s.Ok) (other : Bool) (taken : ℕ) (stop early : Bool) :
    (s.turn other taken stop early).Ok := by
  obtain ⟨ahead, hahead, hcount⟩ := hs.written
  have hcounted := hs.counted
  have hflag := s.wake.signalled.toNat_le
  unfold Loop.turn
  split
  next hpc =>
    have hclosed : s.wake.fd = none := hs.hasFd.mpr (.inl hpc)
    refine ⟨?_, ?_, fun _ => rfl, fun _ _ => ?_, hs.unannounced, ?_, ahead, hahead, hcount⟩
    · simp [cleared, hclosed]
    · simp [cleared]
    · simp [Covered]
    · show s.sets ≤ s.clears + 1 + 0
      omega
  next hpc =>
    have hdown := hs.fresh hpc
    refine ⟨?_, ?_, ?_, fun _ _ => ?_, hs.unannounced, hcounted, ahead, hahead, ?_⟩
    · simp [opened]
    · simp [opened, hdown]
    · simp
    · simp [Covered]
    · show 0 + s.reads + ahead.card ≤ s.sets
      omega
  next hpc =>
    have hopen : s.wake.fd ≠ none := by simp [hs.hasFd, hpc]
    have hraised : s.wake.signalled = true → 0 < s.wake.pokes ∨ ∃ p, s.caller p = .writing := by
      simpa [hpc] using hs.raised
    refine ⟨?_, fun hup => .inr (.inr (.inr (.inr (hraised hup)))), ?_, ?_, ?_, hcounted, ahead,
      hahead, hcount⟩
    · cases stop <;> simp [hopen]
    · cases stop <;> simp
    · simp
    · simp
  next hpc =>
    have hopen : s.wake.fd ≠ none := by simp [hs.hasFd, hpc]
    have hannounced : ∀ p, (p, true) ∈ s.unseen → s.wake.signalled = true := by
      simpa [Covered, hpc] using hs.announced
    have hraised : s.wake.signalled = true → 0 < s.wake.pokes ∨ ∃ p, s.caller p = .writing := by
      simpa [hpc] using hs.raised
    split
    next =>
      refine ⟨?_, ?_, ?_, fun p hp => .inl ⟨hannounced p hp, by simp⟩, hs.unannounced, hcounted,
        ahead, hahead, hcount⟩
      · simp [hopen]
      · simp
      · simp
    next =>
      split
      next =>
        refine ⟨?_, fun hup => .inr (.inr (.inr (.inr (hraised hup)))), ?_,
          fun p hp => .inl ⟨hannounced p hp, by simp⟩, hs.unannounced, hcounted, ahead, hahead,
          hcount⟩
        · simp [hopen]
        · simp
      next => exact hs
  next hpc =>
    have hopen : s.wake.fd ≠ none := by simp [hs.hasFd, hpc]
    have hannounced : ∀ p, (p, true) ∈ s.unseen → s.wake.signalled = true := by
      simpa [Covered, hpc] using hs.announced
    unfold drain
    split
    next hpokes =>
      have hless := pokes_drained_lt hpokes taken
      refine ⟨?_, fun _ => .inr (.inl hpc), hs.fresh, fun p hp => .inl ⟨hannounced p hp, ?_⟩,
        hs.unannounced, hcounted, ahead, hahead, ?_⟩
      · simp [drained, hopen, hpc]
      · simp [hpc]
      · show (s.wake.drained taken).pokes + (s.reads + 1) + ahead.card ≤ s.sets
        omega
    next =>
      refine ⟨?_, ?_, ?_, fun p hp => .inl ⟨hannounced p hp, by simp⟩, hs.unannounced, hcounted,
        ahead, hahead, hcount⟩
      · simp [hopen]
      · simp
      · simp
  next hpc =>
    have hopen : s.wake.fd ≠ none := by simp [hs.hasFd, hpc]
    split
    next =>
      -- Everything announced so far is looked at, and nothing is announced before the store.
      refine ⟨?_, ?_, ?_, ?_, ?_, hcounted, ahead, hahead, hcount⟩
      · simp [hopen]
      · simp
      · simp
      · simp
      · simp
    next =>
      refine ⟨?_, ?_, ?_, fun _ _ => ?_, hs.unannounced, ?_, ahead, hahead, hcount⟩
      · simp [cleared, hopen]
      · simp [cleared]
      · simp
      · simp [Covered]
      · show s.sets ≤ s.clears + 1 + 0
        omega
  next stopped hpc =>
    have hopen : s.wake.fd ≠ none := by simp [hs.hasFd, hpc]
    have hnone : ∀ p, (p, true) ∉ s.unseen := by
      simpa [Covered, hpc] using hs.announced
    refine ⟨?_, ?_, ?_, fun p hp => absurd hp (hnone p), hs.unannounced, ?_, ahead, hahead, hcount⟩
    · cases stopped <;> simp [cleared, hopen]
    · simp [cleared]
    · cases stopped <;> simp
    · show s.sets ≤ s.clears + 1 + 0
      omega
  next hpc =>
    refine ⟨?_, ?_, ?_, fun _ _ => ?_, hs.unannounced, ?_, ahead, hahead, ?_⟩
    · simp [closed]
    · simp [closed]
    · simp
    · simp [Covered]
    · show s.sets ≤ s.clears + 1 + 0
      omega
    · show 0 + s.reads + ahead.card ≤ s.sets
      omega

theorem Ok.step (hs : s.Ok) (input : Input P) (htimely : s.Timely input) : (s.step input).Ok := by
  cases input with
  | publish p =>
      show (if s.caller p = .idle then s.publish p else s).Ok
      split
      next hidle => exact hs.publish hidle
      next => exact hs
  | check p =>
      show (if s.caller p = .published then s.check p else s).Ok
      split
      next hpublished => exact hs.check hpublished
      next => exact hs
  | exchange p =>
      show (if s.caller p = .checked then s.exchange p else s).Ok
      split
      next hchecked => exact hs.exchange hchecked (htimely hchecked).1 (htimely hchecked).2
      next => exact hs
  | write p full =>
      show (if s.caller p = .writing then s.write p full else s).Ok
      split
      next hwriting => exact hs.write hwriting full
      next => exact hs
  | turn other taken stop early => exact hs.turn other taken stop early

omit [DecidableEq P] in
theorem init_ok : ({} : Loop P).Ok where
  hasFd := by simp
  raised := by simp
  fresh := by simp
  announced := by simp
  unannounced := by simp
  counted := Nat.zero_le _
  written := ⟨∅, by simp [Ahead], Nat.le_refl _⟩

theorem run_ok {inputs : List (Input P)} (htimely : Along step Timely {} inputs) :
    (run inputs).Ok :=
  run_invariant_along (fun _ input hs htimely => hs.step input htimely) init_ok htimely

/-! ## The loop gets to look -/

/-- The loop is on its way to a look. -/
def Stirred (s : Loop P) : Prop :=
  s.pc = .looking ∨ s.pc = .clearing ∨ s.pc = .draining ∨ s.pc = .polling ∧ 0 < s.wake.pokes

/-- A bound on the turns of the loop until it has looked: each read of a drain takes a poke of
another write, and there are as many of these as clears, and one. -/
def due (s : Loop P) : ℕ :=
  match s.pc with
  | .looking => 1
  | .clearing => 2
  | .draining => 3 + (s.clears + 1 - s.reads)
  | .polling => 4 + (s.clears + 1 - s.reads)
  | _ => 0

def Input.isTurn : Input P → Bool
  | .turn .. => true
  | _ => false

/-- How often it is the loop's turn. -/
def turns (inputs : List (Input P)) : ℕ := inputs.countP Input.isTurn

/-- What a thread does takes no poke and moves no loop. -/
theorem step_other {input : Input P} (hother : input.isTurn = false) :
    (s.step input).pc = s.pc ∧ (s.step input).looks = s.looks ∧
      (s.step input).clears = s.clears ∧ (s.step input).reads = s.reads ∧
      s.wake.pokes ≤ (s.step input).wake.pokes := by
  cases input with
  | turn other taken stop early => exact absurd hother (by simp [Input.isTurn])
  | publish p =>
      simp only [step]
      split <;> exact ⟨rfl, rfl, rfl, rfl, Nat.le_refl _⟩
  | check p =>
      simp only [step, check]
      split
      · split <;> exact ⟨rfl, rfl, rfl, rfl, Nat.le_refl _⟩
      · exact ⟨rfl, rfl, rfl, rfl, Nat.le_refl _⟩
  | exchange p =>
      simp only [step, exchange]
      split
      · split <;> exact ⟨rfl, rfl, rfl, rfl, Nat.le_refl _⟩
      · exact ⟨rfl, rfl, rfl, rfl, Nat.le_refl _⟩
  | write p full =>
      simp only [step]
      split
      · exact ⟨rfl, rfl, rfl, rfl, pokes_le_written s.wake full⟩
      · exact ⟨rfl, rfl, rfl, rfl, Nat.le_refl _⟩

theorem Stirred.other (hstirred : s.Stirred) {input : Input P} (hother : input.isTurn = false) :
    (s.step input).Stirred ∧ (s.step input).due = s.due := by
  obtain ⟨hpc, -, hclears, hreads, hpokes⟩ := step_other (s := s) hother
  constructor
  · unfold Stirred
    rw [hpc]
    exact hstirred.imp_right fun h => h.imp_right fun h => h.imp_right fun h =>
      h.imp_right fun h => h.trans_le hpokes
  · unfold due
    rw [hpc, hclears, hreads]

instance (s : Loop P) (input : Input P) : Decidable (s.Timely input) := by
  cases input with
  | exchange p =>
      exact inferInstanceAs (Decidable (s.caller p = .checked → s.pc ≠ .opening ∧
        ∀ stop, s.pc ≠ .late stop))
  | publish p => exact .isTrue trivial
  | check p => exact .isTrue trivial
  | write p full => exact .isTrue trivial
  | turn other taken stop early => exact .isTrue trivial

/-- `TcpAcceptor::Loop` drains a wakeup and finds `stop_` down before the store of its `Drain` takes
effect; `Stop` sets it and finds the flag up.  The loop polls without a timeout, and nothing wakes
it. -/
example :
    let late : List (Input Bool) :=
      [.turn false 0 false, .turn false 0 false, .turn false 0 false, .publish false, .check false,
        .exchange false, .write false false, .turn false 0 false, .turn false 8 false,
        .turn false 8 false, .turn false 0 false true, .publish true, .check true, .exchange true,
        .turn false 0 false]
    (run late).pc = .polling ∧ (run late).wake.pokes = 0 ∧ (true, true) ∈ (run late).unseen ∧
      (run late).caller false = .idle ∧ (run late).caller true = .idle := by
  decide

/-- A `Signal` from before a `Close` that makes its exchange within the next `Open` leaves the flag
up over an empty fd: no later work wakes the loop. -/
example :
    let late : List (Input Bool) :=
      [.turn false 0 false, .turn false 0 false, .publish false, .check false, .turn false 0 true,
        .turn false 0 false, .turn false 0 false, .exchange false, .write false false,
        .turn false 0 false, .turn false 0 false, .publish true, .check true, .exchange true]
    (run late).pc = .polling ∧ (run late).wake.pokes = 0 ∧ (true, true) ∈ (run late).unseen := by
  decide

end Loop

end WakeFd

end VisioSchema.Transport

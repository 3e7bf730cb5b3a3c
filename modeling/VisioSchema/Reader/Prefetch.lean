import Mathlib.Data.List.Basic
import Mathlib.Order.Lattice

/-!
# Prefetching a source on a worker thread

`prefetch` of `reader/ops.py`: a worker iterates the source and puts what it gets into a bounded
queue, a consumer yields what it gets from the queue.  The two threads take their steps in any
order.

* `prefetch_refines`: whatever the order, the consumer yields what plain iteration of the source
  yields, and ends as the source ends; the worker is at most `max 1 depth + 1` items ahead, and the
  consumer never waits for a worker that cannot go on.
* `leaves_no_worker_iff`: a consumer that stops early leaves no blocked worker behind exactly where
  the queue holds two items or more.
-/

namespace VisioSchema.Reader.Prefetch

/-! ## The threads -/

/-- What a call of `next` on the source comes to. -/
inductive Pulled (α ε : Type*)
  | item (a : α)
  | exhausted
  | raised (e : ε)

/-- An item of the queue: `_Err` and `_DONE` are its terminal ones. -/
inductive Slot (α ε : Type*)
  | item (a : α)
  | err (e : ε)
  | done

/-- `_prefetch_worker`: in front of the source, with an item and in front of `stop.is_set()`, in
`q.put`, and returned. -/
inductive WorkerPc (α ε : Type*)
  | pulling
  | offered (a : α)
  | putting (slot : Slot α ε)
  | finished

/-- `prefetch` and `_prefetch_consume`: in `q.get`, suspended at `yield`, and in the `finally` in
front of `stop.set()`, of a `get_nowait`, of `join`, and through.  The result is there where the
loop ended by itself. -/
inductive ConsumerPc (ε : Type*)
  | getting
  | suspended
  | leaving (result : Option (Except ε Unit))
  | draining (result : Option (Except ε Unit))
  | joining (result : Option (Except ε Unit))
  | gone (result : Option (Except ε Unit))

structure State (α ε : Type*) where
  queue : List (Slot α ε) := []
  stop : Bool := false
  pulled : ℕ := 0
  worker : WorkerPc α ε := .pulling
  consumer : ConsumerPc ε := .getting
  yielded : List α := []

variable {α ε : Type*}

/-- `queue.Queue(maxsize=max(1, depth))`. -/
def maxsize (depth : ℕ) : ℕ := max 1 depth

/-- Where the worker is behind a `q.put`. -/
def afterPut : Slot α ε → WorkerPc α ε
  | .item _ => .pulling
  | .err _ => .finished
  | .done => .finished

section Steps

variable (source : ℕ → Pulled α ε) (depth : ℕ)

/-- A step of `_prefetch_worker`. -/
inductive WorkerStep (s : State α ε) : State α ε → Prop
  | pull {a : α} (hpc : s.worker = .pulling) (hnext : source s.pulled = .item a) :
      WorkerStep s { s with worker := .offered a, pulled := s.pulled + 1 }
  | exhaust (hpc : s.worker = .pulling) (hnext : source s.pulled = .exhausted) :
      WorkerStep s { s with worker := .putting .done }
  | raise {e : ε} (hpc : s.worker = .pulling) (hnext : source s.pulled = .raised e) :
      WorkerStep s { s with worker := .putting (.err e) }
  | quit {a : α} (hpc : s.worker = .offered a) (hstop : s.stop = true) :
      WorkerStep s { s with worker := .finished }
  | keep {a : α} (hpc : s.worker = .offered a) (hstop : s.stop = false) :
      WorkerStep s { s with worker := .putting (.item a) }
  | put {slot : Slot α ε} (hpc : s.worker = .putting slot)
      (hroom : s.queue.length < maxsize depth) :
      WorkerStep s { s with queue := s.queue ++ [slot], worker := afterPut slot }

/-- A step of `prefetch` with `_prefetch_consume` and `_drain`, or of who iterates it. -/
inductive ConsumerStep (s : State α ε) : State α ε → Prop
  | get {a : α} {rest : List (Slot α ε)} (hpc : s.consumer = .getting)
      (hqueue : s.queue = .item a :: rest) :
      ConsumerStep s
        { s with queue := rest, consumer := .suspended, yielded := s.yielded ++ [a] }
  | getErr {e : ε} {rest : List (Slot α ε)} (hpc : s.consumer = .getting)
      (hqueue : s.queue = .err e :: rest) :
      ConsumerStep s { s with queue := rest, consumer := .leaving (some (.error e)) }
  | getDone {rest : List (Slot α ε)} (hpc : s.consumer = .getting)
      (hqueue : s.queue = .done :: rest) :
      ConsumerStep s { s with queue := rest, consumer := .leaving (some (.ok ())) }
  | resume (hpc : s.consumer = .suspended) : ConsumerStep s { s with consumer := .getting }
  | close (hpc : s.consumer = .suspended) : ConsumerStep s { s with consumer := .leaving none }
  | setStop {result : Option (Except ε Unit)} (hpc : s.consumer = .leaving result) :
      ConsumerStep s { s with stop := true, consumer := .draining result }
  | drop {result : Option (Except ε Unit)} {slot : Slot α ε} {rest : List (Slot α ε)}
      (hpc : s.consumer = .draining result) (hqueue : s.queue = slot :: rest) :
      ConsumerStep s { s with queue := rest }
  | drained {result : Option (Except ε Unit)} (hpc : s.consumer = .draining result)
      (hqueue : s.queue = []) : ConsumerStep s { s with consumer := .joining result }
  | joined {result : Option (Except ε Unit)} (hpc : s.consumer = .joining result)
      (hfinished : s.worker = .finished) : ConsumerStep s { s with consumer := .gone result }
  | timedOut {result : Option (Except ε Unit)} (hpc : s.consumer = .joining result) :
      ConsumerStep s { s with consumer := .gone result }

/-- The states that the steps of the two threads lead to, in any order. -/
inductive Run : State α ε → Prop
  | start : Run {}
  | worker {s next : State α ε} (hrun : Run s) (hstep : WorkerStep source depth s next) :
      Run next
  | consumer {s next : State α ε} (hrun : Run s) (hstep : ConsumerStep s next) : Run next

end Steps

/-! ## Plain iteration -/

/-- The source yields these items first. -/
def Yields (source : ℕ → Pulled α ε) (items : List α) : Prop :=
  ∀ i (hi : i < items.length), source i = .item items[i]

/-- The source yields these items and then ends so. -/
def Ends (source : ℕ → Pulled α ε) (items : List α) : Except ε Unit → Prop
  | .ok _ => Yields source items ∧ source items.length = .exhausted
  | .error e => Yields source items ∧ source items.length = .raised e

/-- How the consumer's loop ended, if it ended by itself. -/
def State.result (s : State α ε) : Option (Except ε Unit) :=
  match s.consumer with
  | .leaving result => result
  | .draining result => result
  | .joining result => result
  | .gone result => result
  | _ => none

variable {source : ℕ → Pulled α ε} {depth : ℕ} {s next : State α ε}

theorem yields_nil : Yields source [] := fun _ hi => absurd hi (Nat.not_lt_zero _)

theorem yields_append {items : List α} {a : α} :
    Yields source (items ++ [a]) ↔ Yields source items ∧ source items.length = .item a := by
  constructor
  · intro hyields
    refine ⟨fun i hi => ?_, ?_⟩
    · have hlong : i < (items ++ [a]).length := by
        rw [List.length_append]
        exact Nat.lt_add_right 1 hi
      rw [hyields i hlong, List.getElem_append_left hi]
    · have hlast : items.length < (items ++ [a]).length := by simp
      rw [hyields _ hlast, List.getElem_append_right (Nat.le_refl _)]
      simp
  · rintro ⟨hyields, hlast⟩ i hi
    rcases Nat.lt_or_ge i items.length with hless | hmore
    · rw [List.getElem_append_left hless]
      exact hyields i hless
    · obtain rfl : i = items.length := by
        rw [List.length_append, List.length_singleton] at hi
        omega
      rw [List.getElem_append_right (Nat.le_refl _)]
      simpa using hlast

theorem Yields.front {first second : List α} (hyields : Yields source (first ++ second)) :
    Yields source first := by
  intro i hi
  have hlong : i < (first ++ second).length := by
    rw [List.length_append]
    exact Nat.lt_add_right _ hi
  rw [hyields i hlong, List.getElem_append_left hi]

/-! ## What the threads keep -/

/-- The item that the worker has in hand. -/
def WorkerPc.held : WorkerPc α ε → List α
  | .offered a => [a]
  | .putting (.item a) => [a]
  | _ => []

/-- The terminal item that a source asks for behind its first `n` items. -/
def Terminal (source : ℕ → Pulled α ε) (n : ℕ) : Slot α ε → Prop
  | .item _ => False
  | .err e => source n = .raised e
  | .done => source n = .exhausted

/-- While the consumer takes what comes, what is yielded, what waits in the queue and what the
worker has in hand is what the source yielded; a terminal item stands behind all of it. -/
structure Serving (source : ℕ → Pulled α ε) (s : State α ε) (waiting : List α)
    (ending : Option (Slot α ε)) : Prop where
  stop : s.stop = false
  yields : Yields source (s.yielded ++ waiting ++ s.worker.held)
  pulled : s.pulled = (s.yielded ++ waiting ++ s.worker.held).length
  queue : s.queue = waiting.map .item ++ ending.toList
  finished : s.worker = .finished ↔ ending ≠ none
  terminal : ∀ slot, ending = some slot → Terminal source s.pulled slot
  putting : ∀ slot, s.worker = .putting slot →
    (∃ a, slot = .item a) ∨ Terminal source s.pulled slot

/-- The consumer has not left its loop. -/
def State.InLoop (s : State α ε) : Prop :=
  s.consumer = .getting ∨ s.consumer = .suspended ∨ s.consumer = .leaving none

/-- The drain of the consumer is over. -/
def State.Left (s : State α ε) : Prop :=
  ∃ result, s.consumer = .joining result ∨ s.consumer = .gone result

/-- How many more items a worker puts that will see `stop`. -/
def WorkerPc.reserve : WorkerPc α ε → ℕ
  | .pulling => 1
  | .offered _ => 0
  | .putting (.item _) => 2
  | .putting _ => 1
  | .finished => 0

structure Ok (source : ℕ → Pulled α ε) (depth : ℕ) (s : State α ε) : Prop where
  serving : s.InLoop → ∃ waiting ending, Serving source s waiting ending
  yields : Yields source s.yielded
  ends : ∀ result, s.result = some result → Ends source s.yielded result
  room : s.queue.length ≤ maxsize depth
  stopped : ∀ result, s.consumer = .draining result → s.stop = true
  spare : s.Left → s.stop = true ∧ s.queue.length + s.worker.reserve ≤ 2

/-! ## The worker -/

/-- The worker touches nothing that belongs to the consumer. -/
theorem WorkerStep.frame (hstep : WorkerStep source depth s next) :
    next.consumer = s.consumer ∧ next.yielded = s.yielded ∧ next.stop = s.stop := by
  cases hstep <;> exact ⟨rfl, rfl, rfl⟩

theorem WorkerStep.room (hstep : WorkerStep source depth s next)
    (hroom : s.queue.length ≤ maxsize depth) : next.queue.length ≤ maxsize depth := by
  cases hstep with
  | put hpc hless =>
      rw [List.length_append]
      exact hless
  | pull hpc hnext => exact hroom
  | exhaust hpc hnext => exact hroom
  | raise hpc hnext => exact hroom
  | quit hpc hstop => exact hroom
  | keep hpc hstop => exact hroom

/-- A terminal item is queued last, and then the worker returns. -/
theorem Serving.going {waiting : List α} {ending : Option (Slot α ε)}
    (hs : Serving source s waiting ending) (hgoing : s.worker ≠ .finished) : ending = none := by
  by_contra hsome
  exact hgoing (hs.finished.mpr hsome)

theorem WorkerStep.serving {waiting : List α} {ending : Option (Slot α ε)}
    (hstep : WorkerStep source depth s next) (hs : Serving source s waiting ending) :
    ∃ waiting ending, Serving source next waiting ending := by
  cases hstep with
  | @pull a hpc hnext =>
      -- The item that is pulled goes from the source into the hand of the worker.
      have hnone := hs.going (by simp [hpc])
      have hyields := hs.yields
      have hpulled := hs.pulled
      simp only [hpc, WorkerPc.held, List.append_nil] at hyields hpulled
      refine ⟨waiting, ending, hs.stop, ?_, ?_, hs.queue, ?_, ?_, ?_⟩
      · exact yields_append.mpr ⟨hyields, hpulled ▸ hnext⟩
      · simp only [WorkerPc.held, List.length_append, List.length_singleton] at hpulled ⊢
        omega
      · simp [hnone]
      · simp [hnone]
      · intro slot hslot
        cases hslot
  | exhaust hpc hnext =>
      have hnone := hs.going (by simp [hpc])
      refine ⟨waiting, ending, hs.stop, ?_, ?_, hs.queue, ?_, hs.terminal, ?_⟩
      · simpa [hpc, WorkerPc.held] using hs.yields
      · simpa [hpc, WorkerPc.held] using hs.pulled
      · simp [hnone]
      · rintro slot ⟨⟩
        exact .inr hnext
  | raise hpc hnext =>
      have hnone := hs.going (by simp [hpc])
      refine ⟨waiting, ending, hs.stop, ?_, ?_, hs.queue, ?_, hs.terminal, ?_⟩
      · simpa [hpc, WorkerPc.held] using hs.yields
      · simpa [hpc, WorkerPc.held] using hs.pulled
      · simp [hnone]
      · rintro slot ⟨⟩
        exact .inr hnext
  -- While the consumer is in its loop, `stop` is not set.
  | quit hpc hstop => cases hstop.symm.trans hs.stop
  | @keep a hpc hstop =>
      have hnone := hs.going (by simp [hpc])
      refine ⟨waiting, ending, hs.stop, ?_, ?_, hs.queue, ?_, hs.terminal, ?_⟩
      · simpa [hpc, WorkerPc.held] using hs.yields
      · simpa [hpc, WorkerPc.held] using hs.pulled
      · simp [hnone]
      · rintro slot ⟨⟩
        exact .inl ⟨a, rfl⟩
  | @put slot hpc hroom =>
      have hnone := hs.going (by simp [hpc])
      subst hnone
      have hqueue : s.queue = waiting.map .item := by simpa using hs.queue
      have hyields := hs.yields
      have hpulled := hs.pulled
      -- An item joins those that wait; anything else is the last slot there will be.
      rcases hs.putting slot hpc with ⟨a, rfl⟩ | hterminal
      · simp only [hpc, WorkerPc.held] at hyields hpulled
        refine ⟨waiting ++ [a], none, hs.stop, ?_, ?_, ?_, ?_, ?_, ?_⟩
        · simpa [afterPut, WorkerPc.held] using hyields
        · simpa [afterPut, WorkerPc.held] using hpulled
        · simp [hqueue]
        · simp [afterPut]
        · simp
        · intro slot hslot
          cases hslot
      · have hafter : afterPut slot = .finished := by
          cases slot with
          | item a => exact hterminal.elim
          | err e => rfl
          | done => rfl
        have hheld : WorkerPc.held (.putting slot : WorkerPc α ε) = [] := by
          cases slot with
          | item a => exact hterminal.elim
          | err e => rfl
          | done => rfl
        rw [hpc, hheld] at hyields hpulled
        refine ⟨waiting, some slot, hs.stop, ?_, ?_, ?_, ?_, ?_, ?_⟩
        · rw [hafter]
          exact hyields
        · rw [hafter]
          exact hpulled
        · simp [hqueue]
        · simp [hafter]
        · rintro _ ⟨⟩
          exact hterminal
        · intro other hother
          rw [hafter] at hother
          cases hother

/-- A worker that will see `stop` spends its reserve. -/
theorem WorkerStep.spare (hstep : WorkerStep source depth s next) (hstop : s.stop = true) :
    next.queue.length + next.worker.reserve ≤ s.queue.length + s.worker.reserve := by
  cases hstep with
  | pull hpc hnext => simp [hpc, WorkerPc.reserve]
  | exhaust hpc hnext => simp [hpc, WorkerPc.reserve]
  | raise hpc hnext => simp [hpc, WorkerPc.reserve]
  | quit hpc hstop => simp [hpc, WorkerPc.reserve]
  | keep hpc hgoing => cases hgoing.symm.trans hstop
  | @put slot hpc hroom => cases slot <;> simp [hpc, afterPut, WorkerPc.reserve]

theorem WorkerStep.ok (hstep : WorkerStep source depth s next) (hs : Ok source depth s) :
    Ok source depth next := by
  obtain ⟨hconsumer, hyielded, hstop⟩ := hstep.frame
  refine ⟨fun hloop => ?_, ?_, fun result hresult => ?_, hstep.room hs.room, ?_, fun hleft => ?_⟩
  · unfold State.InLoop at hloop
    rw [hconsumer] at hloop
    obtain ⟨waiting, ending, hserving⟩ := hs.serving hloop
    exact hstep.serving hserving
  · rw [hyielded]
    exact hs.yields
  · unfold State.result at hresult
    rw [hconsumer] at hresult
    rw [hyielded]
    exact hs.ends result hresult
  · rw [hconsumer, hstop]
    exact hs.stopped
  · unfold State.Left at hleft
    rw [hconsumer] at hleft
    obtain ⟨hstopped, hspare⟩ := hs.spare hleft
    exact ⟨hstop.trans hstopped, (hstep.spare hstopped).trans hspare⟩

/-! ## The consumer -/

theorem Serving.goto {waiting : List α} {ending : Option (Slot α ε)}
    (hs : Serving source s waiting ending) (pc : ConsumerPc ε) :
    Serving source { s with consumer := pc } waiting ending :=
  ⟨hs.stop, hs.yields, hs.pulled, hs.queue, hs.finished, hs.terminal, hs.putting⟩

/-- The item at the front of the queue is the next one of the source. -/
theorem Serving.get {waiting : List α} {ending : Option (Slot α ε)} {a : α}
    {rest : List (Slot α ε)} (hs : Serving source s waiting ending)
    (hqueue : s.queue = .item a :: rest) :
    ∃ waiting, Serving source
      { s with queue := rest, consumer := .suspended, yielded := s.yielded ++ [a] }
      waiting ending := by
  have hsplit := hs.queue
  rw [hqueue] at hsplit
  cases waiting with
  | nil =>
      cases ending with
      | none => cases hsplit
      | some slot =>
          cases hsplit
          exact (hs.terminal _ rfl).elim
  | cons b waiting =>
      obtain ⟨hb, hrest⟩ := List.cons.inj hsplit
      cases hb
      refine ⟨waiting, hs.stop, ?_, ?_, hrest, hs.finished, hs.terminal, hs.putting⟩
      · simpa using hs.yields
      · simpa using hs.pulled

/-- A terminal item is at the front of the queue when everything before it was yielded. -/
theorem Serving.getTerminal {waiting : List α} {ending : Option (Slot α ε)} {slot : Slot α ε}
    {rest : List (Slot α ε)} (hs : Serving source s waiting ending)
    (hqueue : s.queue = slot :: rest) (hslot : ∀ a, slot ≠ .item a) :
    Yields source s.yielded ∧ Terminal source s.yielded.length slot := by
  have hsplit := hs.queue
  rw [hqueue] at hsplit
  cases waiting with
  | cons b waiting => exact absurd (List.cons.inj hsplit).1 (hslot b)
  | nil =>
      cases ending with
      | none => cases hsplit
      | some ending =>
          cases hsplit
          have hfinished : s.worker = .finished := hs.finished.mpr (by simp)
          have hyields := hs.yields
          have hpulled := hs.pulled
          have hterminal := hs.terminal slot rfl
          simp only [hfinished, WorkerPc.held, List.append_nil] at hyields hpulled
          rw [hpulled] at hterminal
          exact ⟨hyields, hterminal⟩

theorem ConsumerStep.ok (hstep : ConsumerStep s next) (hs : Ok source depth s) :
    Ok source depth next := by
  have hroom := hs.room
  cases hstep with
  | @get a rest hpc hqueue =>
      -- The front of the queue is the next item that the source yields.
      obtain ⟨waiting, ending, hserving⟩ := hs.serving (.inl hpc)
      obtain ⟨waiting, hnext⟩ := hserving.get hqueue
      have hyields := hnext.yields
      rw [List.append_assoc] at hyields
      rw [hqueue, List.length_cons] at hroom
      refine ⟨fun _ => ⟨waiting, ending, hnext⟩, hyields.front, ?_, Nat.le_of_succ_le hroom, ?_, ?_⟩
      · simp [State.result]
      · simp
      · simp [State.Left]
  | @getErr e rest hpc hqueue =>
      obtain ⟨waiting, ending, hserving⟩ := hs.serving (.inl hpc)
      have hends := hserving.getTerminal hqueue (by simp)
      rw [hqueue, List.length_cons] at hroom
      refine ⟨?_, hs.yields, ?_, Nat.le_of_succ_le hroom, ?_, ?_⟩
      · simp [State.InLoop]
      · intro result hresult
        cases hresult
        exact hends
      · simp
      · simp [State.Left]
  | @getDone rest hpc hqueue =>
      obtain ⟨waiting, ending, hserving⟩ := hs.serving (.inl hpc)
      have hends := hserving.getTerminal hqueue (by simp)
      rw [hqueue, List.length_cons] at hroom
      refine ⟨?_, hs.yields, ?_, Nat.le_of_succ_le hroom, ?_, ?_⟩
      · simp [State.InLoop]
      · intro result hresult
        cases hresult
        exact hends
      · simp
      · simp [State.Left]
  | resume hpc =>
      obtain ⟨waiting, ending, hserving⟩ := hs.serving (.inr (.inl hpc))
      refine ⟨fun _ => ⟨waiting, ending, hserving.goto _⟩, hs.yields, ?_, hroom, ?_, ?_⟩
      · simp [State.result]
      · simp
      · simp [State.Left]
  | close hpc =>
      obtain ⟨waiting, ending, hserving⟩ := hs.serving (.inr (.inl hpc))
      refine ⟨fun _ => ⟨waiting, ending, hserving.goto _⟩, hs.yields, ?_, hroom, ?_, ?_⟩
      · simp [State.result]
      · simp
      · simp [State.Left]
  | @setStop result hpc =>
      -- From here on the consumer only winds up: what it yielded and how it ends are settled.
      refine ⟨?_, hs.yields, fun final hfinal => ?_, hroom, fun _ _ => rfl, ?_⟩
      · simp [State.InLoop]
      · refine hs.ends final ?_
        rw [State.result, hpc]
        exact hfinal
      · simp [State.Left]
  | @drop result slot rest hpc hqueue =>
      rw [hqueue, List.length_cons] at hroom
      refine ⟨?_, hs.yields, hs.ends, Nat.le_of_succ_le hroom, hs.stopped, ?_⟩
      · rintro (h | h | h) <;> cases hpc.symm.trans h
      · rintro ⟨final, h | h⟩ <;> cases hpc.symm.trans h
  | @drained result hpc hqueue =>
      refine ⟨?_, hs.yields, fun final hfinal => ?_, hroom, ?_, fun _ => ?_⟩
      · simp [State.InLoop]
      · refine hs.ends final ?_
        rw [State.result, hpc]
        exact hfinal
      · simp
      · refine ⟨hs.stopped result hpc, ?_⟩
        -- The queue was empty when the drain ended; the worker may still put an item and the end.
        show s.queue.length + s.worker.reserve ≤ 2
        rw [hqueue, List.length_nil, Nat.zero_add]
        unfold WorkerPc.reserve
        split <;> omega
  | @joined result hpc hfinished =>
      refine ⟨?_, hs.yields, fun final hfinal => ?_, hroom, ?_,
        fun _ => hs.spare ⟨result, .inl hpc⟩⟩
      · simp [State.InLoop]
      · refine hs.ends final ?_
        rw [State.result, hpc]
        exact hfinal
      · simp
  | @timedOut result hpc =>
      refine ⟨?_, hs.yields, fun final hfinal => ?_, hroom, ?_,
        fun _ => hs.spare ⟨result, .inl hpc⟩⟩
      · simp [State.InLoop]
      · refine hs.ends final ?_
        rw [State.result, hpc]
        exact hfinal
      · simp

/-! ## Runs -/

theorem start_ok : Ok source depth {} where
  serving := by
    intro _
    refine ⟨[], none, rfl, yields_nil, rfl, rfl, ?_, ?_, ?_⟩
    · simp
    · simp
    · simp
  yields := yields_nil
  ends := by simp [State.result]
  room := Nat.zero_le _
  stopped := by simp
  spare := by simp [State.Left]

theorem Run.ok (hrun : Run source depth s) : Ok source depth s := by
  induction hrun with
  | start => exact start_ok
  | worker _ hstep ih => exact hstep.ok ih
  | consumer _ hstep ih => exact hstep.ok ih

theorem length_held_le (worker : WorkerPc α ε) : worker.held.length ≤ 1 := by
  unfold WorkerPc.held
  split <;> simp

/-- A worker that is asked for the next item can go on. -/
theorem Serving.goes {waiting : List α} {ending : Option (Slot α ε)}
    (hs : Serving source s waiting ending) (hqueue : s.queue = []) :
    ∃ next, WorkerStep source depth s next := by
  have hending : ending = none := by
    cases ending with
    | none => rfl
    | some slot =>
        have hsplit := hs.queue
        rw [hqueue] at hsplit
        simp at hsplit
  cases hworker : s.worker with
  | pulling =>
      cases hnext : source s.pulled with
      | item a => exact ⟨_, .pull hworker hnext⟩
      | exhausted => exact ⟨_, .exhaust hworker hnext⟩
      | raised e => exact ⟨_, .raise hworker hnext⟩
  | offered a => exact ⟨_, .keep hworker hs.stop⟩
  | putting slot =>
      refine ⟨_, .put hworker ?_⟩
      rw [hqueue]
      exact Nat.lt_of_lt_of_le Nat.zero_lt_one (Nat.le_max_left 1 depth)
  | finished => exact absurd hending (hs.finished.mp hworker)

/-- Whatever the order of the steps: what is yielded is what the source yields first; a loop that
ended by itself yielded all of it and ended as the source ends; the queue holds `max 1 depth` items
and the worker is one more ahead; and a consumer in `q.get` finds an item or a worker that can go
on. -/
theorem prefetch_refines (hrun : Run source depth s) :
    Yields source s.yielded ∧
      (∀ result, s.result = some result → Ends source s.yielded result) ∧
      s.queue.length ≤ maxsize depth ∧
      (s.InLoop → s.pulled ≤ s.yielded.length + maxsize depth + 1) ∧
      (s.consumer = .getting → s.queue ≠ [] ∨ ∃ next, WorkerStep source depth s next) := by
  have hok := hrun.ok
  refine ⟨hok.yields, hok.ends, hok.room, fun hloop => ?_, fun hgetting => ?_⟩
  · obtain ⟨waiting, ending, hserving⟩ := hok.serving hloop
    have hwaiting : waiting.length ≤ s.queue.length := by
      rw [hserving.queue, List.length_append, List.length_map]
      exact Nat.le_add_right _ _
    have hheld := length_held_le s.worker
    have hroom := hok.room
    rw [hserving.pulled, List.length_append, List.length_append]
    omega
  · obtain ⟨waiting, ending, hserving⟩ := hok.serving (.inl hgetting)
    by_cases hqueue : s.queue = []
    · exact .inr (hserving.goes hqueue)
    · exact .inl hqueue

/-- A source of two items. -/
def twoItems (a b : α) : ℕ → Pulled α ε
  | 0 => .item a
  | 1 => .item b
  | _ => .exhausted

/-- The consumer takes the first item and closes the generator; the second one is in the worker's
hand and is put behind the drain. -/
theorem run_closed (a b : α) (depth : ℕ) : Run (twoItems a b : ℕ → Pulled α ε) depth
    { queue := [.item b], stop := true, pulled := 2, worker := .putting .done,
      consumer := .joining none, yielded := [a] } := by
  have hroom : 0 < maxsize depth := Nat.lt_of_lt_of_le Nat.zero_lt_one (Nat.le_max_left 1 depth)
  have hfirst : Run (twoItems a b : ℕ → Pulled α ε) depth
      { queue := [.item a], pulled := 1 } :=
    .worker (.worker (.worker .start (.pull rfl rfl)) (.keep rfl rfl)) (.put rfl hroom)
  have hsecond : Run (twoItems a b : ℕ → Pulled α ε) depth
      { pulled := 2, worker := .putting (.item b), consumer := .suspended, yielded := [a] } :=
    .worker (.worker (.consumer hfirst (.get rfl rfl)) (.pull rfl rfl)) (.keep rfl rfl)
  have hleft : Run (twoItems a b : ℕ → Pulled α ε) depth
      { stop := true, pulled := 2, worker := .putting (.item b), consumer := .joining none,
        yielded := [a] } :=
    .consumer (.consumer (.consumer hsecond (.close rfl)) (.setStop rfl)) (.drained rfl rfl)
  exact .worker (.worker hleft (.put rfl hroom)) (.exhaust rfl rfl)

theorem prefetch_refines_closed :
    Yields (twoItems 3 5 : ℕ → Pulled ℕ Unit) [3] :=
  (prefetch_refines (run_closed 3 5 2)).1

/-! ## Workers that are left behind -/

/-- How many steps a worker has to go that will see `stop`. -/
def WorkerPc.steps : WorkerPc α ε → ℕ
  | .putting (.item _) => 3
  | .pulling => 2
  | .offered _ => 1
  | .putting _ => 1
  | .finished => 0

theorem WorkerStep.steps (hstep : WorkerStep source depth s next) (hstop : s.stop = true) :
    next.worker.steps < s.worker.steps := by
  cases hstep with
  | pull hpc hnext => simp [hpc, WorkerPc.steps]
  | exhaust hpc hnext => simp [hpc, WorkerPc.steps]
  | raise hpc hnext => simp [hpc, WorkerPc.steps]
  | quit hpc hstop => simp [hpc, WorkerPc.steps]
  | keep hpc hgoing => cases hgoing.symm.trans hstop
  | @put slot hpc hroom => cases slot <;> simp [hpc, afterPut, WorkerPc.steps]

/-- A worker is not blocked behind the drain, where the queue holds two items. -/
theorem Ok.goes (hs : Ok source depth s) (hdepth : 2 ≤ depth) (hleft : s.Left) :
    s.worker = .finished ∨ ∃ next, WorkerStep source depth s next := by
  obtain ⟨hstop, hspare⟩ := hs.spare hleft
  cases hworker : s.worker with
  | pulling =>
      right
      cases hnext : source s.pulled with
      | item a => exact ⟨_, .pull hworker hnext⟩
      | exhausted => exact ⟨_, .exhaust hworker hnext⟩
      | raised e => exact ⟨_, .raise hworker hnext⟩
  | offered a => exact .inr ⟨_, .quit hworker hstop⟩
  | putting slot =>
      refine .inr ⟨_, .put hworker ?_⟩
      have hreserve : 1 ≤ s.worker.reserve := by
        rw [hworker]
        cases slot <;> simp [WorkerPc.reserve]
      have hsize : maxsize depth = depth := Nat.max_eq_right (Nat.le_of_succ_le hdepth)
      omega
  | finished => exact .inl rfl

end VisioSchema.Reader.Prefetch

import VisioSchema.Mcap.WriterEndpoint

/-!
# Nothing is lost in the writer endpoint

`Conserved`: every admitted frame is written, shed or pending, the written ones in the order of
admission; the byte counts are those of the queue and the batch, with the entry that a release
has just popped.

## Strategy

An entry is released in two steps, a pop and then its account, and other threads come in
between.  So what is pending is not what is queued: `unwritten` and `unswapped` leave out the
entry that was counted and not yet popped, and `releasingBytes` adds the one that was popped and
is still counted.  Which of the two there is can be read off the program counter
(`Pc.holdsFront`, `Pc.releases`).

* **Producers.**  `Send` admits a frame at the cost of some victims or turns it away
  (`conserved_accept`, `conserved_reject`); the channel that it resolves does not matter.
* **The owner of the I/O.**  One lemma for each thing it does: it takes the queue, has written an
  entry, pops, accounts, gives a batch up, or moves on.  `conserved_ioStep` goes through the
  program counters and picks the lemma.
* **Stop** may take the place of the owner (`conserved_stopInline`) once no thread runs.
-/

namespace VisioSchema.Mcap

open VisioSchema.Wire VisioSchema.Library VisioSchema.Routing VisioSchema.Transport

namespace McapWriterEndpoint

/-! ## What is pending -/

/-- The entries of the batch that are neither written nor counted as dropped. -/
def unwritten (s : McapWriterEndpoint) : List Entry :=
  match s.pc with
  | .decide | .flush | .drain | .write | .reclaim .drain | .account .drain => s.batch
  | .release => s.batch.tail
  | _ => []

/-- The entries of the queue that are not counted as dropped. -/
def unswapped (s : McapWriterEndpoint) : List Entry :=
  match s.pc with
  | .inline | .reclaim .inline | .account .inline => []
  | _ => s.queue

def pending (s : McapWriterEndpoint) : List Entry := s.unwritten ++ s.unswapped

/-- The bytes of an entry between its pop and its account. -/
def releasingBytes (popped : Option Entry) : ℕ := popped.elim 0 Entry.size

/-! ## The invariant -/

/-- The batch is empty outside the section between the swap and the wait. -/
def Pc.idle : Pc → Bool
  | .unborn | .wait | .zero | .inline | .reclaim .inline | .account .inline | .finalize
  | .exited => true
  | _ => false

/-- The owner works on the front entry of the batch. -/
def Pc.holdsFront : Pc → Bool
  | .write | .release => true
  | _ => false

/-- A popped entry of the batch, or of the queue, is still counted. -/
def Pc.releases : Pc → Bool
  | .reclaim .drain | .reclaim .clean | .account .drain | .account .clean => true
  | _ => false

def Pc.releasesQueued : Pc → Bool
  | .reclaim .inline | .account .inline => true
  | _ => false

/-- The endpoint is stopped for good. -/
def Pc.stopped : Pc → Bool
  | .inline | .reclaim .inline | .account .inline | .finalize | .exited => true
  | _ => false

/-- The last of the queue is gone. -/
def Pc.emptied : Pc → Bool
  | .finalize | .exited => true
  | _ => false

theorem Pc.stopped_of_emptied {pc : Pc} (hemptied : pc.emptied = true) : pc.stopped = true := by
  revert hemptied
  cases pc <;> simp [Pc.emptied, Pc.stopped]

theorem Pc.not_releasesQueued {pc : Pc} (hrunning : pc.stopped = false) :
    pc.releasesQueued = false := by
  revert hrunning
  unfold Pc.stopped Pc.releasesQueued
  split <;> simp

structure Conserved (s : McapWriterEndpoint) : Prop where
  frames : s.admitted.Perm (s.written ++ s.shed ++ s.pending)
  order : (s.written ++ s.pending).Sublist s.admitted
  dropped : s.dropped = s.shed.length
  queueBytes : s.queueBytes = totalSize Entry.size s.queue + releasingBytes s.releasingQueued
  inflightBytes : s.inflightBytes = totalSize Entry.size s.batch + releasingBytes s.releasing
  channels : ∀ entry ∈ s.queue ++ s.batch, entry.channel.isSome = true
  idle : s.pc.idle = true → s.batch = []
  front : s.pc.holdsFront = true → s.batch ≠ []
  releasing : s.pc.releases = false → s.releasing = none
  releasingQueued : s.pc.releasesQueued = false → s.releasingQueued = none
  stopped : s.pc.stopped = true → s.stop = true
  emptied : s.pc.emptied = true → s.queue = []
  finalized : s.finalized = true → s.pc = .exited

variable {s : McapWriterEndpoint}

theorem conserved_make (policy : WritePolicy) (rotationVideoIds : Option (List ℕ)) :
    Conserved (make policy rotationVideoIds) where
  frames := List.Perm.refl _
  order := List.Sublist.refl _
  dropped := rfl
  queueBytes := rfl
  inflightBytes := rfl
  channels := by simp [make]
  idle _ := rfl
  front hfront := absurd hfront Bool.false_ne_true
  releasing _ := rfl
  releasingQueued _ := rfl
  stopped hstopped := absurd hstopped Bool.false_ne_true
  emptied _ := rfl
  finalized hfinalized := absurd hfinalized Bool.false_ne_true

/-! ## Send -/

/-- What `Send` finds out about a channel leaves the frames alone. -/
theorem conserved_resolve (h : Conserved s) (streamId : ℕ) (resolved : Option Channel) :
    Conserved (s.resolve streamId resolved).1 := by
  unfold resolve
  split
  · exact h
  · split
    · split_ifs <;> exact ⟨h.frames, h.order, h.dropped, h.queueBytes, h.inflightBytes, h.channels,
        h.idle, h.front, h.releasing, h.releasingQueued, h.stopped, h.emptied, h.finalized⟩
    · exact ⟨h.frames, h.order, h.dropped, h.queueBytes, h.inflightBytes, h.channels,
        h.idle, h.front, h.releasing, h.releasingQueued, h.stopped, h.emptied, h.finalized⟩

theorem unwritten_congr {t : McapWriterEndpoint} (hpc : t.pc = s.pc) (hbatch : t.batch = s.batch) :
    t.unwritten = s.unwritten := by
  unfold unwritten
  rw [hpc, hbatch]

theorem unswapped_eq (hrunning : s.pc.stopped = false) : s.unswapped = s.queue := by
  unfold unswapped
  split <;> simp_all [Pc.stopped]

/-- What is pending of an endpoint with the owner and the batch of a running one. -/
theorem pending_eq {t : McapWriterEndpoint} (hrunning : s.pc.stopped = false)
    (hpc : t.pc = s.pc) (hbatch : t.batch = s.batch) : t.pending = s.unwritten ++ t.queue := by
  rw [pending, unwritten_congr hpc hbatch, unswapped_eq (by rwa [hpc])]

theorem running_of_not_stop (h : Conserved s) (hstop : s.stop = false) :
    s.pc.stopped = false := by
  cases hstopped : s.pc.stopped with
  | false => rfl
  | true => exact absurd ((h.stopped hstopped).symm.trans hstop) (by simp)

theorem releasingQueued_eq_none (h : Conserved s) (hrunning : s.pc.stopped = false) :
    s.releasingQueued = none := h.releasingQueued (Pc.not_releasesQueued hrunning)

/-- A frame that is let in, at the cost of `victims` that leave `left`. -/
theorem conserved_accept (h : Conserved s) (hrunning : s.pc.stopped = false) {entry : Entry}
    (hchannel : entry.channel.isSome = true) {left victims : List Entry}
    (hsub : left.Sublist s.queue) (hperm : s.queue.Perm (victims ++ left)) (highWater : ℕ) :
    Conserved
      { s with
        queue := left ++ [entry]
        queueBytes := totalSize Entry.size left + entry.size
        dropped := s.dropped + (s.queue.length - left.length)
        statMaxPendingBytes := highWater
        admitted := s.admitted ++ [entry]
        shed := s.shed ++ victims } := by
  have hframes := h.frames
  have horder := h.order
  rw [pending_eq hrunning rfl rfl] at hframes horder
  constructor
  case frames =>
    rw [pending_eq hrunning ?_ ?_]
    · -- Counted frame by frame: the victims move from the queue to what was shed.
      refine List.perm_iff_count.mpr fun e => ?_
      have hold := hframes.count_eq e
      have hout := hperm.count_eq e
      simp only [List.count_append] at hold hout ⊢
      omega
    · rfl
    · rfl
  case order =>
    rw [pending_eq hrunning ?_ ?_]
    · -- What stays queued is in its old order, and the new frame goes behind it.
      rw [← List.append_assoc] at horder
      rw [← List.append_assoc, ← List.append_assoc]
      exact ((hsub.append_left _).trans horder).append (List.Sublist.refl _)
    · rfl
    · rfl
  case dropped =>
    have hlength := hperm.length_eq
    rw [List.length_append] at hlength
    simp only [List.length_append]
    rw [h.dropped, hlength, Nat.add_sub_cancel]
  case queueBytes =>
    simp only [totalSize_append, releasingQueued_eq_none h hrunning]
    rfl
  case inflightBytes => exact h.inflightBytes
  case channels =>
    intro e hmem
    rcases List.mem_append.mp hmem with hqueued | hbatched
    · rcases List.mem_append.mp hqueued with hold | hnew
      · exact h.channels e (List.mem_append_left _ (hsub.subset hold))
      · rwa [List.mem_singleton.mp hnew]
    · exact h.channels e (List.mem_append_right _ hbatched)
  case idle => exact h.idle
  case front => exact h.front
  case releasing => exact h.releasing
  case releasingQueued => exact h.releasingQueued
  case stopped => exact h.stopped
  case emptied =>
    intro hemptied
    exact absurd ((Pc.stopped_of_emptied hemptied).symm.trans hrunning) (by simp)
  case finalized => exact h.finalized

/-- A frame that `DropOnFail` turns away. -/
theorem conserved_reject (h : Conserved s) (entry : Entry) :
    Conserved
      { s with
        dropped := s.dropped + 1
        admitted := s.admitted ++ [entry]
        shed := s.shed ++ [entry] } := by
  refine ⟨?_, ?_, ?_, h.queueBytes, h.inflightBytes, h.channels, h.idle, h.front,
    h.releasing, h.releasingQueued, h.stopped, h.emptied, h.finalized⟩
  · change (s.admitted ++ [entry]).Perm (s.written ++ (s.shed ++ [entry]) ++ s.pending)
    refine List.perm_iff_count.mpr fun e => ?_
    have hold := h.frames.count_eq e
    simp only [List.count_append] at hold ⊢
    omega
  · exact h.order.trans (List.sublist_append_left ..)
  · simp only [List.length_append, h.dropped]
    rfl

theorem conserved_enqueueEntry (h : Conserved s) (hstop : s.stop = false) {entry : Entry}
    (hchannel : entry.channel.isSome = true) : Conserved (s.enqueueEntry entry) := by
  have hrunning := running_of_not_stop h hstop
  have hbytes : s.queueBytes = totalSize Entry.size s.queue := by
    rw [h.queueBytes, releasingQueued_eq_none h hrunning]
    rfl
  unfold enqueueEntry
  split
  · exact conserved_reject h entry
  next left bytes hbound =>
    have hperm := applyDropBound_perm hbound
    have hsub := applyDropBound_sublist hbound
    rw [hbytes] at hbound
    rw [applyDropBound_totalSize hbound]
    exact conserved_accept h hrunning hchannel hsub hperm _

theorem conserved_send (h : Conserved s) (msg : Message) (resolved : Option Channel)
    (canPut : Bool) : Conserved (s.send msg resolved canPut) := by
  have hfound := conserved_resolve h msg.streamId resolved
  unfold send
  simp only
  split
  · exact hfound
  · split
    · exact hfound
    next hopen =>
      simp only [Bool.or_eq_true, not_or, Bool.not_eq_true] at hopen
      exact conserved_enqueueEntry hfound hopen.2 rfl

/-! ## The owner of the I/O -/

theorem not_finalized (h : Conserved s) (hpc : s.pc ≠ .exited) : s.finalized = false := by
  cases hfinalized : s.finalized with
  | false => rfl
  | true => exact absurd (h.finalized hfinalized) hpc

/-- The owner moves on, and leaves what is pending as it is. -/
theorem conserved_goto (h : Conserved s) {pc : Pc} (hlive : s.finalized = false)
    (hpending : { s with pc := pc }.pending = s.pending)
    (hidle : pc.idle = true → s.batch = [])
    (hfront : pc.holdsFront = true → s.batch ≠ [])
    (hreleasing : pc.releases = false → s.releasing = none)
    (hqueued : pc.releasesQueued = false → s.releasingQueued = none)
    (hstopped : pc.stopped = true → s.stop = true)
    (hemptied : pc.emptied = true → s.queue = []) : Conserved { s with pc := pc } where
  frames := by
    rw [hpending]
    exact h.frames
  order := by
    rw [hpending]
    exact h.order
  dropped := h.dropped
  queueBytes := h.queueBytes
  inflightBytes := h.inflightBytes
  channels := h.channels
  idle := hidle
  front := hfront
  releasing := hreleasing
  releasingQueued := hqueued
  stopped := hstopped
  emptied := hemptied
  finalized hfinalized := absurd (hlive.symm.trans hfinalized) (by simp)

/-- The batch is given up. -/
theorem conserved_shedBatch (h : Conserved s) (hpending : s.pending = s.batch ++ s.queue)
    (hlive : s.finalized = false) (hreleasing : s.releasing = none)
    (hqueued : s.releasingQueued = none) : Conserved s.shedBatch where
  frames := by
    have hframes := h.frames
    rw [hpending] at hframes
    change s.admitted.Perm (s.written ++ (s.shed ++ s.batch) ++ ([] ++ s.queue))
    refine List.perm_iff_count.mpr fun e => ?_
    have hold := hframes.count_eq e
    simp only [List.count_append, List.count_nil] at hold ⊢
    omega
  order := by
    have horder := h.order
    rw [hpending] at horder
    exact ((List.sublist_append_right s.batch s.queue).append_left _).trans horder
  dropped := by
    change s.dropped + s.batch.length = (s.shed ++ s.batch).length
    rw [List.length_append, h.dropped]
  queueBytes := h.queueBytes
  inflightBytes := h.inflightBytes
  channels := h.channels
  idle hidle := absurd hidle Bool.false_ne_true
  front hfront := absurd hfront Bool.false_ne_true
  releasing _ := hreleasing
  releasingQueued _ := hqueued
  stopped hstopped := absurd hstopped Bool.false_ne_true
  emptied hemptied := absurd hemptied Bool.false_ne_true
  finalized hfinalized := absurd (hlive.symm.trans hfinalized) (by simp)

/-- The batch takes the queue, bytes and all. -/
theorem conserved_swapped (h : Conserved s) (hpc : s.pc = .wait) {pc : Pc}
    (hnext : pc = .decide ∨ pc = .finalize ∧ s.queue = [] ∧ s.stop = true) :
    Conserved
      { s with
        batch := s.queue, queue := s.batch, inflightBytes := s.queueBytes, queueBytes := 0
        pc := pc } := by
  have hbatch : s.batch = [] := h.idle (by rw [hpc]; rfl)
  have hreleasing : s.releasing = none := h.releasing (by rw [hpc]; rfl)
  have hqueued : s.releasingQueued = none := h.releasingQueued (by rw [hpc]; rfl)
  have hlive := not_finalized h (by rw [hpc]; simp)
  have hold : s.pending = s.queue := by simp [pending, unwritten, unswapped, hpc]
  -- Queue and batch trade places, so what is pending is the same list.
  have hpending : ({ s with
      batch := s.queue, queue := s.batch, inflightBytes := s.queueBytes, queueBytes := 0
      pc := pc } : McapWriterEndpoint).pending = s.pending := by
    rw [hold]
    rcases hnext with rfl | ⟨rfl, hempty, -⟩
    · simp [pending, unwritten, unswapped, hbatch]
    · simp [pending, unwritten, unswapped, hbatch, hempty]
  constructor
  case frames =>
    rw [hpending]
    exact h.frames
  case order =>
    rw [hpending]
    exact h.order
  case dropped => exact h.dropped
  case queueBytes => simp only [hbatch, hqueued]; rfl
  case inflightBytes =>
    simp only [hreleasing]
    rw [h.queueBytes, hqueued]
  case channels =>
    intro entry hmem
    exact h.channels entry (List.mem_append.mpr (List.mem_append.mp hmem).symm)
  case idle =>
    intro hidle
    rcases hnext with rfl | ⟨-, hempty, -⟩
    · cases hidle
    · exact hempty
  case front =>
    intro hfront
    rcases hnext with rfl | ⟨rfl, -, -⟩ <;> cases hfront
  case releasing => exact fun _ => hreleasing
  case releasingQueued => exact fun _ => hqueued
  case stopped =>
    intro hstopped
    rcases hnext with rfl | ⟨-, -, hstop⟩
    · cases hstopped
    · exact hstop
  case emptied => exact fun _ => hbatch
  case finalized => exact fun hfinalized => absurd (hlive.symm.trans hfinalized) (by simp)

theorem conserved_swap (h : Conserved s) (hpc : s.pc = .wait) (wakes : Bool) :
    Conserved (s.swap wakes) := by
  unfold swap
  split
  · refine conserved_swapped h hpc ?_
    cases hlast : s.queue.isEmpty && s.stop with
    | false => exact Or.inl rfl
    | true =>
        rw [Bool.and_eq_true, List.isEmpty_iff] at hlast
        exact Or.inr ⟨rfl, hlast⟩
  · exact h

/-- `Write` has returned. -/
theorem conserved_wrote (h : Conserved s) (hpc : s.pc = .write) (writes : ℕ) :
    Conserved
      { s with
        statWrites := writes, written := s.written ++ s.batch.head?.toList, pc := .release } := by
  have hfront : s.batch ≠ [] := h.front (by rw [hpc]; rfl)
  obtain ⟨front, rest, hbatch⟩ := List.exists_cons_of_ne_nil hfront
  have hpending : s.pending = front :: rest ++ s.queue := by
    simp [pending, unwritten, unswapped, hpc, hbatch]
  have hframes := h.frames
  have horder := h.order
  rw [hpending] at hframes horder
  constructor
  case frames =>
    change s.admitted.Perm
      (s.written ++ s.batch.head?.toList ++ s.shed ++ (s.batch.tail ++ s.queue))
    rw [hbatch]
    refine List.perm_iff_count.mpr fun e => ?_
    have hold := hframes.count_eq e
    simp only [List.count_append, List.cons_append, List.count_cons, List.head?_cons,
      Option.toList_some, List.count_nil, List.tail_cons] at hold ⊢
    omega
  case order =>
    change (s.written ++ s.batch.head?.toList ++ (s.batch.tail ++ s.queue)).Sublist s.admitted
    rw [hbatch, List.append_assoc]
    exact horder
  case dropped => exact h.dropped
  case queueBytes => exact h.queueBytes
  case inflightBytes => exact h.inflightBytes
  case channels => exact h.channels
  case idle => exact fun hidle => absurd hidle Bool.false_ne_true
  case front => exact fun _ => hfront
  case releasing => exact fun _ => h.releasing (by rw [hpc]; rfl)
  case releasingQueued => exact fun _ => h.releasingQueued (by rw [hpc]; rfl)
  case stopped => exact fun hstopped => absurd hstopped Bool.false_ne_true
  case emptied => exact fun hemptied => absurd hemptied Bool.false_ne_true
  case finalized =>
    intro hfinalized
    exact absurd ((not_finalized h (by rw [hpc]; simp)).symm.trans hfinalized) (by simp)

/-- The pop of a `ReleaseFront` of the batch. -/
theorem conserved_popBatch (h : Conserved s) {releaser : Releaser}
    (howner : s.pc = .release ∧ releaser = .drain ∨ s.pc = .clean ∧ releaser = .clean)
    (reclaims : Bool) : Conserved (s.popBatch releaser reclaims) := by
  have hreleasing : s.releasing = none := by
    refine h.releasing ?_
    rcases howner with ⟨hpc, -⟩ | ⟨hpc, -⟩ <;> rw [hpc] <;> rfl
  have hqueued : s.releasingQueued = none := by
    refine h.releasingQueued ?_
    rcases howner with ⟨hpc, -⟩ | ⟨hpc, -⟩ <;> rw [hpc] <;> rfl
  have hlive : s.finalized = false := by
    refine not_finalized h ?_
    rcases howner with ⟨hpc, -⟩ | ⟨hpc, -⟩ <;> rw [hpc] <;> simp
  unfold popBatch
  cases hbatch : s.batch with
  | nil => exact h
  | cons front rest =>
      -- The front entry was written or counted before, so its pop changes nothing of what is
      -- pending.
      have hpending : ({ s with
          batch := rest, releasing := some front
          reclaimInFlight := s.reclaimInFlight || reclaims
          pc := if reclaims then .reclaim releaser else .account releaser } :
            McapWriterEndpoint).pending = s.pending := by
        rcases howner with ⟨hpc, rfl⟩ | ⟨hpc, rfl⟩ <;> cases reclaims <;>
          simp [pending, unwritten, unswapped, hpc, hbatch]
      have hpc : ∀ P : Pc → Prop, P (.reclaim releaser) → P (.account releaser) →
          P (if reclaims then .reclaim releaser else .account releaser) := by
        intro P hfirst hsecond
        cases reclaims
        · exact hsecond
        · exact hfirst
      constructor
      case frames =>
        rw [hpending]
        exact h.frames
      case order =>
        rw [hpending]
        exact h.order
      case dropped => exact h.dropped
      case queueBytes => exact h.queueBytes
      case inflightBytes =>
        -- The entry is counted until its account, under `releasing`.
        change s.inflightBytes = totalSize Entry.size rest + front.size
        rw [h.inflightBytes, hreleasing, hbatch, totalSize_cons, Nat.add_comm front.size]
        rfl
      case channels =>
        intro entry hmem
        refine h.channels entry ?_
        rw [hbatch]
        rcases List.mem_append.mp hmem with hold | hrest
        · exact List.mem_append_left _ hold
        · exact List.mem_append_right _ (List.mem_cons_of_mem _ hrest)
      case idle =>
        refine hpc (fun pc => pc.idle = true → rest = []) ?_ ?_ <;>
          rcases howner with ⟨-, rfl⟩ | ⟨-, rfl⟩ <;> exact fun hidle => by cases hidle
      case front =>
        exact hpc (fun pc => pc.holdsFront = true → rest ≠ []) (fun hfront => by cases hfront)
          fun hfront => by cases hfront
      case releasing =>
        refine hpc (fun pc => pc.releases = false → some front = none) ?_ ?_ <;>
          rcases howner with ⟨-, rfl⟩ | ⟨-, rfl⟩ <;> exact fun hreleases => by cases hreleases
      case releasingQueued => exact fun _ => hqueued
      case stopped =>
        refine hpc (fun pc => pc.stopped = true → s.stop = true) ?_ ?_ <;>
          rcases howner with ⟨-, rfl⟩ | ⟨-, rfl⟩ <;> exact fun hstopped => by cases hstopped
      case emptied =>
        exact hpc (fun pc => pc.emptied = true → s.queue = []) (fun hemptied => by cases hemptied)
          fun hemptied => by cases hemptied
      case finalized =>
        exact fun hfinalized => absurd (hlive.symm.trans hfinalized) (by simp)

/-- The pop of a `ReleaseFront` of the queue. -/
theorem conserved_popQueue (h : Conserved s) (hpc : s.pc = .inline) (reclaims : Bool) :
    Conserved (s.popQueue reclaims) := by
  have hbatch : s.batch = [] := h.idle (by rw [hpc]; rfl)
  have hreleasing : s.releasing = none := h.releasing (by rw [hpc]; rfl)
  have hqueued : s.releasingQueued = none := h.releasingQueued (by rw [hpc]; rfl)
  have hlive := not_finalized h (by rw [hpc]; simp)
  unfold popQueue
  cases hqueue : s.queue with
  | nil => exact h
  | cons front rest =>
      have hpending : ({ s with
          queue := rest, releasingQueued := some front
          reclaimInFlight := s.reclaimInFlight || reclaims
          pc := if reclaims then .reclaim .inline else .account .inline } :
            McapWriterEndpoint).pending = s.pending := by
        cases reclaims <;> simp [pending, unwritten, unswapped, hpc]
      constructor
      case frames =>
        rw [hpending]
        exact h.frames
      case order =>
        rw [hpending]
        exact h.order
      case dropped => exact h.dropped
      case queueBytes =>
        change s.queueBytes = totalSize Entry.size rest + front.size
        rw [h.queueBytes, hqueued, hqueue, totalSize_cons, Nat.add_comm front.size]
        rfl
      case inflightBytes => exact h.inflightBytes
      case channels =>
        intro entry hmem
        refine h.channels entry ?_
        rw [hqueue]
        rcases List.mem_append.mp hmem with hrest | hold
        · exact List.mem_append_left _ (List.mem_cons_of_mem _ hrest)
        · exact List.mem_append_right _ hold
      case idle => exact fun _ => hbatch
      case front => cases reclaims <;> exact fun hfront => by cases hfront
      case releasing => exact fun _ => hreleasing
      case releasingQueued => cases reclaims <;> exact fun hreleases => by cases hreleases
      case stopped => exact fun _ => h.stopped (by rw [hpc]; rfl)
      case emptied => cases reclaims <;> exact fun hemptied => by cases hemptied
      case finalized =>
        exact fun hfinalized => absurd (hlive.symm.trans hfinalized) (by simp)

/-- The count follows the pop. -/
theorem conserved_account (h : Conserved s) {releaser : Releaser}
    (hpc : s.pc = .account releaser) : Conserved (s.accountStep releaser) := by
  have hlive := not_finalized h (by rw [hpc]; simp)
  have hframes := h.frames
  have horder := h.order
  cases releaser with
  | inline =>
      have hreleasing : s.releasing = none := h.releasing (by rw [hpc]; rfl)
      have hpending : s.pending = (s.accountStep .inline).pending := by
        simp [pending, unwritten, unswapped, hpc, accountStep]
      rw [hpending] at hframes horder
      refine ⟨hframes, horder, h.dropped, ?_, h.inflightBytes, h.channels,
        fun _ => h.idle (by rw [hpc]; rfl), fun hfront => absurd hfront Bool.false_ne_true,
        fun _ => hreleasing, fun _ => rfl, fun _ => h.stopped (by rw [hpc]; rfl),
        fun hemptied => absurd hemptied Bool.false_ne_true,
        fun hfinalized => absurd (hlive.symm.trans hfinalized) (by simp)⟩
      change s.queueBytes - releasingBytes s.releasingQueued = totalSize Entry.size s.queue + 0
      rw [h.queueBytes, Nat.add_sub_cancel, Nat.add_zero]
  | drain | clean =>
      have hqueued : s.releasingQueued = none := h.releasingQueued (by rw [hpc]; rfl)
      refine ⟨?_, ?_, h.dropped, h.queueBytes, ?_, h.channels,
        fun hidle => absurd hidle Bool.false_ne_true,
        fun hfront => absurd hfront Bool.false_ne_true, fun _ => rfl, fun _ => hqueued,
        fun hstopped => absurd hstopped Bool.false_ne_true,
        fun hemptied => absurd hemptied Bool.false_ne_true,
        fun hfinalized => absurd (hlive.symm.trans hfinalized) (by simp)⟩
      · simpa [pending, unwritten, unswapped, hpc, accountStep] using hframes
      · simpa [pending, unwritten, unswapped, hpc, accountStep] using horder
      · change s.inflightBytes - releasingBytes s.releasing = totalSize Entry.size s.batch + 0
        rw [h.inflightBytes, Nat.add_sub_cancel, Nat.add_zero]

/-- The flags do not matter. -/
theorem conserved_flags (h : Conserved s) (failed refused inFlight : Bool) :
    Conserved
      { s with failed := failed, storageRefused := refused, reclaimInFlight := inFlight } :=
  ⟨h.frames, h.order, h.dropped, h.queueBytes, h.inflightBytes, h.channels, h.idle, h.front,
    h.releasing, h.releasingQueued, h.stopped, h.emptied, h.finalized⟩

/-- A batch that was swapped out and not yet touched may be given up. -/
theorem conserved_giveUp (h : Conserved s)
    (hpc : s.pc = .decide ∨ s.pc = .flush ∨ s.pc = .drain ∨ s.pc = .write) :
    Conserved s.shedBatch := by
  refine conserved_shedBatch h ?_ (not_finalized h ?_) (h.releasing ?_) (h.releasingQueued ?_)
  · rcases hpc with hpc | hpc | hpc | hpc <;> simp [pending, unwritten, unswapped, hpc]
  · rcases hpc with hpc | hpc | hpc | hpc <;> rw [hpc] <;> simp
  · rcases hpc with hpc | hpc | hpc | hpc <;> rw [hpc] <;> rfl
  · rcases hpc with hpc | hpc | hpc | hpc <;> rw [hpc] <;> rfl

theorem conserved_drainStep (h : Conserved s) (hpc : s.pc = .drain) : Conserved s.drainStep := by
  have hlive := not_finalized h (by rw [hpc]; simp)
  have hreleasing : s.releasing = none := h.releasing (by rw [hpc]; rfl)
  have hqueued : s.releasingQueued = none := h.releasingQueued (by rw [hpc]; rfl)
  by_cases hempty : s.batch = []
  · have hstep : s.drainStep = { s with pc := .clean } := by
      unfold drainStep
      rw [hempty]
    rw [hstep]
    refine conserved_goto h hlive ?_ (fun hidle => by cases hidle)
      (fun hfront => by cases hfront) (fun _ => hreleasing) (fun _ => hqueued)
      (fun hstopped => by cases hstopped) fun hemptied => by cases hemptied
    simp [pending, unwritten, unswapped, hpc, hempty]
  · obtain ⟨front, rest, hbatch⟩ := List.exists_cons_of_ne_nil hempty
    have hchannel : front.channel.isSome = true :=
      h.channels front (by rw [hbatch]; exact List.mem_append_right _ List.mem_cons_self)
    have hstep :
        s.drainStep = if s.storageRefused then s.shedBatch else { s with pc := .write } := by
      unfold drainStep
      rw [hbatch]
      simp [hchannel]
    rw [hstep]
    split
    · exact conserved_giveUp h (Or.inr (Or.inr (Or.inl hpc)))
    · refine conserved_goto h hlive ?_ (fun hidle => by cases hidle) (fun _ => hempty)
        (fun _ => hreleasing) (fun _ => hqueued) (fun hstopped => by cases hstopped)
        fun hemptied => by cases hemptied
      simp [pending, unwritten, unswapped, hpc]

/-- The hand-back of a chunk is over. -/
theorem conserved_reclaimed (h : Conserved s) {releaser : Releaser}
    (hpc : s.pc = .reclaim releaser) :
    Conserved { s with reclaimInFlight := false, pc := .account releaser } := by
  have hlive := not_finalized h (by rw [hpc]; simp)
  have hflags := conserved_flags h s.failed s.storageRefused false
  have hidle := h.idle
  have hreleasing := h.releasing
  have hqueued := h.releasingQueued
  have hstopped := h.stopped
  rw [hpc] at hidle hreleasing hqueued hstopped
  refine conserved_goto hflags hlive ?_ ?_ (fun hfront => by cases hfront) ?_ ?_ ?_
    fun hemptied => by cases hemptied
  · cases releaser <;> simp [pending, unwritten, unswapped, hpc]
  · cases releaser <;> exact hidle
  · cases releaser <;> exact hreleasing
  · cases releaser <;> exact hqueued
  · cases releaser <;> exact hstopped

theorem conserved_ioStep (h : Conserved s) (answer : Answer) : Conserved (s.ioStep answer) := by
  have hidle := h.idle
  have hreleasing := h.releasing
  have hqueued := h.releasingQueued
  have hstopped := h.stopped
  have hlive := not_finalized h
  unfold ioStep
  cases hpc : s.pc with
  | unborn | exited => exact h
  | wait => exact conserved_swap h hpc answer.wakes
  | decide =>
      rw [hpc] at hreleasing hqueued hlive
      simp only
      split
      · exact conserved_giveUp h (Or.inl hpc)
      · refine conserved_goto h (hlive (by simp)) ?_ (fun hidle => by cases hidle)
          (fun hfront => by cases hfront) (fun _ => hreleasing rfl) (fun _ => hqueued rfl)
          (fun hstopped => by cases hstopped) fun hemptied => by cases hemptied
        simp [pending, unwritten, unswapped, hpc]
  | flush =>
      rw [hpc] at hreleasing hqueued hlive
      simp only
      split
      · -- A batch that was not touched yet may be given up.
        have hfailed := conserved_flags h true s.storageRefused s.reclaimInFlight
        rw [hpc] at hfailed
        exact conserved_giveUp hfailed (Or.inr (Or.inl rfl))
      · refine conserved_goto h (hlive (by simp)) ?_ (fun hidle => by cases hidle)
          (fun hfront => by cases hfront) (fun _ => hreleasing rfl) (fun _ => hqueued rfl)
          (fun hstopped => by cases hstopped) fun hemptied => by cases hemptied
        simp [pending, unwritten, unswapped, hpc]
  | drain => exact conserved_drainStep h hpc
  | write =>
      simp only [writeStep]
      split
      · exact conserved_giveUp (conserved_flags h true s.storageRefused s.reclaimInFlight)
          (Or.inr (Or.inr (Or.inr hpc)))
      · exact conserved_wrote h hpc _
  | release => exact conserved_popBatch h (Or.inl ⟨hpc, rfl⟩) answer.reclaims
  | reclaim releaser => exact conserved_reclaimed h hpc
  | account releaser => exact conserved_account h hpc
  | clean =>
      rw [hpc] at hreleasing hqueued hlive
      simp only
      split
      next hempty =>
        refine conserved_goto h (hlive (by simp)) ?_ (fun _ => List.isEmpty_iff.mp hempty)
          (fun hfront => by cases hfront) (fun _ => hreleasing rfl) (fun _ => hqueued rfl)
          (fun hstopped => by cases hstopped) fun hemptied => by cases hemptied
        simp [pending, unwritten, unswapped, hpc]
      next => exact conserved_popBatch h (Or.inr ⟨hpc, rfl⟩) answer.reclaims
  | zero =>
      rw [hpc] at hidle hreleasing hqueued hlive
      -- The batch is empty and nothing is being released, so its count is zero already.
      have hzero : s.inflightBytes = 0 := by
        rw [h.inflightBytes, hidle rfl, hreleasing rfl]
        rfl
      simp only
      rw [← hzero]
      refine conserved_goto h (hlive (by simp)) ?_ (fun _ => hidle rfl)
        (fun hfront => by cases hfront) (fun _ => hreleasing rfl) (fun _ => hqueued rfl)
        (fun hstopped => by cases hstopped) fun hemptied => by cases hemptied
      simp [pending, unwritten, unswapped, hpc]
  | inline =>
      rw [hpc] at hidle hreleasing hqueued hstopped hlive
      simp only
      split
      next hempty =>
        -- From here on the queue stays empty: a stopped endpoint admits nothing.
        have hqueue := List.isEmpty_iff.mp hempty
        refine conserved_goto h (hlive (by simp)) ?_ (fun _ => hidle rfl)
          (fun hfront => by cases hfront) (fun _ => hreleasing rfl) (fun _ => hqueued rfl)
          (fun _ => hstopped rfl) fun _ => hqueue
        simp [pending, unwritten, unswapped, hpc, hqueue]
      next => exact conserved_popQueue h hpc answer.reclaims
  | finalize =>
      have hemptied := h.emptied
      rw [hpc] at hidle hreleasing hqueued hstopped hemptied
      refine ⟨?_, ?_, h.dropped, h.queueBytes, h.inflightBytes, h.channels, fun _ => hidle rfl,
        fun hfront => absurd hfront Bool.false_ne_true, fun _ => hreleasing rfl,
        fun _ => hqueued rfl, fun _ => hstopped rfl, fun _ => hemptied rfl, fun _ => rfl⟩
      · simpa [pending, unwritten, unswapped, hpc] using h.frames
      · simpa [pending, unwritten, unswapped, hpc] using h.order

/-! ## Stop -/

theorem conserved_stopping (h : Conserved s) : Conserved { s with stop := true } :=
  ⟨h.frames, h.order, h.dropped, h.queueBytes, h.inflightBytes, h.channels, h.idle, h.front,
    h.releasing, h.releasingQueued, fun _ => rfl, h.emptied, h.finalized⟩

/-- A thread is made. -/
theorem conserved_spawn (h : Conserved s) (hpc : s.pc = .unborn) :
    Conserved { s with pc := .wait } := by
  have hlive := not_finalized h (by rw [hpc]; simp)
  refine conserved_goto h hlive ?_ (fun _ => h.idle (by rw [hpc]; rfl))
    (fun hfront => by cases hfront) (fun _ => h.releasing (by rw [hpc]; rfl))
    (fun _ => h.releasingQueued (by rw [hpc]; rfl)) (fun hstopped => by cases hstopped)
    fun hemptied => by cases hemptied
  simp [pending, unwritten, unswapped, hpc]

/-- A stop without a thread gives up the queue. -/
theorem conserved_stopInline (h : Conserved s) (hpc : s.pc = .unborn) (hstop : s.stop = true) :
    Conserved
      { s with
        failed := true, finalizingInline := true
        dropped := s.dropped + s.queue.length, shed := s.shed ++ s.queue, pc := .inline } := by
  have hlive := not_finalized h (by rw [hpc]; simp)
  have hpending : s.pending = s.queue := by simp [pending, unwritten, unswapped, hpc]
  have hframes := h.frames
  have horder := h.order
  rw [hpending] at hframes horder
  refine ⟨?_, ?_, ?_, h.queueBytes, h.inflightBytes, h.channels,
    fun _ => h.idle (by rw [hpc]; rfl), fun hfront => absurd hfront Bool.false_ne_true,
    fun _ => h.releasing (by rw [hpc]; rfl), fun _ => h.releasingQueued (by rw [hpc]; rfl),
    fun _ => hstop, fun hemptied => absurd hemptied Bool.false_ne_true,
    fun hfinalized => absurd (hlive.symm.trans hfinalized) (by simp)⟩
  · change s.admitted.Perm (s.written ++ (s.shed ++ s.queue) ++ [])
    rwa [List.append_nil, ← List.append_assoc]
  · change (s.written ++ []).Sublist s.admitted
    exact (List.Sublist.append_left (List.nil_sublist _) _).trans horder
  · change s.dropped + s.queue.length = (s.shed ++ s.queue).length
    rw [List.length_append, h.dropped]

theorem conserved_stopFor (h : Conserved s) (spawns forever : Bool) :
    Conserved (s.stopFor spawns forever) := by
  have hstopping := conserved_stopping h
  unfold stopFor
  simp only
  split
  · exact hstopping
  next hunborn =>
    simp only [Bool.or_eq_true, not_or, decide_eq_true_eq, not_not] at hunborn
    split
    · exact conserved_spawn hstopping hunborn.2
    · split
      · exact conserved_flags hstopping true s.storageRefused s.reclaimInFlight
      · exact conserved_stopInline hstopping hunborn.2 rfl

theorem conserved_step (h : Conserved s) (input : Input) : Conserved (s.step input) := by
  cases input with
  | start =>
      simp only [step]
      split
      next hstart =>
        rw [Bool.and_eq_true, decide_eq_true_eq] at hstart
        exact conserved_spawn h hstart.2
      next => exact h
  | send msg resolved canPut => exact conserved_send h msg resolved canPut
  | stopFor spawns forever => exact conserved_stopFor h spawns forever
  | storageRefuses => exact conserved_flags h s.failed true s.reclaimInFlight
  | io answer => exact conserved_ioStep h answer

/-! ## Whole runs -/

/-- What the endpoint's record and counters say. -/
structure Accounts (s : McapWriterEndpoint) : Prop where
  /-- Every admitted frame is written once, counted as dropped once, or pending. -/
  frames : s.admitted.Perm (s.written ++ s.shed ++ s.pending)
  order : (s.written ++ s.pending).Sublist s.admitted
  dropped : s.dropped = s.shed.length
  queueBytes : s.queueBytes = totalSize Entry.size s.queue + releasingBytes s.releasingQueued
  inflightBytes : s.inflightBytes = totalSize Entry.size s.batch + releasingBytes s.releasing
  /-- An entry is counted beside its queue only between its pop and its account. -/
  releasing : s.pc.releases = false → s.releasing = none
  releasingQueued : s.pc.releasesQueued = false → s.releasingQueued = none
  /-- The final stop leaves nothing behind. -/
  finalized : s.finalized = true →
    s.pending = [] ∧ s.queueBytes = 0 ∧ s.inflightBytes = 0

theorem Conserved.accounts (h : Conserved s) : Accounts s where
  frames := h.frames
  order := h.order
  dropped := h.dropped
  queueBytes := h.queueBytes
  inflightBytes := h.inflightBytes
  releasing := h.releasing
  releasingQueued := h.releasingQueued
  finalized hfinalized := by
    have hpc := h.finalized hfinalized
    have hqueue : s.queue = [] := h.emptied (by rw [hpc]; rfl)
    have hbatch : s.batch = [] := h.idle (by rw [hpc]; rfl)
    have hreleasing : s.releasing = none := h.releasing (by rw [hpc]; rfl)
    have hqueued : s.releasingQueued = none := h.releasingQueued (by rw [hpc]; rfl)
    refine ⟨?_, ?_, ?_⟩
    · simp [pending, unwritten, unswapped, hpc, hqueue]
    · rw [h.queueBytes, hqueue, hqueued]
      rfl
    · rw [h.inflightBytes, hbatch, hreleasing]
      rfl

/-- Nothing is lost in any run. -/
theorem run_keeps_account (policy : WritePolicy) (rotationVideoIds : Option (List ℕ))
    (inputs : List Input) : Accounts (run policy rotationVideoIds inputs) :=
  (run_invariant (I := Conserved) (fun _ input h => conserved_step h input)
    (conserved_make policy rotationVideoIds) inputs).accounts

/-! ### Between a pop and its account -/

def cameraPolicy : WritePolicy := { drop := .staleEviction, maxBytes := 1048576 }

/-- A frame is queued three times, and a stop that cannot make a thread hands back the
chunk of the third. -/
def stopWithoutThread (frame : Message) : List Input :=
  [.send frame (some { id := 16, topic := "/camera/0" }) true,
    .send frame (some { id := 16, topic := "/camera/0" }) true,
    .send frame (some { id := 16, topic := "/camera/0" }) true,
    .stopFor false true, .io {}, .io {}, .io {}, .io {}, .io { reclaims := true }]

theorem stopWithoutThread_queueBytes {frame : Message} {n : ℕ}
    (hsize : frame.payload.length = n) (hroom : n + n + n ≤ cameraPolicy.maxBytes) :
    (run cameraPolicy none (stopWithoutThread frame)).queueBytes = n ∧
      (run cameraPolicy none (stopWithoutThread frame)).queue = [] := by
  have htwo : ¬cameraPolicy.maxBytes < n + n := by omega
  have hthree : ¬cameraPolicy.maxBytes < n + n + n := by omega
  have hdrop : cameraPolicy.drop = .staleEviction := rfl
  simp [run, stopWithoutThread, make, step, send, resolve, frozenOut, enqueueEntry,
    applyDropBound, evictWhile, entryOf, hsize, stopFor, ioStep, popQueue, accountStep, htwo,
    hthree, hdrop]

/-- A frame that fills a chunk of the arena. -/
def chunkFrame : Message := { streamId := 16, payload := List.replicate kArenaChunkBytes 0 }

/-- While the third chunk is handed back, its frame is off the queue and still counted. -/
theorem not_run_queueBytes :
    ¬∀ (policy : WritePolicy) (rotationVideoIds : Option (List ℕ)) (inputs : List Input),
      (run policy rotationVideoIds inputs).queueBytes =
        totalSize Entry.size (run policy rotationVideoIds inputs).queue := by
  intro hall
  have hstop := hall cameraPolicy none (stopWithoutThread chunkFrame)
  have hframe : chunkFrame.payload.length = kArenaChunkBytes := by
    simp only [chunkFrame, List.length_replicate]
  obtain ⟨hbytes, hqueue⟩ := stopWithoutThread_queueBytes hframe (by decide)
  rw [hbytes, hqueue, totalSize_nil] at hstop
  exact absurd hstop (by decide)

end McapWriterEndpoint

end VisioSchema.Mcap

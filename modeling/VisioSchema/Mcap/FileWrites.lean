import VisioSchema.Mcap.Continuation

/-!
# What writing to the file of a part does

Whatever the MCAP library hands over, the writer only logs the steps of the current part and lets
its outcome absorb them (`Wrote`), and it takes nothing new once storage has refused (`Orderly`).

Both compose: two stretches of writing are one (`Wrote.trans`), and orderly events behind orderly
ones are orderly, if the second stretch knows of the first one's end (`Orderly.append`).  So
every function of the file gets one lemma, from a single step (`wrote_step`) up to `handleWrite`,
and what the MCAP library does is any number of `handleWrite`s (`writes_libraryWrites`).
-/

namespace VisioSchema.Mcap

/-! ## Kinds of events -/

/-- The calls that give a file up, for which no part answers. -/
def StorageCall.abandons : StorageCall → Bool
  | discard | remove | syncRemoval => true
  | _ => false

namespace Event

/-- A step of writing to the file of an open part. -/
def isWriting : Event → Bool
  | called _ (.append _ _) _ | called _ .flush _ | called _ .checkpoint _
  | called _ (.writeback _) _ | encryptFailed _ => true
  | _ => false

/-- A step of opening a part, or of giving up a file that did not open. -/
def isOpening : Event → Bool
  | called _ .create _ | called _ .header _ | called _ .discard _ | called _ .remove _
  | called _ .syncRemoval _ | attempted _ _ | gaveUp _ => true
  | _ => false

/-- A call into storage. -/
def isCall : Event → Bool
  | called _ _ _ => true
  | _ => false

/-- A new file, or something new to record; later slices of a write that has begun
are not. -/
def begins : Event → Bool
  | called _ .create _ | called _ (.append 0 _) _ | record _ _ _ => true
  | _ => false

/-- A step after which the recording takes nothing more: one that failed with an
error that `endsRecording`, or the last try at opening a part. -/
def ends : Event → Bool
  | called _ call result => !call.abandons && endsRecording result.error
  | gaveUp _ => true
  | _ => false

end Event

theorem endsRecording_cases {error : ℕ} (hends : endsRecording error = true) :
    error ≠ 0 ∧ writebackUnsupported error = false := by
  simp only [endsRecording, Bool.or_eq_true, decide_eq_true_eq] at hends
  rcases hends with (rfl | rfl) | rfl <;> decide

/-- Past its opening, a part answers for every step that ends the recording. -/
theorem failure_of_ends {event : Event} (hends : event.ends = true)
    (hopening : event.isOpening = false) :
    ∃ failure, event.failure = some failure ∧ endsRecording failure.error = true := by
  cases event with
  | called part call result =>
      obtain ⟨hkept, herror⟩ := Bool.and_eq_true_iff.mp hends
      obtain ⟨hne, hsupported⟩ := endsRecording_cases herror
      cases call <;> simp [Event.isOpening, StorageCall.abandons] at hopening hkept <;>
        simp [Event.failure, hne, hsupported, explained, herror]
  | gaveUp part => cases hopening
  | encryptFailed part => cases hends
  | attempted part costs => cases hends
  | opened part reason point => cases hends
  | record part channel msg => cases hends

theorem refused_of_ends {o : PartOutcome} {events : List Event} {event : Event}
    (hmem : event ∈ events) (hends : event.ends = true) (hopening : event.isOpening = false) :
    (o.absorb events).refused = true := by
  obtain ⟨failure, hfailure, herror⟩ := failure_of_ends hends hopening
  rw [PartOutcome.absorb_refused, Bool.or_eq_true, List.any_eq_true]
  exact Or.inr ⟨failure, List.mem_filterMap.mpr ⟨event, hmem, hfailure⟩, herror⟩

theorem refused_absorb {o : PartOutcome} (hrefused : o.refused = true) (events : List Event) :
    (o.absorb events).refused = true := by
  rw [PartOutcome.absorb_refused, hrefused, Bool.true_or]

theorem isOpening_of_isWriting {event : Event} (hwriting : event.isWriting = true) :
    event.isOpening = false := by
  cases event with
  | called part call result => cases call <;> first | rfl | cases hwriting
  | encryptFailed part => rfl
  | attempted part costs => cases hwriting
  | gaveUp part => cases hwriting
  | opened part reason point => cases hwriting
  | record part channel msg => cases hwriting

/-! ## Nothing begins after the end -/

/-- Nothing begins after an event that ends the recording, nor at all if the recording
has `stopped` before. -/
structure Orderly (stopped : Bool) (events : List Event) : Prop where
  order : events.Pairwise fun event later => event.ends = true → later.begins = false
  quiet : stopped = true → ∀ event ∈ events, event.begins = false

theorem orderly_nil (stopped : Bool) : Orderly stopped [] := ⟨.nil, by simp⟩

theorem orderly_singleton {stopped : Bool} {event : Event}
    (hquiet : stopped = true → event.begins = false) : Orderly stopped [event] :=
  ⟨List.pairwise_singleton .., by simpa using hquiet⟩

theorem orderly_of_quiet {stopped : Bool} {events : List Event}
    (hquiet : ∀ event ∈ events, event.begins = false) : Orderly stopped events :=
  ⟨List.pairwise_of_forall_mem_list fun _ _ later hlater _ => hquiet later hlater,
    fun _ => hquiet⟩

theorem Orderly.append {stopped stopped' : Bool} {first second : List Event}
    (hfirst : Orderly stopped first) (hsecond : Orderly stopped' second)
    (hstill : stopped = true → stopped' = true)
    (hends : ∀ event ∈ first, event.ends = true → stopped' = true) :
    Orderly stopped (first ++ second) where
  order := by
    refine List.pairwise_append.mpr ⟨hfirst.order, hsecond.order, ?_⟩
    intro event hevent later hlater hend
    exact hsecond.quiet (hends event hevent hend) later hlater
  quiet := by
    intro hstopped event hevent
    rcases List.mem_append.mp hevent with hleft | hright
    · exact hfirst.quiet hstopped event hleft
    · exact hsecond.quiet (hstill hstopped) event hright

theorem Orderly.append_quiet {stopped : Bool} {first second : List Event}
    (hfirst : Orderly stopped first) (hsecond : ∀ event ∈ second, event.begins = false) :
    Orderly stopped (first ++ second) where
  order := by
    have hquiet : Orderly false second := orderly_of_quiet hsecond
    exact List.pairwise_append.mpr ⟨hfirst.order, hquiet.order,
      fun _ _ later hlater _ => hsecond later hlater⟩
  quiet hstopped := List.forall_mem_append.mpr ⟨hfirst.quiet hstopped, hsecond⟩

/-! ## Writing -/

/-- Nothing outside the writer fails it: storage does what it is asked, and the random
source and the cipher work. -/
structure Env.Healthy (env : Env) : Prop where
  made : ∀ tick, env.made tick = true
  io : ∀ tick call, (env.io tick call).error = 0
  append : ∀ tick slice size, (env.io tick (.append slice size)).accepted = size
  header : ∀ tick, (env.io tick .header).accepted = 32
  random : ∀ tick, env.random tick = true
  cipher : ∀ tick, env.cipher tick = true

/-- The MCAP library refuses nothing that it is handed. -/
def Env.Accepts (env : Env) : Prop := ∀ tick, env.ok tick = true

namespace McapWriter

/-- From `w` to `w'` the file of the current part was written to, in the steps `events`. -/
structure Wrote (env : Env) (events : List Event) (w w' : McapWriter) : Prop where
  state : w' =
    { w with
      log := w.log ++ events
      outcome := w.outcome.absorb events
      file := w'.file
      tick := w'.tick }
  file : w'.file.isSome = w.file.isSome
  part : ∀ event ∈ events, event.part = w.partIndex
  writing : ∀ event ∈ events, event.isWriting = true
  healthy : env.Healthy → failures events = []
  orderly : Orderly w.outcome.refused events

section Wrote

variable {env : Env} {w w' w'' : McapWriter}

theorem wrote_nil (hstate : w' = { w with file := w'.file, tick := w'.tick })
    (hfile : w'.file.isSome = w.file.isSome) : Wrote env [] w w' where
  state := by simpa using hstate
  file := hfile
  part := by simp
  writing := by simp
  healthy := fun _ => rfl
  orderly := orderly_nil _

theorem wrote_refl (w : McapWriter) : Wrote env [] w w := wrote_nil rfl rfl

theorem wrote_setFile (update : PartFile → PartFile) : Wrote env [] w (w.setFile update) :=
  wrote_nil rfl Option.isSome_map

/-- One step of the file. -/
theorem wrote_step {event : Event} (hpart : event.part = w.partIndex)
    (hwriting : event.isWriting = true)
    (hstate : w' =
      { w with
        log := w.log ++ [event]
        outcome := (event.failure.map w.outcome.note).getD w.outcome
        file := w'.file
        tick := w'.tick })
    (hfile : w'.file.isSome = w.file.isSome) (hhealthy : env.Healthy → event.failure = none)
    (hbegins : w.outcome.refused = true → event.begins = false) : Wrote env [event] w w' where
  state := by rwa [PartOutcome.absorb_singleton]
  file := hfile
  part := by simpa using hpart
  writing := by simpa using hwriting
  healthy := fun henv => by simp [failures, hhealthy henv]
  orderly := orderly_singleton hbegins

theorem Wrote.trans {first second : List Event} (hfirst : Wrote env first w w')
    (hsecond : Wrote env second w' w'') : Wrote env (first ++ second) w w'' where
  state := by
    rw [hsecond.state, hfirst.state, PartOutcome.absorb_append, ← List.append_assoc]
  file := hsecond.file.trans hfirst.file
  part := by
    intro event hevent
    have hindex : w'.partIndex = w.partIndex := by rw [hfirst.state]
    rcases List.mem_append.mp hevent with hleft | hright
    · exact hfirst.part event hleft
    · exact (hsecond.part event hright).trans hindex
  writing := by
    intro event hevent
    rcases List.mem_append.mp hevent with hleft | hright
    · exact hfirst.writing event hleft
    · exact hsecond.writing event hright
  healthy := fun henv => by
    rw [failures_append, hfirst.healthy henv, hsecond.healthy henv, List.append_nil]
  orderly := by
    have houtcome : w'.outcome = w.outcome.absorb first := by rw [hfirst.state]
    refine hfirst.orderly.append hsecond.orderly ?_ ?_
    · intro hrefused
      rw [houtcome]
      exact refused_absorb hrefused first
    · intro event hevent hends
      rw [houtcome]
      exact refused_of_ends hevent hends (isOpening_of_isWriting (hfirst.writing event hevent))

end Wrote

/-- Some steps of writing to the file. -/
def Writes (env : Env) (w w' : McapWriter) : Prop := ∃ events, Wrote env events w w'

theorem Writes.trans {env : Env} {w w' w'' : McapWriter} (hfirst : Writes env w w')
    (hsecond : Writes env w' w'') : Writes env w w'' := by
  obtain ⟨first, hfirst⟩ := hfirst
  obtain ⟨second, hsecond⟩ := hsecond
  exact ⟨first ++ second, hfirst.trans hsecond⟩

theorem writes_refl (env : Env) (w : McapWriter) : Writes env w w := ⟨[], wrote_refl w⟩

theorem writes_setFile (env : Env) (w : McapWriter) (update : PartFile → PartFile) :
    Writes env w (w.setFile update) := ⟨[], wrote_setFile update⟩

theorem writes_tick (env : Env) (w : McapWriter) (tick : ℕ) :
    Writes env w { w with tick := tick } :=
  ⟨[], wrote_nil rfl rfl⟩

/-! ## The functions that write -/

section Functions

variable (cfg : WriterConfig) (env : Env) (w : McapWriter)

theorem note_explained (o : PartOutcome) (failed : IoResult) :
    o.note (explained failed) = o.note failed := by
  rw [PartOutcome.note, PartOutcome.note, explained_of_error (explained_error_ne failed)]

/-- The event of the next call into storage. -/
def next (call : StorageCall) : Event := .called w.partIndex call (w.answer env call)

/-- A call whose every failure the part answers for. -/
def Reports (call : StorageCall) : Prop :=
  ∀ part result, (Event.called part call result).failure =
    if result.error ≠ 0 then some result else none

theorem writes_storage {call : StorageCall} (hwriting : (w.next env call).isWriting = true)
    (hnone : (w.next env call).failure = none)
    (hbegins : w.outcome.refused = true → (w.next env call).begins = false) :
    Writes env w (w.storage env call) := by
  refine ⟨[w.next env call], wrote_step rfl hwriting ?_ rfl (fun _ => hnone) hbegins⟩
  rw [hnone]
  rfl

theorem writes_storage_note {call : StorageCall} {failure : IoResult}
    (hwriting : (w.next env call).isWriting = true)
    (hsome : (w.next env call).failure = some (explained failure))
    (hhealthy : env.Healthy → (w.next env call).failure = none)
    (hbegins : w.outcome.refused = true → (w.next env call).begins = false) :
    Writes env w ((w.storage env call).note failure) := by
  refine ⟨[w.next env call], wrote_step rfl hwriting ?_ rfl hhealthy hbegins⟩
  rw [hsome, Option.map_some, Option.getD_some, note_explained]
  rfl

theorem writes_report {call : StorageCall} (hreports : Reports call)
    (hwriting : (w.next env call).isWriting = true) (hbegins : (w.next env call).begins = false) :
    Writes env w (w.report env call) := by
  have hfailure := hreports w.partIndex (w.answer env call)
  unfold report
  split
  next herror =>
    refine writes_storage_note env w hwriting ?_ (fun henv => absurd (henv.io _ _) herror)
      fun _ => hbegins
    rw [explained_of_error herror]
    exact hfailure.trans (if_pos herror)
  next herror =>
    exact writes_storage env w hwriting (hfailure.trans (if_neg herror)) fun _ => hbegins

theorem writes_writebackLast (wait : Bool) : Writes env w (w.writebackLast env wait) := by
  unfold writebackLast
  dsimp only
  split
  next herror =>
    unfold writebackFailed
    split
    next hunsupported =>
      have hnone : (w.next env (.writeback wait)).failure = none := by
        simp [next, Event.failure, hunsupported]
      exact (writes_storage env w rfl hnone fun _ => rfl).trans (writes_setFile env _ _)
    next hsupported =>
      have hsome : (w.next env (.writeback wait)).failure = some
          { step := .writeback
            error := (w.answer env (.writeback wait)).error
            uncertain := true } := by
        simp [next, Event.failure, herror, hsupported]
      refine writes_storage_note env w rfl ?_ (fun henv => absurd (henv.io _ _) herror)
        fun _ => rfl
      rw [hsome, explained_of_error (by exact herror)]
  next herror =>
    have hnone : (w.next env (.writeback wait)).failure = none := by
      simpa [next, Event.failure] using fun hne => absurd hne herror
    exact writes_storage env w rfl hnone fun _ => rfl

theorem writes_writeSpan (file : PartFile) (stop : ℕ) :
    Writes env w (w.writeSpan env file stop) := by
  unfold writeSpan
  refine Writes.trans ?_ (writes_setFile env _ _)
  split
  next hwait =>
    have hfirst : Writes env w (w.storage env (.writeback false)) :=
      writes_storage env w rfl (by simp [next, Event.failure, hwait.1]) fun _ => rfl
    exact hfirst.trans (writes_writebackLast env _ true)
  next => exact writes_writebackLast env w false

theorem writes_syncSpan (file : PartFile) : Writes env w (w.syncSpan env file) := by
  have hflush : Writes env w (w.report env .flush) := writes_report env w (fun _ _ => rfl) rfl rfl
  unfold syncSpan
  dsimp only
  split
  · exact hflush.trans (writes_setFile env _ _)
  · split
    · exact hflush.trans (writes_setFile env _ _)
    · split
      · exact hflush
      · exact hflush.trans (writes_writeSpan env _ file _)

theorem writes_syncSpanIfDue : Writes env w (w.syncSpanIfDue cfg env) := by
  unfold syncSpanIfDue
  split
  next file hfile =>
    split
    · exact writes_syncSpan env w file
    · exact writes_refl env w
  next => exact writes_refl env w

theorem writes_tock : Writes env w w.tock := writes_tick env w (w.tick + 1)

theorem writes_stampFile : Writes env w (w.stampFile env) :=
  (writes_tock env w).trans (writes_setFile env _ _)

theorem writes_checkpointIfDue : Writes env w (w.checkpointIfDue cfg env) := by
  unfold checkpointIfDue
  split
  next file hfile =>
    split
    · split
      · have hreport : Writes env w.tock (w.tock.report env .checkpoint) :=
          writes_report env w.tock (fun _ _ => rfl) rfl rfl
        exact (writes_tock env w).trans (hreport.trans (writes_stampFile env _))
      · exact writes_tock env w
    · exact writes_refl env w
  next => exact writes_refl env w

/-- A slice of a write that has begun may still follow a refusal, a new write may not. -/
theorem writes_writeBytes (slice size : ℕ) (hslice : slice = 0 → w.outcome.refused = false) :
    Writes env w (w.writeBytes cfg env slice size) := by
  have hbegins : w.outcome.refused = true → (w.next env (.append slice size)).begins = false := by
    intro hrefused
    cases slice with
    | zero => rw [hslice rfl] at hrefused; cases hrefused
    | succ slice => rfl
  unfold writeBytes
  dsimp only
  refine Writes.trans (Writes.trans (Writes.trans ?_ (writes_setFile env _ _))
    (writes_syncSpanIfDue cfg env _)) (writes_checkpointIfDue cfg env _)
  split
  next hshort =>
    exact writes_storage_note env w rfl (if_pos hshort)
      (fun henv => if_neg (by simp [answer, henv.io, henv.append])) hbegins
  next hwhole => exact writes_storage env w rfl (if_neg hwhole) hbegins

theorem writes_encryptFailed (hcipher : env.cipher w.tick = false) :
    Writes env w
      ({ w.tock with log := w.log ++ [Event.encryptFailed w.partIndex] }.note
        { step := .append, error := EIO, uncertain := true }) := by
  refine ⟨[.encryptFailed w.partIndex], wrote_step rfl rfl rfl rfl ?_ fun _ => rfl⟩
  intro henv
  rw [henv.cipher] at hcipher
  cases hcipher

theorem writes_writeSlices {slices : List (ℕ × ℕ)}
    (hfirst : w.outcome.refused = false ∨ ∀ entry ∈ slices, entry.2 ≠ 0)
    (hlater : ∀ entry ∈ slices.tail, entry.2 ≠ 0) :
    Writes env w (w.writeSlices cfg env slices) := by
  induction slices generalizing w with
  | nil => exact writes_refl env w
  | cons entry rest ih =>
      obtain ⟨n, slice⟩ := entry
      have hslice : slice = 0 → w.tock.outcome.refused = false := by
        rintro rfl
        rcases hfirst with hrefused | hall
        · exact hrefused
        · exact absurd rfl (hall (n, 0) (List.mem_cons_self ..))
      unfold writeSlices
      split
      next hcipher =>
        have hwrote := (writes_tock env w).trans (writes_writeBytes cfg env w.tock slice n hslice)
        dsimp only
        split
        · exact hwrote
        · exact hwrote.trans (ih _ (Or.inr hlater) fun entry hentry =>
            hlater entry (List.mem_of_mem_tail hentry))
      next hcipher => exact writes_encryptFailed env w (Bool.eq_false_iff.mpr hcipher)

theorem writes_handleWrite (size : ℕ) : Writes env w (w.handleWrite cfg env size) := by
  unfold handleWrite
  split
  next => exact writes_refl env w
  next hgoes =>
    have hrefused : w.outcome.refused = false := by
      simp only [Bool.or_eq_true, not_or] at hgoes
      exact Bool.eq_false_iff.mpr hgoes.2
    split
    · refine writes_writeSlices cfg env w (Or.inl hrefused) ?_
      unfold slices
      cases List.replicate (size / 65536) 65536 ++
          if size % 65536 = 0 then [] else [size % 65536] with
      | nil => simp
      | cons n rest =>
          rw [List.zipIdx_cons, List.tail_cons]
          intro entry hentry
          have hle := List.le_snd_of_mem_zipIdx hentry
          omega
    · exact writes_writeBytes cfg env w 0 size fun _ => hrefused

/-- Whatever the MCAP library writes, and whenever. -/
theorem writes_libraryWrites : Writes env w (w.libraryWrites cfg env) := by
  unfold libraryWrites
  refine (writes_tock env w).trans ?_
  generalize w.tock = w
  induction env.writes _ generalizing w with
  | nil => exact writes_refl env w
  | cons size rest ih => exact (writes_handleWrite cfg env w size).trans (ih _)

end Functions

end McapWriter

end VisioSchema.Mcap

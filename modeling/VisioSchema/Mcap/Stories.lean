import VisioSchema.Mcap.PartLife

/-!
# The story of a part

The events of one part, in order, tell its story: a part that never opened, one that is open, one
that was kept and completed, or one that was dropped.  The writer keeps every story of one of
these shapes (`Sound`), whatever storage answers.

## Strategy

The invariant has a part for each phase of the writer, since the current part looks different in
each: `Opening`, `Recording` and `Finished`.  What they share is about the other parts and about
the end of a recording.

* `Filed`: the parts before the current one are done, and no later one has begun.  So an event of
  the current part leaves their stories alone (`eventsOf_append_other`), and the next part begins
  with an empty story (`Filed.eventsOf_next`).
* `Halts`: nothing new follows an event that ends the recording, and the writer knows of it.

Each function takes one phase to another: the open loop leads from `Opening` to `Recording` or to
an end (`Opening.openPart`), a record stays in `Recording`, the close of a part leads to
`Finished` with the part kept or dropped (`Recording.close`), and a roll puts the two together
(`Recording.roll`).
-/

namespace VisioSchema.Mcap

open VisioSchema.Library VisioSchema.Wire VisioSchema.Routing

/-! ## Shapes -/

/-- The events of one part. -/
def eventsOf (part : ℕ) (log : List Event) : List Event :=
  log.filter fun event => event.part = part

theorem eventsOf_append_same {part : ℕ} {log events : List Event}
    (hpart : ∀ event ∈ events, event.part = part) :
    eventsOf part (log ++ events) = eventsOf part log ++ events := by
  have hall : events.filter (fun event => event.part = part) = events :=
    List.filter_eq_self.mpr (by simpa using hpart)
  rw [eventsOf, List.filter_append, hall]
  rfl

theorem eventsOf_append_other {part other : ℕ} {log events : List Event}
    (hpart : ∀ event ∈ events, event.part = part) (hother : other ≠ part) :
    eventsOf other (log ++ events) = eventsOf other log := by
  have hnone : events.filter (fun event => event.part = other) = [] := by
    refine List.filter_eq_nil_iff.mpr fun event hevent => ?_
    simpa [hpart event hevent] using hother.symm
  rw [eventsOf, List.filter_append, hnone, List.append_nil]
  rfl

namespace Event

/-- The payload bytes that an event records. -/
def payloadBytes : Event → ℕ
  | record _ _ msg => msg.payload.length
  | _ => 0

/-- What goes on in an open part. -/
def isRecording : Event → Bool
  | record _ _ _ => true
  | event => event.isWriting

end Event

/-- The payload bytes recorded in a list of events. -/
def payloadBytes : List Event → ℕ
  | [] => 0
  | event :: rest => event.payloadBytes + payloadBytes rest

@[simp] theorem payloadBytes_append (first second : List Event) :
    payloadBytes (first ++ second) = payloadBytes first + payloadBytes second := by
  induction first with
  | nil => simp [payloadBytes]
  | cons event rest ih => rw [List.cons_append, payloadBytes, payloadBytes, ih, Nat.add_assoc]

theorem payloadBytes_of_writing {events : List Event}
    (hwriting : ∀ event ∈ events, event.isWriting = true) : payloadBytes events = 0 := by
  induction events with
  | nil => rfl
  | cons event rest ih =>
      have hevent : event.payloadBytes = 0 := by
        have hkind := hwriting event (List.mem_cons_self ..)
        cases event <;> first | rfl | cases hkind
      have hrest := ih fun later hlater => hwriting later (List.mem_cons_of_mem _ hlater)
      rw [payloadBytes, hevent, hrest]

theorem isRecording_of_isWriting {event : Event} (hwriting : event.isWriting = true) :
    event.isRecording = true := by
  cases event <;> first | exact hwriting | rfl

/-- A part that has not opened. -/
def Unopened (events : List Event) : Prop := ∀ event ∈ events, event.isOpening = true

/-- A part that opened, with what followed. -/
def Open (part : ℕ) (body events : List Event) : Prop :=
  ∃ opening reason point, events = opening ++ .opened part reason point :: body ∧
    Unopened opening ∧ ∀ event ∈ body, event.isRecording = true

/-- The close of a file. -/
def closing (part : ℕ) (checkpointed closed : IoResult) : List Event :=
  [.called part .checkpoint checkpointed, .called part .close closed]

/-- A part that was kept: its file is closed, its namespace synced, and then storage is
told once what the part came to. -/
def Kept (part : ℕ) (events : List Event) : Prop :=
  ∃ before body checkpointed closed synced completed,
    Open part body before ∧
      events = before ++ closing part checkpointed closed ++
        [.called part .syncParent synced,
          .called part (.completed
            { verdict (failures (body ++ closing part checkpointed closed ++
                [.called part .syncParent synced])) with accepted := closed.accepted }) completed]

/-- A part that was dropped: nothing failed in it and no payload byte was recorded,
then its file is closed and removed. -/
def Dropped (part : ℕ) (events : List Event) : Prop :=
  ∃ before body trailer checkpointed closed removed removal,
    Open part body before ∧ failures body = [] ∧ payloadBytes body = 0 ∧
      (∀ event ∈ trailer, event.isWriting = true) ∧
      (removal = [] ∨ ∃ synced, removal = [.called part .syncRemoval synced]) ∧
      events = before ++ trailer ++ closing part checkpointed closed ++
        .called part .remove removed :: removal

/-- A part with which the writer is done. -/
def Done (part : ℕ) (events : List Event) : Prop :=
  Unopened events ∨ Kept part events ∨ Dropped part events

theorem Open.append {part : ℕ} {body events more : List Event} (hopen : Open part body events)
    (hmore : ∀ event ∈ more, event.isRecording = true) :
    Open part (body ++ more) (events ++ more) := by
  obtain ⟨opening, reason, point, rfl, hopening, hbody⟩ := hopen
  exact ⟨opening, reason, point, by simp, hopening, List.forall_mem_append.mpr ⟨hbody, hmore⟩⟩

/-! ## Completions -/

def isCompletion : Event → Bool
  | .called _ (.completed _) _ => true
  | _ => false

theorem countP_isCompletion_eq_zero {events : List Event}
    (hkind : ∀ event ∈ events, event.isOpening = true ∨ event.isRecording = true) :
    events.countP isCompletion = 0 := by
  refine List.countP_eq_zero.mpr fun event hevent hcompletion => ?_
  have hone := hkind event hevent
  unfold isCompletion at hcompletion
  split at hcompletion
  · rcases hone with hopening | hrecording
    · cases hopening
    · cases hrecording
  · cases hcompletion

theorem Open.countP_isCompletion {part : ℕ} {body events : List Event}
    (hopen : Open part body events) : events.countP isCompletion = 0 := by
  obtain ⟨opening, reason, point, rfl, hopening, hbody⟩ := hopen
  rw [List.countP_append, List.countP_cons,
    countP_isCompletion_eq_zero fun event hevent => Or.inl (hopening event hevent),
    countP_isCompletion_eq_zero fun event hevent => Or.inr (hbody event hevent)]
  rfl

/-- A kept part is completed once. -/
theorem Kept.countP_isCompletion {part : ℕ} {events : List Event} (hkept : Kept part events) :
    events.countP isCompletion = 1 := by
  obtain ⟨before, body, checkpointed, closed, synced, completed, hopen, rfl⟩ := hkept
  rw [List.countP_append, List.countP_append, hopen.countP_isCompletion]
  rfl

/-- A dropped part is never completed. -/
theorem Dropped.countP_isCompletion {part : ℕ} {events : List Event}
    (hdropped : Dropped part events) :
    events.countP isCompletion = 0 := by
  obtain ⟨before, body, trailer, checkpointed, closed, removed, removal, hopen, -, -, htrailer,
    hremoval, rfl⟩ := hdropped
  have hnone : trailer.countP isCompletion = 0 :=
    countP_isCompletion_eq_zero fun event hevent =>
      Or.inr (isRecording_of_isWriting (htrailer event hevent))
  rw [List.countP_append, List.countP_append, List.countP_append, hopen.countP_isCompletion, hnone]
  rcases hremoval with rfl | ⟨synced, rfl⟩ <;> rfl

namespace McapWriter

/-! ## Phases -/

/-- The parts before the current one are done, and none after it has begun. -/
structure Filed (w : McapWriter) : Prop where
  past : ∀ part < w.partIndex, Done part (eventsOf part w.log)
  future : ∀ event ∈ w.log, event.part ≤ w.partIndex

/-- Nothing new follows an event that ends the recording, and the writer knows of it. -/
structure Halts (w : McapWriter) : Prop where
  order : w.log.Pairwise fun event later => event.ends = true → later.begins = false
  stopped : ∀ event ∈ w.log, event.ends = true → w.storageRefused = true

/-- The current part is about to open. -/
structure Opening (w : McapWriter) : Prop where
  filed : Filed w
  halts : Halts w
  story : Unopened (eventsOf w.partIndex w.log)
  file : w.file = none
  writer : w.writerOpen = false
  refused : w.outcome.refused = false
  ended : w.ended = false

/-- The current part is open. -/
structure Recording (w : McapWriter) : Prop where
  filed : Filed w
  halts : Halts w
  story : ∃ body, Open w.partIndex body (eventsOf w.partIndex w.log) ∧
    w.outcome.Holds (failures body) ∧ w.partBytes = payloadBytes body
  file : w.file.isSome = true
  writer : w.writerOpen = true
  ended : w.ended = false

/-- The file of the current part is closed for good. -/
structure Finished (w : McapWriter) : Prop where
  filed : Filed w
  halts : Halts w
  story : Done w.partIndex (eventsOf w.partIndex w.log)
  file : w.file = none

/-- The writer between two calls. -/
def Sound (w : McapWriter) : Prop :=
  (Recording w ∧ w.closed = false) ∨ (Finished w ∧ (w.writerOpen = false ∨ w.closed = true))

section Steps

variable {w w' : McapWriter} {events : List Event}

theorem Filed.of_eq (hfiled : Filed w) (hindex : w'.partIndex = w.partIndex)
    (hlog : w'.log = w.log) : Filed w' := by
  refine ⟨?_, ?_⟩
  · rw [hindex, hlog]
    exact hfiled.past
  · rw [hindex, hlog]
    exact hfiled.future

theorem Filed.append (hfiled : Filed w) (hindex : w'.partIndex = w.partIndex)
    (hlog : w'.log = w.log ++ events) (hpart : ∀ event ∈ events, event.part = w.partIndex) :
    Filed w' where
  past := by
    intro part hlt
    rw [hindex] at hlt
    rw [hlog, eventsOf_append_other hpart (Nat.ne_of_lt hlt)]
    exact hfiled.past part hlt
  future := by
    intro event hevent
    rw [hlog] at hevent
    rw [hindex]
    rcases List.mem_append.mp hevent with hleft | hright
    · exact hfiled.future event hleft
    · exact Nat.le_of_eq (hpart event hright)

/-- The next part has no events yet. -/
theorem Filed.eventsOf_next (hfiled : Filed w) : eventsOf (w.partIndex + 1) w.log = [] := by
  refine List.filter_eq_nil_iff.mpr fun event hevent => ?_
  have hle := hfiled.future event hevent
  simpa using Nat.ne_of_lt (Nat.lt_succ_of_le hle)

theorem Filed.next (hfiled : Filed w) (hdone : Done w.partIndex (eventsOf w.partIndex w.log))
    (hindex : w'.partIndex = w.partIndex + 1) (hlog : w'.log = w.log) : Filed w' where
  past := by
    intro part hlt
    rw [hindex] at hlt
    rw [hlog]
    rcases Nat.lt_succ_iff_lt_or_eq.mp hlt with hpast | rfl
    · exact hfiled.past part hpast
    · exact hdone
  future := by
    intro event hevent
    rw [hlog] at hevent
    rw [hindex]
    exact Nat.le_succ_of_le (hfiled.future event hevent)

theorem Halts.append (hhalts : Halts w) (hlog : w'.log = w.log ++ events)
    (hstill : w.storageRefused = true → w'.storageRefused = true)
    (horderly : Orderly w.storageRefused events)
    (hends : ∀ event ∈ events, event.ends = true → w'.storageRefused = true) : Halts w' where
  order := by
    rw [hlog]
    refine List.pairwise_append.mpr ⟨hhalts.order, horderly.order, ?_⟩
    intro event hevent later hlater hend
    exact horderly.quiet (hhalts.stopped event hevent hend) later hlater
  stopped := by
    intro event hevent hend
    rw [hlog] at hevent
    rcases List.mem_append.mp hevent with hleft | hright
    · exact hstill (hhalts.stopped event hleft hend)
    · exact hends event hright hend

theorem Halts.of_eq (hhalts : Halts w) (hlog : w'.log = w.log)
    (hstill : w.storageRefused = true → w'.storageRefused = true) : Halts w' where
  order := by
    rw [hlog]
    exact hhalts.order
  stopped := by
    intro event hevent hend
    rw [hlog] at hevent
    exact hstill (hhalts.stopped event hevent hend)

/-! ## Recording -/

theorem Wrote.recording {env : Env} (hwrote : Wrote env events w w') (hrecording : Recording w) :
    Recording w' := by
  obtain ⟨body, hopen, hholds, hbytes⟩ := hrecording.story
  have hindex : w'.partIndex = w.partIndex := by rw [hwrote.state]
  have hlog : w'.log = w.log ++ events := by rw [hwrote.state]
  have houtcome : w'.outcome = w.outcome.absorb events := by rw [hwrote.state]
  have hended : w'.ended = w.ended := by rw [hwrote.state]
  have hrefused : w.storageRefused = w.outcome.refused := by
    rw [storageRefused, hrecording.ended, Bool.or_false]
  refine
    { filed := hrecording.filed.append hindex hlog hwrote.part
      halts := ?_
      story := ⟨body ++ events, ?_, ?_, ?_⟩
      file := by rw [hwrote.file]; exact hrecording.file
      writer := by rw [hwrote.state]; exact hrecording.writer
      ended := by rw [hended]; exact hrecording.ended }
  · refine hrecording.halts.append hlog ?_ (by rw [hrefused]; exact hwrote.orderly) ?_
    · intro hstopped
      rw [hrefused] at hstopped
      rw [storageRefused, houtcome, refused_absorb hstopped, Bool.true_or]
    · intro event hevent hends
      rw [storageRefused, houtcome, refused_of_ends hevent hends
        (isOpening_of_isWriting (hwrote.writing event hevent)), Bool.true_or]
  · rw [hlog, hindex, eventsOf_append_same hwrote.part]
    exact hopen.append fun event hevent => isRecording_of_isWriting (hwrote.writing event hevent)
  · rw [houtcome]
    exact hholds.absorb events
  · rw [payloadBytes_append, payloadBytes_of_writing hwrote.writing, Nat.add_zero, ← hbytes,
      hwrote.state]

theorem Writes.recording {env : Env} (hwrites : Writes env w w') (hrecording : Recording w) :
    Recording w' := by
  obtain ⟨events, hwrote⟩ := hwrites
  exact hwrote.recording hrecording

theorem Recording.countRecord (hrecording : Recording w) (hrefused : w.outcome.refused = false)
    (channel : Channel) (msg : RecordedMessage) : Recording (w.countRecord channel msg) := by
  obtain ⟨body, hopen, hholds, hbytes⟩ := hrecording.story
  have hpart : ∀ event ∈ [Event.record w.partIndex channel msg], event.part = w.partIndex := by
    simp [Event.part]
  refine
    { filed := hrecording.filed.append rfl rfl hpart
      halts := ?_
      story := ⟨body ++ [.record w.partIndex channel msg], ?_, ?_, ?_⟩
      file := hrecording.file
      writer := hrecording.writer
      ended := hrecording.ended }
  · refine hrecording.halts.append rfl (fun hstopped => hstopped) ?_ ?_
    · refine orderly_singleton fun hstopped => ?_
      rw [storageRefused, hrefused, hrecording.ended] at hstopped
      cases hstopped
    · simp [Event.ends]
  · have hevents : eventsOf w.partIndex (w.log ++ [.record w.partIndex channel msg]) =
        eventsOf w.partIndex w.log ++ [.record w.partIndex channel msg] :=
      eventsOf_append_same hpart
    exact hevents ▸ hopen.append (by simp [Event.isRecording])
  · have hnone : failures [Event.record w.partIndex channel msg] = [] := rfl
    rw [failures_append, hnone, List.append_nil]
    exact hholds
  · simp only [McapWriter.countRecord, hbytes, payloadBytes_append]
    rfl

end Steps

/-! ## Opening -/

section Opening

variable {cfg : WriterConfig} {env : Env} {w w' : McapWriter} {events : List Event}

theorem orderly_create {part : ℕ} {made : IoResult}
    (hquiet : ∀ event ∈ events, event.begins = false) :
    Orderly false (.called part .create made :: events) :=
  have hrest : Orderly false events := orderly_of_quiet hquiet
  ⟨List.pairwise_cons.mpr ⟨fun later hlater _ => hquiet later hlater, hrest.order⟩,
    fun hstopped => by cases hstopped⟩

/-- What a try at opening a part leaves, but for an end of the recording that `error`
tells. -/
structure Tried (error : ℕ) (w : McapWriter) : Prop where
  filed : Filed w
  order : w.log.Pairwise fun event later => event.ends = true → later.begins = false
  stopped : ∀ event ∈ w.log, event.ends = true → endsRecording error = true
  story : Unopened (eventsOf w.partIndex w.log)
  writer : w.writerOpen = false
  refused : w.outcome.refused = false
  ended : w.ended = false

theorem Opening.not_ends (hopening : Opening w) : ∀ event ∈ w.log, event.ends ≠ true := by
  intro event hevent hends
  have hstopped := hopening.halts.stopped event hevent hends
  rw [storageRefused, hopening.refused, hopening.ended] at hstopped
  cases hstopped

theorem Opening.tried (hopening : Opening w) {error : ℕ} (hhandled : Handled events
      (w.beginAttempt cfg env) w') (horder : Orderly false events)
    (hends : ∀ event ∈ events, event.ends = true → endsRecording error = true) :
    Tried error w' := by
  have hlog : w'.log = w.log ++ events := by rw [hhandled.state]; rfl
  have hindex : w'.partIndex = w.partIndex := by rw [hhandled.state]; rfl
  have hpart : ∀ event ∈ events, event.part = w.partIndex := hhandled.part
  refine
    { filed := hopening.filed.append hindex hlog hpart
      order := ?_
      stopped := ?_
      story := ?_
      writer := by rw [hhandled.state]; exact hopening.writer
      refused := by rw [hhandled.state]; exact hopening.refused
      ended := by rw [hhandled.state]; exact hopening.ended }
  · rw [hlog]
    exact List.pairwise_append.mpr ⟨hopening.halts.order, horder.order,
      fun event hevent _ _ hend => absurd hend (hopening.not_ends event hevent)⟩
  · intro event hevent hend
    rw [hlog] at hevent
    rcases List.mem_append.mp hevent with hleft | hright
    · exact absurd hend (hopening.not_ends event hleft)
    · exact hends event hright hend
  · rw [hlog, hindex, eventsOf_append_same hpart]
    exact List.forall_mem_append.mpr ⟨hopening.story, hhandled.opening⟩

theorem Opening.failed (hopening : Opening w) (last : Bool)
    (hfailed : (tryOpenPart cfg env w last).1.failure.error ≠ 0) :
    Tried (tryOpenPart cfg env w last).1.failure.error (tryOpenPart cfg env w last).2.state ∧
      (tryOpenPart cfg env w last).2.state.file = none := by
  obtain ⟨-, hfile, made, events, hpreparing, hmade, hhandled⟩ :=
    tryOpenPart_failed cfg env w last hfailed
  refine ⟨hopening.tried hhandled ?_ ?_, hfile⟩
  · exact orderly_create (List.forall_mem_append.mpr ⟨hpreparing.begins, by simp [Event.begins]⟩)
  · refine List.forall_mem_cons.mpr ⟨fun hends => hmade hends, ?_⟩
    exact List.forall_mem_append.mpr ⟨hpreparing.ends, by simp [Event.ends]⟩

theorem Opening.retry (hopening : Opening w) (last : Bool)
    (hfailed : (tryOpenPart cfg env w last).1.failure.error ≠ 0)
    (hgoes : endsRecording (tryOpenPart cfg env w last).1.failure.error = false) :
    Opening ((tryOpenPart cfg env w last).2.state.retryPart (tryOpenPart cfg env w last).1) := by
  obtain ⟨htried, hfile⟩ := hopening.failed last hfailed
  generalize (tryOpenPart cfg env w last).2.state = tried at *
  generalize (tryOpenPart cfg env w last).1 = attempt at *
  have hhalts : Halts (tried.retryPart attempt) := by
    refine ⟨htried.order, fun event hevent hends => ?_⟩
    rw [htried.stopped event hevent hends] at hgoes
    cases hgoes
  cases htaken : attempt.nameTaken with
  | false =>
      have hindex : (tried.retryPart attempt).partIndex = tried.partIndex := by
        simp [retryPart, htaken]
      refine ⟨?_, hhalts, ?_, hfile, htried.writer, htried.refused, htried.ended⟩
      · exact htried.filed.of_eq hindex rfl
      · rw [hindex]
        exact htried.story
  | true =>
      have hindex : (tried.retryPart attempt).partIndex = tried.partIndex + 1 := by
        simp [retryPart, htaken]
      refine ⟨?_, hhalts, ?_, hfile, htried.writer, htried.refused, htried.ended⟩
      · exact htried.filed.next (Or.inl htried.story) hindex rfl
      · have hnone : eventsOf (tried.partIndex + 1) (tried.retryPart attempt).log = [] :=
          htried.filed.eventsOf_next
        rw [hindex, hnone]
        exact fun event hevent => nomatch hevent

theorem Opening.end (hopening : Opening w) (last : Bool)
    (hfailed : (tryOpenPart cfg env w last).1.failure.error ≠ 0) :
    Finished ((tryOpenPart cfg env w last).2.state.endOpening
        (tryOpenPart cfg env w last).1.failure).state ∧
      ((tryOpenPart cfg env w last).2.state.endOpening
        (tryOpenPart cfg env w last).1.failure).state.writerOpen = false := by
  obtain ⟨htried, hfile⟩ := hopening.failed last hfailed
  generalize (tryOpenPart cfg env w last).2.state = tried at *
  generalize (tryOpenPart cfg env w last).1.failure = failure at *
  have hpart : ∀ event ∈ [Event.gaveUp tried.partIndex], event.part = tried.partIndex := by
    simp [Event.part]
  have hlog : (tried.endOpening failure).state.log = tried.log ++ [.gaveUp tried.partIndex] := by
    unfold endOpening
    dsimp only
    split <;> rfl
  have hindex : (tried.endOpening failure).state.partIndex = tried.partIndex := by
    unfold endOpening
    dsimp only
    split <;> rfl
  have hstopped : (tried.endOpening failure).state.storageRefused = true := by
    simp [endOpening, storageRefused]
  refine ⟨⟨htried.filed.append hindex hlog hpart, ⟨?_, fun _ _ _ => hstopped⟩, Or.inl ?_, ?_⟩, ?_⟩
  · rw [hlog]
    exact List.pairwise_append.mpr
      ⟨htried.order, List.pairwise_singleton .., by simp [Event.begins]⟩
  · rw [hlog, hindex, eventsOf_append_same hpart]
    exact List.forall_mem_append.mpr ⟨htried.story, by simp [Event.isOpening]⟩
  · unfold endOpening
    dsimp only
    split <;> exact hfile
  · unfold endOpening
    dsimp only
    split <;> exact htried.writer

theorem Opening.opened (hopening : Opening w) (last : Bool)
    (hok : (tryOpenPart cfg env w last).1.failure.error = 0) :
    Recording (tryOpenPart cfg env w last).2.state := by
  obtain ⟨opened, made, events, hfile, hpreparing, hmade, hhandled, hstart⟩ :=
    tryOpenPart_opened cfg env w last hok
  have hnever : endsRecording 0 ≠ true := by decide
  have htried : Tried 0 opened := by
    refine hopening.tried hhandled (orderly_create hpreparing.begins) ?_
    refine List.forall_mem_cons.mpr ⟨fun hends => ?_, hpreparing.ends⟩
    have hmade' : endsRecording made.error = true := hends
    rw [hmade] at hmade'
    cases hmade'
  have hpart : ∀ event ∈ [Event.opened opened.partIndex opened.staging.cutReason
      opened.staging.candidatePoint], event.part = opened.partIndex := by simp [Event.part]
  have hannounced : Recording opened.announce :=
    { filed := htried.filed.append rfl rfl hpart
      halts :=
        { order := List.pairwise_append.mpr
            ⟨htried.order, List.pairwise_singleton .., by simp [Event.begins]⟩
          stopped := by
            intro event hevent hends
            rcases List.mem_append.mp hevent with hleft | hright
            · exact absurd (htried.stopped event hleft hends) hnever
            · rw [List.mem_singleton.mp hright] at hends
              cases hends }
      story := by
        refine ⟨[], ⟨eventsOf opened.partIndex opened.log, _, _, eventsOf_append_same hpart,
          htried.story, by simp⟩, ?_, ?_⟩
        · have houtcome : opened.announce.outcome = w.outcome.begin := by
            rw [announce, hhandled.state]
            rfl
          rw [houtcome]
          exact PartOutcome.holds_begin _
        · rw [announce, hhandled.state]
          rfl
      file := hfile
      writer := rfl
      ended := htried.ended }
  rw [hstart]
  exact (writes_startPart cfg env opened).recording hannounced

/-- `OpenPart` opens the part, or ends the recording. -/
theorem Opening.openPart (hopening : Opening w) :
    Recording (w.openPart cfg env).state ∨
      (Finished (w.openPart cfg env).state ∧ (w.openPart cfg env).state.writerOpen = false) :=
  openLoop_rule (P := Opening)
    (Q := fun r => Recording r.state ∨ (Finished r.state ∧ r.state.writerOpen = false))
    (fun _ last hopening hok => Or.inl (hopening.opened last hok))
    (fun _ last hopening hfailed hgoes _ => hopening.retry last hfailed hgoes)
    (fun _ last hopening hfailed => Or.inr (hopening.end last hfailed)) hopening 0 0

end Opening

/-! ## Closing -/

section Closing

variable {cfg : WriterConfig} {env : Env} {w w' w'' : McapWriter}
  {events : List Event} {checkpointed closed : IoResult}

theorem complete_refused (o : PartOutcome) (part : ℕ) (told completed : IoResult) :
    (o.complete completed).refused =
      (o.absorb [.called part (.completed told) completed]).refused := by
  rw [PartOutcome.absorb_singleton]
  unfold PartOutcome.complete
  by_cases herror : completed.error = 0
  · rw [if_neg (not_not_intro herror)]
    have hnone : (Event.called part (.completed told) completed).failure = none :=
      if_neg (not_not_intro herror)
    rw [hnone]
    dsimp only
    split <;> rfl
  · rw [if_pos herror]
    have hsome : (Event.called part (.completed told) completed).failure = some completed :=
      if_pos herror
    rw [hsome]
    dsimp only
    split <;> rfl

theorem closing_part (part : ℕ) :
    ∀ event ∈ closing part checkpointed closed, event.part = part := by
  simp [closing, Event.part]

/-- What the close of a part does to the log: nothing begins, and the writer knows of an
end among its steps. -/
structure Ending (more : List Event) (w w'' : McapWriter) : Prop where
  part : ∀ event ∈ more, event.part = w.partIndex
  begins : ∀ event ∈ more, event.begins = false
  ends : ∀ event ∈ more, event.ends = true → w''.storageRefused = true

theorem FileClosed.finished (hclosed : FileClosed events checkpointed closed w w')
    (hrecording : Recording w) {more : List Event} (hmore : Ending more w w'')
    (hlog : w''.log = w'.log ++ more) (hindex : w''.partIndex = w.partIndex)
    (hfile : w''.file = none) (hrefused : w'.outcome.refused = true → w''.storageRefused = true)
    (hstory : Done w.partIndex (eventsOf w.partIndex w.log ++
      (events ++ closing w.partIndex checkpointed closed ++ more))) : Finished w'' := by
  have hall : w''.log =
      w.log ++ (events ++ closing w.partIndex checkpointed closed ++ more) := by
    rw [hlog, hclosed.state, List.append_assoc]
    rfl
  have hpart : ∀ event ∈ events ++ closing w.partIndex checkpointed closed ++ more,
      event.part = w.partIndex :=
    List.forall_mem_append.mpr ⟨List.forall_mem_append.mpr ⟨hclosed.part, closing_part _⟩,
      hmore.part⟩
  have hstopped : w.storageRefused = w.outcome.refused := by
    rw [storageRefused, hrecording.ended, Bool.or_false]
  have houtcome : w'.outcome.refused =
      (w.outcome.absorb (events ++ closing w.partIndex checkpointed closed)).refused := by
    rw [hclosed.state]
    rfl
  -- Any event that ends the storage is either one of this file, absorbed by the outcome, or one of
  -- the ending.
  have hknown : ∀ event ∈ events ++ closing w.partIndex checkpointed closed ++ more,
      event.ends = true → w''.storageRefused = true := by
    intro event hevent hends
    rcases List.mem_append.mp hevent with hleft | hright
    · refine hrefused ?_
      rw [houtcome]
      refine refused_of_ends hleft hends ?_
      rcases List.mem_append.mp hleft with hwriting | hclosing
      · exact isOpening_of_isWriting (hclosed.writing event hwriting)
      · simp only [closing, List.mem_cons, List.not_mem_nil, or_false] at hclosing
        rcases hclosing with rfl | rfl <;> rfl
    · exact hmore.ends event hright hends
  refine ⟨hrecording.filed.append hindex hall hpart, ?_, ?_, hfile⟩
  · refine hrecording.halts.append hall ?_ ?_ hknown
    · intro hyes
      rw [hstopped] at hyes
      refine hrefused ?_
      rw [houtcome]
      exact refused_absorb hyes _
    · rw [hstopped, List.append_assoc]
      refine hclosed.orderly.append_quiet (List.forall_mem_append.mpr ⟨?_, hmore.begins⟩)
      simp [closing, Event.begins]
  · rw [hall, hindex, eventsOf_append_same hpart]
    exact hstory

/-- A part that is completed is kept. -/
theorem Recording.complete (hrecording : Recording w)
    (hclosed : FileClosed events checkpointed closed w w') :
    Finished (w'.completePart env) ∧
      Kept w.partIndex (eventsOf w.partIndex (w'.completePart env).log) := by
  obtain ⟨body, hopen, hholds, -⟩ := hrecording.story
  obtain ⟨synced, completed, hstate, -⟩ := completePart_completes env w'
  have hindex : w'.partIndex = w.partIndex := by rw [hclosed.state]
  have houtcome : w'.outcome = (w.outcome.absorb
      (events ++ closing w.partIndex checkpointed closed)).closed closed.accepted := by
    rw [hclosed.state]
    rfl
  rw [hindex] at hstate
  generalize htold : (w'.outcome.absorb [.called w.partIndex .syncParent synced]).result = told
    at hstate
  -- Storage is told what the steps of the part came to, from its opening to the sync of its
  -- namespace.
  have hverdict : told =
      { verdict (failures (body ++ events ++ closing w.partIndex checkpointed closed ++
          [.called w.partIndex .syncParent synced])) with accepted := closed.accepted } := by
    have hclosing := (hholds.absorb (events ++ closing w.partIndex checkpointed closed)).closed
      closed.accepted
    rw [← houtcome] at hclosing
    have hsynced := hclosing.absorb [.called w.partIndex .syncParent synced]
    rw [← htold, hsynced.result_eq, PartOutcome.absorb_closedBytes, houtcome]
    simp only [List.append_assoc]
    rfl
  -- The outcome has absorbed the last two steps as well, so that an end among them is known.
  have hrefused : ∀ event ∈ [Event.called w.partIndex .syncParent synced,
      .called w.partIndex (.completed told) completed], event.ends = true →
      (w'.completePart env).outcome.refused = true := by
    intro event hevent hends
    rw [hstate]
    dsimp only
    rw [complete_refused _ w.partIndex told, ← PartOutcome.absorb_append]
    refine refused_of_ends hevent hends ?_
    simp only [List.mem_cons, List.not_mem_nil, or_false] at hevent
    rcases hevent with rfl | rfl <;> rfl
  have hending : Ending [.called w.partIndex .syncParent synced,
      .called w.partIndex (.completed told) completed] w (w'.completePart env) :=
    { part := by simp [Event.part]
      begins := by simp [Event.begins]
      ends := fun event hevent hends => by
        rw [storageRefused, hrefused event hevent hends, Bool.true_or] }
  have hkept : Kept w.partIndex (eventsOf w.partIndex w.log ++
      (events ++ closing w.partIndex checkpointed closed ++
        [.called w.partIndex .syncParent synced,
          .called w.partIndex (.completed told) completed])) := by
    refine ⟨eventsOf w.partIndex w.log ++ events, body ++ events, checkpointed, closed, synced,
      completed, hopen.append fun event hevent =>
        isRecording_of_isWriting (hclosed.writing event hevent), ?_⟩
    rw [← hverdict]
    simp only [List.append_assoc]
  have hlog : (w'.completePart env).log = w'.log ++
      [.called w.partIndex .syncParent synced,
        .called w.partIndex (.completed told) completed] := by rw [hstate]
  refine ⟨hclosed.finished hrecording hending hlog (by rw [hstate]) ?_ ?_ (Or.inr (Or.inl hkept)),
    ?_⟩
  · rw [hstate, hclosed.state]
  · intro hyes
    have habsorbed : (w'.completePart env).outcome.refused = true := by
      rw [hstate]
      dsimp only
      rw [complete_refused _ w.partIndex told]
      exact refused_absorb (refused_absorb hyes _) _
    rw [storageRefused, habsorbed, Bool.true_or]
  · have hall : (w'.completePart env).log = w.log ++ (events ++
        closing w.partIndex checkpointed closed ++ [.called w.partIndex .syncParent synced,
          .called w.partIndex (.completed told) completed]) := by
      rw [hlog, hclosed.state, List.append_assoc]
      rfl
    rw [hall, eventsOf_append_same]
    · exact hkept
    · exact List.forall_mem_append.mpr
        ⟨List.forall_mem_append.mpr ⟨hclosed.part, closing_part _⟩, hending.part⟩

/-- A part is dropped only if nothing failed in it and no payload byte was recorded. -/
theorem Recording.drop (hrecording : Recording w)
    (hclosed : FileClosed events checkpointed closed w w') (hdrops : w.dropsPart cfg = true) :
    Finished (w'.dropPart env) := by
  obtain ⟨body, hopen, hholds, hbytes⟩ := hrecording.story
  obtain ⟨removed, removal, hhandled, hremoval, hfile⟩ := dropPart_removes env w'
  have hindex : w'.partIndex = w.partIndex := by rw [hclosed.state]
  rw [hindex] at hhandled hremoval
  simp only [dropsPart, Bool.and_eq_true, decide_eq_true_eq, Bool.not_eq_true'] at hdrops
  have hnone : failures body = [] := by
    by_contra hsome
    rw [hholds.failed_iff.mpr hsome] at hdrops
    cases hdrops.2
  have hending : Ending (.called w.partIndex .remove removed :: removal) w (w'.dropPart env) := by
    refine ⟨by simpa [hindex] using hhandled.part, ?_, ?_⟩ <;>
      rcases hremoval with rfl | ⟨synced, rfl⟩ <;> simp [Event.begins, Event.ends,
        StorageCall.abandons]
  refine hclosed.finished hrecording hending (by rw [hhandled.state]) ?_ ?_ ?_ (Or.inr (Or.inr ?_))
  · rw [hhandled.state, hindex]
  · rw [hfile, hclosed.state]
  · intro hyes
    rw [storageRefused, hhandled.state, hyes, Bool.true_or]
  · exact ⟨_, body, events, checkpointed, closed, removed, removal, hopen, hnone,
      hbytes ▸ hdrops.1.2, hclosed.writing, hremoval, by simp only [List.append_assoc]⟩

/-- The close of an open part keeps it or drops it. -/
theorem Recording.close (hrecording : Recording w) : Finished (w.closeCurrentPart cfg env) := by
  obtain ⟨events, checkpointed, closed, hclosed, -⟩ := closeWriter_closes cfg env w hrecording.file
  unfold closeCurrentPart
  dsimp only
  split
  next hdrops => exact hrecording.drop hclosed hdrops
  next => exact (hrecording.complete hclosed).1

end Closing

/-! ## Rolling -/

section Rolling

variable {cfg : WriterConfig} {env : Env} {w : McapWriter}

/-- The number behind a part that was closed is free. -/
theorem Recording.next (hrecording : Recording w)
    (hrefused : (w.closeCurrentPart cfg env).outcome.refused = false) :
    Opening
      { w.closeCurrentPart cfg env with
        writerOpen := false
        partIndex := (w.closeCurrentPart cfg env).partIndex + 1 } := by
  have hfinished : Finished (w.closeCurrentPart cfg env) := hrecording.close
  have hended : (w.closeCurrentPart cfg env).ended = w.ended :=
    (closeCurrentPart_beside hrecording.file).2.2.2
  generalize w.closeCurrentPart cfg env = closed at *
  refine ⟨?_, ?_, ?_, hfinished.file, rfl, hrefused, hended.trans hrecording.ended⟩
  · exact hfinished.filed.next hfinished.story rfl rfl
  · exact hfinished.halts.of_eq rfl fun hstopped => hstopped
  · have hnone : eventsOf (closed.partIndex + 1) closed.log = [] := hfinished.filed.eventsOf_next
    dsimp only
    rw [hnone]
    exact fun event hevent => nomatch hevent

/-- A roll of an open part ends with an open part, or with none for good. -/
theorem Recording.roll (hrecording : Recording w) :
    Recording (w.roll cfg env).state ∨
      (Finished (w.roll cfg env).state ∧ (w.roll cfg env).state.writerOpen = false) := by
  have hfinished : Finished (w.closeCurrentPart cfg env) := hrecording.close
  unfold McapWriter.roll
  rw [if_pos hrecording.writer]
  dsimp only
  split
  next hrefused =>
    exact Or.inr ⟨⟨hfinished.filed.of_eq rfl rfl,
      hfinished.halts.of_eq rfl fun hstopped => hstopped, hfinished.story, hfinished.file⟩, rfl⟩
  next hrefused => exact (hrecording.next (Bool.eq_false_iff.mpr hrefused)).openPart

end Rolling

end McapWriter

end VisioSchema.Mcap

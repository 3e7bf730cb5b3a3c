import VisioSchema.Mcap.FaultSafety

/-!
# Removed files and part numbers

`CloseCurrentPart` judges a part empty by its payload bytes, not by its records.  Where no part
closes with records that are all empty, and no group waits over a part without a payload byte, a
removed file held no record and the kept parts have consecutive numbers (`run_keeps_recorded`).

## Strategy

A part is given up in three places: by a failed try at opening it, by a roll, and by `Close`.

* **Opening.**  The file of a failed try is removed before anything is recorded in it, and its
  number is used again unless the name stays taken (`Env.FreesNames`, `Numbered.openPart`).
* **Rolling.**  A roll in front of a record closes a part with payload bytes (`rollIfDue_cases`),
  which is kept.  Only a roll that a waiting group asks for may find a part without any, and
  `KeepsParts` excludes the calls that make one.
* **Closing.**  The last part may be dropped.  It then holds no record, unless it is `Hollow`:
  its records have no payload byte between them.

`Numbered` says what an open writer has opened and completed, and `Accounted` what holds between
two calls, a closed writer included (`LastKept`); `run_accounted` carries it through a run.
-/

namespace VisioSchema.Mcap

open VisioSchema.Library VisioSchema.Wire VisioSchema.Routing

/-! ## Opened, completed and removed -/

def HasOpened (part : ℕ) (log : List Event) : Prop :=
  ∃ reason point, .opened part reason point ∈ log

/-- The part was kept: storage was told what it came to. -/
def HasCompleted (part : ℕ) (log : List Event) : Prop :=
  ∃ told result, .called part (.completed told) result ∈ log

/-- The file of a part that had opened was removed. -/
def Removed (part : ℕ) (log : List Event) : Prop :=
  ∃ before removed after, log = before ++ .called part .remove removed :: after ∧
    HasOpened part before

namespace Event

def isRecord : Event → Bool
  | record _ _ _ => true
  | _ => false

def isOpened : Event → Bool
  | opened _ _ _ => true
  | _ => false

def isRemoval : Event → Bool
  | called _ .remove _ => true
  | _ => false

end Event

theorem HasOpened.append {part : ℕ} {log : List Event} (hopened : HasOpened part log)
    (events : List Event) : HasOpened part (log ++ events) := by
  obtain ⟨reason, point, hmem⟩ := hopened
  exact ⟨reason, point, List.mem_append_left _ hmem⟩

theorem HasCompleted.append {part : ℕ} {log : List Event} (hcompleted : HasCompleted part log)
    (events : List Event) : HasCompleted part (log ++ events) := by
  obtain ⟨told, result, hmem⟩ := hcompleted
  exact ⟨told, result, List.mem_append_left _ hmem⟩

theorem HasOpened.of_append {part : ℕ} {log events : List Event}
    (hopened : HasOpened part (log ++ events)) (hnone : ∀ event ∈ events, event.isOpened = false) :
    HasOpened part log := by
  obtain ⟨reason, point, hmem⟩ := hopened
  rcases List.mem_append.mp hmem with hleft | hright
  · exact ⟨reason, point, hleft⟩
  · cases hnone _ hright

theorem plain_of_isWriting {event : Event} (hwriting : event.isWriting = true) :
    event.isOpened = false ∧ event.isRecord = false := by
  cases event with
  | opened part reason point => cases hwriting
  | record part channel msg => cases hwriting
  | _ => exact ⟨rfl, rfl⟩

theorem plain_of_isOpening {event : Event} (hopening : event.isOpening = true) :
    event.isOpened = false ∧ event.isRecord = false := by
  cases event with
  | opened part reason point => cases hopening
  | record part channel msg => cases hopening
  | _ => exact ⟨rfl, rfl⟩

/-! ## Which stories contain a removal -/

/-- No file is removed after its part has opened. -/
def Stays (events : List Event) : Prop :=
  events.Pairwise fun event later => event.isOpened = true → later.isRemoval = false

theorem Removed.not_stays {part : ℕ} {log : List Event} (hremoved : Removed part log) :
    ¬Stays (eventsOf part log) := by
  obtain ⟨before, removed, after, rfl, reason, point, hopened⟩ := hremoved
  intro hstays
  have hsplit : eventsOf part (before ++ .called part .remove removed :: after) =
      eventsOf part before ++ .called part .remove removed :: eventsOf part after := by
    simp [eventsOf, Event.part]
  rw [Stays, hsplit] at hstays
  have hbefore : .opened part reason point ∈ eventsOf part before :=
    List.mem_filter.mpr ⟨hopened, by simp [Event.part]⟩
  have hnot := (List.pairwise_append.mp hstays).2.2 _ hbefore _ (List.mem_cons_self ..) rfl
  cases hnot

theorem stays_of_unopened {events : List Event} (hunopened : Unopened events) : Stays events := by
  refine List.pairwise_of_forall_mem_list fun event hevent _ _ hopened => ?_
  rw [(plain_of_isOpening (hunopened event hevent)).1] at hopened
  cases hopened

/-- A part that opened, and no file of it was removed since. -/
theorem Open.stays {part : ℕ} {body before more : List Event} (hopen : Open part body before)
    (hmore : ∀ event ∈ more, event.isRemoval = false) : Stays (before ++ more) := by
  obtain ⟨opening, reason, point, rfl, hopening, hbody⟩ := hopen
  have hrest : ∀ event ∈ body ++ more, event.isRemoval = false := by
    refine List.forall_mem_append.mpr ⟨fun event hevent => ?_, hmore⟩
    have hkind := hbody event hevent
    cases event with
    | called part call result => cases call <;> first | rfl | cases hkind
    | _ => rfl
  rw [Stays, List.append_assoc, List.cons_append]
  refine List.pairwise_append.mpr ⟨stays_of_unopened hopening, ?_, ?_⟩
  · exact List.pairwise_cons.mpr ⟨fun later hlater _ => hrest later hlater,
      List.pairwise_of_forall_mem_list fun _ _ later hlater _ => hrest later hlater⟩
  · intro event hevent _ _ hopened
    rw [(plain_of_isOpening (hopening event hevent)).1] at hopened
    cases hopened

theorem Kept.stays {part : ℕ} {events : List Event} (hkept : Kept part events) :
    Stays events := by
  obtain ⟨before, body, checkpointed, closed, synced, completed, hopen, rfl⟩ := hkept
  rw [List.append_assoc]
  refine hopen.stays fun event hevent => ?_
  simp only [closing, List.cons_append, List.nil_append, List.mem_cons, List.not_mem_nil,
    or_false] at hevent
  rcases hevent with rfl | rfl | rfl | rfl <;> rfl

theorem Dropped.hasOpened {part : ℕ} {log : List Event}
    (hdropped : Dropped part (eventsOf part log)) :
    HasOpened part log := by
  obtain ⟨before, body, trailer, checkpointed, closed, removed, removal,
    ⟨opening, reason, point, rfl, -⟩, -, -, -, -, hevents⟩ := hdropped
  have hmem : .opened part reason point ∈ eventsOf part log := by
    rw [hevents]
    simp
  exact ⟨reason, point, List.mem_of_mem_filter hmem⟩

theorem Dropped.not_hasCompleted {part : ℕ} {log : List Event}
    (hdropped : Dropped part (eventsOf part log)) : ¬HasCompleted part log := by
  rintro ⟨told, result, hmem⟩
  have hnone := hdropped.countP_isCompletion
  rw [List.countP_eq_zero] at hnone
  exact hnone _ (List.mem_filter.mpr ⟨hmem, by simp [Event.part]⟩) rfl

/-! ## Storage that never takes a name -/

/-- `Create` never finds its name taken, and `Remove` succeeds. -/
structure Env.FreesNames (env : Env) : Prop where
  fresh : ∀ tick, env.made tick = false → (env.io tick .create).error ≠ EEXIST
  removes : ∀ tick, (env.io tick .remove).error = 0

namespace McapWriter

/-- Every part that opened was completed or is the current one, and where no name is ever
taken every number below the current one was kept. -/
structure Numbered (env : Env) (w : McapWriter) : Prop where
  completes : ∀ part, HasOpened part w.log →
    HasCompleted part w.log ∨ (part = w.partIndex ∧ w.writerOpen = true)
  gapless : env.FreesNames → ∀ part < w.partIndex, HasCompleted part w.log

section Numbered

variable {cfg : WriterConfig} {env : Env} {w w' : McapWriter} {events : List Event}

theorem Numbered.of_view (hnumbered : Numbered env w) (hview : w'.view = w.view) :
    Numbered env w' := by
  have hlog : w'.log = w.log := congrArg PartsView.log hview
  have hwriter : w'.writerOpen = w.writerOpen := congrArg PartsView.writerOpen hview
  have hindex : w'.partIndex = w.partIndex := congrArg PartsView.partIndex hview
  refine ⟨?_, ?_⟩
  · rw [hlog, hindex, hwriter]
    exact hnumbered.completes
  · rw [hlog, hindex]
    exact hnumbered.gapless

/-- Steps that open no part. -/
theorem Numbered.append (hnumbered : Numbered env w) (hlog : w'.log = w.log ++ events)
    (hnone : ∀ event ∈ events, event.isOpened = false) (hindex : w'.partIndex = w.partIndex)
    (hwriter : w'.writerOpen = w.writerOpen) : Numbered env w' where
  completes := by
    intro part hopened
    rw [hlog] at hopened ⊢
    rw [hindex, hwriter]
    rcases hnumbered.completes part (hopened.of_append hnone) with hcompleted | hcurrent
    · exact Or.inl (hcompleted.append events)
    · exact Or.inr hcurrent
  gapless := by
    intro hnames part hlt
    rw [hindex] at hlt
    rw [hlog]
    exact (hnumbered.gapless hnames part hlt).append events

theorem Writes.numbered (hwrites : Writes env w w') (hnumbered : Numbered env w) :
    Numbered env w' := by
  obtain ⟨events, hwrote⟩ := hwrites
  exact hnumbered.append (by rw [hwrote.state])
    (fun event hevent => (plain_of_isWriting (hwrote.writing event hevent)).1)
    (by rw [hwrote.state]) (by rw [hwrote.state])

theorem Handled.numbered (hhandled : Handled events w w') (hnumbered : Numbered env w) :
    Numbered env w' :=
  hnumbered.append (by rw [hhandled.state])
    (fun event hevent => (plain_of_isOpening (hhandled.opening event hevent)).1)
    (by rw [hhandled.state]) (by rw [hhandled.state])

/-! ## Opening -/

/-- A failed try that is followed by another leaves its name free. -/
theorem tryOpenPart_frees (hnames : env.FreesNames) {last : Bool}
    (hfailed : (w.tryOpenPart cfg env last).1.failure.error ≠ 0)
    (hgoes : endsRecording (w.tryOpenPart cfg env last).1.failure.error = false)
    (hcosts : last = true → (w.tryOpenPart cfg env last).1.costs = false) :
    (w.tryOpenPart cfg env last).1.nameTaken = false := by
  obtain ⟨-, -, -, -, -, hcreated, -⟩ := openFile_handled cfg env (w.beginAttempt cfg env)
  unfold tryOpenPart at hfailed hgoes hcosts ⊢
  dsimp only at hfailed hgoes hcosts ⊢
  split at hfailed
  next herror =>
    rw [if_pos herror] at hgoes hcosts ⊢
    unfold refuseAttempt at hgoes hcosts ⊢
    dsimp only at hgoes hcosts ⊢
    by_cases hmade : ((w.beginAttempt cfg env).openFile cfg env).1.created = true
    · rw [if_pos hmade] at hgoes hcosts ⊢
      have hlast : last = false := by
        by_contra hyes
        cases hcosts (Bool.not_eq_false _ ▸ hyes)
      have hends : endsRecording
          ((w.beginAttempt cfg env).openFile cfg env).1.failure.error = false := hgoes
      rw [hlast, hends]
      unfold dropUnopenedPart removeDurably
      have hremoved : ∀ v : McapWriter, (v.answer env .remove).error = 0 := fun v =>
        hnames.removes v.tick
      simp [hremoved]
    · rw [if_neg hmade]
      rw [hcreated] at hmade
      have hnot : env.made (w.beginAttempt cfg env).tick = false := Bool.eq_false_iff.mpr hmade
      have hfailure : ((w.beginAttempt cfg env).openFile cfg env).1.failure =
          explained ((w.beginAttempt cfg env).answer env .create) := by
        unfold openFile
        rw [if_neg hmade]
        unfold createFailure
        rw [if_neg hmade]
      rw [hfailure]
      have hother : ((w.beginAttempt cfg env).answer env .create).error ≠ EEXIST :=
        hnames.fresh _ hnot
      have hfresh : (explained ((w.beginAttempt cfg env).answer env .create)).error ≠ EEXIST := by
        unfold explained
        split
        · exact hother
        · exact fun htaken => nomatch htaken
      exact decide_eq_false hfresh
  next => exact absurd rfl hfailed

theorem Numbered.openPart (hnumbered : Numbered env w) (hclosed : w.writerOpen = false) :
    Numbered env (w.openPart cfg env).state := by
  have hbegin : ∀ v : McapWriter, Numbered env v → Numbered env (v.beginAttempt cfg env) :=
    fun v hv => ⟨hv.completes, hv.gapless⟩
  refine openLoop_rule (P := fun v => Numbered env v ∧ v.writerOpen = false)
    (Q := fun r => Numbered env r.state) ?_ ?_ ?_ ⟨hnumbered, hclosed⟩ 0 0
  · -- An attempt that opens: the new part is the current one, earlier parts are as they were.
    rintro v last ⟨hv, hnone⟩ hok
    obtain ⟨opened, made, events, -, -, -, hhandled, hstart⟩ :=
      tryOpenPart_opened cfg env v last hok
    have hopened : Numbered env opened := hhandled.numbered (hbegin v hv)
    have hnone' : opened.writerOpen = false := by
      rw [hhandled.state]
      exact hnone
    rw [hstart]
    refine (writes_startPart cfg env opened).numbered ⟨fun part hpart => ?_, fun hnames part hlt =>
      (hopened.gapless hnames part hlt).append _⟩
    by_cases hcurrent : part = opened.partIndex
    · exact Or.inr ⟨hcurrent, rfl⟩
    · obtain ⟨reason, point, hmem⟩ := hpart
      have hbefore : HasOpened part opened.log := by
        rcases List.mem_append.mp hmem with hleft | hright
        · exact ⟨reason, point, hleft⟩
        · cases List.mem_singleton.mp hright
          exact absurd rfl hcurrent
      rcases hopened.completes part hbefore with hcompleted | ⟨hindex, -⟩
      · exact Or.inl (hcompleted.append _)
      · exact absurd hindex hcurrent
  · -- An attempt that fails and is retried: a free name keeps the part's number, so no number is
    -- skipped.
    rintro v last ⟨hv, hnone⟩ hfailed hgoes hcosts
    obtain ⟨-, -, made, events, -, -, hhandled⟩ := tryOpenPart_failed cfg env v last hfailed
    have htried := hhandled.numbered (hbegin v hv)
    have hnone' : (v.tryOpenPart cfg env last).2.state.writerOpen = false := by
      rw [hhandled.state]
      exact hnone
    have hfree : env.FreesNames → (v.tryOpenPart cfg env last).1.nameTaken = false := fun hnames =>
      tryOpenPart_frees hnames hfailed hgoes hcosts
    refine ⟨⟨fun part hpart => ?_, fun hnames part hlt => ?_⟩, hnone'⟩
    · rcases htried.completes part hpart with hcompleted | ⟨-, hopen⟩
      · exact Or.inl hcompleted
      · rw [hnone'] at hopen
        cases hopen
    · have hsame : ((v.tryOpenPart cfg env last).2.state.retryPart
          (v.tryOpenPart cfg env last).1).partIndex =
            (v.tryOpenPart cfg env last).2.state.partIndex := by
        simp [retryPart, hfree hnames]
      rw [hsame] at hlt
      exact htried.gapless hnames part hlt
  · -- The last attempt fails: only the event that gives the part up is added.
    rintro v last ⟨hv, -⟩ hfailed
    obtain ⟨-, -, made, events, -, -, hhandled⟩ := tryOpenPart_failed cfg env v last hfailed
    have htried := hhandled.numbered (hbegin v hv)
    unfold endOpening
    dsimp only
    have hplain : ∀ event ∈ [Event.gaveUp (v.tryOpenPart cfg env last).2.state.partIndex],
        event.isOpened = false := by simp [Event.isOpened]
    refine htried.append ?_ hplain ?_ ?_ <;> split <;> rfl

/-! ## Rolling -/

/-- The close of a part opens and records nothing, and completes the part unless it drops
it. -/
theorem closeCurrentPart_appends (hopen : w.file.isSome = true) :
    ∃ events, (w.closeCurrentPart cfg env).log = w.log ++ events ∧
      (∀ event ∈ events, event.isOpened = false ∧ event.isRecord = false) ∧
      (w.dropsPart cfg = false → HasCompleted w.partIndex events) := by
  obtain ⟨events, checkpointed, closed, hclosed, -⟩ := closeWriter_closes cfg env w hopen
  have hindex : (w.closeWriter cfg env).partIndex = w.partIndex := by rw [hclosed.state]
  have hlog : (w.closeWriter cfg env).log =
      w.log ++ (events ++ closing w.partIndex checkpointed closed) := by
    rw [hclosed.state]
    rfl
  have hplain : ∀ event ∈ events ++ closing w.partIndex checkpointed closed,
      event.isOpened = false ∧ event.isRecord = false := by
    refine List.forall_mem_append.mpr ⟨fun event hevent => ?_, by
      simp [closing, Event.isOpened, Event.isRecord]⟩
    exact plain_of_isWriting (hclosed.writing event hevent)
  unfold closeCurrentPart
  cases hdrops : w.dropsPart cfg with
  | true =>
      obtain ⟨removed, removal, hhandled, -, -⟩ := dropPart_removes env (w.closeWriter cfg env)
      refine ⟨_, ?_, List.forall_mem_append.mpr ⟨hplain, fun event hevent =>
        plain_of_isOpening (hhandled.opening event hevent)⟩, fun hkept => by cases hkept⟩
      rw [← List.append_assoc, ← hlog]
      change ((w.closeWriter cfg env).dropPart env).log = _
      rw [hhandled.state]
  | false =>
      obtain ⟨synced, completed, hstate, -⟩ := completePart_completes env (w.closeWriter cfg env)
      rw [hindex] at hstate
      generalize ((w.closeWriter cfg env).outcome.absorb
        [.called w.partIndex .syncParent synced]).result = told at hstate
      refine ⟨events ++ closing w.partIndex checkpointed closed ++
        [.called w.partIndex .syncParent synced, .called w.partIndex (.completed told) completed],
        ?_, List.forall_mem_append.mpr ⟨hplain, by simp [Event.isOpened, Event.isRecord]⟩,
        fun _ => ⟨told, completed, by simp⟩⟩
      rw [← List.append_assoc, ← hlog]
      change ((w.closeWriter cfg env).completePart env).log = _
      rw [hstate]

theorem dropsPart_of_bytes (hbytes : w.partBytes ≠ 0) : w.dropsPart cfg = false := by
  simp [dropsPart, hbytes]

/-- A roll of a part with payload bytes keeps that part. -/
theorem Numbered.roll (hnumbered : Numbered env w) (hlive : Live w) (hbytes : w.partBytes ≠ 0) :
    Numbered env (w.roll cfg env).state := by
  unfold McapWriter.roll
  split
  next hwriter =>
    have hopen : w.file.isSome = true := hlive.fileOpen hwriter
    obtain ⟨events, hlog, hplain, hcompletes⟩ :=
      @closeCurrentPart_appends cfg env _ hopen
    have hnone : ∀ event ∈ events, event.isOpened = false := fun event hevent =>
      (hplain event hevent).1
    have hcompleted := hcompletes (dropsPart_of_bytes hbytes)
    have hindex : (w.closeCurrentPart cfg env).partIndex = w.partIndex :=
      (closeCurrentPart_beside hopen).2.1
    generalize w.closeCurrentPart cfg env = closed at *
    have hall : ∀ part, HasOpened part closed.log → HasCompleted part closed.log := by
      intro part hopened
      rw [hlog] at hopened ⊢
      rcases hnumbered.completes part (hopened.of_append hnone) with hbefore | ⟨rfl, -⟩
      · exact hbefore.append events
      · obtain ⟨told, result, hmem⟩ := hcompleted
        exact ⟨told, result, List.mem_append_right _ hmem⟩
    have hpast : env.FreesNames → ∀ part ≤ w.partIndex, HasCompleted part closed.log := by
      intro hnames part hle
      rw [hlog]
      rcases Nat.lt_or_eq_of_le hle with hlt | rfl
      · exact (hnumbered.gapless hnames part hlt).append events
      · obtain ⟨told, result, hmem⟩ := hcompleted
        exact ⟨told, result, List.mem_append_right _ hmem⟩
    dsimp only
    split
    · refine ⟨fun part hopened => Or.inl (hall part hopened), fun hnames part hlt => ?_⟩
      exact hpast hnames part (Nat.le_of_lt (hindex ▸ hlt))
    · refine Numbered.openPart ⟨fun part hopened => Or.inl (hall part hopened),
        fun hnames part hlt => ?_⟩ rfl
      exact hpast hnames part (Nat.le_of_lt_succ (hindex ▸ hlt))
  next => exact hnumbered

/-- The roll in front of a record closes a part with payload bytes. -/
theorem rollIfDue_cases (channel : Channel) (msg : RecordedMessage) :
    ∃ v : McapWriter, v.view = w.view ∧ v.staging = w.staging ∧
      (w.rollIfDue cfg env channel msg = ⟨v, false⟩ ∨
        (v.partBytes ≠ 0 ∧ w.rollIfDue cfg env channel msg = v.roll cfg env)) := by
  have hsame : (w.shouldRoll cfg env).2.partBytes = w.partBytes :=
    congrArg PartsView.partBytes shouldRoll_view
  have hdue : (w.shouldRoll cfg env).1 = true → (w.shouldRoll cfg env).2.partBytes ≠ 0 := by
    rw [hsame]
    exact shouldRoll_bytes
  unfold rollIfDue
  split
  · exact ⟨w, rfl, rfl, Or.inl rfl⟩
  · refine ⟨(w.shouldRoll cfg env).2, shouldRoll_view, shouldRoll_staging, ?_⟩
    dsimp only
    split
    · split
      next hpair => exact Or.inr ⟨hdue (Bool.and_eq_true_iff.mp hpair).1, rfl⟩
      next =>
        split
        next hcut =>
          refine Or.inr ⟨?_, rfl⟩
          rcases Bool.or_eq_true_iff.mp hcut with hmust | hceiling
          · exact mustCut_bytes hmust
          · simp only [Bool.and_eq_true, decide_eq_true_eq] at hceiling
            omega
        next => exact Or.inl rfl
    · split
      next hyes => exact Or.inr ⟨hdue hyes, rfl⟩
      next => exact Or.inl rfl

theorem Numbered.writeMessage (hnumbered : Numbered env w) (channel : Channel)
    (msg : RecordedMessage) : Numbered env (w.writeMessage cfg env channel msg) := by
  have hwrote : Numbered env (w.libraryWrites cfg env) :=
    (writes_libraryWrites cfg env w).numbered hnumbered
  unfold McapWriter.writeMessage
  dsimp only
  split
  · exact hwrote
  · have hplain : ∀ event ∈ [Event.record (w.libraryWrites cfg env).partIndex channel msg],
        event.isOpened = false := by simp [Event.isOpened]
    exact hwrote.append rfl hplain rfl rfl

theorem Numbered.writeRecord (hnumbered : Numbered env w) (hlive : Live w) (channel : Channel)
    (msg : RecordedMessage) : Numbered env (w.writeRecord cfg env channel msg).state := by
  unfold McapWriter.writeRecord
  split
  · exact hnumbered
  · refine Run.andThen_keeps (P := Numbered env) ?_ fun v hv => ?_
    · obtain ⟨v, hview, -, hsame | ⟨hbytes, hrolled⟩⟩ :=
        @rollIfDue_cases cfg env w channel msg
      · rw [hsame]
        exact hnumbered.of_view hview
      · rw [hrolled]
        exact (hnumbered.of_view hview).roll (hlive.of_view hview) hbytes
    · split
      · exact hv
      · have hgated : Numbered env (v.gate cfg channel msg).2 := hv.of_view (gate_view channel msg)
        dsimp only
        split
        · exact hgated.writeMessage channel msg
        · exact hgated

theorem numbered_keptByCuts :
    KeptByCuts cfg env False fun w => Live w ∧ Numbered env w where
  live := And.left
  view := fun hw hview => ⟨hw.1.of_view hview, hw.2.of_view hview⟩
  writes := fun w hw => ⟨hw.1.libraryWrites, (writes_libraryWrites cfg env w).numbered hw.2⟩
  record := fun _ channel msg hw =>
    ⟨hw.1.writeRecord channel msg, hw.2.writeRecord hw.1 channel msg⟩
  roll := fun _ hw hbytes => ⟨hw.1.roll, hw.2.roll hw.1 (hbytes.resolve_left id)⟩

end Numbered

/-! ## Runs -/

/-- `Close` up to its call of `CloseCurrentPart`: what is staged is written or given up. -/
def settle (cfg : WriterConfig) (env : Env) (w : McapWriter) : Run McapWriter :=
  if w.staging.startStatus = .ready then w.flushStaged cfg env false false
  else ⟨w.clearStaged, false⟩

/-- The current part holds records, none of them with a payload byte, and no step of it has
failed; part 0 counts only before the start of the take. -/
def Hollow (w : McapWriter) : Prop :=
  (0 < w.partIndex ∨ w.staging.startStatus ≠ .ready) ∧ w.outcome.failed = false ∧
    (∃ event ∈ eventsOf w.partIndex w.log, event.isRecord = true) ∧
    ∀ event ∈ eventsOf w.partIndex w.log, event.payloadBytes = 0

instance (w : McapWriter) : Decidable (Hollow w) := by
  unfold Hollow
  infer_instance

/-- No `Write` while a group waits over a part without a payload byte, and no `Close` that calls
`CloseCurrentPart` on a hollow part. -/
def KeepsParts (cfg : WriterConfig) (env : Env) (w : McapWriter) : Op → Prop
  | .write _ _ => w.closed = false → w.staging.startStatus ≠ .waiting →
      w.staging.candidateIds ≠ [] → w.partBytes ≠ 0
  | .close => w.closed = false → ¬Hollow (w.settle cfg env).state
  | _ => True

instance (cfg : WriterConfig) (env : Env) (w : McapWriter) (op : Op) :
    Decidable (KeepsParts cfg env w op) := by
  cases op <;> unfold KeepsParts <;> infer_instance

/-- Where a take has nothing staged to write, the part that `Close` finds is the one it was
called on. -/
theorem keepsParts_close_iff {cfg : WriterConfig} {env : Env} {w : McapWriter}
    (hidle : w.staging.startStatus = .ready → w.staging.staged = []) :
    KeepsParts cfg env w .close ↔ (w.closed = false → ¬Hollow w) := by
  have hsame : Hollow (w.settle cfg env).state ↔ Hollow w := by
    unfold settle
    split
    next hready =>
      have hnothing : w.flushStaged cfg env false false = ⟨w, false⟩ := if_pos (hidle hready)
      rw [hnothing]
    · exact Iff.rfl
  exact imp_congr_right fun _ => not_congr hsame

/-- The part that a closed writer closed last is complete or holds no record. -/
def LastKept (w : McapWriter) : Prop :=
  w.closed = true → w.writerOpen = true → HasCompleted w.partIndex w.log ∨
    ∀ event ∈ eventsOf w.partIndex w.log, event.isRecord = false

/-- What holds between two calls. -/
structure Accounted (env : Env) (w : McapWriter) : Prop where
  steady : Steady w
  numbered : Numbered env w
  last : LastKept w

section Runs

variable {cfg : WriterConfig} {env : Env} {w w' : McapWriter}

theorem payloadBytes_le_of_mem {event : Event} {events : List Event} (hmem : event ∈ events) :
    event.payloadBytes ≤ payloadBytes events := by
  obtain ⟨before, after, rfl⟩ := List.append_of_mem hmem
  rw [payloadBytes_append, payloadBytes]
  omega

/-- Without payload bytes every record of the part is empty. -/
theorem Recording.payloadBytes_eq_zero (hrecording : Recording w) (hbytes : w.partBytes = 0) :
    ∀ event ∈ eventsOf w.partIndex w.log, event.payloadBytes = 0 := by
  obtain ⟨body, ⟨opening, reason, point, hevents, hopening, -⟩, -, hcount⟩ := hrecording.story
  intro event hmem
  rw [hevents] at hmem
  rcases List.mem_append.mp hmem with hleft | hright
  · have hkind := hopening event hleft
    cases event with
    | record part channel msg => cases hkind
    | _ => rfl
  · rcases List.mem_cons.mp hright with rfl | hbody
    · rfl
    · have hle := payloadBytes_le_of_mem hbody
      omega

theorem Live.finish_accounted (hlive : Live w) (hnone : w.staging.staged = [])
    (hnumbered : Numbered env w) (hsolid : ¬Hollow w) : Accounted env (w.finish cfg env) := by
  suffices hkept : Numbered env (w.finish cfg env) ∧ LastKept (w.finish cfg env) from
    ⟨hlive.finish hnone, hkept.1, hkept.2⟩
  unfold McapWriter.finish
  dsimp only
  split
  next hwriter =>
    have hrecording : Recording w := hlive.recording hwriter
    have hopen : ({ w with closed := true } : McapWriter).file.isSome = true := hrecording.file
    obtain ⟨events, hlog, hplain, hcompletes⟩ :=
      @closeCurrentPart_appends cfg env _ hopen
    obtain ⟨-, hindex, hstill, -⟩ := @closeCurrentPart_beside cfg env _ hopen
    generalize closeCurrentPart cfg env { w with closed := true } = closed at *
    refine ⟨hnumbered.append hlog (fun event hevent => (hplain event hevent).1) hindex hstill,
      fun _ _ => ?_⟩
    dsimp only
    rw [hlog, hindex]
    cases hdrops : dropsPart cfg { w with closed := true } with
    | false =>
        obtain ⟨told, result, hmem⟩ := hcompletes hdrops
        exact Or.inl ⟨told, result, List.mem_append_right _ hmem⟩
    | true =>
        refine Or.inr fun event hevent => ?_
        simp only [dropsPart, Bool.and_eq_true, decide_eq_true_eq, Bool.not_eq_true'] at hdrops
        have hbefore : ∀ event ∈ eventsOf w.partIndex w.log, event.isRecord = false := by
          intro record hmem
          by_contra hrecord
          refine hsolid ⟨?_, hdrops.2, ⟨record, hmem, by simpa using hrecord⟩,
            hrecording.payloadBytes_eq_zero hdrops.1.2⟩
          rcases Bool.or_eq_true_iff.mp hdrops.1.1 with hlater | hpending
          · exact Or.inl (of_decide_eq_true hlater)
          · simp only [pendingStart, Bool.and_eq_true, bne_iff_ne] at hpending
            exact Or.inr hpending.2
        rw [eventsOf, List.filter_append] at hevent
        rcases List.mem_append.mp hevent with hleft | hright
        · exact hbefore event hleft
        · exact (hplain event (List.mem_of_mem_filter hright)).2
  next hwriter =>
    exact ⟨⟨hnumbered.completes, hnumbered.gapless⟩, fun _ hopen => absurd hopen hwriter⟩

theorem Accounted.of_view (haccounted : Accounted env w) (hsteady : Steady w')
    (hview : w'.view = w.view) : Accounted env w' := by
  have hlog : w'.log = w.log := congrArg PartsView.log hview
  have hwriter : w'.writerOpen = w.writerOpen := congrArg PartsView.writerOpen hview
  have hclosed : w'.closed = w.closed := congrArg PartsView.closed hview
  have hindex : w'.partIndex = w.partIndex := congrArg PartsView.partIndex hview
  refine ⟨hsteady, haccounted.numbered.of_view hview, ?_⟩
  rw [LastKept, hlog, hwriter, hclosed, hindex]
  exact haccounted.last

theorem accounted_of_live (hlive : Live w) (hnumbered : Numbered env w) : Accounted env w :=
  ⟨hlive.steady, hnumbered, fun hclosed => by rw [hlive.2] at hclosed; cases hclosed⟩

/-- Nothing of a closed writer's parts changes. -/
theorem Steady.flushDue_view (hsteady : Steady w) (hclosed : w.closed = true) :
    (w.flushDue cfg env).state.view = w.view := by
  have hnone := hsteady.staged hclosed
  unfold McapWriter.flushDue
  split
  · rfl
  · split
    · rfl
    · split
      · rfl
      · have hquiet : w.tock.flushStaged cfg env false true = ⟨w.tock, false⟩ := if_pos hnone
        rw [hquiet]
        rfl

theorem Accounted.write (haccounted : Accounted env w) {channel : Channel} {msg : RecordedMessage}
    (hop : KeepsParts cfg env w (.write channel msg)) :
    Accounted env (w.write cfg env channel msg).state := by
  unfold McapWriter.write
  split
  · exact haccounted
  next hgoes =>
    have hclosed : w.closed = false := by
      simp only [Bool.or_eq_true, not_or] at hgoes
      exact Bool.eq_false_iff.mpr hgoes.1.1
    have hlive := haccounted.steady.live hclosed
    have hbacked : Backed False w := fun hstarted hgroup => Or.inr (hop hclosed hstarted hgroup)
    split
    · obtain ⟨hlive', hnumbered⟩ := @KeptByCuts.writeContinuation cfg env _ _
        numbered_keptByCuts _ _ channel msg ⟨hlive, haccounted.numbered⟩ hbacked
      exact accounted_of_live hlive' hnumbered
    · exact accounted_of_live (hlive.writeRecord channel msg)
        (haccounted.numbered.writeRecord hlive channel msg)

theorem Accounted.flushDue (haccounted : Accounted env w) :
    Accounted env (w.flushDue cfg env).state := by
  cases hclosed : w.closed with
  | true =>
      exact haccounted.of_view haccounted.steady.flushDue
        (haccounted.steady.flushDue_view hclosed)
  | false =>
      obtain ⟨hlive, hnumbered⟩ := @KeptByCuts.flushDue cfg env _ _ numbered_keptByCuts _
        ⟨haccounted.steady.live hclosed, haccounted.numbered⟩
      exact accounted_of_live hlive hnumbered

theorem Accounted.setMetadata (haccounted : Accounted env w) (nonempty : Bool) :
    Accounted env (w.setMetadata cfg env nonempty) := by
  have hsteady : Steady (w.setMetadata cfg env nonempty) :=
    haccounted.steady.apply (.setMetadata nonempty)
  have hwrites : Writes env { w with hasMeta := nonempty } (w.setMetadata cfg env nonempty) :=
    writes_writeStoredMetadata cfg env { w with hasMeta := nonempty }
  have hnamed : Numbered env { w with hasMeta := nonempty } := haccounted.numbered.of_view rfl
  refine ⟨hsteady, hwrites.numbered hnamed, fun hclosed hwriter => ?_⟩
  obtain ⟨events, hwrote⟩ := hwrites
  rw [hwrote.state] at hclosed hwriter ⊢
  rcases haccounted.last hclosed hwriter with hcompleted | hnone
  · exact Or.inl (hcompleted.append events)
  · refine Or.inr fun event hevent => ?_
    rw [eventsOf, List.filter_append] at hevent
    rcases List.mem_append.mp hevent with hleft | hright
    · exact hnone event hleft
    · exact (plain_of_isWriting (hwrote.writing event (List.mem_of_mem_filter hright))).2

theorem Accounted.close (haccounted : Accounted env w) (hop : KeepsParts cfg env w .close) :
    Accounted env (w.close cfg env).state := by
  cases hclosed : w.closed with
  | true =>
      have hsame : w.close cfg env = ⟨w, false⟩ := if_pos hclosed
      rw [hsame]
      exact haccounted
  | false =>
      have hlive := haccounted.steady.live hclosed
      have hsettled : Live (w.settle cfg env).state ∧ Numbered env (w.settle cfg env).state := by
        unfold settle
        split
        · exact numbered_keptByCuts.cancel ⟨hlive, haccounted.numbered⟩ false
        · exact ⟨hlive.of_view rfl, haccounted.numbered.of_view rfl⟩
      have hnone : (w.settle cfg env).threw = false →
          (w.settle cfg env).state.staging.staged = [] := by
        unfold settle
        split
        · exact fun hquiet => hlive.flushStaged_staged false hquiet
        · exact fun _ => rfl
      have hsplit : w.close cfg env =
          (w.settle cfg env).andThen fun v => ⟨v.finish cfg env, false⟩ := by
        unfold McapWriter.close
        rw [if_neg (by rw [hclosed]; decide)]
        rfl
      rw [hsplit]
      exact Run.andThen_cases (P := fun r : Run McapWriter => Accounted env r.state)
        (fun _ => accounted_of_live hsettled.1 hsettled.2)
        fun hquiet => hsettled.1.finish_accounted (hnone hquiet) hsettled.2 (hop hclosed)

theorem Accounted.apply (haccounted : Accounted env w) {op : Op} (hop : KeepsParts cfg env w op) :
    Accounted env (w.apply cfg env op).state := by
  cases op with
  | write channel msg => exact haccounted.write hop
  | flushDue => exact haccounted.flushDue
  | armStart target wait =>
      have hview : (w.apply cfg env (.armStart target wait)).state.view = w.view := by
        unfold McapWriter.apply armStart
        dsimp only
        repeat' split
        all_goals rfl
      exact haccounted.of_view (haccounted.steady.apply _) hview
  | setMetadata nonempty => exact haccounted.setMetadata nonempty
  | close => exact haccounted.close hop

theorem construct_accounted : Accounted env (construct cfg env).state := by
  have harm : (arm cfg env {}).state.view = McapWriter.view {} := arm_view
  have hempty : Numbered env ({} : McapWriter) :=
    ⟨fun part ⟨_, _, hmem⟩ => (nomatch hmem), fun _ part hlt => absurd hlt (Nat.not_lt_zero part)⟩
  have harmed : Numbered env (arm cfg env {}).state ∧
      (arm cfg env {}).state.writerOpen = false ∧ (arm cfg env {}).state.closed = false :=
    ⟨hempty.of_view harm, congrArg PartsView.writerOpen harm, congrArg PartsView.closed harm⟩
  refine ⟨construct_steady, ?_, ?_⟩
  · refine Run.andThen_cases (P := fun r : Run McapWriter => Numbered env r.state)
      (fun _ => harmed.1) fun _ => harmed.1.openPart harmed.2.1
  · have hclosed : (construct cfg env).state.closed = false := by
      refine Run.andThen_cases (P := fun r : Run McapWriter => r.state.closed = false)
        (fun _ => harmed.2.2) fun _ => ?_
      have hbeside : ((arm cfg env {}).state.openPart cfg env).state.closed =
          (arm cfg env {}).state.closed := openPart_beside.closed
      exact hbeside.trans harmed.2.2
    intro hyes
    rw [hclosed] at hyes
    cases hyes

theorem run_accounted {ops : List Op}
    (hops : Along (fun w op => (w.apply cfg env op).state) (KeepsParts cfg env)
      (construct cfg env).state ops) : Accounted env (run cfg env ops) := by
  unfold run
  split
  · exact construct_accounted
  · exact run_invariant_along (fun _ _ haccounted hop => haccounted.apply hop)
      construct_accounted hops

/-- A removed part was dropped, by a writer that has closed it last. -/
theorem Accounted.removed (haccounted : Accounted env w) {part : ℕ}
    (hremoved : Removed part w.log) :
    ∀ event ∈ eventsOf part w.log, event.isRecord = false := by
  have hdropped : Dropped part (eventsOf part w.log) ∧ (w.writerOpen = true →
      part = w.partIndex → w.closed = true) := by
    refine ⟨?_, fun hwriter hindex => ?_⟩
    · rcases haccounted.steady.sound.story part with (hunopened | hkept | hdropped) |
        ⟨-, -, body, hopen⟩
      · exact absurd (stays_of_unopened hunopened) hremoved.not_stays
      · exact absurd hkept.stays hremoved.not_stays
      · exact hdropped
      · have hstays := hopen.stays (List.forall_mem_nil _)
        rw [List.append_nil] at hstays
        exact absurd hstays hremoved.not_stays
    · rcases haccounted.steady.sound with ⟨hrecording, -⟩ | ⟨-, hnone | hclosed⟩
      · obtain ⟨body, hopen, -⟩ := hrecording.story
        have hstays := hopen.stays (List.forall_mem_nil _)
        rw [List.append_nil, ← hindex] at hstays
        exact absurd hstays hremoved.not_stays
      · rw [hwriter] at hnone
        cases hnone
      · exact hclosed
  rcases haccounted.numbered.completes part hdropped.1.hasOpened with
    hcompleted | ⟨hindex, hwriter⟩
  · exact absurd hcompleted hdropped.1.not_hasCompleted
  · rcases haccounted.last (hdropped.2 hwriter hindex) hwriter with hcompleted | hnone
    · rw [← hindex] at hcompleted
      exact absurd hcompleted hdropped.1.not_hasCompleted
    · rw [hindex]
      exact hnone

theorem Accounted.contiguous (haccounted : Accounted env w) (hnames : env.FreesNames) :
    ∃ count, ∀ part, HasCompleted part w.log ↔ part < count := by
  have hlast : ∀ part, HasCompleted part w.log → part ≤ w.partIndex := by
    rintro part ⟨told, result, hmem⟩
    rcases haccounted.steady.sound with ⟨hrecording, -⟩ | ⟨hfinished, -⟩
    · exact hrecording.filed.future _ hmem
    · exact hfinished.filed.future _ hmem
  by_cases hcurrent : HasCompleted w.partIndex w.log
  · refine ⟨w.partIndex + 1, fun part => ⟨fun hpart => Nat.lt_succ_of_le (hlast part hpart),
      fun hlt => ?_⟩⟩
    rcases Nat.lt_succ_iff_lt_or_eq.mp hlt with hbefore | rfl
    · exact haccounted.numbered.gapless hnames part hbefore
    · exact hcurrent
  · refine ⟨w.partIndex, fun part => ⟨fun hpart => ?_, haccounted.numbered.gapless hnames part⟩⟩
    refine Nat.lt_of_le_of_ne (hlast part hpart) fun hindex => hcurrent ?_
    rwa [hindex] at hpart

end Runs

/-- For every behaviour of storage and every sequence of calls in which no group waits over a
part without a payload byte and no hollow part is closed: a part whose file was removed held
no record, and where no name is ever taken the kept parts are numbered without a gap. -/
theorem run_keeps_recorded (cfg : WriterConfig) (env : Env) (ops : List Op)
    (hops : Along (fun w op => (w.apply cfg env op).state) (KeepsParts cfg env)
      (construct cfg env).state ops) :
    (∀ part, Removed part (run cfg env ops).log →
      ∀ event ∈ eventsOf part (run cfg env ops).log, event.isRecord = false) ∧
    (env.FreesNames → ∃ count, ∀ part, HasCompleted part (run cfg env ops).log ↔ part < count) := by
  have haccounted : Accounted env (run cfg env ops) := run_accounted hops
  exact ⟨fun part hremoved => haccounted.removed hremoved, fun hnames =>
    haccounted.contiguous hnames⟩

/-! ## Records without a payload -/

/-- A writer without a bound in time. -/
theorem noDuration : (0 : ℤ) < 0 → false = true := by decide

/-- A take without cameras that rotates at every payload byte. -/
def bytewise : WriterConfig where
  maxBytes := 1
  duration_of_pos := noDuration

/-- Storage that does what it is asked. -/
def obedient : Env where
  io _ call :=
    match call with
    | .append _ size => { accepted := size }
    | .header => { accepted := 32 }
    | _ => {}
  made _ := true
  now _ := 0
  writes _ := []
  ok _ := true
  random _ := true
  cipher _ := true

/-- Two messages with one payload byte each: both parts are kept. -/
theorem run_keeps_recorded_bytes :
    (∀ part, Removed part
      (run bytewise obedient [.write {} { payload := [7] }, .write {} { payload := [8] },
        .close]).log →
      ∀ event ∈ eventsOf part (run bytewise obedient [.write {} { payload := [7] },
        .write {} { payload := [8] }, .close]).log, event.isRecord = false) ∧
    (obedient.FreesNames → ∃ count, ∀ part, HasCompleted part
      (run bytewise obedient [.write {} { payload := [7] }, .write {} { payload := [8] },
        .close]).log ↔ part < count) :=
  run_keeps_recorded bytewise obedient
    [.write {} { payload := [7] }, .write {} { payload := [8] }, .close] (by decide +kernel)

/-- The message without a payload that opens the second part is the only one in it, and goes
with its file. -/
theorem not_run_keeps_recorded : ¬∀ cfg env ops part, Removed part (run cfg env ops).log →
    ∀ event ∈ eventsOf part (run cfg env ops).log, event.isRecord = false := by
  intro hclaim
  let ops : List Op := [.write {} { payload := [7] }, .write {} {}, .close]
  have hlost := hclaim bytewise obedient ops 1
    ⟨(run bytewise obedient ops).log.take 12, {}, (run bytewise obedient ops).log.drop 13,
      by decide +kernel, .initial, {}, by decide +kernel⟩
  exact absurd hlost (by decide +kernel)

end McapWriter

end VisioSchema.Mcap

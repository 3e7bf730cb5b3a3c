import VisioSchema.Mcap.FileWrites

/-!
# How parts open and close

What `OpenPart`, `CloseCurrentPart` and `Roll` do to the log, to the outcome of the part and to
the file: one statement for each function, for every behaviour of storage.

Three structures say what such a function did.  `Handled` is for calls of storage around a file
that is not open, and composes (`Handled.trans`); `Preparing` says of their events that they
begin nothing; `FileClosed` is for the close of a file that was.  The loop of `OpenPart` has a
rule of its own (`openLoop_rule`), so that no other proof does an induction over the tries.
`Beside` says what all of this leaves alone, namely the take.
-/

namespace VisioSchema.Mcap

open VisioSchema.Library

namespace McapWriter

/-! ## Files that are opened or given up -/

/-- From `w` to `w'` a file was opened or given up, in the steps `events`. -/
structure Handled (events : List Event) (w w' : McapWriter) : Prop where
  state : w' =
    { w with
      log := w.log ++ events
      file := w'.file
      tick := w'.tick
      dropFailures := w'.dropFailures }
  part : ∀ event ∈ events, event.part = w.partIndex
  opening : ∀ event ∈ events, event.isOpening = true

section Handled

variable {w w' w'' : McapWriter}

theorem handled_nil
    (hstate : w' =
      { w with file := w'.file, tick := w'.tick, dropFailures := w'.dropFailures }) :
    Handled [] w w' := ⟨by simpa using hstate, by simp, by simp⟩

theorem handled_step {event : Event} (hpart : event.part = w.partIndex)
    (hopening : event.isOpening = true)
    (hstate : w' =
      { w with
        log := w.log ++ [event]
        file := w'.file
        tick := w'.tick
        dropFailures := w'.dropFailures }) : Handled [event] w w' :=
  ⟨hstate, by simpa using hpart, by simpa using hopening⟩

theorem Handled.trans {first second : List Event} (hfirst : Handled first w w')
    (hsecond : Handled second w' w'') : Handled (first ++ second) w w'' where
  state := by rw [hsecond.state, hfirst.state, ← List.append_assoc]
  part := by
    intro event hevent
    have hindex : w'.partIndex = w.partIndex := by rw [hfirst.state]
    rcases List.mem_append.mp hevent with hleft | hright
    · exact hfirst.part event hleft
    · exact (hsecond.part event hright).trans hindex
  opening := by
    intro event hevent
    rcases List.mem_append.mp hevent with hleft | hright
    · exact hfirst.opening event hleft
    · exact hsecond.opening event hright

end Handled

section Opening

variable (cfg : WriterConfig) (env : Env) (w : McapWriter)

theorem handled_storage {call : StorageCall} (hopening : (w.next env call).isOpening = true) :
    Handled [w.next env call] w (w.storage env call) := handled_step rfl hopening rfl

/-- The removal of a file: one `Remove`, and where that did not fail and is to last, one
`SyncParent`. -/
theorem removeDurably_handled (sync : Bool) :
    ∃ removed rest, Handled (.called w.partIndex .remove removed :: rest) w
        (w.removeDurably env sync).2 ∧
      (rest = [] ∨ ∃ synced, rest = [.called w.partIndex .syncRemoval synced]) ∧
      (w.removeDurably env sync).2.file = w.file := by
  have hremove : Handled [w.next env .remove] w (w.storage env .remove) :=
    handled_storage env w rfl
  unfold removeDurably
  dsimp only
  split
  · exact ⟨_, [], hremove, Or.inl rfl, rfl⟩
  · have hsync : Handled [(w.storage env .remove).next env .syncRemoval] (w.storage env .remove)
        ((w.storage env .remove).storage env .syncRemoval) :=
      handled_storage env (w.storage env .remove) rfl
    exact ⟨_, _, hremove.trans hsync, Or.inr ⟨_, rfl⟩, rfl⟩

/-- What goes on before a file is open, or is gone: calls that begin nothing, and no end
but one with `error`. -/
structure Preparing (error : ℕ) (events : List Event) : Prop where
  calls : ∀ event ∈ events, event.isCall = true
  begins : ∀ event ∈ events, event.begins = false
  ends : ∀ event ∈ events, event.ends = true → endsRecording error = true

theorem preparing_nil (error : ℕ) : Preparing error [] := ⟨by simp, by simp, by simp⟩

theorem preparing_singleton {error : ℕ} {event : Event} (hcall : event.isCall = true)
    (hbegins : event.begins = false) (hends : event.ends = true → endsRecording error = true) :
    Preparing error [event] := ⟨by simpa using hcall, by simpa using hbegins, by simpa using hends⟩

theorem preparing_abandon {call : StorageCall} (habandons : call.abandons = true) (error part : ℕ)
    (result : IoResult) : Preparing error [.called part call result] := by
  cases call <;>
    first
    | exact preparing_singleton rfl rfl (by simp [Event.ends, habandons])
    | cases habandons

theorem Preparing.append {error : ℕ} {first second : List Event} (hfirst : Preparing error first)
    (hsecond : Preparing error second) : Preparing error (first ++ second) where
  calls := List.forall_mem_append.mpr ⟨hfirst.calls, hsecond.calls⟩
  begins := List.forall_mem_append.mpr ⟨hfirst.begins, hsecond.begins⟩
  ends := List.forall_mem_append.mpr ⟨hfirst.ends, hsecond.ends⟩

theorem dropUnopenedPart_handled (last : Bool) (error : ℕ) :
    ∃ events, Handled events w (w.dropUnopenedPart env last).2 ∧ Preparing error events ∧
      (w.dropUnopenedPart env last).2.file = w.file := by
  obtain ⟨removed, rest, hhandled, hrest, hfile⟩ := removeDurably_handled env w last
  refine ⟨.called w.partIndex .remove removed :: rest, ?_, ?_, ?_⟩
  · unfold dropUnopenedPart
    dsimp only
    split
    · exact hhandled
    · have hnoted : Handled [] (w.removeDurably env last).2
          (w.removeDurably env last).2.noteDropFailure := handled_nil rfl
      have hcount := hhandled.trans hnoted
      rwa [List.append_nil] at hcount
  · rcases hrest with rfl | ⟨synced, rfl⟩
    · exact preparing_abandon rfl ..
    · exact (preparing_abandon rfl ..).append (preparing_abandon rfl ..)
  · unfold dropUnopenedPart
    dsimp only
    split <;> exact hfile

theorem discard_handled (hopen : w.file.isSome = true) (error : ℕ) :
    ∃ events, Handled events w (w.discard env) ∧ Preparing error events ∧
      (w.discard env).file = none := by
  have hdiscard : w.discard env = { w.storage env .discard with file := none } := by
    obtain ⟨file, hfile⟩ := Option.isSome_iff_exists.mp hopen
    simp [discard, hfile]
  rw [hdiscard]
  exact ⟨[w.next env .discard], handled_step rfl rfl rfl,
    preparing_abandon rfl .., rfl⟩

theorem beginVrec_handled :
    ∃ events, Handled events w (w.beginVrec env).2 ∧
      Preparing (w.beginVrec env).1.error events ∧
      (w.beginVrec env).2.file.isSome = w.file.isSome ∧
      (env.Healthy → (w.beginVrec env).1.error = 0) := by
  have htock : Handled [] w w.tock := handled_nil rfl
  unfold beginVrec
  split
  next hrandom =>
    have hheader : Handled [w.tock.next env .header] w (w.tock.storage env .header) :=
      htock.trans (handled_storage env w.tock rfl)
    dsimp only
    split
    next hfailed =>
      refine ⟨_, hheader, preparing_singleton rfl rfl fun hends => ?_, rfl, ?_⟩
      · have herror : endsRecording (w.tock.answer env .header).error = true := hends
        rwa [explained_of_error (endsRecording_cases herror).1]
      · intro henv
        simp [answer, henv.io, henv.header] at hfailed
    next hwrote =>
      refine ⟨_, (hheader.trans (handled_nil rfl)).trans (handled_nil rfl), ?_, Option.isSome_map,
        fun henv => by rw [henv.cipher]; rfl⟩
      rw [List.append_nil, List.append_nil]
      refine preparing_singleton rfl rfl fun hends => ?_
      have herror : endsRecording (w.tock.answer env .header).error = true := hends
      exact absurd (Or.inl (endsRecording_cases herror).1) hwrote
  next hrandom =>
    exact ⟨[], htock, preparing_nil _, rfl, fun henv => absurd (henv.random _) hrandom⟩

theorem stampFile_handled :
    Handled [] w (w.stampFile env) ∧ (w.stampFile env).file.isSome = w.file.isSome :=
  ⟨handled_nil rfl, Option.isSome_map⟩

/-- `CloexecFileWriter::open`: a `Create`, and what is made of it. -/
theorem openFile_handled :
    ∃ events, Handled (.called w.partIndex .create (w.createFailure env) :: events) w
        (w.openFile cfg env).2 ∧
      Preparing (w.openFile cfg env).1.failure.error events ∧
      (endsRecording (w.createFailure env).error = true →
        (w.openFile cfg env).1.failure = w.createFailure env) ∧
      ((w.openFile cfg env).2.file.isSome = true ↔ (w.openFile cfg env).1.failure.error = 0) ∧
      ((w.openFile cfg env).1.created = env.made w.tick) ∧
      (env.Healthy → (w.openFile cfg env).1.failure.error = 0) := by
  have hcreate : Handled [.called w.partIndex .create (w.createFailure env)] w (w.create env) :=
    handled_step rfl rfl rfl
  unfold openFile
  split
  next hmade =>
    have hnever : endsRecording (w.createFailure env).error ≠ true := by
      rw [createFailure, if_pos hmade]
      decide
    obtain ⟨hstamp, hsome⟩ := stampFile_handled env (w.create env)
    have hopen : (w.create env).file.isSome = true := by simp [create, hmade]
    rw [hopen] at hsome
    have hmake := hcreate.trans hstamp
    generalize (w.create env).stampFile env = made at *
    dsimp only
    split
    · obtain ⟨events, hvrec, hpreparing, hfile, hhealthy⟩ := beginVrec_handled env made
      rw [hsome] at hfile
      split
      next hfailed =>
        obtain ⟨more, hdiscard, hmore, hnone⟩ :=
          discard_handled env (made.beginVrec env).2 hfile (made.beginVrec env).1.error
        refine ⟨events ++ more, hmake.trans (hvrec.trans hdiscard), hpreparing.append hmore,
          fun hends => absurd hends hnever, ?_, hmade.symm, hhealthy⟩
        simp [hnone, hfailed]
      next hok =>
        have hzero : (made.beginVrec env).1.error = 0 := not_not.mp hok
        rw [hzero] at hpreparing
        exact ⟨events, hmake.trans hvrec, hpreparing, fun hends => absurd hends hnever,
          by simp [hfile], hmade.symm, fun _ => rfl⟩
    · exact ⟨[], hmake, preparing_nil _, fun hends => absurd hends hnever, by simp [hsome],
        hmade.symm, fun _ => rfl⟩
  next hmade =>
    have hfailure : (w.createFailure env).error ≠ 0 := by
      rw [createFailure, if_neg hmade]
      exact explained_error_ne _
    refine ⟨[], hcreate, preparing_nil _, fun _ => rfl, ?_, (Bool.eq_false_iff.mpr hmade).symm,
      fun henv => absurd (henv.made _) hmade⟩
    simp [create, hmade, hfailure]

/-- An attempt that failed: its file, if one was made, is given up. -/
theorem refuseAttempt_handled (last : Bool) (opening : PartOpening) :
    (w.refuseAttempt env last opening).1.failure = opening.failure ∧
      (w.refuseAttempt env last opening).2.file = w.file ∧
      ∃ events, Preparing opening.failure.error events ∧
        Handled (events ++ [.attempted w.partIndex (w.refuseAttempt env last opening).1.costs]) w
          (w.refuseAttempt env last opening).2 := by
  unfold refuseAttempt
  dsimp only
  split
  · obtain ⟨events, hdrop, hpreparing, hfile⟩ := dropUnopenedPart_handled env w
      (last || endsRecording opening.failure.error) opening.failure.error
    refine ⟨rfl, hfile, events, hpreparing, hdrop.trans (handled_step ?_ rfl ?_)⟩
    · rw [hdrop.state]
      rfl
    · rw [hdrop.state]
      rfl
  · exact ⟨rfl, rfl, [], preparing_nil _, handled_step rfl rfl rfl⟩

/-- A failed try at opening a part leaves no file open. -/
theorem tryOpenPart_failed (last : Bool)
    (hfailed : (w.tryOpenPart cfg env last).1.failure.error ≠ 0) :
    (w.tryOpenPart cfg env last).2.threw = false ∧
      (w.tryOpenPart cfg env last).2.state.file = none ∧
      ∃ made events, Preparing (w.tryOpenPart cfg env last).1.failure.error events ∧
        (endsRecording made.error = true →
          endsRecording (w.tryOpenPart cfg env last).1.failure.error = true) ∧
        Handled (.called w.partIndex .create made :: events ++
          [.attempted w.partIndex (w.tryOpenPart cfg env last).1.costs])
          (w.beginAttempt cfg env) (w.tryOpenPart cfg env last).2.state := by
  obtain ⟨events, hhandled, hpreparing, hends, hopen, -, -⟩ :=
    openFile_handled cfg env (w.beginAttempt cfg env)
  unfold tryOpenPart at hfailed ⊢
  dsimp only at hfailed ⊢
  split at hfailed
  next herror =>
    rw [if_pos herror]
    obtain ⟨hfailure, hfile, more, hmore, hrefused⟩ := refuseAttempt_handled env
      ((w.beginAttempt cfg env).openFile cfg env).2 last
      ((w.beginAttempt cfg env).openFile cfg env).1
    have hindex : ((w.beginAttempt cfg env).openFile cfg env).2.partIndex = w.partIndex := by
      rw [hhandled.state]
      rfl
    rw [hindex] at hrefused
    dsimp only
    rw [hfailure]
    refine ⟨rfl, ?_, (w.beginAttempt cfg env).createFailure env, events ++ more,
      hpreparing.append hmore, fun hmade => ?_, ?_⟩
    · rw [hfile]
      exact Option.not_isSome_iff_eq_none.mp fun hsome => herror (hopen.mp hsome)
    · rw [hends hmade]
      exact hmade
    · have hboth := hhandled.trans hrefused
      rwa [List.cons_append, ← List.append_assoc] at hboth
  next hok => exact absurd rfl hfailed

/-- A try that opened a part: its file is open, and the part starts. -/
theorem tryOpenPart_opened (last : Bool) (hok : (w.tryOpenPart cfg env last).1.failure.error = 0) :
    ∃ opened made events, opened.file.isSome = true ∧ Preparing 0 events ∧
      endsRecording made.error = false ∧
      Handled (.called w.partIndex .create made :: events) (w.beginAttempt cfg env) opened ∧
      (w.tryOpenPart cfg env last).2 = opened.startPart cfg env := by
  obtain ⟨events, hhandled, hpreparing, hends, hopen, -, -⟩ :=
    openFile_handled cfg env (w.beginAttempt cfg env)
  have hrefused := (refuseAttempt_handled env ((w.beginAttempt cfg env).openFile cfg env).2 last
    ((w.beginAttempt cfg env).openFile cfg env).1).1
  unfold tryOpenPart at hok ⊢
  dsimp only at hok ⊢
  split at hok
  next herror =>
    rw [hrefused] at hok
    exact absurd hok herror
  next herror =>
    rw [if_neg herror]
    have hzero := not_not.mp herror
    rw [hzero] at hpreparing
    refine ⟨_, _, events, hopen.mpr hzero, hpreparing, Bool.eq_false_iff.mpr fun hmade => ?_,
      hhandled, rfl⟩
    have hfailure := hends hmade
    rw [hfailure] at hzero
    exact (endsRecording_cases hmade).1 hzero

/-- Where nothing fails, the first try opens the part. -/
theorem tryOpenPart_healthy (henv : env.Healthy) (last : Bool) :
    (w.tryOpenPart cfg env last).1.failure.error = 0 := by
  obtain ⟨events, -, -, -, -, -, hhealthy⟩ := openFile_handled cfg env (w.beginAttempt cfg env)
  unfold tryOpenPart
  dsimp only
  rw [if_neg (not_not_intro (hhealthy henv))]

/-- The library has been handed the file. -/
def announce : McapWriter :=
  { w with
    writerOpen := true
    log := w.log ++ [.opened w.partIndex w.staging.cutReason w.staging.candidatePoint] }

theorem writes_writeStoredMetadata : Writes env w (w.writeStoredMetadata cfg env) := by
  unfold writeStoredMetadata
  split
  · exact writes_libraryWrites cfg env w
  · exact writes_refl env w

theorem writes_startPart : Writes env w.announce (w.startPart cfg env).state := by
  have hstart := (writes_libraryWrites cfg env w.announce).trans
    (writes_writeStoredMetadata cfg env _)
  unfold startPart writeRotationMetadata
  split
  · exact hstart.trans (writes_libraryWrites cfg env _)
  · exact hstart

theorem startPart_threw (haccepts : env.Accepts) : (w.startPart cfg env).threw = false := by
  unfold startPart writeRotationMetadata
  split
  · simp [writeMetadata, haccepts _]
  · rfl

end Opening

/-! ## Closing -/

section Closing

variable (cfg : WriterConfig) (env : Env) (w : McapWriter)

theorem report_eq (call : StorageCall) (hreports : Reports call) :
    w.report env call =
      { w.storage env call with outcome := w.outcome.absorb [w.next env call] } := by
  have hfailure := hreports w.partIndex (w.answer env call)
  rw [PartOutcome.absorb_singleton]
  unfold next report
  rw [hfailure]
  split <;> rfl

/-- From `w` to `w'` the file of the part was closed, with `events` before. -/
structure FileClosed (events : List Event) (checkpointed closed : IoResult) (w w' : McapWriter) :
    Prop where
  state : w' =
    { w with
      log := w.log ++ (events ++ [.called w.partIndex .checkpoint checkpointed,
        .called w.partIndex .close closed])
      outcome := (w.outcome.absorb (events ++ [.called w.partIndex .checkpoint checkpointed,
        .called w.partIndex .close closed])).closed closed.accepted
      file := none
      tick := w'.tick
      physicalClosed := w'.physicalClosed }
  part : ∀ event ∈ events, event.part = w.partIndex
  writing : ∀ event ∈ events, event.isWriting = true
  orderly : Orderly w.outcome.refused events

theorem closeWriter_closes (hopen : w.file.isSome = true) :
    ∃ events checkpointed closed,
      FileClosed events checkpointed closed w (w.closeWriter cfg env) ∧
      (env.Healthy → failures events = [] ∧ checkpointed.error = 0 ∧ closed.error = 0) := by
  obtain ⟨events, hwrote⟩ := writes_libraryWrites cfg env w
  have hsome : (w.libraryWrites cfg env).file.isNone = false := by
    rw [← Option.not_isSome, hwrote.file, hopen]
    rfl
  have hindex : (w.libraryWrites cfg env).partIndex = w.partIndex := by rw [hwrote.state]
  have hcheckpoint := report_eq env (w.libraryWrites cfg env) .checkpoint fun _ _ => rfl
  have hclose := report_eq env ((w.libraryWrites cfg env).report env .checkpoint) .close
    fun _ _ => rfl
  refine ⟨events, (w.libraryWrites cfg env).answer env .checkpoint,
    ((w.libraryWrites cfg env).report env .checkpoint).answer env .close, ?_, ?_⟩
  · refine ⟨?_, hwrote.part, hwrote.writing, hwrote.orderly⟩
    have hstate : (w.libraryWrites cfg env).endFile env =
        { ((w.libraryWrites cfg env).report env .checkpoint).report env .close with
          file := none
          outcome := (((w.libraryWrites cfg env).report env .checkpoint).report env
            .close).outcome.closed
            (((w.libraryWrites cfg env).report env .checkpoint).answer env .close).accepted } := by
      unfold endFile
      rw [hsome]
      rfl
    unfold closeWriter
    rw [hstate, hclose, hcheckpoint]
    simp only [storage, next]
    rw [hwrote.state]
    simp only [← PartOutcome.absorb_append, List.append_assoc, List.cons_append, List.nil_append]
  · intro henv
    exact ⟨hwrote.healthy henv, henv.io _ _, henv.io _ _⟩

/-- The part is completed: its namespace is synced, and storage is told what it came to. -/
theorem completePart_completes :
    ∃ synced completed,
      w.completePart env =
        { w with
          log := w.log ++ [.called w.partIndex .syncParent synced,
            .called w.partIndex (.completed
              (w.outcome.absorb [.called w.partIndex .syncParent synced]).result) completed]
          outcome :=
            (w.outcome.absorb [.called w.partIndex .syncParent synced]).complete completed
          tick := (w.completePart env).tick } ∧
      (env.Healthy → synced.error = 0 ∧ completed.error = 0) := by
  have hsync := report_eq env w .syncParent fun _ _ => rfl
  refine ⟨w.answer env .syncParent, (w.report env .syncParent).answer env
    (.completed (w.report env .syncParent).outcome.result), ?_,
    fun henv => ⟨henv.io _ _, henv.io _ _⟩⟩
  unfold completePart
  rw [hsync]
  simp only [storage, next, List.append_assoc, List.cons_append, List.nil_append]

/-- The part is dropped: its file is removed. -/
theorem dropPart_removes :
    ∃ removed rest, Handled (.called w.partIndex .remove removed :: rest) w (w.dropPart env) ∧
      (rest = [] ∨ ∃ synced, rest = [.called w.partIndex .syncRemoval synced]) ∧
      (w.dropPart env).file = w.file := by
  obtain ⟨removed, rest, hhandled, hrest, hfile⟩ := removeDurably_handled env w true
  refine ⟨removed, rest, ?_, hrest, ?_⟩
  · unfold dropPart
    dsimp only
    split
    · have hnoted : Handled [] (w.removeDurably env true).2
          (w.removeDurably env true).2.noteDropFailure := handled_nil rfl
      have hcount := hhandled.trans hnoted
      rwa [List.append_nil] at hcount
    · exact hhandled
  · unfold dropPart
    dsimp only
    split <;> exact hfile

end Closing

/-! ## The open loop -/

section Loop

variable {cfg : WriterConfig} {env : Env}

/-- The rule for `OpenPart`: what holds before every try gives what holds at the end.  A try
that is followed by another is not the last, unless it cost nothing. -/
theorem openLoop_rule {P : McapWriter → Prop} {Q : Run McapWriter → Prop}
    (hopened : ∀ w last, P w → (tryOpenPart cfg env w last).1.failure.error = 0 →
      Q (tryOpenPart cfg env w last).2)
    (hretry : ∀ w last, P w → (tryOpenPart cfg env w last).1.failure.error ≠ 0 →
      endsRecording (tryOpenPart cfg env w last).1.failure.error = false →
      (last = true → (tryOpenPart cfg env w last).1.costs = false) →
      P ((tryOpenPart cfg env w last).2.state.retryPart (tryOpenPart cfg env w last).1))
    (hended : ∀ w last, P w → (tryOpenPart cfg env w last).1.failure.error ≠ 0 →
      Q ((tryOpenPart cfg env w last).2.state.endOpening
        (tryOpenPart cfg env w last).1.failure))
    {w : McapWriter} (hw : P w) (attempts skipped : ℕ) :
    Q (w.openLoop cfg env attempts skipped) := by
  induction w, attempts, skipped using openLoop.induct cfg env with
  | case1 w attempts skipped attempt hok =>
      unfold openLoop
      dsimp only
      rw [if_pos hok]
      exact hopened w _ hw hok
  | case2 w attempts skipped attempt r hfailed attempts' skipped' hmay ih =>
      unfold openLoop
      dsimp only
      rw [if_neg hfailed, if_pos hmay]
      simp only [openMayRetry, Bool.and_eq_true, Bool.not_eq_true', decide_eq_true_eq] at hmay
      refine ih (hretry w _ hw hfailed hmay.1.1 fun hlast => ?_)
      have hroom : attempts + attempt.attempts < 4 := hmay.2.1
      have hthird : attempts + 1 = 4 := of_decide_eq_true hlast
      -- the fourth attempt would be the last
      by_contra hcosts
      have hone : attempt.attempts = 1 := if_pos (Bool.not_eq_false _ ▸ hcosts)
      omega
  | case3 w attempts skipped attempt hfailed attempts' skipped' hmay =>
      unfold openLoop
      dsimp only
      rw [if_neg hfailed, if_neg hmay]
      exact hended w _ hw hfailed

end Loop

/-! ## What parts leave alone -/

/-- Parts opened and closed between `w` and `w'` leave the take alone. -/
structure Beside (cfg : WriterConfig) (w w' : McapWriter) : Prop where
  staging : w'.staging = w.staging
  closed : w'.closed = w.closed
  primed : cfg.policy.isSome = true → w'.primed = w.primed

section Beside

variable {cfg : WriterConfig} {env : Env} {w w' w'' : McapWriter}

theorem beside_refl (w : McapWriter) : Beside cfg w w := ⟨rfl, rfl, fun _ => rfl⟩

theorem Beside.trans (hfirst : Beside cfg w w') (hsecond : Beside cfg w' w'') : Beside cfg w w'' :=
  ⟨hsecond.staging.trans hfirst.staging, hsecond.closed.trans hfirst.closed,
    fun hpolicy => (hsecond.primed hpolicy).trans (hfirst.primed hpolicy)⟩

theorem Writes.beside (hwrites : Writes env w w') : Beside cfg w w' := by
  obtain ⟨events, hwrote⟩ := hwrites
  rw [hwrote.state]
  exact ⟨rfl, rfl, fun _ => rfl⟩

theorem Handled.beside {events : List Event} (hhandled : Handled events w w') :
    Beside cfg w w' := by
  rw [hhandled.state]
  exact ⟨rfl, rfl, fun _ => rfl⟩

theorem beginAttempt_beside : Beside cfg w (w.beginAttempt cfg env) :=
  ⟨rfl, rfl, fun hpolicy => by rw [beginAttempt, if_pos hpolicy]⟩

theorem startPart_beside : Beside cfg w (w.startPart cfg env).state :=
  have hannounced : Beside cfg w w.announce := ⟨rfl, rfl, fun _ => rfl⟩
  hannounced.trans (writes_startPart cfg env w).beside

theorem tryOpenPart_beside (last : Bool) : Beside cfg w (w.tryOpenPart cfg env last).2.state := by
  by_cases hok : (w.tryOpenPart cfg env last).1.failure.error = 0
  · obtain ⟨opened, made, events, -, -, -, hhandled, hstart⟩ :=
      tryOpenPart_opened cfg env w last hok
    rw [hstart]
    exact beginAttempt_beside.trans (hhandled.beside.trans startPart_beside)
  · obtain ⟨-, -, made, events, -, -, hhandled⟩ := tryOpenPart_failed cfg env w last hok
    exact beginAttempt_beside.trans hhandled.beside

theorem openPart_beside : Beside cfg w (w.openPart cfg env).state := by
  refine openLoop_rule (P := fun tried => Beside cfg w tried)
    (Q := fun r => Beside cfg w r.state) ?_ ?_ ?_ (beside_refl w) 0 0
  · intro tried last htried _
    exact htried.trans (tryOpenPart_beside last)
  · intro tried last htried _ _ _
    exact htried.trans ((tryOpenPart_beside last).trans ⟨rfl, rfl, fun _ => rfl⟩)
  · intro tried last htried _
    have hlast : Beside cfg tried (tried.tryOpenPart cfg env last).2.state :=
      tryOpenPart_beside last
    refine htried.trans (hlast.trans ?_)
    unfold endOpening
    dsimp only
    split <;> exact ⟨rfl, rfl, fun _ => rfl⟩

theorem closeCurrentPart_beside (hopen : w.file.isSome = true) :
    Beside cfg w (w.closeCurrentPart cfg env) ∧
      (w.closeCurrentPart cfg env).partIndex = w.partIndex ∧
      (w.closeCurrentPart cfg env).writerOpen = w.writerOpen ∧
      (w.closeCurrentPart cfg env).ended = w.ended := by
  obtain ⟨events, checkpointed, closed, hclosed, -⟩ := closeWriter_closes cfg env w hopen
  unfold closeCurrentPart
  dsimp only
  split
  · obtain ⟨removed, rest, hhandled, -, -⟩ := dropPart_removes env (w.closeWriter cfg env)
    rw [hhandled.state, hclosed.state]
    exact ⟨⟨rfl, rfl, fun _ => rfl⟩, rfl, rfl, rfl⟩
  · obtain ⟨synced, completed, hstate, -⟩ := completePart_completes env (w.closeWriter cfg env)
    rw [hstate, hclosed.state]
    exact ⟨⟨rfl, rfl, fun _ => rfl⟩, rfl, rfl, rfl⟩

theorem roll_beside (hopen : w.writerOpen = true → w.file.isSome = true) :
    Beside cfg w (w.roll cfg env).state := by
  unfold roll
  split
  next hwriter =>
    have hclose : Beside cfg w (w.closeCurrentPart cfg env) :=
      (closeCurrentPart_beside (hopen hwriter)).1
    dsimp only
    split
    · exact hclose.trans ⟨rfl, rfl, fun _ => rfl⟩
    · have hnext : Beside cfg (w.closeCurrentPart cfg env)
          { w.closeCurrentPart cfg env with
            writerOpen := false
            partIndex := (w.closeCurrentPart cfg env).partIndex + 1 } :=
        ⟨rfl, rfl, fun _ => rfl⟩
      exact hclose.trans (hnext.trans openPart_beside)
  next => exact beside_refl w

end Beside

end McapWriter

end VisioSchema.Mcap

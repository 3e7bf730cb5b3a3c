import VisioSchema.Library.Runs
import VisioSchema.Mcap.Calls

/-!
# Storage faults

For every behaviour of storage and every sequence of calls: once the recording has ended nothing
new begins, every part that opened is kept and completed once or dropped empty, and the open loop
ends.

The stories of the parts (`Stories.lean`) give all but the last.  Between two calls a writer is
`Steady`: every story is in shape, and a closed writer has nothing staged; so each call keeps it,
and so does a run (`run_steady`).  The open loop is counted separately (`openLoop_tries`): a try
either costs an attempt or skips a name, and both are bounded.
-/

namespace VisioSchema.Mcap

open VisioSchema.Library VisioSchema.Wire VisioSchema.Routing

namespace McapWriter

/-! ## Runs -/

/-- What holds between two calls: every story is in shape, and a closed writer has
nothing staged. -/
structure Steady (w : McapWriter) : Prop where
  sound : Sound w
  staged : w.closed = true → w.staging.staged = []

section Runs

variable {cfg : WriterConfig} {env : Env} {w : McapWriter}

theorem Live.steady (hlive : Live w) : Steady w :=
  ⟨hlive.1, fun hclosed => by rw [hlive.2] at hclosed; cases hclosed⟩

theorem Steady.live (hsteady : Steady w) (hclosed : w.closed = false) : Live w :=
  ⟨hsteady.sound, hclosed⟩

theorem Steady.write (hsteady : Steady w) (channel : Channel) (msg : RecordedMessage) :
    Steady (w.write cfg env channel msg).state := by
  unfold McapWriter.write
  split
  · exact hsteady
  next hgoes =>
    have hclosed : w.closed = false := by
      simp only [Bool.or_eq_true, not_or] at hgoes
      exact Bool.eq_false_iff.mpr hgoes.1.1
    have hlive := hsteady.live hclosed
    split
    · exact (live_keptByCuts.writeContinuation _ channel msg hlive (backed_always w)).steady
    · exact (hlive.writeRecord channel msg).steady

theorem Steady.flushDue (hsteady : Steady w) : Steady (w.flushDue cfg env).state := by
  cases hclosed : w.closed with
  | false => exact (live_keptByCuts.flushDue (hsteady.live hclosed)).steady
  | true =>
      -- a closed writer has nothing staged, so only a start that never came is due
      have hnone := hsteady.staged hclosed
      unfold McapWriter.flushDue rotationDeadline
      rw [if_neg (not_not_intro hnone)]
      split
      · exact hsteady
      next deadline hdeadline =>
        have hwaiting : w.staging.startStatus = .waiting := by
          by_contra hother
          rw [if_neg hother] at hdeadline
          cases hdeadline
        rw [if_pos hwaiting]
        split
        · exact ⟨hsteady.sound.of_view rfl, fun _ => hnone⟩
        · exact ⟨hsteady.sound.of_view rfl, fun _ => rfl⟩

theorem Live.finish (hlive : Live w) (hnone : w.staging.staged = []) :
    Steady (w.finish cfg env) := by
  have hcounted : ∀ v : McapWriter, ∀ bytes, Steady v → Steady { v with bytesWritten := bytes } :=
    fun v bytes hv => ⟨hv.sound.of_view rfl, hv.staged⟩
  unfold McapWriter.finish
  refine hcounted _ _ ?_
  dsimp only
  split
  next hwriter =>
    have hrecording : Recording { w with closed := true } :=
      let hopen := hlive.recording hwriter
      ⟨⟨hopen.filed.past, hopen.filed.future⟩, ⟨hopen.halts.order, hopen.halts.stopped⟩,
        hopen.story, hopen.file, hopen.writer, hopen.ended⟩
    have hbeside : Beside cfg { w with closed := true }
        (McapWriter.closeCurrentPart cfg env { w with closed := true }) :=
      (closeCurrentPart_beside hrecording.file).1
    refine ⟨Or.inr ⟨hrecording.close, Or.inr hbeside.closed⟩, fun _ => ?_⟩
    rw [hbeside.staging]
    exact hnone
  next hwriter =>
    have hfinished : Finished w := by
      rcases hlive.1 with ⟨hrecording, -⟩ | ⟨hfinished, -⟩
      · exact absurd hrecording.writer hwriter
      · exact hfinished
    exact ⟨Or.inr ⟨⟨⟨hfinished.filed.past, hfinished.filed.future⟩,
      ⟨hfinished.halts.order, hfinished.halts.stopped⟩, hfinished.story, hfinished.file⟩,
      Or.inr rfl⟩, fun _ => hnone⟩

theorem Steady.close (hsteady : Steady w) : Steady (w.close cfg env).state := by
  unfold McapWriter.close
  split
  · exact hsteady
  next hclosed =>
    have hlive := hsteady.live (Bool.eq_false_iff.mpr hclosed)
    split
    · refine Run.andThen_cases (P := fun r => Steady r.state) ?_ ?_
      · intro _
        exact (live_keptByCuts.cancel hlive false).steady
      · intro hquiet
        exact (live_keptByCuts.cancel hlive false).finish
          (hlive.flushStaged_staged false hquiet)
    · exact Live.finish (hlive.of_view rfl) rfl

theorem Steady.apply (hsteady : Steady w) (op : Op) : Steady (w.apply cfg env op).state := by
  cases op with
  | write channel msg => exact hsteady.write channel msg
  | flushDue => exact hsteady.flushDue
  | armStart target wait =>
      unfold McapWriter.apply armStart
      dsimp only
      repeat' split
      all_goals first | exact hsteady | exact ⟨hsteady.sound.of_view rfl, hsteady.staged⟩
  | setMetadata nonempty =>
      have hnamed : Sound { w with hasMeta := nonempty } := hsteady.sound.of_view rfl
      change Steady (McapWriter.writeStoredMetadata cfg env { w with hasMeta := nonempty })
      unfold McapWriter.writeStoredMetadata
      split
      · have hbeside : Beside cfg { w with hasMeta := nonempty }
            (McapWriter.libraryWrites cfg env { w with hasMeta := nonempty }) :=
          libraryWrites_beside
        refine ⟨hnamed.libraryWrites, fun hclosed => ?_⟩
        rw [hbeside.closed] at hclosed
        rw [hbeside.staging]
        exact hsteady.staged hclosed
      · exact ⟨hnamed, hsteady.staged⟩
  | close => exact hsteady.close

theorem arm_view : (arm cfg env {}).state.view = McapWriter.view {} := by
  unfold arm
  dsimp only
  repeat' split
  all_goals rfl

/-- A new writer opens its first part. -/
theorem opening_of_view (hview : w.view = McapWriter.view {}) : Opening w := by
  have hlog : w.log = [] := congrArg PartsView.log hview
  have houtcome : w.outcome = {} := congrArg PartsView.outcome hview
  have hfile : w.file.isSome = false := congrArg PartsView.fileOpen hview
  have hindex : w.partIndex = 0 := congrArg PartsView.partIndex hview
  refine ⟨⟨?_, ?_⟩, ⟨?_, ?_⟩, ?_, ?_, congrArg PartsView.writerOpen hview, ?_,
    congrArg PartsView.ended hview⟩
  · rw [hindex]
    exact fun part hlt => absurd hlt (Nat.not_lt_zero part)
  · simp [hlog]
  · simp [hlog]
  · simp [hlog]
  · rw [hlog]
    exact fun event hevent => nomatch hevent
  · simpa using hfile
  · rw [houtcome]

theorem construct_steady : Steady (construct cfg env).state := by
  have harm : (arm cfg env {}).state.view = McapWriter.view {} := arm_view
  have hclosed : ∀ v : McapWriter, v.view = McapWriter.view {} → v.closed = false := fun v hview =>
    congrArg PartsView.closed hview
  refine Run.andThen_cases (P := fun r => Steady r.state) ?_ ?_
  · intro _
    have hopening := opening_of_view harm
    refine Live.steady ⟨Or.inr ⟨⟨hopening.filed, hopening.halts, Or.inl hopening.story,
      hopening.file⟩, Or.inl hopening.writer⟩, hclosed _ harm⟩
  · intro _
    have hbeside : ((arm cfg env {}).state.openPart cfg env).state.closed =
        (arm cfg env {}).state.closed := openPart_beside.closed
    refine Live.steady ⟨?_, hbeside.trans (hclosed _ harm)⟩
    have hopened : Recording ((arm cfg env {}).state.openPart cfg env).state ∨
        (Finished ((arm cfg env {}).state.openPart cfg env).state ∧
          ((arm cfg env {}).state.openPart cfg env).state.writerOpen = false) :=
      (opening_of_view harm).openPart
    rcases hopened with hrecording | hfinished
    · exact Or.inl ⟨hrecording, hbeside.trans (hclosed _ harm)⟩
    · exact Or.inr ⟨hfinished.1, Or.inl hfinished.2⟩

/-- Every state of every run is steady, whatever storage answers. -/
theorem run_steady (ops : List Op) : Steady (run cfg env ops) := by
  unfold run
  split
  · exact construct_steady
  · exact run_invariant (fun v op hv => hv.apply op) construct_steady ops

/-! ## The open loop -/

/-- A try at opening a part that counts as an attempt, or one that skips a name. -/
def isTry (costs : Bool) : Event → Bool
  | .attempted _ costed => costed == costs
  | .opened _ _ _ => costs
  | _ => false

theorem countP_isTry_calls {events : List Event} (hcalls : ∀ event ∈ events, event.isCall = true)
    (costs : Bool) : events.countP (isTry costs) = 0 := by
  refine List.countP_eq_zero.mpr fun event hevent => ?_
  have hcall := hcalls event hevent
  cases event with
  | called part call result => exact Bool.false_ne_true
  | _ => cases hcall

theorem countP_isTry_writing {events : List Event}
    (hwriting : ∀ event ∈ events, event.isWriting = true) (costs : Bool) :
    events.countP (isTry costs) = 0 := by
  refine List.countP_eq_zero.mpr fun event hevent => ?_
  have hkind := hwriting event hevent
  cases event with
  | called part call result => exact Bool.false_ne_true
  | encryptFailed part => exact Bool.false_ne_true
  | _ => cases hkind

theorem tryOpenPart_tries (cfg : WriterConfig) (env : Env) (w : McapWriter) (last : Bool) :
    ∃ events, (w.tryOpenPart cfg env last).2.state.log = w.log ++ events ∧
      (events.countP (isTry true) =
        if (w.tryOpenPart cfg env last).1.failure.error = 0 then 1
        else (w.tryOpenPart cfg env last).1.attempts) ∧
      events.countP (isTry false) =
        if (w.tryOpenPart cfg env last).1.failure.error = 0 then 0
        else (w.tryOpenPart cfg env last).1.skipped := by
  by_cases hok : (w.tryOpenPart cfg env last).1.failure.error = 0
  · obtain ⟨opened, made, events, -, hpreparing, -, hhandled, hstart⟩ :=
      tryOpenPart_opened cfg env w last hok
    obtain ⟨body, hwrote⟩ := writes_startPart cfg env opened
    have hlog : opened.log = w.log ++ .called w.partIndex .create made :: events := by
      rw [hhandled.state]
      rfl
    refine ⟨.called w.partIndex .create made :: events ++
      .opened opened.partIndex opened.staging.cutReason opened.staging.candidatePoint :: body,
      ?_, ?_, ?_⟩
    · rw [hstart, hwrote.state, ← List.append_assoc, ← hlog, List.append_cons]
      rfl
    · rw [if_pos hok, List.countP_append, List.countP_cons, List.countP_cons,
        countP_isTry_calls hpreparing.calls, countP_isTry_writing hwrote.writing]
      rfl
    · rw [if_pos hok, List.countP_append, List.countP_cons, List.countP_cons,
        countP_isTry_calls hpreparing.calls, countP_isTry_writing hwrote.writing]
      rfl
  · obtain ⟨-, -, made, events, hpreparing, -, hhandled⟩ := tryOpenPart_failed cfg env w last hok
    refine ⟨_, by rw [hhandled.state]; rfl, ?_, ?_⟩
    · rw [if_neg hok, List.cons_append, List.countP_cons, List.countP_append,
        countP_isTry_calls hpreparing.calls, List.countP_singleton, PartAttempt.attempts]
      cases (w.tryOpenPart cfg env last).1.costs <;> rfl
    · rw [if_neg hok, List.cons_append, List.countP_cons, List.countP_append,
        countP_isTry_calls hpreparing.calls, List.countP_singleton, PartAttempt.skipped]
      cases (w.tryOpenPart cfg env last).1.costs <;> rfl

theorem attempts_le_one (attempt : PartAttempt) : attempt.attempts ≤ 1 ∧ attempt.skipped ≤ 1 := by
  unfold PartAttempt.attempts PartAttempt.skipped
  cases attempt.costs <;> decide

/-- The loop that opens one part ends, after at most four tries that cost an attempt and
seventeen that skip a name. -/
theorem openLoop_tries (cfg : WriterConfig) (env : Env) (w : McapWriter) (attempts skipped : ℕ)
    (hattempts : attempts < 4) (hskipped : skipped ≤ 16) :
    ∃ events, (w.openLoop cfg env attempts skipped).state.log = w.log ++ events ∧
      attempts + events.countP (isTry true) ≤ 4 ∧ skipped + events.countP (isTry false) ≤ 17 := by
  induction w, attempts, skipped using openLoop.induct cfg env with
  | case1 w attempts skipped attempt hok =>
      -- This attempt opens the part.
      obtain ⟨events, hlog, hcost, hskip⟩ :=
        tryOpenPart_tries cfg env w (attempts + 1 = 4)
      rw [if_pos hok] at hcost hskip
      refine ⟨events, ?_, by omega, by omega⟩
      unfold openLoop
      dsimp only
      rw [if_pos hok]
      exact hlog
  | case2 w attempts skipped attempt r hfailed attempts' skipped' hmay ih =>
      -- It fails and another is allowed, so both counts are still below their limits.
      obtain ⟨events, hlog, hcost, hskip⟩ :=
        tryOpenPart_tries cfg env w (attempts + 1 = 4)
      rw [if_neg hfailed] at hcost hskip
      have hbounds := hmay
      simp only [openMayRetry, Bool.and_eq_true, decide_eq_true_eq] at hbounds
      obtain ⟨more, hmore, hattempts', hskipped'⟩ := ih hbounds.2.1 hbounds.2.2
      have hspent : attempts' = attempts + events.countP (isTry true) := by rw [hcost]
      have hleft : skipped' = skipped + events.countP (isTry false) := by rw [hskip]
      refine ⟨events ++ more, ?_, ?_, ?_⟩
      · unfold openLoop
        dsimp only
        rw [if_neg hfailed, if_pos hmay, hmore, ← List.append_assoc]
        exact congrArg (· ++ more) hlog
      · rw [List.countP_append]
        omega
      · rw [List.countP_append]
        omega
  | case3 w attempts skipped attempt hfailed attempts' skipped' hmay =>
      -- It fails and the part is given up.
      obtain ⟨events, hlog, hcost, hskip⟩ :=
        tryOpenPart_tries cfg env w (attempts + 1 = 4)
      rw [if_neg hfailed] at hcost hskip
      have hle := attempts_le_one (w.tryOpenPart cfg env (attempts + 1 = 4)).1
      refine ⟨events ++ [.gaveUp (w.tryOpenPart cfg env (attempts + 1 = 4)).2.state.partIndex],
        ?_, ?_, ?_⟩
      · unfold openLoop
        dsimp only
        rw [if_neg hfailed, if_neg hmay, ← List.append_assoc, ← hlog]
        unfold endOpening
        dsimp only
        split <;> rfl
      · have hnone : List.countP (isTry true)
            [.gaveUp (w.tryOpenPart cfg env (attempts + 1 = 4)).2.state.partIndex] = 0 := rfl
        rw [List.countP_append, hnone]
        omega
      · have hnone : List.countP (isTry false)
            [.gaveUp (w.tryOpenPart cfg env (attempts + 1 = 4)).2.state.partIndex] = 0 := rfl
        rw [List.countP_append, hnone]
        omega

/-! ## Every part's story -/

theorem Sound.story (hsound : Sound w) (part : ℕ) :
    Done part (eventsOf part w.log) ∨
      (part = w.partIndex ∧ w.closed = false ∧ ∃ body, Open part body (eventsOf part w.log)) := by
  have hnone : Filed w → w.partIndex < part → Done part (eventsOf part w.log) := by
    intro hfiled hlt
    have hempty : eventsOf part w.log = [] := by
      refine List.filter_eq_nil_iff.mpr fun event hevent => ?_
      have hle := hfiled.future event hevent
      simpa using Nat.ne_of_lt (Nat.lt_of_le_of_lt hle hlt)
    rw [hempty]
    exact Or.inl fun event hevent => nomatch hevent
  rcases hsound with ⟨hrecording, hclosed⟩ | ⟨hfinished, -⟩
  · rcases Nat.lt_trichotomy part w.partIndex with hpast | rfl | hfuture
    · exact Or.inl (hrecording.filed.past part hpast)
    · obtain ⟨body, hopen, -⟩ := hrecording.story
      exact Or.inr ⟨rfl, hclosed, body, hopen⟩
    · exact Or.inl (hnone hrecording.filed hfuture)
  · rcases Nat.lt_trichotomy part w.partIndex with hpast | rfl | hfuture
    · exact Or.inl (hfinished.filed.past part hpast)
    · exact Or.inl hfinished.story
    · exact Or.inl (hnone hfinished.filed hfuture)

end Runs

/-- For every behaviour of storage and every sequence of calls: nothing begins once the
recording has ended; every part never opened, is the open one, was kept and completed
once with its verdict, or was dropped with nothing recorded and nothing failed before;
and the loop that opens a part ends within four attempts and seventeen skipped names. -/
theorem run_storage_faults (cfg : WriterConfig) (env : Env) (ops : List Op) :
    ((run cfg env ops).log.Pairwise fun event later =>
      event.ends = true → later.begins = false) ∧
    (∀ part, let events := eventsOf part (run cfg env ops).log
      Unopened events ∧ events.countP isCompletion = 0 ∨
      part = (run cfg env ops).partIndex ∧ (run cfg env ops).closed = false ∧
        (∃ body, Open part body events) ∧ events.countP isCompletion = 0 ∨
      Kept part events ∧ events.countP isCompletion = 1 ∨
      Dropped part events ∧ events.countP isCompletion = 0) ∧
    ∀ w : McapWriter, ∃ events, (w.openPart cfg env).state.log = w.log ++ events ∧
      events.countP (isTry true) ≤ 4 ∧ events.countP (isTry false) ≤ 17 := by
  have hsound : Sound (run cfg env ops) := (run_steady ops).sound
  refine ⟨?_, fun part => ?_, fun w => ?_⟩
  · rcases hsound with ⟨hrecording, -⟩ | ⟨hfinished, -⟩
    · exact hrecording.halts.order
    · exact hfinished.halts.order
  · rcases hsound.story part with (hunopened | hkept | hdropped) | ⟨hcurrent, hclosed, body, hopen⟩
    · exact Or.inl ⟨hunopened,
        countP_isCompletion_eq_zero fun event hevent => Or.inl (hunopened event hevent)⟩
    · exact Or.inr (Or.inr (Or.inl ⟨hkept, hkept.countP_isCompletion⟩))
    · exact Or.inr (Or.inr (Or.inr ⟨hdropped, hdropped.countP_isCompletion⟩))
    · exact Or.inr (Or.inl ⟨hcurrent, hclosed, ⟨body, hopen⟩, hopen.countP_isCompletion⟩)
  · obtain ⟨events, hlog, hcost, hskip⟩ := openLoop_tries cfg env w 0 0 (by decide) (by decide)
    exact ⟨events, hlog, by omega, by omega⟩

/-! ## The drop decision comes before the close -/

/-- A take that waits for one camera. -/
def lonelyTake : WriterConfig where
  policy := some
    { videoIds := [1]
      distinct := by decide
      tolerance_nonneg := by decide
      maxStagedBytes_pos := by decide
      maxWait_nonneg := by decide
      startWait_pos := by decide }
  duration_of_pos := by decide

/-- Storage that fails every checkpoint with EIO. -/
def failingCheckpoints : Env where
  io _ call := if call = .checkpoint then { step := .checkpoint, error := EIO } else {}
  made _ := true
  now _ := 0
  writes _ := []
  ok _ := true
  random _ := true
  cipher _ := true

/-- The file of a part that opened is removed although a step of the part, the checkpoint
of its own close, failed before. -/
theorem not_run_storage_faults : ¬∀ cfg env ops before part removed after,
    (run cfg env ops).log = before ++ .called part .remove removed :: after →
      (before.any fun event => match event with
        | .opened opened _ _ => opened == part
        | _ => false) = true →
      failures (eventsOf part before) = [] := by
  intro hclaim
  have hfailed := hclaim lonelyTake failingCheckpoints [.close]
    ((run lonelyTake failingCheckpoints [.close]).log.take 4) 0 {}
    ((run lonelyTake failingCheckpoints [.close]).log.drop 5) (by decide +kernel)
    (by decide +kernel)
  exact absurd hfailed (by decide +kernel)

end McapWriter

end VisioSchema.Mcap

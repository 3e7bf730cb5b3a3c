import VisioSchema.Mcap.Stories

/-!
# What the calls of a writer keep

A call is made of records, rolls, the library's own writes and steps that leave the parts alone.
What these keep, every call keeps (`KeptByCuts`); an aligned cut is the one roll that does not
look at the part it closes.

## Strategy

Most functions of a take touch its staging side only.  `view` is all that the writer knows of its
parts, and a step that leaves the view as it is needs no argument (`of_view`).  What remains is
stated once, for any property of the parts.

* `KeptByParts`: records, rolls and the library's own writes keep the property.
* `KeptByCuts`: the same of live writers, where a roll has to keep the property only of a part
  with payload bytes.  A cut that is due finds such a part (`shouldRoll_bytes`,
  `forcedCutDue_bytes`).  The roll of an aligned cut does not look, but a group waits only over a
  part that has payload bytes, once the take has started (`Backed`).

The lemmas on the functions of a take follow the order in which these call each other, up to
`KeptByCuts.writeContinuation`.  The first property to go through them is that a live writer
stays live (`live_keptByCuts`).
-/

namespace VisioSchema.Mcap

open VisioSchema.Library VisioSchema.Wire VisioSchema.Routing

namespace McapWriter

/-! ## What only parts change -/

/-- What the writer knows of its parts. -/
structure PartsView where
  log : List Event
  outcome : PartOutcome
  fileOpen : Bool
  writerOpen : Bool
  closed : Bool
  ended : Bool
  partIndex : ℕ
  partBytes : ℕ

def view (w : McapWriter) : PartsView :=
  ⟨w.log, w.outcome, w.file.isSome, w.writerOpen, w.closed, w.ended, w.partIndex, w.partBytes⟩

/-! ## Between two calls -/

section Live

variable {cfg : WriterConfig} {env : Env} {w w' : McapWriter}

theorem Sound.of_view (hsound : Sound w) (hview : w'.view = w.view) : Sound w' := by
  have hlog : w'.log = w.log := congrArg PartsView.log hview
  have houtcome : w'.outcome = w.outcome := congrArg PartsView.outcome hview
  have hfile : w'.file.isSome = w.file.isSome := congrArg PartsView.fileOpen hview
  have hwriter : w'.writerOpen = w.writerOpen := congrArg PartsView.writerOpen hview
  have hclosed : w'.closed = w.closed := congrArg PartsView.closed hview
  have hended : w'.ended = w.ended := congrArg PartsView.ended hview
  have hindex : w'.partIndex = w.partIndex := congrArg PartsView.partIndex hview
  have hbytes : w'.partBytes = w.partBytes := congrArg PartsView.partBytes hview
  have hstopped : w'.storageRefused = w.storageRefused := by
    rw [storageRefused, storageRefused, houtcome, hended]
  have hfiled : Filed w → Filed w' := fun hfiled =>
    hfiled.of_eq hindex hlog
  have hhalts : Halts w → Halts w' := fun hhalts =>
    hhalts.of_eq hlog fun hyes => hstopped.trans hyes
  rcases hsound with ⟨hrecording, hopen⟩ | ⟨hfinished, hover⟩
  · refine Or.inl ⟨⟨hfiled hrecording.filed, hhalts hrecording.halts, ?_, ?_, ?_, ?_⟩, ?_⟩
    · rw [hindex, hlog, houtcome, hbytes]
      exact hrecording.story
    · rw [hfile]
      exact hrecording.file
    · rw [hwriter]
      exact hrecording.writer
    · rw [hended]
      exact hrecording.ended
    · rw [hclosed]
      exact hopen
  · refine Or.inr ⟨⟨hfiled hfinished.filed, hhalts hfinished.halts, ?_, ?_⟩, ?_⟩
    · rw [hindex, hlog]
      exact hfinished.story
    · rw [← Option.not_isSome_iff_eq_none, hfile, hfinished.file]
      decide
    · rw [hwriter, hclosed]
      exact hover

/-- A sound writer that is not closed. -/
def Live (w : McapWriter) : Prop := Sound w ∧ w.closed = false

theorem Live.of_view (hlive : Live w) (hview : w'.view = w.view) : Live w' :=
  ⟨hlive.1.of_view hview, (congrArg PartsView.closed hview).trans hlive.2⟩

theorem Live.recording (hlive : Live w) (hwriter : w.writerOpen = true) : Recording w := by
  rcases hlive.1 with ⟨hrecording, -⟩ | ⟨-, hclosed | hclosed⟩
  · exact hrecording
  · rw [hwriter] at hclosed
    cases hclosed
  · rw [hlive.2] at hclosed
    cases hclosed

theorem Live.fileOpen (hlive : Live w) (hwriter : w.writerOpen = true) : w.file.isSome = true :=
  (hlive.recording hwriter).file

theorem Live.roll (hlive : Live w) : Live (w.roll cfg env).state := by
  cases hwriter : w.writerOpen with
  | false =>
      have hsame : w.roll cfg env = ⟨w, false⟩ := if_neg (by rw [hwriter]; decide)
      rw [hsame]
      exact hlive
  | true =>
      have hclosed : (w.roll cfg env).state.closed = false :=
        (roll_beside hlive.fileOpen).closed.trans hlive.2
      refine ⟨?_, hclosed⟩
      have hrolled : Recording (w.roll cfg env).state ∨ (Finished (w.roll cfg env).state ∧
          (w.roll cfg env).state.writerOpen = false) := (hlive.recording hwriter).roll
      rcases hrolled with hrecording | hfinished
      · exact Or.inl ⟨hrecording, hclosed⟩
      · exact Or.inr ⟨hfinished.1, Or.inl hfinished.2⟩

theorem libraryWrites_beside : Beside cfg w (w.libraryWrites cfg env) :=
  (writes_libraryWrites cfg env w).beside

/-- Without an open file the library writes nowhere. -/
theorem libraryWrites_of_no_file (hfile : w.file = none) : w.libraryWrites cfg env = w.tock := by
  have hnone : w.tock.file = none := hfile
  unfold McapWriter.libraryWrites
  generalize w.tock = v at *
  induction env.writes _ with
  | nil => rfl
  | cons size rest ih =>
      have hsame : v.handleWrite cfg env size = v := by simp [handleWrite, hnone]
      rw [List.foldl_cons, hsame, ih]

theorem Sound.libraryWrites (hsound : Sound w) : Sound (w.libraryWrites cfg env) := by
  rcases hsound with ⟨hrecording, hopen⟩ | ⟨hfinished, hover⟩
  · refine Or.inl ⟨(writes_libraryWrites cfg env w).recording hrecording, ?_⟩
    rw [libraryWrites_beside.closed]
    exact hopen
  · rw [libraryWrites_of_no_file hfinished.file]
    exact Sound.of_view (Or.inr ⟨hfinished, hover⟩) rfl

theorem Live.libraryWrites (hlive : Live w) : Live (w.libraryWrites cfg env) :=
  ⟨hlive.1.libraryWrites,
    libraryWrites_beside.closed.trans hlive.2⟩

/-- Asking whether a cut is due takes time at most. -/
theorem shouldRoll_tick : ∃ tick, (w.shouldRoll cfg env).2 = { w with tick := tick } := by
  unfold shouldRoll
  repeat' split
  all_goals exact ⟨_, rfl⟩

theorem forcedCutDue_tick : ∃ tick, (w.forcedCutDue cfg env).2 = { w with tick := tick } := by
  unfold forcedCutDue
  repeat' split
  all_goals exact ⟨_, rfl⟩

theorem shouldRoll_view : (w.shouldRoll cfg env).2.view = w.view := by
  obtain ⟨tick, hsame⟩ := @shouldRoll_tick cfg env w
  rw [hsame]
  rfl

theorem forcedCutDue_view : (w.forcedCutDue cfg env).2.view = w.view := by
  obtain ⟨tick, hsame⟩ := @forcedCutDue_tick cfg env w
  rw [hsame]
  rfl

theorem gate_view (channel : Channel) (msg : RecordedMessage) :
    (w.gate cfg channel msg).2.view = w.view := by
  unfold gate
  repeat' split
  all_goals rfl

theorem Live.rollIfDue (hlive : Live w) (channel : Channel) (msg : RecordedMessage) :
    Live (w.rollIfDue cfg env channel msg).state := by
  have hdue : Live (w.shouldRoll cfg env).2 := hlive.of_view shouldRoll_view
  unfold McapWriter.rollIfDue
  split
  · exact hlive
  · dsimp only
    repeat' split
    all_goals first | exact hdue.roll | exact hdue

theorem Live.writeMessage (hlive : Live w) (hwriter : w.writerOpen = true) (channel : Channel)
    (msg : RecordedMessage) : Live (w.writeMessage cfg env channel msg) := by
  have hwrote : Live (w.libraryWrites cfg env) := hlive.libraryWrites
  unfold McapWriter.writeMessage
  dsimp only
  split
  · exact hwrote
  next haccepted =>
    have hrefused : (w.libraryWrites cfg env).outcome.refused = false := by
      simp only [Bool.or_eq_true, not_or] at haccepted
      exact Bool.eq_false_iff.mpr haccepted.2
    have hrecording := (writes_libraryWrites cfg env w).recording (hlive.recording hwriter)
    exact ⟨Or.inl ⟨hrecording.countRecord hrefused channel msg, hwrote.2⟩, hwrote.2⟩

theorem Live.writeRecord (hlive : Live w) (channel : Channel) (msg : RecordedMessage) :
    Live (w.writeRecord cfg env channel msg).state := by
  unfold McapWriter.writeRecord
  split
  · exact hlive
  · refine Run.andThen_keeps (hlive.rollIfDue channel msg) fun v hv => ?_
    split
    · exact hv
    next hgoes =>
      have hwriter : v.writerOpen = true := by
        simp only [Bool.or_eq_true, Bool.not_eq_true', not_or] at hgoes
        simpa using hgoes.1
      have hgate : (v.gate cfg channel msg).2.view = v.view := gate_view channel msg
      have hlive' : Live (v.gate cfg channel msg).2 := hv.of_view hgate
      have hwriter' : (v.gate cfg channel msg).2.writerOpen = true :=
        (congrArg PartsView.writerOpen hgate).trans hwriter
      dsimp only
      split
      · exact hlive'.writeMessage hwriter' channel msg
      · exact hlive'

/-! ### The staged messages -/

theorem shouldRoll_staging : (w.shouldRoll cfg env).2.staging = w.staging := by
  obtain ⟨tick, hsame⟩ := @shouldRoll_tick cfg env w
  rw [hsame]

theorem forcedCutDue_staging : (w.forcedCutDue cfg env).2.staging = w.staging := by
  obtain ⟨tick, hsame⟩ := @forcedCutDue_tick cfg env w
  rw [hsame]

theorem gate_staging (channel : Channel) (msg : RecordedMessage) :
    (w.gate cfg channel msg).2.staging = w.staging := by
  unfold gate
  repeat' split
  all_goals rfl

theorem writeMessage_staging (channel : Channel) (msg : RecordedMessage) :
    (w.writeMessage cfg env channel msg).staging = w.staging := by
  have hwrote : (w.libraryWrites cfg env).staging = w.staging := libraryWrites_beside.staging
  unfold writeMessage
  dsimp only
  split <;> exact hwrote

theorem Live.roll_staging (hlive : Live w) : (w.roll cfg env).state.staging = w.staging :=
  (roll_beside hlive.fileOpen).staging

theorem Live.writeRecord_staging (hlive : Live w) (channel : Channel) (msg : RecordedMessage) :
    (w.writeRecord cfg env channel msg).state.staging = w.staging := by
  have hdue : Live (w.shouldRoll cfg env).2 := hlive.of_view shouldRoll_view
  have hrolled : (w.rollIfDue cfg env channel msg).state.staging = w.staging := by
    unfold McapWriter.rollIfDue
    split
    · rfl
    · dsimp only
      repeat' split
      all_goals first
        | exact (hdue.roll_staging).trans shouldRoll_staging
        | exact shouldRoll_staging
  unfold McapWriter.writeRecord
  split
  · rfl
  · refine Run.andThen_keeps (P := fun v : McapWriter => v.staging = w.staging) hrolled
      fun v hv => ?_
    split
    · exact hv
    · dsimp only
      split
      · calc ((v.gate cfg channel msg).2.writeMessage cfg env channel msg).staging
            _ = (v.gate cfg channel msg).2.staging := writeMessage_staging channel msg
            _ = v.staging := gate_staging channel msg
            _ = w.staging := hv
      · exact (gate_staging channel msg).trans hv

theorem Live.forceRoll_candidates (hlive : Live w) :
    (w.forceRoll cfg env).state.staging.candidateIds = w.staging.candidateIds ∧
      (w.forceRoll cfg env).state.staging.startStatus = w.staging.startStatus := by
  have hforced : Live (w.setStaging fun s => { s with cutReason := .forced }) :=
    hlive.of_view rfl
  refine Run.andThen_keeps (P := fun v : McapWriter =>
    v.staging.candidateIds = w.staging.candidateIds ∧
      v.staging.startStatus = w.staging.startStatus) ?_ fun v hv => hv
  rw [hforced.roll_staging]
  exact ⟨rfl, rfl⟩

end Live

/-! ## What every call keeps -/

/-- A property that parts alone decide, and that records, rolls and the library's own
writes keep. -/
structure KeptByParts (cfg : WriterConfig) (env : Env) (P : McapWriter → Prop) : Prop where
  view : ∀ {w w'}, P w → w'.view = w.view → P w'
  writes : ∀ w, P w → P (w.libraryWrites cfg env)
  record : ∀ w channel msg, P w → P (w.writeRecord cfg env channel msg).state
  roll : ∀ w, P w → P (w.roll cfg env).state

/-- The same of live writers, where a roll must keep the property only of a part that has
payload bytes, unless `always`. -/
structure KeptByCuts (cfg : WriterConfig) (env : Env) (always : Prop) (P : McapWriter → Prop) :
    Prop where
  live : ∀ {w}, P w → Live w
  view : ∀ {w w'}, P w → w'.view = w.view → P w'
  writes : ∀ w, P w → P (w.libraryWrites cfg env)
  record : ∀ w channel msg, P w → P (w.writeRecord cfg env channel msg).state
  roll : ∀ w, P w → always ∨ w.partBytes ≠ 0 → P (w.roll cfg env).state

/-- Once the take has started, a group waits only over a part that has payload bytes. -/
def Backed (always : Prop) (w : McapWriter) : Prop :=
  w.staging.startStatus ≠ .waiting → w.staging.candidateIds ≠ [] → always ∨ w.partBytes ≠ 0

section Due

variable {cfg : WriterConfig} {env : Env} {w : McapWriter}

theorem mustCut_bytes (hmust : w.mustCut cfg = true) : w.partBytes ≠ 0 := by
  simp only [mustCut, Bool.and_eq_true, decide_eq_true_eq] at hmust
  omega

theorem shouldRoll_bytes (hdue : (w.shouldRoll cfg env).1 = true) : w.partBytes ≠ 0 := by
  intro hnone
  have hnever : w.shouldRoll cfg env = (false, w) := if_pos hnone
  rw [hnever] at hdue
  cases hdue

theorem forcedCutDue_bytes (hdue : (w.forcedCutDue cfg env).1 = true) : w.partBytes ≠ 0 := by
  unfold forcedCutDue at hdue
  split at hdue
  next hmust => exact mustCut_bytes hmust
  next =>
    split at hdue
    next hmax =>
      have hceiling := of_decide_eq_true hdue
      omega
    next =>
      split at hdue
      next htime => omega
      next => cases hdue

end Due

section Rule

variable {cfg : WriterConfig} {env : Env} {always : Prop} {P : McapWriter → Prop}
  (hkept : KeptByCuts cfg env always P) {w : McapWriter}
include hkept

theorem KeptByCuts.shouldRoll (hw : P w) : P (w.shouldRoll cfg env).2 :=
  hkept.view hw shouldRoll_view

theorem KeptByCuts.forcedCutDue (hw : P w) : P (w.forcedCutDue cfg env).2 :=
  hkept.view hw forcedCutDue_view

theorem KeptByCuts.forceRoll (hw : P w) (hbytes : w.partBytes ≠ 0) :
    P (w.forceRoll cfg env).state :=
  Run.andThen_keeps (hkept.roll _ (hkept.view hw rfl) (Or.inr hbytes)) fun _ hrolled =>
    hkept.view hrolled rfl

theorem KeptByCuts.forceRollIfDue (hw : P w) : P (w.forceRollIfDue cfg env).state := by
  unfold McapWriter.forceRollIfDue
  dsimp only
  split
  next hdue =>
    refine hkept.forceRoll (hkept.forcedCutDue hw) ?_
    have hsame : (w.forcedCutDue cfg env).2.partBytes = w.partBytes :=
      congrArg PartsView.partBytes forcedCutDue_view
    rw [hsame]
    exact forcedCutDue_bytes hdue
  next => exact hkept.forcedCutDue hw

theorem KeptByCuts.cutForFlush (hw : P w) {rotate : Bool}
    (hcut : rotate = true → w.staging.startStatus ≠ .waiting → always ∨ w.partBytes ≠ 0) :
    P (w.cutForFlush cfg env rotate).state := by
  unfold McapWriter.cutForFlush
  split
  · exact hkept.view hw rfl
  next hrotate =>
    split
    · exact hkept.writes w hw
    next hstarted =>
      have hrolls : rotate = true := by simpa using hrotate
      exact Run.andThen_keeps (hkept.roll _ (hkept.view hw rfl) (hcut hrolls hstarted))
        fun _ hrolled => hkept.view hrolled rfl

theorem KeptByCuts.flushEntries (hw : P w) (rotate allowForced : Bool) (entries : List Pending) :
    P (McapWriter.flushEntries cfg env rotate allowForced entries w).state := by
  induction entries generalizing w with
  | nil => exact hw
  | cons entry rest ih =>
      unfold McapWriter.flushEntries
      refine Run.andThen_keeps (Run.andThen_keeps ?_ fun v hv => hkept.record v _ _ hv) fun v hv =>
        ih (hkept.view hv rfl)
      split
      · exact hkept.forceRollIfDue hw
      · exact hw

theorem KeptByCuts.flushStaged (hw : P w) {rotate : Bool} (allowForced : Bool)
    (hcut : rotate = true → w.staging.startStatus ≠ .waiting → always ∨ w.partBytes ≠ 0) :
    P (w.flushStaged cfg env rotate allowForced).state := by
  unfold McapWriter.flushStaged
  split
  · exact hw
  · exact Run.andThen_keeps (hkept.cutForFlush hw hcut) fun _ hv =>
      Run.andThen_keeps (hkept.flushEntries hv rotate allowForced _) fun _ hflushed =>
        hkept.view hflushed rfl

/-- A flush that gives its group up makes no aligned cut. -/
theorem KeptByCuts.cancel (hw : P w) (allowForced : Bool) :
    P (w.flushStaged cfg env false allowForced).state :=
  hkept.flushStaged hw allowForced fun hrotate => by cases hrotate

theorem KeptByCuts.failStart (hw : P w) : P w.failStart := hkept.view hw rfl

theorem KeptByCuts.flushDue (hw : P w) : P (w.flushDue cfg env).state := by
  unfold McapWriter.flushDue
  split
  · exact hw
  · split
    · exact hkept.view hw rfl
    · split
      · exact hkept.failStart (hkept.view hw rfl)
      · exact hkept.cancel (w := w.tock) (hkept.view hw rfl) true

theorem KeptByCuts.writePreceding (hw : P w) (channel : Channel) (msg : RecordedMessage) :
    P (w.writePreceding cfg env channel msg).state := by
  unfold McapWriter.writePreceding
  split
  · exact hkept.view hw rfl
  · dsimp only
    refine Run.andThen_keeps ?_ fun v hv => hkept.record v _ _ hv
    split
    · exact Run.andThen_keeps (hkept.cancel (hkept.forcedCutDue hw) true) fun _ hv =>
        hkept.forceRollIfDue hv
    · exact hkept.forcedCutDue hw

/-! ### Groups over a part with payload bytes -/

omit hkept in
/-- A flush that ends leaves no group, unless nothing was staged. -/
theorem flushStaged_candidates {rotate allowForced : Bool} (hsome : w.staging.staged ≠ [])
    (hquiet : (w.flushStaged cfg env rotate allowForced).threw = false) :
    (w.flushStaged cfg env rotate allowForced).state.staging.candidateIds = [] := by
  unfold McapWriter.flushStaged at hquiet ⊢
  rw [if_neg hsome] at hquiet ⊢
  dsimp only at hquiet ⊢
  revert hquiet
  refine Run.andThen_cases (P := fun r : Run McapWriter =>
    r.threw = false → r.state.staging.candidateIds = []) ?_ fun _ => ?_
  · intro hthrew hquiet
    rw [hthrew] at hquiet
    cases hquiet
  · refine Run.andThen_cases (P := fun r : Run McapWriter =>
      r.threw = false → r.state.staging.candidateIds = []) ?_ fun _ _ => rfl
    intro hthrew hquiet
    rw [hthrew] at hquiet
    cases hquiet

omit hkept in
theorem Backed.of_candidates (hnone : w.staging.candidateIds = []) : Backed always w :=
  fun _ hsome => absurd hnone hsome

omit hkept in
theorem Backed.cancel (hbacked : Backed always w) (allowForced : Bool)
    (hquiet : (w.flushStaged cfg env false allowForced).threw = false) :
    Backed always (w.flushStaged cfg env false allowForced).state := by
  by_cases hnone : w.staging.staged = []
  · have hsame : w.flushStaged cfg env false allowForced = ⟨w, false⟩ := if_pos hnone
    rw [hsame]
    exact hbacked
  · exact Backed.of_candidates (flushStaged_candidates hnone hquiet)

omit hkept in
theorem Backed.flushDue (hbacked : Backed always w) (hquiet : (w.flushDue cfg env).threw = false) :
    Backed always (w.flushDue cfg env).state := by
  unfold McapWriter.flushDue at hquiet ⊢
  split at hquiet
  · exact hbacked
  · split at hquiet
    next hearly =>
      rw [if_pos hearly]
      exact hbacked
    next hlate =>
      rw [if_neg hlate]
      split at hquiet
      next hwaiting =>
        rw [if_pos hwaiting]
        exact Backed.of_candidates rfl
      next hstarted =>
        rw [if_neg hstarted]
        exact Backed.cancel (w := w.tock) hbacked true hquiet

section Policy

variable (policy : RotationPolicy) (channel : Channel) (msg : RecordedMessage)

omit hkept in
theorem cutDue_tick : ∃ tick, (w.cutDue cfg env).2 = { w with tick := tick } := by
  unfold McapWriter.cutDue
  split
  · exact ⟨_, rfl⟩
  · split
    · exact shouldRoll_tick
    · exact ⟨_, rfl⟩

omit hkept in
theorem cutsAtOnce_tick : ∃ tick, (w.cutsAtOnce cfg env policy).2 = { w with tick := tick } := by
  unfold McapWriter.cutsAtOnce
  split
  · exact ⟨_, rfl⟩
  · exact forcedCutDue_tick

omit hkept in
/-- A cut is due over a part with payload bytes, once the take has started. -/
theorem cutDue_bytes (hstarted : w.staging.startStatus ≠ .waiting)
    (hdue : (w.cutDue cfg env).1 = true) : w.partBytes ≠ 0 := by
  unfold McapWriter.cutDue at hdue
  rw [if_neg hstarted] at hdue
  split at hdue
  · exact shouldRoll_bytes hdue
  · cases hdue

omit hkept in
/-- What is made of a cut that is due. -/
theorem openGroup_cases (idr : Bool) :
    (w.openGroup cfg env policy idr channel msg = ⟨w, false⟩ ∧ w.staging.candidateIds ≠ []) ∨
    w.staging.candidateIds = [] ∧ ∃ tick,
      (w.openGroup cfg env policy idr channel msg = ⟨{ w with tick := tick }, false⟩ ∨
        (w.staging.startStatus ≠ .waiting ∧ w.partBytes ≠ 0 ∧
          w.openGroup cfg env policy idr channel msg =
            forceRoll cfg env { w with tick := tick }) ∨
        ((w.staging.startStatus ≠ .waiting → w.partBytes ≠ 0) ∧ idr = true ∧
          w.openGroup cfg env policy idr channel msg =
            ⟨beginGroup cfg env policy { w with tick := tick } channel msg, false⟩)) := by
  obtain ⟨asked, hasked⟩ := @cutDue_tick cfg env w
  unfold McapWriter.openGroup
  split
  next hsome => exact Or.inl ⟨rfl, hsome⟩
  next hnone =>
    refine Or.inr ⟨not_not.mp hnone, ?_⟩
    dsimp only
    rw [hasked]
    obtain ⟨tick, hticked⟩ := @cutsAtOnce_tick cfg env
      (w := { w with tick := asked }) policy
    split
    next hdue =>
      rw [hticked]
      have hbytes : w.staging.startStatus ≠ .waiting → w.partBytes ≠ 0 := fun hstarted =>
        cutDue_bytes hstarted hdue
      refine ⟨tick, ?_⟩
      split
      next honce =>
        have hstarted : w.staging.startStatus ≠ .waiting := by
          intro hwaiting
          unfold cutsAtOnce at honce
          rw [if_pos hwaiting] at honce
          cases honce
        exact Or.inr (Or.inl ⟨hstarted, hbytes hstarted, rfl⟩)
      next =>
        cases idr with
        | true => exact Or.inr (Or.inr ⟨hbytes, rfl, rfl⟩)
        | false => exact Or.inl rfl
    next => exact ⟨asked, Or.inl rfl⟩

theorem KeptByCuts.openGroup (hw : P w) (hbacked : Backed always w) (idr : Bool) :
    P (w.openGroup cfg env policy idr channel msg).state ∧
      Backed always (w.openGroup cfg env policy idr channel msg).state := by
  rcases @openGroup_cases cfg env w policy channel msg idr with
    ⟨hsame, -⟩ | ⟨hnone, tick, hquiet | ⟨-, hbytes, hforced⟩ | ⟨hbytes, -, hbegun⟩⟩
  · rw [hsame]
    exact ⟨hw, hbacked⟩
  · rw [hquiet]
    exact ⟨hkept.view hw rfl, Backed.of_candidates hnone⟩
  · have hv : P { w with tick := tick } := hkept.view hw rfl
    rw [hforced]
    refine ⟨hkept.forceRoll hv hbytes, Backed.of_candidates ?_⟩
    rw [(hkept.live hv).forceRoll_candidates.1]
    exact hnone
  · rw [hbegun]
    exact ⟨hkept.view hw rfl, fun hstarted _ => Or.inr (hbytes hstarted)⟩

theorem KeptByCuts.writeBehindGroup (hw : P w) (hbacked : Backed always w)
    (hgroup : w.staging.candidateIds ≠ []) (idr : Bool) :
    P (w.writeBehindGroup cfg env policy idr channel msg).state := by
  unfold McapWriter.writeBehindGroup
  split
  · split
    · exact hkept.failStart hw
    · exact Run.andThen_keeps (Run.andThen_keeps (hkept.cancel hw true) fun _ hv =>
        hkept.forceRollIfDue hv) fun v hv => hkept.record v _ _ hv
  · have hstaged : (w.stage cfg idr channel msg).view = w.view ∧
        (w.stage cfg idr channel msg).staging.startStatus = w.staging.startStatus := by
      unfold McapWriter.stage
      dsimp only
      split <;> exact ⟨rfl, rfl⟩
    have hv : P (w.stage cfg idr channel msg) := hkept.view hw hstaged.1
    unfold McapWriter.flushIfComplete
    split
    · refine hkept.flushStaged hv true fun _ hstarted => ?_
      have hsame : (w.stage cfg idr channel msg).partBytes = w.partBytes :=
        congrArg PartsView.partBytes hstaged.1
      rw [hsame]
      exact hbacked (hstaged.2 ▸ hstarted) hgroup
    · split
      · exact hkept.cancel hv true
      · exact hv

theorem KeptByCuts.writeDirectly (hw : P w) : P (w.writeDirectly cfg env channel msg).state := by
  unfold McapWriter.writeDirectly
  split
  · dsimp only
    split
    · exact hkept.view hw rfl
    · exact hw
  · exact hkept.record w _ _ hw

theorem KeptByCuts.continueTake (hw : P w) (hbacked : Backed always w) (idr : Bool) :
    P (w.continueTake cfg env policy idr channel msg).state := by
  obtain ⟨hopened, hstill⟩ := hkept.openGroup policy channel msg hw hbacked idr
  refine Run.andThen_cases (P := fun r : Run McapWriter => P r.state) (fun _ => hopened)
    fun _ => ?_
  split
  next => exact hkept.writeDirectly channel msg hopened
  next hgroup => exact hkept.writeBehindGroup policy channel msg hopened hstill hgroup idr

theorem KeptByCuts.writeContinuation (hw : P w) (hbacked : Backed always w) :
    P (w.writeContinuation cfg env policy channel msg).state := by
  refine Run.andThen_cases (P := fun r : Run McapWriter => P r.state)
    (fun _ => hkept.flushDue hw) fun hquiet => ?_
  have hv : P (w.flushDue cfg env).state := hkept.flushDue hw
  have hbacked : Backed always (w.flushDue cfg env).state := hbacked.flushDue hquiet
  generalize (w.flushDue cfg env).state = v at hv hbacked ⊢
  dsimp only
  split
  · exact hv
  · split
    · exact hkept.view hv rfl
    · split
      · split
        · exact hkept.writePreceding hv channel msg
        · split
          · split
            · exact hkept.failStart hv
            · exact Run.andThen_cases (P := fun r : Run McapWriter => P r.state)
                (fun _ => hkept.cancel hv true) fun hquiet =>
                  hkept.continueTake policy channel msg (hkept.cancel hv true)
                    (hbacked.cancel true hquiet) _
          · exact hkept.continueTake policy channel msg hv hbacked _
      · exact hkept.continueTake policy channel msg hv hbacked _

end Policy

end Rule

/-! ## Live writers stay live -/

section Live

variable {cfg : WriterConfig} {env : Env} {w : McapWriter}

theorem KeptByParts.cuts {P : McapWriter → Prop} (hkept : KeptByParts cfg env P)
    (hlive : ∀ {w}, P w → Live w) : KeptByCuts cfg env True P where
  live := hlive
  view := hkept.view
  writes := hkept.writes
  record := hkept.record
  roll := fun w hw _ => hkept.roll w hw

theorem backed_always (w : McapWriter) : Backed True w := fun _ _ => Or.inl trivial

theorem live_keptByParts : KeptByParts cfg env Live where
  view := fun hlive hview => hlive.of_view hview
  writes := fun _ hlive => hlive.libraryWrites
  record := fun _ channel msg hlive => hlive.writeRecord channel msg
  roll := fun _ hlive => hlive.roll

/-- Every roll keeps a writer live. -/
theorem live_keptByCuts : KeptByCuts cfg env True Live := live_keptByParts.cuts id

theorem Live.forceRollIfDue_staged (hlive : Live w) :
    (w.forceRollIfDue cfg env).state.staging.staged = w.staging.staged := by
  have hdue : Live (w.forcedCutDue cfg env).2 := live_keptByCuts.forcedCutDue hlive
  have hsame : (w.forcedCutDue cfg env).2.staging.staged = w.staging.staged := by
    rw [forcedCutDue_staging]
  unfold McapWriter.forceRollIfDue
  dsimp only
  split
  · have hforced : Live ((w.forcedCutDue cfg env).2.setStaging fun s =>
        { s with cutReason := .forced }) := hdue.of_view rfl
    refine Eq.trans ?_ hsame
    refine Run.andThen_keeps (P := fun v : McapWriter =>
      v.staging.staged = (w.forcedCutDue cfg env).2.staging.staged) ?_ fun v hv => hv
    rw [hforced.roll_staging]
    rfl
  · exact hsame

/-- A flush that does not throw leaves nothing staged. -/
theorem Live.flushEntries_staged (hlive : Live w) (rotate allowForced : Bool)
    {entries : List Pending} (hstaged : w.staging.staged = entries)
    (hquiet : (flushEntries cfg env rotate allowForced entries w).threw = false) :
    (flushEntries cfg env rotate allowForced entries w).state.staging.staged = [] := by
  induction entries generalizing w with
  | nil => exact hstaged
  | cons entry rest ih =>
      unfold flushEntries at hquiet ⊢
      dsimp only at hquiet ⊢
      generalize hforced : (if allowForced && (!rotate || w.mustCut cfg) then
        w.forceRollIfDue cfg env else (⟨w, false⟩ : Run McapWriter)) = forced at hquiet ⊢
      have hforced' : Live forced.state ∧ forced.state.staging.staged = entry :: rest := by
        rw [← hforced]
        split
        · exact ⟨live_keptByCuts.forceRollIfDue hlive,
            hlive.forceRollIfDue_staged.trans hstaged⟩
        · exact ⟨hlive, hstaged⟩
      have hwritten : ∀ v, Live v ∧ v.staging.staged = entry :: rest →
          Live (v.writeRecord cfg env entry.channel entry.msg).state ∧
            (v.writeRecord cfg env entry.channel entry.msg).state.staging.staged =
              entry :: rest := fun v hv =>
        ⟨hv.1.writeRecord _ _, by rw [hv.1.writeRecord_staging]; exact hv.2⟩
      generalize hwrote : (forced.andThen fun w =>
        w.writeRecord cfg env entry.channel entry.msg) = wrote at hquiet ⊢
      have hwrote' : Live wrote.state ∧ wrote.state.staging.staged = entry :: rest := by
        rw [← hwrote]
        exact Run.andThen_keeps hforced' hwritten
      cases hthrew : wrote.threw with
      | true =>
          rw [Run.andThen, hthrew] at hquiet
          rw [if_pos rfl, hthrew] at hquiet
          cases hquiet
      | false =>
          rw [Run.andThen_of_quiet hthrew] at hquiet ⊢
          have hpopped : (wrote.state.popStaged entry).staging.staged = rest := by
            change wrote.state.staging.staged.tail = rest
            rw [hwrote'.2]
            rfl
          exact ih (hwrote'.1.of_view rfl) hpopped hquiet

theorem Live.flushStaged_staged (hlive : Live w) (allowForced : Bool)
    (hquiet : (w.flushStaged cfg env false allowForced).threw = false) :
    (w.flushStaged cfg env false allowForced).state.staging.staged = [] := by
  unfold McapWriter.flushStaged at hquiet ⊢
  split at hquiet
  next hnone =>
    rw [if_pos hnone]
    exact hnone
  next hsome =>
    rw [if_neg hsome]
    have hcut : w.cutForFlush cfg env false =
        ⟨w.setStaging fun s => { s with cancelledCuts := s.cancelledCuts + 1 }, false⟩ := rfl
    rw [hcut, Run.andThen_ok] at hquiet ⊢
    generalize hstart : (w.setStaging fun s =>
      { s with cancelledCuts := s.cancelledCuts + 1 }) = start at hquiet ⊢
    have hlive' : Live start := by
      rw [← hstart]
      exact hlive.of_view rfl
    have hflushed : (flushEntries cfg env false allowForced start.staging.staged start).threw =
        false → (flushEntries cfg env false allowForced start.staging.staged
          start).state.staging.staged = [] := hlive'.flushEntries_staged false allowForced rfl
    generalize flushEntries cfg env false allowForced start.staging.staged start = flushed at *
    cases hthrew : flushed.threw with
    | true =>
        rw [Run.andThen, hthrew] at hquiet
        rw [if_pos rfl, hthrew] at hquiet
        cases hquiet
    | false =>
        rw [Run.andThen_of_quiet hthrew]
        exact hflushed hthrew

end Live

end McapWriter

end VisioSchema.Mcap

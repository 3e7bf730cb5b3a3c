import VisioSchema.Mcap.Continuity

/-!
# Cuts at keyframes

Without a rotation policy every part warms up on its own, and the keyframe rule of `WriteRecord`
cuts where a new pair starts.  What carries both is `Paired`: the cameras that are primed have a
frame in the current part, and no frame of the part is newer than the maximum that the rule
compares with.

## Strategy

A record of such a take is at most one cut and then one message past the gate.

* **The message** (`Paired.pass`) is dropped at the gate unless it is a keyframe or its camera is
  primed.  A primed camera has a frame in the part already, so every camera of the part starts on
  a keyframe (`KeyframeFirst.record`).
* **The cut** (`Paired.rollIfDue`) is asked for by a message that starts a new pair, or by a part
  past its ceiling.  By the maximum in `Paired`, a message of the first kind is newer than every
  frame of the part, by more than the guard (`Paired.pairCut`).  Behind a cut no camera is primed
  (`Paired.roll`).

`Legacy` is the invariant between two calls, and `run_pair_cuts` its reading.
-/

namespace VisioSchema.Mcap

open VisioSchema.Library VisioSchema.Wire VisioSchema.Routing

/-! ## Frames of a part -/

/-- Every camera of the part starts on a keyframe. -/
def KeyframeFirst (part : ℕ) (log : List Event) : Prop :=
  ∀ id first later, framesIn part id log = first :: later → first.keyframe = true

section Parts

variable {part : ℕ} {log log' : List Event}

theorem KeyframeFirst.of_marks (hfirst : KeyframeFirst part log) (hmarks : marks log' = marks log) :
    KeyframeFirst part log' := by
  intro id first later hframes
  rw [← framesIn_marks, hmarks, framesIn_marks] at hframes
  exact hfirst id first later hframes

theorem recordedIn_eq_nil (hother : ∀ event ∈ log, event.part ≠ part) :
    recordedIn part log = [] := by
  have hnone : log.filter (fun event => event.part = part) = [] :=
    List.filter_eq_nil_iff.mpr fun event hevent hpart =>
      hother event hevent (of_decide_eq_true hpart)
  rw [recordedIn, hnone]
  rfl

theorem recordedIn_record (other : ℕ) (channel : Channel) (msg : RecordedMessage) :
    recordedIn part [.record other channel msg] =
      if other = part then [(channel, msg)] else [] := by
  by_cases hsame : other = part
  · simp [recordedIn, recorded, Event.part, Event.arrival, hsame]
  · simp [recordedIn, recorded, Event.part, hsame]

theorem frames_single {channel : Channel} {msg : RecordedMessage}
    (hvideo : isVideo channel = true) :
    frames channel.id [(channel, msg)] = [msg] :=
  @frames_cons_own channel.id (channel, msg) hvideo rfl []

theorem recordedIn_opened (other : ℕ) (reason : CutReason) (point : SyncPoint) :
    recordedIn part [.opened other reason point] = [] := by
  by_cases hsame : other = part
  · simp [recordedIn, recorded, Event.part, Event.arrival, hsame]
  · simp [recordedIn, recorded, Event.part, hsame]

theorem KeyframeFirst.opened (hfirst : KeyframeFirst part log) {other : ℕ} {reason : CutReason}
    {point : SyncPoint} (hmarks : marks log' = marks log ++ [.opened other reason point]) :
    KeyframeFirst part log' := by
  intro id first later hframes
  rw [← framesIn_marks, hmarks, framesIn_append, framesIn_marks, framesIn_eq part id [_],
    recordedIn_opened, frames, List.filterMap_nil, List.append_nil] at hframes
  exact hfirst id first later hframes

/-- A frame lands behind the frames of its camera, or is a keyframe. -/
theorem KeyframeFirst.record (hfirst : KeyframeFirst part log) {other : ℕ} {channel : Channel}
    {msg : RecordedMessage} (hmarks : marks log' = marks log ++ [.record other channel msg])
    (hkey : isVideo channel = true → msg.keyframe = true ∨ framesIn other channel.id log ≠ []) :
    KeyframeFirst part log' := by
  intro id first later hframes
  rw [← framesIn_marks, hmarks, framesIn_append, framesIn_marks, framesIn_eq part id [_],
    recordedIn_record] at hframes
  cases hbefore : framesIn part id log with
  | cons opening rest =>
      rw [hbefore, List.cons_append] at hframes
      rw [← (List.cons.inj hframes).1]
      exact hfirst id opening rest hbefore
  | nil =>
      rw [hbefore, List.nil_append] at hframes
      by_cases hown : other = part ∧ isVideo channel = true ∧ channel.id = id
      · obtain ⟨rfl, hvideo, rfl⟩ := hown
        rw [if_pos rfl, frames_single hvideo] at hframes
        rw [← (List.cons.inj hframes).1]
        exact (hkey hvideo).resolve_right fun hsome => hsome hbefore
      · -- the message is no frame of this camera in this part
        exfalso
        by_cases hpart : other = part
        · rw [if_pos hpart, frames_cons_other fun hcamera => hown ⟨hpart, hcamera⟩] at hframes
          cases hframes
        · rw [if_neg hpart] at hframes
          cases hframes

end Parts

namespace McapWriter

/-- The part was cut at a keyframe newer, by more than the guard, than every frame of the
part, and the keyframe opens the next part. -/
structure PairCut (cfg : WriterConfig) (w : McapWriter) (channel : Channel) (msg : RecordedMessage)
    (w' : McapWriter) : Prop where
  video : isVideo channel = true
  keyframe : msg.keyframe = true
  newer : ∀ arrival ∈ recordedIn w.partIndex w.log, isVideo arrival.1 = true →
    timestampNs arrival.2.timestamp + cfg.pairGuardNs < timestampNs msg.timestamp
  apart : ∀ arrival ∈ recordedIn w.partIndex w.log, isVideo arrival.1 = true →
    arrival.2.keyframe = true →
      cfg.pairGuardNs < (timestampNs msg.timestamp - timestampNs arrival.2.timestamp).natAbs
  opens : marks w'.log = marks w.log ++
    [.opened (w.partIndex + 1) .initial {}, .record (w.partIndex + 1) channel msg]

/-- The ceiling past which a part is cut at any message. -/
def AtCeiling (cfg : WriterConfig) (w : McapWriter) : Prop :=
  0 < cfg.maxBytes ∧ cfg.maxBytes + cfg.maxBytes / 8 ≤ w.partBytes

/-- The current part, and what the keyframe gate and the keyframe rule know of it. -/
structure Paired (w : McapWriter) : Prop where
  going : Going w
  staging : w.staging = {}
  starts : ∀ part, KeyframeFirst part w.log
  primed : ∀ id ∈ w.primed, framesIn w.partIndex id w.log ≠ []
  newest : ∀ arrival ∈ recordedIn w.partIndex w.log, isVideo arrival.1 = true →
    timestampNs arrival.2.timestamp ≤ w.partMaxVideoTs

section Paired

variable {cfg : WriterConfig} {env : Env} {w w' : McapWriter} {channel : Channel}
  {msg : RecordedMessage}

/-- Nothing was opened or recorded, and no camera was primed. -/
theorem Paired.stays (hpaired : Paired w) (hgoing : Going w') (hmarks : marks w'.log = marks w.log)
    (hindex : w'.partIndex = w.partIndex) (hstaging : w'.staging = w.staging)
    (hprimed : w'.primed = w.primed) (hnewest : w'.partMaxVideoTs = w.partMaxVideoTs) :
    Paired w' where
  going := hgoing
  staging := hstaging.trans hpaired.staging
  starts := fun part => (hpaired.starts part).of_marks hmarks
  primed := by
    intro id hid
    rw [hprimed] at hid
    rw [← framesIn_marks, hmarks, hindex, framesIn_marks]
    exact hpaired.primed id hid
  newest := by
    intro arrival harrival
    rw [← recordedIn_marks, hmarks, hindex, recordedIn_marks] at harrival
    rw [hnewest]
    exact hpaired.newest arrival harrival

theorem Paired.tick (hpaired : Paired w) (tick : ℕ) : Paired { w with tick := tick } :=
  hpaired.stays (hpaired.going.of_view rfl) rfl rfl rfl rfl rfl

theorem Paired.libraryWrites (hpaired : Paired w) (henv : env.Healthy) :
    Paired (w.libraryWrites cfg env) := by
  obtain ⟨hgoes, hmarks, hstaging, hindex⟩ := @Going.libraryWrites cfg env _ hpaired.going henv
  obtain ⟨events, hwrote⟩ := writes_libraryWrites cfg env w
  refine hpaired.stays hgoes.going hmarks hindex hstaging ?_ ?_
  · rw [hwrote.state]
  · rw [hwrote.state]

/-- The gate where every part warms up on its own. -/
theorem gate_legacy (hpolicy : cfg.policy = none) :
    (w.gate cfg channel msg).2.partMaxVideoTs = w.partMaxVideoTs ∧
      (msg.keyframe = true → (w.gate cfg channel msg).1 = true) ∧
      ((w.gate cfg channel msg).1 = false → (w.gate cfg channel msg).2.primed = w.primed) ∧
      ((w.gate cfg channel msg).1 = true →
        (isVideo channel = true → msg.keyframe = true ∨ channel.id ∈ w.primed) ∧
        ∀ id ∈ (w.gate cfg channel msg).2.primed,
          id ∈ w.primed ∨ isVideo channel = true ∧ channel.id = id) := by
  unfold McapWriter.gate
  split
  next hgated =>
    have hvideo : isVideo channel = true :=
      (Bool.and_eq_true_iff.mp (Bool.and_eq_true_iff.mp hgated).1).1
    split
    next hkey =>
      refine ⟨rfl, fun _ => rfl, fun hpass => (by cases hpass), fun _ => ⟨fun _ => Or.inl hkey, ?_⟩⟩
      intro id hid
      rcases List.mem_cons.mp hid with rfl | hold
      · exact Or.inr ⟨hvideo, rfl⟩
      · exact Or.inl hold
    next hkey =>
      exact ⟨rfl, fun hyes => absurd hyes hkey, fun _ => rfl, fun hpass => by cases hpass⟩
  next hopen =>
    refine ⟨rfl, fun _ => rfl, fun _ => rfl, fun _ => ⟨fun hvideo => ?_, fun id hid => Or.inl hid⟩⟩
    by_contra hcold
    have hprimed : channel.id ∉ w.primed := fun hprimed => hcold (Or.inr hprimed)
    exact hopen (by simp [hvideo, hpolicy, hprimed])

variable (henv : env.Healthy) (haccepts : env.Accepts) (hpolicy : cfg.policy = none)
include henv haccepts hpolicy

/-- A cut starts the next part with no camera primed. -/
theorem Paired.roll (hpaired : Paired w) :
    (w.roll cfg env).Ends fun v => Paired v ∧
      marks v.log = marks w.log ++ [.opened (w.partIndex + 1) .initial {}] ∧
      v.partIndex = w.partIndex + 1 := by
  refine (hpaired.going.roll_opens henv haccepts).mono ?_
  rintro v ⟨hgoing, hmarks, hindex, hstaging, hprimed⟩
  have hfresh : recordedIn v.partIndex v.log = [] := by
    have hnone : recordedIn (w.partIndex + 1) w.log = [] := recordedIn_eq_nil fun event hevent =>
      Nat.ne_of_lt (Nat.lt_succ_of_le (hpaired.going.recording.filed.future event hevent))
    rw [hindex, ← recordedIn_marks, hmarks, recordedIn_append, recordedIn_marks, hnone,
      recordedIn_opened]
    rfl
  refine ⟨⟨hgoing, hstaging.trans hpaired.staging, ?_, ?_, ?_⟩, ?_, hindex⟩
  · exact fun part => (hpaired.starts part).opened hmarks
  · rw [hprimed hpolicy]
    exact fun id hid => absurd hid List.not_mem_nil
  · rw [hfresh]
    exact fun arrival harrival => absurd harrival List.not_mem_nil
  · rw [hmarks, hpaired.staging]

/-- Past the rolls, a message is recorded in the part or dropped at the gate; a keyframe is
recorded. -/
theorem Paired.pass (hpaired : Paired w) :
    let v := (w.gate cfg channel msg).2
    let written := if (w.gate cfg channel msg).1 then v.writeMessage cfg env channel msg else v
    Paired written ∧ written.partIndex = w.partIndex ∧
      (msg.keyframe = true →
        marks written.log = marks w.log ++ [.record w.partIndex channel msg]) := by
  obtain ⟨hmax, hkeyed, hdropped, hpassed⟩ := @gate_legacy cfg w channel msg hpolicy
  have hview : (w.gate cfg channel msg).2.view = w.view := gate_view channel msg
  have hstaging : (w.gate cfg channel msg).2.staging = w.staging := gate_staging channel msg
  have hgoing : Going (w.gate cfg channel msg).2 := hpaired.going.of_view hview
  have hlog : (w.gate cfg channel msg).2.log = w.log := congrArg PartsView.log hview
  have hindex : (w.gate cfg channel msg).2.partIndex = w.partIndex :=
    congrArg PartsView.partIndex hview
  generalize (w.gate cfg channel msg).1 = passes at *
  generalize (w.gate cfg channel msg).2 = v at *
  dsimp only
  -- At the gate the message is dropped, which changes the maximum only, or it passes and is
  -- recorded.
  cases passes with
  | false =>
      have hmarks : marks v.log = marks w.log := by rw [hlog]
      refine ⟨hpaired.stays hgoing hmarks hindex hstaging (hdropped rfl) hmax, hindex, ?_⟩
      intro hkey
      cases hkeyed hkey
  | true =>
      obtain ⟨hkey, hprimed⟩ := hpassed rfl
      obtain ⟨hgoing', hmarks, hcounted⟩ :=
        @Going.writeMessage cfg env v henv haccepts hgoing channel msg
      obtain ⟨events, hwrote⟩ := writes_libraryWrites cfg env v
      rw [hlog, hindex] at hmarks
      have hindex' : (v.writeMessage cfg env channel msg).partIndex = w.partIndex := by
        rw [hcounted, hwrote.state]
        exact hindex
      have hrecords : recordedIn w.partIndex (v.writeMessage cfg env channel msg).log =
          recordedIn w.partIndex w.log ++ [(channel, msg)] := by
        rw [← recordedIn_marks, hmarks, recordedIn_append, recordedIn_marks, recordedIn_record,
          if_pos rfl]
      rw [if_pos rfl]
      refine ⟨⟨hgoing', ?_, fun part => (hpaired.starts part).record hmarks ?_, ?_, ?_⟩, hindex',
        fun _ => hmarks⟩
      · rw [hcounted, hwrote.state]
        exact hstaging.trans hpaired.staging
      · exact fun hvideo => (hkey hvideo).imp_right fun hold => hpaired.primed _ hold
      · intro id hid
        rw [hindex', framesIn_eq, hrecords, frames_append, ← framesIn_eq]
        have hid' : id ∈ v.primed := by
          rw [hcounted, hwrote.state] at hid
          exact hid
        -- A camera is primed by this message, or was primed before.
        rcases hprimed id hid' with hold | ⟨hvideo, hown⟩
        · exact List.append_ne_nil_of_left_ne_nil (hpaired.primed id hold) _
        · rw [← hown, frames_single hvideo]
          exact List.append_ne_nil_of_right_ne_nil _ (List.cons_ne_nil _ _)
      · intro arrival harrival hvideo
        rw [hindex', hrecords] at harrival
        -- The maximum takes the stamps of frames only.
        have hnext : (v.writeMessage cfg env channel msg).partMaxVideoTs =
            if isVideo channel && decide (w.partMaxVideoTs < timestampNs msg.timestamp) then
              timestampNs msg.timestamp
            else w.partMaxVideoTs := by
          rw [hcounted, hwrote.state, ← hmax]
          rfl
        rw [hnext]
        rcases List.mem_append.mp harrival with hold | hnew
        · have hbefore := hpaired.newest arrival hold hvideo
          split
          next hmore =>
            have hless := of_decide_eq_true (Bool.and_eq_true_iff.mp hmore).2
            omega
          next => exact hbefore
        · rw [List.mem_singleton.mp hnew] at hvideo ⊢
          split
          next => exact Int.le_refl _
          next hmore => simpa [hvideo] using hmore

/-- The rolls of `WriteRecord`: at a message that starts a new pair, or past the ceiling. -/
theorem Paired.rollIfDue (hkeyed : cfg.rotateOnKeyframe = true) (hpaired : Paired w) :
    (w.rollIfDue cfg env channel msg).Ends fun v => Paired v ∧
      (v.partIndex = w.partIndex ∨
        marks v.log = marks w.log ++ [.opened (w.partIndex + 1) .initial {}] ∧
          v.partIndex = w.partIndex + 1 ∧
          (w.startsNewPair cfg channel msg = false → AtCeiling cfg w)) := by
  obtain ⟨tick, htick⟩ := @shouldRoll_tick cfg env w
  have hmust : ({ w with tick := tick } : McapWriter).mustCut cfg = false :=
    (hpaired.tick tick).going.mustCut
  have hroll := (hpaired.tick tick).roll henv haccepts hpolicy
  unfold McapWriter.rollIfDue
  split
  · exact Run.ends_ok ⟨hpaired, Or.inl rfl⟩
  · dsimp only
    rw [htick, hmust, Bool.false_or]
    split
    next hpair =>
      refine hroll.mono fun v hv => ⟨hv.1, Or.inr ⟨hv.2.1, hv.2.2, fun hnot => ?_⟩⟩
      have hstarts : w.startsNewPair cfg channel msg = true := (Bool.and_eq_true_iff.mp hpair).2
      rw [hnot] at hstarts
      cases hstarts
    next =>
      split
      next hfull =>
        refine hroll.mono fun v hv => ⟨hv.1, Or.inr ⟨hv.2.1, hv.2.2, fun _ => ?_⟩⟩
        simpa [AtCeiling] using hfull
      next => exact Run.ends_ok ⟨hpaired.tick tick, Or.inl rfl⟩

omit henv haccepts hpolicy in
/-- A message that starts a new pair is newer, by more than the guard, than every frame of the
part. -/
theorem Paired.pairCut (hpaired : Paired w) (hstarts : w.startsNewPair cfg channel msg = true)
    (hopens : marks w'.log = marks w.log ++
      [.opened (w.partIndex + 1) .initial {}, .record (w.partIndex + 1) channel msg]) :
    PairCut cfg w channel msg w' := by
  simp only [startsNewPair, Bool.and_eq_true, decide_eq_true_eq] at hstarts
  obtain ⟨⟨hvideo, hkey⟩, hnewer⟩ := hstarts
  have hall : ∀ arrival ∈ recordedIn w.partIndex w.log, isVideo arrival.1 = true →
      timestampNs arrival.2.timestamp + cfg.pairGuardNs < timestampNs msg.timestamp := by
    intro arrival harrival hframe
    have hmax := hpaired.newest arrival harrival hframe
    omega
  refine ⟨hvideo, hkey, hall, fun arrival harrival hframe _ => ?_, hopens⟩
  have hless := hall arrival harrival hframe
  omega

theorem Paired.writeRecord (hkeyed : cfg.rotateOnKeyframe = true) (hpaired : Paired w) :
    (w.writeRecord cfg env channel msg).Ends fun v => Paired v ∧
      (v.partIndex ≠ w.partIndex → PairCut cfg w channel msg v ∨
        AtCeiling cfg w ∧ w.startsNewPair cfg channel msg = false) := by
  have hguard : ¬(w.closed || !w.writerOpen || w.storageRefused) = true := by
    rw [hpaired.going.closed, hpaired.going.writer, hpaired.going.storageRefused]
    decide
  unfold McapWriter.writeRecord
  rw [if_neg hguard]
  refine (hpaired.rollIfDue henv haccepts hpolicy hkeyed).andThen ?_
  rintro u ⟨hrolled, hcut⟩
  have hstill : ¬(!u.writerOpen || u.outcome.refused) = true := by
    rw [hrolled.going.writer, hrolled.going.refused]
    decide
  rw [if_neg hstill]
  obtain ⟨hwritten, hindex, hlands⟩ :=
    @Paired.pass cfg env u channel msg henv haccepts hpolicy hrolled
  refine Run.ends_ok ⟨hwritten, fun hmoved => ?_⟩
  rcases hcut with hsame | ⟨hopened, hnext, hceiling⟩
  · exact absurd (hindex.trans hsame) hmoved
  · cases hstarts : w.startsNewPair cfg channel msg with
    | false => exact Or.inr ⟨hceiling hstarts, rfl⟩
    | true =>
        have hkey : msg.keyframe = true :=
          (Bool.and_eq_true_iff.mp (Bool.and_eq_true_iff.mp hstarts).1).2
        refine Or.inl (hpaired.pairCut hstarts ?_)
        rw [hlands hkey, hopened, hnext, List.append_assoc]
        rfl

end Paired

/-! ## Calls -/

/-- A take without a rotation policy is closed. -/
structure Shut (w : McapWriter) : Prop where
  closed : w.closed = true
  staging : w.staging = {}
  starts : ∀ part, KeyframeFirst part w.log

/-- A take without a rotation policy, between two calls. -/
def Legacy (w : McapWriter) : Prop := Paired w ∨ Shut w

section Calls

variable {cfg : WriterConfig} {env : Env} {w : McapWriter}

theorem flushDue_unstaged (hstaging : w.staging = {}) : w.flushDue cfg env = ⟨w, false⟩ := by
  unfold McapWriter.flushDue rotationDeadline
  rw [hstaging]
  rfl

/-- `SetMetadata` opens no part and records nothing. -/
theorem setMetadata_marks (nonempty : Bool) :
    marks (w.setMetadata cfg env nonempty).log = marks w.log ∧
      (w.setMetadata cfg env nonempty).partIndex = w.partIndex ∧
      (w.setMetadata cfg env nonempty).closed = w.closed ∧
      (w.setMetadata cfg env nonempty).staging = w.staging := by
  obtain ⟨events, hwrote⟩ := writes_writeStoredMetadata cfg env { w with hasMeta := nonempty }
  unfold McapWriter.setMetadata
  rw [hwrote.state]
  refine ⟨?_, rfl, rfl, rfl⟩
  change marks (w.log ++ events) = _
  rw [marks_append, marks_eq_nil fun event hevent =>
    plain_of_isWriting (hwrote.writing event hevent), List.append_nil]

theorem Paired.setMetadata (hpaired : Paired w) (henv : env.Healthy) (nonempty : Bool) :
    Paired (w.setMetadata cfg env nonempty) := by
  have hnamed : Paired { w with hasMeta := nonempty } :=
    hpaired.stays (hpaired.going.of_view rfl) rfl rfl rfl rfl rfl
  unfold McapWriter.setMetadata McapWriter.writeStoredMetadata
  split
  · exact hnamed.libraryWrites henv
  · exact hnamed

theorem Shut.setMetadata (hshut : Shut w) (nonempty : Bool) :
    Shut (w.setMetadata cfg env nonempty) := by
  obtain ⟨hmarks, -, hclosed, hstaging⟩ := @setMetadata_marks cfg env w nonempty
  exact ⟨hclosed.trans hshut.closed, hstaging.trans hshut.staging,
    fun part => (hshut.starts part).of_marks hmarks⟩

/-- `Close` opens no part. -/
theorem Paired.close (hpaired : Paired w) : Shut (w.close cfg env).state ∧
    (w.close cfg env).state.partIndex = w.partIndex := by
  have hclose : w.close cfg env = ⟨w.finish cfg env, false⟩ := by
    unfold McapWriter.close McapWriter.flushStaged
    rw [if_neg (by rw [hpaired.going.closed]; decide), hpaired.staging]
    rfl
  obtain ⟨hclosed, hmarks, hstaging⟩ := @Going.finish cfg env w hpaired.going
  have hopen : ({ w with closed := true } : McapWriter).file.isSome = true :=
    hpaired.going.recording.file
  have hindex := (@closeCurrentPart_beside cfg env _ hopen).2.1
  rw [hclose]
  refine ⟨⟨hclosed, hstaging.trans hpaired.staging, ?_⟩, ?_⟩
  · exact fun part => (hpaired.starts part).of_marks hmarks
  · have hwriter : ({ w with closed := true } : McapWriter).writerOpen = true :=
      hpaired.going.writer
    unfold McapWriter.finish
    dsimp only
    rw [if_pos hwriter]
    exact hindex

variable (henv : env.Healthy) (haccepts : env.Accepts) (hpolicy : cfg.policy = none)
  (hkeyed : cfg.rotateOnKeyframe = true)
include henv haccepts hpolicy hkeyed

/-- One call, and how it cuts the part if it does. -/
theorem Legacy.apply (hlegacy : Legacy w) (op : Op) :
    Legacy (w.apply cfg env op).state ∧
      ((w.apply cfg env op).state.partIndex ≠ w.partIndex →
        ∃ channel msg, op = .write channel msg ∧
          (PairCut cfg w channel msg (w.apply cfg env op).state ∨
            AtCeiling cfg w ∧ w.startsNewPair cfg channel msg = false)) := by
  cases op with
  | write channel msg =>
      unfold McapWriter.apply McapWriter.write
      rcases hlegacy with hpaired | hshut
      · have hguard : ¬(w.closed || !w.writerOpen || w.storageRefused) = true := by
          rw [hpaired.going.closed, hpaired.going.writer, hpaired.going.storageRefused]
          decide
        dsimp only
        rw [if_neg hguard, hpolicy]
        obtain ⟨-, hwritten, hcut⟩ :=
          @Paired.writeRecord cfg env w channel msg henv haccepts hpolicy hkeyed hpaired
        exact ⟨Or.inl hwritten, fun hmoved => ⟨channel, msg, rfl, hcut hmoved⟩⟩
      · dsimp only
        rw [if_pos (by simp [hshut.closed])]
        exact ⟨Or.inr hshut, fun hmoved => absurd rfl hmoved⟩
  | flushDue =>
      have hstaging : w.staging = {} := hlegacy.elim Paired.staging Shut.staging
      unfold McapWriter.apply
      dsimp only
      rw [flushDue_unstaged hstaging]
      exact ⟨hlegacy, fun hmoved => absurd rfl hmoved⟩
  | armStart target wait =>
      unfold McapWriter.apply
      dsimp only
      rw [hpolicy]
      exact ⟨hlegacy, fun hmoved => absurd rfl hmoved⟩
  | setMetadata nonempty =>
      refine ⟨?_, fun hmoved => absurd (@setMetadata_marks cfg env w nonempty).2.1 hmoved⟩
      exact hlegacy.imp (fun hpaired => hpaired.setMetadata henv nonempty) fun hshut =>
        hshut.setMetadata nonempty
  | close =>
      rcases hlegacy with hpaired | hshut
      · obtain ⟨hshut, hindex⟩ := @Paired.close cfg env w hpaired
        exact ⟨Or.inr hshut, fun hmoved => absurd hindex hmoved⟩
      · unfold McapWriter.apply McapWriter.close
        dsimp only
        rw [if_pos hshut.closed]
        exact ⟨Or.inr hshut, fun hmoved => absurd rfl hmoved⟩

theorem Legacy.runFrom (hlegacy : Legacy w) (ops : List Op) : Legacy (w.runFrom cfg env ops) := by
  induction ops generalizing w with
  | nil => exact hlegacy
  | cons op rest ih => exact ih (hlegacy.apply henv haccepts hpolicy hkeyed op).1

theorem run_legacy (ops : List Op) : Legacy (run cfg env ops) := by
  have hopening : Opening {} := opening_of_view rfl
  obtain ⟨hquiet, hgoing, hmarks, -, hprimed⟩ :=
    @Opening.openPart_going cfg env {} henv haccepts hopening rfl List.Pairwise.nil
  have hbeside : Beside cfg {} (McapWriter.openPart cfg env {}).state := openPart_beside
  have hconstruct : construct cfg env = McapWriter.openPart cfg env {} := by
    unfold construct arm
    rw [hpolicy]
    rfl
  have hnone : ∀ part, recordedIn part (McapWriter.openPart cfg env {}).state.log = [] := by
    intro part
    rw [← recordedIn_marks, hmarks]
    exact recordedIn_opened ..
  unfold run
  rw [hconstruct, if_neg (by rw [hquiet]; decide)]
  refine Legacy.runFrom henv haccepts hpolicy hkeyed
    (Or.inl ⟨hgoing, hbeside.staging, ?_, ?_, ?_⟩) ops
  · intro part id first later hframes
    rw [framesIn_eq, hnone] at hframes
    cases hframes
  · rw [hprimed, hpolicy]
    exact fun id hid => absurd hid List.not_mem_nil
  · rw [hnone]
    exact fun arrival harrival => absurd harrival List.not_mem_nil

end Calls

/-! ## The whole take -/

/-- For every sequence of calls without a rotation policy: every part starts each camera on a
keyframe, and a call that cuts the part is a message which starts a new pair, newer by more
than the guard than every frame of the part, or a message past the ceiling that starts none. -/
theorem run_pair_cuts (cfg : WriterConfig) (env : Env) (ops : List Op) (hpolicy : cfg.policy = none)
    (hkeyed : cfg.rotateOnKeyframe = true) (henv : env.Healthy) (haccepts : env.Accepts) :
    (∀ part, KeyframeFirst part (run cfg env ops).log) ∧
      ∀ op, ((run cfg env ops).apply cfg env op).state.partIndex ≠ (run cfg env ops).partIndex →
        ∃ channel msg, op = .write channel msg ∧
          (PairCut cfg (run cfg env ops) channel msg ((run cfg env ops).apply cfg env op).state ∨
            AtCeiling cfg (run cfg env ops) ∧
              (run cfg env ops).startsNewPair cfg channel msg = false) := by
  have hlegacy : Legacy (run cfg env ops) := run_legacy henv haccepts hpolicy hkeyed ops
  exact ⟨hlegacy.elim Paired.starts Shut.starts,
    fun op => (hlegacy.apply henv haccepts hpolicy hkeyed op).2⟩

/-- A guard of 5 ns, and a cut due after 16 bytes. -/
def pairedTake : WriterConfig where
  maxBytes := 16
  rotateOnKeyframe := true
  pairGuardNs := 5
  duration_of_pos := noDuration

/-- The second camera's keyframe is within the guard of the first, and stays in its part. -/
def pairedFrames : List Op :=
  [.write (camera 1) (frame true 1 100 16), .write (camera 2) (frame true 1 103 1)]

/-- The keyframe of the next pair cuts the part. -/
theorem run_pair_cuts_pair :
    PairCut pairedTake (run pairedTake ticking pairedFrames) (camera 1) (frame true 2 109 2)
      ((run pairedTake ticking pairedFrames).apply pairedTake ticking
        (.write (camera 1) (frame true 2 109 2))).state := by
  have hcuts := (run_pair_cuts pairedTake ticking pairedFrames rfl rfl ticking_healthy
    (fun _ => rfl)).2 (.write (camera 1) (frame true 2 109 2)) (by decide +kernel)
  obtain ⟨channel, msg, hop, hpair | ⟨-, hnot⟩⟩ := hcuts
  · cases hop
    exact hpair
  · cases hop
    exact absurd hnot (by decide +kernel)

end McapWriter

end VisioSchema.Mcap

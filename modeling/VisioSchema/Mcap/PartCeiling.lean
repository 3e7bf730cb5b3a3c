import VisioSchema.Mcap.Continuity

/-!
# The size ceiling of a part

Under a rotation policy with a byte limit, no record goes into a part that has reached its
ceiling, unless the record belongs to the group of the start (`run_ceiling`).  Messages reach a
part in four ways: directly, from late cameras beside a staged group, from a group that is given
up, and from an aligned cut.

## Strategy

A record is judged where it is made (`Allowed`): either its part is below the ceiling, or it is
left of the group of the start and its part is the one that waited for it.  `Adds` says that a
stretch of the log has allowed records only.

* **Programs.**  `Keeps` is the triple of this file: a program adds allowed records, and where it
  does not throw it ends in the post-condition.  `Keeps.andThen` composes programs, and
  `keeps_of_view` disposes of those that touch no part.
* **What makes room.**  Only a roll does (`roll_keeps`): it opens an empty part, or none for
  good.  `forceRollIfDue_keeps` leaves a part below the ceiling, and `writeRecord_keeps` records
  in it.
* **What is staged.**  A flush records message after message without asking for the ceiling, so
  what is staged has to fit before it begins.  `Capped` keeps it below the ceiling;
  `flushEntries_keeps` is the rule for the loop, with one instance for each kind of flush.
* **Calls.**  `Roomy` is the invariant between two calls.  What a call may record as part of the
  start depends on the state that it finds (`startAt`), so the run lemma (`run_roomy`) speaks of
  each record at its place in the log (`StartRecord`).
-/

namespace VisioSchema.Mcap

open VisioSchema.Library VisioSchema.Wire VisioSchema.Routing

/-- The payload bytes from which on a part is cut at any message. -/
def WriterConfig.ceiling (cfg : WriterConfig) : ℕ := cfg.maxBytes + cfg.maxBytes / 8

/-- Bytes of a part may have been lost. -/
def LostBytes (log : List Event) : Prop :=
  ∃ failure ∈ failures log, losesBytes failure.step = true

theorem LostBytes.append {log : List Event} (hlost : LostBytes log) (events : List Event) :
    LostBytes (log ++ events) := by
  obtain ⟨failure, hfailure, hloses⟩ := hlost
  refine ⟨failure, ?_, hloses⟩
  rw [failures_append]
  exact List.mem_append_left _ hfailure

theorem payloadBytes_of_opening {events : List Event}
    (hopening : ∀ event ∈ events, event.isOpening = true) : payloadBytes events = 0 := by
  induction events with
  | nil => rfl
  | cons event rest ih =>
      have hevent : event.payloadBytes = 0 := by
        have hkind := hopening event (List.mem_cons_self ..)
        cases event <;> first | rfl | cases hkind
      have hrest := ih fun later hlater => hopening later (List.mem_cons_of_mem _ hlater)
      rw [payloadBytes, hevent, hrest]

namespace McapWriter

/-! ## Records that may be appended -/

/-- The start of the take, where a call finds it still waited for: the part that waits, and
the messages staged for it with the call's own. -/
structure Start where
  waiting : Prop
  part : ℕ
  group : List Arrival

/-- A record goes into a part below the ceiling, or belongs to the group of the start, which
goes into the part that waits unless that part loses bytes. -/
def Allowed (cfg : WriterConfig) (start : Start) (log : List Event) : Event → Prop
  | .record part channel msg =>
      payloadBytes (eventsOf part log) < cfg.ceiling ∨
        start.waiting ∧ (channel, msg) ∈ start.group ∧ (part = start.part ∨ LostBytes log)
  | _ => True

/-- From `w` to `v` the log gained allowed records only, and no writer came to be open. -/
structure Adds (cfg : WriterConfig) (start : Start) (w v : McapWriter) : Prop where
  live : Live v
  opened : v.writerOpen = true → w.writerOpen = true
  grows : ∃ events, v.log = w.log ++ events ∧ Logged (Allowed cfg start) w.log events

/-- From `w` to `v` nothing was recorded. -/
def RecordsNone (w v : McapWriter) : Prop :=
  ∃ events, v.log = w.log ++ events ∧ ∀ event ∈ events, event.isRecord = false

/-- A program on `w` adds allowed records only, throws for good, and otherwise ends in `Q`; of
a writer that has no part open nothing is said. -/
structure Keeps (cfg : WriterConfig) (start : Start) (w : McapWriter) (r : Run McapWriter)
    (Q : McapWriter → Prop) : Prop where
  adds : Adds cfg start w r.state
  fell : r.threw = true → r.state.writerOpen = false
  after : r.state.writerOpen = true → Q r.state

section Rules

variable {cfg : WriterConfig} {env : Env} {start : Start} {w v : McapWriter}
  {P Q : McapWriter → Prop}

theorem allowed_of_plain {log : List Event} {event : Event} (hplain : event.isRecord = false) :
    Allowed cfg start log event := by
  cases event with
  | record part channel msg => cases hplain
  | called | encryptFailed | attempted | gaveUp | opened => trivial

theorem RecordsNone.trans {u : McapWriter} (hfirst : RecordsNone w v) (hsecond : RecordsNone v u) :
    RecordsNone w u := by
  obtain ⟨before, hbefore, hplain⟩ := hfirst
  obtain ⟨after, hafter, hplain'⟩ := hsecond
  refine ⟨before ++ after, ?_, List.forall_mem_append.mpr ⟨hplain, hplain'⟩⟩
  rw [hafter, hbefore, List.append_assoc]

theorem recordsNone_of_log (hlog : v.log = w.log) : RecordsNone w v :=
  ⟨[], by rw [hlog, List.append_nil], List.forall_mem_nil _⟩

theorem Writes.recordsNone (hwrites : Writes env w v) : RecordsNone w v := by
  obtain ⟨events, hwrote⟩ := hwrites
  exact ⟨events, by rw [hwrote.state], fun event hevent =>
    (plain_of_isWriting (hwrote.writing event hevent)).2⟩

theorem Handled.recordsNone {events : List Event} (hhandled : Handled events w v) :
    RecordsNone w v :=
  ⟨events, by rw [hhandled.state], fun event hevent =>
    (plain_of_isOpening (hhandled.opening event hevent)).2⟩

theorem RecordsNone.adds (hnone : RecordsNone w v) (hlive : Live v)
    (hopened : v.writerOpen = true → w.writerOpen = true) : Adds cfg start w v := by
  obtain ⟨events, hlog, hplain⟩ := hnone
  exact ⟨hlive, hopened, events, hlog,
    along_of_mem (fun event hevent _ => allowed_of_plain (hplain event hevent)) _⟩

theorem adds_of_view (hlive : Live w) (hview : v.view = w.view) : Adds cfg start w v :=
  (recordsNone_of_log (congrArg PartsView.log hview)).adds (hlive.of_view hview)
    fun hopen => (congrArg PartsView.writerOpen hview).symm.trans hopen

theorem Adds.trans {u : McapWriter} (hfirst : Adds cfg start w v) (hsecond : Adds cfg start v u) :
    Adds cfg start w u := by
  obtain ⟨before, hbefore, hallowed⟩ := hfirst.grows
  obtain ⟨after, hafter, hallowed'⟩ := hsecond.grows
  refine ⟨hsecond.live, fun hopen => hfirst.opened (hsecond.opened hopen), before ++ after, ?_,
    logged_append.mpr ⟨hallowed, ?_⟩⟩
  · rw [hafter, hbefore, List.append_assoc]
  · rw [← hbefore]
    exact hallowed'

theorem keeps_of_view (hlive : Live w) (hview : v.view = w.view)
    (hq : w.writerOpen = true → Q v) : Keeps cfg start w ⟨v, false⟩ Q where
  adds := adds_of_view hlive hview
  fell := fun hthrew => by cases hthrew
  after := fun hopen => hq ((congrArg PartsView.writerOpen hview).symm.trans hopen)

theorem Keeps.mono {r : Run McapWriter} (hkeeps : Keeps cfg start w r P)
    (himp : ∀ v, w.writerOpen = true → P v → Q v) : Keeps cfg start w r Q :=
  ⟨hkeeps.adds, hkeeps.fell, fun hopen => himp _ (hkeeps.adds.opened hopen) (hkeeps.after hopen)⟩

theorem Keeps.logged {r : Run McapWriter} (hkeeps : Keeps cfg start w r Q) :
    Keeps cfg start w r fun v => Q v ∧ ∃ events, v.log = w.log ++ events := by
  obtain ⟨events, hlog, -⟩ := hkeeps.adds.grows
  exact ⟨hkeeps.adds, hkeeps.fell, fun hopen => ⟨hkeeps.after hopen, events, hlog⟩⟩

theorem Keeps.prepend {r : Run McapWriter} (hkeeps : Keeps cfg start v r Q)
    (hadds : Adds cfg start w v) : Keeps cfg start w r Q :=
  ⟨hadds.trans hkeeps.adds, hkeeps.fell, hkeeps.after⟩

/-- Time passes, and the staging side may change, before the program. -/
theorem Keeps.behind {r : Run McapWriter} (hkeeps : Keeps cfg start v r Q) (hlive : Live w)
    (hview : v.view = w.view) : Keeps cfg start w r Q :=
  hkeeps.prepend (adds_of_view hlive hview)

theorem Keeps.andThen {r : Run McapWriter} {next : McapWriter → Run McapWriter}
    (hfirst : Keeps cfg start w r P)
    (hnext : ∀ v, Live v → (v.writerOpen = true → P v) → Keeps cfg start v (next v) Q) :
    Keeps cfg start w (r.andThen next) Q := by
  refine Run.andThen_cases (P := fun r => Keeps cfg start w r Q) (fun hthrew => ?_) fun hquiet => ?_
  · refine ⟨hfirst.adds, hfirst.fell, fun hopen => ?_⟩
    rw [hfirst.fell hthrew] at hopen
    cases hopen
  · have hsecond := hnext r.state hfirst.adds.live hfirst.after
    exact ⟨hfirst.adds.trans hsecond.adds, hsecond.fell, hsecond.after⟩

end Rules

/-! ## Rolls -/

section Rolls

variable {cfg : WriterConfig} {env : Env} {start : Start} {w : McapWriter}
  (haccepts : env.Accepts)
include haccepts

omit haccepts in
/-- A failed try at opening a part records nothing and opens nothing. -/
theorem tryOpenPart_fails (last : Bool)
    (hfailed : (w.tryOpenPart cfg env last).1.failure.error ≠ 0) :
    RecordsNone w (w.tryOpenPart cfg env last).2.state ∧
      (w.tryOpenPart cfg env last).2.state.writerOpen = w.writerOpen := by
  obtain ⟨-, -, made, events, -, -, hhandled⟩ := tryOpenPart_failed cfg env w last hfailed
  have hbegun : RecordsNone w (w.beginAttempt cfg env) := recordsNone_of_log rfl
  refine ⟨hbegun.trans hhandled.recordsNone, ?_⟩
  rw [hhandled.state]
  rfl

/-- `OpenPart` records nothing, throws without a part open, and opens an empty part. -/
theorem openPart_fresh (hclosed : w.writerOpen = false) :
    RecordsNone w (w.openPart cfg env).state ∧
      ((w.openPart cfg env).threw = true → (w.openPart cfg env).state.writerOpen = false) ∧
      ((w.openPart cfg env).state.writerOpen = true →
        (w.openPart cfg env).state.partBytes = 0) := by
  refine openLoop_rule (P := fun v => RecordsNone w v ∧ v.writerOpen = false)
    (Q := fun r => RecordsNone w r.state ∧ (r.threw = true → r.state.writerOpen = false) ∧
      (r.state.writerOpen = true → r.state.partBytes = 0)) ?_ ?_ ?_
    ⟨recordsNone_of_log rfl, hclosed⟩ 0 0
  · rintro v last ⟨hnone, -⟩ hok
    obtain ⟨opened, made, events, -, -, -, hhandled, hstart⟩ :=
      tryOpenPart_opened cfg env v last hok
    have hwrites := writes_startPart cfg env opened
    have hbegun : RecordsNone v (v.beginAttempt cfg env) := recordsNone_of_log rfl
    have hannounced : RecordsNone opened opened.announce :=
      ⟨[_], rfl, by simp [Event.isRecord]⟩
    rw [hstart]
    refine ⟨?_, fun hthrew => ?_, fun _ => ?_⟩
    · exact hnone.trans (hbegun.trans (hhandled.recordsNone.trans
        (hannounced.trans hwrites.recordsNone)))
    · rw [startPart_threw cfg env opened haccepts] at hthrew
      cases hthrew
    · obtain ⟨body, hwrote⟩ := hwrites
      rw [hwrote.state]
      change opened.partBytes = 0
      rw [hhandled.state]
      rfl
  · rintro v last ⟨hnone, hopen⟩ hfailed - -
    obtain ⟨htried, hstill⟩ := @tryOpenPart_fails cfg env v last hfailed
    have hretried : RecordsNone (v.tryOpenPart cfg env last).2.state
        ((v.tryOpenPart cfg env last).2.state.retryPart (v.tryOpenPart cfg env last).1) :=
      recordsNone_of_log rfl
    exact ⟨hnone.trans (htried.trans hretried), hstill.trans hopen⟩
  · rintro v last ⟨hnone, hopen⟩ hfailed
    obtain ⟨htried, hstill⟩ := @tryOpenPart_fails cfg env v last hfailed
    generalize (v.tryOpenPart cfg env last).2.state = tried at *
    have hended : RecordsNone tried
          (tried.endOpening (v.tryOpenPart cfg env last).1.failure).state ∧
        (tried.endOpening (v.tryOpenPart cfg env last).1.failure).state.writerOpen = false := by
      unfold endOpening
      dsimp only
      refine ⟨⟨[.gaveUp tried.partIndex], ?_, by simp [Event.isRecord]⟩, ?_⟩
      · split <;> rfl
      · split <;> exact hstill.trans hopen
    refine ⟨hnone.trans (htried.trans hended.1), fun _ => hended.2, fun hsome => ?_⟩
    rw [hended.2] at hsome
    cases hsome

/-- A roll opens an empty part, or leaves none open for good. -/
theorem Live.roll_keeps (hlive : Live w) :
    Keeps cfg start w (w.roll cfg env) fun v => v.partBytes = 0 ∧ v.staging = w.staging := by
  have hrolled : Live (w.roll cfg env).state := hlive.roll
  have hstaging : (w.roll cfg env).state.staging = w.staging := hlive.roll_staging
  cases hwriter : w.writerOpen with
  | false =>
      have hsame : w.roll cfg env = ⟨w, false⟩ := if_neg (by rw [hwriter]; decide)
      rw [hsame]
      refine keeps_of_view hlive rfl fun hopen => ?_
      rw [hwriter] at hopen
      cases hopen
  | true =>
      obtain ⟨events, hlog, hplain, -⟩ :=
        @closeCurrentPart_appends cfg env w (hlive.fileOpen hwriter)
      have hclosed : RecordsNone w (w.closeCurrentPart cfg env) :=
        ⟨events, hlog, fun event hevent => (hplain event hevent).2⟩
      unfold McapWriter.roll at hrolled hstaging ⊢
      rw [if_pos hwriter] at hrolled hstaging ⊢
      dsimp only at hrolled hstaging ⊢
      split at hrolled
      next hrefused =>
        rw [if_pos hrefused]
        have hgone : RecordsNone w { w.closeCurrentPart cfg env with writerOpen := false } :=
          hclosed
        exact ⟨hgone.adds hrolled fun _ => hwriter, fun hthrew => (by cases hthrew),
          fun hopen => by cases hopen⟩
      next hrefused =>
        rw [if_neg hrefused] at hstaging ⊢
        obtain ⟨hopened, hfell, hfresh⟩ := @openPart_fresh cfg env
          { w.closeCurrentPart cfg env with
            writerOpen := false
            partIndex := (w.closeCurrentPart cfg env).partIndex + 1 } haccepts rfl
        have hnext : RecordsNone w
            { w.closeCurrentPart cfg env with
              writerOpen := false
              partIndex := (w.closeCurrentPart cfg env).partIndex + 1 } := hclosed
        exact ⟨(hnext.trans hopened).adds hrolled fun _ => hwriter, hfell,
          fun hopen => ⟨hfresh hopen, hstaging⟩⟩

theorem Live.forceRoll_keeps (hlive : Live w) :
    Keeps cfg start w (w.forceRoll cfg env) fun v =>
      v.partBytes = 0 ∧ v.staging.core = w.staging.core := by
  have hforced : Live (w.setStaging fun s => { s with cutReason := .forced }) := hlive.of_view rfl
  refine Keeps.behind ((hforced.roll_keeps haccepts).andThen fun v hv hopen => ?_) hlive rfl
  refine keeps_of_view hv rfl fun hsome => ?_
  obtain ⟨hbytes, hstaging⟩ := hopen hsome
  refine ⟨hbytes, ?_⟩
  change ({ v.staging with forcedCuts := _ } : Staging).core = _
  rw [hstaging]
  rfl

omit haccepts in
theorem forcedCutDue_room (hbytes : 0 < cfg.maxBytes) (hnot : (w.forcedCutDue cfg env).1 = false) :
    w.partBytes < cfg.ceiling := by
  unfold forcedCutDue at hnot
  split at hnot
  · cases hnot
  · exact Nat.lt_of_not_le (of_decide_eq_false hnot)

/-- After `ForceRollIfDue` the part is below the ceiling. -/
theorem Live.forceRollIfDue_keeps (hlive : Live w) (hbytes : 0 < cfg.maxBytes) :
    Keeps cfg start w (w.forceRollIfDue cfg env) fun v =>
      v.partBytes < cfg.ceiling ∧ (v.partBytes = 0 ∨ v.partBytes = w.partBytes) ∧
        v.staging.core = w.staging.core := by
  obtain ⟨tick, htick⟩ := @forcedCutDue_tick cfg env w
  have hticked : Live { w with tick := tick } := hlive.of_view rfl
  have hceiling : 0 < cfg.ceiling := Nat.lt_of_lt_of_le hbytes (Nat.le_add_right ..)
  unfold McapWriter.forceRollIfDue
  dsimp only
  rw [htick]
  split
  · refine ((hticked.forceRoll_keeps haccepts).mono ?_).behind hlive rfl
    rintro v - ⟨hfresh, hcore⟩
    rw [hfresh]
    exact ⟨hceiling, Or.inl rfl, hcore⟩
  next hdue =>
    have hroom : w.partBytes < cfg.ceiling :=
      forcedCutDue_room hbytes (Bool.eq_false_iff.mpr hdue)
    exact keeps_of_view hlive rfl fun _ => ⟨hroom, Or.inr rfl, rfl⟩

end Rolls

/-! ## Records -/

section Records

variable {cfg : WriterConfig} {env : Env} {start : Start} {w : McapWriter} {channel : Channel}
  {msg : RecordedMessage}

/-- The bytes of an open part are those recorded in it. -/
theorem Recording.partBytes_eq (hrecording : Recording w) :
    w.partBytes = payloadBytes (eventsOf w.partIndex w.log) := by
  obtain ⟨body, ⟨opening, reason, point, hevents, hopening, -⟩, -, hbytes⟩ := hrecording.story
  have hnone : payloadBytes opening = 0 := by
    refine payloadBytes_of_opening fun event hevent => ?_
    exact hopening event hevent
  rw [hevents, payloadBytes_append, hnone, hbytes, Nat.zero_add, payloadBytes]
  exact (Nat.zero_add _).symm

/-- What the library writes before the record leaves the bytes of the part. -/
theorem allowed_of_room (hlive : Live w) (hopen : w.writerOpen = true)
    (hroom : w.partBytes < cfg.ceiling) {events : List Event}
    (hwriting : ∀ event ∈ events, event.isWriting = true)
    (hpart : ∀ event ∈ events, event.part = w.partIndex) :
    Allowed cfg start (w.log ++ events) (.record w.partIndex channel msg) := by
  refine Or.inl ?_
  rw [eventsOf_append_same hpart, payloadBytes_append, payloadBytes_of_writing hwriting,
    Nat.add_zero, ← (hlive.recording hopen).partBytes_eq]
  exact hroom

/-- A record goes into the current part, if it may. -/
theorem Live.writeRecord_keeps (hlive : Live w) (hpolicy : cfg.policy.isSome = true)
    (hallowed : w.writerOpen = true → ∀ events, (∀ event ∈ events, event.isWriting = true) →
      (∀ event ∈ events, event.part = w.partIndex) →
      Allowed cfg start (w.log ++ events) (.record w.partIndex channel msg)) :
    Keeps cfg start w (w.writeRecord cfg env channel msg) fun v =>
      v.staging = w.staging ∧ v.partBytes ≤ w.partBytes + msg.payload.length ∧
        v.partIndex = w.partIndex := by
  have hlive' : Live (w.writeRecord cfg env channel msg).state := hlive.writeRecord channel msg
  have hstaging : (w.writeRecord cfg env channel msg).state.staging = w.staging :=
    hlive.writeRecord_staging channel msg
  have hsame : w.rollIfDue cfg env channel msg = ⟨w, false⟩ := if_pos (by simp [hpolicy])
  have hstays : Keeps cfg start w ⟨w, false⟩ fun v =>
      v.staging = w.staging ∧ v.partBytes ≤ w.partBytes + msg.payload.length ∧
        v.partIndex = w.partIndex :=
    keeps_of_view hlive rfl fun _ => ⟨rfl, Nat.le_add_right .., rfl⟩
  -- The branches of `WriteRecord`: refused or closed, dropped at the gate, refused by the library,
  -- recorded.
  unfold McapWriter.writeRecord at hlive' hstaging ⊢
  split at hlive'
  next hguard =>
    rw [if_pos hguard]
    exact hstays
  next hguard =>
    rw [if_neg hguard, hsame, Run.andThen_ok] at hstaging ⊢
    rw [hsame, Run.andThen_ok] at hlive'
    split at hlive'
    next hstopped =>
      rw [if_pos hstopped]
      exact hstays
    next hgoes =>
      rw [if_neg hgoes] at hstaging ⊢
      have hopen : w.writerOpen = true := by
        simp only [Bool.or_eq_true, not_or] at hgoes
        simpa using hgoes.1
      -- The gate changes the staging side and its counters, not the part.
      have hview : (w.gate cfg channel msg).2.view = w.view := gate_view channel msg
      have hlog : (w.gate cfg channel msg).2.log = w.log := congrArg PartsView.log hview
      have hindex : (w.gate cfg channel msg).2.partIndex = w.partIndex :=
        congrArg PartsView.partIndex hview
      have hbytes : (w.gate cfg channel msg).2.partBytes = w.partBytes :=
        congrArg PartsView.partBytes hview
      dsimp only at hlive' hstaging ⊢
      generalize (w.gate cfg channel msg).2 = v at *
      split at hlive'
      next hpass =>
        rw [if_pos hpass] at hstaging ⊢
        obtain ⟨events, hwrote⟩ := writes_libraryWrites cfg env v
        have hpart : ∀ event ∈ events, event.part = w.partIndex := fun event hevent =>
          (hwrote.part event hevent).trans hindex
        unfold McapWriter.writeMessage at hlive' hstaging ⊢
        dsimp only at hlive' hstaging ⊢
        split at hlive'
        next hrefused =>
          rw [if_pos hrefused] at hstaging ⊢
          have hnone : RecordsNone w (v.libraryWrites cfg env) :=
            (recordsNone_of_log hlog).trans (Writes.recordsNone ⟨events, hwrote⟩)
          refine ⟨hnone.adds hlive' fun _ => hopen, fun hthrew => (by cases hthrew), fun _ =>
            ⟨hstaging, ?_, ?_⟩⟩
          · rw [hwrote.state]
            change v.partBytes ≤ _
            rw [hbytes]
            exact Nat.le_add_right ..
          · rw [hwrote.state]
            exact hindex
        next haccepted =>
          rw [if_neg haccepted] at hstaging ⊢
          -- The record stands behind what the library wrote on its own account.
          have hgrown : (v.libraryWrites cfg env).log = w.log ++ events := by
            rw [hwrote.state, ← hlog]
          have hcurrent : (v.libraryWrites cfg env).partIndex = w.partIndex := by
            rw [hwrote.state]
            exact hindex
          have hrecorded : ((v.libraryWrites cfg env).countRecord channel msg).log =
              w.log ++ (events ++ [.record w.partIndex channel msg]) := by
            change (v.libraryWrites cfg env).log ++
              [.record (v.libraryWrites cfg env).partIndex channel msg] = _
            rw [hgrown, hcurrent, List.append_assoc]
          refine ⟨⟨hlive', fun _ => hopen, _, hrecorded, logged_append.mpr ⟨?_, ?_⟩⟩, fun hthrew =>
            (by cases hthrew), fun _ => ⟨hstaging, ?_, hcurrent⟩⟩
          · exact along_of_mem (fun event hevent _ => allowed_of_plain
              (plain_of_isWriting (hwrote.writing event hevent)).2) _
          · exact logged_singleton.mpr (hallowed hopen events hwrote.writing hpart)
          · change (v.libraryWrites cfg env).partBytes + msg.payload.length ≤ _
            rw [hwrote.state]
            change v.partBytes + _ ≤ _
            rw [hbytes]
      next hpass =>
        rw [if_neg hpass] at hstaging ⊢
        refine ⟨(recordsNone_of_log hlog).adds hlive' fun _ => hopen,
          fun hthrew => (by cases hthrew), fun _ => ⟨hstaging, ?_, hindex⟩⟩
        change v.partBytes ≤ _
        rw [hbytes]
        exact Nat.le_add_right ..

end Records

/-! ## Flushes -/

/-- The messages `entries` are staged, with their payload bytes counted. -/
structure Queue (entries : List Pending) (status : StartStatus) (w : McapWriter) : Prop where
  staged : w.staging.staged = entries
  payload : w.staging.stagedPayloadBytes = totalPayload entries
  status : w.staging.startStatus = status

/-- The messages `entries` are left of the group of the start, in the part that waited unless
that lost bytes. -/
structure Starting (start : Start) (entries : List Pending) (w : McapWriter) : Prop where
  waiting : start.waiting
  group : ∀ arrival ∈ arrivalsOf entries, arrival ∈ start.group
  place : w.partIndex = start.part ∨ LostBytes w.log

/-- What is staged is counted and, once the take has started, below the ceiling. -/
structure Capped (cfg : WriterConfig) (start : Start) (w : McapWriter) : Prop where
  weighed : w.staging.stagedPayloadBytes = totalPayload w.staging.staged
  room : w.staging.startStatus ≠ .waiting → totalPayload w.staging.staged < cfg.ceiling
  waiting : w.staging.startStatus = .waiting → start.waiting ∧ w.partIndex = start.part ∧
    ∀ arrival ∈ arrivalsOf w.staging.staged, arrival ∈ start.group

section Flushes

variable {cfg : WriterConfig} {env : Env} {start : Start} {w v : McapWriter}
  {entries : List Pending} {status : StartStatus}

theorem Queue.of_core (hqueue : Queue entries status w) (hcore : v.staging.core = w.staging.core) :
    Queue entries status v where
  staged := (congrArg Staging.staged hcore :).trans hqueue.staged
  payload := (congrArg Staging.stagedPayloadBytes hcore :).trans hqueue.payload
  status := (congrArg Staging.startStatus hcore :).trans hqueue.status

theorem Queue.pop {entry : Pending} {rest : List Pending}
    (hqueue : Queue (entry :: rest) status w) : Queue rest status (w.popStaged entry) where
  staged := by
    change w.staging.staged.tail = rest
    rw [hqueue.staged]
    rfl
  payload := by
    change w.staging.stagedPayloadBytes - entry.msg.payload.length = _
    rw [hqueue.payload, totalPayload, Nat.add_sub_cancel_left]
  status := hqueue.status

/-- A part that must be cut has lost bytes. -/
theorem lostBytes_of_mustCut (hlive : Live w) (hopen : w.writerOpen = true)
    (hmust : w.mustCut cfg = true) : LostBytes w.log := by
  obtain ⟨body, ⟨opening, reason, point, hevents, -, -⟩, hholds, -⟩ :=
    (hlive.recording hopen).story
  have hlost : w.outcome.lostBytes = true := (Bool.and_eq_true_iff.mp hmust).2
  rw [hholds.lostBytes_eq] at hlost
  obtain ⟨failure, hfound⟩ := Option.isSome_iff_exists.mp hlost
  obtain ⟨event, hevent, hfailure⟩ := List.mem_filterMap.mp (List.mem_of_find?_eq_some hfound)
  have hmem : event ∈ eventsOf w.partIndex w.log := by
    rw [hevents]
    exact List.mem_append_right _ (List.mem_cons_of_mem _ hevent)
  have hloses := List.find?_some hfound
  exact ⟨failure, List.mem_filterMap.mpr ⟨event, List.mem_of_mem_filter hmem, hfailure⟩, hloses⟩

/-- The rule for the loop of `FlushStaged`. -/
theorem flushEntries_keeps {rotate allowForced : Bool} {I : List Pending → McapWriter → Prop}
    (hstep : ∀ entry rest v, Live v → (v.writerOpen = true → I (entry :: rest) v) →
      Keeps cfg start v
        ((if allowForced && (!rotate || v.mustCut cfg) then v.forceRollIfDue cfg env
          else (⟨v, false⟩ : Run McapWriter)).andThen fun v =>
            v.writeRecord cfg env entry.channel entry.msg)
        fun u => I rest (u.popStaged entry))
    (hlive : Live w) (hw : w.writerOpen = true → I entries w) :
    Keeps cfg start w (McapWriter.flushEntries cfg env rotate allowForced entries w) (I []) := by
  induction entries generalizing w with
  | nil => exact keeps_of_view hlive rfl hw
  | cons entry rest ih =>
      unfold McapWriter.flushEntries
      refine (hstep entry rest w hlive hw).andThen fun v hv hopen => ?_
      have hpopped : Live (v.popStaged entry) := hv.of_view rfl
      exact (ih hpopped hopen).behind hv rfl

variable (haccepts : env.Accepts) (hpolicy : cfg.policy.isSome = true) (hbytes : 0 < cfg.maxBytes)
include haccepts hpolicy hbytes

/-- The loop of a flush that gives its group up cuts the part where it is full. -/
theorem Live.cancelEntries_keeps (hlive : Live w)
    (hw : w.writerOpen = true → Queue entries status w) :
    Keeps cfg start w (McapWriter.flushEntries cfg env false true entries w)
      (Queue [] status) := by
  refine flushEntries_keeps (I := fun entries v => Queue entries status v) ?_ hlive hw
  intro entry rest v hv hqueue
  have hforced : Keeps cfg start v (v.forceRollIfDue cfg env) fun u =>
      u.partBytes < cfg.ceiling ∧ Queue (entry :: rest) status u :=
    (hv.forceRollIfDue_keeps haccepts hbytes).mono fun u hopen hu =>
      ⟨hu.1, (hqueue hopen).of_core hu.2.2⟩
  refine hforced.andThen fun u hu hroom => ?_
  refine (hu.writeRecord_keeps hpolicy fun hopen events hwriting hpart =>
    allowed_of_room hu hopen (hroom hopen).1 hwriting hpart).mono fun z hopen hz => ?_
  exact ((hroom hopen).2.of_core (congrArg Staging.core hz.1)).pop

/-- The loop of an aligned cut starts from an empty part, and what it writes before its last
message stays below the ceiling. -/
theorem Live.alignedEntries_keeps (hlive : Live w)
    (hw : w.writerOpen = true → Queue entries status w ∧
      (entries ≠ [] → w.partBytes + totalPayload entries.dropLast < cfg.ceiling)) :
    Keeps cfg start w (McapWriter.flushEntries cfg env true true entries w)
      (Queue [] status) := by
  refine (flushEntries_keeps (I := fun entries v => Queue entries status v ∧
    (entries ≠ [] → v.partBytes + totalPayload entries.dropLast < cfg.ceiling)) ?_ hlive hw).mono
    fun v _ hv => hv.1
  intro entry rest v hv hqueue
  have hforced : Keeps cfg start v
      (if true && (!true || v.mustCut cfg) then v.forceRollIfDue cfg env
        else (⟨v, false⟩ : Run McapWriter))
      fun u => Queue (entry :: rest) status u ∧
        u.partBytes + totalPayload (entry :: rest).dropLast < cfg.ceiling := by
    split
    · refine (hv.forceRollIfDue_keeps haccepts hbytes).mono fun u hopen hu => ?_
      obtain ⟨hstaged, hroom⟩ := hqueue hopen
      have hroom' := hroom (List.cons_ne_nil _ _)
      refine ⟨hstaged.of_core hu.2.2, ?_⟩
      rcases hu.2.1 with hfresh | hsame
      · rw [hfresh]
        omega
      · rw [hsame]
        exact hroom'
    · exact keeps_of_view hv rfl fun hopen =>
        ⟨(hqueue hopen).1, (hqueue hopen).2 (List.cons_ne_nil _ _)⟩
  refine hforced.andThen fun u hu hroom => ?_
  have hbelow : u.writerOpen = true → u.partBytes < cfg.ceiling := fun hopen =>
    Nat.lt_of_le_of_lt (Nat.le_add_right ..) (hroom hopen).2
  refine (hu.writeRecord_keeps hpolicy fun hopen events hwriting hpart =>
    allowed_of_room hu hopen (hbelow hopen) hwriting hpart).mono fun z hopen hz => ?_
  refine ⟨((hroom hopen).1.of_core (congrArg Staging.core hz.1)).pop, fun hsome => ?_⟩
  have hless := (hroom hopen).2
  rw [List.dropLast_cons_of_ne_nil hsome, totalPayload] at hless
  have hgrew : z.partBytes ≤ u.partBytes + entry.msg.payload.length := hz.2.1
  change z.partBytes + _ < _
  omega

/-- The loop of the start group writes into the part that waited, unless that loses bytes. -/
theorem Live.startEntries_keeps (hlive : Live w)
    (hw : w.writerOpen = true → Queue entries status w ∧ Starting start entries w) :
    Keeps cfg start w (McapWriter.flushEntries cfg env true true entries w)
      (Queue [] status) := by
  refine (flushEntries_keeps (I := fun entries v => Queue entries status v ∧
    Starting start entries v) ?_ hlive hw).mono fun v _ hv => hv.1
  intro entry rest v hv hqueue
  have hforced : Keeps cfg start v
      (if true && (!true || v.mustCut cfg) then v.forceRollIfDue cfg env
        else (⟨v, false⟩ : Run McapWriter))
      fun u => Queue (entry :: rest) status u ∧ Starting start (entry :: rest) u := by
    split
    next hmust =>
      refine (hv.forceRollIfDue_keeps haccepts hbytes).logged.mono fun u hopen hu => ?_
      obtain ⟨⟨-, -, hcore⟩, events, hlog⟩ := hu
      obtain ⟨hstaged, hwaiting, hgroup, -⟩ := hqueue hopen
      have hlost : LostBytes v.log := lostBytes_of_mustCut hv hopen (by simpa using hmust)
      refine ⟨hstaged.of_core hcore, hwaiting, hgroup, Or.inr ?_⟩
      rw [hlog]
      exact hlost.append events
    next => exact keeps_of_view hv rfl hqueue
  refine hforced.andThen fun u hu hroom => ?_
  have hallowed : u.writerOpen = true → ∀ events, (∀ event ∈ events, event.isWriting = true) →
      (∀ event ∈ events, event.part = u.partIndex) →
      Allowed cfg start (u.log ++ events) (.record u.partIndex entry.channel entry.msg) := by
    intro hopen events _ _
    obtain ⟨-, hwaiting, hgroup, hplace⟩ := hroom hopen
    exact Or.inr ⟨hwaiting, hgroup _ (List.mem_cons_self ..),
      hplace.imp_right fun hlost => hlost.append events⟩
  refine (hu.writeRecord_keeps hpolicy hallowed).logged.mono fun z hopen hz => ?_
  obtain ⟨⟨hstaging, -, hindex⟩, events, hlog⟩ := hz
  obtain ⟨hstaged, hwaiting, hgroup, hplace⟩ := hroom hopen
  refine ⟨(hstaged.of_core (congrArg Staging.core hstaging)).pop, hwaiting, fun arrival harrival =>
    hgroup arrival (List.mem_cons_of_mem _ harrival), ?_⟩
  refine hplace.imp (fun hsame => hindex.trans hsame) fun hlost => ?_
  change LostBytes z.log
  rw [hlog]
  exact hlost.append events

/-! ### What is staged between two programs -/

omit haccepts hpolicy hbytes in
theorem Capped.of_staged (hcapped : Capped cfg start w)
    (hstaged : v.staging.staged = w.staging.staged)
    (hpayload : v.staging.stagedPayloadBytes = w.staging.stagedPayloadBytes)
    (hstatus : v.staging.startStatus = w.staging.startStatus)
    (hindex : w.staging.startStatus = .waiting → v.partIndex = w.partIndex) :
    Capped cfg start v := by
  refine ⟨?_, ?_, fun hwaiting => ?_⟩
  · rw [hstaged, hpayload]
    exact hcapped.weighed
  · rw [hstaged, hstatus]
    exact hcapped.room
  · rw [hstatus] at hwaiting
    rw [hstaged, hindex hwaiting]
    exact hcapped.waiting hwaiting

omit haccepts hpolicy hbytes in
theorem Capped.of_core (hcapped : Capped cfg start w) (hcore : v.staging.core = w.staging.core)
    (hindex : w.staging.startStatus = .waiting → v.partIndex = w.partIndex) :
    Capped cfg start v :=
  hcapped.of_staged (congrArg Staging.staged hcore :) (congrArg Staging.stagedPayloadBytes hcore :)
    (congrArg Staging.startStatus hcore :) hindex

omit haccepts hpolicy in
theorem Queue.capped (hqueue : Queue [] status w) (hstatus : status ≠ .waiting) :
    Capped cfg start w := by
  refine ⟨?_, fun _ => ?_, fun hwaiting => absurd (hqueue.status.symm.trans hwaiting) hstatus⟩
  · rw [hqueue.staged]
    exact hqueue.payload
  · rw [hqueue.staged]
    exact Nat.lt_of_lt_of_le hbytes (Nat.le_add_right ..)

omit haccepts hpolicy in
theorem failStart_capped : Capped cfg start w.failStart := by
  have hempty : Queue [] .timedOut w.failStart := ⟨rfl, rfl, rfl⟩
  exact hempty.capped hbytes (by decide)

/-- A flush that gives its group up. -/
theorem Live.cancel_keeps (hlive : Live w)
    (hw : w.writerOpen = true → w.staging.stagedPayloadBytes = totalPayload w.staging.staged) :
    Keeps cfg start w (w.flushStaged cfg env false true)
      (Queue [] w.staging.startStatus) := by
  unfold McapWriter.flushStaged
  split
  next hnone =>
    refine keeps_of_view hlive rfl fun hopen => ⟨hnone, ?_, rfl⟩
    rw [hw hopen, hnone]
  next =>
    have hcounted : Live (w.setStaging fun s => { s with cancelledCuts := s.cancelledCuts + 1 }) :=
      hlive.of_view rfl
    have hcut : w.cutForFlush cfg env false =
        ⟨w.setStaging fun s => { s with cancelledCuts := s.cancelledCuts + 1 }, false⟩ := rfl
    dsimp only
    rw [hcut, Run.andThen_ok]
    refine Keeps.behind ((hcounted.cancelEntries_keeps haccepts hpolicy hbytes fun hopen =>
      ⟨rfl, hw hopen, rfl⟩).andThen fun v hv hqueue => ?_) hlive rfl
    refine keeps_of_view hv rfl fun hopen => ⟨(hqueue hopen).staged, (hqueue hopen).payload, ?_⟩
    change (if _ then StartStatus.ready else v.staging.startStatus) = _
    rw [if_neg (by simp)]
    exact (hqueue hopen).status

/-- An aligned cut. -/
theorem Live.align_keeps (hlive : Live w) (hstarted : w.staging.startStatus ≠ .waiting)
    (hw : w.writerOpen = true → w.staging.stagedPayloadBytes = totalPayload w.staging.staged ∧
      totalPayload w.staging.staged.dropLast < cfg.ceiling) :
    Keeps cfg start w (w.flushStaged cfg env true true)
      (Queue [] w.staging.startStatus) := by
  unfold McapWriter.flushStaged
  split
  next hnone =>
    refine keeps_of_view hlive rfl fun hopen => ⟨hnone, ?_, rfl⟩
    rw [(hw hopen).1, hnone]
  next =>
    have haligned : Live (w.setStaging fun s => { s with cutReason := .aligned }) :=
      hlive.of_view rfl
    have hcut : Keeps cfg start w (w.cutForFlush cfg env true) fun v =>
        Queue w.staging.staged w.staging.startStatus v ∧
          v.partBytes + totalPayload w.staging.staged.dropLast < cfg.ceiling := by
      unfold McapWriter.cutForFlush
      rw [if_neg (by decide), if_neg hstarted]
      have hrolled : Keeps cfg start w
          ((w.setStaging fun s => { s with cutReason := .aligned }).roll cfg env) fun v =>
          Queue w.staging.staged w.staging.startStatus v ∧
            v.partBytes + totalPayload w.staging.staged.dropLast < cfg.ceiling := by
        refine ((haligned.roll_keeps haccepts).mono fun v hopen hv => ?_).behind hlive rfl
        obtain ⟨hfresh, hstaging⟩ := hv
        obtain ⟨hweighed, hroom⟩ := hw hopen
        refine ⟨⟨?_, ?_, ?_⟩, ?_⟩
        · rw [hstaging]
          rfl
        · rw [hstaging]
          exact hweighed
        · rw [hstaging]
          rfl
        · rw [hfresh, Nat.zero_add]
          exact hroom
      exact hrolled.andThen fun v hv hqueue => keeps_of_view hv rfl fun hopen =>
        ⟨(hqueue hopen).1.of_core rfl, (hqueue hopen).2⟩
    refine hcut.andThen fun u hu hqueue => ?_
    have hwritten : Keeps cfg start u (flushEntries cfg env true true u.staging.staged u)
        (Queue [] w.staging.startStatus) := by
      refine Live.alignedEntries_keeps haccepts hpolicy hbytes hu fun hopen => ?_
      obtain ⟨hstaged, hroom⟩ := hqueue hopen
      rw [hstaged.staged]
      exact ⟨hstaged, fun _ => hroom⟩
    refine hwritten.andThen fun v hv hdone => ?_
    refine keeps_of_view hv rfl fun hopen => ⟨(hdone hopen).staged, (hdone hopen).payload, ?_⟩
    change (if _ then StartStatus.ready else v.staging.startStatus) = _
    rw [if_neg (by simp [hstarted])]
    exact (hdone hopen).status

/-- The flush of the group of the start. -/
theorem Live.startFlush_keeps (hlive : Live w) (hwaiting : w.staging.startStatus = .waiting)
    (hw : w.writerOpen = true → Capped cfg start w) :
    Keeps cfg start w (w.flushStaged cfg env true true) (Capped cfg start) := by
  unfold McapWriter.flushStaged
  split
  next => exact keeps_of_view hlive rfl hw
  next =>
    have hwrote : Live (w.libraryWrites cfg env) := hlive.libraryWrites
    have hcut : w.cutForFlush cfg env true = ⟨w.libraryWrites cfg env, false⟩ := by
      unfold McapWriter.cutForFlush McapWriter.writeMetadata
      rw [if_neg (by decide), if_pos hwaiting, haccepts]
      rfl
    obtain ⟨events, hlibrary⟩ := writes_libraryWrites cfg env w
    have hopened : (w.libraryWrites cfg env).writerOpen = w.writerOpen := by rw [hlibrary.state]
    have hstaging : (w.libraryWrites cfg env).staging = w.staging := by rw [hlibrary.state]
    have hindex : (w.libraryWrites cfg env).partIndex = w.partIndex := by rw [hlibrary.state]
    have hadds : Adds cfg start w (w.libraryWrites cfg env) :=
      (Writes.recordsNone ⟨events, hlibrary⟩).adds hwrote fun hopen => hopened ▸ hopen
    have hready : (w.libraryWrites cfg env).writerOpen = true →
        Queue w.staging.staged .waiting (w.libraryWrites cfg env) ∧
          Starting start w.staging.staged (w.libraryWrites cfg env) := by
      intro hopen
      rw [hopened] at hopen
      obtain ⟨hstarts, hpart, hgroup⟩ := (hw hopen).waiting hwaiting
      refine ⟨⟨?_, ?_, ?_⟩, hstarts, hgroup, Or.inl (hindex.trans hpart)⟩
      · rw [hstaging]
      · rw [hstaging]
        exact (hw hopen).weighed
      · rw [hstaging]
        exact hwaiting
    dsimp only
    rw [hcut, Run.andThen_ok, hstaging]
    refine Keeps.prepend ((hwrote.startEntries_keeps haccepts hpolicy hbytes
      hready).andThen fun v hv hdone => ?_) hadds
    refine keeps_of_view hv rfl fun hopen => ?_
    refine Queue.capped hbytes ⟨(hdone hopen).staged, (hdone hopen).payload, ?_⟩
      (show StartStatus.ready ≠ .waiting by decide)
    exact if_pos ⟨hwaiting, rfl⟩

end Flushes

/-! ## Writing -/

section Writing

variable {cfg : WriterConfig} {env : Env} {start : Start} {w v : McapWriter}
  {policy : RotationPolicy} {channel : Channel} {msg : RecordedMessage}

/-- A part at the ceiling is cut before a message that no group holds up. -/
theorem openGroup_full (hbytes : 0 < cfg.maxBytes) (hnone : w.staging.candidateIds = [])
    (hstarted : w.staging.startStatus ≠ .waiting) (hfull : cfg.ceiling ≤ w.partBytes)
    (idr : Bool) : ∃ tick, w.openGroup cfg env policy idr channel msg =
      forceRoll cfg env { w with tick := tick } := by
  have hcap : 0 < cfg.maxBytes ∧ cfg.maxBytes ≤ w.partBytes :=
    ⟨hbytes, Nat.le_trans (Nat.le_add_right ..) hfull⟩
  have hrotating : cfg.rotating = true := by simp [WriterConfig.rotating, hbytes]
  have hdue : w.cutDue cfg env = (true, w) := by
    have hsome : w.partBytes ≠ 0 := by omega
    unfold cutDue shouldRoll
    rw [if_neg hstarted, if_pos hrotating, if_neg hsome]
    split
    · rfl
    · rfl
  have hforced : (w.forcedCutDue cfg env).1 = true := by
    unfold forcedCutDue
    split
    · rfl
    · exact decide_eq_true hfull
  obtain ⟨tick, htick⟩ := @cutsAtOnce_tick cfg env w policy
  have honce : (w.cutsAtOnce cfg env policy).1 = true := by
    unfold cutsAtOnce
    rw [if_neg hstarted, hforced]
    rfl
  refine ⟨tick, ?_⟩
  unfold McapWriter.openGroup
  rw [if_neg (not_not_intro hnone), hdue]
  dsimp only
  rw [if_pos rfl, htick, if_pos honce]

variable (haccepts : env.Accepts) (hpolicy : cfg.policy.isSome = true) (hbytes : 0 < cfg.maxBytes)
include haccepts hpolicy hbytes

omit haccepts hbytes in
/-- A message goes into a part below the ceiling, and what is staged stays. -/
theorem Live.direct_keeps (hlive : Live w)
    (hw : w.writerOpen = true → Capped cfg start w ∧ w.partBytes < cfg.ceiling) :
    Keeps cfg start w (w.writeRecord cfg env channel msg) (Capped cfg start) := by
  refine (hlive.writeRecord_keeps hpolicy fun hopen events hwriting hpart =>
    allowed_of_room hlive hopen (hw hopen).2 hwriting hpart).mono fun v hopen hv => ?_
  exact (hw hopen).1.of_core (congrArg Staging.core hv.1) fun _ => hv.2.2

/-- The group is given up, the part cut if it is full, and the message recorded. -/
theorem Live.overflow_keeps (hlive : Live w) (hstarted : w.staging.startStatus ≠ .waiting)
    (hw : w.writerOpen = true → Capped cfg start w) :
    Keeps cfg start w
      (((w.flushStaged cfg env false true).andThen fun w => w.forceRollIfDue cfg env))
      fun v => Capped cfg start v ∧ v.partBytes < cfg.ceiling := by
  refine (hlive.cancel_keeps haccepts hpolicy hbytes fun hopen => (hw hopen).weighed).andThen
    fun v hv hdone => ?_
  refine (hv.forceRollIfDue_keeps haccepts hbytes).mono fun u hopen hu => ⟨?_, hu.1⟩
  exact ((hdone hopen).of_core hu.2.2).capped hbytes hstarted

theorem Live.flushDue_keeps (hlive : Live w) (hw : w.writerOpen = true → Capped cfg start w) :
    Keeps cfg start w (w.flushDue cfg env) (Capped cfg start) := by
  have hticked : Live w.tock := hlive.of_view rfl
  unfold McapWriter.flushDue
  split
  · exact keeps_of_view hlive rfl hw
  · split
    · exact keeps_of_view hlive rfl fun hopen => (hw hopen).of_core rfl fun _ => rfl
    · split
      · exact keeps_of_view hlive rfl fun _ => failStart_capped hbytes
      next hstarted =>
        refine ((hticked.cancel_keeps haccepts hpolicy hbytes fun hopen =>
          (hw hopen).weighed).mono fun v _ hv => ?_).behind hlive rfl
        exact hv.capped hbytes hstarted

theorem Live.writePreceding_keeps (hlive : Live w)
    (hw : w.writerOpen = true → Capped cfg start w) :
    Keeps cfg start w (w.writePreceding cfg env channel msg) (Capped cfg start) := by
  obtain ⟨tick, htick⟩ := @forcedCutDue_tick cfg env w
  have hticked : Live { w with tick := tick } := hlive.of_view rfl
  unfold McapWriter.writePreceding
  split
  · exact keeps_of_view hlive rfl fun hopen => (hw hopen).of_core rfl fun _ => rfl
  next hstarted =>
    dsimp only
    rw [htick]
    have hflushed : Keeps cfg start w
        (if (w.forcedCutDue cfg env).1 then
          (McapWriter.flushStaged cfg env { w with tick := tick } false true).andThen fun w =>
            w.forceRollIfDue cfg env
        else (⟨{ w with tick := tick }, false⟩ : Run McapWriter))
        fun v => Capped cfg start v ∧ v.partBytes < cfg.ceiling := by
      split
      · exact (hticked.overflow_keeps haccepts hpolicy hbytes hstarted fun hopen =>
          (hw hopen).of_core rfl fun _ => rfl).behind hlive rfl
      next hdue =>
        have hroom : w.partBytes < cfg.ceiling :=
          forcedCutDue_room hbytes (Bool.eq_false_iff.mpr hdue)
        exact keeps_of_view hlive rfl fun hopen =>
          ⟨(hw hopen).of_core rfl fun _ => rfl, hroom⟩
    exact hflushed.andThen fun v hv hroom => hv.direct_keeps hpolicy hroom

omit hpolicy in
theorem Live.openGroup_keeps (hlive : Live w) (idr : Bool)
    (hw : w.writerOpen = true → Capped cfg start w) :
    Keeps cfg start w (w.openGroup cfg env policy idr channel msg) fun v =>
      Capped cfg start v ∧ (v.staging.candidateIds = [] → v.staging.startStatus ≠ .waiting →
        v.partBytes < cfg.ceiling) := by
  have hceiling : 0 < cfg.ceiling := Nat.lt_of_lt_of_le hbytes (Nat.le_add_right ..)
  have hforced : ∀ tick, w.staging.startStatus ≠ .waiting →
      Keeps cfg start w (forceRoll cfg env { w with tick := tick }) fun v =>
        Capped cfg start v ∧ (v.staging.candidateIds = [] → v.staging.startStatus ≠ .waiting →
          v.partBytes < cfg.ceiling) := by
    intro tick hstarted
    have hticked : Live { w with tick := tick } := hlive.of_view rfl
    refine ((hticked.forceRoll_keeps haccepts).mono fun v hopen hv => ⟨?_, fun _ _ => ?_⟩).behind
      hlive rfl
    · exact (hw hopen).of_core hv.2 fun hwaiting => absurd hwaiting hstarted
    · rw [hv.1]
      exact hceiling
  by_cases hfull : w.staging.candidateIds = [] ∧ w.staging.startStatus ≠ .waiting ∧
      cfg.ceiling ≤ w.partBytes
  · obtain ⟨tick, hroll⟩ := @openGroup_full cfg env w policy channel msg hbytes hfull.1 hfull.2.1
      hfull.2.2 idr
    rw [hroll]
    exact hforced tick hfull.2.1
  · rcases @openGroup_cases cfg env w policy channel msg idr with
      ⟨hsame, hsome⟩ | ⟨hnone, tick, hquiet | ⟨hstarted, -, hroll⟩ | ⟨-, -, hbegun⟩⟩
    · rw [hsame]
      exact keeps_of_view hlive rfl fun hopen => ⟨hw hopen, fun hnone => absurd hnone hsome⟩
    · rw [hquiet]
      refine keeps_of_view hlive rfl fun hopen => ⟨(hw hopen).of_core rfl fun _ => rfl, ?_⟩
      exact fun _ hstarted => Nat.lt_of_not_le fun hmore => hfull ⟨hnone, hstarted, hmore⟩
    · rw [hroll]
      exact hforced tick hstarted
    · rw [hbegun]
      exact keeps_of_view hlive rfl fun hopen =>
        ⟨(hw hopen).of_staged rfl rfl rfl fun _ => rfl, fun hnone => by cases hnone⟩

/-- A message behind a group is staged, and may complete the group or fill the part. -/
theorem Live.stage_keeps (hlive : Live w) (idr : Bool) (hown : (channel, msg) ∈ start.group)
    (hw : w.writerOpen = true → Capped cfg start w) :
    Keeps cfg start w ((w.stage cfg idr channel msg).flushIfComplete cfg env policy)
      (Capped cfg start) := by
  obtain ⟨hview, -, hstaged, -, hpayload, hstatus, -⟩ := @stage_cases cfg w idr channel msg
  have hlive' : Live (w.stage cfg idr channel msg) := hlive.of_view hview
  have hopened : (w.stage cfg idr channel msg).writerOpen = w.writerOpen :=
    congrArg PartsView.writerOpen hview
  have hindex : (w.stage cfg idr channel msg).partIndex = w.partIndex :=
    congrArg PartsView.partIndex hview
  generalize w.stage cfg idr channel msg = v at *
  have hweighed : v.writerOpen = true →
      v.staging.stagedPayloadBytes = totalPayload v.staging.staged := by
    intro hopen
    rw [hpayload, hstaged, (hw (hopened ▸ hopen)).weighed, totalPayload_append]
    rfl
  have hcapped : v.writerOpen = true → (v.staging.startStatus ≠ .waiting →
      totalPayload v.staging.staged < cfg.ceiling) → Capped cfg start v := by
    intro hopen hroom
    refine ⟨hweighed hopen, hroom, fun hwaiting => ?_⟩
    obtain ⟨hstarts, hpart, hgroup⟩ := (hw (hopened ▸ hopen)).waiting (hstatus ▸ hwaiting)
    refine ⟨hstarts, hindex.trans hpart, ?_⟩
    rw [hstaged, arrivalsOf_append]
    refine List.forall_mem_append.mpr ⟨hgroup, ?_⟩
    exact fun arrival harrival => List.mem_singleton.mp harrival ▸ hown
  refine Keeps.behind ?_ hlive hview
  unfold McapWriter.flushIfComplete
  split
  · by_cases hwaiting : v.staging.startStatus = .waiting
    · exact hlive'.startFlush_keeps haccepts hpolicy hbytes hwaiting fun hopen =>
        hcapped hopen fun hstarted => absurd hwaiting hstarted
    · refine (hlive'.align_keeps haccepts hpolicy hbytes hwaiting fun hopen =>
        ⟨hweighed hopen, ?_⟩).mono fun u _ hu => hu.capped hbytes hwaiting
      -- the message that completes the group is the last of the part's new records
      rw [hstaged, List.dropLast_concat]
      exact (hw (hopened ▸ hopen)).room (hstatus ▸ hwaiting)
  · split
    next hfull =>
      exact (hlive'.cancel_keeps haccepts hpolicy hbytes hweighed).mono fun u _ hu =>
        hu.capped hbytes hfull.1
    next hroom =>
      refine keeps_of_view hlive' rfl fun hopen => hcapped hopen fun hstarted => ?_
      rw [← hweighed hopen]
      refine Nat.lt_of_not_le fun hmore => hroom ⟨hstarted, hbytes, ?_⟩
      exact Nat.le_trans hmore (Nat.le_add_left ..)

theorem Live.writeBehindGroup_keeps (hlive : Live w) (idr : Bool)
    (hown : (channel, msg) ∈ start.group) (hw : w.writerOpen = true → Capped cfg start w) :
    Keeps cfg start w (w.writeBehindGroup cfg env policy idr channel msg) (Capped cfg start) := by
  unfold McapWriter.writeBehindGroup
  split
  · split
    · exact keeps_of_view hlive rfl fun _ => failStart_capped hbytes
    next hstarted =>
      exact (hlive.overflow_keeps haccepts hpolicy hbytes hstarted hw).andThen
        fun v hv hroom => hv.direct_keeps hpolicy hroom
  · exact hlive.stage_keeps haccepts hpolicy hbytes idr hown hw

theorem Live.continueTake_keeps (hlive : Live w) (idr : Bool)
    (hown : (channel, msg) ∈ start.group) (hw : w.writerOpen = true → Capped cfg start w) :
    Keeps cfg start w (w.continueTake cfg env policy idr channel msg) (Capped cfg start) := by
  refine (hlive.openGroup_keeps haccepts hbytes idr hw).andThen fun v hv hroom => ?_
  split
  next hnone =>
    unfold McapWriter.writeDirectly
    split
    · refine keeps_of_view hv (by split <;> rfl) fun hopen => ?_
      split
      · exact (hroom hopen).1.of_core rfl fun _ => rfl
      · exact (hroom hopen).1
    next hstarted =>
      exact hv.direct_keeps hpolicy fun hopen =>
        ⟨(hroom hopen).1, (hroom hopen).2 hnone hstarted⟩
  next =>
    exact hv.writeBehindGroup_keeps haccepts hpolicy hbytes idr hown fun hopen => (hroom hopen).1

theorem Live.writeContinuation_keeps (hlive : Live w) (hown : (channel, msg) ∈ start.group)
    (hw : w.writerOpen = true → Capped cfg start w) :
    Keeps cfg start w (w.writeContinuation cfg env policy channel msg) (Capped cfg start) := by
  refine (hlive.flushDue_keeps haccepts hpolicy hbytes hw).andThen fun v hv hcapped => ?_
  have hgoes : Keeps cfg start v
      (v.continueTake cfg env policy (v.isIdr cfg channel msg) channel msg) (Capped cfg start) :=
    hv.continueTake_keeps haccepts hpolicy hbytes _ hown hcapped
  dsimp only
  split
  · exact keeps_of_view hv rfl hcapped
  · split
    · exact keeps_of_view hv rfl fun hopen => (hcapped hopen).of_core rfl fun _ => rfl
    · split
      · split
        · exact hv.writePreceding_keeps haccepts hpolicy hbytes hcapped
        · split
          · split
            · exact keeps_of_view hv rfl fun _ => failStart_capped hbytes
            next hstarted =>
              refine (hv.cancel_keeps haccepts hpolicy hbytes fun hopen =>
                (hcapped hopen).weighed).andThen fun u hu hdone => ?_
              exact hu.continueTake_keeps haccepts hpolicy hbytes _ hown fun hopen =>
                (hdone hopen).capped hbytes hstarted
          · exact hgoes
      · exact hgoes

end Writing

/-! ## Calls -/

/-- The message that a call hands over. -/
def arrivalOf : Op → List Arrival
  | .write channel msg => [(channel, msg)]
  | _ => []

/-- The start of a take whose first part is `first`, as the call finds it. -/
def startAt (first : ℕ) (w : McapWriter) (op : Op) : Start where
  waiting := w.staging.startStatus = .waiting
  part := first
  group := arrivalsOf w.staging.staged ++ arrivalOf op

/-- Between two calls of a take whose first part is `first`. -/
structure Roomy (cfg : WriterConfig) (first : ℕ) (w : McapWriter) : Prop where
  live : Live w
  capped : w.writerOpen = true →
    Capped cfg { waiting := True, part := first, group := arrivalsOf w.staging.staged } w

section Calls

variable {cfg : WriterConfig} {env : Env} {first : ℕ} {w v : McapWriter}

theorem Roomy.at_call (hroomy : Roomy cfg first w) (op : Op) (hopen : w.writerOpen = true) :
    Capped cfg (startAt first w op) w where
  weighed := (hroomy.capped hopen).weighed
  room := (hroomy.capped hopen).room
  waiting := by
    intro hwaiting
    obtain ⟨-, hpart, -⟩ := (hroomy.capped hopen).waiting hwaiting
    exact ⟨hwaiting, hpart, fun _ harrival => List.mem_append_left _ harrival⟩

/-- The part, and what is staged, stay. -/
theorem Roomy.stays (hroomy : Roomy cfg first w) (hlive : Live v)
    (hopened : v.writerOpen = w.writerOpen) (hindex : v.partIndex = w.partIndex)
    (hstaged : v.staging.staged = w.staging.staged)
    (hpayload : v.staging.stagedPayloadBytes = w.staging.stagedPayloadBytes)
    (hstatus : v.staging.startStatus = w.staging.startStatus) : Roomy cfg first v := by
  refine ⟨hlive, fun hopen => ?_⟩
  rw [hstaged]
  exact (hroomy.capped (hopened ▸ hopen)).of_staged hstaged hpayload hstatus fun _ => hindex

theorem Keeps.roomy {op : Op} {r : Run McapWriter}
    (hkeeps : Keeps cfg (startAt first w op) w r (Capped cfg (startAt first w op))) :
    Roomy cfg first r.state ∧ Adds cfg (startAt first w op) w r.state := by
  refine ⟨⟨hkeeps.adds.live, fun hopen => ?_⟩, hkeeps.adds⟩
  have hcapped := hkeeps.after hopen
  exact ⟨hcapped.weighed, hcapped.room, fun hwaiting =>
    ⟨trivial, (hcapped.waiting hwaiting).2.1, fun _ harrival => harrival⟩⟩

variable (haccepts : env.Accepts) (hpolicy : cfg.policy.isSome = true) (hbytes : 0 < cfg.maxBytes)
include haccepts hpolicy hbytes

/-- One call before `Close`. -/
theorem Roomy.apply (hroomy : Roomy cfg first w) {op : Op} (hop : op ≠ .close) :
    Roomy cfg first (w.apply cfg env op).state ∧
      Adds cfg (startAt first w op) w (w.apply cfg env op).state := by
  have hlive := hroomy.live
  have hcapped : w.writerOpen = true → Capped cfg (startAt first w op) w := hroomy.at_call op
  obtain ⟨policy, hsome⟩ := Option.isSome_iff_exists.mp hpolicy
  cases op with
  | write channel msg =>
      refine Keeps.roomy ?_
      unfold McapWriter.apply McapWriter.write
      dsimp only
      split
      · exact keeps_of_view hlive rfl hcapped
      · rw [hsome]
        exact hlive.writeContinuation_keeps haccepts hpolicy hbytes
          (List.mem_append_right _ (List.mem_singleton_self _)) hcapped
  | flushDue => exact Keeps.roomy (hlive.flushDue_keeps haccepts hpolicy hbytes hcapped)
  | armStart target wait =>
      unfold McapWriter.apply McapWriter.armStart
      dsimp only
      rw [hsome]
      dsimp only
      repeat' split
      all_goals first
        | exact ⟨hroomy, adds_of_view hlive rfl⟩
        | exact ⟨hroomy.stays (hlive.of_view rfl) rfl rfl rfl rfl rfl, adds_of_view hlive rfl⟩
  | setMetadata nonempty =>
      -- Metadata records no message, so the room that was there is still there.
      have hnamed : Live { w with hasMeta := nonempty } := hlive.of_view rfl
      obtain ⟨events, hwrote⟩ := writes_writeStoredMetadata cfg env { w with hasMeta := nonempty }
      have hlive' : Live (w.setMetadata cfg env nonempty) := by
        unfold McapWriter.setMetadata McapWriter.writeStoredMetadata
        split
        · exact hnamed.libraryWrites
        · exact hnamed
      have hsame : (w.setMetadata cfg env nonempty).writerOpen = w.writerOpen ∧
          (w.setMetadata cfg env nonempty).partIndex = w.partIndex ∧
          (w.setMetadata cfg env nonempty).staging = w.staging := by
        unfold McapWriter.setMetadata
        rw [hwrote.state]
        exact ⟨rfl, rfl, rfl⟩
      obtain ⟨hopened, hindex, hstaging⟩ := hsame
      have hwritten := Writes.recordsNone ⟨events, hwrote⟩
      have hnone : RecordsNone w (w.setMetadata cfg env nonempty) := hwritten
      exact ⟨hroomy.stays hlive' hopened hindex (congrArg Staging.staged hstaging)
        (congrArg Staging.stagedPayloadBytes hstaging) (congrArg Staging.startStatus hstaging),
        hnone.adds hlive' fun hopen => hopened ▸ hopen⟩
  | close => exact absurd rfl hop

omit hpolicy in
/-- The constructor records nothing. -/
theorem construct_roomy :
    Roomy cfg (construct cfg env).state.partIndex (construct cfg env).state ∧
      RecordsNone {} (construct cfg env).state := by
  have harm : (arm cfg env {}).state.view = McapWriter.view {} := arm_view
  have hlog : (arm cfg env {}).state.log = [] := congrArg PartsView.log harm
  have hclosed : (arm cfg env {}).state.writerOpen = false := congrArg PartsView.writerOpen harm
  have hstaged : (arm cfg env {}).state.staging.staged = [] ∧
      (arm cfg env {}).state.staging.stagedPayloadBytes = 0 := by
    unfold arm
    dsimp only
    repeat' split
    all_goals exact ⟨rfl, rfl⟩
  have hopening : Opening (arm cfg env {}).state := opening_of_view harm
  have hsteady : Steady (construct cfg env).state := construct_steady
  unfold construct at hsteady ⊢
  generalize arm cfg env {} = armed at *
  have hbegun : RecordsNone {} armed.state := recordsNone_of_log hlog
  cases hthrew : armed.threw with
  | true =>
      rw [Run.andThen, hthrew] at hsteady ⊢
      rw [if_pos rfl] at hsteady ⊢
      refine ⟨⟨hsteady.live (congrArg PartsView.closed harm), fun hopen => ?_⟩, hbegun⟩
      rw [hclosed] at hopen
      cases hopen
  | false =>
      rw [Run.andThen_of_quiet hthrew] at hsteady ⊢
      have hbeside : Beside cfg armed.state (armed.state.openPart cfg env).state := openPart_beside
      refine ⟨⟨hsteady.live (hbeside.closed.trans (congrArg PartsView.closed harm)), fun _ => ?_⟩,
        hbegun.trans (openPart_fresh haccepts hclosed).1⟩
      rw [hbeside.staging]
      refine ⟨?_, fun _ => ?_, fun _ => ⟨trivial, rfl, ?_⟩⟩
      · rw [hbeside.staging, hstaged.1]
        exact hstaged.2
      · rw [hbeside.staging, hstaged.1]
        exact Nat.lt_of_lt_of_le hbytes (Nat.le_add_right ..)
      · rw [hbeside.staging]
        exact fun _ harrival => harrival

end Calls

/-! ## The whole take -/

/-- The record behind `before` was made by a call that found the start still waited for, of a
message that was staged or that the call handed over; it is in the first part, unless bytes of
a part were lost before. -/
structure StartRecord (cfg : WriterConfig) (env : Env) (ops : List Op) (before : List Event)
    (part : ℕ) (arrival : Arrival) : Prop where
  place : part = (construct cfg env).state.partIndex ∨ LostBytes before
  call : ∃ begun op rest, ops = begun ++ op :: rest ∧
    (run cfg env begun).staging.startStatus = .waiting ∧
    arrival ∈ arrivalsOf (run cfg env begun).staging.staged ++ arrivalOf op ∧
    (run cfg env begun).log.length ≤ before.length ∧
    before.length < (run cfg env (begun ++ [op])).log.length

section Runs

variable {cfg : WriterConfig} {env : Env} {ops : List Op} {before : List Event} {part : ℕ}
  {channel : Channel} {msg : RecordedMessage}

theorem StartRecord.snoc {arrival : Arrival} (hstart : StartRecord cfg env ops before part arrival)
    (op : Op) : StartRecord cfg env (ops ++ [op]) before part arrival := by
  obtain ⟨begun, made, rest, hops, hcall⟩ := hstart.call
  refine ⟨hstart.place, begun, made, rest ++ [op], ?_, hcall⟩
  rw [hops, List.append_assoc, List.cons_append]

theorem run_snoc (hquiet : (construct cfg env).threw = false) (op : Op) :
    run cfg env (ops ++ [op]) = ((run cfg env ops).apply cfg env op).state := by
  unfold run
  rw [if_neg (by rw [hquiet]; decide), if_neg (by rw [hquiet]; decide), runFrom, List.foldl_append]
  rfl

variable (haccepts : env.Accepts) (hpolicy : cfg.policy.isSome = true) (hbytes : 0 < cfg.maxBytes)
include haccepts hpolicy hbytes

/-- Every record of a run, at its place in the log. -/
theorem run_roomy (hquiet : (construct cfg env).threw = false) (hops : Op.close ∉ ops) :
    Roomy cfg (construct cfg env).state.partIndex (run cfg env ops) ∧
      ∀ before part channel msg after,
        (run cfg env ops).log = before ++ .record part channel msg :: after →
          payloadBytes (eventsOf part before) < cfg.ceiling ∨
            StartRecord cfg env ops before part (channel, msg) := by
  induction ops using List.reverseRecOn with
  | nil =>
      obtain ⟨hroomy, events, hlog, hplain⟩ := @construct_roomy cfg env haccepts hbytes
      have hrun : run cfg env [] = (construct cfg env).state := by
        unfold run
        rw [if_neg (by rw [hquiet]; decide)]
        rfl
      rw [hrun]
      refine ⟨hroomy, fun before part channel msg after hsplit => ?_⟩
      have hmem : .record part channel msg ∈ events := by
        rw [← List.nil_append events, ← show _ = _ from hlog, hsplit]
        simp
      cases hplain _ hmem
  | append_singleton ops op ih =>
      obtain ⟨hroomy, hrecords⟩ := ih fun hmem => hops (List.mem_append_left _ hmem)
      have hop : op ≠ .close := by
        rintro rfl
        exact hops (List.mem_append_right _ (List.mem_singleton_self _))
      obtain ⟨hroomy', hadds⟩ := hroomy.apply haccepts hpolicy hbytes hop
      obtain ⟨events, hlog, hlogged⟩ := hadds.grows
      have hnext := @run_snoc cfg env ops hquiet op
      refine ⟨hnext ▸ hroomy', fun before part channel msg after hsplit => ?_⟩
      have hgrown : (run cfg env (ops ++ [op])).log = (run cfg env ops).log ++ events := by
        rw [hnext, hlog]
      rw [hgrown] at hsplit
      rcases append_eq_append_cons hsplit with ⟨front, rfl, hnew⟩ | ⟨rest, hold, -⟩
      · rw [hnew] at hlogged
        refine (Logged.entry hlogged).imp_right fun hstart => ?_
        obtain ⟨hwaiting, hgroup, hplace⟩ := hstart
        refine ⟨hplace, ops, op, [], rfl, hwaiting, hgroup, ?_, ?_⟩
        · rw [List.length_append]
          exact Nat.le_add_right ..
        · rw [hgrown, hnew]
          simp
      · exact (hrecords before part channel msg rest hold).imp_right fun hstart => hstart.snoc op

end Runs

/-- For every behaviour of storage and every sequence of calls before `Close`: a record goes
into a part whose bytes are below the ceiling, or is one of the start; so a part ends below the
ceiling and its last message, unless that message is one of the start. -/
theorem run_ceiling (cfg : WriterConfig) (env : Env) (ops : List Op)
    (hpolicy : cfg.policy.isSome = true) (hbytes : 0 < cfg.maxBytes) (haccepts : env.Accepts)
    (hops : Op.close ∉ ops) (before : List Event) (part : ℕ) (channel : Channel)
    (msg : RecordedMessage) (after : List Event)
    (hlog : (run cfg env ops).log = before ++ .record part channel msg :: after) :
    (payloadBytes (eventsOf part before) < cfg.ceiling ∨
        StartRecord cfg env ops before part (channel, msg)) ∧
      (payloadBytes (eventsOf part after) = 0 →
        payloadBytes (eventsOf part (run cfg env ops).log) < cfg.ceiling + msg.payload.length ∨
          StartRecord cfg env ops before part (channel, msg)) := by
  have hrecord : payloadBytes (eventsOf part before) < cfg.ceiling ∨
      StartRecord cfg env ops before part (channel, msg) := by
    cases hthrew : (construct cfg env).threw with
    | false =>
        exact (run_roomy haccepts hpolicy hbytes hthrew hops).2 before part channel msg after hlog
    | true =>
        -- the constructor threw, and recorded nothing
        obtain ⟨-, events, hplain, hnone⟩ := @construct_roomy cfg env haccepts hbytes
        unfold run at hlog
        rw [if_pos hthrew] at hlog
        have hmem : .record part channel msg ∈ events := by
          rw [← List.nil_append events, ← show _ = _ from hplain, hlog]
          simp
        cases hnone _ hmem
  refine ⟨hrecord, fun hlast => hrecord.imp_left fun hbelow => ?_⟩
  have hown : eventsOf part [Event.record part channel msg] = [.record part channel msg] := by
    simp [eventsOf, Event.part]
  have hsplit : eventsOf part (run cfg env ops).log = eventsOf part before ++
      ([.record part channel msg] ++ eventsOf part after) := by
    rw [hlog, ← hown]
    simp only [eventsOf, ← List.filter_append, List.singleton_append]
  rw [hsplit, payloadBytes_append, payloadBytes_append, hlast, Nat.add_zero]
  exact Nat.add_lt_add_right hbelow _

/-- Two cameras, and parts of 8 bytes, so a ceiling of 9. -/
def smallTake : WriterConfig where
  policy := some { crampedPolicy with maxStagedBytes := 4000, maxStagedBytes_pos := by decide }
  maxBytes := 8
  rotateOnKeyframe := true
  duration_of_pos := noDuration

def audio : Channel := { id := 3 }

/-- Two large messages between the keyframes of the start, and one behind it. -/
def loudStart : List Op :=
  [.write (camera 1) (frame true 0 0 1), .write audio (frame false 0 0 10),
    .write audio (frame false 0 1 10), .write (camera 2) (frame true 0 0 1),
    .write audio (frame false 0 2 1)]

/-- The message behind the start opens the next part. -/
theorem run_ceiling_loud :
    payloadBytes (eventsOf 1 (run smallTake ticking loudStart).log) < 10 ∨
      StartRecord smallTake ticking loudStart ((run smallTake ticking loudStart).log.take 12) 1
        (audio, frame false 0 2 1) :=
  (run_ceiling smallTake ticking loudStart rfl (by decide) (fun _ => rfl) (by decide)
    ((run smallTake ticking loudStart).log.take 12) 1 audio (frame false 0 2 1) []
    (by decide +kernel)).2 rfl

/-- Storage that loses the bytes of the first record of `loudStart`. -/
def losing : Env :=
  { ticking with
    writes := fun _ => [1]
    io := fun tick call =>
      match call with
      | .append _ size =>
          if tick = 17 then { step := .append, error := EIO } else { accepted := size }
      | .header => { accepted := 32 }
      | _ => {} }

/-- Where the first part loses bytes while the start is flushed, the rest of the start goes into
the next part, past its ceiling. -/
theorem not_run_ceiling : ¬∀ cfg env ops before part channel msg after,
    cfg.policy.isSome = true → 0 < cfg.maxBytes → env.Accepts → Op.close ∉ ops →
    (run cfg env ops).log = before ++ .record part channel msg :: after →
      payloadBytes (eventsOf part before) < cfg.ceiling ∨
        part = (construct cfg env).state.partIndex := by
  intro hclaim
  let log : List Event := (run smallTake losing loudStart).log
  have hbound := hclaim smallTake losing loudStart (log.take 19) 1 audio (frame false 0 1 10)
    (log.drop 20) rfl (by decide) (fun _ => rfl) (by decide) (by decide +kernel)
  exact absurd hbound (by decide +kernel)

end McapWriter

end VisioSchema.Mcap

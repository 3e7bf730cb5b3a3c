import VisioSchema.Mcap.Numbering

/-!
# Takes in which nothing fails

Where storage never fails and the MCAP library refuses nothing, a roll opens the next part and a
record lands: what the log gains is told by its `marks`, the openings and the records.

## Strategy

Under these assumptions (`Env.Healthy`, `Env.Accepts`) no program throws, and what a writer does
is a function of its staging side.  `Going` is the state between two steps: the part is open, and
nothing has failed in it.  From there a step is described by the marks that it adds.

* `Goes`: messages were recorded in the open part, or in parts that rolls opened on the way, but
  none of those by an aligned cut.
* `Records`: the same, and the group and what is staged stayed as they were.
* `Flushed`: the staged messages were written, as they stood.

`Going.roll` and `Going.writeRecord` are the two steps that add a mark.  The gate in front of a
record lets keyframes and the frames of primed streams pass (`gate_passes`), so that a flush
loses no message as long as every camera that is not primed opens its frames with a keyframe
(`Warm`).
-/

namespace VisioSchema.Mcap

open VisioSchema.Library VisioSchema.Wire VisioSchema.Routing

/-! ## Marks -/

/-- A message handed to the writer. -/
abbrev Arrival := Channel × RecordedMessage

namespace Event

/-- The opening of a part, or a record. -/
def isMark (event : Event) : Bool := event.isOpened || event.isRecord

/-- The message that an event records. -/
def arrival : Event → Option Arrival
  | record _ channel msg => some (channel, msg)
  | _ => none

/-- The opening of a part by an aligned cut. -/
def isAligned : Event → Bool
  | opened _ .aligned _ => true
  | _ => false

end Event

def marks (log : List Event) : List Event := log.filter Event.isMark

/-- The messages that were recorded, in order. -/
def recorded (log : List Event) : List Arrival := log.filterMap Event.arrival

theorem marks_append (first second : List Event) :
    marks (first ++ second) = marks first ++ marks second := List.filter_append ..

theorem recorded_append (first second : List Event) :
    recorded (first ++ second) = recorded first ++ recorded second := List.filterMap_append ..

theorem marks_eq_nil {events : List Event}
    (hplain : ∀ event ∈ events, event.isOpened = false ∧ event.isRecord = false) :
    marks events = [] := by
  refine List.filter_eq_nil_iff.mpr fun event hevent => ?_
  obtain ⟨hopened, hrecord⟩ := hplain event hevent
  simp [Event.isMark, hopened, hrecord]

/-- Parts are opened, and messages recorded, in the order of the parts. -/
def PartsInOrder (log : List Event) : Prop :=
  (marks log).Pairwise fun event later => event.part ≤ later.part

theorem PartsInOrder.of_marks {log log' : List Event} (horder : PartsInOrder log)
    (hmarks : marks log' = marks log) : PartsInOrder log' := by
  rw [PartsInOrder, hmarks]
  exact horder

theorem PartsInOrder.push {log log' : List Event} {mark : Event} (horder : PartsInOrder log)
    (hmarks : marks log' = marks log ++ [mark]) (hlast : ∀ event ∈ log, event.part ≤ mark.part) :
    PartsInOrder log' := by
  rw [PartsInOrder, hmarks, List.pairwise_append]
  refine ⟨horder, List.pairwise_singleton .., fun event hevent later hlater => ?_⟩
  rw [List.mem_singleton.mp hlater]
  exact hlast event (List.mem_of_mem_filter hevent)

/-- Only marks record. -/
theorem recorded_marks (log : List Event) : recorded (marks log) = recorded log := by
  rw [marks, recorded, List.filterMap_filter]
  refine congrArg (fun arrival => log.filterMap arrival) (funext fun event => ?_)
  cases event <;> rfl

/-- The staging side without its counts and the reason of the next cut. -/
def Staging.core (s : Staging) : Staging :=
  { s with
    cutReason := .initial
    alignedCuts := 0
    forcedCuts := 0
    cancelledCuts := 0
    stagePeak := 0 }

/-- The group that a cut waits for, without what is staged behind it. -/
def Staging.group (s : Staging) : Staging :=
  { s.core with staged := [], stagedBytes := 0, stagedPayloadBytes := 0 }

/-! ## What is staged -/

def arrivalsOf (entries : List Pending) : List Arrival :=
  entries.map fun entry => (entry.channel, entry.msg)

/-- The events that record messages in a part. -/
def recordsIn (part : ℕ) (arrivals : List Arrival) : List Event :=
  arrivals.map fun arrival => .record part arrival.1 arrival.2

/-- The frames of one camera, in order. -/
def frames (id : ℕ) (arrivals : List Arrival) : List RecordedMessage :=
  arrivals.filterMap fun arrival =>
    if isVideo arrival.1 = true ∧ arrival.1.id = id then some arrival.2 else none

theorem frames_append (id : ℕ) (first second : List Arrival) :
    frames id (first ++ second) = frames id first ++ frames id second := List.filterMap_append ..

theorem frames_cons_own {id : ℕ} {arrival : Arrival} (hvideo : isVideo arrival.1 = true)
    (hid : arrival.1.id = id) (rest : List Arrival) :
    frames id (arrival :: rest) = arrival.2 :: frames id rest := by
  simp [frames, hvideo, hid]

theorem frames_cons_other {id : ℕ} {arrival : Arrival}
    (hother : ¬(isVideo arrival.1 = true ∧ arrival.1.id = id)) (rest : List Arrival) :
    frames id (arrival :: rest) = frames id rest := by
  simp [frames, hother]

def totalBytes : List Pending → ℕ
  | [] => 0
  | entry :: rest => entry.bytes + totalBytes rest

def totalPayload : List Pending → ℕ
  | [] => 0
  | entry :: rest => entry.msg.payload.length + totalPayload rest

theorem totalBytes_append (first second : List Pending) :
    totalBytes (first ++ second) = totalBytes first + totalBytes second := by
  induction first with
  | nil => simp [totalBytes]
  | cons entry rest ih => rw [List.cons_append, totalBytes, totalBytes, ih, Nat.add_assoc]

theorem totalPayload_append (first second : List Pending) :
    totalPayload (first ++ second) = totalPayload first + totalPayload second := by
  induction first with
  | nil => simp [totalPayload]
  | cons entry rest ih => rw [List.cons_append, totalPayload, totalPayload, ih, Nat.add_assoc]

/-- The counts of staged bytes are those of the staged messages. -/
structure Weighed (s : Staging) : Prop where
  bytes : s.stagedBytes = totalBytes s.staged
  payload : s.stagedPayloadBytes = totalPayload s.staged

theorem Weighed.of_core {s s' : Staging} (hweighed : Weighed s) (hcore : s'.core = s.core) :
    Weighed s' := by
  have hsame : Weighed s.core := ⟨hweighed.bytes, hweighed.payload⟩
  rw [← hcore] at hsame
  exact ⟨hsame.bytes, hsame.payload⟩

/-- Every selected camera that is not primed opens its frames with a keyframe. -/
def Warm (policy : RotationPolicy) (primed : List ℕ) (arrivals : List Arrival) : Prop :=
  ∀ id ∈ policy.videoIds, id ∉ primed → ∀ first later, frames id arrivals = first :: later →
    first.keyframe = true

theorem selectedVideo_iff {cfg : WriterConfig} {policy : RotationPolicy}
    (hpolicy : cfg.policy = some policy) (channel : Channel) :
    cfg.selectedVideo channel = true ↔
      isVideo channel = true ∧ channel.id ∈ policy.videoIds := by
  simp [WriterConfig.selectedVideo, hpolicy]

theorem Warm.tail {policy : RotationPolicy} {primed primed' : List ℕ} {arrival : Arrival}
    {rest : List Arrival} (hwarm : Warm policy primed (arrival :: rest))
    (hmore : ∀ id ∈ primed, id ∈ primed')
    (hown : isVideo arrival.1 = true → arrival.1.id ∈ policy.videoIds → arrival.1.id ∈ primed') :
    Warm policy primed' rest := by
  intro id hid hcold first later hframes
  refine hwarm id hid (fun hprimed => hcold (hmore id hprimed)) first later ?_
  rw [frames_cons_other ?_, hframes]
  rintro ⟨hvideo, rfl⟩
  exact hcold (hown hvideo hid)

namespace McapWriter

/-- The writer is between two calls or in one, its part is open, and nothing has failed in
it. -/
structure Going (w : McapWriter) : Prop where
  live : Live w
  writer : w.writerOpen = true
  unfailed : w.outcome.failed = false
  refused : w.outcome.refused = false
  ordered : PartsInOrder w.log

section Going

variable {cfg : WriterConfig} {env : Env} {w w' : McapWriter}

theorem Going.recording (hgoing : Going w) : Recording w := hgoing.live.recording hgoing.writer

theorem Going.closed (hgoing : Going w) : w.closed = false := hgoing.live.2

theorem Going.storageRefused (hgoing : Going w) : w.storageRefused = false := by
  rw [McapWriter.storageRefused, hgoing.refused, hgoing.recording.ended]
  rfl

theorem Going.mustCut (hgoing : Going w) : w.mustCut cfg = false := by
  obtain ⟨body, -, hholds, -⟩ := hgoing.recording.story
  have hnone : failures body = [] := by
    by_contra hsome
    have hfailed := hgoing.unfailed
    rw [hholds.failed_iff.mpr hsome] at hfailed
    cases hfailed
  have hkept : w.outcome.lostBytes = false := by
    rw [hholds.lostBytes_eq, hnone]
    rfl
  rw [McapWriter.mustCut, hkept, Bool.and_false]

theorem Going.of_view (hgoing : Going w) (hview : w'.view = w.view) : Going w' := by
  have houtcome : w'.outcome = w.outcome := congrArg PartsView.outcome hview
  have hlog : w'.log = w.log := congrArg PartsView.log hview
  refine ⟨hgoing.live.of_view hview, ?_, ?_, ?_, ?_⟩
  · exact (congrArg PartsView.writerOpen hview).trans hgoing.writer
  · rw [houtcome]
    exact hgoing.unfailed
  · rw [houtcome]
    exact hgoing.refused
  · rw [hlog]
    exact hgoing.ordered

/-- From `w` to `w'` the take went on: the messages `new` were recorded, with no aligned
cut. -/
structure Goes (new : List Arrival) (w w' : McapWriter) : Prop where
  going : Going w'
  grows : ∃ events, marks w'.log = marks w.log ++ events ∧ recorded events = new ∧
    ∀ event ∈ events, event.isAligned = false
  primed : ∀ id ∈ w.primed, id ∈ w'.primed

theorem Goes.trans {first second : List Arrival} {w'' : McapWriter} (hfirst : Goes first w w')
    (hsecond : Goes second w' w'') : Goes (first ++ second) w w'' where
  going := hsecond.going
  grows := by
    obtain ⟨before, hbefore, hfirsts, hplain⟩ := hfirst.grows
    obtain ⟨after, hafter, hseconds, hplain'⟩ := hsecond.grows
    refine ⟨before ++ after, ?_, ?_, List.forall_mem_append.mpr ⟨hplain, hplain'⟩⟩
    · rw [hafter, hbefore, List.append_assoc]
    · rw [recorded_append, hfirsts, hseconds]
  primed := fun id hid => hsecond.primed id (hfirst.primed id hid)

theorem Goes.recorded {new : List Arrival} (hgoes : Goes new w w') :
    recorded w'.log = recorded w.log ++ new := by
  obtain ⟨events, hmarks, hnew, -⟩ := hgoes.grows
  rw [← recorded_marks, hmarks, recorded_append, recorded_marks, hnew]

/-- Nothing that the take sees has changed. -/
theorem goes_of_view (hgoing : Going w) (hview : w'.view = w.view)
    (hprimed : w'.primed = w.primed) :
    Goes [] w w' := by
  have hlog : w'.log = w.log := congrArg PartsView.log hview
  refine ⟨hgoing.of_view hview, ⟨[], ?_, rfl, by simp⟩, fun id hid => ?_⟩
  · rw [hlog, List.append_nil]
  · rw [hprimed]
    exact hid

theorem Going.libraryWrites (hgoing : Going w) (henv : env.Healthy) :
    Goes [] w (w.libraryWrites cfg env) ∧
      marks (w.libraryWrites cfg env).log = marks w.log ∧
      (w.libraryWrites cfg env).staging = w.staging ∧
      (w.libraryWrites cfg env).partIndex = w.partIndex := by
  obtain ⟨events, hwrote⟩ := writes_libraryWrites cfg env w
  have houtcome : (w.libraryWrites cfg env).outcome = w.outcome := by
    rw [hwrote.state]
    exact PartOutcome.absorb_of_failures_nil (hwrote.healthy henv)
  have hlog : marks (w.libraryWrites cfg env).log = marks w.log := by
    rw [hwrote.state, marks_append, marks_eq_nil fun event hevent =>
      plain_of_isWriting (hwrote.writing event hevent), List.append_nil]
  refine ⟨⟨⟨hgoing.live.libraryWrites, ?_, ?_, ?_, hgoing.ordered.of_marks hlog⟩,
    ⟨[], ?_, rfl, by simp⟩, ?_⟩, hlog, ?_, ?_⟩
  · rw [hwrote.state]
    exact hgoing.writer
  · rw [houtcome]
    exact hgoing.unfailed
  · rw [houtcome]
    exact hgoing.refused
  · rw [hlog, List.append_nil]
  · rw [hwrote.state]
    exact fun id hid => hid
  · rw [hwrote.state]
  · rw [hwrote.state]

/-! ## Opening and rolling -/

variable (henv : env.Healthy) (haccepts : env.Accepts)
include henv haccepts

/-- `OpenPart` opens the part at the first try.  The cameras stay primed under a rotation
policy only. -/
theorem Opening.openPart_going (hopening : Opening w) (hclosed : w.closed = false)
    (hordered : PartsInOrder w.log) :
    (w.openPart cfg env).Ends fun v => Going v ∧
      marks v.log = marks w.log ++
        [.opened w.partIndex w.staging.cutReason w.staging.candidatePoint] ∧
      v.partIndex = w.partIndex ∧ v.primed = if cfg.policy.isSome then w.primed else [] := by
  have hok : (w.tryOpenPart cfg env (decide (0 + 1 = 4))).1.failure.error = 0 :=
    tryOpenPart_healthy cfg env w henv _
  -- The storage answers every call, so the first attempt opens the part and the loop ends there.
  have hfirst : w.openPart cfg env = (w.tryOpenPart cfg env (decide (0 + 1 = 4))).2 := by
    unfold McapWriter.openPart openLoop
    dsimp only
    rw [if_pos hok]
  have hrecording := hopening.opened _ hok
  have hbeside : Beside cfg w (w.tryOpenPart cfg env (decide (0 + 1 = 4))).2.state :=
    tryOpenPart_beside _
  obtain ⟨opened, made, events, -, -, -, hhandled, hstart⟩ := tryOpenPart_opened cfg env w _ hok
  rw [hfirst]
  rw [hstart] at hrecording hbeside ⊢
  obtain ⟨body, hwrote⟩ := writes_startPart cfg env opened
  have hclosed' : (opened.startPart cfg env).state.closed = false := hbeside.closed.trans hclosed
  have houtcome : (opened.startPart cfg env).state.outcome = w.outcome.begin := by
    rw [hwrote.state]
    refine (PartOutcome.absorb_of_failures_nil (hwrote.healthy henv)).trans ?_
    change opened.outcome = _
    rw [hhandled.state]
    rfl
  -- Opening and starting write no mark of their own: the only one is the part's.
  have hmarks : marks (opened.startPart cfg env).state.log = marks w.log ++
      [.opened w.partIndex w.staging.cutReason w.staging.candidatePoint] := by
    have hbefore : marks opened.log = marks w.log := by
      rw [hhandled.state]
      change marks (w.log ++ _) = _
      rw [marks_append, marks_eq_nil fun event hevent =>
        plain_of_isOpening (hhandled.opening event hevent), List.append_nil]
    have hafter : marks body = [] := marks_eq_nil fun event hevent =>
      plain_of_isWriting (hwrote.writing event hevent)
    have hindex : opened.partIndex = w.partIndex := by rw [hhandled.state]; rfl
    have hstaging : opened.staging = w.staging := by rw [hhandled.state]; rfl
    rw [hwrote.state]
    change marks (opened.log ++ [.opened opened.partIndex opened.staging.cutReason
      opened.staging.candidatePoint] ++ body) = _
    rw [marks_append, marks_append, hbefore, hafter, List.append_nil, hindex, hstaging]
    rfl
  refine ⟨startPart_threw cfg env opened haccepts,
    ⟨⟨Or.inl ⟨hrecording, hclosed'⟩, hclosed'⟩, hrecording.writer, ?_, ?_,
      hordered.push hmarks hopening.filed.future⟩, hmarks, ?_, ?_⟩
  · rw [houtcome]
    rfl
  · rw [houtcome]
    exact hopening.refused
  · rw [hwrote.state]
    change opened.partIndex = _
    rw [hhandled.state]
    rfl
  · rw [hwrote.state]
    change opened.primed = _
    rw [hhandled.state]
    rfl

omit haccepts in
theorem Going.close_refused (hgoing : Going w) :
    (w.closeCurrentPart cfg env).outcome.refused = false := by
  obtain ⟨events, checkpointed, closed, hclosed, hhealthy⟩ :=
    closeWriter_closes cfg env w hgoing.recording.file
  obtain ⟨hnone, hcheckpointed, hdone⟩ := hhealthy henv
  have hwriter : (w.closeWriter cfg env).outcome.refused = false := by
    rw [hclosed.state]
    change (w.outcome.absorb _).refused = false
    rw [PartOutcome.absorb_of_failures_nil, hgoing.refused]
    rw [failures_append, hnone]
    simp [failures, Event.failure, hcheckpointed, hdone]
  unfold closeCurrentPart
  dsimp only
  split
  · obtain ⟨removed, removal, hhandled, -, -⟩ := dropPart_removes env (w.closeWriter cfg env)
    rw [hhandled.state]
    exact hwriter
  · obtain ⟨synced, completed, hstate, hhealthy'⟩ :=
      completePart_completes env (w.closeWriter cfg env)
    obtain ⟨hsynced, hcompleted⟩ := hhealthy' henv
    rw [hstate]
    dsimp only
    rw [complete_refused _ w.partIndex {}, ← PartOutcome.absorb_append,
      PartOutcome.absorb_of_failures_nil, hwriter]
    simp [failures, Event.failure, hsynced, hcompleted]

/-- A roll opens the next part. -/
theorem Going.roll_opens (hgoing : Going w) :
    (w.roll cfg env).Ends fun v => Going v ∧
      marks v.log = marks w.log ++
        [.opened (w.partIndex + 1) w.staging.cutReason w.staging.candidatePoint] ∧
      v.partIndex = w.partIndex + 1 ∧ v.staging = w.staging ∧
      (cfg.policy = none → v.primed = []) := by
  have hopen := hgoing.recording.file
  have hrefused : (w.closeCurrentPart cfg env).outcome.refused = false := hgoing.close_refused henv
  have hopening := hgoing.recording.next hrefused
  have hbeside : Beside cfg w (w.roll cfg env).state := roll_beside fun _ => hopen
  obtain ⟨hclose, hindex, -⟩ := @closeCurrentPart_beside cfg env _ hopen
  obtain ⟨events, hlog, hplain, -⟩ := @closeCurrentPart_appends cfg env _ hopen
  have hkeeps : marks (w.closeCurrentPart cfg env).log = marks w.log := by
    rw [hlog, marks_append, marks_eq_nil hplain, List.append_nil]
  have hrolled : w.roll cfg env = McapWriter.openPart cfg env
      { w.closeCurrentPart cfg env with
        writerOpen := false
        partIndex := (w.closeCurrentPart cfg env).partIndex + 1 } := by
    unfold McapWriter.roll
    rw [if_pos hgoing.writer]
    dsimp only
    rw [if_neg (by rw [hrefused]; decide)]
  obtain ⟨hquiet, hgoing', hmarks, hnext, hprimed⟩ :=
    @Opening.openPart_going cfg env _ henv haccepts hopening (hclose.closed.trans hgoing.closed)
      (hgoing.ordered.of_marks hkeeps)
  rw [← hrolled] at hquiet hgoing' hmarks hnext hprimed
  refine ⟨hquiet, hgoing', ?_, ?_, hbeside.staging, fun hpolicy => ?_⟩
  · rw [hmarks]
    dsimp only
    rw [hkeeps, hindex, hclose.staging]
  · rw [hnext]
    dsimp only
    rw [hindex]
  · rw [hprimed, hpolicy]
    rfl

/-- Under a rotation policy the cameras stay primed. -/
theorem Going.roll (hgoing : Going w) (hpolicy : cfg.policy.isSome = true) :
    (w.roll cfg env).Ends fun v => Going v ∧
      marks v.log = marks w.log ++
        [.opened (w.partIndex + 1) w.staging.cutReason w.staging.candidatePoint] ∧
      v.partIndex = w.partIndex + 1 ∧ v.staging = w.staging ∧ v.primed = w.primed := by
  have hbeside : Beside cfg w (w.roll cfg env).state := roll_beside fun _ => hgoing.recording.file
  obtain ⟨hquiet, hgoing', hmarks, hindex, hstaging, -⟩ :=
    @Going.roll_opens cfg env w henv haccepts hgoing
  exact ⟨hquiet, hgoing', hmarks, hindex, hstaging, hbeside.primed hpolicy⟩

/-! ## Records -/

/-- From `w` to `w'` the messages `new` were recorded with no aligned cut, and the group and
what is staged stayed. -/
structure Records (new : List Arrival) (w w' : McapWriter) : Prop extends Goes new w w' where
  core : w'.staging.core = w.staging.core

omit henv haccepts in
theorem Records.trans {first second : List Arrival} {w'' : McapWriter} (hfirst : Records first w w')
    (hsecond : Records second w' w'') : Records (first ++ second) w w'' :=
  ⟨hfirst.toGoes.trans hsecond.toGoes, hsecond.core.trans hfirst.core⟩

omit henv haccepts in
/-- Time went on, and counts may have changed. -/
theorem records_of_view (hgoing : Going w) (hview : w'.view = w.view)
    (hprimed : w'.primed = w.primed) (hcore : w'.staging.core = w.staging.core) :
    Records [] w w' := ⟨goes_of_view hgoing hview hprimed, hcore⟩

theorem Going.forceRoll (hgoing : Going w) (hpolicy : cfg.policy.isSome = true) :
    (w.forceRoll cfg env).Ends (Records [] w) := by
  have hforced : Going (w.setStaging fun s => { s with cutReason := .forced }) :=
    hgoing.of_view rfl
  refine (hforced.roll henv haccepts hpolicy).andThen fun v hv => Run.ends_ok ?_
  obtain ⟨hgoing', hmarks, -, hstaging, hprimed⟩ := hv
  refine ⟨⟨hgoing'.of_view rfl, ⟨_, hmarks, rfl, by simp [Event.isAligned, setStaging]⟩, ?_⟩, ?_⟩
  · intro id hid
    change id ∈ v.primed
    rw [hprimed]
    exact hid
  · change ({ v.staging with forcedCuts := _ } : Staging).core = _
    rw [hstaging]
    rfl

theorem Going.forceRollIfDue (hgoing : Going w) (hpolicy : cfg.policy.isSome = true) :
    (w.forceRollIfDue cfg env).Ends (Records [] w) := by
  obtain ⟨tick, htick⟩ := @forcedCutDue_tick cfg env w
  have hquiet : Records [] w { w with tick := tick } := records_of_view hgoing rfl rfl rfl
  unfold McapWriter.forceRollIfDue
  dsimp only
  rw [htick]
  split
  · exact (hquiet.going.forceRoll henv haccepts hpolicy).mono fun _ hrolled =>
      hquiet.trans hrolled
  · exact Run.ends_ok hquiet

omit henv haccepts in
/-- The gate passes keyframes and the frames of primed streams. -/
theorem gate_passes {channel : Channel} {msg : RecordedMessage} (hpolicy : cfg.policy.isSome = true)
    (hpasses : cfg.selectedVideo channel = true → msg.keyframe = true ∨ channel.id ∈ w.primed) :
    (w.gate cfg channel msg).1 = true ∧ (∀ id ∈ w.primed, id ∈ (w.gate cfg channel msg).2.primed) ∧
      (cfg.selectedVideo channel = true → channel.id ∈ (w.gate cfg channel msg).2.primed) := by
  have hnone : cfg.policy.isNone = false := by
    rw [← Option.not_isSome, hpolicy]
    rfl
  have hvideo : cfg.selectedVideo channel = true → isVideo channel = true := by
    unfold WriterConfig.selectedVideo
    split
    · exact fun hselected => (Bool.and_eq_true_iff.mp hselected).1
    · exact fun hselected => by cases hselected
  unfold McapWriter.gate
  split
  next hgated =>
    simp only [Bool.and_eq_true, hnone, Bool.false_or, Bool.not_eq_true', decide_eq_false_iff_not]
      at hgated
    split
    next hkey =>
      exact ⟨rfl, fun id hid => List.mem_cons_of_mem _ hid, fun _ => List.mem_cons_self ..⟩
    next hkey =>
      rcases hpasses hgated.1.2 with hyes | hprimed
      · exact absurd hyes hkey
      · exact absurd hprimed hgated.2
  next hopen =>
    refine ⟨rfl, fun id hid => hid, fun hselected => ?_⟩
    by_contra hprimed
    exact hopen (by simp [hvideo hselected, hselected, hprimed])

/-- The library writes the message. -/
theorem Going.writeMessage (hgoing : Going w) (channel : Channel) (msg : RecordedMessage) :
    Going (w.writeMessage cfg env channel msg) ∧
      marks (w.writeMessage cfg env channel msg).log =
        marks w.log ++ [.record w.partIndex channel msg] ∧
      w.writeMessage cfg env channel msg = (w.libraryWrites cfg env).countRecord channel msg := by
  obtain ⟨hwrote, hmarks, -, hindex⟩ := @Going.libraryWrites cfg env _ hgoing henv
  have hcounted : w.writeMessage cfg env channel msg =
      (w.libraryWrites cfg env).countRecord channel msg := by
    unfold McapWriter.writeMessage
    dsimp only
    rw [haccepts, hwrote.going.refused]
    rfl
  have hadded : marks ((w.libraryWrites cfg env).countRecord channel msg).log =
      marks (w.libraryWrites cfg env).log ++
        [.record (w.libraryWrites cfg env).partIndex channel msg] := marks_append ..
  refine ⟨⟨hgoing.live.writeMessage hgoing.writer channel msg, ?_, ?_, ?_, ?_⟩, ?_, hcounted⟩
  · rw [hcounted]
    exact hwrote.going.writer
  · rw [hcounted]
    exact hwrote.going.unfailed
  · rw [hcounted]
    exact hwrote.going.refused
  · rw [hcounted]
    exact hwrote.going.ordered.push hadded hwrote.going.recording.filed.future
  · rw [hcounted, hadded, hmarks, hindex]

/-- A message that passes the gate is recorded. -/
theorem Going.writeRecord (hgoing : Going w) (hpolicy : cfg.policy.isSome = true)
    {channel : Channel} {msg : RecordedMessage}
    (hpasses : cfg.selectedVideo channel = true → msg.keyframe = true ∨ channel.id ∈ w.primed) :
    (w.writeRecord cfg env channel msg).Ends fun v => Records [(channel, msg)] w v ∧
      marks v.log = marks w.log ++ [.record w.partIndex channel msg] ∧
      v.partIndex = w.partIndex ∧ (cfg.selectedVideo channel = true → channel.id ∈ v.primed) := by
  obtain ⟨hpass, hprimed, hown⟩ := @gate_passes cfg w channel msg hpolicy hpasses
  have hview : (w.gate cfg channel msg).2.view = w.view := gate_view channel msg
  have hgate : Going (w.gate cfg channel msg).2 := hgoing.of_view hview
  have hstaging : (w.gate cfg channel msg).2.staging = w.staging := gate_staging channel msg
  have hindex : (w.gate cfg channel msg).2.partIndex = w.partIndex :=
    congrArg PartsView.partIndex hview
  have hlog : (w.gate cfg channel msg).2.log = w.log := congrArg PartsView.log hview
  have hsplit : w.writeRecord cfg env channel msg =
      ⟨(w.gate cfg channel msg).2.writeMessage cfg env channel msg, false⟩ := by
    have hguard : ¬(w.closed || !w.writerOpen || w.storageRefused) = true := by
      rw [hgoing.closed, hgoing.writer, hgoing.storageRefused]
      decide
    have hsame : w.rollIfDue cfg env channel msg = ⟨w, false⟩ := if_pos (by simp [hpolicy])
    have hstill : ¬(!w.writerOpen || w.outcome.refused) = true := by
      rw [hgoing.writer, hgoing.refused]
      decide
    unfold McapWriter.writeRecord
    rw [if_neg hguard, hsame, Run.andThen_ok, if_neg hstill, hpass]
    rfl
  rw [hsplit]
  generalize (w.gate cfg channel msg).2 = v at *
  obtain ⟨hwrote, -, hstaging', hindex'⟩ := @Going.libraryWrites cfg env _ hgate henv
  obtain ⟨hgoing', hadded, hcounted⟩ :=
    @Going.writeMessage cfg env v henv haccepts hgate channel msg
  rw [hlog, hindex] at hadded
  rw [hcounted] at hgoing' hadded ⊢
  refine Run.ends_ok
    ⟨⟨⟨hgoing', ⟨_, hadded, rfl, by simp [Event.isAligned]⟩, ?_⟩, ?_⟩, hadded, ?_, ?_⟩
  · exact fun id hid => hwrote.primed id (hprimed id hid)
  · change (v.libraryWrites cfg env).staging.core = _
    rw [hstaging', hstaging]
  · change (v.libraryWrites cfg env).partIndex = _
    rw [hindex', hindex]
  · exact fun hselected => hwrote.primed _ (hown hselected)

end Going

/-! ## Flushing -/

/-- From `w` to `w'` the staged messages `entries` were written. -/
structure Flushed (policy : RotationPolicy) (rotate : Bool) (entries : List Pending)
    (w w' : McapWriter) : Prop extends Goes (arrivalsOf entries) w w' where
  group : w'.staging.group = w.staging.group
  staged : w'.staging.staged = []
  weighed : Weighed w.staging → Weighed w'.staging
  marked : rotate = true →
    marks w'.log = marks w.log ++ recordsIn w.partIndex (arrivalsOf entries)
  warmed : ∀ id ∈ policy.videoIds, frames id (arrivalsOf entries) ≠ [] → id ∈ w'.primed

section Flush

variable {cfg : WriterConfig} {env : Env} {policy : RotationPolicy} {w w' : McapWriter}
  (henv : env.Healthy) (haccepts : env.Accepts) (hpolicy : cfg.policy = some policy)
include henv haccepts hpolicy

theorem Going.flushEntries (hgoing : Going w) (rotate allowForced : Bool) {entries : List Pending}
    (hstaged : w.staging.staged = entries)
    (hwarm : Warm policy w.primed (arrivalsOf entries)) :
    (McapWriter.flushEntries cfg env rotate allowForced entries w).Ends
      (Flushed policy rotate entries w) := by
  have hsome : cfg.policy.isSome = true := by rw [hpolicy]; rfl
  -- One turn of the loop: a cut in front of the message, if one is due, then its record, then its
  -- pop.
  induction entries generalizing w with
  | nil =>
      refine Run.ends_ok
        ⟨goes_of_view hgoing rfl rfl, rfl, hstaged, fun hweighed => hweighed, ?_, ?_⟩
      · exact fun _ => (List.append_nil _).symm
      · exact fun id _ hframes => absurd rfl hframes
  | cons entry rest ih =>
      -- A flush that rotates makes no cut of its own.
      have hforced : (if allowForced && (!rotate || w.mustCut cfg) then w.forceRollIfDue cfg env
          else (⟨w, false⟩ : Run McapWriter)).Ends fun u =>
            Records [] w u ∧ (rotate = true → u = w) := by
        split
        next hgoes =>
          have hcancels : rotate = false := by
            rw [hgoing.mustCut, Bool.or_false] at hgoes
            simpa using (Bool.and_eq_true_iff.mp hgoes).2
          refine (hgoing.forceRollIfDue henv haccepts hsome).mono fun u hu => ⟨hu, ?_⟩
          rw [hcancels]
          exact fun hrotate => by cases hrotate
        next => exact Run.ends_ok ⟨records_of_view hgoing rfl rfl rfl, fun _ => rfl⟩
      unfold McapWriter.flushEntries
      dsimp only
      refine (hforced.andThen (Q := fun v => Records [(entry.channel, entry.msg)] w v ∧
        (rotate = true → marks v.log = marks w.log ++
          [.record w.partIndex entry.channel entry.msg] ∧ v.partIndex = w.partIndex) ∧
        (cfg.selectedVideo entry.channel = true → entry.channel.id ∈ v.primed)) ?_).andThen ?_
      · rintro u ⟨hu, hsame⟩
        -- A camera that is not primed opens its staged frames with a keyframe, so the gate lets it
        -- pass.
        have hpasses : cfg.selectedVideo entry.channel = true →
            entry.msg.keyframe = true ∨ entry.channel.id ∈ u.primed := by
          intro hselected
          obtain ⟨hvideo, hid⟩ := (selectedVideo_iff hpolicy _).mp hselected
          by_cases hprimed : entry.channel.id ∈ w.primed
          · exact Or.inr (hu.primed _ hprimed)
          · exact Or.inl (hwarm _ hid hprimed _ _ (frames_cons_own hvideo rfl _))
        refine (hu.going.writeRecord henv haccepts hsome hpasses).mono ?_
        rintro v ⟨hv, hmarked, hindex, hown⟩
        refine ⟨hu.trans hv, fun hrotate => ?_, hown⟩
        rw [← hsame hrotate]
        exact ⟨hmarked, hindex⟩
      · rintro v ⟨hv, hmarked, hown⟩
        have hstaged' : v.staging.staged = entry :: rest :=
          (congrArg Staging.staged hv.core).trans hstaged
        have hpopped : (v.popStaged entry).staging.staged = rest := by
          change v.staging.staged.tail = rest
          rw [hstaged']
          rfl
        have hgoing' : Going (v.popStaged entry) := hv.going.of_view rfl
        have hwarm' : Warm policy (v.popStaged entry).primed (arrivalsOf rest) :=
          hwarm.tail hv.primed fun hvideo hid =>
            hown ((selectedVideo_iff hpolicy _).mpr ⟨hvideo, hid⟩)
        refine (ih hgoing' hpopped hwarm').mono fun z hz => ?_
        have hgoes : Goes [] v (v.popStaged entry) := goes_of_view hv.going rfl rfl
        refine ⟨(hv.toGoes.trans hgoes).trans hz.toGoes, ?_, hz.staged, fun hweighed => ?_,
          fun hrotate => ?_, fun id hid hframes => ?_⟩
        · have hgroup : v.staging.group = w.staging.group := by
            rw [Staging.group, Staging.group, hv.core]
          exact hz.group.trans hgroup
        · -- The counts go down by the message that is popped.
          have hbytes : v.staging.stagedBytes = w.staging.stagedBytes :=
            (congrArg Staging.stagedBytes hv.core :)
          have hpayload : v.staging.stagedPayloadBytes = w.staging.stagedPayloadBytes :=
            (congrArg Staging.stagedPayloadBytes hv.core :)
          refine hz.weighed ⟨?_, ?_⟩
          · rw [hpopped]
            change v.staging.stagedBytes - entry.bytes = _
            rw [hbytes, hweighed.bytes, hstaged, totalBytes, Nat.add_sub_cancel_left]
          · rw [hpopped]
            change v.staging.stagedPayloadBytes - entry.msg.payload.length = _
            rw [hpayload, hweighed.payload, hstaged, totalPayload, Nat.add_sub_cancel_left]
        · obtain ⟨hrecord, hindex⟩ := hmarked hrotate
          rw [hz.marked hrotate]
          change marks v.log ++ recordsIn v.partIndex (arrivalsOf rest) = _
          rw [hrecord, hindex, List.append_assoc]
          rfl
        · by_cases hentry : isVideo entry.channel = true ∧ entry.channel.id = id
          · obtain ⟨hvideo, rfl⟩ := hentry
            exact hz.primed _ (hown ((selectedVideo_iff hpolicy _).mpr ⟨hvideo, hid⟩))
          · refine hz.warmed id hid fun hnone => hframes ?_
            exact (frames_cons_other hentry _).trans hnone

/-- A flush that cancels the cut. -/
theorem Going.cancel (hgoing : Going w) (allowForced : Bool) (hsome : w.staging.staged ≠ [])
    (hwarm : Warm policy w.primed (arrivalsOf w.staging.staged)) :
    (w.flushStaged cfg env false allowForced).Ends fun v =>
      Goes (arrivalsOf w.staging.staged) w v ∧
      v.staging.group = { w.staging.group with candidateIds := [] } ∧
      v.staging.staged = [] ∧ (Weighed w.staging → Weighed v.staging) := by
  have hcount : Going (w.setStaging fun s => { s with cancelledCuts := s.cancelledCuts + 1 }) :=
    hgoing.of_view rfl
  have hflushed := hcount.flushEntries henv haccepts hpolicy false allowForced rfl hwarm
  unfold McapWriter.flushStaged
  rw [if_neg hsome]
  refine Run.Ends.andThen (P := fun v => v =
    w.setStaging fun s => { s with cancelledCuts := s.cancelledCuts + 1 }) ⟨rfl, rfl⟩ ?_
  rintro v rfl
  refine hflushed.andThen fun v hv => Run.ends_ok ⟨?_, ?_, hv.staged, ?_⟩
  · exact ⟨hv.going.of_view rfl, hv.grows, hv.primed⟩
  · have hgroup : v.staging.group = w.staging.group := hv.group
    rw [← hgroup]
    simp [Staging.group, Staging.core, setStaging]
  · exact fun hweighed => ⟨(hv.weighed ⟨hweighed.bytes, hweighed.payload⟩).bytes,
      (hv.weighed ⟨hweighed.bytes, hweighed.payload⟩).payload⟩

/-- The flush of a complete group past the start: an aligned cut, and the staged messages
open the new part. -/
theorem Going.alignedFlush (hgoing : Going w) (hstarted : w.staging.startStatus ≠ .waiting)
    (hsome : w.staging.staged ≠ [])
    (hwarm : Warm policy w.primed (arrivalsOf w.staging.staged)) :
    (w.flushStaged cfg env true true).Ends fun v => Going v ∧
      marks v.log = marks w.log ++
        .opened (w.partIndex + 1) .aligned w.staging.candidatePoint ::
          recordsIn (w.partIndex + 1) (arrivalsOf w.staging.staged) ∧
      (∀ id ∈ w.primed, id ∈ v.primed) ∧
      v.staging.group = { w.staging.group with candidateIds := [] } ∧
      v.staging.staged = [] ∧ (Weighed w.staging → Weighed v.staging) := by
  have haligned : Going (w.setStaging fun s => { s with cutReason := .aligned }) :=
    hgoing.of_view rfl
  have hcut : (w.cutForFlush cfg env true).Ends fun v => Going v ∧
      marks v.log = marks w.log ++ [.opened (w.partIndex + 1) .aligned w.staging.candidatePoint] ∧
      v.partIndex = w.partIndex + 1 ∧ v.staging.core = w.staging.core ∧ v.primed = w.primed := by
    unfold McapWriter.cutForFlush
    rw [if_neg (by decide), if_neg hstarted]
    refine (haligned.roll henv haccepts (by rw [hpolicy]; rfl)).andThen fun v hv => ?_
    obtain ⟨hgoing', hmarks, hindex, hstaging, hprimed⟩ := hv
    refine Run.ends_ok ⟨hgoing'.of_view rfl, hmarks, hindex, ?_, hprimed⟩
    change ({ v.staging with alignedCuts := _ } : Staging).core = _
    rw [hstaging]
    rfl
  unfold McapWriter.flushStaged
  rw [if_neg hsome]
  refine hcut.andThen fun u hu => ?_
  obtain ⟨hgoing', hmarks, hindex, hcore, hprimed⟩ := hu
  have hstaged : u.staging.staged = w.staging.staged := (congrArg Staging.staged hcore :)
  have hgroup : u.staging.group = w.staging.group := by rw [Staging.group, hcore]; rfl
  have hwarm' : Warm policy u.primed (arrivalsOf w.staging.staged) := by rw [hprimed]; exact hwarm
  rw [hstaged]
  refine (hgoing'.flushEntries henv haccepts hpolicy true true hstaged hwarm').andThen
    fun v hv => Run.ends_ok ⟨hv.going.of_view rfl, ?_, ?_, ?_, hv.staged, fun hweighed => ?_⟩
  · change marks v.log = _
    rw [hv.marked rfl, hmarks, hindex, List.append_assoc]
    rfl
  · intro id hid
    exact hv.primed id (by rw [hprimed]; exact hid)
  · rw [← hgroup, ← hv.group]
    simp [Staging.group, Staging.core, setStaging, hstarted]
  · have hweighed' : Weighed v.staging := hv.weighed ⟨?_, ?_⟩
    · exact ⟨hweighed'.bytes, hweighed'.payload⟩
    · rw [hstaged, ← hweighed.bytes]
      exact (congrArg Staging.stagedBytes hcore :)
    · rw [hstaged, ← hweighed.payload]
      exact (congrArg Staging.stagedPayloadBytes hcore :)

/-- The flush of the complete start group: the take is ready. -/
theorem Going.startFlush (hgoing : Going w) (hwaiting : w.staging.startStatus = .waiting)
    (hsome : w.staging.staged ≠ [])
    (hwarm : Warm policy w.primed (arrivalsOf w.staging.staged)) :
    (w.flushStaged cfg env true true).Ends fun v =>
      Goes (arrivalsOf w.staging.staged) w v ∧
      v.staging.group = { w.staging.group with candidateIds := [], startStatus := .ready } ∧
      v.staging.staged = [] ∧ (Weighed w.staging → Weighed v.staging) ∧
      ∀ id ∈ policy.videoIds, frames id (arrivalsOf w.staging.staged) ≠ [] → id ∈ v.primed := by
  obtain ⟨hwrote, -, hstaging, -⟩ := @Going.libraryWrites cfg env _ hgoing henv
  have hcut : w.cutForFlush cfg env true = ⟨w.libraryWrites cfg env, false⟩ := by
    unfold McapWriter.cutForFlush McapWriter.writeMetadata
    rw [if_neg (by decide), if_pos hwaiting, haccepts]
    rfl
  have hwarm' : Warm policy (w.libraryWrites cfg env).primed (arrivalsOf w.staging.staged) :=
    fun id hid hcold => hwarm id hid fun hprimed => hcold (hwrote.primed id hprimed)
  unfold McapWriter.flushStaged
  rw [if_neg hsome, hcut, Run.andThen_ok, hstaging]
  refine (hwrote.going.flushEntries henv haccepts hpolicy true true (by rw [hstaging])
    hwarm').andThen fun v hv => Run.ends_ok ⟨?_, ?_, hv.staged, fun hweighed => ?_, hv.warmed⟩
  · have hboth := hwrote.trans hv.toGoes
    exact ⟨hboth.going.of_view rfl, hboth.grows, hboth.primed⟩
  · have hgroup : v.staging.group = w.staging.group := by rw [hv.group, hstaging]
    rw [← hgroup]
    simp [Staging.group, Staging.core, setStaging, hwaiting]
  · have hweighed' : Weighed v.staging := hv.weighed (by rw [hstaging]; exact hweighed)
    exact ⟨hweighed'.bytes, hweighed'.payload⟩

end Flush

end McapWriter

end VisioSchema.Mcap

import Mathlib.Data.List.Perm.Subperm
import VisioSchema.Library.Order
import VisioSchema.Mcap.Unfailing

/-!
# Groups and aligned parts

What a group that a cut waits for is made of (`Grouped`): every camera in it has sent a keyframe
with the group's point, and the first staged frame of each is that keyframe.  A part that an
aligned cut opened on such a group starts every camera on its keyframe (`AlignedCut`).

## Strategy

A message that is staged either joins the group or stays outside (`stage_cases`).  A keyframe
with the group's point joins (`Grouped.join`); anything else has to be of a stream that is in the
group already, or no video at all (`Fits`), and leaves the group as it is (`Grouped.stay`).  The
group begins with one keyframe (`Begun.grouped`) and is complete when it has every camera
(`Grouped.complete`).

The flush of a complete group writes the staged messages into a fresh part.  The first frame of
each camera in that part is then its first staged frame, which `Grouped` says is the keyframe
(`AlignedCuts.cut`).
-/

namespace VisioSchema.Mcap

open VisioSchema.Library VisioSchema.Wire VisioSchema.Routing

/-! ## Streams -/

/-- A camera's frames are one stream, everything else is another. -/
def stream (arrival : Arrival) : Option ℕ :=
  if isVideo arrival.1 then some arrival.1.id else none

theorem stream_eq_some {arrival : Arrival} {id : ℕ} :
    stream arrival = some id ↔ isVideo arrival.1 = true ∧ arrival.1.id = id := by
  unfold stream
  split <;> simp_all

theorem frames_eq (id : ℕ) (arrivals : List Arrival) :
    frames id arrivals =
      (arrivals.filter fun arrival => stream arrival = some id).map Prod.snd := by
  induction arrivals with
  | nil => rfl
  | cons arrival rest ih =>
      by_cases hown : isVideo arrival.1 = true ∧ arrival.1.id = id
      · have hstream : stream arrival = some id := stream_eq_some.mpr hown
        rw [frames_cons_own hown.1 hown.2, ih]
        simp [hstream]
      · have hstream : ¬stream arrival = some id := fun hsame => hown (stream_eq_some.mp hsame)
        rw [frames_cons_other hown, ih]
        simp [hstream]

/-- What keeps the order of streams keeps the frames of each camera. -/
theorem frames_of_sameOrder {first second : List Arrival} (horder : SameOrder stream first second)
    (id : ℕ) : frames id first = frames id second := by
  rw [frames_eq, frames_eq, horder (some id)]

theorem frames_eq_nil {id : ℕ} {arrivals : List Arrival}
    (hother : ∀ arrival ∈ arrivals, isVideo arrival.1 = true → arrival.1.id ≠ id) :
    frames id arrivals = [] := by
  refine List.filterMap_eq_nil_iff.mpr fun arrival hmem => ?_
  exact if_neg fun hown => hother arrival hmem hown.1 hown.2

/-! ## Groups -/

/-- The group that a cut waits for. -/
structure Grouped (policy : RotationPolicy) (s : Staging) : Prop where
  distinct : s.candidateIds.Nodup
  chosen : ∀ id ∈ s.candidateIds, id ∈ policy.videoIds
  opens : ∀ id ∈ s.candidateIds, ∃ first later, frames id (arrivalsOf s.staged) = first :: later ∧
    first.keyframe = true ∧ first.syncPoint = s.candidatePoint ∧
    s.candidateMinNs ≤ timestampNs first.timestamp ∧
    timestampNs first.timestamp ≤ s.candidateMaxNs
  spread : s.candidateMaxNs - s.candidateMinNs ≤ policy.toleranceNs
  members : ∀ entry ∈ s.staged, isVideo entry.channel = true →
    entry.channel.id ∈ s.candidateIds

theorem Grouped.of_core {policy : RotationPolicy} {s s' : Staging}
    (hgrouped : Grouped policy s) (hcore : s'.core = s.core) :
    Grouped policy s' := by
  have hsame : Grouped policy s.core :=
    ⟨hgrouped.distinct, hgrouped.chosen, hgrouped.opens, hgrouped.spread, hgrouped.members⟩
  rw [← hcore] at hsame
  exact ⟨hsame.distinct, hsame.chosen, hsame.opens, hsame.spread, hsame.members⟩

/-- The message has just begun the group. -/
structure Begun (s : Staging) (channel : Channel) (msg : RecordedMessage) : Prop where
  ids : s.candidateIds = [channel.id]
  staged : s.staged = []
  point : s.candidatePoint = msg.syncPoint
  min : s.candidateMinNs = timestampNs msg.timestamp
  max : s.candidateMaxNs = timestampNs msg.timestamp

/-- The message joins the group. -/
structure Joins (policy : RotationPolicy) (s : Staging) (idr : Bool) (channel : Channel)
    (msg : RecordedMessage) : Prop where
  idr : idr = true
  fresh : channel.id ∉ s.candidateIds
  point : msg.syncPoint = s.candidatePoint
  spread : max (timestampNs msg.timestamp) s.candidateMaxNs -
    min (timestampNs msg.timestamp) s.candidateMinNs ≤ policy.toleranceNs

/-- The message may be staged behind the group. -/
def Fits (policy : RotationPolicy) (s : Staging) (idr : Bool) (channel : Channel)
    (msg : RecordedMessage) : Prop :=
  (idr = true ∧ Begun s channel msg) ∨ (s.staged ≠ [] ∧
    (isVideo channel = true → channel.id ∈ s.candidateIds ∨ Joins policy s idr channel msg))

/-- What `isIdr` says of a message, whatever the group. -/
structure Opens (policy : RotationPolicy) (idr : Bool) (channel : Channel) (msg : RecordedMessage) :
    Prop where
  video : idr = true → isVideo channel = true
  chosen : idr = true → channel.id ∈ policy.videoIds
  keyframe : idr = true → msg.keyframe = true

theorem isIdr_opens {cfg : WriterConfig} {policy : RotationPolicy}
    (hpolicy : cfg.policy = some policy) (w : McapWriter) (channel : Channel)
    (msg : RecordedMessage) :
    Opens policy (w.isIdr cfg channel msg) channel msg := by
  have hparts : w.isIdr cfg channel msg = true →
      cfg.selectedVideo channel = true ∧ msg.keyframe = true := by
    unfold McapWriter.isIdr
    intro hidr
    simp only [Bool.and_eq_true] at hidr
    exact hidr.1.1
  exact ⟨fun hidr => ((selectedVideo_iff hpolicy _).mp (hparts hidr).1).1,
    fun hidr => ((selectedVideo_iff hpolicy _).mp (hparts hidr).1).2, fun hidr => (hparts hidr).2⟩

namespace McapWriter

/-- What staging a message leaves: it joins the group or does not. -/
theorem stage_cases {cfg : WriterConfig} {w : McapWriter} (idr : Bool) (channel : Channel)
    (msg : RecordedMessage) :
    (w.stage cfg idr channel msg).view = w.view ∧
    (w.stage cfg idr channel msg).primed = w.primed ∧
    (w.stage cfg idr channel msg).staging.staged =
      w.staging.staged ++ [⟨channel, msg, pendingBytes cfg channel msg⟩] ∧
    (w.stage cfg idr channel msg).staging.stagedBytes =
      w.staging.stagedBytes + pendingBytes cfg channel msg ∧
    (w.stage cfg idr channel msg).staging.stagedPayloadBytes =
      w.staging.stagedPayloadBytes + msg.payload.length ∧
    (w.stage cfg idr channel msg).staging.startStatus = w.staging.startStatus ∧
    (w.stage cfg idr channel msg).staging.candidatePoint = w.staging.candidatePoint ∧
    ((idr = true ∧ msg.syncPoint = w.staging.candidatePoint ∧
        channel.id ∉ w.staging.candidateIds ∧
        (w.stage cfg idr channel msg).staging.candidateIds =
          channel.id :: w.staging.candidateIds ∧
        (w.stage cfg idr channel msg).staging.candidateMinNs =
          min w.staging.candidateMinNs (timestampNs msg.timestamp) ∧
        (w.stage cfg idr channel msg).staging.candidateMaxNs =
          max w.staging.candidateMaxNs (timestampNs msg.timestamp)) ∨
      (¬(idr = true ∧ msg.syncPoint = w.staging.candidatePoint ∧
          channel.id ∉ w.staging.candidateIds) ∧
        (w.stage cfg idr channel msg).staging.candidateIds = w.staging.candidateIds ∧
        (w.stage cfg idr channel msg).staging.candidateMinNs = w.staging.candidateMinNs ∧
        (w.stage cfg idr channel msg).staging.candidateMaxNs = w.staging.candidateMaxNs)) := by
  unfold stage
  dsimp only
  split
  next hjoins =>
    exact ⟨rfl, rfl, rfl, rfl, rfl, rfl, rfl,
      Or.inl ⟨hjoins.1, hjoins.2.1, hjoins.2.2, rfl, rfl, rfl⟩⟩
  next hstays => exact ⟨rfl, rfl, rfl, rfl, rfl, rfl, rfl, Or.inr ⟨hstays, rfl, rfl, rfl⟩⟩

end McapWriter

theorem arrivalsOf_append (first second : List Pending) :
    arrivalsOf (first ++ second) = arrivalsOf first ++ arrivalsOf second := List.map_append

section Stage

variable {policy : RotationPolicy} {s s' : Staging} {channel : Channel} {msg : RecordedMessage}
  {bytes : ℕ}

/-- A message that fits and does not join leaves the group as it is. -/
theorem Grouped.stay (hgrouped : Grouped policy s)
    (hstaged : s'.staged = s.staged ++ [⟨channel, msg, bytes⟩])
    (hpoint : s'.candidatePoint = s.candidatePoint) (hids : s'.candidateIds = s.candidateIds)
    (hmin : s'.candidateMinNs = s.candidateMinNs) (hmax : s'.candidateMaxNs = s.candidateMaxNs)
    (hmember : isVideo channel = true → channel.id ∈ s.candidateIds) : Grouped policy s' where
  distinct := by
    rw [hids]
    exact hgrouped.distinct
  chosen := by
    rw [hids]
    exact hgrouped.chosen
  opens := by
    intro id hid
    rw [hids] at hid
    obtain ⟨first, later, hframes, hkey, hsync, hlow, hhigh⟩ := hgrouped.opens id hid
    refine ⟨first, later ++ frames id [(channel, msg)], ?_, hkey, ?_, ?_, ?_⟩
    · rw [hstaged, arrivalsOf_append, frames_append, hframes]
      rfl
    · rw [hpoint]
      exact hsync
    · rw [hmin]
      exact hlow
    · rw [hmax]
      exact hhigh
  spread := by
    rw [hmin, hmax]
    exact hgrouped.spread
  members := by
    intro entry hentry hvideo
    rw [hstaged] at hentry
    rw [hids]
    rcases List.mem_append.mp hentry with hbefore | hlast
    · exact hgrouped.members entry hbefore hvideo
    · rw [List.mem_singleton.mp hlast] at hvideo ⊢
      exact hmember hvideo

/-- A camera's keyframe with the group's point joins the group. -/
theorem Grouped.join (hgrouped : Grouped policy s)
    (hstaged : s'.staged = s.staged ++ [⟨channel, msg, bytes⟩])
    (hpoint : s'.candidatePoint = s.candidatePoint)
    (hids : s'.candidateIds = channel.id :: s.candidateIds)
    (hmin : s'.candidateMinNs = min s.candidateMinNs (timestampNs msg.timestamp))
    (hmax : s'.candidateMaxNs = max s.candidateMaxNs (timestampNs msg.timestamp))
    (hopens : Opens policy true channel msg) (hjoins : Joins policy s true channel msg) :
    Grouped policy s' where
  distinct := by
    rw [hids]
    exact List.nodup_cons.mpr ⟨hjoins.fresh, hgrouped.distinct⟩
  chosen := by
    rw [hids]
    exact List.forall_mem_cons.mpr ⟨hopens.chosen rfl, hgrouped.chosen⟩
  opens := by
    intro id hid
    rw [hids] at hid
    by_cases hown : channel.id = id
    · -- The joining stream has no frame staged, or its id would be a member already.
      have hnone : frames id (arrivalsOf s.staged) = [] := by
        refine frames_eq_nil fun arrival hmem hvideo hsame => ?_
        obtain ⟨entry, hentry, rfl⟩ := List.mem_map.mp hmem
        have hmember := hgrouped.members entry hentry hvideo
        rw [hsame, ← hown] at hmember
        exact hjoins.fresh hmember
      refine ⟨msg, [], ?_, hopens.keyframe rfl, ?_, ?_, ?_⟩
      · rw [hstaged, arrivalsOf_append, frames_append, hnone]
        exact frames_cons_own (hopens.video rfl) hown []
      · rw [hpoint]
        exact hjoins.point
      · omega
      · omega
    · -- A stream that was in the group keeps its frames; only the spread widens.
      have hmember : id ∈ s.candidateIds := by
        rcases List.mem_cons.mp hid with hsame | hmember
        · exact absurd hsame.symm hown
        · exact hmember
      obtain ⟨first, later, hframes, hkey, hsync, hlow, hhigh⟩ := hgrouped.opens id hmember
      refine ⟨first, later, ?_, hkey, ?_, ?_, ?_⟩
      · have hother : frames id (arrivalsOf [⟨channel, msg, bytes⟩]) = [] :=
          frames_cons_other (fun hboth => hown hboth.2) []
        rw [hstaged, arrivalsOf_append, frames_append, hother, List.append_nil, hframes]
      · rw [hpoint]
        exact hsync
      · omega
      · omega
  spread := by
    have hfits := hjoins.spread
    omega
  members := by
    intro entry hentry hvideo
    rw [hstaged] at hentry
    rw [hids]
    rcases List.mem_append.mp hentry with hbefore | hlast
    · exact List.mem_cons_of_mem _ (hgrouped.members entry hbefore hvideo)
    · rw [List.mem_singleton.mp hlast]
      exact List.mem_cons_self ..

/-- The keyframe that began the group is staged. -/
theorem Begun.grouped (hbegun : Begun s channel msg)
    (hstaged : s'.staged = s.staged ++ [⟨channel, msg, bytes⟩])
    (hpoint : s'.candidatePoint = s.candidatePoint) (hids : s'.candidateIds = s.candidateIds)
    (hmin : s'.candidateMinNs = s.candidateMinNs) (hmax : s'.candidateMaxNs = s.candidateMaxNs)
    (hopens : Opens policy true channel msg) : Grouped policy s' where
  distinct := by
    rw [hids, hbegun.ids]
    exact List.pairwise_singleton ..
  chosen := by
    rw [hids, hbegun.ids]
    simpa using hopens.chosen rfl
  opens := by
    intro id hid
    rw [hids, hbegun.ids, List.mem_singleton] at hid
    refine ⟨msg, [], ?_, hopens.keyframe rfl, ?_, ?_, ?_⟩
    · rw [hstaged, hbegun.staged]
      exact frames_cons_own (hopens.video rfl) hid.symm []
    · rw [hpoint, hbegun.point]
    · exact Int.le_of_eq (hmin.trans hbegun.min)
    · exact Int.le_of_eq (hmax.trans hbegun.max).symm
  spread := by
    have htolerance := policy.tolerance_nonneg
    rw [hmin, hmax, hbegun.min, hbegun.max]
    omega
  members := by
    intro entry hentry hvideo
    rw [hstaged, hbegun.staged, List.nil_append, List.mem_singleton] at hentry
    rw [hids, hbegun.ids, hentry]
    exact List.mem_singleton.mpr rfl

/-- A complete group has every camera. -/
theorem Grouped.complete (hgrouped : Grouped policy s)
    (hlength : s.candidateIds.length = policy.videoIds.length) :
    ∀ id ∈ policy.videoIds, id ∈ s.candidateIds := by
  have hperm : s.candidateIds.Perm policy.videoIds :=
    (hgrouped.distinct.subperm hgrouped.chosen).perm_of_length_le (by omega)
  exact fun id hid => hperm.mem_iff.mpr hid

/-- The frames behind a complete group pass the keyframe gate. -/
theorem Grouped.warm (hgrouped : Grouped policy s)
    (hlength : s.candidateIds.length = policy.videoIds.length) (primed : List ℕ) :
    Warm policy primed (arrivalsOf s.staged) := by
  intro id hid _ first later hframes
  obtain ⟨opening, rest, hopening, hkey, -⟩ := hgrouped.opens id (hgrouped.complete hlength id hid)
  rw [hframes] at hopening
  rw [(List.cons.inj hopening).1]
  exact hkey

end Stage

/-! ## Aligned parts -/

/-- The frames of a camera that are recorded in a part. -/
def framesIn (part id : ℕ) (events : List Event) : List RecordedMessage :=
  frames id (recorded (events.filter fun event => event.part = part))

/-- The messages that are recorded in a part. -/
def recordedIn (part : ℕ) (events : List Event) : List Arrival :=
  recorded (events.filter fun event => event.part = part)

theorem recordedIn_append (part : ℕ) (first second : List Event) :
    recordedIn part (first ++ second) = recordedIn part first ++ recordedIn part second := by
  rw [recordedIn, List.filter_append, recorded_append]
  rfl

theorem recordedIn_marks (part : ℕ) (events : List Event) :
    recordedIn part (marks events) = recordedIn part events := by
  have hcomm : (marks events).filter (fun event => event.part = part) =
      marks (events.filter fun event => event.part = part) := by
    rw [marks, marks, List.filter_filter, List.filter_filter]
    exact List.filter_congr fun event _ => Bool.and_comm ..
  rw [recordedIn, recordedIn, hcomm, recorded_marks]

theorem framesIn_eq (part id : ℕ) (events : List Event) :
    framesIn part id events = frames id (recordedIn part events) := rfl

theorem framesIn_marks (part id : ℕ) (events : List Event) :
    framesIn part id (marks events) = framesIn part id events := by
  rw [framesIn_eq, framesIn_eq, recordedIn_marks]

theorem framesIn_append (part id : ℕ) (first second : List Event) :
    framesIn part id (first ++ second) = framesIn part id first ++ framesIn part id second := by
  rw [framesIn_eq, recordedIn_append, frames_append]
  rfl

theorem recorded_recordsIn (part : ℕ) (arrivals : List Arrival) :
    recorded (recordsIn part arrivals) = arrivals := by
  rw [recorded, recordsIn, List.filterMap_map]
  exact List.filterMap_some

theorem framesIn_recordsIn (part id : ℕ) (arrivals : List Arrival) :
    framesIn part id (recordsIn part arrivals) = frames id arrivals := by
  have hall : (recordsIn part arrivals).filter (fun event => event.part = part) =
      recordsIn part arrivals := by
    refine List.filter_eq_self.mpr fun event hmem => ?_
    obtain ⟨arrival, -, rfl⟩ := List.mem_map.mp hmem
    exact decide_eq_true rfl
  rw [framesIn, hall, recorded_recordsIn]

/-- The part starts every selected camera on a keyframe with the cut's point, these are
close in time, and what was recorded of a camera before the cut arrived before its
keyframe. -/
def AlignedCut (policy : RotationPolicy) (arrived : List Arrival) (before : List Event) (part : ℕ)
    (point : SyncPoint) (after : List Event) : Prop :=
  ∃ first : ℕ → RecordedMessage,
    (∀ id ∈ policy.videoIds,
      (∃ later, framesIn part id after = first id :: later) ∧
      (first id).keyframe = true ∧ (first id).syncPoint = point ∧
      ∃ later, frames id arrived = frames id (recorded before) ++ first id :: later) ∧
    ∀ id ∈ policy.videoIds, ∀ other ∈ policy.videoIds,
      timestampNs (first id).timestamp - timestampNs (first other).timestamp ≤ policy.toleranceNs

/-- Every aligned cut in the log is aligned. -/
def AlignedCuts (policy : RotationPolicy) (arrived : List Arrival) (log : List Event) : Prop :=
  ∀ before part point after, log = before ++ .opened part .aligned point :: after →
    AlignedCut policy arrived before part point after

section Cuts

variable {policy : RotationPolicy} {arrived : List Arrival} {log : List Event}

theorem AlignedCut.mono {before after : List Event} {part : ℕ} {point : SyncPoint}
    (hcut : AlignedCut policy arrived before part point after) (more : List Arrival)
    (events : List Event) :
    AlignedCut policy (arrived ++ more) before part point (after ++ events) := by
  obtain ⟨first, hcameras, hspan⟩ := hcut
  refine ⟨first, fun id hid => ?_, hspan⟩
  obtain ⟨⟨later, hopens⟩, hkey, hsync, rest, hbefore⟩ := hcameras id hid
  refine ⟨⟨later ++ framesIn part id events, ?_⟩, hkey, hsync, rest ++ frames id more, ?_⟩
  · rw [framesIn_append, hopens]
    rfl
  · rw [frames_append, hbefore, List.append_assoc]
    rfl

theorem alignedCuts_of_none (hnone : ∀ event ∈ log, event.isAligned = false) :
    AlignedCuts policy arrived log := by
  intro before part point after hlog
  have hmem : .opened part .aligned point ∈ log := by
    rw [hlog]
    simp
  cases hnone _ hmem

/-- More messages arrive, and no further aligned cut is made. -/
theorem AlignedCuts.append (hcuts : AlignedCuts policy arrived log) (more : List Arrival)
    {events : List Event} (hnone : ∀ event ∈ events, event.isAligned = false) :
    AlignedCuts policy (arrived ++ more) (log ++ events) := by
  intro before part point after hsplit
  rcases append_eq_append_cons hsplit with ⟨front, -, hevents⟩ | ⟨rest, hlog, rfl⟩
  · have hmem : .opened part .aligned point ∈ events := by
      rw [hevents]
      simp
    cases hnone _ hmem
  · exact (hcuts before part point rest hlog).mono more events

/-- The flush of a complete group makes an aligned cut. -/
theorem AlignedCuts.cut (hcuts : AlignedCuts policy arrived log) {s : Staging} {part : ℕ}
    (hgrouped : Grouped policy s) (hlength : s.candidateIds.length = policy.videoIds.length)
    (horder : SameOrder stream (recorded log ++ arrivalsOf s.staged) arrived) :
    AlignedCuts policy arrived
      (log ++ .opened part .aligned s.candidatePoint :: recordsIn part (arrivalsOf s.staged)) := by
  have hplain : ∀ event ∈ recordsIn part (arrivalsOf s.staged), event.isAligned = false := by
    intro event hmem
    obtain ⟨arrival, -, rfl⟩ := List.mem_map.mp hmem
    rfl
  have hnew : AlignedCut policy arrived log part s.candidatePoint
      (recordsIn part (arrivalsOf s.staged)) := by
    -- each camera's first staged frame opens the part
    refine ⟨fun id => (frames id (arrivalsOf s.staged)).headD {}, fun id hid => ?_,
      fun id hid other hother => ?_⟩
    · obtain ⟨first, later, hframes, hkey, hsync, -, -⟩ :=
        hgrouped.opens id (hgrouped.complete hlength id hid)
      dsimp only
      rw [framesIn_recordsIn, hframes]
      refine ⟨⟨later, rfl⟩, hkey, hsync, later, ?_⟩
      rw [← frames_of_sameOrder horder id, frames_append, hframes]
      rfl
    · obtain ⟨first, later, hframes, -, -, -, hhigh⟩ :=
        hgrouped.opens id (hgrouped.complete hlength id hid)
      obtain ⟨opening, rest, hopening, -, -, hlow, -⟩ :=
        hgrouped.opens other (hgrouped.complete hlength other hother)
      have hspread := hgrouped.spread
      dsimp only
      rw [hframes, hopening]
      change timestampNs first.timestamp - timestampNs opening.timestamp ≤ policy.toleranceNs
      omega
  intro before cutPart point after hsplit
  rcases append_eq_append_cons hsplit with ⟨front, rfl, hevents⟩ | ⟨rest, hlog, rfl⟩
  · cases front with
    | nil =>
        obtain ⟨hsame, rfl⟩ := List.cons.inj hevents
        cases hsame
        rw [List.append_nil]
        exact hnew
    | cons event rest =>
        obtain ⟨-, hrest⟩ := List.cons.inj hevents
        have hmem : .opened cutPart .aligned point ∈ recordsIn part (arrivalsOf s.staged) := by
          rw [hrest]
          simp
        cases hplain _ hmem
  · have hold := (hcuts before cutPart point rest hlog).mono []
      (.opened part .aligned s.candidatePoint :: recordsIn part (arrivalsOf s.staged))
    rwa [List.append_nil] at hold

end Cuts

end VisioSchema.Mcap

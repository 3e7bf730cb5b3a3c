import VisioSchema.Mcap.Groups

/-!
# What a take carries

From the start group on, what was recorded and what is still staged make up what arrived, in the
order of arrival for every camera and for everything else (`Carried`).  The one way out of order
is a frame that goes straight into the part past a staged frame of its own camera (`Overtakes`).

## Strategy

`Held` is `Carried` of a live writer in which nothing has failed, and each function of a take has
a lemma that keeps it.  What the lemmas share is stated first.

* **Recording** past what is staged adds a message on both sides (`Carried.records`), **staging**
  moves one behind the group (`Carried.stage`), and a **flush** empties what is staged into the
  log (`carried_of_flushed`).
* **Where a message lands** (`Lands`) depends on where the start is.  Past the start it is
  recorded or staged; while the start is waited for it is dropped, begins the group, joins it, or
  completes it; once the start has timed out the take carries nothing.  Each function thus has a
  lemma for the start that is ready and one for the start that is waited for, and
  `Held.writeContinuation` joins them.

Where `strict`, the staged group is well formed (`Grouped`) and all aligned cuts are aligned.
That breaks in one place only: a group whose first keyframe did not fit in memory stands with
nothing staged (`Stale`), and a message is staged behind it (`StagesStale`).
-/

namespace VisioSchema.Mcap

open VisioSchema.Library VisioSchema.Wire VisioSchema.Routing

/-- What a take carries: the frames of selected cameras, and all that is no video. -/
def WriterConfig.wants (cfg : WriterConfig) (channel : Channel) : Bool :=
  !isVideo channel || cfg.selectedVideo channel

theorem wants_of_selected {cfg : WriterConfig} {channel : Channel}
    (hkept : ¬(isVideo channel = true ∧ cfg.selectedVideo channel = false)) :
    cfg.wants channel = true := by
  unfold WriterConfig.wants
  cases hvideo : isVideo channel with
  | false => rfl
  | true => simpa [hvideo] using hkept

namespace McapWriter

/-! ## What arrives -/

/-- The messages that the take has to carry, after a call that led from `w` to `w'`: those
handed to `Write` from the start group on.  While the group of the start is waited for, a
camera counts from its keyframe in the group on, and a group that is given up takes its
messages with it. -/
def arrive (cfg : WriterConfig) (w w' : McapWriter) (arrived : List Arrival) : Op → List Arrival
  | .write channel msg =>
      if w.closed then arrived
      else if w.staging.startStatus = .ready then
        if cfg.wants channel then arrived ++ [(channel, msg)] else arrived
      else if w'.staging.startStatus = .ready then arrived ++ [(channel, msg)]
      else if w'.staging.candidateIds = [] then []
      else if isVideo channel = false ∨ channel.id ∈ w'.staging.candidateIds then
        arrived ++ [(channel, msg)]
      else arrived
  | _ => arrived

def arrivalsFrom (cfg : WriterConfig) (env : Env) :
    McapWriter → List Arrival → List Op → List Arrival
  | _, arrived, [] => arrived
  | w, arrived, op :: rest =>
      arrivalsFrom cfg env (w.apply cfg env op).state
        (arrive cfg w (w.apply cfg env op).state arrived op) rest

/-- What arrived over a list of calls. -/
def arrivals (cfg : WriterConfig) (env : Env) (ops : List Op) : List Arrival :=
  arrivalsFrom cfg env (construct cfg env).state [] ops

/-! ## What the take carries -/

/-- What was recorded and what is staged make up what `arrived`; where `strict`, the group is
well formed and every aligned cut so far is aligned. -/
structure Carried (strict : Prop) (policy : RotationPolicy) (arrived : List Arrival)
    (w : McapWriter) : Prop where
  idle : w.staging.candidateIds = [] → w.staging.staged = []
  weighed : Weighed w.staging
  order : w.staging.startStatus = .ready →
    SameOrder stream (recorded w.log ++ arrivalsOf w.staging.staged) arrived
  primed : w.staging.startStatus = .ready → ∀ id ∈ policy.videoIds, id ∈ w.primed
  fresh : w.staging.startStatus ≠ .ready →
    recorded w.log = [] ∧ ∀ event ∈ marks w.log, event.isAligned = false
  waiting : w.staging.startStatus = .waiting → arrivalsOf w.staging.staged = arrived
  ended : w.staging.startStatus = .timedOut → w.staging.candidateIds = []
  grouped : strict ∨ w.staging.startStatus = .waiting → w.staging.staged ≠ [] →
    Grouped policy w.staging
  aligned : strict → w.staging.startStatus = .ready → AlignedCuts policy arrived (marks w.log)

/-- A live writer of a take in which nothing has failed. -/
structure Held (strict : Prop) (policy : RotationPolicy) (arrived : List Arrival)
    (w : McapWriter) : Prop where
  going : Going w
  carried : Carried strict policy arrived w

section Carried

variable {strict : Prop} {policy : RotationPolicy} {arrived : List Arrival} {w v : McapWriter}

/-- Messages were recorded past what is staged. -/
theorem Carried.records (hcarried : Carried strict policy arrived w) {new : List Arrival}
    (hrecords : Records new w v) (hready : w.staging.startStatus ≠ .ready → new = [])
    (horder : w.staging.startStatus = .ready → SameOrder stream
      (recorded w.log ++ new ++ arrivalsOf w.staging.staged) (arrived ++ new)) :
    Carried strict policy (arrived ++ new) v := by
  have hstatus : v.staging.startStatus = w.staging.startStatus :=
    (congrArg Staging.startStatus hrecords.core :)
  have hstaged : v.staging.staged = w.staging.staged := (congrArg Staging.staged hrecords.core :)
  have hids : v.staging.candidateIds = w.staging.candidateIds :=
    (congrArg Staging.candidateIds hrecords.core :)
  obtain ⟨events, hmarks, -, hnone⟩ := hrecords.grows
  refine ⟨?_, hcarried.weighed.of_core hrecords.core, ?_, ?_, ?_, ?_, ?_, ?_, ?_⟩
  · rw [hids, hstaged]
    exact hcarried.idle
  · rw [hstatus, hstaged, hrecords.recorded]
    exact horder
  · rw [hstatus]
    exact fun hyes id hid => hrecords.primed id (hcarried.primed hyes id hid)
  · rw [hstatus, hrecords.recorded, hmarks]
    intro hnot
    obtain ⟨hempty, hplain⟩ := hcarried.fresh hnot
    rw [hempty, hready hnot]
    exact ⟨rfl, List.forall_mem_append.mpr ⟨hplain, hnone⟩⟩
  · rw [hstatus, hstaged]
    intro hwaiting
    rw [hready (by rw [hwaiting]; decide), List.append_nil]
    exact hcarried.waiting hwaiting
  · rw [hstatus, hids]
    exact hcarried.ended
  · rw [hstatus, hstaged]
    exact fun htight hsome => (hcarried.grouped htight hsome).of_core hrecords.core
  · rw [hstatus, hmarks]
    exact fun hstrict hyes => (hcarried.aligned hstrict hyes).append new hnone

theorem Held.records (hheld : Held strict policy arrived w) (hrecords : Records [] w v) :
    Held strict policy arrived v := by
  have hcarried := hheld.carried.records hrecords (fun _ => rfl) fun hready => by
    rw [List.append_nil, List.append_nil]
    exact hheld.carried.order hready
  rw [List.append_nil] at hcarried
  exact ⟨hrecords.going, hcarried⟩

/-- Time went on, and counts may have changed. -/
theorem Held.of_view (hheld : Held strict policy arrived w) (hview : v.view = w.view)
    (hprimed : v.primed = w.primed) (hcore : v.staging.core = w.staging.core) :
    Held strict policy arrived v :=
  hheld.records (records_of_view hheld.going hview hprimed hcore)

/-- A take that was given up carries nothing, whatever arrived. -/
theorem Held.failStart (hheld : Held strict policy arrived w)
    (hstatus : w.staging.startStatus ≠ .ready) (other : List Arrival) :
    Held strict policy other w.failStart where
  going := hheld.going.of_view rfl
  carried :=
    { idle := fun _ => rfl
      weighed := ⟨rfl, rfl⟩
      order := fun hready => by cases hready
      primed := fun hready => by cases hready
      fresh := fun _ => hheld.carried.fresh hstatus
      waiting := fun hwaiting => by cases hwaiting
      ended := fun _ => rfl
      grouped := fun _ hsome => absurd rfl hsome
      aligned := fun _ hready => by cases hready }

theorem Held.of_timedOut (hheld : Held strict policy arrived w)
    (hover : w.staging.startStatus = .timedOut) (other : List Arrival) :
    Held strict policy other w where
  going := hheld.going
  carried :=
    { idle := hheld.carried.idle
      weighed := hheld.carried.weighed
      order := fun hready => by rw [hover] at hready; cases hready
      primed := hheld.carried.primed
      fresh := hheld.carried.fresh
      waiting := fun hwaiting => by rw [hover] at hwaiting; cases hwaiting
      ended := hheld.carried.ended
      grouped := hheld.carried.grouped
      aligned := fun _ hready => by rw [hover] at hready; cases hready }

/-- The staged messages were written, and no aligned cut was made. -/
theorem carried_of_flushed (hgoes : Goes (arrivalsOf w.staging.staged) w v)
    (hids : v.staging.candidateIds = []) (hready : v.staging.startStatus = .ready)
    (hstaged : v.staging.staged = [])
    (hweighed : Weighed v.staging)
    (horder : SameOrder stream (recorded w.log ++ arrivalsOf w.staging.staged) arrived)
    (hprimed : ∀ id ∈ policy.videoIds, id ∈ v.primed)
    (haligned : strict → AlignedCuts policy arrived (marks w.log)) :
    Carried strict policy arrived v := by
  obtain ⟨events, hmarks, -, hnone⟩ := hgoes.grows
  refine ⟨fun _ => hstaged, hweighed, fun _ => ?_, fun _ => hprimed, ?_, ?_, ?_, ?_, ?_⟩
  · rw [hstaged, hgoes.recorded]
    exact (List.append_nil _).symm ▸ horder
  · exact fun hnot => absurd hready hnot
  · exact fun hwaiting => by rw [hready] at hwaiting; cases hwaiting
  · exact fun _ => hids
  · exact fun _ hsome => absurd hstaged hsome
  · intro hstrict _
    have hcuts := (haligned hstrict).append [] hnone
    rw [List.append_nil] at hcuts
    rwa [hmarks]

/-- A message is staged behind the group. -/
theorem Carried.stage (hcarried : Carried strict policy arrived w) {cfg : WriterConfig} {idr : Bool}
    {channel : Channel} {msg : RecordedMessage} (hgroup : w.staging.candidateIds ≠ [])
    (hopens : Opens policy idr channel msg)
    (hfits : strict ∨ w.staging.startStatus = .waiting → Fits policy w.staging idr channel msg) :
    Carried strict policy (arrived ++ [(channel, msg)]) (w.stage cfg idr channel msg) := by
  obtain ⟨hview, hprimed, hstaged, hbytes, hpayload, hstatus, hpoint, hcases⟩ :=
    @stage_cases cfg w idr channel msg
  have hlog : (w.stage cfg idr channel msg).log = w.log := congrArg PartsView.log hview
  have hsome : (w.stage cfg idr channel msg).staging.candidateIds ≠ [] := by
    rcases hcases with ⟨-, -, -, hids, -⟩ | ⟨-, hids, -⟩
    · rw [hids]
      exact List.cons_ne_nil _ _
    · rw [hids]
      exact hgroup
  have hadded : arrivalsOf (w.stage cfg idr channel msg).staging.staged =
      arrivalsOf w.staging.staged ++ [(channel, msg)] := by
    rw [hstaged, arrivalsOf_append]
    rfl
  refine ⟨fun hnone => absurd hnone hsome, ⟨?_, ?_⟩, ?_, ?_, ?_, ?_, ?_, ?_, ?_⟩
  · rw [hbytes, hstaged, totalBytes_append, hcarried.weighed.bytes]
    rfl
  · rw [hpayload, hstaged, totalPayload_append, hcarried.weighed.payload]
    rfl
  · rw [hstatus, hlog, hadded, ← List.append_assoc]
    exact fun hready => (hcarried.order hready).push (channel, msg)
  · rw [hstatus, hprimed]
    exact hcarried.primed
  · rw [hstatus, hlog]
    exact hcarried.fresh
  · rw [hstatus, hadded]
    exact fun hwaiting => by rw [hcarried.waiting hwaiting]
  · rw [hstatus]
    exact fun hover => absurd (hcarried.ended hover) hgroup
  · rw [hstatus]
    intro htight _
    -- The message began the group, joins it, or is of a stream that is in it.
    rcases hfits htight with ⟨hyes, hbegun⟩ | ⟨hbehind, hmember⟩
    · rcases hcases with ⟨-, -, hfresh, -⟩ | ⟨-, hids, hmin, hmax⟩
      · rw [hbegun.ids] at hfresh
        exact absurd (List.mem_singleton.mpr rfl) hfresh
      · exact hbegun.grouped hstaged hpoint hids hmin hmax (hyes ▸ hopens)
    · have hgrouped := hcarried.grouped htight hbehind
      rcases hcases with ⟨hyes, hsync, hfresh, hids, hmin, hmax⟩ | ⟨hstays, hids, hmin, hmax⟩
      · rcases hmember (hopens.video hyes) with hinside | hjoins
        · exact absurd hinside hfresh
        · exact hgrouped.join hstaged hpoint hids hmin hmax (hyes ▸ hopens) (hyes ▸ hjoins)
      · refine hgrouped.stay hstaged hpoint hids hmin hmax fun hvideo => ?_
        rcases hmember hvideo with hinside | hjoins
        · exact hinside
        · exact absurd ⟨hjoins.idr, hjoins.point, hjoins.fresh⟩ hstays
  · rw [hstatus, hlog]
    intro hstrict hready
    have hcuts := (hcarried.aligned hstrict hready).append [(channel, msg)]
      (List.forall_mem_nil fun event : Event => event.isAligned = false)
    rwa [List.append_nil] at hcuts

end Carried

/-! ## Where the order breaks -/

/-- A group stands past the start with nothing staged: its first keyframe did not fit in
memory, and nothing has given the group up. -/
structure Stale (w : McapWriter) : Prop where
  live : w.closed = false
  ready : w.staging.startStatus = .ready
  group : w.staging.candidateIds ≠ []
  empty : w.staging.staged = []

/-- The message is staged behind a group that has nothing staged: the take carries it, it is not
left behind in the old part, and it fits in memory. -/
structure StagesStale (cfg : WriterConfig) (policy : RotationPolicy) (w : McapWriter)
    (channel : Channel) (msg : RecordedMessage) : Prop where
  stale : Stale w
  wanted : cfg.wants channel = true
  follows : w.outsideGroup cfg channel = true → w.precedesGroup policy msg = false
  fits : w.overflows cfg policy channel msg = false

/-- The frame goes straight into the part, past a staged frame of its own camera. -/
structure Overtakes (cfg : WriterConfig) (env : Env) (policy : RotationPolicy) (w : McapWriter)
    (channel : Channel) (msg : RecordedMessage) : Prop where
  live : w.closed = false
  ready : w.staging.startStatus = .ready
  intime : w.now env < w.staging.candidateDeadline
  outside : w.outsideGroup cfg channel = true
  precedes : w.precedesGroup policy msg = true
  undue : (w.tock.forcedCutDue cfg env).1 = false
  passed : ∃ other ∈ arrivalsOf w.staging.staged, stream other = stream (channel, msg)

instance decidableStale (w : McapWriter) : Decidable (Stale w) :=
  decidable_of_iff (w.closed = false ∧ w.staging.startStatus = .ready ∧
      w.staging.candidateIds ≠ [] ∧ w.staging.staged = [])
    ⟨fun h => ⟨h.1, h.2.1, h.2.2.1, h.2.2.2⟩, fun h => ⟨h.live, h.ready, h.group, h.empty⟩⟩

instance decidableStagesStale (cfg : WriterConfig) (policy : RotationPolicy) (w : McapWriter)
    (channel : Channel) (msg : RecordedMessage) :
    Decidable (StagesStale cfg policy w channel msg) :=
  decidable_of_iff (Stale w ∧ cfg.wants channel = true ∧
      (w.outsideGroup cfg channel = true → w.precedesGroup policy msg = false) ∧
      w.overflows cfg policy channel msg = false)
    ⟨fun h => ⟨h.1, h.2.1, h.2.2.1, h.2.2.2⟩, fun h => ⟨h.stale, h.wanted, h.follows, h.fits⟩⟩

instance decidableOvertakes (cfg : WriterConfig) (env : Env) (policy : RotationPolicy)
    (w : McapWriter) (channel : Channel) (msg : RecordedMessage) :
    Decidable (Overtakes cfg env policy w channel msg) :=
  decidable_of_iff (w.closed = false ∧ w.staging.startStatus = .ready ∧
      w.now env < w.staging.candidateDeadline ∧ w.outsideGroup cfg channel = true ∧
      w.precedesGroup policy msg = true ∧ (w.tock.forcedCutDue cfg env).1 = false ∧
      ∃ other ∈ arrivalsOf w.staging.staged, stream other = stream (channel, msg))
    ⟨fun h => ⟨h.1, h.2.1, h.2.2.1, h.2.2.2.1, h.2.2.2.2.1, h.2.2.2.2.2.1, h.2.2.2.2.2.2⟩,
      fun h => ⟨h.live, h.ready, h.intime, h.outside, h.precedes, h.undue, h.passed⟩⟩

/-! ## Where a message lands -/

/-- The group that the start waits for holds the keyframe that began it. -/
def Stands (w : McapWriter) : Prop :=
  w.staging.startStatus = .waiting → w.staging.candidateIds ≠ [] → w.staging.staged ≠ []

/-- `Write` on `w` led to `v`, which carries what arrived. -/
structure Lands (cfg : WriterConfig) (strict : Prop) (policy : RotationPolicy) (w : McapWriter)
    (arrived : List Arrival) (channel : Channel) (msg : RecordedMessage) (v : McapWriter) :
    Prop where
  held : Held strict policy (arrive cfg w v arrived (.write channel msg)) v
  stands : Stands v

section Lands

variable {cfg : WriterConfig} {strict : Prop} {policy : RotationPolicy} {arrived : List Arrival}
  {w v : McapWriter} {channel : Channel} {msg : RecordedMessage}

theorem lands_over (hheld : Held strict policy arrived v)
    (hover : v.staging.startStatus = .timedOut) :
    Lands cfg strict policy w arrived channel msg v where
  held := hheld.of_timedOut hover _
  stands := fun hwaiting => by rw [hover] at hwaiting; cases hwaiting

/-- Past the start. -/
theorem lands_ready (hopen : w.closed = false) (hready : w.staging.startStatus = .ready)
    (hwanted : cfg.wants channel = true)
    (hheld : Held strict policy (arrived ++ [(channel, msg)]) v)
    (hstill : v.staging.startStatus = .ready) :
    Lands cfg strict policy w arrived channel msg v where
  held := by
    unfold arrive
    dsimp only
    rw [if_neg (by rw [hopen]; decide), if_pos hready, if_pos hwanted]
    exact hheld
  stands := fun hwaiting => by rw [hstill] at hwaiting; cases hwaiting

theorem lands_unwanted (hopen : w.closed = false) (hready : w.staging.startStatus = .ready)
    (hwanted : cfg.wants channel = false) (hheld : Held strict policy arrived v)
    (hstill : v.staging.startStatus = .ready) :
    Lands cfg strict policy w arrived channel msg v where
  held := by
    unfold arrive
    dsimp only
    rw [if_neg (by rw [hopen]; decide), if_pos hready, if_neg (by rw [hwanted]; decide)]
    exact hheld
  stands := fun hwaiting => by rw [hstill] at hwaiting; cases hwaiting

/-- The message completes the group of the start. -/
theorem lands_started (hopen : w.closed = false) (hwaiting : w.staging.startStatus = .waiting)
    (hheld : Held strict policy (arrived ++ [(channel, msg)]) v)
    (hready : v.staging.startStatus = .ready) :
    Lands cfg strict policy w arrived channel msg v where
  held := by
    unfold arrive
    dsimp only
    rw [if_neg (by rw [hopen]; decide), if_neg (by rw [hwaiting]; decide), if_pos hready]
    exact hheld
  stands := fun hstill => by rw [hready] at hstill; cases hstill

/-- The message is staged in the group of the start. -/
theorem lands_staged (hopen : w.closed = false) (hwaiting : w.staging.startStatus = .waiting)
    (hheld : Held strict policy (arrived ++ [(channel, msg)]) v)
    (hstill : v.staging.startStatus = .waiting) (hgroup : v.staging.candidateIds ≠ [])
    (hsome : v.staging.staged ≠ [])
    (hmember : isVideo channel = true → channel.id ∈ v.staging.candidateIds) :
    Lands cfg strict policy w arrived channel msg v where
  held := by
    have hcounts : isVideo channel = false ∨ channel.id ∈ v.staging.candidateIds := by
      cases hvideo : isVideo channel with
      | true => exact Or.inr (hmember hvideo)
      | false => exact Or.inl rfl
    unfold arrive
    dsimp only
    rw [if_neg (by rw [hopen]; decide), if_neg (by rw [hwaiting]; decide),
      if_neg (by rw [hstill]; decide), if_neg hgroup, if_pos hcounts]
    exact hheld
  stands := fun _ _ => hsome

/-- The message comes before the group of the start. -/
theorem lands_dropped (hopen : w.closed = false) (hwaiting : w.staging.startStatus = .waiting)
    (hheld : Held strict policy arrived v) (hstill : v.staging.startStatus = .waiting)
    (hstands : Stands v)
    (houtside : v.staging.candidateIds ≠ [] →
      isVideo channel = true ∧ channel.id ∉ v.staging.candidateIds) :
    Lands cfg strict policy w arrived channel msg v where
  held := by
    unfold arrive
    dsimp only
    rw [if_neg (by rw [hopen]; decide), if_neg (by rw [hwaiting]; decide),
      if_neg (by rw [hstill]; decide)]
    by_cases hnone : v.staging.candidateIds = []
    · have hempty : [] = arrived := by
        rw [← hheld.carried.waiting hstill, hheld.carried.idle hnone]
        rfl
      rw [if_pos hnone, hempty]
      exact hheld
    · obtain ⟨hvideo, hfresh⟩ := houtside hnone
      rw [if_neg hnone, if_neg (by simp [hvideo, hfresh])]
      exact hheld
  stands := hstands

end Lands

/-! ## The functions of a take -/

section Steps

variable {cfg : WriterConfig} {env : Env} {strict : Prop} {policy : RotationPolicy}
  {arrived : List Arrival} {w : McapWriter} (henv : env.Healthy) (haccepts : env.Accepts)
  (hpolicy : cfg.policy = some policy)
include henv haccepts hpolicy

theorem Held.forceRoll (hheld : Held strict policy arrived w) :
    (w.forceRoll cfg env).Ends fun v => Held strict policy arrived v ∧
      v.staging.core = w.staging.core :=
  (hheld.going.forceRoll henv haccepts (by rw [hpolicy]; rfl)).mono fun _ hrolled =>
    ⟨hheld.records hrolled, hrolled.core⟩

theorem Held.forceRollIfDue (hheld : Held strict policy arrived w) :
    (w.forceRollIfDue cfg env).Ends fun v => Held strict policy arrived v ∧
      v.staging.core = w.staging.core :=
  (hheld.going.forceRollIfDue henv haccepts (by rw [hpolicy]; rfl)).mono fun _ hrolled =>
    ⟨hheld.records hrolled, hrolled.core⟩

/-- A message is recorded past what is staged, none of which is of its stream. -/
theorem Held.direct (hheld : Held strict policy arrived w)
    (hready : w.staging.startStatus = .ready) {channel : Channel} {msg : RecordedMessage}
    (hother : ∀ other ∈ arrivalsOf w.staging.staged, stream other ≠ stream (channel, msg)) :
    (w.writeRecord cfg env channel msg).Ends fun v =>
      Held strict policy (arrived ++ [(channel, msg)]) v ∧ v.staging.startStatus = .ready := by
  have hpasses : cfg.selectedVideo channel = true →
      msg.keyframe = true ∨ channel.id ∈ w.primed := fun hselected =>
    Or.inr (hheld.carried.primed hready _ ((selectedVideo_iff hpolicy _).mp hselected).2)
  refine (hheld.going.writeRecord henv haccepts (by rw [hpolicy]; rfl) hpasses).mono ?_
  rintro v ⟨hrecords, -⟩
  refine ⟨⟨hrecords.going, hheld.carried.records hrecords (fun hnot => absurd hready hnot)
    fun _ => (hheld.carried.order hready).pass hother⟩, ?_⟩
  exact (congrArg Staging.startStatus hrecords.core :).trans hready

/-- The group is given up, and what is staged goes into the old part. -/
theorem Held.cancel (hheld : Held strict policy arrived w)
    (hready : w.staging.startStatus = .ready) (allowForced : Bool) :
    (w.flushStaged cfg env false allowForced).Ends fun v => Held strict policy arrived v ∧
      v.staging.startStatus = .ready ∧ v.staging.staged = [] ∧
      (w.staging.staged ≠ [] → v.staging.candidateIds = []) ∧
      (w.staging.staged = [] → v = w) := by
  by_cases hnone : w.staging.staged = []
  · have hsame : w.flushStaged cfg env false allowForced = ⟨w, false⟩ := if_pos hnone
    rw [hsame]
    exact Run.ends_ok ⟨hheld, hready, hnone, fun hsome => absurd hnone hsome, fun _ => rfl⟩
  · have hprimed := hheld.carried.primed hready
    have hwarm : Warm policy w.primed (arrivalsOf w.staging.staged) := fun id hid hcold =>
      absurd (hprimed id hid) hcold
    refine (hheld.going.cancel henv haccepts hpolicy allowForced hnone hwarm).mono ?_
    rintro v ⟨hgoes, hgroup, hstaged, hweighed⟩
    have hids : v.staging.candidateIds = [] := (congrArg Staging.candidateIds hgroup :)
    have hstill : v.staging.startStatus = .ready :=
      (congrArg Staging.startStatus hgroup :).trans hready
    exact ⟨⟨hgoes.going, carried_of_flushed hgoes hids hstill hstaged
      (hweighed hheld.carried.weighed) (hheld.carried.order hready)
      (fun id hid => hgoes.primed id (hprimed id hid))
      fun hstrict => hheld.carried.aligned hstrict hready⟩, hstill, hstaged, fun _ => hids,
      fun hempty => absurd hempty hnone⟩

/-- The group is complete past the start: an aligned cut. -/
theorem Held.cut (hheld : Held strict policy arrived w)
    (hready : w.staging.startStatus = .ready) (hsome : w.staging.staged ≠ [])
    (hlength : w.staging.candidateIds.length = policy.videoIds.length) :
    (w.flushStaged cfg env true true).Ends fun v => Held strict policy arrived v ∧
      v.staging.startStatus = .ready := by
  have hprimed := hheld.carried.primed hready
  have hwarm : Warm policy w.primed (arrivalsOf w.staging.staged) := fun id hid hcold =>
    absurd (hprimed id hid) hcold
  have hstarted : w.staging.startStatus ≠ .waiting := by rw [hready]; decide
  refine (hheld.going.alignedFlush henv haccepts hpolicy hstarted hsome hwarm).mono ?_
  rintro v ⟨hgoing, hmarks, hmore, hgroup, hstaged, hweighed⟩
  have hids : v.staging.candidateIds = [] := (congrArg Staging.candidateIds hgroup :)
  have hstill : v.staging.startStatus = .ready :=
    (congrArg Staging.startStatus hgroup :).trans hready
  have hrecorded : recorded v.log = recorded w.log ++ arrivalsOf w.staging.staged := by
    rw [← recorded_marks, hmarks, recorded_append, recorded_marks]
    exact congrArg (recorded w.log ++ ·) (recorded_recordsIn ..)
  refine ⟨⟨hgoing, fun _ => hstaged, hweighed hheld.carried.weighed, fun _ => ?_,
    fun _ id hid => hmore id (hprimed id hid), fun hnot => absurd hstill hnot, ?_, fun _ => hids,
    fun _ hleft => absurd hstaged hleft, fun hstrict _ => ?_⟩, hstill⟩
  · rw [hrecorded, hstaged]
    exact (List.append_nil _).symm ▸ hheld.carried.order hready
  · exact fun hwaiting => by rw [hstill] at hwaiting; cases hwaiting
  · rw [hmarks]
    refine (hheld.carried.aligned hstrict hready).cut
      (hheld.carried.grouped (Or.inl hstrict) hsome) hlength ?_
    rw [recorded_marks]
    exact hheld.carried.order hready

/-- The group of the start is complete: the take is ready. -/
theorem Held.start (hheld : Held strict policy arrived w)
    (hwaiting : w.staging.startStatus = .waiting) (hsome : w.staging.staged ≠ [])
    (hlength : w.staging.candidateIds.length = policy.videoIds.length) :
    (w.flushStaged cfg env true true).Ends fun v => Held strict policy arrived v ∧
      v.staging.startStatus = .ready := by
  have hgrouped := hheld.carried.grouped (Or.inr hwaiting) hsome
  have hwarm := hgrouped.warm hlength w.primed
  obtain ⟨hempty, hplain⟩ := hheld.carried.fresh (by rw [hwaiting]; decide)
  refine (hheld.going.startFlush henv haccepts hpolicy hwaiting hsome hwarm).mono ?_
  rintro v ⟨hgoes, hgroup, hstaged, hweighed, hprimed⟩
  have hids : v.staging.candidateIds = [] := (congrArg Staging.candidateIds hgroup :)
  have hready : v.staging.startStatus = .ready := (congrArg Staging.startStatus hgroup :)
  refine ⟨⟨hgoes.going, carried_of_flushed hgoes hids hready hstaged
    (hweighed hheld.carried.weighed) ?_ (fun id hid => hprimed id hid ?_)
    fun _ => alignedCuts_of_none hplain⟩, hready⟩
  · rw [hempty, hheld.carried.waiting hwaiting]
    exact SameOrder.refl stream arrived
  · obtain ⟨first, later, hframes, -⟩ := hgrouped.opens id (hgrouped.complete hlength id hid)
    rw [hframes]
    exact List.cons_ne_nil _ _

/-! ### Groups -/

/-- Without a group, a cut that is due is forced, or waits for the group that an IDR begins. -/
theorem Held.openGroup (hheld : Held strict policy arrived w)
    (hgoes : w.staging.startStatus ≠ .timedOut) (idr : Bool) (channel : Channel)
    (msg : RecordedMessage) :
    (w.openGroup cfg env policy idr channel msg).Ends fun v => Held strict policy arrived v ∧
      v.staging.startStatus = w.staging.startStatus ∧
      (v.staging.candidateIds = [] ∨ (v = w ∧ w.staging.candidateIds ≠ []) ∨
        (idr = true ∧ Begun v.staging channel msg)) := by
  rcases @openGroup_cases cfg env w policy channel msg idr with
    ⟨hsame, hgroup⟩ | ⟨hnone, tick, hquiet | ⟨-, -, hforced⟩ | ⟨-, hidr, hbegun⟩⟩
  · rw [hsame]
    exact Run.ends_ok ⟨hheld, rfl, Or.inr (Or.inl ⟨rfl, hgroup⟩)⟩
  · rw [hquiet]
    exact Run.ends_ok ⟨hheld.of_view rfl rfl rfl, rfl, Or.inl hnone⟩
  · have hticked : Held strict policy arrived { w with tick := tick } := hheld.of_view rfl rfl rfl
    rw [hforced]
    refine (hticked.forceRoll henv haccepts hpolicy).mono fun v hv => ⟨hv.1, ?_, Or.inl ?_⟩
    · exact (congrArg Staging.startStatus hv.2 :)
    · exact (congrArg Staging.candidateIds hv.2 :).trans hnone
  · have hempty := hheld.carried.idle hnone
    rw [hbegun]
    refine Run.ends_ok ⟨⟨hheld.going.of_view rfl, ?_⟩, rfl, Or.inr (Or.inr ⟨hidr, ?_⟩)⟩
    · exact
        { idle := fun hnot => by cases hnot
          weighed := ⟨hheld.carried.weighed.bytes, hheld.carried.weighed.payload⟩
          order := hheld.carried.order
          primed := hheld.carried.primed
          fresh := hheld.carried.fresh
          waiting := hheld.carried.waiting
          ended := fun hover => absurd hover hgoes
          grouped := fun _ hsome => absurd hempty hsome
          aligned := hheld.carried.aligned }
    · exact ⟨rfl, hempty, rfl, rfl, rfl⟩

omit henv haccepts hpolicy in
theorem Held.stage (hheld : Held strict policy arrived w) {idr : Bool} {channel : Channel}
    {msg : RecordedMessage} (hgroup : w.staging.candidateIds ≠ [])
    (hopens : Opens policy idr channel msg)
    (hfits : strict ∨ w.staging.startStatus = .waiting → Fits policy w.staging idr channel msg) :
    Held strict policy (arrived ++ [(channel, msg)]) (w.stage cfg idr channel msg) ∧
      (w.stage cfg idr channel msg).staging.startStatus = w.staging.startStatus ∧
      (w.stage cfg idr channel msg).staging.staged ≠ [] := by
  obtain ⟨hview, -, hstaged, -, -, hstatus, -⟩ :=
    @stage_cases cfg w idr channel msg
  refine ⟨⟨hheld.going.of_view hview, hheld.carried.stage hgroup hopens hfits⟩, hstatus, ?_⟩
  rw [hstaged]
  exact List.append_ne_nil_of_right_ne_nil _ (List.cons_ne_nil _ _)

/-- Past the start, a message behind a group is staged, or recorded where there is no room. -/
theorem Held.writeBehindGroup_ready (hheld : Held strict policy arrived w)
    (hready : w.staging.startStatus = .ready) {idr : Bool} {channel : Channel}
    {msg : RecordedMessage} (hgroup : w.staging.candidateIds ≠ [])
    (hopens : Opens policy idr channel msg)
    (hfits : strict → w.overflows cfg policy channel msg = true ∨
      Fits policy w.staging idr channel msg) :
    (w.writeBehindGroup cfg env policy idr channel msg).Ends fun v =>
      Held strict policy (arrived ++ [(channel, msg)]) v ∧ v.staging.startStatus = .ready := by
  have hstarted : w.staging.startStatus ≠ .waiting := by rw [hready]; decide
  unfold McapWriter.writeBehindGroup
  rw [if_neg hstarted]
  split
  · refine Run.Ends.andThen (P := fun v => Held strict policy arrived v ∧
      v.staging.startStatus = .ready ∧ v.staging.staged = []) ?_ ?_
    · refine (hheld.cancel henv haccepts hpolicy hready true).andThen ?_
      rintro v ⟨hv, hstill, hempty, -⟩
      refine (hv.forceRollIfDue henv haccepts hpolicy).mono fun u hu => ⟨hu.1, ?_, ?_⟩
      · exact (congrArg Staging.startStatus hu.2 :).trans hstill
      · exact (congrArg Staging.staged hu.2 :).trans hempty
    · rintro v ⟨hv, hstill, hempty⟩
      refine hv.direct henv haccepts hpolicy hstill ?_
      rw [hempty]
      exact fun _ hmem => nomatch hmem
  next hroom =>
    obtain ⟨hstaged, hstatus, hsome⟩ :=
      @Held.stage cfg _ _ _ _ hheld _ _ _ hgroup hopens fun htight =>
        (hfits (htight.resolve_right hstarted)).resolve_left hroom
    rw [hready] at hstatus
    unfold McapWriter.flushIfComplete
    split
    next hlength => exact hstaged.cut henv haccepts hpolicy hstatus hsome hlength
    next =>
      split
      · exact (hstaged.cancel henv haccepts hpolicy hstatus true).mono fun v hv => ⟨hv.1, hv.2.1⟩
      · exact Run.ends_ok ⟨hstaged, hstatus⟩

/-- Past the start, a message that no group holds up is recorded or staged. -/
theorem Held.continueTake_ready (hheld : Held strict policy arrived w)
    (hready : w.staging.startStatus = .ready) {idr : Bool} {channel : Channel}
    {msg : RecordedMessage} (hopens : Opens policy idr channel msg)
    (hfits : strict → w.staging.candidateIds ≠ [] →
      w.overflows cfg policy channel msg = true ∨ Fits policy w.staging idr channel msg) :
    (w.continueTake cfg env policy idr channel msg).Ends fun v =>
      Held strict policy (arrived ++ [(channel, msg)]) v ∧ v.staging.startStatus = .ready := by
  have hgoes : w.staging.startStatus ≠ .timedOut := by rw [hready]; decide
  refine (hheld.openGroup henv haccepts hpolicy hgoes idr channel msg).andThen ?_
  rintro v ⟨hv, hstatus, hgroup⟩
  rw [hready] at hstatus
  split
  next hnone =>
    have hempty := hv.carried.idle hnone
    unfold McapWriter.writeDirectly
    rw [if_neg (by rw [hstatus]; decide)]
    refine hv.direct henv haccepts hpolicy hstatus ?_
    rw [hempty]
    exact fun _ hmem => nomatch hmem
  next hsome =>
    refine hv.writeBehindGroup_ready henv haccepts hpolicy hstatus hsome hopens fun hstrict => ?_
    rcases hgroup with hnone | ⟨rfl, hstands⟩ | hbegun
    · exact absurd hnone hsome
    · exact hfits hstrict hstands
    · exact Or.inr (Or.inl hbegun)

/-- Past the start, a frame older than the group is recorded in the old part. -/
theorem Held.writePreceding_ready (hheld : Held strict policy arrived w)
    (hready : w.staging.startStatus = .ready) {channel : Channel} {msg : RecordedMessage}
    (hother : (w.forcedCutDue cfg env).1 = false →
      ∀ other ∈ arrivalsOf w.staging.staged, stream other ≠ stream (channel, msg)) :
    (w.writePreceding cfg env channel msg).Ends fun v =>
      Held strict policy (arrived ++ [(channel, msg)]) v ∧ v.staging.startStatus = .ready := by
  obtain ⟨tick, htick⟩ := @forcedCutDue_tick cfg env w
  have hticked : Held strict policy arrived { w with tick := tick } := hheld.of_view rfl rfl rfl
  unfold McapWriter.writePreceding
  rw [if_neg (by rw [hready]; decide)]
  dsimp only
  rw [htick]
  refine Run.Ends.andThen (P := fun v => Held strict policy arrived v ∧
    v.staging.startStatus = .ready ∧
    ∀ other ∈ arrivalsOf v.staging.staged, stream other ≠ stream (channel, msg)) ?_ ?_
  · split
    · refine (hticked.cancel henv haccepts hpolicy hready true).andThen ?_
      rintro v ⟨hv, hstill, hempty, -⟩
      refine (hv.forceRollIfDue henv haccepts hpolicy).mono fun u hu => ⟨hu.1, ?_, ?_⟩
      · exact (congrArg Staging.startStatus hu.2 :).trans hstill
      · have hnone : u.staging.staged = [] := (congrArg Staging.staged hu.2 :).trans hempty
        rw [hnone]
        exact fun _ hmem => nomatch hmem
    next hdue => exact Run.ends_ok ⟨hticked, hready, hother (Bool.eq_false_iff.mpr hdue)⟩
  · rintro v ⟨hv, hstill, hfree⟩
    exact hv.direct henv haccepts hpolicy hstill hfree

/-! ### The start -/

/-- A message behind the group of the start is staged, and may complete it. -/
theorem Held.writeBehindGroup_waiting {before : McapWriter} (hopen : before.closed = false)
    (hwas : before.staging.startStatus = .waiting) (hheld : Held strict policy arrived w)
    (hwaiting : w.staging.startStatus = .waiting) {idr : Bool} {channel : Channel}
    {msg : RecordedMessage} (hgroup : w.staging.candidateIds ≠ [])
    (hopens : Opens policy idr channel msg) (hfits : Fits policy w.staging idr channel msg) :
    (w.writeBehindGroup cfg env policy idr channel msg).Ends
      (Lands cfg strict policy before arrived channel msg) := by
  unfold McapWriter.writeBehindGroup
  rw [if_pos hwaiting]
  split
  · have hstopped : w.staging.startStatus ≠ .ready := by rw [hwaiting]; decide
    exact Run.ends_ok (lands_over (hheld.failStart hstopped arrived) rfl)
  · obtain ⟨hstaged, hstatus, hsome⟩ :=
      @Held.stage cfg _ _ _ _ hheld _ _ _ hgroup hopens fun _ => hfits
    rw [hwaiting] at hstatus
    unfold McapWriter.flushIfComplete
    split
    next hlength =>
      exact (hstaged.start henv haccepts hpolicy hstatus hsome hlength).mono fun v hv =>
        lands_started hopen hwas hv.1 hv.2
    next =>
      rw [if_neg (by rw [hstatus]; simp)]
      obtain ⟨-, -, -, -, -, -, -, hcases⟩ := @stage_cases cfg w idr channel msg
      refine Run.ends_ok (lands_staged hopen hwas hstaged hstatus ?_ hsome fun hvideo => ?_)
      · rcases hcases with ⟨-, -, -, hids, -⟩ | ⟨-, hids, -⟩
        · rw [hids]
          exact List.cons_ne_nil _ _
        · rw [hids]
          exact hgroup
      · rcases hcases with ⟨-, -, -, hids, -⟩ | ⟨hstays, hids, -⟩
        · rw [hids]
          exact List.mem_cons_self ..
        · rw [hids]
          rcases hfits with ⟨-, hbegun⟩ | ⟨-, hmember⟩
          · rw [hbegun.ids]
            exact List.mem_singleton.mpr rfl
          · rcases hmember hvideo with hinside | hjoins
            · exact hinside
            · exact absurd ⟨hjoins.idr, hjoins.point, hjoins.fresh⟩ hstays

/-- While the start is waited for, a message that no group holds up is dropped or begins one. -/
theorem Held.continueTake_waiting {before : McapWriter} (hopen : before.closed = false)
    (hwas : before.staging.startStatus = .waiting) (hheld : Held strict policy arrived w)
    (hwaiting : w.staging.startStatus = .waiting) {idr : Bool} {channel : Channel}
    {msg : RecordedMessage} (hopens : Opens policy idr channel msg)
    (hfits : w.staging.candidateIds ≠ [] → Fits policy w.staging idr channel msg) :
    (w.continueTake cfg env policy idr channel msg).Ends
      (Lands cfg strict policy before arrived channel msg) := by
  have hgoes : w.staging.startStatus ≠ .timedOut := by rw [hwaiting]; decide
  refine (hheld.openGroup henv haccepts hpolicy hgoes idr channel msg).andThen ?_
  rintro v ⟨hv, hstatus, hgroup⟩
  rw [hwaiting] at hstatus
  split
  next hnone =>
    unfold McapWriter.writeDirectly
    rw [if_pos hstatus]
    refine Run.ends_ok (lands_dropped hopen hwas ?_ ?_ ?_ ?_)
    · split
      · exact hv.of_view rfl rfl rfl
      · exact hv
    · split <;> exact hstatus
    · split <;> exact fun _ hsome => absurd hnone hsome
    · split <;> exact fun hsome => absurd hnone hsome
  next hsome =>
    refine hv.writeBehindGroup_waiting henv haccepts hpolicy hopen hwas hstatus hsome hopens ?_
    rcases hgroup with hnone | ⟨rfl, hstands⟩ | hbegun
    · exact absurd hnone hsome
    · exact hfits hstands
    · exact Or.inl hbegun

/-! ### Deadlines -/

omit henv haccepts hpolicy in
theorem Held.tock (hheld : Held strict policy arrived w) : Held strict policy arrived w.tock :=
  hheld.of_view rfl rfl rfl

/-- Past the start, what is staged past its deadline is flushed. -/
theorem Held.flushDue_ready (hheld : Held strict policy arrived w)
    (hready : w.staging.startStatus = .ready) :
    (w.flushDue cfg env).Ends fun v => Held strict policy arrived v ∧
      v.staging.startStatus = .ready ∧
      ((v = w ∧ w.staging.staged = []) ∨
        (v = w.tock ∧ w.now env < w.staging.candidateDeadline) ∨
        (v.staging.staged = [] ∧ v.staging.candidateIds = [])) := by
  have hstarted : w.staging.startStatus ≠ .waiting := by rw [hready]; decide
  unfold McapWriter.flushDue rotationDeadline
  by_cases hnone : w.staging.staged = []
  · rw [if_neg (fun hsome => hsome hnone), if_neg hstarted]
    exact Run.ends_ok ⟨hheld, hready, Or.inl ⟨rfl, hnone⟩⟩
  · rw [if_pos hnone]
    dsimp only
    rw [if_neg hstarted]
    split
    next hearly => exact Run.ends_ok ⟨hheld.tock, hready, Or.inr (Or.inl ⟨rfl, hearly⟩)⟩
    next =>
      refine (hheld.tock.cancel henv haccepts hpolicy hready true).mono ?_
      rintro v ⟨hv, hstill, hempty, hids, -⟩
      exact ⟨hv, hstill, Or.inr (Or.inr ⟨hempty, hids hnone⟩)⟩

omit henv haccepts hpolicy in
/-- While the start is waited for, the deadline gives it up. -/
theorem Held.flushDue_waiting (hheld : Held strict policy arrived w)
    (hwaiting : w.staging.startStatus = .waiting) :
    (w.flushDue cfg env).Ends fun v => v = w.tock ∨
      (Held strict policy arrived v ∧ v.staging.startStatus = .timedOut) := by
  have hstopped : w.tock.staging.startStatus ≠ .ready := by
    change w.staging.startStatus ≠ _
    rw [hwaiting]
    decide
  obtain ⟨deadline, hdeadline⟩ : ∃ deadline, w.rotationDeadline = some deadline := by
    unfold rotationDeadline
    rw [if_pos hwaiting]
    split
    · exact ⟨_, rfl⟩
    · exact ⟨_, rfl⟩
  unfold McapWriter.flushDue
  rw [hdeadline]
  dsimp only
  rw [if_pos hwaiting]
  split
  · exact Run.ends_ok (Or.inl rfl)
  · exact Run.ends_ok (Or.inr ⟨hheld.tock.failStart hstopped arrived, rfl⟩)

omit henv haccepts hpolicy in
theorem Held.flushDue_timedOut (hheld : Held strict policy arrived w)
    (hover : w.staging.startStatus = .timedOut) : w.flushDue cfg env = ⟨w, false⟩ := by
  have hempty := hheld.carried.idle (hheld.carried.ended hover)
  unfold McapWriter.flushDue rotationDeadline
  rw [if_neg (fun hsome => hsome hempty), if_neg (by rw [hover]; decide)]

/-! ### Writing -/

omit henv haccepts hpolicy in
theorem outsideGroup_iff {channel : Channel} : w.outsideGroup cfg channel = true ↔
    w.staging.candidateIds ≠ [] ∧ cfg.selectedVideo channel = true ∧
      channel.id ∉ w.staging.candidateIds := by
  unfold outsideGroup
  simp only [Bool.and_eq_true, Bool.not_eq_true', decide_eq_true_eq, decide_eq_false_iff_not,
    and_assoc]

omit henv haccepts hpolicy in
/-- A frame that neither precedes the group nor breaks it joins it. -/
theorem joins_of_not_breaks {idr : Bool} {channel : Channel} {msg : RecordedMessage}
    (hidr : w.isIdr cfg channel msg = idr) (houtside : w.outsideGroup cfg channel = true)
    (hkeeps : ¬w.breaksGroup cfg policy channel msg = true) :
    Joins policy w.staging idr channel msg := by
  unfold breaksGroup at hkeeps
  simp only [hidr, Bool.or_eq_true, Bool.not_eq_true', decide_eq_true_eq, not_or,
    Bool.not_eq_false, Decidable.not_not] at hkeeps
  obtain ⟨⟨hyes, hpoint⟩, hspread⟩ := hkeeps
  exact ⟨hyes, (outsideGroup_iff.mp houtside).2.2, hpoint, by omega⟩

omit henv haccepts hpolicy in
/-- Where the group is not waiting for its camera, a video frame is of a camera in it. -/
theorem mem_of_not_outside {channel : Channel} (hgroup : w.staging.candidateIds ≠ [])
    (hwanted : cfg.wants channel = true) (hinside : ¬w.outsideGroup cfg channel = true)
    (hvideo : isVideo channel = true) : channel.id ∈ w.staging.candidateIds := by
  have hselected : cfg.selectedVideo channel = true := by
    unfold WriterConfig.wants at hwanted
    rw [hvideo] at hwanted
    exact hwanted
  by_contra hfresh
  exact hinside (outsideGroup_iff.mpr ⟨hgroup, hselected, hfresh⟩)

/-- Past the start, a message that the take carries is recorded or staged. -/
theorem Held.continuation_ready (hheld : Held strict policy arrived w)
    (hready : w.staging.startStatus = .ready) {channel : Channel} {msg : RecordedMessage}
    (hwanted : cfg.wants channel = true)
    (hstands : strict → w.staging.candidateIds ≠ [] →
      (w.outsideGroup cfg channel = true → w.precedesGroup policy msg = false) →
      w.overflows cfg policy channel msg = true ∨ w.staging.staged ≠ [])
    (hother : w.outsideGroup cfg channel = true → w.precedesGroup policy msg = true →
      (w.forcedCutDue cfg env).1 = false →
      ∀ other ∈ arrivalsOf w.staging.staged, stream other ≠ stream (channel, msg)) :
    (if w.outsideGroup cfg channel then
      if w.precedesGroup policy msg then w.writePreceding cfg env channel msg
      else if w.breaksGroup cfg policy channel msg then
        if w.staging.startStatus = .waiting then (⟨w.failStart, false⟩ : Run McapWriter)
        else
          (w.flushStaged cfg env false true).andThen fun v =>
            v.continueTake cfg env policy (w.isIdr cfg channel msg) channel msg
      else w.continueTake cfg env policy (w.isIdr cfg channel msg) channel msg
    else w.continueTake cfg env policy (w.isIdr cfg channel msg) channel msg).Ends fun v =>
      Held strict policy (arrived ++ [(channel, msg)]) v ∧ v.staging.startStatus = .ready := by
  have hopens : Opens policy (w.isIdr cfg channel msg) channel msg :=
    isIdr_opens hpolicy w channel msg
  split
  next houtside =>
    split
    next hprecedes =>
      -- A message stamped before the group goes to the file at once, past what is staged.
      exact hheld.writePreceding_ready henv haccepts hpolicy hready (hother houtside hprecedes)
    next hfollows =>
      have hlater : w.outsideGroup cfg channel = true → w.precedesGroup policy msg = false :=
        fun _ => Bool.eq_false_iff.mpr hfollows
      split
      next =>
        rw [if_neg (by rw [hready]; decide)]
        by_cases hnone : w.staging.staged = []
        · -- a group with nothing behind it is given up only once something is
          unfold McapWriter.flushStaged
          rw [if_pos hnone, Run.andThen_ok]
          refine hheld.continueTake_ready henv haccepts hpolicy hready hopens
            fun hstrict hgroup => ?_
          exact Or.inl ((hstands hstrict hgroup hlater).resolve_right (not_not_intro hnone))
        · -- The group is given up, and the message is then one that no group holds up.
          refine (hheld.cancel henv haccepts hpolicy hready true).andThen ?_
          rintro v ⟨hv, hstill, hempty, hids, -⟩
          exact hv.continueTake_ready henv haccepts hpolicy hstill hopens
            fun _ hgroup => absurd (hids hnone) hgroup
      next hkeeps =>
        -- The message does not break the group: it joins it or is staged behind it.
        refine hheld.continueTake_ready henv haccepts hpolicy hready hopens fun hstrict hgroup => ?_
        exact (hstands hstrict hgroup hlater).imp_right fun hbehind =>
          Or.inr ⟨hbehind, fun _ => Or.inr (joins_of_not_breaks rfl houtside hkeeps)⟩
  next hinside =>
    refine hheld.continueTake_ready henv haccepts hpolicy hready hopens fun hstrict hgroup => ?_
    have hlater : w.outsideGroup cfg channel = true → w.precedesGroup policy msg = false :=
      fun houtside => absurd houtside hinside
    exact (hstands hstrict hgroup hlater).imp_right fun hbehind =>
      Or.inr ⟨hbehind, fun hvideo =>
        Or.inl (mem_of_not_outside hgroup hwanted hinside hvideo)⟩

/-- While the start is waited for, a message is dropped, gives the start up, or is staged in
its group. -/
theorem Held.continuation_waiting {before : McapWriter} (hopen : before.closed = false)
    (hwas : before.staging.startStatus = .waiting) (hheld : Held strict policy arrived w)
    (hwaiting : w.staging.startStatus = .waiting) (hstands : Stands w) {channel : Channel}
    {msg : RecordedMessage} :
    (if w.staging.startStatus = .timedOut ∨
        isVideo channel = true ∧ cfg.selectedVideo channel = false then
      (⟨w, false⟩ : Run McapWriter)
    else if w.beforeStart cfg channel msg then ⟨w.dropStartup, false⟩
    else if w.outsideGroup cfg channel then
      if w.precedesGroup policy msg then w.writePreceding cfg env channel msg
      else if w.breaksGroup cfg policy channel msg then
        if w.staging.startStatus = .waiting then ⟨w.failStart, false⟩
        else
          (w.flushStaged cfg env false true).andThen fun v =>
            v.continueTake cfg env policy (w.isIdr cfg channel msg) channel msg
      else w.continueTake cfg env policy (w.isIdr cfg channel msg) channel msg
    else w.continueTake cfg env policy (w.isIdr cfg channel msg) channel msg).Ends
      (Lands cfg strict policy before arrived channel msg) := by
  have hopens : Opens policy (w.isIdr cfg channel msg) channel msg :=
    isIdr_opens hpolicy w channel msg
  have hdropped : Held strict policy arrived w.dropStartup := hheld.of_view rfl rfl rfl
  split
  next hskips =>
    rcases hskips with hover | ⟨hvideo, hunselected⟩
    · rw [hwaiting] at hover
      cases hover
    · refine Run.ends_ok (lands_dropped hopen hwas hheld hwaiting hstands fun hgroup =>
        ⟨hvideo, fun hmember => ?_⟩)
      have hgrouped := hheld.carried.grouped (Or.inr hwaiting) (hstands hwaiting hgroup)
      have hselected : cfg.selectedVideo channel = true :=
        (selectedVideo_iff hpolicy channel).mpr ⟨hvideo, hgrouped.chosen _ hmember⟩
      rw [hselected] at hunselected
      cases hunselected
  next hskips =>
    have hwanted : cfg.wants channel = true := wants_of_selected fun hboth => hskips (Or.inr hboth)
    split
    next hearly =>
      unfold beforeStart at hearly
      simp only [Bool.and_eq_true, Bool.not_eq_true', decide_eq_false_iff_not] at hearly
      -- A frame of a camera that is not in the group comes too early for it.
      obtain ⟨⟨⟨-, hselected⟩, hfresh⟩, -⟩ := hearly
      exact Run.ends_ok (lands_dropped hopen hwas hdropped hwaiting hstands fun _ =>
        ⟨((selectedVideo_iff hpolicy channel).mp hselected).1, hfresh⟩)
    next =>
      split
      next houtside =>
        split
        next =>
          unfold McapWriter.writePreceding
          rw [if_pos hwaiting]
          obtain ⟨-, hselected, hfresh⟩ := outsideGroup_iff.mp houtside
          exact Run.ends_ok (lands_dropped hopen hwas hdropped hwaiting hstands fun _ =>
            ⟨((selectedVideo_iff hpolicy channel).mp hselected).1, hfresh⟩)
        next =>
          split
          next =>
            -- A keyframe of another point breaks the group: the start is given up.
            have hstopped : w.staging.startStatus ≠ .ready := by rw [hwaiting]; decide
            exact Run.ends_ok (lands_over (hheld.failStart hstopped arrived) rfl)
          next hkeeps =>
            -- The frame joins the group.
            refine hheld.continueTake_waiting henv haccepts hpolicy hopen hwas hwaiting hopens
              fun hgroup => Or.inr ⟨hstands hwaiting hgroup, fun _ => ?_⟩
            exact Or.inr (joins_of_not_breaks rfl houtside hkeeps)
      next hinside =>
        -- The message is of a camera in the group, or no video.
        refine hheld.continueTake_waiting henv haccepts hpolicy hopen hwas hwaiting hopens
          fun hgroup => Or.inr ⟨hstands hwaiting hgroup, fun hvideo => ?_⟩
        exact Or.inl (mem_of_not_outside hgroup hwanted hinside hvideo)

/-- `WriteContinuation`. -/
theorem Held.writeContinuation (hheld : Held strict policy arrived w) (hstands : Stands w)
    {channel : Channel} {msg : RecordedMessage}
    (hstale : strict → ¬StagesStale cfg policy w channel msg)
    (hpasses : ¬Overtakes cfg env policy w channel msg) :
    (w.writeContinuation cfg env policy channel msg).Ends
      (Lands cfg strict policy w arrived channel msg) := by
  have hopen := hheld.going.closed
  unfold McapWriter.writeContinuation
  cases hstatus : w.staging.startStatus with
  | timedOut =>
      rw [hheld.flushDue_timedOut hstatus, Run.andThen_ok]
      dsimp only
      rw [if_pos (Or.inl hstatus)]
      exact Run.ends_ok (lands_over hheld hstatus)
  | waiting =>
      refine (hheld.flushDue_waiting hstatus).andThen ?_
      rintro v (rfl | ⟨hv, hover⟩)
      · exact hheld.tock.continuation_waiting henv haccepts hpolicy hopen hstatus hstatus hstands
      · dsimp only
        rw [if_pos (Or.inl hover)]
        exact Run.ends_ok (lands_over hv hover)
  | ready =>
      refine (hheld.flushDue_ready henv haccepts hpolicy hstatus).andThen ?_
      rintro v ⟨hv, hready, hcases⟩
      dsimp only
      split
      next hskips =>
        rcases hskips with hover | ⟨hvideo, hunselected⟩
        · rw [hready] at hover
          cases hover
        · refine Run.ends_ok (lands_unwanted hopen hstatus ?_ hv hready)
          unfold WriterConfig.wants
          rw [hvideo, hunselected]
          rfl
      next hskips =>
        have hwanted : cfg.wants channel = true := wants_of_selected fun hboth =>
          hskips (Or.inr hboth)
        rw [if_neg (by unfold beforeStart; rw [hready]; simp)]
        refine (hv.continuation_ready henv haccepts hpolicy hready hwanted ?_ ?_).mono fun u hu =>
          lands_ready hopen hstatus hwanted hu.1 hu.2
        · -- Nothing is staged behind a group with nothing staged: that is what `StagesStale`
          -- excludes.
          intro hstrict hgroup hlater
          rcases hcases with ⟨rfl, hempty⟩ | ⟨rfl, -⟩ | ⟨-, hids⟩
          · refine Or.inl (Bool.eq_false_imp_eq_true.mp fun hroom => ?_)
            exact absurd ⟨⟨hopen, hstatus, hgroup, hempty⟩, hwanted, hlater, hroom⟩
              (hstale hstrict)
          · refine or_iff_not_imp_left.mpr fun hroom hempty => hstale hstrict ?_
            exact ⟨⟨hopen, hstatus, hgroup, hempty⟩, hwanted, hlater,
              Bool.eq_false_iff.mpr hroom⟩
          · exact absurd hids hgroup
        · -- A frame that goes past a staged one of its own camera overtakes it.
          intro houtside hprecedes hundue other hother hsame
          rcases hcases with ⟨rfl, hempty⟩ | ⟨rfl, hearly⟩ | ⟨hempty, -⟩
          · rw [hempty] at hother
            cases hother
          · exact hpasses
              ⟨hopen, hstatus, hearly, houtside, hprecedes, hundue, other, hother, hsame⟩
          · rw [hempty] at hother
            cases hother

end Steps

end McapWriter

end VisioSchema.Mcap

import VisioSchema.Mcap.Carrying

/-!
# Nothing is lost between parts

Over every sequence of calls in which no frame overtakes a staged frame of its own camera, the
take holds what arrived, each message once and those of a channel in order; nothing is left
staged once the writer is closed.

## Strategy

The functions of a take keep `Held` (`Carrying.lean`); here it is carried through whole runs.  A
closed writer holds no part any more, so its invariant is another one (`Sealed`): what was
recorded alone makes up what arrived.  `Whole` is either of the two, or a start that was given
up.

Which calls `Whole` passes through depends on what is to be shown of the run.  `Passes` asks that
no frame overtakes, and where `strict` also that nothing is staged behind a group with nothing
staged; `Whole.runFrom` is the induction, for either.  `run_keeps_arrivals` is the plain
instance, and the strict one is used for the aligned cuts (`AlignedCuts.lean`).
-/

namespace VisioSchema.Mcap

open VisioSchema.Library VisioSchema.Wire VisioSchema.Routing

namespace McapWriter

/-! ## Closing -/

/-- A closed writer of a take in which nothing has failed. -/
structure Sealed (strict : Prop) (policy : RotationPolicy) (arrived : List Arrival)
    (w : McapWriter) : Prop where
  closed : w.closed = true
  ordered : PartsInOrder w.log
  empty : w.staging.staged = []
  bytes : w.staging.stagedBytes = 0
  payload : w.staging.stagedPayloadBytes = 0
  order : w.staging.startStatus = .ready → SameOrder stream (recorded w.log) arrived
  fresh : w.staging.startStatus ≠ .ready → ∀ event ∈ marks w.log, event.isAligned = false
  aligned : strict → w.staging.startStatus = .ready → AlignedCuts policy arrived (marks w.log)

section Sealed

variable {cfg : WriterConfig} {env : Env} {strict : Prop} {policy : RotationPolicy}
  {arrived : List Arrival} {w v : McapWriter}

theorem Sealed.of_stopped (hsealed : Sealed strict policy arrived w)
    (hstatus : w.staging.startStatus ≠ .ready) (other : List Arrival) :
    Sealed strict policy other w where
  closed := hsealed.closed
  ordered := hsealed.ordered
  empty := hsealed.empty
  bytes := hsealed.bytes
  payload := hsealed.payload
  order := fun hready => absurd hready hstatus
  fresh := hsealed.fresh
  aligned := fun _ hready => absurd hready hstatus

/-- Nothing is recorded in a closed writer any more. -/
theorem Sealed.of_marks (hsealed : Sealed strict policy arrived w) (hclosed : v.closed = w.closed)
    (hmarks : marks v.log = marks w.log) (hstaging : v.staging = w.staging) :
    Sealed strict policy arrived v := by
  have hrecorded : recorded v.log = recorded w.log := by
    rw [← recorded_marks, hmarks, recorded_marks]
  refine ⟨hclosed.trans hsealed.closed, hsealed.ordered.of_marks hmarks, ?_, ?_, ?_, ?_, ?_, ?_⟩
  · rw [hstaging]
    exact hsealed.empty
  · rw [hstaging]
    exact hsealed.bytes
  · rw [hstaging]
    exact hsealed.payload
  · rw [hstaging, hrecorded]
    exact hsealed.order
  · rw [hstaging, hmarks]
    exact hsealed.fresh
  · rw [hstaging, hmarks]
    exact hsealed.aligned

/-- `Close` once nothing is staged. -/
theorem Going.finish (hgoing : Going w) : (w.finish cfg env).closed = true ∧
    marks (w.finish cfg env).log = marks w.log ∧ (w.finish cfg env).staging = w.staging := by
  have hopen : ({ w with closed := true } : McapWriter).file.isSome = true := hgoing.recording.file
  have hwriter : ({ w with closed := true } : McapWriter).writerOpen = true := hgoing.writer
  obtain ⟨events, hlog, hplain, -⟩ := @closeCurrentPart_appends cfg env _ hopen
  obtain ⟨hbeside, -⟩ := @closeCurrentPart_beside cfg env _ hopen
  unfold McapWriter.finish
  dsimp only
  rw [if_pos hwriter]
  refine ⟨hbeside.closed, ?_, hbeside.staging⟩
  rw [hlog, marks_append, marks_eq_nil hplain, List.append_nil]

theorem Held.finish (hheld : Held strict policy arrived w) (hempty : w.staging.staged = []) :
    Sealed strict policy arrived (w.finish cfg env) := by
  obtain ⟨hclosed, hmarks, hstaging⟩ := @Going.finish cfg env _ hheld.going
  have hrecorded : recorded (w.finish cfg env).log = recorded w.log := by
    rw [← recorded_marks, hmarks, recorded_marks]
  refine ⟨hclosed, hheld.going.ordered.of_marks hmarks, ?_, ?_, ?_, ?_, ?_, ?_⟩
  · rw [hstaging]
    exact hempty
  · rw [hstaging, hheld.carried.weighed.bytes, hempty]
    rfl
  · rw [hstaging, hheld.carried.weighed.payload, hempty]
    rfl
  · rw [hstaging, hrecorded]
    intro hready
    have horder := hheld.carried.order hready
    rwa [hempty, arrivalsOf, List.map_nil, List.append_nil] at horder
  · rw [hstaging, hmarks]
    exact fun hstatus => (hheld.carried.fresh hstatus).2
  · rw [hstaging, hmarks]
    exact hheld.carried.aligned

/-- What is staged is given up before the start. -/
theorem Held.clearStaged (hheld : Held strict policy arrived w)
    (hstatus : w.staging.startStatus ≠ .ready) : Held strict policy [] w.clearStaged where
  going := hheld.going.of_view rfl
  carried :=
    { idle := fun _ => rfl
      weighed := ⟨rfl, rfl⟩
      order := fun hready => absurd hready hstatus
      primed := fun hready => absurd hready hstatus
      fresh := fun _ => hheld.carried.fresh hstatus
      waiting := fun _ => rfl
      ended := fun _ => rfl
      grouped := fun _ hsome => absurd rfl hsome
      aligned := fun _ hready => absurd hready hstatus }

end Sealed

/-! ## Calls -/

/-- A take in which nothing has failed, between two calls. -/
def Whole (strict : Prop) (policy : RotationPolicy) (arrived : List Arrival) (w : McapWriter) :
    Prop :=
  (Held strict policy arrived w ∧ Stands w) ∨ Sealed strict policy arrived w

/-- A call that hands over no frame that overtakes, and where `strict` nothing that is staged
behind a group with nothing staged. -/
def Passes (cfg : WriterConfig) (env : Env) (strict : Prop) (policy : RotationPolicy)
    (w : McapWriter) : Op → Prop
  | .write channel msg =>
      (strict → ¬StagesStale cfg policy w channel msg) ∧ ¬Overtakes cfg env policy w channel msg
  | _ => True

section Calls

variable {cfg : WriterConfig} {env : Env} {strict : Prop} {policy : RotationPolicy}
  {arrived : List Arrival} {w : McapWriter}

theorem Held.whole (hheld : Held strict policy arrived w) (hstands : Stands w) :
    Whole strict policy arrived w := Or.inl ⟨hheld, hstands⟩

theorem stands_of_ready (hready : w.staging.startStatus = .ready) : Stands w :=
  fun hwaiting => by rw [hready] at hwaiting; cases hwaiting

theorem stands_of_timedOut (hover : w.staging.startStatus = .timedOut) : Stands w :=
  fun hwaiting => by rw [hover] at hwaiting; cases hwaiting

theorem Whole.armStart (hwhole : Whole strict policy arrived w) (target : SyncPoint) (wait : ℤ) :
    Whole strict policy arrived (w.armStart env policy target wait).state := by
  unfold McapWriter.armStart
  split
  · exact hwhole
  · split
    · exact hwhole
    · split
      · exact hwhole
      next hgroup =>
        have hnone : w.staging.candidateIds = [] := not_not.mp hgroup
        rcases hwhole with ⟨hheld, -⟩ | hsealed
        · have hempty := hheld.carried.idle hnone
          refine Held.whole ⟨hheld.going.of_view rfl, ?_⟩ fun _ hsome => absurd hnone hsome
          exact
            { idle := hheld.carried.idle
              weighed := ⟨hheld.carried.weighed.bytes, hheld.carried.weighed.payload⟩
              order := hheld.carried.order
              primed := hheld.carried.primed
              fresh := hheld.carried.fresh
              waiting := hheld.carried.waiting
              ended := hheld.carried.ended
              grouped := fun _ hsome => absurd hempty hsome
              aligned := hheld.carried.aligned }
        · exact Or.inr ⟨hsealed.closed, hsealed.ordered, hsealed.empty, hsealed.bytes,
            hsealed.payload, hsealed.order, hsealed.fresh, hsealed.aligned⟩

theorem Sealed.flushDue (hsealed : Sealed strict policy arrived w) :
    Sealed strict policy arrived (w.flushDue cfg env).state := by
  unfold McapWriter.flushDue rotationDeadline
  rw [if_neg (not_not_intro hsealed.empty)]
  split
  · exact hsealed
  next hdeadline =>
    have hwaiting : w.staging.startStatus = .waiting := by
      by_contra hother
      rw [if_neg hother] at hdeadline
      cases hdeadline
    rw [if_pos hwaiting]
    split
    · exact hsealed.of_marks rfl rfl rfl
    · have hstopped : w.staging.startStatus ≠ .ready := by rw [hwaiting]; decide
      exact ⟨hsealed.closed, hsealed.ordered, rfl, rfl, rfl, fun hready => (by cases hready),
        fun _ => hsealed.fresh hstopped, fun _ hready => (by cases hready)⟩

theorem Whole.setMetadata (hwhole : Whole strict policy arrived w) (henv : env.Healthy)
    (nonempty : Bool) : Whole strict policy arrived (w.setMetadata cfg env nonempty) := by
  rcases hwhole with ⟨hheld, hstands⟩ | hsealed
  · have hnamed : Held strict policy arrived { w with hasMeta := nonempty } :=
      hheld.of_view rfl rfl rfl
    unfold McapWriter.setMetadata McapWriter.writeStoredMetadata
    split
    · obtain ⟨hgoes, -, hstaging, -⟩ := @Going.libraryWrites cfg env _ hnamed.going henv
      have hstands' : Stands (McapWriter.libraryWrites cfg env { w with hasMeta := nonempty }) := by
        unfold Stands
        rw [hstaging]
        exact hstands
      exact (hnamed.records ⟨hgoes, by rw [hstaging]⟩).whole hstands'
    · exact hnamed.whole hstands
  · obtain ⟨events, hwrote⟩ := writes_writeStoredMetadata cfg env { w with hasMeta := nonempty }
    refine Or.inr (hsealed.of_marks ?_ ?_ ?_)
    · change (McapWriter.writeStoredMetadata cfg env { w with hasMeta := nonempty }).closed = _
      rw [hwrote.state]
    · change marks (McapWriter.writeStoredMetadata cfg env { w with hasMeta := nonempty }).log = _
      rw [hwrote.state]
      change marks (w.log ++ events) = _
      rw [marks_append, marks_eq_nil fun event hevent =>
        plain_of_isWriting (hwrote.writing event hevent), List.append_nil]
    · change (McapWriter.writeStoredMetadata cfg env { w with hasMeta := nonempty }).staging = _
      rw [hwrote.state]

variable (henv : env.Healthy) (haccepts : env.Accepts) (hpolicy : cfg.policy = some policy)
include henv haccepts hpolicy

theorem Whole.write (hwhole : Whole strict policy arrived w) {channel : Channel}
    {msg : RecordedMessage} (hstale : strict → ¬StagesStale cfg policy w channel msg)
    (hpasses : ¬Overtakes cfg env policy w channel msg) :
    Whole strict policy
      (arrive cfg w (w.write cfg env channel msg).state arrived (.write channel msg))
      (w.write cfg env channel msg).state := by
  unfold McapWriter.write
  rcases hwhole with ⟨hheld, hstands⟩ | hsealed
  · have hguard : ¬(w.closed || !w.writerOpen || w.storageRefused) = true := by
      rw [hheld.going.closed, hheld.going.writer, hheld.going.storageRefused]
      decide
    rw [if_neg hguard, hpolicy]
    obtain ⟨-, hlands⟩ := hheld.writeContinuation henv haccepts hpolicy hstands hstale hpasses
    exact hlands.held.whole hlands.stands
  · rw [if_pos (by simp [hsealed.closed])]
    unfold arrive
    dsimp only
    rw [if_pos hsealed.closed]
    exact Or.inr hsealed

theorem Whole.flushDue (hwhole : Whole strict policy arrived w) :
    Whole strict policy arrived (w.flushDue cfg env).state := by
  rcases hwhole with ⟨hheld, hstands⟩ | hsealed
  · cases hstatus : w.staging.startStatus with
    | timedOut =>
        rw [hheld.flushDue_timedOut hstatus]
        exact hheld.whole hstands
    | waiting =>
        obtain ⟨-, hsame | ⟨hv, hover⟩⟩ :=
          @Held.flushDue_waiting cfg env _ _ _ _ hheld hstatus
        · rw [hsame]
          exact hheld.tock.whole hstands
        · exact hv.whole (stands_of_timedOut hover)
    | ready =>
        obtain ⟨-, hv, hready, -⟩ := hheld.flushDue_ready henv haccepts hpolicy hstatus
        exact hv.whole (stands_of_ready hready)
  · exact Or.inr hsealed.flushDue

theorem Whole.close (hwhole : Whole strict policy arrived w) :
    Whole strict policy arrived (w.close cfg env).state := by
  unfold McapWriter.close
  rcases hwhole with ⟨hheld, -⟩ | hsealed
  · rw [if_neg (by rw [hheld.going.closed]; decide)]
    dsimp only
    refine Or.inr ?_
    by_cases hready : w.staging.startStatus = .ready
    · rw [if_pos hready]
      obtain ⟨hquiet, hv, -, hempty, -⟩ := hheld.cancel henv haccepts hpolicy hready false
      rw [Run.andThen_of_quiet hquiet]
      exact hv.finish hempty
    · rw [if_neg hready, Run.andThen_ok]
      have hcleared : Sealed strict policy [] (w.clearStaged.finish cfg env) :=
        (hheld.clearStaged hready).finish rfl
      refine hcleared.of_stopped ?_ arrived
      obtain ⟨-, -, hstaging⟩ :=
        @Going.finish cfg env _ (hheld.clearStaged hready).going
      rw [hstaging]
      exact hready
  · rw [if_pos hsealed.closed]
    exact Or.inr hsealed

theorem Whole.apply (hwhole : Whole strict policy arrived w) (op : Op)
    (hop : Passes cfg env strict policy w op) :
    Whole strict policy (arrive cfg w (w.apply cfg env op).state arrived op)
      (w.apply cfg env op).state := by
  cases op with
  | write channel msg => exact hwhole.write henv haccepts hpolicy hop.1 hop.2
  | flushDue => exact hwhole.flushDue henv haccepts hpolicy
  | armStart target wait =>
      unfold McapWriter.apply
      rw [hpolicy]
      exact hwhole.armStart target wait
  | setMetadata nonempty => exact hwhole.setMetadata henv nonempty
  | close => exact hwhole.close henv haccepts hpolicy

omit haccepts in
/-- The constructor waits for the group of the start, where there are cameras. -/
theorem arm_armed : (arm cfg env {}).threw = false ∧
    ∃ tick status deadline, (arm cfg env {}).state =
      { tick := tick, staging := { startStatus := status, startDeadline := deadline } } ∧
      status ≠ .timedOut ∧ (status = .ready → policy.videoIds = []) := by
  unfold arm
  rw [hpolicy]
  dsimp only
  refine ⟨by simp [henv.random], ?_⟩
  split
  next hnone => exact ⟨_, .ready, 0, rfl, by decide, fun _ => hnone⟩
  next => exact ⟨_, .waiting, _, rfl, by decide, fun hready => by cases hready⟩

/-- A new take, before its first call. -/
theorem construct_held : (construct cfg env).Ends fun v => Held strict policy [] v ∧ Stands v := by
  obtain ⟨hquiet, tick, status, deadline, harmed, hstatus, hnone⟩ := arm_armed henv hpolicy
  unfold construct
  rw [Run.andThen_of_quiet hquiet, harmed]
  let start : Staging := { startStatus := status, startDeadline := deadline }
  generalize hw : ({ tick := tick, staging := start } : McapWriter) = w
  have hopening : Opening w := opening_of_view (by rw [← hw]; rfl)
  have hbeside : Beside cfg w (w.openPart cfg env).state := openPart_beside
  obtain ⟨hopened, hgoing, hmarks, -⟩ := @Opening.openPart_going cfg env w henv haccepts hopening
    (by rw [← hw]) (by rw [← hw]; exact List.Pairwise.nil)
  have hstaging : (w.openPart cfg env).state.staging =
      { startStatus := status, startDeadline := deadline } := by
    rw [hbeside.staging, ← hw]
  have hinitial : marks (w.openPart cfg env).state.log = [.opened 0 .initial {}] := by
    rw [hmarks, ← hw]
    rfl
  have hrecorded : recorded (w.openPart cfg env).state.log = [] := by
    rw [← recorded_marks, hinitial]
    rfl
  have hplain : ∀ event ∈ marks (w.openPart cfg env).state.log, event.isAligned = false := by
    rw [hinitial]
    exact fun event hevent => by rw [List.mem_singleton.mp hevent]; rfl
  refine ⟨hopened, ⟨hgoing, ?_⟩, ?_⟩
  · refine ⟨?_, ?_, ?_, ?_, fun _ => ⟨hrecorded, hplain⟩, ?_, ?_, ?_,
      fun _ _ => alignedCuts_of_none hplain⟩
    · exact fun _ => by rw [hstaging]
    · rw [hstaging]
      exact ⟨rfl, rfl⟩
    · rw [hstaging, hrecorded]
      exact fun _ => SameOrder.refl stream []
    · rw [hstaging]
      intro hready id hid
      rw [hnone hready] at hid
      cases hid
    · rw [hstaging]
      exact fun _ => rfl
    · rw [hstaging]
      exact fun hover => absurd hover hstatus
    · rw [hstaging]
      exact fun _ hsome => absurd rfl hsome
  · unfold Stands
    rw [hstaging]
    exact fun _ hsome => absurd rfl hsome

/-- What every call keeps, every run keeps, under a condition from which the calls of a whole
take pass. -/
theorem Whole.runFrom {C : McapWriter → Op → Prop}
    (hpasses : ∀ arrived w op, Whole strict policy arrived w → C w op →
      Passes cfg env strict policy w op)
    (hwhole : Whole strict policy arrived w) {ops : List Op}
    (hops : Along (fun w op => (w.apply cfg env op).state) C w ops) :
    Whole strict policy (arrivalsFrom cfg env w arrived ops) (w.runFrom cfg env ops) := by
  induction ops generalizing w arrived with
  | nil => exact hwhole
  | cons op rest ih =>
      have hop := hpasses arrived w op hwhole hops.1
      exact ih (hwhole.apply henv haccepts hpolicy op hop) hops.2

theorem run_whole {C : McapWriter → Op → Prop}
    (hpasses : ∀ arrived w op, Whole strict policy arrived w → C w op →
      Passes cfg env strict policy w op)
    {ops : List Op} (hops : Along (fun w op => (w.apply cfg env op).state) C
      (construct cfg env).state ops) :
    Whole strict policy (arrivals cfg env ops) (run cfg env ops) := by
  obtain ⟨hquiet, hheld, hstands⟩ := @construct_held cfg env strict policy henv haccepts hpolicy
  unfold run
  rw [if_neg (by rw [hquiet]; decide)]
  exact Whole.runFrom henv haccepts hpolicy hpasses (hheld.whole hstands) hops

end Calls

/-! ## The whole take -/

/-- The call hands over no frame that goes past a staged frame of its own camera. -/
def NoOvertaking (cfg : WriterConfig) (env : Env) (policy : RotationPolicy) (w : McapWriter) :
    Op → Prop
  | .write channel msg => ¬Overtakes cfg env policy w channel msg
  | _ => True

instance decidableNoOvertaking (cfg : WriterConfig) (env : Env) (policy : RotationPolicy)
    (w : McapWriter) : ∀ op, Decidable (NoOvertaking cfg env policy w op)
  | .write channel msg => inferInstanceAs (Decidable (¬Overtakes cfg env policy w channel msg))
  | .flushDue | .armStart .. | .setMetadata _ | .close => .isTrue trivial

/-- For every clock and every sequence of calls in which no frame overtakes: once the take has
started, what was recorded and what is staged are the messages that arrived, each once and
those of a channel in order, over parts in order; a closed writer has nothing staged. -/
theorem run_keeps_arrivals (cfg : WriterConfig) (policy : RotationPolicy) (env : Env)
    (ops : List Op) (hpolicy : cfg.policy = some policy) (henv : env.Healthy)
    (haccepts : env.Accepts)
    (hops : Along (fun w op => (w.apply cfg env op).state) (NoOvertaking cfg env policy)
      (construct cfg env).state ops) :
    let w := run cfg env ops
    let held := recorded w.log ++ arrivalsOf w.staging.staged
    (w.staging.startStatus = .ready → held.Perm (arrivals cfg env ops) ∧
      ∀ channel : Channel, held.filter (fun arrival => arrival.1 = channel) =
        (arrivals cfg env ops).filter fun arrival => arrival.1 = channel) ∧
    PartsInOrder w.log ∧
    (w.closed = true → w.staging.staged = [] ∧ w.staging.stagedBytes = 0 ∧
      w.staging.stagedPayloadBytes = 0) := by
  have hpasses : ∀ arrived w op, Whole False policy arrived w → NoOvertaking cfg env policy w op →
      Passes cfg env False policy w op := by
    intro arrived w op _ hop
    cases op with
    | write channel msg => exact ⟨False.elim, hop⟩
    | flushDue => trivial
    | armStart target wait => trivial
    | setMetadata nonempty => trivial
    | close => trivial
  have hfiner : ∀ first second : Arrival, first.1 = second.1 → stream first = stream second := by
    intro first second hsame
    rw [stream, stream, hsame]
  dsimp only
  rcases run_whole henv haccepts hpolicy hpasses hops with ⟨hheld, -⟩ | hsealed
  · refine ⟨fun hready => ?_, hheld.going.ordered, fun hclosed => ?_⟩
    · have horder := hheld.carried.order hready
      exact ⟨horder.perm, horder.finer hfiner⟩
    · rw [hheld.going.closed] at hclosed
      cases hclosed
  · refine ⟨fun hready => ?_, hsealed.ordered, fun _ => ⟨hsealed.empty, hsealed.bytes,
      hsealed.payload⟩⟩
    have horder := hsealed.order hready
    rw [hsealed.empty, arrivalsOf, List.map_nil, List.append_nil]
    exact ⟨horder.perm, horder.finer hfiner⟩

/-! ## A group with nothing staged -/

theorem default_maxWait : (0 : ℤ) ≤ 100000000 := by decide

theorem default_startWait : (0 : ℤ) < 1100000000 := by decide

/-- Two cameras, room for two small frames, a cut due after a nanosecond. -/
def crampedPolicy : RotationPolicy where
  videoIds := [1, 2]
  toleranceNs := 10
  maxStagedBytes := 900
  distinct := by decide
  tolerance_nonneg := by decide
  maxStagedBytes_pos := by decide
  maxWait_nonneg := default_maxWait
  startWait_pos := default_startWait

def crampedTake : WriterConfig where
  policy := some crampedPolicy
  maxDurationNs := 1
  durationSet := true
  rotateOnKeyframe := true
  duration_of_pos := fun _ => rfl

/-- Storage that does what it is asked, and a clock that advances. -/
def ticking : Env := { obedient with now := fun tick => tick }

theorem ticking_healthy : ticking.Healthy where
  made := fun _ => rfl
  io := fun _ call => by cases call <;> rfl
  append := fun _ _ _ => rfl
  header := fun _ => rfl
  random := fun _ => rfl
  cipher := fun _ => rfl

def camera (id : ℕ) : Channel := { id := id, schemaName := kCompressedVideoSchema }

/-- A frame with `size` payload bytes, stamped `stamp` nanoseconds. -/
def frame (key : Bool) (index : ℕ) (stamp : ℤ) (size : ℕ) : RecordedMessage where
  timestamp := { nanos := stamp }
  keyframe := key
  payload := List.replicate size 7
  syncPoint := { authorityEpoch := 1, gridGeneration := 1, frameIndex := index }

/-- Both cameras start, and the keyframe that begins the next group does not fit in memory. -/
def crampedStart : List Op :=
  [.write (camera 1) (frame true 0 0 1), .write (camera 2) (frame true 0 0 1),
    .write (camera 1) (frame true 1 100 480)]

/-- Both cameras start, and their next keyframes cut the take. -/
def crampedCut : List Op :=
  [.write (camera 1) (frame true 0 0 1), .write (camera 2) (frame true 0 0 1),
    .write (camera 1) (frame true 1 100 1), .write (camera 2) (frame true 1 105 1), .close]

/-- A take that is cut and closed. -/
theorem run_keeps_arrivals_cut :
    let w := run crampedTake ticking crampedCut
    let held := recorded w.log ++ arrivalsOf w.staging.staged
    (w.staging.startStatus = .ready → held.Perm (arrivals crampedTake ticking crampedCut) ∧
      ∀ channel : Channel, held.filter (fun arrival => arrival.1 = channel) =
        (arrivals crampedTake ticking crampedCut).filter fun arrival => arrival.1 = channel) ∧
    PartsInOrder w.log ∧
    (w.closed = true → w.staging.staged = [] ∧ w.staging.stagedBytes = 0 ∧
      w.staging.stagedPayloadBytes = 0) :=
  run_keeps_arrivals crampedTake crampedPolicy ticking crampedCut rfl ticking_healthy
    (fun _ => rfl) (by decide +kernel)

/-- Behind the group that has nothing staged, a frame of its missing camera is staged, and an
older frame of that camera then goes into the part before it. -/
theorem not_run_keeps_arrivals : ¬∀ cfg env ops, cfg.policy.isSome = true → env.Healthy →
    env.Accepts → (run cfg env ops).staging.startStatus = .ready → ∀ channel : Channel,
      (recorded (run cfg env ops).log ++ arrivalsOf (run cfg env ops).staging.staged).filter
          (fun arrival => arrival.1 = channel) =
        (arrivals cfg env ops).filter fun arrival => arrival.1 = channel := by
  intro hclaim
  have hlost := hclaim crampedTake ticking
    (crampedStart ++
      [.write (camera 2) (frame false 0 100 1), .write (camera 2) (frame false 0 50 1)])
    rfl ticking_healthy (fun _ => rfl) (by decide +kernel) (camera 2)
  exact absurd hlost (by decide +kernel)

end McapWriter

end VisioSchema.Mcap

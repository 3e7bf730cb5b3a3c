import VisioSchema.Mcap.Continuity

/-!
# Aligned cuts are aligned

Where no message is staged behind a group that has nothing staged, every part that an aligned cut
opened starts each selected camera on its keyframe for the shared point, and no frame before the
cut came after that keyframe (`run_aligned_cuts`).

The flush of a complete group makes such a part (`AlignedCuts.cut`), and everything else leaves
the aligned cuts of the log as they were (`AlignedCuts.append`); both are parts of the strict
invariant that `Whole.runFrom` carries through a run.  A group that has its opening keyframe
staged has no frame of a camera outside it, so that no frame can overtake one
(`Whole.not_overtakes`), and `NoStaleWrite` is all that is asked of a call.
-/

namespace VisioSchema.Mcap

open VisioSchema.Library VisioSchema.Wire VisioSchema.Routing

section Marks

variable {policy : RotationPolicy} {arrived : List Arrival} {log : List Event}

/-- What is aligned in the marks is aligned in the log. -/
theorem AlignedCuts.of_marks (hcuts : AlignedCuts policy arrived (marks log)) :
    AlignedCuts policy arrived log := by
  intro before part point after hlog
  have hsplit : marks log = marks before ++ .opened part .aligned point :: marks after := by
    rw [hlog, marks_append]
    rfl
  obtain ⟨first, hcameras, hspan⟩ := hcuts _ part point _ hsplit
  refine ⟨first, fun id hid => ?_, hspan⟩
  obtain ⟨hopens, hkey, hsync, hbefore⟩ := hcameras id hid
  rw [framesIn_marks] at hopens
  rw [recorded_marks] at hbefore
  exact ⟨hopens, hkey, hsync, hbefore⟩

end Marks

namespace McapWriter

/-- The call stages no message behind a group that has nothing staged. -/
def NoStaleWrite (cfg : WriterConfig) (policy : RotationPolicy) (w : McapWriter) : Op → Prop
  | .write channel msg => ¬StagesStale cfg policy w channel msg
  | _ => True

instance decidableNoStaleWrite (cfg : WriterConfig) (policy : RotationPolicy)
    (w : McapWriter) : ∀ op, Decidable (NoStaleWrite cfg policy w op)
  | .write channel msg => inferInstanceAs (Decidable (¬StagesStale cfg policy w channel msg))
  | .flushDue | .armStart .. | .setMetadata _ | .close => .isTrue trivial

/-- A group that has its opening keyframe staged has no frame of a camera outside it. -/
theorem Whole.not_overtakes {cfg : WriterConfig} {env : Env} {policy : RotationPolicy}
    {arrived : List Arrival} {w : McapWriter} {channel : Channel} {msg : RecordedMessage}
    (hpolicy : cfg.policy = some policy) (hwhole : Whole True policy arrived w) :
    ¬Overtakes cfg env policy w channel msg := by
  intro hovertakes
  rcases hwhole with ⟨hheld, -⟩ | hsealed
  · obtain ⟨other, hother, hsame⟩ := hovertakes.passed
    obtain ⟨entry, hentry, rfl⟩ := List.mem_map.mp hother
    obtain ⟨-, hselected, hfresh⟩ := outsideGroup_iff.mp hovertakes.outside
    have hstream : stream (channel, msg) = some channel.id :=
      stream_eq_some.mpr ⟨((selectedVideo_iff hpolicy channel).mp hselected).1, rfl⟩
    obtain ⟨hvideo, hid⟩ := stream_eq_some.mp (hsame.trans hstream)
    have hgrouped := hheld.carried.grouped (Or.inl trivial) (List.ne_nil_of_mem hentry)
    have hmember := hgrouped.members entry hentry hvideo
    rw [hid] at hmember
    exact hfresh hmember
  · have hopen := hovertakes.live
    rw [hsealed.closed] at hopen
    cases hopen

/-- For every clock and every sequence of calls in which no message is staged behind a group
that has nothing staged: the part of every aligned cut starts each selected camera on a
keyframe with the cut's point, these are close in time, and the frames recorded before the cut
arrived before them. -/
theorem run_aligned_cuts (cfg : WriterConfig) (policy : RotationPolicy) (env : Env)
    (ops : List Op) (hpolicy : cfg.policy = some policy) (henv : env.Healthy)
    (haccepts : env.Accepts)
    (hops : Along (fun w op => (w.apply cfg env op).state) (NoStaleWrite cfg policy)
      (construct cfg env).state ops) :
    AlignedCuts policy (arrivals cfg env ops) (run cfg env ops).log := by
  have hpasses : ∀ arrived w op, Whole True policy arrived w →
      NoStaleWrite cfg policy w op →
      Passes cfg env True policy w op := by
    intro arrived w op hwhole hop
    cases op with
    | write channel msg => exact ⟨fun _ => hop, hwhole.not_overtakes hpolicy⟩
    | flushDue => trivial
    | armStart target wait => trivial
    | setMetadata nonempty => trivial
    | close => trivial
  refine AlignedCuts.of_marks ?_
  rcases run_whole henv haccepts hpolicy hpasses hops with ⟨hheld, -⟩ | hsealed
  · by_cases hready : (run cfg env ops).staging.startStatus = .ready
    · exact hheld.carried.aligned trivial hready
    · exact alignedCuts_of_none (hheld.carried.fresh hready).2
  · by_cases hready : (run cfg env ops).staging.startStatus = .ready
    · exact hsealed.aligned trivial hready
    · exact alignedCuts_of_none (hsealed.fresh hready)

/-- The cut of a take in which both keyframes are staged. -/
theorem run_aligned_cuts_cut :
    AlignedCuts crampedPolicy (arrivals crampedTake ticking crampedCut)
      (run crampedTake ticking crampedCut).log :=
  run_aligned_cuts crampedTake crampedPolicy ticking crampedCut rfl ticking_healthy
    (fun _ => rfl) (by decide +kernel)

/-- The camera whose keyframe did not fit in memory counts as a member of the group, and the
part of the cut has no keyframe of it. -/
theorem not_run_aligned_cuts : ¬∀ cfg policy env ops, cfg.policy = some policy → env.Healthy →
    env.Accepts → AlignedCuts policy (arrivals cfg env ops) (run cfg env ops).log := by
  intro hclaim
  let ops : List Op := crampedStart ++ [.write (camera 2) (frame true 1 100 1)]
  have hcuts := hclaim crampedTake crampedPolicy ticking ops rfl ticking_healthy (fun _ => rfl)
  let log : List Event := (run crampedTake ticking ops).log
  have hsplit : log = log.takeWhile (fun event => !event.isAligned) ++
      .opened 1 .aligned { authorityEpoch := 1, gridGeneration := 1, frameIndex := 1 } ::
        (log.dropWhile fun event => !event.isAligned).tail := by decide +kernel
  obtain ⟨first, hcameras, -⟩ := hcuts _ _ _ _ hsplit
  obtain ⟨⟨later, hopens⟩, -⟩ := hcameras 1 (by decide)
  have hnone : framesIn 1 1 (log.dropWhile fun event => !event.isAligned).tail = [] := by
    decide +kernel
  rw [hnone] at hopens
  cases hopens

end McapWriter

end VisioSchema.Mcap

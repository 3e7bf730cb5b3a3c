import Mathlib.Tactic.ByContra
import VisioSchema.Transport.OutboxTraffic

/-!
# Sync points in a bounded outbox

A bounded outbox must never evict a sync point while it could evict another frame.  The age pass
keeps every keyframe, but `ApplyDropBound` takes the oldest frame that its policy may take,
whatever it is.  `run_shedsSyncLast_iff` says when that is right: no turn finds a keyframe oldest
with another frame to take behind it.

A turn takes the first frame that it may take (`evictOne_eq_find`), so a turn is right exactly
when that frame is (`shedsSyncLast_iff`).  What a call evicts is the turns of its loop
(`evictOne_of_mem_enqueueEvictions`), and a run records the turns of its calls
(`step_evictions`); from there on the equivalence is carried through lists.
-/

namespace VisioSchema.Transport

open VisioSchema.Wire VisioSchema.Library

/-! ## What a turn may take -/

/-- `evict_one` may take any frame, but where frames are protected by their size it
takes a small one only when there is no other. -/
def evictable (policy : WritePolicy) (queue : List Entry) (entry : Entry) : Bool :=
  decide (policy.protectBelowBytes = 0) || decide (policy.protectBelowBytes ≤ entry.size) ||
    queue.all fun other => decide (other.size < policy.protectBelowBytes)

/-- A turn that evicts a keyframe leaves no other frame that it could have taken. -/
def ShedsSyncLast (policy : WritePolicy) (turn : Eviction Entry) : Prop :=
  turn.victim.keyframe = true →
    ∀ entry ∈ turn.rest, entry.keyframe = false → evictable policy turn.queue entry = false

/-- If the oldest frame that may be taken is a keyframe, all of them are. -/
def SyncPointsBehind (policy : WritePolicy) (queue : List Entry) : Prop :=
  ∀ oldest, queue.find? (evictable policy queue) = some oldest → oldest.keyframe = true →
    ∀ entry ∈ queue, evictable policy queue entry = true → entry.keyframe = true

/-! ## Bound turns -/

variable {policy : WritePolicy}

theorem evictBulk_eq_find (protect : ℕ) (queue : List Entry) :
    (evictBulk Entry.size protect queue).map Prod.fst =
      queue.find? fun entry => decide (protect ≤ entry.size) := by
  induction queue with
  | nil => rfl
  | cons entry queue ih =>
      rw [evictBulk, List.find?_cons]
      by_cases hsize : protect ≤ entry.size
      · simp [hsize]
      · simp only [hsize, if_false, decide_false, ← ih, Option.map_map]
        rfl

theorem find_evictable_of_all {queue : List Entry}
    (hall : ∀ entry ∈ queue, evictable policy queue entry = true) :
    queue.find? (evictable policy queue) = queue.head? := by
  cases queue with
  | nil => rfl
  | cons front rest => rw [List.find?_cons, hall front List.mem_cons_self]; rfl

/-- A turn takes the oldest frame that it may take. -/
theorem evictOne_eq_find (policy : WritePolicy) (queue : List Entry) :
    (evictOne Entry.size policy queue).map Prod.fst = queue.find? (evictable policy queue) := by
  have hbulk := evictBulk_eq_find policy.protectBelowBytes queue
  unfold evictOne
  by_cases hprotect : policy.protectBelowBytes = 0
  · rw [find_evictable_of_all fun entry _ => by simp [evictable, hprotect], if_neg (by omega)]
    cases queue <;> rfl
  rw [if_pos (by omega)]
  cases hevict : evictBulk Entry.size policy.protectBelowBytes queue with
  | some found =>
      -- There is a big frame, so only big frames may be taken.
      rw [hevict, Option.map_some] at hbulk
      have hfound := List.mem_of_find?_eq_some hbulk.symm
      have hsize : policy.protectBelowBytes ≤ found.1.size := by
        simpa using List.find?_some hbulk.symm
      have hbig : evictable policy queue =
          fun entry => decide (policy.protectBelowBytes ≤ entry.size) := by
        funext entry
        have hsome : queue.all (fun other => decide (other.size < policy.protectBelowBytes)) =
            false := by
          rw [List.all_eq_false]
          exact ⟨found.1, hfound, by simpa using hsize⟩
        rw [evictable, hsome, decide_eq_false hprotect, Bool.or_false, Bool.false_or]
      rw [hbig, Option.map_some, hbulk]
  | none =>
      -- All frames are small, and any of them may go.
      rw [hevict, Option.map_none] at hbulk
      have hsmall := List.find?_eq_none.mp hbulk.symm
      rw [find_evictable_of_all fun entry _ => ?_]
      · cases queue <;> rfl
      · have hall : queue.all (fun other => decide (other.size < policy.protectBelowBytes)) =
            true := by
          rw [List.all_eq_true]
          exact fun other hmem => by simpa using hsmall other hmem
        rw [evictable, hall, Bool.or_true]

/-- The turns of a loop are turns of `evict_one`. -/
theorem evictOne_of_mem_evictions {tooFull : List Entry → ℕ → Bool} {fuel bytes : ℕ}
    {queue : List Entry} {turn : Eviction Entry}
    (hturn : turn ∈ evictions Entry.size policy tooFull fuel queue bytes) :
    evictOne Entry.size policy turn.queue = some (turn.victim, turn.rest) := by
  induction fuel generalizing queue bytes with
  | zero => cases hturn
  | succ fuel ih =>
      rw [evictions] at hturn
      split at hturn
      · split at hturn
        next victim rest hevict =>
          rcases List.mem_cons.mp hturn with rfl | hlater
          · exact hevict
          · exact ih hlater
        next => cases hturn
      · cases hturn

theorem evictOne_of_mem_enqueueEvictions {o : FramedOutbox} {incoming : ℕ}
    {turn : Eviction Entry} (hturn : turn ∈ o.enqueueEvictions incoming) :
    evictOne Entry.size o.policy turn.queue = some (turn.victim, turn.rest) := by
  unfold FramedOutbox.enqueueEvictions dropBoundEvictions at hturn
  split at hturn
  · exact evictOne_of_mem_evictions hturn
  · exact evictOne_of_mem_evictions hturn
  · cases hturn

/-- What a bound turn sheds is right exactly when the oldest frame to take is. -/
theorem shedsSyncLast_iff {turn : Eviction Entry}
    (hturn : evictOne Entry.size policy turn.queue = some (turn.victim, turn.rest)) :
    ShedsSyncLast policy turn ↔ SyncPointsBehind policy turn.queue := by
  have hfind := evictOne_eq_find policy turn.queue
  rw [hturn, Option.map_some] at hfind
  have hperm := evictOne_perm hturn
  constructor
  · intro hsheds oldest holdest hkey entry hmem hevictable
    obtain rfl : turn.victim = oldest := Option.some.inj (hfind.trans holdest)
    rcases List.mem_cons.mp (hperm.mem_iff.mp hmem) with rfl | hrest
    · exact hkey
    · by_contra hplain
      have hkept := hsheds hkey entry hrest (by simpa using hplain)
      rw [hevictable] at hkept
      cases hkept
  · intro hbehind hkey entry hrest hplain
    by_contra hevictable
    have hentry := hbehind turn.victim hfind.symm hkey entry
      (hperm.mem_iff.mpr (List.mem_cons_of_mem _ hrest)) (by simpa using hevictable)
    rw [hplain] at hentry
    cases hentry

/-! ## The age pass -/

theorem not_keyframe_of_mem_staleTurns {nowUs : ℤ} {kept queue : List Entry}
    {turn : Eviction Entry} (hturn : turn ∈ FramedOutbox.staleTurns policy nowUs kept queue) :
    turn.victim.keyframe = false := by
  induction queue generalizing kept with
  | nil => cases hturn
  | cons entry queue ih =>
      rw [FramedOutbox.staleTurns] at hturn
      split at hturn
      · exact ih hturn
      next hkeep =>
        rcases List.mem_cons.mp hturn with rfl | hlater
        · by_contra hplain
          have hkey : entry.keyframe = true := by simpa using hplain
          exact hkeep (by simp [FramedOutbox.keepsAged, hkey])
        · exact ih hlater

/-- Age never costs a sync point. -/
theorem not_keyframe_of_mem_ageEvictions {o : FramedOutbox} {nowUs : ℤ} {turn : Eviction Entry}
    (hturn : turn ∈ o.ageEvictions nowUs) : turn.victim.keyframe = false := by
  unfold FramedOutbox.ageEvictions at hturn
  split at hturn
  · exact not_keyframe_of_mem_staleTurns hturn
  · cases hturn

/-! ## Runs -/

namespace Traffic

/-- The turns of the eviction loops of a call. -/
def turnsOf (t : Traffic) : Call → List (Eviction Entry)
  | .enqueue (some frame) _ _ => t.outbox.enqueueEvictions frame.length
  | .promote nowUs => if t.pc = .queue then t.outbox.ageEvictions nowUs else []
  | _ => []

/-- No turn of an `Enqueue` finds a keyframe oldest and another frame behind it. -/
def TurnsMeetSyncPointsBehind (t : Traffic) : Call → Prop
  | .enqueue (some frame) _ _ =>
      ∀ turn ∈ t.outbox.enqueueEvictions frame.length,
        SyncPointsBehind t.outbox.policy turn.queue
  | _ => True

variable {t : Traffic}

@[simp] theorem settle_evictions : t.settle.evictions = t.evictions := by
  unfold settle
  split <;> rfl

theorem settle_policy : t.settle.outbox.policy = t.outbox.policy := by
  unfold settle
  split <;> rfl

theorem wrote_evictions (accept : ℕ) :
    (t.wrote accept).evictions = t.evictions ∧
      (t.wrote accept).outbox.policy = t.outbox.policy := by
  rw [wrote, settle_evictions, settle_policy]
  exact ⟨rfl, rfl⟩

theorem enqueueStep_evictions (frame : List Byte) (keyframe : Bool) (nowUs : ℤ) :
    (t.enqueueStep frame keyframe nowUs).evictions =
      t.evictions ++ t.outbox.enqueueEvictions frame.length := by
  rw [enqueueStep, FramedOutbox.enqueue]
  cases hbound : applyDropBound Entry.size t.outbox.policy t.outbox.queue t.outbox.queueBytes
    frame.length with
  | some pair => rfl
  | none =>
      have hnone : t.outbox.enqueueEvictions frame.length = [] := by
        unfold applyDropBound at hbound
        rw [FramedOutbox.enqueueEvictions, dropBoundEvictions]
        cases hdrop : t.outbox.policy.drop with
        | dropOldest => simp [hdrop] at hbound
        | staleEviction => simp [hdrop] at hbound
        | dropOnFail => rfl
      rw [hnone, List.append_nil]

/-- A step records its turns, and keeps the policy. -/
theorem step_evictions (t : Traffic) (call : Call) :
    (t.step call).evictions = t.evictions ++ t.turnsOf call ∧
      (t.step call).outbox.policy = t.outbox.policy := by
  cases call with
  | enqueue frame keyframe nowUs =>
      cases frame with
      | none => exact ⟨(List.append_nil _).symm, rfl⟩
      | some frame =>
          refine ⟨enqueueStep_evictions frame keyframe nowUs, ?_⟩
          have hpolicy := t.outbox.enqueue_policy frame keyframe nowUs
          rw [step, enqueueStep]
          cases hresult : t.outbox.enqueue frame keyframe nowUs with
          | mk o ok =>
              rw [hresult] at hpolicy
              cases ok <;> exact hpolicy
  | tryEnqueue frame limit nowUs =>
      have hpolicy := t.outbox.tryEnqueue_policy frame limit nowUs
      rw [step, tryEnqueueStep]
      cases hresult : t.outbox.tryEnqueue frame limit nowUs with
      | mk o ok =>
          rw [hresult] at hpolicy
          cases ok <;> exact ⟨(List.append_nil _).symm, hpolicy⟩
  | discardQueued => exact ⟨(List.append_nil _).symm, rfl⟩
  | clear =>
      rw [step]
      split <;> exact ⟨(List.append_nil _).symm, rfl⟩
  | drain oneFrame accept =>
      -- A write evicts nothing.
      have hself : t.evictions = t.evictions ++ t.turnsOf (.drain oneFrame accept) :=
        (List.append_nil _).symm
      rw [← hself, step]
      split
      · unfold drainStep
        split
        · cases accept with
          | none => exact ⟨rfl, rfl⟩
          | some count =>
              dsimp only
              split <;> exact wrote_evictions count
        · exact ⟨rfl, rfl⟩
      · exact ⟨rfl, rfl⟩
  | promote nowUs =>
      rw [step, turnsOf]
      split
      · rw [promoteStep]
        dsimp only
        split
        · -- The turns of the age pass are recorded whether there is a frame to promote or not.
          exact ⟨rfl, t.outbox.ageEvict_policy nowUs⟩
        · rw [settle_evictions, settle_policy]
          refine ⟨rfl, ?_⟩
          exact (FramedOutbox.promoteToInFlight_policy _).trans (t.outbox.ageEvict_policy nowUs)
      · exact ⟨(List.append_nil _).symm, rfl⟩
  | trail accept =>
      have hself : t.evictions = t.evictions ++ t.turnsOf (.trail accept) :=
        (List.append_nil _).symm
      rw [← hself, step]
      split
      · unfold trailStep
        cases accept with
        | none => exact ⟨rfl, rfl⟩
        | some count =>
            dsimp only
            split
            · exact wrote_evictions count
            · exact ⟨rfl, rfl⟩
      · exact ⟨rfl, rfl⟩

/-- One call sheds sync points last exactly when its turns meet none oldest. -/
theorem shedsSyncLast_turnsOf (t : Traffic) (call : Call) :
    (∀ turn ∈ t.turnsOf call, ShedsSyncLast t.outbox.policy turn) ↔
      t.TurnsMeetSyncPointsBehind call := by
  cases call with
  | enqueue frame keyframe nowUs =>
      cases frame with
      | none => simp [turnsOf, TurnsMeetSyncPointsBehind]
      | some frame =>
          exact forall₂_congr fun turn hturn =>
            shedsSyncLast_iff (evictOne_of_mem_enqueueEvictions hturn)
  | promote nowUs =>
      refine iff_of_true (fun turn hturn hkey => ?_) trivial
      rw [turnsOf] at hturn
      split at hturn
      · rw [not_keyframe_of_mem_ageEvictions hturn] at hkey
        cases hkey
      · cases hturn
  | tryEnqueue frame limit nowUs => simp [turnsOf, TurnsMeetSyncPointsBehind]
  | discardQueued => simp [turnsOf, TurnsMeetSyncPointsBehind]
  | clear => simp [turnsOf, TurnsMeetSyncPointsBehind]
  | drain oneFrame accept => simp [turnsOf, TurnsMeetSyncPointsBehind]
  | trail accept => simp [turnsOf, TurnsMeetSyncPointsBehind]

theorem foldl_shedsSyncLast_iff (calls : List Call) (t : Traffic) :
    (∀ turn ∈ (calls.foldl step t).evictions, ShedsSyncLast t.outbox.policy turn) ↔
      (∀ turn ∈ t.evictions, ShedsSyncLast t.outbox.policy turn) ∧
        Along step TurnsMeetSyncPointsBehind t calls := by
  induction calls generalizing t with
  | nil => simp
  | cons call calls ih =>
      obtain ⟨hturns, hpolicy⟩ := t.step_evictions call
      have hrest := ih (t.step call)
      rw [hpolicy] at hrest
      rw [List.foldl_cons, hrest, hturns, along_cons, ← shedsSyncLast_turnsOf]
      simp only [List.mem_append, or_imp, forall_and, and_assoc]

/-- A run sheds sync points last exactly when no turn of an `Enqueue` finds a
keyframe oldest and another frame to take behind it. -/
theorem run_shedsSyncLast_iff (policy : WritePolicy) (calls : List Call) :
    (∀ turn ∈ (run policy calls).evictions, ShedsSyncLast policy turn) ↔
      Along step TurnsMeetSyncPointsBehind (init policy) calls := by
  have hrun := foldl_shedsSyncLast_iff calls (init policy)
  refine hrun.trans (and_iff_right fun turn hturn => ?_)
  cases hturn

/-- Three frames through a queue of two: the keyframe goes, its followers stay. -/
theorem not_run_shedsSyncLast :
    ¬∀ policy calls, ∀ turn ∈ (run policy calls).evictions, ShedsSyncLast policy turn := by
  intro hall
  have hkept := hall (.dropOldest 2)
    [.enqueue (some [1]) true 0, .enqueue (some [2]) false 0, .enqueue (some [3]) false 0]
    ⟨[⟨[1], 0, true⟩, ⟨[2], 0, false⟩], ⟨[1], 0, true⟩, [⟨[2], 0, false⟩]⟩
    (by decide +kernel) rfl ⟨[2], 0, false⟩ (List.mem_singleton.mpr rfl) rfl
  exact absurd hkept (by decide +kernel)

end Traffic

end VisioSchema.Transport

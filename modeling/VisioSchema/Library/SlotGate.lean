import Mathlib.Algebra.Ring.Int.Defs
import Mathlib.Data.List.Basic

/-!
# One request per slot

Time is cut into slots of length `gap`.  A gate accepts a request whose slot lies
behind the slot of the last accepted one, and starts anew when a request lies more
than `reset` before that slot (`Gated`).  While no request does, the accepted slots
strictly increase (`Gated.increasing`).
-/

namespace VisioSchema.Library.SlotGate

/-- A request and the gate's answer. -/
structure Call where
  time : ℤ
  passed : Bool
  deriving DecidableEq, Repr

variable (gap reset : ℤ)

def slot (time : ℤ) : ℤ := time / gap

/-- The slot of the last accepted request, after one more. -/
def next (last : Option ℤ) (call : Call) : Option ℤ :=
  if call.passed then some (slot gap call.time) else last

def lastSlot (last : Option ℤ) (log : List Call) : Option ℤ := log.foldl (next gap) last

/-- The request lies at most `reset` before the slot of the last accepted one. -/
def Near (last : Option ℤ) (time : ℤ) : Prop := ∀ k ∈ last, k * gap - time ≤ reset

/-- Every request was answered by the rule, from the last accepted slot on. -/
def Gated : Option ℤ → List Call → Prop
  | _, [] => True
  | last, call :: rest =>
      (call.passed = true ↔
          (∀ k ∈ last, k < slot gap call.time) ∨ ¬Near gap reset last call.time) ∧
        Gated (next gap last call) rest

def AllNear : Option ℤ → List Call → Prop
  | _, [] => True
  | last, call :: rest => Near gap reset last call.time ∧ AllNear (next gap last call) rest

/-- The slots of the accepted requests. -/
def acceptedSlots (log : List Call) : List ℤ :=
  (log.filter Call.passed).map fun call => slot gap call.time

variable {gap reset} {last : Option ℤ} {call : Call} {log front back : List Call}

theorem gated_append :
    Gated gap reset last (front ++ back) ↔
      Gated gap reset last front ∧ Gated gap reset (lastSlot gap last front) back := by
  induction front generalizing last with
  | nil => simp [Gated, lastSlot]
  | cons call front ih =>
      rw [List.cons_append, Gated, Gated, ih, and_assoc]
      rfl

theorem acceptedSlots_cons_passed (hpassed : call.passed = true) :
    acceptedSlots gap (call :: log) = slot gap call.time :: acceptedSlots gap log := by
  rw [acceptedSlots, List.filter_cons_of_pos hpassed]
  rfl

theorem acceptedSlots_cons_refused (hrefused : call.passed = false) :
    acceptedSlots gap (call :: log) = acceptedSlots gap log := by
  rw [acceptedSlots, List.filter_cons_of_neg (by simp [hrefused])]
  rfl

/-- While no request lies far behind, the accepted slots strictly increase. -/
theorem Gated.increasing (hgated : Gated gap reset last log) (hnear : AllNear gap reset last log) :
    (last.toList ++ acceptedSlots gap log).Pairwise (· < ·) := by
  induction log generalizing last with
  | nil => cases last <;> simp [acceptedSlots]
  | cons call log ih =>
      obtain ⟨hrule, hrest⟩ := hgated
      have hlater := ih hrest hnear.2
      cases hpassed : call.passed with
      | false =>
          rw [next, hpassed] at hlater
          rwa [acceptedSlots_cons_refused hpassed]
      | true =>
          rw [next, if_pos hpassed, Option.toList_some, List.singleton_append] at hlater
          rw [acceptedSlots_cons_passed hpassed]
          have habove : ∀ k ∈ last, k < slot gap call.time :=
            (hrule.mp hpassed).resolve_right fun hfar => hfar hnear.1
          cases last with
          | none => exact hlater
          | some k =>
              refine List.pairwise_cons.mpr ⟨fun later hlater' => ?_, hlater⟩
              have hk := habove k rfl
              rcases List.mem_cons.mp hlater' with rfl | hmem
              · exact hk
              · exact Int.lt_trans hk ((List.pairwise_cons.mp hlater).1 later hmem)

/-- The last accepted slot is one of the accepted slots. -/
theorem mem_of_lastSlot {k : ℤ} (hk : k ∈ lastSlot gap last log) :
    k ∈ last ∨ k ∈ acceptedSlots gap log := by
  induction log generalizing last with
  | nil => exact Or.inl hk
  | cons call log ih =>
      rcases ih hk with hfirst | hlater
      · rw [next] at hfirst
        split at hfirst
        next hpassed =>
          rw [acceptedSlots_cons_passed hpassed, Option.mem_some_iff.mp hfirst]
          exact Or.inr List.mem_cons_self
        next => exact Or.inl hfirst
      · refine Or.inr ?_
        cases hpassed : call.passed with
        | false => rwa [acceptedSlots_cons_refused hpassed]
        | true =>
            rw [acceptedSlots_cons_passed hpassed]
            exact List.mem_cons_of_mem _ hlater

/-- A request in a later slot than every accepted one is accepted. -/
theorem Gated.passes_later (hgated : Gated gap reset none (front ++ call :: back))
    (hlater : ∀ k ∈ acceptedSlots gap front, k < slot gap call.time) : call.passed = true := by
  obtain ⟨-, hrule, -⟩ := gated_append.mp hgated
  refine hrule.mpr (Or.inl fun k hk => hlater k ?_)
  exact (mem_of_lastSlot hk).resolve_left (by simp)

/-- The answers depend on the times alone. -/
theorem Gated.unique {log' : List Call} (hone : Gated gap reset last log)
    (htwo : Gated gap reset last log') (htimes : log.map Call.time = log'.map Call.time) :
    log = log' := by
  induction log generalizing last log' with
  | nil => exact (List.map_eq_nil_iff.mp htimes.symm).symm
  | cons call log ih =>
      cases log' with
      | nil => simp at htimes
      | cons call' log' =>
          obtain ⟨htime, hrest⟩ := List.cons.inj htimes
          have hpassed : call.passed = call'.passed := by
            rw [Bool.eq_iff_iff, hone.1, htwo.1, htime]
          have hcall : call = call' := by
            cases call
            cases call'
            simp_all
          subst hcall
          rw [ih hone.2 htwo.2 hrest]

/-- A request far behind is accepted, and from its slot on they increase again. -/
theorem Gated.reseeds (hgated : Gated gap reset none (front ++ call :: back))
    (hfar : ¬Near gap reset (lastSlot gap none front) call.time) :
    call.passed = true ∧
      (AllNear gap reset (some (slot gap call.time)) back →
        (acceptedSlots gap (call :: back)).Pairwise (· < ·)) := by
  obtain ⟨-, hrule, hback⟩ := gated_append.mp hgated
  have hpassed := hrule.mpr (Or.inr hfar)
  rw [next, if_pos hpassed] at hback
  refine ⟨hpassed, fun hnear => ?_⟩
  rw [acceptedSlots_cons_passed hpassed]
  exact hback.increasing hnear

/-- At most one accepted request per slot, in increasing slots, from every far request
on anew; and no request in a later slot is lost. -/
structure OnePerSlot (gap reset : ℤ) (log : List Call) : Prop where
  increasing : AllNear gap reset none log → (acceptedSlots gap log).Pairwise (· < ·)
  passes_later : ∀ front call back, log = front ++ call :: back →
    (∀ k ∈ acceptedSlots gap front, k < slot gap call.time) → call.passed = true
  reseeds : ∀ front call back, log = front ++ call :: back →
    ¬Near gap reset (lastSlot gap none front) call.time →
      call.passed = true ∧ (AllNear gap reset (some (slot gap call.time)) back →
        (acceptedSlots gap (call :: back)).Pairwise (· < ·))

theorem Gated.onePerSlot (hgated : Gated gap reset none log) : OnePerSlot gap reset log where
  increasing hnear := hgated.increasing hnear
  passes_later front call back hlog hlater := by
    subst hlog
    exact hgated.passes_later hlater
  reseeds front call back hlog hfar := by
    subst hlog
    exact hgated.reseeds hfar

end VisioSchema.Library.SlotGate

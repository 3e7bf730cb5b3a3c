import Mathlib.Data.Int.Order.Basic
import VisioSchema.Library.Runs
import VisioSchema.Library.Timeline

/-!
# Orientation at an instant

`QuatHistory`: the quaternions of one stream, by their stamps.  `Add` puts a late sample at its
place and drops what is too old, so that the history does not depend on the order of arrival;
`At` blends the two samples around an instant, holds an end sample, or has no answer.

The arithmetic of quaternions is that of doubles, and a parameter.

## Strategy

* **The order of arrival.**  `Holds` says which samples a history has, in terms of the arrivals
  alone: those that are not older than the newest by more than the limit, in order of time.  Each
  `Add` keeps it (`holds_add`), as long as the arrivals are `Admissible`, and it determines the
  history (`Holds.unique`).
* **The answers.**  `Around` lists the places where a query can lie: before the first sample,
  behind the last, at a sample, or between two.  In each of them the answer is given up to the
  distance of the nearest sample (`answersNearest_of_nearest`), except at a sample in the
  interior, where the limit is not looked at (`InteriorHit`).
-/

namespace VisioSchema.Reader

open VisioSchema.Library

/-! ## The history -/

/-- What `Add` makes of a quaternion (`none` if it is not a rotation), and `SlerpXyzw` at a
fraction of the way, given by numerator and denominator. -/
structure QuatOps (Q : Type*) where
  unit : Q → Option Q
  slerp : Q → Q → ℤ → ℤ → Q

inductive SampleMethod
  | interpolated
  | held
  deriving DecidableEq, Repr

structure QuatSample (Q : Type*) where
  q : Q
  gapNs : ℤ
  method : SampleMethod
  deriving DecidableEq, Repr

/-- A stored sample; stamps are such that no difference of two of them leaves an `int64_t`. -/
structure QuatEntry (Q : Type*) where
  t : ℤ
  q : Q
  deriving DecidableEq, Repr

structure QuatHistory (Q : Type*) where
  maxAgeNs : ℤ := 3000000000
  rewindResetNs : ℤ := 1000000000
  s : List (QuatEntry Q) := []
  deriving DecidableEq, Repr

namespace QuatHistory

variable {Q : Type*}

/-- The samples that a stamp is added to; a large rewind is a new epoch. -/
def epoch (h : QuatHistory Q) (t : ℤ) : List (QuatEntry Q) :=
  match h.s.getLast? with
  | some newest => if t < newest.t - h.rewindResetNs then [] else h.s
  | none => h.s

/-- The samples that are not too old. -/
def prune (maxAgeNs : ℤ) (s : List (QuatEntry Q)) : List (QuatEntry Q) :=
  match s.getLast? with
  | some newest => dropBefore QuatEntry.t (newest.t - maxAgeNs) s
  | none => s

/-- `Add`, where `t` and the stored stamps differ by less than `2^63`, as do the stamps and the
two limits. -/
def add (ops : QuatOps Q) (h : QuatHistory Q) (t : ℤ) (q : Q) : Bool × QuatHistory Q :=
  match ops.unit q with
  | none => (false, h)
  | some u =>
      (true, { h with s := prune h.maxAgeNs (insertAt QuatEntry.t ⟨t, u⟩ (h.epoch t)) })

/-- `Held`. -/
def held (e : QuatEntry Q) (gap maxGapNs : ℤ) : Option (QuatSample Q) :=
  if maxGapNs < gap then none
  else some ⟨e.q, gap, if gap = 0 then .interpolated else .held⟩

/-- The sample between two adjacent ones. -/
def between (ops : QuatOps Q) (lo hi : QuatEntry Q) (t maxGapNs : ℤ) : Option (QuatSample Q) :=
  let gap := min (t - lo.t) (hi.t - t)
  if maxGapNs < gap then none
  else some ⟨ops.slerp lo.q hi.q (t - lo.t) (hi.t - lo.t), gap, .interpolated⟩

/-- `At`, where `t` and the stored stamps differ by less than `2^63`. -/
def atTime (ops : QuatOps Q) (h : QuatHistory Q) (t maxGapNs : ℤ) : Option (QuatSample Q) :=
  match h.s.head?, h.s.getLast? with
  | some front, some back =>
      if t ≤ front.t then held front (front.t - t) maxGapNs
      else if back.t ≤ t then held back (t - back.t) maxGapNs
      else
        match (dropBefore QuatEntry.t t h.s).head?,
          (h.s.takeWhile fun e => decide (e.t < t)).getLast? with
        | some hi, some lo =>
            if hi.t = t then some ⟨hi.q, 0, .interpolated⟩ else between ops lo hi t maxGapNs
        | _, _ => none
  | _, _ => none

/-- The history after samples, in their order of arrival. -/
def run (ops : QuatOps Q) (maxAgeNs rewindResetNs : ℤ) (arrivals : List (ℤ × Q)) :
    QuatHistory Q :=
  arrivals.foldl (fun h a => (h.add ops a.1 a.2).2)
    { maxAgeNs := maxAgeNs, rewindResetNs := rewindResetNs }

/-! ## What a history holds -/

/-- The sample that `Add` stores of an arrival. -/
def entryOf (ops : QuatOps Q) (a : ℤ × Q) : Option (QuatEntry Q) :=
  (ops.unit a.2).map fun u => ⟨a.1, u⟩

/-- The history holds, in order of time, the samples of its arrivals that are not older than
the newest by more than `max_age_ns`. -/
structure Holds (ops : QuatOps Q) (arrivals : List (ℤ × Q)) (h : QuatHistory Q) : Prop where
  inOrder : InOrder QuatEntry.t h.s
  mem_iff : ∀ e, e ∈ h.s ↔
    e ∈ arrivals.filterMap (entryOf ops) ∧ ∀ a ∈ arrivals, a.1 - h.maxAgeNs ≤ e.t

/-- The arrivals that the two statements about order ask for: rotations only, with distinct
stamps, none more than `rewind_reset_ns` behind an earlier one. -/
structure Admissible (ops : QuatOps Q) (rewindResetNs : ℤ) (arrivals : List (ℤ × Q)) : Prop where
  valid : ∀ a ∈ arrivals, (ops.unit a.2).isSome
  distinct : (arrivals.map Prod.fst).Nodup
  noRewind : arrivals.Pairwise fun earlier later => earlier.1 - rewindResetNs ≤ later.1

variable {ops : QuatOps Q} {h : QuatHistory Q}

theorem mem_entries {arrivals : List (ℤ × Q)} {e : QuatEntry Q} :
    e ∈ arrivals.filterMap (entryOf ops) ↔ ∃ a ∈ arrivals, e.t = a.1 ∧ ops.unit a.2 = some e.q := by
  simp only [List.mem_filterMap, entryOf, Option.map_eq_some_iff]
  constructor
  · rintro ⟨a, ha, u, hu, rfl⟩
    exact ⟨a, ha, rfl, hu⟩
  · rintro ⟨a, ha, ht, hu⟩
    exact ⟨a, ha, e.q, hu, by rw [← ht]⟩

theorem mem_prune {s : List (QuatEntry Q)} (hs : InOrder QuatEntry.t s) {maxAgeNs : ℤ}
    {e : QuatEntry Q} : e ∈ prune maxAgeNs s ↔ e ∈ s ∧ ∀ other ∈ s, other.t - maxAgeNs ≤ e.t := by
  unfold prune
  cases hlast : s.getLast? with
  | none => simp [List.getLast?_eq_none_iff.mp hlast]
  | some newest =>
      dsimp only
      rw [hs.mem_dropBefore]
      refine and_congr_right fun _ => ⟨fun hle other hother => ?_, fun hall => ?_⟩
      · have hnewest := hs.le_getLast hlast hother
        omega
      · exact hall newest (List.mem_of_getLast? hlast)

theorem inOrder_prune {s : List (QuatEntry Q)} (hs : InOrder QuatEntry.t s) (maxAgeNs : ℤ) :
    InOrder QuatEntry.t (prune maxAgeNs s) := by
  unfold prune
  split
  · exact hs.dropBefore _
  · exact hs

@[simp] theorem add_maxAgeNs (t : ℤ) (q : Q) : (h.add ops t q).2.maxAgeNs = h.maxAgeNs := by
  unfold add
  split <;> rfl

@[simp] theorem add_rewindResetNs (t : ℤ) (q : Q) :
    (h.add ops t q).2.rewindResetNs = h.rewindResetNs := by
  unfold add
  split <;> rfl

theorem inOrder_epoch (hs : InOrder QuatEntry.t h.s) (t : ℤ) :
    InOrder QuatEntry.t (h.epoch t) := by
  unfold epoch
  split
  · split
    · exact List.Pairwise.nil
    · exact hs
  · exact hs

/-- A sample that is not a rewind keeps the epoch. -/
theorem epoch_eq {t : ℤ} (hlate : ∀ e ∈ h.s, e.t - h.rewindResetNs ≤ t) : h.epoch t = h.s := by
  unfold epoch
  cases hlast : h.s.getLast? with
  | none => rfl
  | some newest =>
      have hnewest := hlate newest (List.mem_of_getLast? hlast)
      exact if_neg (by omega)

theorem inOrder_add (hs : InOrder QuatEntry.t h.s) (t : ℤ) (q : Q) :
    InOrder QuatEntry.t (h.add ops t q).2.s := by
  unfold add
  split
  · exact hs
  · exact inOrder_prune ((inOrder_epoch hs t).insertAt _) _

/-- What a sample of a new stamp, no rewind, makes of a history. -/
theorem mem_add (hs : InOrder QuatEntry.t h.s) {t : ℤ} {q u : Q} (hvalid : ops.unit q = some u)
    (hnew : ∀ e ∈ h.s, e.t ≠ t) (hlate : ∀ e ∈ h.s, e.t - h.rewindResetNs ≤ t)
    {e : QuatEntry Q} : e ∈ (h.add ops t q).2.s ↔
      (e = ⟨t, u⟩ ∨ e ∈ h.s) ∧ t - h.maxAgeNs ≤ e.t ∧
        ∀ other ∈ h.s, other.t - h.maxAgeNs ≤ e.t := by
  have hinsert : ∀ {a}, a ∈ insertAt QuatEntry.t ⟨t, u⟩ (h.epoch t) ↔ a = ⟨t, u⟩ ∨ a ∈ h.s := by
    intro a
    rw [epoch_eq hlate, hs.mem_insertAt]
    exact or_congr_right (and_iff_left_of_imp (hnew a))
  simp only [add, hvalid]
  rw [mem_prune ((inOrder_epoch hs t).insertAt _), hinsert]
  refine and_congr_right fun _ =>
    ⟨fun hall => ⟨?_, fun other hother => ?_⟩, fun hall other hother => ?_⟩
  · exact hall ⟨t, u⟩ (hinsert.mpr (Or.inl rfl))
  · exact hall other (hinsert.mpr (Or.inr hother))
  · rcases hinsert.mp hother with rfl | hold
    · exact hall.1
    · exact hall.2 other hold

/-- With an age limit that is one, no arrival is newer than the newest sample held. -/
def NewestHeld (arrivals : List (ℤ × Q)) (h : QuatHistory Q) : Prop :=
  0 ≤ h.maxAgeNs → ∀ a ∈ arrivals, ∃ e ∈ h.s, a.1 ≤ e.t

theorem Holds.stamps {arrivals : List (ℤ × Q)} (hholds : Holds ops arrivals h) :
    ∀ e ∈ h.s, ∃ a ∈ arrivals, e.t = a.1 := by
  intro e he
  obtain ⟨a, ha, ht, -⟩ := mem_entries.mp ((hholds.mem_iff e).mp he).1
  exact ⟨a, ha, ht⟩

theorem newestHeld_add {arrivals : List (ℤ × Q)} (hs : InOrder QuatEntry.t h.s)
    (hnewest : NewestHeld arrivals h) {t : ℤ} {q u : Q} (hvalid : ops.unit q = some u)
    (hnew : ∀ e ∈ h.s, e.t ≠ t) (hlate : ∀ e ∈ h.s, e.t - h.rewindResetNs ≤ t) :
    NewestHeld (arrivals ++ [(t, q)]) (h.add ops t q).2 := by
  intro hage
  rw [add_maxAgeNs] at hage
  -- the newest of all stays, since the age limit is measured from it
  have hbest : ∃ e ∈ (h.add ops t q).2.s, t ≤ e.t ∧ ∀ other ∈ h.s, other.t ≤ e.t := by
    by_cases hbehind : ∃ e ∈ h.s, t ≤ e.t
    · obtain ⟨e, he, hle⟩ := hbehind
      obtain ⟨last, hlast⟩ : ∃ last, h.s.getLast? = some last :=
        Option.isSome_iff_exists.mp (by
          rw [List.getLast?_isSome]
          exact List.ne_nil_of_mem he)
      have hmem := List.mem_of_getLast? hlast
      have hle' := hs.le_getLast hlast he
      refine ⟨last, (mem_add hs hvalid hnew hlate).mpr ⟨Or.inr hmem, by omega, fun other ho => ?_⟩,
        by omega, fun other ho => hs.le_getLast hlast ho⟩
      have := hs.le_getLast hlast ho
      omega
    · have hahead : ∀ e ∈ h.s, e.t ≤ t := by
        intro e he
        by_contra hlt
        exact hbehind ⟨e, he, by omega⟩
      refine ⟨⟨t, u⟩, (mem_add hs hvalid hnew hlate).mpr ⟨Or.inl rfl, ?_, fun other ho => ?_⟩,
        le_refl t, hahead⟩
      · show t - h.maxAgeNs ≤ t
        omega
      · have := hahead other ho
        show other.t - h.maxAgeNs ≤ t
        omega
  obtain ⟨e, he, hle, hall⟩ := hbest
  intro a ha
  rcases List.mem_append.mp ha with hold | hend
  · obtain ⟨other, hother, hother'⟩ := hnewest hage a hold
    exact ⟨e, he, hother'.trans (hall other hother)⟩
  · rw [List.mem_singleton.mp hend]
    exact ⟨e, he, hle⟩

theorem holds_add {arrivals : List (ℤ × Q)} (hholds : Holds ops arrivals h)
    (hnewest : NewestHeld arrivals h) {t : ℤ} {q u : Q} (hvalid : ops.unit q = some u)
    (hnew : ∀ a ∈ arrivals, a.1 ≠ t) (hlate : ∀ a ∈ arrivals, a.1 - h.rewindResetNs ≤ t) :
    Holds ops (arrivals ++ [(t, q)]) (h.add ops t q).2 ∧
      NewestHeld (arrivals ++ [(t, q)]) (h.add ops t q).2 := by
  have hnewS : ∀ e ∈ h.s, e.t ≠ t := by
    intro e he
    obtain ⟨a, ha, ht⟩ := hholds.stamps e he
    exact ht ▸ hnew a ha
  have hlateS : ∀ e ∈ h.s, e.t - h.rewindResetNs ≤ t := by
    intro e he
    obtain ⟨a, ha, ht⟩ := hholds.stamps e he
    exact ht ▸ hlate a ha
  refine ⟨⟨inOrder_add hholds.inOrder t q, fun e => ?_⟩,
    newestHeld_add hholds.inOrder hnewest hvalid hnewS hlateS⟩
  rw [mem_add hholds.inOrder hvalid hnewS hlateS, List.filterMap_append, List.mem_append,
    hholds.mem_iff, add_maxAgeNs]
  have hown : e ∈ [(t, q)].filterMap (entryOf ops) ↔ e = ⟨t, u⟩ := by
    simp [entryOf, hvalid, eq_comm]
  rw [hown]
  simp only [List.mem_append, List.mem_singleton]
  constructor
  · rintro ⟨hwhich, hfirst, hrest⟩
    refine ⟨hwhich.symm.imp And.left id, ?_⟩
    rintro a (ha | rfl)
    · rcases hwhich with rfl | ⟨-, hall⟩
      · by_cases hage : 0 ≤ h.maxAgeNs
        · obtain ⟨other, hother, hle⟩ := hnewest hage a ha
          have := hrest other hother
          omega
        · change t - h.maxAgeNs ≤ t at hfirst
          omega
      · exact hall a ha
    · exact hfirst
  · rintro ⟨hwhich, hall⟩
    refine ⟨?_, hall (t, q) (Or.inr rfl), fun other hother => ?_⟩
    · exact hwhich.symm.imp id fun hmem => ⟨hmem, fun a ha => hall a (Or.inl ha)⟩
    · obtain ⟨a, ha, ht⟩ := hholds.stamps other hother
      rw [ht]
      exact hall a (Or.inl ha)

theorem run_concat (ops : QuatOps Q) (maxAgeNs rewindResetNs : ℤ) (arrivals : List (ℤ × Q))
    (a : ℤ × Q) : run ops maxAgeNs rewindResetNs (arrivals ++ [a]) =
      ((run ops maxAgeNs rewindResetNs arrivals).add ops a.1 a.2).2 := by
  simp [run]

section Run

variable {maxAgeNs rewindResetNs : ℤ}

@[simp] theorem run_maxAgeNs (arrivals : List (ℤ × Q)) :
    (run ops maxAgeNs rewindResetNs arrivals).maxAgeNs = maxAgeNs := by
  induction arrivals using List.reverseRecOn with
  | nil => rfl
  | append_singleton front a ih => rw [run_concat, add_maxAgeNs, ih]

@[simp] theorem run_rewindResetNs (arrivals : List (ℤ × Q)) :
    (run ops maxAgeNs rewindResetNs arrivals).rewindResetNs = rewindResetNs := by
  induction arrivals using List.reverseRecOn with
  | nil => rfl
  | append_singleton front a ih => rw [run_concat, add_rewindResetNs, ih]

theorem Admissible.front {front : List (ℤ × Q)} {a : ℤ × Q}
    (hadm : Admissible ops rewindResetNs (front ++ [a])) :
    Admissible ops rewindResetNs front ∧ (ops.unit a.2).isSome ∧ (∀ b ∈ front, b.1 ≠ a.1) ∧
      ∀ b ∈ front, b.1 - rewindResetNs ≤ a.1 := by
  obtain ⟨hvalid, hdistinct, hrewind⟩ := hadm
  rw [List.map_append, List.nodup_append] at hdistinct
  rw [List.pairwise_append] at hrewind
  refine ⟨⟨fun b hb => hvalid b (List.mem_append_left _ hb), hdistinct.1, hrewind.1⟩,
    hvalid a (by simp), fun b hb => ?_, fun b hb => hrewind.2.2 b hb a (List.mem_singleton_self _)⟩
  exact hdistinct.2.2 b.1 (List.mem_map_of_mem hb) a.1 (by simp)

theorem run_holds {arrivals : List (ℤ × Q)} (hadm : Admissible ops rewindResetNs arrivals) :
    Holds ops arrivals (run ops maxAgeNs rewindResetNs arrivals) ∧
      NewestHeld arrivals (run ops maxAgeNs rewindResetNs arrivals) := by
  induction arrivals using List.reverseRecOn with
  | nil => exact ⟨⟨List.Pairwise.nil, by simp [run]⟩, by simp [NewestHeld]⟩
  | append_singleton front a ih =>
      obtain ⟨hfront, hvalid, hnew, hlate⟩ := hadm.front
      obtain ⟨u, hu⟩ := Option.isSome_iff_exists.mp hvalid
      obtain ⟨hholds, hnewest⟩ := ih hfront
      rw [run_concat]
      exact holds_add hholds hnewest hu hnew (by simpa using hlate)

/-- Two orders of arrival leave the same history. -/
theorem Holds.unique {arrivals other : List (ℤ × Q)} {h' : QuatHistory Q}
    (hholds : Holds ops arrivals h) (hother : Holds ops other h') (hperm : other.Perm arrivals)
    (hage : h'.maxAgeNs = h.maxAgeNs) : h'.s = h.s := by
  refine hother.inOrder.ext hholds.inOrder fun e => ?_
  rw [hother.mem_iff, hholds.mem_iff, (hperm.filterMap (entryOf ops)).mem_iff, hage]
  refine and_congr_right fun _ => ?_
  exact forall_congr' fun a => imp_congr_left hperm.mem_iff

end Run

/-! ## What a history answers -/

/-- The distance of two stamps. -/
def distance (t u : ℤ) : ℤ := max (t - u) (u - t)

/-- The query is the stamp of a stored sample that is neither the oldest nor the newest. -/
def InteriorHit (h : QuatHistory Q) (t : ℤ) : Prop :=
  (∃ e ∈ h.s, e.t = t) ∧ (∃ e ∈ h.s, e.t < t) ∧ ∃ e ∈ h.s, t < e.t

/-- There is an answer exactly if a stored sample lies within `max_gap_ns`, and the answer is
that of the sample nearest, of the end sample, or of the two samples adjacent. -/
structure AnswersNearest (ops : QuatOps Q) (h : QuatHistory Q) (t maxGapNs : ℤ) : Prop where
  answers_iff : (∃ a, h.atTime ops t maxGapNs = some a) ↔
    ∃ e ∈ h.s, distance t e.t ≤ maxGapNs
  gap_nearest : ∀ a, h.atTime ops t maxGapNs = some a →
    (∃ e ∈ h.s, a.gapNs = distance t e.t) ∧ ∀ e ∈ h.s, a.gapNs ≤ distance t e.t
  held_before : ∀ a, h.atTime ops t maxGapNs = some a → ∀ e ∈ h.s, t < e.t →
    (∀ other ∈ h.s, e.t ≤ other.t) → a.q = e.q ∧ a.method = .held
  held_after : ∀ a, h.atTime ops t maxGapNs = some a → ∀ e ∈ h.s, e.t < t →
    (∀ other ∈ h.s, other.t ≤ e.t) → a.q = e.q ∧ a.method = .held
  exact_hit : ∀ a, h.atTime ops t maxGapNs = some a → ∀ e ∈ h.s, e.t = t →
    a.q = e.q ∧ a.method = .interpolated
  blend : ∀ a, h.atTime ops t maxGapNs = some a → ∀ lo ∈ h.s, ∀ hi ∈ h.s, lo.t < t → t < hi.t →
    (∀ e ∈ h.s, e.t ≤ lo.t ∨ hi.t ≤ e.t) →
    a.q = ops.slerp lo.q hi.q (t - lo.t) (hi.t - lo.t) ∧ a.method = .interpolated

/-- The samples around an instant, and the answer that `At` makes of them. -/
inductive Around (ops : QuatOps Q) (h : QuatHistory Q) (t maxGapNs : ℤ) :
    Option (QuatSample Q) → Prop
  | empty : h.s = [] → Around ops h t maxGapNs none
  | front (e : QuatEntry Q) : e ∈ h.s → t ≤ e.t → (∀ other ∈ h.s, e.t ≤ other.t) →
      Around ops h t maxGapNs (held e (e.t - t) maxGapNs)
  | back (e : QuatEntry Q) : e ∈ h.s → e.t ≤ t → (∀ other ∈ h.s, other.t ≤ e.t) →
      Around ops h t maxGapNs (held e (t - e.t) maxGapNs)
  | hit (e : QuatEntry Q) : e ∈ h.s → e.t = t → (∃ other ∈ h.s, other.t < t) →
      (∃ other ∈ h.s, t < other.t) →
      Around ops h t maxGapNs (some ⟨e.q, 0, .interpolated⟩)
  | inside (lo hi : QuatEntry Q) : lo ∈ h.s → hi ∈ h.s → lo.t < t → t < hi.t →
      (∀ e ∈ h.s, e.t ≤ lo.t ∨ hi.t ≤ e.t) →
      Around ops h t maxGapNs (between ops lo hi t maxGapNs)

/-- Which answer `At` makes. -/
theorem atTime_around (hs : InOrder QuatEntry.t h.s) (t maxGapNs : ℤ) :
    Around ops h t maxGapNs (h.atTime ops t maxGapNs) := by
  by_cases hnil : h.s = []
  · simpa [atTime, hnil] using Around.empty hnil
  obtain ⟨front, hfront⟩ : ∃ front, h.s.head? = some front :=
    Option.isSome_iff_exists.mp (by simpa using hnil)
  obtain ⟨back, hback⟩ : ∃ back, h.s.getLast? = some back :=
    Option.isSome_iff_exists.mp (by simpa using hnil)
  have hfrontMem : front ∈ h.s := List.mem_of_head? hfront
  have hbackMem : back ∈ h.s := List.mem_of_getLast? hback
  have hleFront : ∀ e ∈ h.s, front.t ≤ e.t := fun e he => hs.head_le hfront he
  have hleBack : ∀ e ∈ h.s, e.t ≤ back.t := fun e he => hs.le_getLast hback he
  unfold atTime
  rw [hfront, hback]
  dsimp only
  by_cases hbefore : t ≤ front.t
  · rw [if_pos hbefore]
    exact .front front hfrontMem hbefore hleFront
  rw [if_neg hbefore]
  by_cases hafter : back.t ≤ t
  · rw [if_pos hafter]
    exact .back back hbackMem hafter hleBack
  rw [if_neg hafter]
  -- Strictly between the ends there is an entry on either side, found by splitting at `t`.
  obtain ⟨hi, hhi⟩ : ∃ hi, (dropBefore QuatEntry.t t h.s).head? = some hi :=
    Option.isSome_iff_exists.mp (by
      rw [List.isSome_head?]
      exact List.ne_nil_of_mem (hs.mem_dropBefore.mpr ⟨hbackMem, by omega⟩))
  obtain ⟨lo, hlo⟩ : ∃ lo, (h.s.takeWhile fun e => decide (e.t < t)).getLast? = some lo :=
    Option.isSome_iff_exists.mp (by
      rw [List.getLast?_isSome]
      refine List.ne_nil_of_mem (a := front) ?_
      rw [hs.mem_takeBefore]
      exact ⟨hfrontMem, by omega⟩)
  obtain ⟨hhiMem, hhiLe⟩ := hs.mem_dropBefore.mp (List.mem_of_head? hhi)
  obtain ⟨hloMem, hloLt⟩ := hs.mem_takeBefore.mp (List.mem_of_getLast? hlo)
  rw [hhi, hlo]
  dsimp only
  by_cases hexact : hi.t = t
  · rw [if_pos hexact]
    exact .hit hi hhiMem hexact ⟨front, hfrontMem, by omega⟩ ⟨back, hbackMem, by omega⟩
  rw [if_neg hexact]
  refine .inside lo hi hloMem hhiMem hloLt (by omega) fun e he => ?_
  rcases lt_or_ge e.t t with hlt | hge
  · have hbelow : InOrder QuatEntry.t (h.s.takeWhile fun e => decide (e.t < t)) :=
      hs.sublist (List.takeWhile_sublist _)
    exact Or.inl (hbelow.le_getLast hlo (hs.mem_takeBefore.mpr ⟨he, hlt⟩))
  · exact Or.inr ((hs.dropBefore t).head_le hhi (hs.mem_dropBefore.mpr ⟨he, hge⟩))

theorem held_eq_some {e : QuatEntry Q} {gap maxGapNs : ℤ} {a : QuatSample Q} :
    held e gap maxGapNs = some a ↔
      gap ≤ maxGapNs ∧ a = ⟨e.q, gap, if gap = 0 then .interpolated else .held⟩ := by
  unfold held
  by_cases hfar : maxGapNs < gap
  · rw [if_pos hfar]
    exact ⟨fun hnone => (nomatch hnone), fun hboth => by omega⟩
  · rw [if_neg hfar, Option.some_inj, eq_comm]
    exact (and_iff_right (by omega)).symm

theorem between_eq_some {lo hi : QuatEntry Q} {t maxGapNs : ℤ} {a : QuatSample Q} :
    between ops lo hi t maxGapNs = some a ↔ min (t - lo.t) (hi.t - t) ≤ maxGapNs ∧
      a = ⟨ops.slerp lo.q hi.q (t - lo.t) (hi.t - lo.t), min (t - lo.t) (hi.t - t),
        .interpolated⟩ := by
  unfold between
  by_cases hfar : maxGapNs < min (t - lo.t) (hi.t - t)
  · dsimp only
    rw [if_pos hfar]
    exact ⟨fun hnone => (nomatch hnone), fun hboth => by omega⟩
  · dsimp only
    rw [if_neg hfar, Option.some_inj, eq_comm]
    exact (and_iff_right (by omega)).symm

/-- The gap is the distance to the nearest sample held. -/
def Nearest (h : QuatHistory Q) (t gap : ℤ) : Prop :=
  (∃ e ∈ h.s, gap = distance t e.t) ∧ ∀ e ∈ h.s, gap ≤ distance t e.t

theorem Nearest.within {t gap : ℤ} (hnear : Nearest h t gap) (maxGapNs : ℤ) :
    gap ≤ maxGapNs ↔ ∃ e ∈ h.s, distance t e.t ≤ maxGapNs := by
  obtain ⟨⟨e, he, hgap⟩, hall⟩ := hnear
  constructor
  · intro hle
    exact ⟨e, he, hgap ▸ hle⟩
  · rintro ⟨other, hother, hle⟩
    exact (hall other hother).trans hle

variable {t maxGapNs : ℤ}

/-- An answer that is given up to the distance of the nearest sample, and what it says. -/
theorem answersNearest_of_nearest {gap : ℤ} {answer : QuatSample Q}
    (hanswer : ∀ a, h.atTime ops t maxGapNs = some a ↔ gap ≤ maxGapNs ∧ a = answer)
    (hgap : answer.gapNs = gap) (hnear : Nearest h t gap)
    (hbefore : ∀ e ∈ h.s, t < e.t → (∀ other ∈ h.s, e.t ≤ other.t) →
      answer.q = e.q ∧ answer.method = .held)
    (hafter : ∀ e ∈ h.s, e.t < t → (∀ other ∈ h.s, other.t ≤ e.t) →
      answer.q = e.q ∧ answer.method = .held)
    (hexact : ∀ e ∈ h.s, e.t = t → answer.q = e.q ∧ answer.method = .interpolated)
    (hblend : ∀ lo ∈ h.s, ∀ hi ∈ h.s, lo.t < t → t < hi.t →
      (∀ e ∈ h.s, e.t ≤ lo.t ∨ hi.t ≤ e.t) →
      answer.q = ops.slerp lo.q hi.q (t - lo.t) (hi.t - lo.t) ∧ answer.method = .interpolated) :
    AnswersNearest ops h t maxGapNs := by
  have hsame : ∀ a, h.atTime ops t maxGapNs = some a → a = answer :=
    fun a ha => ((hanswer a).mp ha).2
  refine ⟨?_, fun a ha => ?_, fun a ha => ?_, fun a ha => ?_, fun a ha => ?_, fun a ha => ?_⟩
  · rw [← hnear.within maxGapNs]
    constructor
    · rintro ⟨a, ha⟩
      exact ((hanswer a).mp ha).1
    · intro hle
      exact ⟨answer, (hanswer answer).mpr ⟨hle, rfl⟩⟩
  · rw [hsame a ha, hgap]
    exact hnear
  all_goals rw [hsame a ha]; assumption

/-- Samples in order have distinct stamps. -/
theorem eq_of_stamp (hs : InOrder QuatEntry.t h.s) {a b : QuatEntry Q} (ha : a ∈ h.s)
    (hb : b ∈ h.s) (hsame : a.t = b.t) : a = b := by
  by_contra hne
  have hapart : a.t < b.t ∨ b.t < a.t := by
    refine List.Pairwise.forall_of_forall_of_flip (l := h.s)
      (R := fun x y => x ≠ y → x.t < y.t ∨ y.t < x.t) (fun x _ hxx => absurd rfl hxx)
      ?_ ?_ ha hb hne
    · exact hs.imp fun hlt _ => Or.inl hlt
    · exact hs.imp fun hlt _ => Or.inr hlt
  omega

theorem answersNearest_front (hs : InOrder QuatEntry.t h.s) {e : QuatEntry Q} (he : e ∈ h.s)
    (hle : t ≤ e.t) (hfirst : ∀ other ∈ h.s, e.t ≤ other.t)
    (hanswer : h.atTime ops t maxGapNs = held e (e.t - t) maxGapNs) :
    AnswersNearest ops h t maxGapNs := by
  have hiff : ∀ a, held e (e.t - t) maxGapNs = some a ↔ _ := fun _ => held_eq_some
  rw [← hanswer] at hiff
  refine answersNearest_of_nearest hiff rfl ⟨⟨e, he, ?_⟩, ?_⟩ ?_ ?_ ?_ ?_
  · simp only [distance]
    omega
  · intro other hother
    have := hfirst other hother
    simp only [distance]
    omega
  · intro other hother hlt hleast
    obtain rfl : e = other :=
      eq_of_stamp hs he hother (le_antisymm (hfirst other hother) (hleast e he))
    exact ⟨rfl, if_neg (by omega)⟩
  · intro other hother hlt
    have := hfirst other hother
    omega
  · intro other hother hexact
    have := hfirst other hother
    obtain rfl : e = other := eq_of_stamp hs he hother (by omega)
    exact ⟨rfl, if_pos (by omega)⟩
  · intro lo hlo hi hhi hlt
    have := hfirst lo hlo
    omega

theorem answersNearest_back (hs : InOrder QuatEntry.t h.s) {e : QuatEntry Q} (he : e ∈ h.s)
    (hle : e.t ≤ t) (hlast : ∀ other ∈ h.s, other.t ≤ e.t)
    (hanswer : h.atTime ops t maxGapNs = held e (t - e.t) maxGapNs) :
    AnswersNearest ops h t maxGapNs := by
  have hiff : ∀ a, held e (t - e.t) maxGapNs = some a ↔ _ := fun _ => held_eq_some
  rw [← hanswer] at hiff
  refine answersNearest_of_nearest hiff rfl ⟨⟨e, he, ?_⟩, ?_⟩ ?_ ?_ ?_ ?_
  · simp only [distance]
    omega
  · intro other hother
    have := hlast other hother
    simp only [distance]
    omega
  · intro other hother hlt
    have := hlast other hother
    omega
  · intro other hother hlt hmost
    obtain rfl : e = other :=
      eq_of_stamp hs he hother (le_antisymm (hmost e he) (hlast other hother))
    exact ⟨rfl, if_neg (by omega)⟩
  · intro other hother hexact
    have := hlast other hother
    obtain rfl : e = other := eq_of_stamp hs he hother (by omega)
    exact ⟨rfl, if_pos (by omega)⟩
  · intro lo hlo hi hhi _ hlt
    have := hlast hi hhi
    omega

theorem answersNearest_hit (hs : InOrder QuatEntry.t h.s) {e : QuatEntry Q} (he : e ∈ h.s)
    (hexact : e.t = t) (hbefore : ∃ other ∈ h.s, other.t < t) (hafter : ∃ other ∈ h.s, t < other.t)
    (hgap : 0 ≤ maxGapNs)
    (hanswer : h.atTime ops t maxGapNs = some ⟨e.q, 0, .interpolated⟩) :
    AnswersNearest ops h t maxGapNs := by
  obtain ⟨older, holder, holderLt⟩ := hbefore
  obtain ⟨newer, hnewer, hnewerLt⟩ := hafter
  have hiff : ∀ a, h.atTime ops t maxGapNs = some a ↔
      0 ≤ maxGapNs ∧ a = ⟨e.q, 0, .interpolated⟩ := by
    intro a
    rw [hanswer, Option.some_inj, eq_comm]
    exact (and_iff_right hgap).symm
  refine answersNearest_of_nearest hiff rfl ⟨⟨e, he, ?_⟩, ?_⟩ ?_ ?_ ?_ ?_
  · simp only [distance]
    omega
  · intro other hother
    simp only [distance]
    omega
  · intro other hother hlt hleast
    have := hleast older holder
    omega
  · intro other hother hlt hmost
    have := hmost newer hnewer
    omega
  · intro other hother hsame
    obtain rfl : e = other := eq_of_stamp hs he hother (by omega)
    exact ⟨rfl, rfl⟩
  · intro lo hlo hi hhi hlt hlt' hadjacent
    rcases hadjacent e he with hle | hle <;> omega

theorem answersNearest_inside (hs : InOrder QuatEntry.t h.s) {lo hi : QuatEntry Q} (hlo : lo ∈ h.s)
    (hhi : hi ∈ h.s) (hlt : lo.t < t) (hlt' : t < hi.t)
    (hadjacent : ∀ e ∈ h.s, e.t ≤ lo.t ∨ hi.t ≤ e.t)
    (hanswer : h.atTime ops t maxGapNs = between ops lo hi t maxGapNs) :
    AnswersNearest ops h t maxGapNs := by
  have hiff : ∀ a, between ops lo hi t maxGapNs = some a ↔ _ := fun _ => between_eq_some
  rw [← hanswer] at hiff
  refine answersNearest_of_nearest hiff rfl ⟨?_, ?_⟩ ?_ ?_ ?_ ?_
  · rcases le_total (t - lo.t) (hi.t - t) with hle | hle
    · refine ⟨lo, hlo, ?_⟩
      simp only [distance]
      omega
    · refine ⟨hi, hhi, ?_⟩
      simp only [distance]
      omega
  · intro e he
    simp only [distance]
    rcases hadjacent e he with hle | hle <;> omega
  · intro e he hlt hleast
    have := hleast lo hlo
    omega
  · intro e he hlt hmost
    have := hmost hi hhi
    omega
  · intro e he hexact
    rcases hadjacent e he with hle | hle <;> omega
  · intro lo' hlo' hi' hhi' hlow hhigh hadjacent'
    have hloBelow := hadjacent lo' hlo'
    have hhiAbove := hadjacent hi' hhi'
    have hloAbove := hadjacent' lo hlo
    have hhiBelow := hadjacent' hi hhi
    obtain rfl : lo = lo' := eq_of_stamp hs hlo hlo' (by omega)
    obtain rfl : hi = hi' := eq_of_stamp hs hhi hhi' (by omega)
    exact ⟨rfl, rfl⟩

theorem answersNearest_empty (hnil : h.s = []) (hanswer : h.atTime ops t maxGapNs = none) :
    AnswersNearest ops h t maxGapNs where
  answers_iff := by simp [hnil, hanswer]
  gap_nearest := by simp [hanswer]
  held_before := by simp [hanswer]
  held_after := by simp [hanswer]
  exact_hit := by simp [hanswer]
  blend := by simp [hanswer]

/-- An exact hit in the interior is answered whatever `max_gap_ns` is. -/
theorem InteriorHit.answers (hs : InOrder QuatEntry.t h.s) (hhit : InteriorHit h t)
    (maxGapNs : ℤ) : ∃ a, h.atTime ops t maxGapNs = some a := by
  obtain ⟨⟨e, he, hexact⟩, ⟨older, holder, holderLt⟩, newer, hnewer, hnewerLt⟩ := hhit
  have haround : Around ops h t maxGapNs _ := atTime_around hs t maxGapNs
  generalize h.atTime ops t maxGapNs = answer at haround
  cases haround with
  | empty hnil =>
      rw [hnil] at he
      cases he
  | front other hother hle hfirst =>
      have := hfirst older holder
      omega
  | back other hother hle hlast =>
      have := hlast newer hnewer
      omega
  | hit other => exact ⟨_, rfl⟩
  | inside lo hi hlo hhi hlt hlt' hadjacent =>
      rcases hadjacent e he with hle | hle <;> omega

theorem answersNearest_iff (hs : InOrder QuatEntry.t h.s) :
    AnswersNearest ops h t maxGapNs ↔ 0 ≤ maxGapNs ∨ ¬ InteriorHit h t := by
  constructor
  · intro hanswers
    by_contra hneither
    rw [not_or, not_not] at hneither
    obtain ⟨hneg, hhit⟩ := hneither
    obtain ⟨e, he, hle⟩ := hanswers.answers_iff.mp (hhit.answers hs maxGapNs)
    simp only [distance] at hle
    omega
  · intro hcond
    have haround : Around ops h t maxGapNs _ := atTime_around hs t maxGapNs
    generalize hanswer : h.atTime ops t maxGapNs = answer at haround
    cases haround with
    | empty hnil => exact answersNearest_empty hnil hanswer
    | front e he hle hfirst => exact answersNearest_front hs he hle hfirst hanswer
    | back e he hle hlast => exact answersNearest_back hs he hle hlast hanswer
    | hit e he hexact hbefore hafter =>
        refine answersNearest_hit hs he hexact hbefore hafter ?_ hanswer
        exact hcond.resolve_right fun hnot => hnot ⟨⟨e, he, hexact⟩, hbefore, hafter⟩
    | inside lo hi hlo hhi hlt hlt' hadjacent =>
        exact answersNearest_inside hs hlo hhi hlt hlt' hadjacent hanswer

/-! ## Every order of arrival -/

/-- The history is the recent samples in order of time, and the same for every admissible
order of the same arrivals. -/
structure OrderInsensitive (ops : QuatOps Q) (maxAgeNs rewindResetNs : ℤ)
    (arrivals : List (ℤ × Q)) : Prop where
  holds : Holds ops arrivals (run ops maxAgeNs rewindResetNs arrivals)
  same : ∀ other, other.Perm arrivals → Admissible ops rewindResetNs other →
    (run ops maxAgeNs rewindResetNs other).s = (run ops maxAgeNs rewindResetNs arrivals).s

/-- Admissible arrivals leave the recent samples in order, whatever their order was; and the
history answers every query as it should, but for exact hits in its interior under a negative
`max_gap_ns`. -/
theorem run_orderInsensitive_and_answersNearest_iff (ops : QuatOps Q)
    (maxAgeNs rewindResetNs : ℤ) (arrivals : List (ℤ × Q))
    (hadm : Admissible ops rewindResetNs arrivals) (t maxGapNs : ℤ) :
    OrderInsensitive ops maxAgeNs rewindResetNs arrivals ∧
      (AnswersNearest ops (run ops maxAgeNs rewindResetNs arrivals) t maxGapNs ↔
        0 ≤ maxGapNs ∨ ¬ InteriorHit (run ops maxAgeNs rewindResetNs arrivals) t) := by
  have hholds : Holds ops arrivals (run ops maxAgeNs rewindResetNs arrivals) :=
    (run_holds hadm).1
  refine ⟨⟨hholds, fun other hperm hother => ?_⟩, answersNearest_iff hholds.inOrder⟩
  exact hholds.unique (run_holds hother).1 hperm (by simp)

/-! ## Three samples -/

/-- Quaternions with integer entries, of which those of norm 1 are rotations; the blend stays
at its first sample. -/
def integerQuats : QuatOps (ℤ × ℤ × ℤ × ℤ) where
  unit q := if q.1 * q.1 + q.2.1 * q.2.1 + q.2.2.1 * q.2.2.1 + q.2.2.2 * q.2.2.2 = 1 then some q
    else none
  slerp lo _ _ _ := lo

/-- Three orientations, the middle one late. -/
def lateMiddle : List (ℤ × ℤ × ℤ × ℤ × ℤ) :=
  [(0, 0, 0, 0, 1), (20, 0, 0, 0, 1), (10, 0, 0, 0, 1)]

theorem admissible_lateMiddle : Admissible integerQuats 1000000000 lateMiddle where
  valid := by decide
  distinct := by decide
  noRewind := by decide

theorem run_orderInsensitive_and_answersNearest_lateMiddle :
    OrderInsensitive integerQuats 3000000000 1000000000 lateMiddle ∧
      (AnswersNearest integerQuats (run integerQuats 3000000000 1000000000 lateMiddle) 13 5 ↔
        (0 : ℤ) ≤ 5 ∨ ¬ InteriorHit (run integerQuats 3000000000 1000000000 lateMiddle) 13) :=
  run_orderInsensitive_and_answersNearest_iff integerQuats 3000000000 1000000000 lateMiddle
    admissible_lateMiddle 13 5

/-- The stamp of the middle sample has an answer at `max_gap_ns = -1`, within which no sample
lies. -/
theorem not_answersNearest_lateMiddle :
    (run integerQuats 3000000000 1000000000 lateMiddle).atTime integerQuats 10 (-1) =
        some ⟨(0, 0, 0, 1), 0, .interpolated⟩ ∧
      ¬ AnswersNearest integerQuats (run integerQuats 3000000000 1000000000 lateMiddle)
        10 (-1) := by
  have hstored : (run integerQuats 3000000000 1000000000 lateMiddle).s =
      [⟨0, 0, 0, 0, 1⟩, ⟨10, 0, 0, 0, 1⟩, ⟨20, 0, 0, 0, 1⟩] := by decide
  have hanswer : (run integerQuats 3000000000 1000000000 lateMiddle).atTime integerQuats 10 (-1) =
      some ⟨(0, 0, 0, 1), 0, .interpolated⟩ := by decide
  refine ⟨hanswer, fun hanswers => ?_⟩
  obtain ⟨e, he, hle⟩ := hanswers.answers_iff.mp ⟨_, hanswer⟩
  simp only [distance] at hle
  omega

end QuatHistory

end VisioSchema.Reader

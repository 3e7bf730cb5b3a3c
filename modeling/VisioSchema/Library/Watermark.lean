import Mathlib.Order.MinMax
import VisioSchema.Library.Retention

/-!
# Releasing behind a watermark

Items come in by arrival and go out by time.  An item is held back until the latest arrival so
far has carried the cutoff to its time; what is held when the input ends goes out in order.  The
output holds the input's items, and is in order of time exactly if no item comes in behind a later
one that the cutoff has reached (`release_chronological_iff`).
-/

namespace VisioSchema.Library

variable {α τ : Type*} [LinearOrder τ]

/-- The items held back, the oldest first, and the latest arrival. -/
structure Holdback (α τ : Type*) where
  held : List α
  watermark : τ

namespace Holdback

variable (time arrival : α → τ) (cutoff : τ → τ)

/-- The watermark and the items held once one more is in. -/
def hold (h : Holdback α τ) (x : α) : Holdback α τ :=
  { held := insort time x h.held, watermark := max h.watermark (arrival x) }

/-- What goes out at the cutoff. -/
def ready (h : Holdback α τ) : List α := upTo time (cutoff h.watermark) h.held

def settle (h : Holdback α τ) : Holdback α τ :=
  { h with held := after time (cutoff h.watermark) h.held }

/-- The items that go out while a list comes in, and what is held then. -/
def feed (h : Holdback α τ) : List α → List α × Holdback α τ
  | [] => ([], h)
  | x :: rest =>
      let h := h.hold time arrival x
      let (out, last) := (h.settle time cutoff).feed rest
      (h.ready time cutoff ++ out, last)

/-- A list comes in, and goes out to the last item. -/
def release (h : Holdback α τ) (items : List α) : List α :=
  (h.feed time arrival cutoff items).1 ++ (h.feed time arrival cutoff items).2.held

variable {time arrival cutoff} {keep : α → Bool}

/-! ## Nothing is lost -/

theorem ready_append_settle (h : Holdback α τ) :
    h.ready time cutoff ++ (h.settle time cutoff).held = h.held :=
  List.takeWhile_append_dropWhile

theorem insort_perm (x : α) (l : List α) : (insort time x l).Perm (x :: l) := by
  have hsplit : upTo time (time x) l ++ after time (time x) l = l :=
    List.takeWhile_append_dropWhile
  calc (insort time x l).Perm (x :: (upTo time (time x) l ++ after time (time x) l)) :=
        List.perm_middle
    _ = x :: l := by rw [hsplit]

theorem feed_perm (h : Holdback α τ) (items : List α) :
    ((h.feed time arrival cutoff items).1 ++ (h.feed time arrival cutoff items).2.held).Perm
      (h.held ++ items) := by
  induction items generalizing h with
  | nil => simp [feed]
  | cons x rest ih =>
      have hin : (h.hold time arrival x).held.Perm (h.held ++ [x]) :=
        (insort_perm x h.held).trans (List.perm_append_singleton x h.held).symm
      have hrest := ih ((h.hold time arrival x).settle time cutoff)
      simp only [feed, List.append_assoc]
      refine (hrest.append_left _).trans ?_
      rw [← List.append_assoc, ready_append_settle]
      simpa using hin.append_right rest

/-- What goes out is what was held and what came in. -/
theorem release_perm (h : Holdback α τ) (items : List α) :
    (h.release time arrival cutoff items).Perm (h.held ++ items) :=
  feed_perm h items

/-! ## The order of the output -/

/-- What is held is in order of time and past the cutoff. -/
structure Ok (time : α → τ) (cutoff : τ → τ) (h : Holdback α τ) : Prop where
  chronological : Chronological time h.held
  past : ∀ a ∈ h.held, cutoff h.watermark < time a

theorem ok_settle {h : Holdback α τ} (hordered : Chronological time h.held) :
    Ok time cutoff (h.settle time cutoff) where
  chronological := hordered.sublist (List.dropWhile_sublist _)
  past := fun _ ha => hordered.after_gt ha

theorem Ok.hold {h : Holdback α τ} (hok : Ok time cutoff h) (x : α) :
    Chronological time (h.hold time arrival x).held := hok.chronological.insort x

theorem feed_append (h : Holdback α τ) (front back : List α) :
    h.feed time arrival cutoff (front ++ back) =
      ((h.feed time arrival cutoff front).1 ++
          ((h.feed time arrival cutoff front).2.feed time arrival cutoff back).1,
        ((h.feed time arrival cutoff front).2.feed time arrival cutoff back).2) := by
  induction front generalizing h with
  | nil => simp [feed]
  | cons x front ih =>
      simp only [List.cons_append, feed]
      rw [ih]
      simp

theorem release_cons (h : Holdback α τ) (x : α) (rest : List α) :
    h.release time arrival cutoff (x :: rest) = (h.hold time arrival x).ready time cutoff ++
      ((h.hold time arrival x).settle time cutoff).release time arrival cutoff rest := by
  simp [release, feed]

theorem feed_ok {h : Holdback α τ} (hok : Ok time cutoff h) (items : List α) :
    Ok time cutoff (h.feed time arrival cutoff items).2 := by
  induction items generalizing h with
  | nil => exact hok
  | cons x rest ih => exact ih (ok_settle (hok.hold x))

/-- The latest arrival, from `w` on. -/
def latest (arrival : α → τ) (w : τ) (items : List α) : τ :=
  items.foldl (fun w a => max w (arrival a)) w

theorem le_latest (w : τ) (items : List α) : w ≤ latest arrival w items := by
  induction items generalizing w with
  | nil => exact le_refl w
  | cons a rest ih => exact (le_max_left w (arrival a)).trans (ih _)

theorem latest_append (w : τ) (front back : List α) :
    latest arrival w (front ++ back) = latest arrival (latest arrival w front) back :=
  List.foldl_append

/-- The latest arrival is the first one or that of an item. -/
theorem latest_cases (w : τ) (items : List α) :
    latest arrival w items = w ∨ ∃ a ∈ items, latest arrival w items = arrival a := by
  induction items generalizing w with
  | nil => exact Or.inl rfl
  | cons a rest ih =>
      rcases ih (max w (arrival a)) with hstart | ⟨b, hb, hlast⟩
      · rcases max_choice w (arrival a) with hw | ha
        · exact Or.inl (hstart.trans hw)
        · exact Or.inr ⟨a, List.mem_cons_self .., hstart.trans ha⟩
      · exact Or.inr ⟨b, List.mem_cons_of_mem a hb, hlast⟩

theorem feed_watermark (h : Holdback α τ) (items : List α) :
    (h.feed time arrival cutoff items).2.watermark = latest arrival h.watermark items := by
  induction items generalizing h with
  | nil => rfl
  | cons x rest ih => exact ih _

/-- No item comes in behind a later one that the cutoff has reached.  Of the items that are not
kept only the arrivals count. -/
def Timely (time arrival : α → τ) (cutoff : τ → τ) (keep : α → Bool) (h : Holdback α τ)
    (items : List α) : Prop :=
  ∀ front x back, items = front ++ x :: back → keep x = true → ∀ y ∈ h.held ++ front,
    keep y = true → time x < time y → cutoff (latest arrival h.watermark front) < time y

theorem Timely.step {h : Holdback α τ} {x : α} {rest : List α}
    (htimely : Timely time arrival cutoff keep h (x :: rest)) :
    Timely time arrival cutoff keep ((h.hold time arrival x).settle time cutoff) rest := by
  rintro front b back rfl hb y hy hkept hlate
  refine htimely (x :: front) b back rfl hb y ?_ hkept hlate
  rcases List.mem_append.mp hy with hheld | hfront
  · have hadmitted : y ∈ (h.hold time arrival x).held := (List.dropWhile_sublist _).subset hheld
    rcases List.mem_cons.mp ((insort_perm x h.held).mem_iff.mp hadmitted) with rfl | hbefore
    · simp
    · exact List.mem_append_left _ hbefore
  · exact List.mem_append_right _ (List.mem_cons_of_mem x hfront)

/-- What goes out at an item goes out before what comes in later. -/
theorem Timely.ready_le (hmono : Monotone cutoff) {h : Holdback α τ} {x : α} {rest : List α}
    (htimely : Timely time arrival cutoff keep h (x :: rest)) {a b : α}
    (ha : a ∈ (h.hold time arrival x).ready time cutoff) (hb : b ∈ rest)
    (haKept : keep a = true) (hbKept : keep b = true) : time a ≤ time b := by
  by_contra hlate
  obtain ⟨front, back, rfl⟩ := List.append_of_mem hb
  have hready : time a ≤ cutoff (h.hold time arrival x).watermark := by
    simpa using List.mem_takeWhile_imp ha
  have hin : a ∈ h.held ++ x :: front := by
    have hadmitted : a ∈ (h.hold time arrival x).held := (List.takeWhile_sublist _).subset ha
    rcases List.mem_cons.mp ((insort_perm x h.held).mem_iff.mp hadmitted) with rfl | hheld
    · simp
    · exact List.mem_append_left _ hheld
  have hpast := htimely (x :: front) b back rfl hbKept a hin haKept (not_le.mp hlate)
  have hmark : (h.hold time arrival x).watermark ≤ latest arrival h.watermark (x :: front) :=
    le_latest (max h.watermark (arrival x)) front
  exact absurd (hready.trans (hmono hmark)) (not_le.mpr hpast)

theorem Timely.chronological (hmono : Monotone cutoff) {h : Holdback α τ}
    (hok : Ok time cutoff h) {items : List α} (htimely : Timely time arrival cutoff keep h items) :
    Chronological time ((h.release time arrival cutoff items).filter keep) := by
  induction items generalizing h with
  | nil =>
      have hheld : h.release time arrival cutoff [] = h.held := rfl
      rw [hheld]
      exact hok.chronological.sublist List.filter_sublist
  | cons x rest ih =>
      have hadmitted : Chronological time (h.hold time arrival x).held := hok.hold x
      have hsettled : Ok time cutoff ((h.hold time arrival x).settle time cutoff) :=
        ok_settle hadmitted
      rw [release_cons, List.filter_append]
      refine List.pairwise_append.mpr ⟨?_, ih hsettled htimely.step, ?_⟩
      · exact (hadmitted.sublist (List.takeWhile_sublist _)).sublist List.filter_sublist
      intro a ha b hb
      obtain ⟨ha, haKept⟩ := List.mem_filter.mp ha
      obtain ⟨hb, hbKept⟩ := List.mem_filter.mp hb
      have hready : time a ≤ cutoff (h.hold time arrival x).watermark := by
        simpa using List.mem_takeWhile_imp ha
      rcases List.mem_append.mp ((release_perm _ rest).mem_iff.mp hb) with hheld | hnew
      · exact hready.trans (hsettled.past b hheld).le
      · exact htimely.ready_le hmono ha hnew haKept hbKept

/-- An item behind the cutoff goes out at once. -/
theorem mem_feed_of_le {h : Holdback α τ} (hok : Ok time cutoff h) {front back : List α} {x : α}
    (hpast : time x ≤ cutoff (latest arrival h.watermark (front ++ [x]))) :
    x ∈ ((h.feed time arrival cutoff front).2.feed time arrival cutoff (x :: back)).1 := by
  let h' := (h.feed time arrival cutoff front).2
  have hheld : x ∈ (h'.hold time arrival x).held :=
    (insort_perm x h'.held).mem_iff.mpr (List.mem_cons_self ..)
  have hordered : Chronological time (h'.hold time arrival x).held := (feed_ok hok front).hold x
  have hmark : (h'.hold time arrival x).watermark = latest arrival h.watermark (front ++ [x]) := by
    rw [latest_append, ← feed_watermark]
    rfl
  rw [← @ready_append_settle _ _ _ time cutoff (h'.hold time arrival x)] at hheld
  refine List.mem_append_left _ ?_
  rcases List.mem_append.mp hheld with hready | hlater
  · exact hready
  · have hsettled : Ok time cutoff ((h'.hold time arrival x).settle time cutoff) :=
      ok_settle hordered
    have hover := hsettled.past x hlater
    rw [← hmark] at hpast
    exact absurd hpast (not_le.mpr hover)

/-- What goes out while the items come in is in order of time only if they are timely. -/
theorem timely_of_feed (hmono : Monotone cutoff) {h : Holdback α τ} (hok : Ok time cutoff h)
    {items : List α}
    (hordered : Chronological time ((h.feed time arrival cutoff items).1.filter keep)) :
    Timely time arrival cutoff keep h items := by
  rintro front x back rfl hx y hy hkept hlate
  by_contra hreached
  have hout : y ∈ (h.feed time arrival cutoff front).1 := by
    rcases List.mem_append.mp ((feed_perm h front).mem_iff.mpr hy) with hout | hheld
    · exact hout
    · have hover := (feed_ok hok front).past y hheld
      rw [feed_watermark] at hover
      exact absurd hover hreached
  have hcut : cutoff (latest arrival h.watermark front) ≤
      cutoff (latest arrival h.watermark (front ++ [x])) := by
    rw [latest_append]
    exact hmono (le_latest _ _)
  have hpast : time x ≤ cutoff (latest arrival h.watermark (front ++ [x])) := by
    calc time x
        _ ≤ time y := hlate.le
        _ ≤ cutoff (latest arrival h.watermark front) := not_lt.mp hreached
        _ ≤ cutoff (latest arrival h.watermark (front ++ [x])) := hcut
  have hin : x ∈ ((h.feed time arrival cutoff front).2.feed time arrival cutoff (x :: back)).1 :=
    mem_feed_of_le hok hpast
  rw [feed_append, List.filter_append] at hordered
  exact absurd ((List.pairwise_append.mp hordered).2.2 y (List.mem_filter.mpr ⟨hout, hkept⟩) x
    (List.mem_filter.mpr ⟨hin, hx⟩)) (not_le.mpr hlate)

/-- What is kept of the output is in order of time exactly if the items are timely, whether the last
of them go out or not. -/
theorem release_chronological_iff (hmono : Monotone cutoff) {h : Holdback α τ}
    (hok : Ok time cutoff h) (keep : α → Bool) (items : List α) :
    (Chronological time ((h.release time arrival cutoff items).filter keep) ↔
        Timely time arrival cutoff keep h items) ∧
      (Chronological time ((h.feed time arrival cutoff items).1.filter keep) ↔
        Timely time arrival cutoff keep h items) := by
  have hfront : Chronological time ((h.release time arrival cutoff items).filter keep) →
      Chronological time ((h.feed time arrival cutoff items).1.filter keep) := by
    rw [release, List.filter_append]
    exact fun hordered => hordered.sublist (List.sublist_append_left _ _)
  have htimely : Chronological time ((h.feed time arrival cutoff items).1.filter keep) →
      Timely time arrival cutoff keep h items := timely_of_feed hmono hok
  exact ⟨⟨fun hordered => htimely (hfront hordered), fun hitems => hitems.chronological hmono hok⟩,
    ⟨htimely, fun hitems => hfront (hitems.chronological hmono hok)⟩⟩

/-- Items are timely if none comes in behind the cutoff of those before it. -/
theorem timely_of_pairwise {h : Holdback α τ} {items : List α} (keep : α → Bool)
    (hstart : ∀ x ∈ items, cutoff h.watermark ≤ time x)
    (hitems : items.Pairwise fun a b => cutoff (arrival a) ≤ time b) :
    Timely time arrival cutoff keep h items := by
  rintro front x back rfl - y - - hlate
  refine lt_of_le_of_lt ?_ hlate
  rcases @latest_cases _ _ _ arrival h.watermark front with hfirst | ⟨a, ha, hlast⟩
  · rw [hfirst]
    exact hstart x (by simp)
  · rw [hlast]
    exact (List.pairwise_append.mp hitems).2.2 a ha x (List.mem_cons_self ..)

/-! ## Items already in order -/

theorem filter_insort {p : α → Bool} {x : α} {l : List α} (hl : Chronological time l)
    (hlast : ∀ a ∈ l, p a = true → p x = true → time a ≤ time x) :
    (insort time x l).filter p = l.filter p ++ [x].filter p := by
  have hsplit : upTo time (time x) l ++ after time (time x) l = l :=
    List.takeWhile_append_dropWhile
  have hfilter : l.filter p =
      (upTo time (time x) l).filter p ++ (after time (time x) l).filter p := by
    rw [← List.filter_append, hsplit]
  cases hx : p x with
  | false => simp [insort, hfilter, hx]
  | true =>
      have hnone : (after time (time x) l).filter p = [] := by
        refine List.filter_eq_nil_iff.mpr fun a ha hpa => ?_
        have hin : a ∈ l := (List.dropWhile_sublist _).subset ha
        exact absurd (hlast a hin hpa hx) (not_le.mpr (hl.after_gt ha))
      simp [insort, hfilter, hnone, hx]

/-- Items that come in in order of time go out in the order they came in. -/
theorem filter_release {p : α → Bool} {h : Holdback α τ} (hok : Ok time cutoff h) {items : List α}
    (hordered : Chronological time ((h.held ++ items).filter p)) :
    (h.release time arrival cutoff items).filter p = (h.held ++ items).filter p := by
  induction items generalizing h with
  | nil => simp [release, feed]
  | cons x rest ih =>
      have hin : (h.hold time arrival x).held.filter p = h.held.filter p ++ [x].filter p := by
        refine filter_insort hok.chronological fun a ha hpa hpx => ?_
        rw [List.filter_append] at hordered
        refine (List.pairwise_append.mp hordered).2.2 a ?_ x ?_
        · exact List.mem_filter.mpr ⟨ha, hpa⟩
        · exact List.mem_filter.mpr ⟨List.mem_cons_self .., hpx⟩
      have hsplit : ((h.hold time arrival x).ready time cutoff).filter p ++
          ((h.hold time arrival x).settle time cutoff).held.filter p =
            h.held.filter p ++ [x].filter p := by
        rw [← List.filter_append, ready_append_settle, hin]
      have hall : ((h.hold time arrival x).ready time cutoff).filter p ++
          (((h.hold time arrival x).settle time cutoff).held ++ rest).filter p =
            (h.held ++ x :: rest).filter p := by
        rw [List.filter_append, ← List.append_assoc,
          hsplit, List.append_assoc, ← List.filter_append,
          ← List.filter_append]
        rfl
      have hrest : Chronological time
          ((((h.hold time arrival x).settle time cutoff).held ++ rest).filter p) := by
        rw [← hall] at hordered
        exact (List.pairwise_append.mp hordered).2.1
      rw [release_cons, List.filter_append, ih (ok_settle (hok.hold x)) hrest, hall]

end Holdback

end VisioSchema.Library

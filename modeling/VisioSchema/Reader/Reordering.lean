import VisioSchema.Reader.Rows

/-!
# The heap of `_reorder`

`_reorder` as a generator that is resumed: it asks for an item, releases from its heap what the
cutoff has reached, and drains the heap behind the last item.  Its heap is what the library's
`Holdback` holds back (`comes_start`), its entries under the number that came with them, so that
elements of one time leave as they came.  What the heap holds is bounded whenever an item is asked
for (`Moment.Ok`), not while elements are released.
-/

namespace VisioSchema.Reader.Reordering

open VisioSchema.Library

variable {E : Type*}

/-- `(t_ns, arrival_ns, element)`. -/
structure Item (E : Type*) where
  tNs : ℤ
  arrivalNs : ℤ
  element : E
  deriving DecidableEq, Repr

/-- `(t_ns, seq, el)`. -/
structure Entry (E : Type*) where
  tNs : ℤ
  seq : ℕ
  element : E
  deriving DecidableEq, Repr

/-- The order of the entries; no two have one `seq`. -/
def Entry.le (first second : Entry E) : Bool :=
  decide (first.tNs < second.tNs) ||
    (decide (first.tNs = second.tNs) && decide (first.seq ≤ second.seq))

/-- `heapq.heappush`, for a heap that is listed as it pops. -/
def heappush (heap : List (Entry E)) (entry : Entry E) : List (Entry E) :=
  heap.takeWhile (·.le entry) ++ entry :: heap.dropWhile (·.le entry)

/-- The variables of `_reorder`. -/
structure Variables (E : Type*) where
  heap : List (Entry E)
  seq : ℕ
  watermark : ℤ
  deriving DecidableEq, Repr

/-- The loop's statements up to the cutoff. -/
def Variables.push (v : Variables E) (item : Item E) : Variables E where
  heap := heappush v.heap ⟨item.tNs, v.seq, item.element⟩
  seq := v.seq + 1
  watermark := max v.watermark item.arrivalNs

/-- Where the generator is: before `next` of its items, at either `while`, or at its end. -/
inductive Moment (E : Type*)
  | asking (v : Variables E) (rest : List (Item E))
  | releasing (v : Variables E) (rest : List (Item E))
  | draining (v : Variables E)
  | finished
  deriving DecidableEq, Repr

/-- One step, and what is yielded in it. -/
def step (reorderNs : ℤ) : Moment E → Option (Option E × Moment E)
  | .asking v [] => some (none, .draining v)
  | .asking v (item :: rest) => some (none, .releasing (v.push item) rest)
  | .releasing v rest =>
      match v.heap with
      | [] => some (none, .asking v rest)
      | entry :: heap =>
          if entry.tNs ≤ v.watermark - reorderNs then
            some (some entry.element, .releasing { v with heap := heap } rest)
          else some (none, .asking v rest)
  | .draining v =>
      match v.heap with
      | [] => some (none, .finished)
      | entry :: heap => some (some entry.element, .draining { v with heap := heap })
  | .finished => none

/-- Some steps: what is yielded, and where the generator is then. -/
def steps (reorderNs : ℤ) : ℕ → Moment E → List E × Moment E
  | 0, m => ([], m)
  | n + 1, m =>
      match step reorderNs m with
      | none => ([], m)
      | some (out, next) =>
          (out.toList ++ (steps reorderNs n next).1, (steps reorderNs n next).2)

/-- `_reorder(items, reorder_ns)`, not yet begun. -/
def start (items : List (Item E)) : Moment E := .asking ⟨[], 0, 0⟩ items

variable {reorderNs : ℤ}

/-! ## Steps -/

theorem steps_finished (n : ℕ) : steps reorderNs n (.finished : Moment E) = ([], .finished) := by
  cases n <;> rfl

theorem steps_of_step {m next : Moment E} {out : Option E}
    (hstep : step reorderNs m = some (out, next)) (n : ℕ) :
    steps reorderNs (n + 1) m =
      (out.toList ++ (steps reorderNs n next).1, (steps reorderNs n next).2) := by
  rw [steps, hstep]

theorem steps_add (first second : ℕ) (m : Moment E) :
    steps reorderNs (first + second) m =
      ((steps reorderNs first m).1 ++ (steps reorderNs second (steps reorderNs first m).2).1,
        (steps reorderNs second (steps reorderNs first m).2).2) := by
  induction first generalizing m with
  | zero => rw [Nat.zero_add, steps, List.nil_append]
  | succ first ih =>
      rw [Nat.succ_add]
      cases hstep : step reorderNs m with
      | none =>
          have hend : ∀ n, steps reorderNs n m = ([], m) := by
            intro n
            cases n with
            | zero => rfl
            | succ n => rw [steps, hstep]
          rw [hend, hend, hend]
          rfl
      | some found =>
          obtain ⟨out, next⟩ := found
          rw [steps_of_step hstep, steps_of_step hstep, ih, List.append_assoc]

/-- The generator comes from one moment to another, and yields some elements on the way. -/
def Comes (reorderNs : ℤ) (m : Moment E) (out : List E) (last : Moment E) : Prop :=
  ∃ n, steps reorderNs n m = (out, last)

theorem Comes.refl (m : Moment E) : Comes reorderNs m [] m := ⟨0, rfl⟩

theorem Comes.step {m next last : Moment E} {out : Option E} {outs : List E}
    (hstep : Reordering.step reorderNs m = some (out, next))
    (hnext : Comes reorderNs next outs last) :
    Comes reorderNs m (out.toList ++ outs) last := by
  obtain ⟨n, hn⟩ := hnext
  exact ⟨n + 1, by rw [steps_of_step hstep, hn]⟩

theorem Comes.silent {m next last : Moment E} {outs : List E}
    (hstep : Reordering.step reorderNs m = some (none, next))
    (hnext : Comes reorderNs next outs last) : Comes reorderNs m outs last :=
  Comes.step hstep hnext

theorem Comes.trans {m next last : Moment E} {out outs : List E}
    (hfirst : Comes reorderNs m out next) (hnext : Comes reorderNs next outs last) :
    Comes reorderNs m (out ++ outs) last := by
  obtain ⟨first, hfirst⟩ := hfirst
  obtain ⟨second, hsecond⟩ := hnext
  exact ⟨first + second, by rw [steps_add, hfirst, hsecond]⟩

/-! ## What is yielded -/

/-- An item with its number. -/
abbrev Numbered (E : Type*) := Item E × ℕ

def Numbered.tNs (x : Numbered E) : ℤ := x.1.tNs

def Numbered.arrivalNs (x : Numbered E) : ℤ := x.1.arrivalNs

def Numbered.entry (x : Numbered E) : Entry E := ⟨x.1.tNs, x.2, x.1.element⟩

def Numbered.element (x : Numbered E) : E := x.1.element

theorem takeWhile_congr {α : Type*} {p q : α → Bool} {l : List α} (h : ∀ a ∈ l, p a = q a) :
    l.takeWhile p = l.takeWhile q := by
  induction l with
  | nil => rfl
  | cons a l ih =>
      rw [List.takeWhile_cons, List.takeWhile_cons, h a (List.mem_cons_self ..),
        ih fun b hb => h b (List.mem_cons_of_mem a hb)]

theorem dropWhile_congr {α : Type*} {p q : α → Bool} {l : List α} (h : ∀ a ∈ l, p a = q a) :
    l.dropWhile p = l.dropWhile q := by
  induction l with
  | nil => rfl
  | cons a l ih =>
      rw [List.dropWhile_cons, List.dropWhile_cons, h a (List.mem_cons_self ..),
        ih fun b hb => h b (List.mem_cons_of_mem a hb)]

/-- The newest entry goes in behind those of its time. -/
theorem heappush_entries {held : List (Numbered E)} {x : Numbered E}
    (hnew : ∀ y ∈ held, y.2 < x.2) :
    heappush (held.map Numbered.entry) x.entry =
      (insort Numbered.tNs x held).map Numbered.entry := by
  have hle : ∀ y ∈ held, ((·.le x.entry) ∘ Numbered.entry) y =
      decide (Numbered.tNs y ≤ Numbered.tNs x) := by
    intro y hy
    have hseq := hnew y hy
    rw [Function.comp_apply, Entry.le, ← Bool.decide_and, ← Bool.decide_or]
    refine decide_eq_decide.mpr ?_
    change y.1.tNs < x.1.tNs ∨ y.1.tNs = x.1.tNs ∧ y.2 ≤ x.2 ↔ y.1.tNs ≤ x.1.tNs
    omega
  rw [heappush, insort, upTo, after, List.takeWhile_map, List.dropWhile_map, takeWhile_congr hle,
    dropWhile_congr hle, List.map_append, List.map_cons]

/-- What the library's heap holds, and under what numbers. -/
structure Holds (h : Holdback (Numbered E) ℤ) (v : Variables E) : Prop where
  heap : v.heap = h.held.map Numbered.entry
  seq : ∀ x ∈ h.held, x.2 < v.seq
  watermark : v.watermark = h.watermark

theorem Holds.push {h : Holdback (Numbered E) ℤ} {v : Variables E} (hv : Holds h v)
    (item : Item E) :
    Holds (h.hold Numbered.tNs Numbered.arrivalNs (item, v.seq)) (v.push item) where
  heap := by
    change heappush v.heap (Numbered.entry (item, v.seq)) = _
    rw [hv.heap, heappush_entries hv.seq]
    rfl
  seq := by
    intro x hx
    rcases List.mem_cons.mp ((Holdback.insort_perm _ h.held).mem_iff.mp hx) with rfl | hx
    · exact Nat.lt_succ_self v.seq
    · exact Nat.lt_succ_of_lt (hv.seq x hx)
  watermark := by
    rw [Variables.push, hv.watermark]
    rfl

/-- The inner loop releases what the cutoff has reached, and asks for the next item. -/
theorem comes_releasing (held : List (Numbered E)) (seq : ℕ) (watermark : ℤ)
    (rest : List (Item E)) :
    Comes reorderNs (.releasing ⟨held.map Numbered.entry, seq, watermark⟩ rest)
      ((upTo Numbered.tNs (watermark - reorderNs) held).map Numbered.element)
      (.asking ⟨(after Numbered.tNs (watermark - reorderNs) held).map Numbered.entry, seq,
        watermark⟩ rest) := by
  induction held with
  | nil => exact Comes.silent rfl (Comes.refl _)
  | cons x held ih =>
      by_cases hpast : x.1.tNs ≤ watermark - reorderNs
      · have hstep : step reorderNs (.releasing ⟨(x :: held).map Numbered.entry, seq, watermark⟩
            rest) = some (some x.element, .releasing ⟨held.map Numbered.entry, seq, watermark⟩
              rest) := if_pos hpast
        rw [upTo_cons_of_le held hpast, after_cons_of_le held hpast]
        exact Comes.step hstep ih
      · have hstep : step reorderNs (.releasing ⟨(x :: held).map Numbered.entry, seq, watermark⟩
            rest) = some (none, .asking ⟨(x :: held).map Numbered.entry, seq, watermark⟩ rest) :=
          if_neg hpast
        rw [upTo_cons_of_lt held (not_le.mp hpast), after_cons_of_lt held (not_le.mp hpast)]
        exact Comes.step hstep (Comes.refl _)

theorem comes_asking {h : Holdback (Numbered E) ℤ} {v : Variables E} (hv : Holds h v)
    (items : List (Item E)) :
    ∃ last, Comes reorderNs (.asking v items)
        ((h.feed Numbered.tNs Numbered.arrivalNs (· - reorderNs)
          (items.zipIdx v.seq)).1.map Numbered.element) (.draining last) ∧
      last.heap = (h.feed Numbered.tNs Numbered.arrivalNs (· - reorderNs)
        (items.zipIdx v.seq)).2.held.map Numbered.entry := by
  induction items generalizing h v with
  | nil => exact ⟨v, Comes.silent rfl (Comes.refl _), hv.heap⟩
  | cons item rest ih =>
      let pushed := h.hold Numbered.tNs Numbered.arrivalNs (item, v.seq)
      have hpush : Holds pushed (v.push item) := hv.push item
      have hreleased := @comes_releasing E reorderNs pushed.held (v.push item).seq
        (v.push item).watermark rest
      rw [← hpush.heap, hpush.watermark] at hreleased
      have hsettled : Holds (pushed.settle Numbered.tNs (· - reorderNs))
          ⟨(pushed.settle Numbered.tNs (· - reorderNs)).held.map Numbered.entry,
            (v.push item).seq, pushed.watermark⟩ :=
        ⟨rfl, fun x hx => hpush.seq x ((List.dropWhile_sublist _).subset hx), rfl⟩
      obtain ⟨last, hlast, hheap⟩ := ih hsettled
      refine ⟨last, ?_, hheap⟩
      have hstep : step reorderNs (.asking v (item :: rest)) =
          some (none, .releasing (v.push item) rest) := rfl
      rw [List.zipIdx_cons, Holdback.feed, List.map_append]
      have hvariables :
          v.push item = ⟨(v.push item).heap, (v.push item).seq, pushed.watermark⟩ := by
        rw [← hpush.watermark]
      rw [← hvariables] at hreleased
      exact Comes.step hstep (hreleased.trans hlast)

theorem comes_draining (held : List (Numbered E)) (seq : ℕ) (watermark : ℤ) :
    Comes reorderNs (.draining ⟨held.map Numbered.entry, seq, watermark⟩)
      (held.map Numbered.element) .finished := by
  induction held with
  | nil => exact Comes.silent rfl (Comes.refl _)
  | cons x held ih =>
      have hstep : step reorderNs (.draining ⟨(x :: held).map Numbered.entry, seq, watermark⟩) =
          some (some x.element, .draining ⟨held.map Numbered.entry, seq, watermark⟩) := rfl
      exact Comes.step hstep ih

/-- The items in the order in which their elements leave. -/
def leaving (reorderNs : ℤ) (items : List (Item E)) : List (Item E) :=
  ((⟨[], 0⟩ : Holdback (Numbered E) ℤ).release Numbered.tNs Numbered.arrivalNs (· - reorderNs)
    items.zipIdx).map Prod.fst

/-- The generator comes to its end, with the elements of the library's heap. -/
theorem comes_start (items : List (Item E)) :
    Comes reorderNs (start items) ((leaving reorderNs items).map Item.element) .finished := by
  have hstart : Holds (⟨[], 0⟩ : Holdback (Numbered E) ℤ) ⟨[], 0, 0⟩ :=
    ⟨rfl, fun x hx => absurd hx List.not_mem_nil, rfl⟩
  obtain ⟨⟨heap, seq, watermark⟩, hcomes, hheap⟩ := @comes_asking E reorderNs _ _ hstart items
  dsimp only at hheap hcomes
  rw [hheap] at hcomes
  have hall := hcomes.trans (comes_draining _ seq watermark)
  rw [← List.map_append] at hall
  rw [leaving, List.map_map]
  exact hall

theorem leaving_perm (items : List (Item E)) : (leaving reorderNs items).Perm items := by
  have hperm := @Holdback.release_perm (Numbered E) ℤ _ Numbered.tNs Numbered.arrivalNs
    (· - reorderNs) ⟨[], 0⟩ items.zipIdx
  have hmap := hperm.map Prod.fst
  rwa [List.nil_append, List.zipIdx_map_fst] at hmap

theorem holdback_ok :
    Holdback.Ok Numbered.tNs (· - reorderNs) (⟨[], 0⟩ : Holdback (Numbered E) ℤ) where
  chronological := List.Pairwise.nil
  past := fun _ hx => absurd hx List.not_mem_nil

/-- Items of one time leave as they came. -/
theorem filter_leaving (items : List (Item E)) (t : ℤ) :
    (leaving reorderNs items).filter (fun x => decide (x.tNs = t)) =
      items.filter fun x => decide (x.tNs = t) := by
  have hordered : Chronological (Numbered.tNs (E := E))
      ((([] : List (Numbered E)) ++ items.zipIdx).filter fun x => decide (x.1.tNs = t)) := by
    refine List.pairwise_of_forall_mem_list fun x hx y hy => ?_
    have hxt := of_decide_eq_true (List.mem_filter.mp hx).2
    have hyt := of_decide_eq_true (List.mem_filter.mp hy).2
    exact (hxt.trans hyt.symm).le
  have hfilter := @Holdback.filter_release (Numbered E) ℤ _ Numbered.tNs Numbered.arrivalNs
    (· - reorderNs) (fun x => decide (x.1.tNs = t)) ⟨[], 0⟩ holdback_ok items.zipIdx hordered
  have hmap := congrArg (List.map Prod.fst) hfilter
  rw [List.nil_append] at hmap
  have hcomp : (fun x : Numbered E => decide (x.1.tNs = t)) =
      (fun x : Item E => decide (x.tNs = t)) ∘ Prod.fst := rfl
  rwa [hcomp, ← List.filter_map, ← List.filter_map, List.zipIdx_map_fst] at hmap

/-- Every item behind the first comes in within the budget of the largest arrival before it, counted
from zero.  Its own arrival may be as late as it likes. -/
def InBudget (reorderNs : ℤ) (items : List (Item E)) : Prop :=
  ∀ front x back, items = front ++ x :: back → front ≠ [] →
    Holdback.latest Item.arrivalNs 0 front - reorderNs ≤ x.tNs

theorem leaving_chronological {items : List (Item E)} (hbudget : InBudget reorderNs items) :
    Chronological Item.tNs (leaving reorderNs items) := by
  have hmono : Monotone (· - reorderNs) := fun a b hab => Int.sub_le_sub_right hab reorderNs
  have htimely : Holdback.Timely Numbered.tNs Numbered.arrivalNs (· - reorderNs) (fun _ => true)
      (⟨[], 0⟩ : Holdback (Numbered E) ℤ) items.zipIdx := by
    intro front x back hsplit _ y hy _ hlate
    have hitems : items = front.map Prod.fst ++ x.1 :: back.map Prod.fst := by
      rw [← List.map_cons, ← List.map_append, ← hsplit, List.zipIdx_map_fst]
    -- `y` stands before `x`, so that the budget says something of `x`
    have hfront : front.map Prod.fst ≠ [] := by
      intro hnil
      rw [List.map_eq_nil_iff.mp hnil] at hy
      cases hy
    have hpast := hbudget _ _ _ hitems hfront
    have hsame : Holdback.latest Item.arrivalNs 0 (front.map Prod.fst) =
        Holdback.latest Numbered.arrivalNs 0 front := List.foldl_map
    rw [hsame] at hpast
    exact lt_of_le_of_lt hpast hlate
  have hordered := htimely.chronological hmono holdback_ok
  rw [List.filter_true] at hordered
  exact List.pairwise_map.mpr hordered

/-! ## What the heap holds -/

/-- The heap is in order. -/
def Variables.Sorted (v : Variables E) : Prop := Chronological Entry.tNs v.heap

/-- The heap holds nothing that the cutoff has reached. -/
def Variables.Past (reorderNs : ℤ) (v : Variables E) : Prop :=
  ∀ entry ∈ v.heap, v.watermark - reorderNs < entry.tNs

/-- What holds at a moment: nothing in the heap is due when an item is asked for, and at the end. -/
def Moment.Ok (reorderNs : ℤ) (items : List (Item E)) : Moment E → Prop
  | .asking v rest => v.Sorted ∧ v.Past reorderNs ∧
      ∃ taken, items = taken ++ rest ∧ v.watermark = Holdback.latest Item.arrivalNs 0 taken
  | .releasing v rest => v.Sorted ∧
      ∃ taken, items = taken ++ rest ∧ v.watermark = Holdback.latest Item.arrivalNs 0 taken
  | .draining v => v.Sorted ∧ v.Past reorderNs ∧
      v.watermark = Holdback.latest Item.arrivalNs 0 items
  | .finished => True

theorem heappush_chronological {heap : List (Entry E)} (hheap : Chronological Entry.tNs heap)
    (entry : Entry E) : Chronological Entry.tNs (heappush heap entry) := by
  have hsplit : heap.takeWhile (·.le entry) ++ heap.dropWhile (·.le entry) = heap :=
    List.takeWhile_append_dropWhile
  have hfirst : ∀ a ∈ heap.takeWhile (·.le entry), a.tNs ≤ entry.tNs := by
    intro a ha
    have hle : a.le entry = true :=
      @List.mem_takeWhile_imp _ (fun other => other.le entry) heap a ha
    rw [Entry.le, ← Bool.decide_and, ← Bool.decide_or] at hle
    have hcases := of_decide_eq_true hle
    omega
  rw [← hsplit] at hheap
  obtain ⟨hbefore, hbehind, hcross⟩ := List.pairwise_append.mp hheap
  have hlast : ∀ b ∈ heap.dropWhile (·.le entry), entry.tNs ≤ b.tNs := by
    cases hdrop : heap.dropWhile (·.le entry) with
    | nil => exact fun b hb => absurd hb List.not_mem_nil
    | cons c rest =>
        have hc : c.le entry = false := by
          have hhead := List.head?_dropWhile_not (·.le entry) heap
          rwa [hdrop] at hhead
        rw [Entry.le, ← Bool.decide_and, ← Bool.decide_or] at hc
        have hgt := of_decide_eq_false hc
        rw [hdrop] at hbehind
        intro b hb
        rcases List.mem_cons.mp hb with rfl | hb
        · omega
        · have hle := (List.pairwise_cons.mp hbehind).1 b hb
          omega
  refine List.pairwise_append.mpr ⟨hbefore, List.pairwise_cons.mpr ⟨hlast, hbehind⟩, ?_⟩
  intro a ha b hb
  rcases List.mem_cons.mp hb with rfl | hb
  · exact hfirst a ha
  · exact hcross a ha b hb

/-- Where the first entry is not due, none is. -/
theorem Variables.Sorted.past {v : Variables E} (hv : v.Sorted) {entry : Entry E}
    {heap : List (Entry E)} (hheap : v.heap = entry :: heap)
    (hdue : ¬entry.tNs ≤ v.watermark - reorderNs) : v.Past reorderNs := by
  intro other hother
  rw [Sorted, hheap] at hv
  rw [hheap] at hother
  rcases List.mem_cons.mp hother with rfl | hother
  · exact not_le.mp hdue
  · exact (not_le.mp hdue).trans_le ((List.pairwise_cons.mp hv).1 other hother)

theorem Moment.Ok.step {items : List (Item E)} {m next : Moment E} {out : Option E}
    (hm : m.Ok reorderNs items) (hstep : Reordering.step reorderNs m = some (out, next)) :
    next.Ok reorderNs items := by
  cases m with
  | asking v rest =>
      obtain ⟨hsorted, hpast, taken, hitems, hmark⟩ := hm
      cases rest with
      | nil =>
          cases hstep
          rw [List.append_nil] at hitems
          exact ⟨hsorted, hpast, by rw [hitems, hmark]⟩
      | cons item rest =>
          cases hstep
          refine ⟨heappush_chronological hsorted _, taken ++ [item], ?_, ?_⟩
          · rw [List.append_assoc, List.singleton_append, hitems]
          · rw [Holdback.latest_append, ← hmark]
            rfl
  | releasing v rest =>
      obtain ⟨hsorted, taken, hitems, hmark⟩ := hm
      rw [Reordering.step] at hstep
      split at hstep
      next hheap =>
        -- nothing is left in the heap
        cases hstep
        refine ⟨hsorted, fun entry hentry => ?_, taken, hitems, hmark⟩
        rw [hheap] at hentry
        exact absurd hentry List.not_mem_nil
      next entry heap hheap =>
        split at hstep
        next hdue =>
          cases hstep
          rw [Variables.Sorted, hheap] at hsorted
          exact ⟨(List.pairwise_cons.mp hsorted).2, taken, hitems, hmark⟩
        next hdue =>
          cases hstep
          exact ⟨hsorted, hsorted.past hheap hdue, taken, hitems, hmark⟩
  | draining v =>
      obtain ⟨hsorted, hpast, hmark⟩ := hm
      rw [Reordering.step] at hstep
      split at hstep
      next hheap =>
        cases hstep
        trivial
      next entry heap hheap =>
        cases hstep
        rw [Variables.Sorted, hheap] at hsorted
        refine ⟨(List.pairwise_cons.mp hsorted).2, fun other hother => hpast other ?_, hmark⟩
        rw [hheap]
        exact List.mem_cons_of_mem entry hother
  | finished => cases hstep

theorem Moment.Ok.steps {items : List (Item E)} {m : Moment E} (hm : m.Ok reorderNs items)
    (n : ℕ) : (Reordering.steps reorderNs n m).2.Ok reorderNs items := by
  induction n generalizing m with
  | zero => exact hm
  | succ n ih =>
      cases hstep : Reordering.step reorderNs m with
      | none => rw [Reordering.steps, hstep]; exact hm
      | some found => rw [Reordering.steps, hstep]; exact ih (hm.step hstep)

theorem ok_start (items : List (Item E)) : (start items).Ok reorderNs items :=
  ⟨List.Pairwise.nil, fun _ hentry => absurd hentry List.not_mem_nil, [], rfl, rfl⟩

/-- The generator yields each element once, those of one time as they came, and all in order of
time if every item is within the budget; whenever it asks for an item, and behind the last, its
heap holds only what the cutoff has not reached. -/
theorem reorder_bounded (reorderNs : ℤ) (items : List (Item E)) :
    (∃ order : List (Item E), order.Perm items ∧
      (∀ t, order.filter (fun x => decide (x.tNs = t)) =
        items.filter fun x => decide (x.tNs = t)) ∧
      (InBudget reorderNs items → order.Pairwise fun x y => x.tNs ≤ y.tNs) ∧
      (∃ n, steps reorderNs n (start items) = (order.map Item.element, .finished)) ∧
      ∀ n, (steps reorderNs n (start items)).1 <+: order.map Item.element) ∧
    ∀ n,
      (∀ v rest, (steps reorderNs n (start items)).2 = .asking v rest →
        ∃ taken, items = taken ++ rest ∧ ∀ entry ∈ v.heap,
          Holdback.latest Item.arrivalNs 0 taken - reorderNs < entry.tNs) ∧
      ∀ v, (steps reorderNs n (start items)).2 = .draining v → ∀ entry ∈ v.heap,
        Holdback.latest Item.arrivalNs 0 items - reorderNs < entry.tNs := by
  constructor
  · obtain ⟨last, hlast⟩ := @comes_start E reorderNs items
    refine ⟨leaving reorderNs items, leaving_perm items, filter_leaving items,
      leaving_chronological, ⟨last, hlast⟩, fun n => ?_⟩
    have hmore : steps reorderNs (n + last) (start items) =
        ((leaving reorderNs items).map Item.element, .finished) := by
      rw [Nat.add_comm, steps_add, hlast, steps_finished, List.append_nil]
    rw [steps_add] at hmore
    exact ⟨_, (Prod.mk.inj hmore).1⟩
  · intro n
    have hok := (@ok_start E reorderNs items).steps n
    constructor
    · intro v rest hmoment
      rw [hmoment] at hok
      obtain ⟨-, hpast, taken, hitems, hmark⟩ := hok
      exact ⟨taken, hitems, fun entry hentry => by rw [← hmark]; exact hpast entry hentry⟩
    · intro v hmoment
      rw [hmoment] at hok
      obtain ⟨-, hpast, hmark⟩ := hok
      exact fun entry hentry => by rw [← hmark]; exact hpast entry hentry

/-- The second item is behind the first, and the arrival of the third behind its own time. -/
def lateItems : List (Item ℤ) := [⟨7, 0, 7⟩, ⟨5, 6, 5⟩, ⟨9, 100, 9⟩]

theorem reorder_bounded_late :
    ∃ order : List (Item ℤ), order.Perm lateItems ∧ order.Pairwise fun x y => x.tNs ≤ y.tNs := by
  have hbudget : InBudget 1 lateItems := by
    intro front x back hsplit hfront
    match front with
    | [] => exact absurd rfl hfront
    | [a] =>
        cases hsplit
        decide
    | [a, b] =>
        cases hsplit
        decide
    | a :: b :: c :: front =>
        have hlength := congrArg List.length hsplit
        simp [lateItems] at hlength
  obtain ⟨order, hperm, -, hordered, -⟩ := (reorder_bounded 1 lateItems).1
  exact ⟨order, hperm, hordered hbudget⟩

/-- Two items of an early arrival, the second of an earlier time. -/
def earlyItems : List (Item ℤ) := [⟨-50, -100, -50⟩, ⟨-80, -100, -80⟩]

/-- Two items of one arrival, and one whose arrival carries the cutoff over both. -/
def jumpItems : List (Item ℤ) := [⟨1, 0, 1⟩, ⟨2, 0, 2⟩, ⟨3, 10, 3⟩]

/-- The watermark begins at zero and not at the first arrival, and the heap holds what is due
while it is released. -/
theorem reorder_before_zero :
    ((∀ a ∈ earlyItems, ∀ x ∈ earlyItems, a.arrivalNs - 10 ≤ x.tNs) ∧
      steps 10 8 (start earlyItems) = ([-50, -80], .finished)) ∧
    ∃ v, steps 0 6 (start jumpItems) = ([1], .releasing v []) ∧
      ∃ entry ∈ v.heap, ∃ a ∈ jumpItems, entry.tNs ≤ a.arrivalNs - 0 := by
  refine ⟨⟨by decide, by decide +kernel⟩, ⟨[⟨2, 1, 2⟩, ⟨3, 2, 3⟩], 3, 10⟩, by decide +kernel,
    ⟨2, 1, 2⟩, by decide, ⟨3, 10, 3⟩, by decide, by decide⟩

end VisioSchema.Reader.Reordering

import Mathlib.Data.List.Basic
import Mathlib.Data.List.Pairwise
import VisioSchema.Library.Timeline

/-!
# Pruned histories

A history in order of time, its oldest elements discarded while two at or before some instant
remain.  The pruned history and the full one share an end (`Agrees`); from the oldest element
of that end on, a lookup finds the same in both, whatever is inserted into both later.
-/

namespace VisioSchema.Library

variable {α τ : Type*} [LinearOrder τ] (time : α → τ)

/-- In order of time; several elements may have one time. -/
def Chronological (l : List α) : Prop := l.Pairwise fun a b => time a ≤ time b

/-- The elements up to an instant. -/
def upTo (t : τ) (l : List α) : List α := l.takeWhile fun a => decide (time a ≤ t)

/-- The elements after an instant. -/
def after (t : τ) (l : List α) : List α := l.dropWhile fun a => decide (time a ≤ t)

/-- An element at its place, behind those of the same time. -/
def insort (e : α) (l : List α) : List α := upTo time (time e) l ++ e :: after time (time e) l

/-- The oldest elements discarded, while two at or before an instant remain. -/
def retain (t : τ) : List α → List α
  | a :: b :: c :: rest => if time c ≤ t then retain t (b :: c :: rest) else a :: b :: c :: rest
  | l => l

/-- The kept history and the full one: the same if nothing was discarded, else with a common
end of two elements or more, the oldest of which is at or before the floor. -/
def Agrees (full kept : List α) : Option τ → Prop
  | none => kept = full
  | some floor => ∃ lost held c rest, full = lost ++ c :: rest ∧ kept = held ++ c :: rest ∧
      rest ≠ [] ∧ time c ≤ floor

variable {time}

theorem upTo_cons_of_le {t : τ} {c : α} (rest : List α) (hc : time c ≤ t) :
    upTo time t (c :: rest) = c :: upTo time t rest := by
  simp [upTo, hc]

theorem upTo_cons_of_lt {t : τ} {c : α} (rest : List α) (hc : t < time c) :
    upTo time t (c :: rest) = [] := by
  simp [upTo, hc]

theorem after_cons_of_le {t : τ} {c : α} (rest : List α) (hc : time c ≤ t) :
    after time t (c :: rest) = after time t rest := by
  simp [after, hc]

theorem after_cons_of_lt {t : τ} {c : α} (rest : List α) (hc : t < time c) :
    after time t (c :: rest) = c :: rest := by
  simp [after, hc]

/-! ## Lookups in a history with a common end -/

theorem upTo_append {l : List α} {c : α} {rest : List α} {t : τ}
    (hl : Chronological time (l ++ c :: rest)) (hc : time c ≤ t) :
    upTo time t (l ++ c :: rest) = l ++ c :: upTo time t rest := by
  have hall : ∀ a ∈ l, decide (time a ≤ t) = true := by
    intro a ha
    have hac := (List.pairwise_append.mp hl).2.2 a ha c (List.mem_cons_self ..)
    exact decide_eq_true (hac.trans hc)
  rw [upTo, List.takeWhile_append_of_pos hall, ← upTo, upTo_cons_of_le rest hc]

theorem after_append {l : List α} {c : α} {rest : List α} {t : τ}
    (hl : Chronological time (l ++ c :: rest)) (hc : time c ≤ t) :
    after time t (l ++ c :: rest) = after time t rest := by
  have hall : ∀ a ∈ l, decide (time a ≤ t) = true := by
    intro a ha
    have hac := (List.pairwise_append.mp hl).2.2 a ha c (List.mem_cons_self ..)
    exact decide_eq_true (hac.trans hc)
  rw [after, List.dropWhile_append_of_pos hall, ← after, after_cons_of_le rest hc]

section Lookup

variable {full kept : List α} {floor : Option τ} {t : τ}

/-- The last element up to an instant at or above the floor. -/
theorem Agrees.upTo_getLast? (hagrees : Agrees time full kept floor)
    (hfull : Chronological time full) (hkept : Chronological time kept)
    (hfloor : ∀ f ∈ floor, f ≤ t) : (upTo time t kept).getLast? = (upTo time t full).getLast? := by
  cases floor with
  | none => rw [show kept = full from hagrees]
  | some f =>
      obtain ⟨lost, held, c, rest, rfl, rfl, -, hc⟩ := hagrees
      have hct := hc.trans (hfloor f rfl)
      rw [upTo_append hfull hct, upTo_append hkept hct, List.getLast?_append_cons,
        List.getLast?_append_cons]

theorem Agrees.after_eq (hagrees : Agrees time full kept floor)
    (hfull : Chronological time full) (hkept : Chronological time kept)
    (hfloor : ∀ f ∈ floor, f ≤ t) : after time t kept = after time t full := by
  cases floor with
  | none => rw [show kept = full from hagrees]
  | some f =>
      obtain ⟨lost, held, c, rest, rfl, rfl, -, hc⟩ := hagrees
      have hct := hc.trans (hfloor f rfl)
      rw [after_append hfull hct, after_append hkept hct]

/-- The last element but one. -/
theorem Agrees.dropLast_getLast? (hagrees : Agrees time full kept floor) :
    kept.dropLast.getLast? = full.dropLast.getLast? := by
  cases floor with
  | none => rw [show kept = full from hagrees]
  | some f =>
      obtain ⟨lost, held, c, rest, rfl, rfl, hrest, -⟩ := hagrees
      rw [List.dropLast_append_of_ne_nil (List.cons_ne_nil c rest),
        List.dropLast_append_of_ne_nil (List.cons_ne_nil c rest),
        List.dropLast_cons_of_ne_nil hrest, List.getLast?_append_cons, List.getLast?_append_cons]

end Lookup

/-! ## Insertions -/

theorem Chronological.after_gt {l : List α} (hl : Chronological time l) {t : τ} {a : α}
    (ha : a ∈ after time t l) : t < time a := by
  have hsplit : l.Pairwise fun a b => decide (time b ≤ t) = true → decide (time a ≤ t) = true := by
    refine hl.imp fun hab hb => ?_
    simp only [decide_eq_true_eq] at hb ⊢
    exact hab.trans hb
  rw [after, dropWhile_eq_filter hsplit] at ha
  simpa using (List.mem_filter.mp ha).2

theorem Chronological.insort {l : List α} (hl : Chronological time l) (e : α) :
    Chronological time (insort time e l) := by
  have hsplit : upTo time (time e) l ++ after time (time e) l = l := List.takeWhile_append_dropWhile
  have hbefore : ∀ a ∈ upTo time (time e) l, time a ≤ time e :=
    fun a ha => by simpa using List.mem_takeWhile_imp ha
  have hafter : ∀ a ∈ after time (time e) l, time e ≤ time a := fun a ha => (hl.after_gt ha).le
  rw [← hsplit, Chronological, List.pairwise_append] at hl
  refine List.pairwise_append.mpr ⟨hl.1, List.pairwise_cons.mpr ⟨hafter, hl.2.1⟩, ?_⟩
  intro a ha b hb
  rcases List.mem_cons.mp hb with rfl | hb
  · exact hbefore a ha
  · exact hl.2.2 a ha b hb

/-- An element not older than the last goes to the end. -/
theorem insort_of_forall_le {l : List α} {e : α} (hl : ∀ a ∈ l, time a ≤ time e) :
    insort time e l = l ++ [e] := by
  have hall : ∀ a ∈ l, decide (time a ≤ time e) = true := fun a ha => decide_eq_true (hl a ha)
  have htake : l.takeWhile (fun a => decide (time a ≤ time e)) = l :=
    List.takeWhile_eq_self_iff.mpr hall
  have hdrop : l.dropWhile (fun a => decide (time a ≤ time e)) = [] :=
    List.dropWhile_eq_nil_iff.mpr hall
  rw [insort, upTo, after, htake, hdrop]

theorem insort_append_of_le {l : List α} {c e : α} {rest : List α}
    (hl : Chronological time (l ++ c :: rest)) (hc : time c ≤ time e) :
    insort time e (l ++ c :: rest) = l ++ c :: insort time e rest := by
  rw [insort, upTo_append hl hc, after_append hl hc, insort]
  simp

theorem insort_append_of_lt {l : List α} {c e : α} {rest : List α} (hc : time e < time c) :
    insort time e (l ++ c :: rest) = insort time e l ++ c :: rest := by
  have htake : upTo time (time e) (l ++ c :: rest) = upTo time (time e) l := by
    have hnone : List.takeWhile (fun a => decide (time a ≤ time e)) (c :: rest) = [] :=
      upTo_cons_of_lt rest hc
    rw [upTo, upTo, List.takeWhile_append, hnone]
    split
    · rename_i hwhole
      rw [List.append_nil]
      exact ((List.takeWhile_prefix _).eq_of_length hwhole).symm
    · rfl
  have hdrop : after time (time e) (l ++ c :: rest) = after time (time e) l ++ c :: rest := by
    have hall : List.dropWhile (fun a => decide (time a ≤ time e)) (c :: rest) = c :: rest :=
      after_cons_of_lt rest hc
    rw [after, after, List.dropWhile_append, hall]
    split
    · rename_i hnone
      rw [List.isEmpty_iff.mp hnone, List.nil_append]
    · rfl
  rw [insort, htake, hdrop, insort, List.append_assoc, List.cons_append]

theorem Agrees.insort {full kept : List α} {floor : Option τ}
    (hagrees : Agrees time full kept floor) (hfull : Chronological time full)
    (hkept : Chronological time kept) (e : α) :
    Agrees time (insort time e full) (insort time e kept) floor := by
  cases floor with
  | none =>
      show VisioSchema.Library.insort time e kept = _
      rw [show kept = full from hagrees]
  | some f =>
      obtain ⟨lost, held, c, rest, rfl, rfl, hrest, hc⟩ := hagrees
      rcases lt_or_ge (time e) (time c) with hlt | hge
      · exact ⟨_, _, c, rest, insort_append_of_lt hlt, insort_append_of_lt hlt, hrest, hc⟩
      · refine ⟨lost, held, c, _, insort_append_of_le hfull hge, insort_append_of_le hkept hge,
          ?_, hc⟩
        simp [VisioSchema.Library.insort]

/-! ## Discarding -/

/-- What a discard leaves: an end of the history, with two elements at or before the instant
if anything was discarded. -/
theorem retain_eq (t : τ) (l : List α) : ∃ lost, l = lost ++ retain time t l ∧
    (lost ≠ [] → ∃ b c rest, retain time t l = b :: c :: rest ∧ time c ≤ t) := by
  induction l using retain.induct time t with
  | case1 a b c rest hc ih =>
      obtain ⟨lost, heq, hkept⟩ := ih
      rw [retain, if_pos hc]
      refine ⟨a :: lost, by rw [List.cons_append, ← heq], fun _ => ?_⟩
      by_cases hlost : lost = []
      · rw [hlost, List.nil_append] at heq
        exact ⟨b, c, rest, heq.symm, hc⟩
      · exact hkept hlost
  | case2 a b c rest hc =>
      rw [retain, if_neg hc]
      exact ⟨[], rfl, fun hne => absurd rfl hne⟩
  | case3 l hshort =>
      have hsame : retain time t l = l := by
        unfold retain
        split
        · exact absurd rfl (hshort _ _ _ _)
        · rfl
      rw [hsame]
      exact ⟨[], rfl, fun hne => absurd rfl hne⟩

variable (time) in
/-- The floor after a discard: the oldest element kept, if anything was discarded. -/
def floorOf (floor : Option τ) (before kept : List α) : Option τ :=
  if kept.length < before.length then
    match kept with
    | c :: _ => some (match floor with | some f => max f (time c) | none => time c)
    | [] => floor
  else floor

theorem floorOf_of_kept {floor : Option τ} {before kept : List α}
    (hsame : kept.length = before.length) : floorOf time floor before kept = floor := by
  unfold floorOf
  rw [if_neg (by omega)]

/-- A discard keeps the agreement. -/
theorem Agrees.retain {full kept : List α} {floor : Option τ} (t : τ)
    (hagrees : Agrees time full kept floor) :
    Agrees time full (retain time t kept) (floorOf time floor kept (retain time t kept)) := by
  obtain ⟨lost', heq, hleft⟩ :
      ∃ lost', kept = lost' ++ VisioSchema.Library.retain time t kept ∧ _ := retain_eq t kept
  by_cases hnone : lost' = []
  · rw [hnone, List.nil_append] at heq
    rw [← heq, floorOf_of_kept rfl]
    exact hagrees
  obtain ⟨b, c', rest', hretain, -⟩ := hleft hnone
  rw [hretain] at heq ⊢
  have hshort : (b :: c' :: rest').length < kept.length := by
    rw [heq, List.length_append]
    have := List.length_pos_iff.mpr hnone
    omega
  unfold floorOf
  rw [if_pos hshort]
  cases floor with
  | none =>
      have hsame : kept = full := hagrees
      exact ⟨lost', [], b, c' :: rest', by rw [← hsame, heq], rfl, List.cons_ne_nil _ _, le_refl _⟩
  | some f =>
      obtain ⟨lost, held, c, rest, rfl, hheld, hrest, hc⟩ := hagrees
      rcases List.append_eq_append_iff.mp (hheld.symm.trans heq) with
        ⟨more, hmore, hend⟩ | ⟨more, hmore, hend⟩
      · -- the discard reaches into the common end, or just to it
        cases more with
        | nil =>
            rw [List.nil_append, List.cons.injEq] at hend
            obtain ⟨rfl, hend⟩ := hend
            exact ⟨lost, [], c, rest, rfl, by rw [hend]; rfl, hrest, hc.trans (le_max_left _ _)⟩
        | cons d more =>
            rw [List.cons_append, List.cons.injEq] at hend
            obtain ⟨rfl, hend⟩ := hend
            refine ⟨lost ++ c :: more, [], b, c' :: rest', ?_, rfl, List.cons_ne_nil _ _,
              le_max_right _ _⟩
            rw [hend, List.append_assoc, List.cons_append]
      · exact ⟨lost, more, c, rest, rfl, hend, hrest, hc.trans (le_max_left _ _)⟩

/-- What the old floor and the instant of a discard are not above, the new floor is not. -/
theorem floorOf_le {kept : List α} {floor : Option τ} {t x : τ}
    (hkept : Chronological time kept) (hfloor : ∀ f ∈ floor, f ≤ x) (ht : t ≤ x) :
    ∀ f ∈ floorOf time floor kept (retain time t kept), f ≤ x := by
  obtain ⟨lost', heq, hleft⟩ : ∃ lost', kept = lost' ++ retain time t kept ∧ _ := retain_eq t kept
  by_cases hnone : lost' = []
  · rw [hnone, List.nil_append] at heq
    rw [← heq, floorOf_of_kept rfl]
    exact hfloor
  obtain ⟨b, c', rest', hretain, hc'⟩ := hleft hnone
  rw [hretain] at heq ⊢
  have hb : time b ≤ x := by
    rw [heq, Chronological, List.pairwise_append, List.pairwise_cons] at hkept
    calc time b
        _ ≤ time c' := hkept.2.1.1 c' (List.mem_cons_self ..)
        _ ≤ t := hc'
        _ ≤ x := ht
  unfold floorOf
  split
  · rintro f' ⟨⟩
    cases floor with
    | none => exact hb
    | some f => exact max_le (hfloor f rfl) hb
  · exact hfloor

theorem Chronological.retain {l : List α} (hl : Chronological time l) (t : τ) :
    Chronological time (retain time t l) := by
  obtain ⟨lost, heq, -⟩ : ∃ lost, l = lost ++ VisioSchema.Library.retain time t l ∧ _ :=
    retain_eq t l
  rw [heq, Chronological, List.pairwise_append] at hl
  exact hl.2.1

end VisioSchema.Library

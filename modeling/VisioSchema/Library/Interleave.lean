import Mathlib.Data.List.Basic
import Mathlib.Data.List.Pairwise
import Mathlib.Order.Lattice
import VisioSchema.Library.Generators

/-!
# Interleaving lists

Several lists are merged by the least of their heads, an earlier list first among equals, whether
they are in order or not.  What holds of each list between an element and those behind it then
holds of the merged list.  Generators are merged the same way; one that raises as soon as its
next item is asked for stops them all.
-/

namespace VisioSchema.Library

variable {α : Type*} (le : α → α → Bool)

/-- The head of the left list goes before the first element of the right one that it is at most,
and lets the rest follow. -/
def headBefore (a : α) (rest : List α → List α) : List α → List α
  | [] => a :: rest []
  | b :: r => if le a b then a :: rest (b :: r) else b :: headBefore a rest r

/-- Two lists merged: the left head goes first if it is at most the right one. -/
def interleave : List α → List α → List α
  | [] => id
  | a :: l => headBefore le a (interleave l)

/-- Any number of lists merged. -/
def interleaveAll (lists : List (List α)) : List α := lists.foldr (interleave le) []

variable {le}

@[simp] theorem nil_interleave (r : List α) : interleave le [] r = r := rfl

@[simp] theorem interleave_nil (l : List α) : interleave le l [] = l := by
  induction l with
  | nil => rfl
  | cons a l ih => exact congrArg (a :: ·) ih

theorem interleave_cons_of_le {a b : α} (l r : List α) (hab : le a b = true) :
    interleave le (a :: l) (b :: r) = a :: interleave le l (b :: r) :=
  if_pos hab

theorem interleave_cons_of_gt {a b : α} (l r : List α) (hab : le a b = false) :
    interleave le (a :: l) (b :: r) = b :: interleave le (a :: l) r :=
  if_neg (by simp [hab])

variable (le) in
/-- Induction over two lists that give their heads up in turn. -/
theorem interleave_induct {P : List α → List α → Prop} (hleft : ∀ r, P [] r)
    (hright : ∀ l, P l [])
    (hle : ∀ a l b r, le a b = true → P l (b :: r) → P (a :: l) (b :: r))
    (hgt : ∀ a l b r, le a b = false → P (a :: l) r → P (a :: l) (b :: r)) (l r : List α) :
    P l r := by
  induction l generalizing r with
  | nil => exact hleft r
  | cons a l ihl =>
      induction r with
      | nil => exact hright (a :: l)
      | cons b r ihr =>
          cases hab : le a b with
          | true => exact hle a l b r hab (ihl (b :: r))
          | false => exact hgt a l b r hab ihr

theorem interleave_perm (l r : List α) : (interleave le l r).Perm (l ++ r) := by
  induction l, r using interleave_induct le with
  | hleft r => exact List.Perm.refl r
  | hright l => simp
  | hle a l b r hab ih =>
      rw [interleave_cons_of_le l r hab]
      exact ih.cons a
  | hgt a l b r hab ih =>
      rw [interleave_cons_of_gt l r hab]
      exact (ih.cons b).trans List.perm_middle.symm

/-- A relation that lists keep within themselves, and that a smaller head passes on, holds of the
merged list. -/
theorem pairwise_interleave {R : α → α → Prop} (htotal : ∀ a b, le a b = false → le b a = true)
    (hle : ∀ a b, le a b = true → R a b) (hpass : ∀ a b c, le a b = true → R b c → R a c)
    {l r : List α} (hl : l.Pairwise R) (hr : r.Pairwise R) : (interleave le l r).Pairwise R := by
  induction l, r using interleave_induct le with
  | hleft r => simpa using hr
  | hright l => simpa using hl
  | hle a l b r hab ih =>
      rw [interleave_cons_of_le l r hab]
      refine List.pairwise_cons.mpr ⟨fun c hc => ?_, ih (List.pairwise_cons.mp hl).2 hr⟩
      rcases List.mem_append.mp ((interleave_perm l (b :: r)).mem_iff.mp hc) with hc | hc
      · exact (List.pairwise_cons.mp hl).1 c hc
      · rcases List.mem_cons.mp hc with rfl | hc
        · exact hle a c hab
        · exact hpass a b c hab ((List.pairwise_cons.mp hr).1 c hc)
  | hgt a l b r hab ih =>
      have hba : le b a = true := htotal a b hab
      rw [interleave_cons_of_gt l r hab]
      refine List.pairwise_cons.mpr ⟨fun c hc => ?_, ih hl (List.pairwise_cons.mp hr).2⟩
      rcases List.mem_append.mp ((interleave_perm (a :: l) r).mem_iff.mp hc) with hc | hc
      · rcases List.mem_cons.mp hc with rfl | hc
        · exact hle b c hba
        · exact hpass b a c hba ((List.pairwise_cons.mp hl).1 c hc)
      · exact (List.pairwise_cons.mp hr).1 c hc

/-- Merging commutes with a map that keeps the comparison. -/
theorem map_interleave {β : Type*} {f : α → β} {le' : β → β → Bool}
    (hf : ∀ a b, le' (f a) (f b) = le a b) (l r : List α) :
    (interleave le l r).map f = interleave le' (l.map f) (r.map f) := by
  induction l, r using interleave_induct le with
  | hleft r => simp
  | hright l => simp
  | hle a l b r hab ih =>
      rw [interleave_cons_of_le l r hab, List.map_cons, ih, List.map_cons, List.map_cons]
      exact (interleave_cons_of_le _ _ ((hf a b).trans hab)).symm
  | hgt a l b r hab ih =>
      rw [interleave_cons_of_gt l r hab, List.map_cons, ih, List.map_cons, List.map_cons]
      exact (interleave_cons_of_gt _ _ ((hf a b).trans hab)).symm

/-! ## Any number of lists -/

@[simp] theorem interleaveAll_nil : interleaveAll le ([] : List (List α)) = [] := rfl

@[simp] theorem interleaveAll_cons (l : List α) (lists : List (List α)) :
    interleaveAll le (l :: lists) = interleave le l (interleaveAll le lists) := rfl

theorem interleaveAll_perm (lists : List (List α)) :
    (interleaveAll le lists).Perm lists.flatten := by
  induction lists with
  | nil => exact List.Perm.refl _
  | cons l lists ih => exact (interleave_perm l _).trans (ih.append_left l)

theorem pairwise_interleaveAll {R : α → α → Prop} (htotal : ∀ a b, le a b = false → le b a = true)
    (hle : ∀ a b, le a b = true → R a b) (hpass : ∀ a b c, le a b = true → R b c → R a c)
    {lists : List (List α)} (hlists : ∀ l ∈ lists, l.Pairwise R) :
    (interleaveAll le lists).Pairwise R := by
  induction lists with
  | nil => exact List.Pairwise.nil
  | cons l lists ih =>
      have hrest := ih fun r hr => hlists r (List.mem_cons_of_mem l hr)
      exact pairwise_interleave htotal hle hpass (hlists l (List.mem_cons_self ..)) hrest

theorem map_interleaveAll {β : Type*} {f : α → β} {le' : β → β → Bool}
    (hf : ∀ a b, le' (f a) (f b) = le a b) (lists : List (List α)) :
    (interleaveAll le lists).map f = interleaveAll le' (lists.map (List.map f)) := by
  induction lists with
  | nil => rfl
  | cons l lists ih =>
      rw [List.map_cons, interleaveAll_cons, interleaveAll_cons, map_interleave hf, ih]

/-! ## Generators -/

namespace Gen

variable {ε σ κ : Type*} [LinearOrder κ] (key : α → κ)

/-- What a generator raises, if it does. -/
def raised : Except ε σ → List (α ⊕ ε)
  | .error e => [.inr e]
  | .ok _ => []

/-- What asking a generator for the next item brings, time after time. -/
def events (g : Gen α ε σ) : List (α ⊕ ε) := g.items.map .inl ++ raised g.result

/-- The items up to the first exception. -/
def ofEvents (s : σ) : List (α ⊕ ε) → Gen α ε σ
  | [] => done s
  | .inl a :: rest => (yield [a] s).andThen fun s => ofEvents s rest
  | .inr e :: _ => raise e

/-- An exception comes before every item: it is raised when the item is asked for. -/
def comesFirst : α ⊕ ε → α ⊕ ε → Bool
  | .inr _, _ => true
  | .inl _, .inr _ => false
  | .inl a, .inl b => decide (key a ≤ key b)

/-- Generators merged by a key. -/
def merge (gens : List (Gen α ε Unit)) : Gen α ε Unit :=
  ofEvents () (interleaveAll (comesFirst key) (gens.map events))

variable {key}

theorem comesFirst_total (x y : α ⊕ ε) (hxy : comesFirst key x y = false) :
    comesFirst key y x = true := by
  rcases x with a | e
  · rcases y with b | e'
    · have hab : ¬key a ≤ key b := by simpa [comesFirst] using hxy
      simpa [comesFirst] using (not_le.mp hab).le
    · rfl
  · cases hxy

theorem ofEvents_map_inl (s : σ) (l : List α) :
    (ofEvents s (l.map .inl) : Gen α ε σ) = yield l s := by
  induction l with
  | nil => rfl
  | cons a rest ih =>
      rw [List.map_cons, ofEvents, (returns_yield [a] s).andThen_eq, ih]
      rfl

/-- The items of a trace are, one by one, items of it. -/
theorem ofEvents_sublist (s : σ) (trace : List (α ⊕ ε)) :
    ((ofEvents s trace).items.map Sum.inl).Sublist trace := by
  induction trace with
  | nil => exact List.Sublist.refl _
  | cons event rest ih =>
      cases event with
      | inl a =>
          rw [ofEvents, (returns_yield [a] s).andThen_eq]
          exact ih.cons_cons _
      | inr e => exact List.nil_sublist _

/-- A trace without an exception is its items. -/
theorem eq_map_of_returns {s t : σ} {trace : List (α ⊕ ε)}
    (hreturns : (ofEvents s trace).Returns t) : trace = (ofEvents s trace).items.map .inl := by
  induction trace with
  | nil => rfl
  | cons event rest ih =>
      cases event with
      | inl a =>
          rw [ofEvents, (returns_yield [a] s).andThen_eq] at hreturns ⊢
          exact congrArg (Sum.inl a :: ·) (ih hreturns)
      | inr e => cases hreturns

theorem returns_of_events {g : Gen α ε Unit} (hnone : ∀ e, Sum.inr e ∉ g.events) :
    g.Returns () := by
  cases hresult : g.result with
  | ok s => exact hresult
  | error e =>
      refine absurd ?_ (hnone e)
      rw [events, hresult]
      exact List.mem_append_right _ (List.mem_cons_self ..)

theorem events_of_returns {g : Gen α ε Unit} (hreturns : g.Returns ()) :
    g.events = g.items.map .inl := by
  rw [events, show g.result = .ok () from hreturns]
  exact List.append_nil _

/-- Generators that all return are merged as their items are. -/
theorem merge_of_returns {gens : List (Gen α ε Unit)} (hreturns : ∀ g ∈ gens, g.Returns ()) :
    merge key gens =
      yield (interleaveAll (fun a b => decide (key a ≤ key b)) (gens.map items)) () := by
  have hevents : gens.map events = (gens.map items).map (List.map Sum.inl) := by
    rw [List.map_map]
    exact List.map_congr_left fun g hg => events_of_returns (hreturns g hg)
  have hsame : ∀ a b : α,
      comesFirst key (.inl a : α ⊕ ε) (.inl b) = (fun a b => decide (key a ≤ key b)) a b :=
    fun _ _ => rfl
  rw [merge, hevents, ← map_interleaveAll hsame]
  exact ofEvents_map_inl () _

/-- Generators that all return lose nothing in their merge. -/
theorem merge_perm {gens : List (Gen α ε Unit)} (hreturns : ∀ g ∈ gens, g.Returns ()) :
    (merge key gens).items.Perm (gens.flatMap items) := by
  rw [merge_of_returns hreturns, List.flatMap_def]
  exact interleaveAll_perm _

/-- A merge returns only if all of its generators do. -/
theorem returns_of_merge {gens : List (Gen α ε Unit)} (hmerge : (merge key gens).Returns ())
    {g : Gen α ε Unit} (hg : g ∈ gens) : g.Returns () := by
  refine returns_of_events fun e he => ?_
  have hmem : Sum.inr e ∈ interleaveAll (comesFirst key) (gens.map events) := by
    refine (interleaveAll_perm _).mem_iff.mpr (List.mem_flatten.mpr ⟨g.events, ?_, he⟩)
    exact List.mem_map_of_mem hg
  rw [eq_map_of_returns hmerge] at hmem
  obtain ⟨a, -, ha⟩ := List.mem_map.mp hmem
  cases ha

/-- A relation between items that holds in every generator, and that a smaller key passes on,
holds in their merge, raised or not. -/
theorem pairwise_merge {R : α → α → Prop} (hkey : ∀ a b, key a ≤ key b → R a b)
    (hpass : ∀ a b c, key a ≤ key b → R b c → R a c) {gens : List (Gen α ε Unit)}
    (hgens : ∀ g ∈ gens, g.items.Pairwise R) : (merge key gens).items.Pairwise R := by
  -- the relation on traces says nothing about exceptions
  let S : α ⊕ ε → α ⊕ ε → Prop := fun x y => ∀ a b, x = .inl a → y = .inl b → R a b
  have hleft : ∀ x y : α ⊕ ε, comesFirst key x y = true → ∀ a, x = .inl a →
      ∃ b, y = .inl b ∧ key a ≤ key b := by
    intro x y hxy a hx
    subst hx
    cases y with
    | inl b => exact ⟨b, rfl, by simpa [comesFirst] using hxy⟩
    | inr e => cases hxy
  have htrace : (interleaveAll (comesFirst key) (gens.map events)).Pairwise S := by
    refine pairwise_interleaveAll comesFirst_total ?_ ?_ ?_
    · intro x y hxy a b hx hy
      obtain ⟨b', hb', hab⟩ := hleft x y hxy a hx
      cases hy.symm.trans hb'
      exact hkey a b hab
    · intro x y z hxy hyz a c hx hz
      obtain ⟨b, hb, hab⟩ := hleft x y hxy a hx
      exact hpass a b c hab (hyz b c hb hz)
    · intro trace htrace
      obtain ⟨g, hg, rfl⟩ := List.mem_map.mp htrace
      refine List.pairwise_append.mpr ⟨?_, ?_, ?_⟩
      · refine List.pairwise_map.mpr ((hgens g hg).imp fun {a b} hab c d hc hd => ?_)
        cases hc
        cases hd
        exact hab
      · cases g.result with
        | ok s => exact List.Pairwise.nil
        | error e => exact List.pairwise_singleton ..
      · intro x _ y hy a b _ hb
        cases hresult : g.result with
        | ok s =>
            rw [hresult] at hy
            cases hy
        | error e =>
            rw [hresult] at hy
            rw [List.mem_singleton.mp hy] at hb
            cases hb
  have hitems := htrace.sublist (ofEvents_sublist () _)
  exact (List.pairwise_map.mp hitems).imp fun {a b} hab => hab a b rfl rfl

/-- The items of a merge are items of its generators. -/
theorem mem_of_mem_merge {gens : List (Gen α ε Unit)} {a : α} (ha : a ∈ (merge key gens).items) :
    ∃ g ∈ gens, a ∈ g.items := by
  have hmem : Sum.inl a ∈ interleaveAll (comesFirst key) (gens.map events) :=
    (ofEvents_sublist () _).subset (List.mem_map_of_mem ha)
  obtain ⟨trace, htrace, hin⟩ := List.mem_flatten.mp ((interleaveAll_perm _).mem_iff.mp hmem)
  obtain ⟨g, hg, rfl⟩ := List.mem_map.mp htrace
  refine ⟨g, hg, ?_⟩
  rcases List.mem_append.mp hin with hin | hin
  · obtain ⟨b, hb, hab⟩ := List.mem_map.mp hin
    exact Sum.inl.inj hab ▸ hb
  · cases hresult : g.result with
    | ok s =>
        rw [hresult] at hin
        cases hin
    | error e =>
        rw [hresult] at hin
        cases List.mem_singleton.mp hin

end Gen

end VisioSchema.Library

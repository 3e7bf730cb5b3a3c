import Mathlib.Data.List.Basic
import Mathlib.Logic.Function.Basic

/-!
# Machines that drain queues

A machine takes turns on a family of queues, one for each key.  A turn looks at the fronts of the
queues only: what it does does not change when more is appended behind (`Extends`).  Such a
machine that is fed element by element, and turns as often as it can after each, yields what it
yields on the whole queues at once: the order in which the keys were fed leaves no trace
(`Feeds.drains`).
-/

namespace VisioSchema.Library

variable {κ α ω : Type*}

/-- A turn on the queues: what it yields and what it leaves, or that there is none. -/
abbrev Turn (κ α ω : Type*) := (κ → List α) → Option (List ω × (κ → List α))

/-- More at the ends of the queues changes no turn. -/
def Extends (turn : Turn κ α ω) : Prop :=
  ∀ q q' outs, turn q = some (outs, q') → ∀ more : κ → List α,
    turn (fun k => q k ++ more k) = some (outs, fun k => q' k ++ more k)

/-- The machine turns until it is stuck. -/
inductive Drains (turn : Turn κ α ω) : (κ → List α) → List ω → (κ → List α) → Prop
  | stuck {q : κ → List α} (hstuck : turn q = none) : Drains turn q [] q
  | turn {q q₁ q₂ : κ → List α} {first rest : List ω} (hturn : turn q = some (first, q₁))
      (hrest : Drains turn q₁ rest q₂) : Drains turn q (first ++ rest) q₂

/-- The machine is fed, and drains its queues after every element. -/
inductive Feeds [DecidableEq κ] (turn : Turn κ α ω) :
    (κ → List α) → List (κ × α) → List ω → (κ → List α) → Prop
  | done (q : κ → List α) : Feeds turn q [] [] q
  | feed {q q₁ q₂ : κ → List α} {key : κ} {a : α} {items : List (κ × α)} {first rest : List ω}
      (hdrains : Drains turn (Function.update q key (q key ++ [a])) first q₁)
      (hrest : Feeds turn q₁ items rest q₂) : Feeds turn q ((key, a) :: items) (first ++ rest) q₂

/-- The queue of one key among what is fed. -/
def queueOf [DecidableEq κ] (items : List (κ × α)) (key : κ) : List α :=
  items.filterMap fun item => if item.1 = key then some item.2 else none

section Rules

variable {turn : Turn κ α ω} {q q₁ q₂ q₃ : κ → List α} {outs outs' : List ω}

/-- Draining leaves the machine stuck. -/
theorem Drains.final (hdrains : Drains turn q outs q₁) : turn q₁ = none := by
  induction hdrains with
  | stuck hstuck => exact hstuck
  | turn _ _ ih => exact ih

/-- A machine has one way to drain its queues. -/
theorem Drains.unique (hdrains : Drains turn q outs q₁) (hother : Drains turn q outs' q₂) :
    outs = outs' ∧ q₁ = q₂ := by
  induction hdrains generalizing outs' with
  | stuck hstuck =>
      cases hother with
      | stuck _ => exact ⟨rfl, rfl⟩
      | turn hturn _ =>
          rw [hstuck] at hturn
          cases hturn
  | turn hturn _ ih =>
      cases hother with
      | stuck hstuck =>
          rw [hstuck] at hturn
          cases hturn
      | turn hturn' hrest' =>
          rw [hturn] at hturn'
          obtain ⟨rfl, rfl⟩ := Prod.mk.inj (Option.some.inj hturn')
          obtain ⟨rfl, rfl⟩ := ih hrest'
          exact ⟨rfl, rfl⟩

/-- To drain, to append and to drain again is to drain all of it. -/
theorem Drains.append (hextends : Extends turn) (hdrains : Drains turn q outs q₁)
    {more : κ → List α} (hmore : Drains turn (fun k => q₁ k ++ more k) outs' q₂) :
    Drains turn (fun k => q k ++ more k) (outs ++ outs') q₂ := by
  induction hdrains with
  | stuck _ => exact hmore
  | turn hturn _ ih =>
      rw [List.append_assoc]
      exact .turn (hextends _ _ _ hturn more) (ih hmore)

variable [DecidableEq κ]

@[simp] theorem queueOf_nil (key : κ) : queueOf ([] : List (κ × α)) key = [] := rfl

theorem queueOf_cons (key : κ) (a : α) (items : List (κ × α)) :
    queueOf ((key, a) :: items) =
      fun k => Function.update (fun _ => []) key [a] k ++ queueOf items k := by
  funext k
  by_cases hk : k = key
  · subst hk
    simp [queueOf]
  · rw [Function.update_of_ne hk]
    simp [queueOf, Ne.symm hk]

/-- What is fed piece by piece is drained as if it had been there from the start. -/
theorem Feeds.drains (hextends : Extends turn) {items : List (κ × α)}
    (hfeeds : Feeds turn q items outs q₁) (hstuck : turn q = none) :
    Drains turn (fun k => q k ++ queueOf items k) outs q₁ := by
  induction hfeeds with
  | done q =>
      simp only [queueOf_nil, List.append_nil]
      exact .stuck hstuck
  | @feed q q₁ q₂ key a items first rest hdrains _ ih =>
      have hsplit : (fun k => q k ++ queueOf ((key, a) :: items) k) =
          fun k => Function.update q key (q key ++ [a]) k ++ queueOf items k := by
        funext k
        rw [queueOf_cons]
        by_cases hk : k = key
        · subst hk
          simp
        · simp [Function.update_of_ne hk]
      rw [hsplit]
      exact hdrains.append hextends (ih hdrains.final)

end Rules

/-! ## What the turns take from the queues -/

section Accounts

variable {turn : Turn κ α ω} {taken : ω → κ → List α} {I : (κ → List α) → Prop}
  {q q' : κ → List α} {outs : List ω}

/-- Turns keep `I`, and what a turn takes from the queues it yields. -/
def Accounts (turn : Turn κ α ω) (taken : ω → κ → List α) (I : (κ → List α) → Prop) : Prop :=
  ∀ q q' outs, I q → turn q = some (outs, q') →
    I q' ∧ ∀ k, q k = (outs.flatMap fun out => taken out k) ++ q' k

theorem Drains.accounts (haccounts : Accounts turn taken I) (hdrains : Drains turn q outs q')
    (hq : I q) (k : κ) : q k = (outs.flatMap fun out => taken out k) ++ q' k := by
  induction hdrains with
  | stuck _ => simp
  | turn hturn _ ih =>
      obtain ⟨hq₁, htaken⟩ := haccounts _ _ _ hq hturn
      rw [htaken k, ih hq₁, List.flatMap_append, List.append_assoc]

/-- What holds of what a turn yields and of the queues that it found, where every turn yields one
thing. -/
theorem Drains.forall (haccounts : Accounts turn taken I) {P : (κ → List α) → ω → Prop}
    (hP : ∀ q q' outs, I q → turn q = some (outs, q') → ∃ out, outs = [out] ∧ P q out)
    (hdrains : Drains turn q outs q') (hq : I q) {before after : List ω} {out : ω}
    (hsplit : outs = before ++ out :: after) :
    ∃ found, (∀ k, q k = (before.flatMap fun out => taken out k) ++ found k) ∧ P found out := by
  induction hdrains generalizing before with
  | stuck _ => simp at hsplit
  | @turn q q₁ q₂ first rest hturn hrest ih =>
      obtain ⟨only, rfl, hfirst⟩ := hP _ _ _ hq hturn
      obtain ⟨hq₁, htaken⟩ := haccounts _ _ _ hq hturn
      cases before with
      | nil =>
          obtain ⟨rfl, -⟩ := List.cons.inj hsplit
          exact ⟨q, fun k => rfl, hfirst⟩
      | cons head before =>
          obtain ⟨rfl, hbehind⟩ := List.cons.inj hsplit
          obtain ⟨found, hfound, hout⟩ := ih hq₁ hbehind
          refine ⟨found, fun k => ?_, hout⟩
          rw [htaken k, hfound k]
          simp

end Accounts

end VisioSchema.Library

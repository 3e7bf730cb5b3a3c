import Mathlib.Data.Nat.Notation

/-!
# Generators that may raise

A generator yields items one by one and then returns, or raises; what it yielded before stays
either way.  A loop around a generator carries a state from one round to the next (`each`).  Where
a generator keeps a queue, what it yields and what it leaves make up what was in the queue
(`Serves`).
-/

namespace VisioSchema.Library

/-- What a generator yields, and what it returns or raises in the end. -/
structure Gen (α ε σ : Type*) where
  items : List α
  result : Except ε σ

namespace Gen

variable {α β ε σ τ : Type*}

/-- Returns at once. -/
def done (s : σ) : Gen α ε σ := ⟨[], .ok s⟩

def raise (e : ε) : Gen α ε σ := ⟨[], .error e⟩

def yield (items : List α) (s : σ) : Gen α ε σ := ⟨items, .ok s⟩

/-- `yield from`: the second generator is reached if the first one returns. -/
def andThen (g : Gen α ε σ) (next : σ → Gen α ε τ) : Gen α ε τ :=
  match g.result with
  | .error e => ⟨g.items, .error e⟩
  | .ok s => ⟨g.items ++ (next s).items, (next s).result⟩

/-- A loop over a list. -/
def each (round : σ → β → Gen α ε σ) (s : σ) : List β → Gen α ε σ
  | [] => done s
  | b :: rest => (round s b).andThen fun s => each round s rest

/-- The generator returns, with `s`. -/
def Returns (g : Gen α ε σ) (s : σ) : Prop := g.result = .ok s

@[simp] theorem items_done (s : σ) : (done s : Gen α ε σ).items = [] := rfl

@[simp] theorem items_raise (e : ε) : (raise e : Gen α ε σ).items = [] := rfl

@[simp] theorem items_yield (items : List α) (s : σ) : (yield items s : Gen α ε σ).items = items :=
  rfl

theorem returns_yield (items : List α) (s : σ) : (yield items s : Gen α ε σ).Returns s := rfl

theorem Returns.unique {g : Gen α ε σ} {s s' : σ} (hs : g.Returns s) (hs' : g.Returns s') :
    s = s' := Except.ok.inj (hs.symm.trans hs')

theorem Returns.andThen_eq {g : Gen α ε σ} {s : σ} (hs : g.Returns s) (next : σ → Gen α ε τ) :
    g.andThen next = ⟨g.items ++ (next s).items, (next s).result⟩ := by
  unfold andThen
  rw [hs]

/-- What raises is not gone beyond. -/
theorem andThen_of_error {g : Gen α ε σ} {e : ε} (he : g.result = .error e)
    (next : σ → Gen α ε τ) : g.andThen next = ⟨g.items, .error e⟩ := by
  unfold andThen
  rw [he]

/-- Both generators return, and their items follow each other. -/
theorem returns_andThen {g : Gen α ε σ} {next : σ → Gen α ε τ} {t : τ} :
    (g.andThen next).Returns t ↔ ∃ s, g.Returns s ∧ (next s).Returns t := by
  cases hresult : g.result with
  | error e =>
      have hraised : (g.andThen next).result = .error e := by
        unfold andThen
        rw [hresult]
      refine ⟨fun hreturns => ?_, fun ⟨s, hs, _⟩ => ?_⟩
      · cases hraised.symm.trans hreturns
      · cases hresult.symm.trans hs
  | ok s =>
      have hs : g.Returns s := hresult
      rw [Returns, hs.andThen_eq next]
      exact ⟨fun hreturns => ⟨s, hs, hreturns⟩, fun ⟨s', hs', hreturns⟩ => hs.unique hs' ▸ hreturns⟩

/-- Items that all have a property, raised or not. -/
theorem andThen_forall {P : α → Prop} {g : Gen α ε σ} {next : σ → Gen α ε τ}
    (hfirst : ∀ a ∈ g.items, P a) (hnext : ∀ s, g.Returns s → ∀ a ∈ (next s).items, P a) :
    ∀ a ∈ (g.andThen next).items, P a := by
  cases hresult : g.result with
  | error e =>
      have hitems : (g.andThen next).items = g.items := by
        unfold andThen
        rw [hresult]
      rwa [hitems]
  | ok s =>
      have hs : g.Returns s := hresult
      rw [hs.andThen_eq next]
      intro a ha
      rcases List.mem_append.mp ha with ha | ha
      · exact hfirst a ha
      · exact hnext s hs a ha

/-- What a generator returns may be replaced. -/
theorem items_andThen_done (g : Gen α ε σ) (f : σ → τ) :
    (g.andThen fun s => (done (f s) : Gen α ε τ)).items = g.items := by
  cases hresult : g.result with
  | error e =>
      unfold andThen
      rw [hresult]
  | ok s =>
      have hs : g.Returns s := hresult
      rw [hs.andThen_eq]
      exact List.append_nil _

/-- Items in an order: those of the first generator are so, those of the second are, and the
first come before the second. -/
theorem andThen_pairwise {R : α → α → Prop} {g : Gen α ε σ} {next : σ → Gen α ε τ}
    (hfirst : g.items.Pairwise R) (hnext : ∀ s, g.Returns s → (next s).items.Pairwise R)
    (hcross : ∀ s, g.Returns s → ∀ a ∈ g.items, ∀ b ∈ (next s).items, R a b) :
    (g.andThen next).items.Pairwise R := by
  cases hresult : g.result with
  | error e =>
      have hitems : (g.andThen next).items = g.items := by
        unfold andThen
        rw [hresult]
      rwa [hitems]
  | ok s =>
      have hs : g.Returns s := hresult
      rw [hs.andThen_eq next]
      exact List.pairwise_append.mpr ⟨hfirst, hnext s hs, hcross s hs⟩

section Loop

variable {round : σ → β → Gen α ε σ}

@[simp] theorem each_nil (s : σ) : each round s [] = done s := rfl

theorem each_cons (s : σ) (b : β) (rest : List β) :
    each round s (b :: rest) = (round s b).andThen fun s => each round s rest := rfl

@[simp] theorem done_andThen (s : σ) (next : σ → Gen α ε τ) : (done s).andThen next = next s := rfl

theorem andThen_assoc {ρ : Type*} (g : Gen α ε σ) (next : σ → Gen α ε τ) (last : τ → Gen α ε ρ) :
    (g.andThen next).andThen last = g.andThen fun s => (next s).andThen last := by
  rcases g with ⟨items, e | s⟩
  · rfl
  · rcases hnext : next s with ⟨more, e | t⟩
    · simp [andThen, hnext]
    · simp [andThen, hnext]

theorem each_append (s : σ) (l r : List β) :
    each round s (l ++ r) = (each round s l).andThen fun s => each round s r := by
  induction l generalizing s with
  | nil => rfl
  | cons b rest ih =>
      rw [List.cons_append, each_cons, each_cons, andThen_assoc]
      exact congrArg _ (funext ih)

/-- A property that every round gives its items. -/
theorem each_forall {P : α → Prop} {l : List β}
    (hround : ∀ s, ∀ b ∈ l, ∀ a ∈ (round s b).items, P a) (s : σ) :
    ∀ a ∈ (each round s l).items, P a := by
  induction l generalizing s with
  | nil => simp
  | cons b rest ih =>
      refine andThen_forall (hround s b (List.mem_cons_self ..)) fun s' _ => ?_
      exact ih (fun t c hc => hround t c (List.mem_cons_of_mem b hc)) s'

/-- Rounds over a list in an order yield items in an order. -/
theorem each_pairwise {P : β → α → Prop} {R : α → α → Prop} {l : List β}
    (hround : ∀ s, ∀ b ∈ l, (round s b).items.Pairwise R ∧ ∀ a ∈ (round s b).items, P b a)
    (hcross : l.Pairwise fun b c => ∀ a a', P b a → P c a' → R a a') (s : σ) :
    (each round s l).items.Pairwise R := by
  induction l generalizing s with
  | nil => exact List.Pairwise.nil
  | cons b rest ih =>
      obtain ⟨hfirst, hrest⟩ := List.pairwise_cons.mp hcross
      have htail : ∀ t, ∀ c ∈ rest, (round t c).items.Pairwise R ∧
          ∀ a ∈ (round t c).items, P c a := fun t c hc => hround t c (List.mem_cons_of_mem b hc)
      obtain ⟨hitems, hall⟩ := hround s b (List.mem_cons_self ..)
      refine andThen_pairwise hitems (fun t _ => ih htail hrest t) ?_
      intro t _ a ha a' ha'
      have hlater : ∃ c ∈ rest, P c a' := by
        refine each_forall (P := fun a' => ∃ c ∈ rest, P c a') ?_ t a' ha'
        exact fun u c hc a'' ha'' => ⟨c, hc, (htail u c hc).2 a'' ha''⟩
      obtain ⟨c, hc, hpc⟩ := hlater
      exact hfirst c hc a a' (hall a ha) hpc

end Loop

/-! ## Queues -/

section Queue

variable {κ : Type*} {key : α → κ} {queue more : List κ} {left : σ → List κ} {left' : τ → List κ}

/-- A generator that serves a queue: what it yields is a first part of the queue, and where it
returns the rest of the queue is left. -/
structure Serves (key : α → κ) (queue : List κ) (left : σ → List κ) (g : Gen α ε σ) : Prop where
  front : g.items.map key <+: queue
  rest : ∀ s, g.Returns s → g.items.map key ++ left s = queue

theorem serves_done (s : σ) (hleft : left s = queue) :
    Serves key queue left (done s : Gen α ε σ) where
  front := List.nil_prefix
  rest := by
    rintro _ ⟨⟩
    exact hleft

theorem serves_raise (e : ε) : Serves key queue left (raise e : Gen α ε σ) where
  front := List.nil_prefix
  rest := by
    rintro _ ⟨⟩

theorem serves_yield (items : List α) (s : σ) (hleft : items.map key ++ left s = queue) :
    Serves key queue left (yield items s : Gen α ε σ) where
  front := ⟨left s, hleft⟩
  rest := by
    rintro _ ⟨⟩
    exact hleft

/-- What comes to the queue meanwhile is behind what was left. -/
theorem Serves.andThen {g : Gen α ε σ} {next : σ → Gen α ε τ} (hg : g.Serves key queue left)
    (hnext : ∀ s, g.Returns s → (next s).Serves key (left s ++ more) left') :
    (g.andThen next).Serves key (queue ++ more) left' := by
  cases hresult : g.result with
  | error e =>
      rw [andThen_of_error hresult]
      refine ⟨hg.front.trans (List.prefix_append queue more), ?_⟩
      rintro _ ⟨⟩
  | ok s =>
      have hs : g.Returns s := hresult
      have hqueue : queue = g.items.map key ++ left s := (hg.rest s hs).symm
      rw [hs.andThen_eq, hqueue, List.append_assoc]
      constructor
      · rw [List.map_append]
        exact (List.prefix_append_right_inj _).mpr (hnext s hs).front
      · intro t ht
        rw [List.map_append, List.append_assoc, (hnext s hs).rest t ht]

/-- A loop serves what comes to the queue round by round. -/
theorem Serves.each {round : σ → β → Gen α ε σ} {comes : β → List κ}
    (hround : ∀ s b, (round s b).Serves key (left s ++ comes b) left) (s : σ) (l : List β) :
    (Gen.each round s l).Serves key (left s ++ l.flatMap comes) left := by
  induction l generalizing s with
  | nil => exact serves_done s (List.append_nil _).symm
  | cons b rest ih =>
      rw [List.flatMap_cons, ← List.append_assoc]
      exact (hround s b).andThen fun s' _ => ih s'

end Queue

end Gen

end VisioSchema.Library

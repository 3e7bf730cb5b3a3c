import Mathlib.Algebra.Order.Group.Int
import Mathlib.Algebra.Order.Group.Unbundled.Abs
import VisioSchema.Library.Draining
import VisioSchema.Reader.Pruning

/-!
# Stream matching

What `StreamMatcher` makes of elements that are pushed one by one.  A turn of `flush` looks at
the heads of the buffers only, so the matcher is a machine that drains queues: pushed in whatever
order the keys' elements arrive, it yields what one `flush` of all elements yields.  The other
laws are facts about single turns of that one `flush`.

## Strategy

* **Confluence.**  More elements behind the heads do not change a turn (`flushTurn_extends`).
  The library's rule for machines that drain queues then turns a run of pushes into one flush of
  all that was pushed (`emits_drains`).
* **What a turn yields.**  A turn gives the earliest head up, since another head is too late for
  it, or makes a set of all heads (`flushTurn_cases`).  Either way it takes elements from the
  front of their buffers (`flushTurn_accounts`), and what it yields is justified by what was
  waiting (`flushTurn_sound`).
* **`emit_partial`.**  The matcher that shows what it gives up on is the same machine, with the
  rest filtered out (`emits_verbose`).

`emits_confluent_and_greedy` is assembled from these.
-/

namespace VisioSchema.Reader

open VisioSchema.Library

variable {K V ε : Type*} [DecidableEq K]

namespace StreamMatcher

/-! ## Runs -/

/-- `push` of one element after the other. -/
def pushes (cfg : SyncConfig K V ε) :
    Buffers K V → List (Element K V) → List (Outcome K V) × Buffers K V
  | bufs, [] => ([], bufs)
  | bufs, el :: rest =>
      let (first, bufs') := push cfg bufs el
      let (others, last) := pushes cfg bufs' rest
      (first ++ others, last)

/-- What a new matcher yields when the elements are pushed and it is flushed. -/
def emits (cfg : SyncConfig K V ε) (els : List (Element K V)) : List (Outcome K V) :=
  let (outcomes, bufs) := pushes cfg (fun _ => []) els
  outcomes ++ (flushAll cfg bufs).1

/-- What the constructor accepts. -/
structure Accepted (cfg : SyncConfig K V ε) : Prop where
  keys : cfg.matchKeys ≠ []
  nodup : cfg.matchKeys.Nodup
  window : 1 ≤ cfg.window
  tol : 0 ≤ cfg.tolNs

/-- No buffer exceeds the window while the elements are pushed. -/
abbrev Within (cfg : SyncConfig K V ε) (els : List (Element K V)) : Prop :=
  Along (fun bufs el => (push cfg bufs el).2)
    (fun bufs el => ((bufs el.topic ++ [el]).length : ℤ) ≤ cfg.window) (fun _ => []) els

/-- The elements of one key. -/
def queue (els : List (Element K V)) (k : K) : List (Element K V) :=
  els.filter fun el => el.topic = k

/-- An interleaving of the keys' sequences, each in its order. -/
structure Interleaves (cfg : SyncConfig K V ε) (seqs : K → List (Element K V))
    (els : List (Element K V)) : Prop where
  topics : ∀ el ∈ els, el.topic ∈ cfg.matchKeys
  order : ∀ k ∈ cfg.matchKeys, queue els k = seqs k

/-- The matcher that shows what it gives up on. -/
def verbose (cfg : SyncConfig K V ε) : SyncConfig K V ε := { cfg with emitPartial := true }

/-- The element of a key in a set. -/
def memberOf (k : K) (set : Matched K V) : List (Element K V) :=
  set.byTopic.filterMap fun member => if member.1 = k then some member.2.element else none

/-- What an outcome takes from the elements of a key. -/
def taken : Outcome K V → K → List (Element K V)
  | .matched set, k => memberOf k set
  | .dropped el, k => if el.topic = k then [el] else []

/-- The elements of a key that are neither in a set nor given up, when `before` has been yielded. -/
def waiting (seqs : K → List (Element K V)) (before : List (Outcome K V)) (k : K) :
    List (Element K V) :=
  (seqs k).drop (before.flatMap fun outcome => taken outcome k).length

/-! ## One turn -/

omit [DecidableEq K] in
theorem heads_cons (k : K) (keys : List K) (bufs : Buffers K V) :
    heads (k :: keys) bufs =
      (bufs k).head?.bind fun el => (heads keys bufs).map fun rest => (k, el) :: rest := by
  unfold heads
  rw [List.mapM_cons]
  cases (bufs k).head? with
  | none => rfl
  | some el =>
      cases keys.mapM fun k => (bufs k).head?.map fun el => (k, el) with
      | none => rfl
      | some rest => rfl

omit [DecidableEq K] in
/-- More elements behind the heads do not change them. -/
theorem heads_append {keys : List K} {bufs : Buffers K V} {hs : List (K × Element K V)}
    (hheads : heads keys bufs = some hs) (more : Buffers K V) :
    heads keys (fun k => bufs k ++ more k) = some hs := by
  induction keys generalizing hs with
  | nil => simpa [heads] using hheads
  | cons k keys ih =>
      rw [heads_cons] at hheads ⊢
      cases hbuf : bufs k with
      | nil => simp [hbuf] at hheads
      | cons el tail =>
          cases hrest : heads keys bufs with
          | none => simp [hbuf, hrest] at hheads
          | some rest => simpa [hbuf, hrest, ih hrest] using hheads

omit [DecidableEq K] in
theorem latestNs_spec (best : ℤ) (rest : List (K × Element K V)) :
    best ≤ latestNs best rest ∧ (∀ h ∈ rest, h.2.tNs ≤ latestNs best rest) ∧
      (latestNs best rest = best ∨ ∃ h ∈ rest, latestNs best rest = h.2.tNs) := by
  induction rest generalizing best with
  | nil => simp [latestNs]
  | cons other rest ih =>
      obtain ⟨hbest, hall, hattained⟩ := ih (max best other.2.tNs)
      unfold latestNs
      refine ⟨by omega, ?_, ?_⟩
      · intro h hh
        rcases List.mem_cons.mp hh with rfl | hh
        · omega
        · exact hall h hh
      · rcases hattained with hmax | ⟨h, hh, heq⟩
        · rcases le_total best other.2.tNs with hle | hle
          · right
            exact ⟨other, List.mem_cons_self .., by omega⟩
          · left
            omega
        · right
          exact ⟨h, List.mem_cons_of_mem _ hh, heq⟩

/-- The sides of a turn: the earliest head is given up since another head is too late for it, or
all heads make a set. -/
theorem flushTurn_cases {cfg : SyncConfig K V ε} {bufs bufs' : Buffers K V}
    {outcomes : List (Outcome K V)} (hturn : flushTurn cfg bufs = some (outcomes, bufs')) :
    (∃ key el other late, key ∈ cfg.matchKeys ∧ (bufs key).head? = some el ∧
        other ∈ cfg.matchKeys ∧ (bufs other).head? = some late ∧
        cfg.tolNs < late.tNs - el.tNs ∧
        outcomes = (if cfg.emitPartial then [.dropped el] else []) ∧ bufs' = pop bufs key) ∨
      ∃ hs lo, heads cfg.matchKeys bufs = some hs ∧
        (∀ h ∈ hs, lo ≤ h.2.tNs ∧ h.2.tNs - lo ≤ cfg.tolNs) ∧
        outcomes = [.matched ⟨lo, hs.map fun head =>
          (head.1, ⟨head.2, .matched, head.2.tNs - lo⟩)⟩] ∧
        bufs' = cfg.matchKeys.foldl pop bufs := by
  unfold flushTurn at hturn
  cases hheads : heads cfg.matchKeys bufs with
  | none => simp [hheads] at hturn
  | some hs =>
      cases hs with
      | nil => simp [hheads] at hturn
      | cons first rest =>
          obtain ⟨hown, -⟩ := heads_spec hheads
          obtain ⟨hmem, hleast⟩ := oldestOf_spec first rest
          obtain ⟨hfirst, hrest, hattained⟩ := latestNs_spec first.2.tNs rest
          rw [hheads] at hturn
          dsimp only at hturn
          split at hturn
          · rename_i hlate
            left
            obtain ⟨houtcomes, hbufs⟩ := Prod.mk.inj (Option.some_inj.mp hturn)
            obtain ⟨hkey, hel⟩ := hown _ hmem
            have hother : ∃ h ∈ first :: rest, latestNs first.2.tNs rest = h.2.tNs := by
              rcases hattained with heq | ⟨h, hh, heq⟩
              · exact ⟨first, List.mem_cons_self .., heq⟩
              · exact ⟨h, List.mem_cons_of_mem _ hh, heq⟩
            obtain ⟨h, hh, heq⟩ := hother
            obtain ⟨hotherKey, hotherHead⟩ := hown h hh
            exact ⟨_, _, _, _, hkey, hel, hotherKey, hotherHead, heq ▸ hlate, houtcomes.symm,
              hbufs.symm⟩
          · rename_i hclose
            right
            obtain ⟨houtcomes, hbufs⟩ := Prod.mk.inj (Option.some_inj.mp hturn)
            refine ⟨_, _, rfl, ?_, houtcomes.symm, hbufs.symm⟩
            intro h hh
            refine ⟨hleast h hh, ?_⟩
            rcases List.mem_cons.mp hh with rfl | hh
            · omega
            · have := hrest h hh
              omega

/-! ## The matcher drains queues -/

/-- A pop of a head leaves what is behind it. -/
theorem pop_append {bufs : Buffers K V} {key : K} (hkey : bufs key ≠ []) (more : Buffers K V) :
    pop (fun k => bufs k ++ more k) key = fun k => pop bufs key k ++ more k := by
  funext k
  unfold pop
  by_cases hk : k = key
  · subst hk
    rw [Function.update_self, Function.update_self, List.tail_append_of_ne_nil hkey]
  · rw [Function.update_of_ne hk, Function.update_of_ne hk]

theorem pops_append {keys : List K} (hnodup : keys.Nodup) {bufs : Buffers K V}
    (hkeys : ∀ k ∈ keys, bufs k ≠ []) (more : Buffers K V) :
    keys.foldl pop (fun k => bufs k ++ more k) = fun k => keys.foldl pop bufs k ++ more k := by
  induction keys generalizing bufs with
  | nil => rfl
  | cons key keys ih =>
      obtain ⟨hfresh, hnodup⟩ := List.nodup_cons.mp hnodup
      rw [List.foldl_cons, List.foldl_cons, pop_append (hkeys key (List.mem_cons_self ..))]
      apply ih hnodup
      intro k hk
      have hne : k ≠ key := by
        rintro rfl
        exact hfresh hk
      rw [pop, Function.update_of_ne hne]
      exact hkeys k (List.mem_cons_of_mem _ hk)

/-- Each of the keys is popped once. -/
theorem pops_eq {keys : List K} (hnodup : keys.Nodup) (bufs : Buffers K V) (k : K) :
    keys.foldl pop bufs k = if k ∈ keys then (bufs k).tail else bufs k := by
  induction keys generalizing bufs with
  | nil => simp
  | cons key keys ih =>
      obtain ⟨hfresh, hnodup⟩ := List.nodup_cons.mp hnodup
      rw [List.foldl_cons, ih hnodup]
      by_cases hk : k = key
      · subst hk
        simp [hfresh, pop]
      · simp [hk, pop]

theorem flushTurn_extends {cfg : SyncConfig K V ε} (hnodup : cfg.matchKeys.Nodup) :
    Extends (flushTurn cfg) := by
  intro bufs bufs' outcomes hturn more
  unfold flushTurn at hturn ⊢
  cases hheads : heads cfg.matchKeys bufs with
  | none => simp [hheads] at hturn
  | some hs =>
      cases hs with
      | nil => simp [hheads] at hturn
      | cons first rest =>
          obtain ⟨hown, hall⟩ := heads_spec hheads
          have hheld : ∀ k ∈ cfg.matchKeys, bufs k ≠ [] := by
            intro k hk hnil
            obtain ⟨h, hh, rfl⟩ := hall k hk
            have hhead := (hown h hh).2
            rw [hnil] at hhead
            cases hhead
          have holdest := (hown _ (oldestOf_spec first rest).1).1
          rw [hheads] at hturn
          rw [heads_append hheads more]
          dsimp only at hturn ⊢
          split at hturn
          · rename_i hlate
            obtain ⟨rfl, rfl⟩ := Prod.mk.inj (Option.some_inj.mp hturn)
            rw [if_pos hlate, pop_append (hheld _ holdest)]
          · rename_i hclose
            obtain ⟨rfl, rfl⟩ := Prod.mk.inj (Option.some_inj.mp hturn)
            rw [if_neg hclose, pops_append hnodup hheld]

/-- `flush` turns until it is stuck. -/
theorem flush_drains {cfg : SyncConfig K V ε} (turns : ℕ) {bufs : Buffers K V}
    (hturns : buffered cfg.matchKeys bufs ≤ turns) :
    Drains (flushTurn cfg) bufs (flush cfg turns bufs).1 (flush cfg turns bufs).2 := by
  induction turns generalizing bufs with
  | zero =>
      apply Drains.stuck
      cases hturn : flushTurn cfg bufs with
      | none => rfl
      | some turn =>
          have := flushTurn_buffered hturn
          omega
  | succ turns ih =>
      unfold flush
      cases hturn : flushTurn cfg bufs with
      | none => exact .stuck hturn
      | some turn =>
          have := flushTurn_buffered hturn
          exact .turn hturn (ih (by omega))

theorem flushAll_drains (cfg : SyncConfig K V ε) (bufs : Buffers K V) :
    Drains (flushTurn cfg) bufs (flushAll cfg bufs).1 (flushAll cfg bufs).2 :=
  flush_drains _ le_rfl

theorem flushTurn_empty (cfg : SyncConfig K V ε) : flushTurn cfg (fun _ => []) = none := by
  cases hturn : flushTurn cfg (fun _ => []) with
  | none => rfl
  | some turn =>
      obtain ⟨outcomes, bufs'⟩ := turn
      have hpopped := flushTurn_buffered hturn
      have hempty : ∀ keys : List K, buffered keys (fun _ => ([] : List (Element K V))) = 0 := by
        intro keys
        induction keys with
        | nil => rfl
        | cons key keys ih => simp [buffered]
      rw [hempty] at hpopped
      omega

/-- Within the window, a push only appends and drains. -/
theorem push_drains {cfg : SyncConfig K V ε} {bufs : Buffers K V} {el : Element K V}
    (hwithin : ((bufs el.topic ++ [el]).length : ℤ) ≤ cfg.window) :
    Drains (flushTurn cfg) (Function.update bufs el.topic (bufs el.topic ++ [el]))
      (push cfg bufs el).1 (push cfg bufs el).2 := by
  unfold push
  rw [if_neg (not_lt.mpr hwithin)]
  exact flushAll_drains cfg _

theorem pushes_feeds {cfg : SyncConfig K V ε} {els : List (Element K V)} {bufs : Buffers K V}
    (hwithin : Along (fun bufs el => (push cfg bufs el).2)
      (fun bufs el => ((bufs el.topic ++ [el]).length : ℤ) ≤ cfg.window) bufs els) :
    Feeds (flushTurn cfg) bufs (els.map fun el => (el.topic, el)) (pushes cfg bufs els).1
      (pushes cfg bufs els).2 := by
  induction els generalizing bufs with
  | nil => exact .done bufs
  | cons el rest ih =>
      obtain ⟨hroom, hrest⟩ := hwithin
      exact .feed (push_drains hroom) (ih hrest)

theorem queueOf_topics (els : List (Element K V)) (k : K) :
    queueOf (els.map fun el => (el.topic, el)) k = queue els k := by
  induction els with
  | nil => rfl
  | cons el rest ih =>
      unfold queueOf queue at ih ⊢
      by_cases hk : el.topic = k
      · simpa [hk] using ih
      · simpa [hk] using ih

/-- The run is the flush of all that was pushed. -/
theorem emits_drains {cfg : SyncConfig K V ε} (hnodup : cfg.matchKeys.Nodup)
    {els : List (Element K V)} (hwithin : Within cfg els) :
    ∃ last, Drains (flushTurn cfg) (queue els) (emits cfg els) last := by
  have hpushed := (pushes_feeds hwithin).drains (flushTurn_extends hnodup) (flushTurn_empty cfg)
  have hqueues : (fun k => [] ++ queueOf (els.map fun el => (el.topic, el)) k) = queue els := by
    funext k
    rw [List.nil_append, queueOf_topics]
  rw [hqueues] at hpushed
  have hfinished := (flushAll_drains cfg (pushes cfg (fun _ => []) els).2).unique
    (.stuck hpushed.final)
  refine ⟨(pushes cfg (fun _ => []) els).2, ?_⟩
  unfold emits
  dsimp only
  rw [hfinished.1, List.append_nil]
  exact hpushed

/-! ## What a turn takes -/

/-- Every buffer holds its own key's elements, in order of time. -/
structure Proper (cfg : SyncConfig K V ε) (bufs : Buffers K V) : Prop where
  topic : ∀ k, ∀ el ∈ bufs k, el.topic = k
  sorted : Sorted cfg.matchKeys bufs

omit [DecidableEq K] in
theorem Proper.of_suffix {cfg : SyncConfig K V ε} {bufs bufs' : Buffers K V}
    (hproper : Proper cfg bufs) (hsuffix : ∀ k, bufs' k <:+ bufs k) : Proper cfg bufs' where
  topic := fun k el hel => hproper.topic k el ((hsuffix k).subset hel)
  sorted := fun k hk => (hproper.sorted k hk).sublist (hsuffix k).sublist

/-- The members of a set are the heads it was made of. -/
theorem memberOf_heads {keys : List K} (hnodup : keys.Nodup) {bufs : Buffers K V}
    {hs : List (K × Element K V)} (hheads : heads keys bufs = some hs) (lo : ℤ) (k : K) :
    bufs k = memberOf k ⟨lo, hs.map fun head => (head.1, ⟨head.2, .matched, head.2.tNs - lo⟩)⟩ ++
      if k ∈ keys then (bufs k).tail else bufs k := by
  induction keys generalizing hs with
  | nil =>
      obtain rfl : [] = hs := by simpa [heads] using hheads
      simp [memberOf]
  | cons key keys ih =>
      obtain ⟨hfresh, hnodup⟩ := List.nodup_cons.mp hnodup
      rw [heads_cons] at hheads
      cases hbuf : bufs key with
      | nil => simp [hbuf] at hheads
      | cons el tail =>
          cases hrest : heads keys bufs with
          | none => simp [hbuf, hrest] at hheads
          | some rest =>
              obtain rfl : (key, el) :: rest = hs := by simpa [hbuf, hrest] using hheads
              have hmembers := ih hnodup hrest
              by_cases hk : k = key
              · subst hk
                have hnone : memberOf k ⟨lo, rest.map fun head =>
                    (head.1, (⟨head.2, .matched, head.2.tNs - lo⟩ : Sampled K V))⟩ = [] := by
                  rw [if_neg hfresh] at hmembers
                  exact List.self_eq_append_left.mp hmembers
                unfold memberOf at hnone ⊢
                simp [hbuf, hnone]
              · have hmem : (k ∈ key :: keys) = (k ∈ keys) := by simp [hk]
                simp only [hmem]
                unfold memberOf at hmembers ⊢
                rw [List.map_cons, List.filterMap_cons_none (by simp [Ne.symm hk])]
                exact hmembers

theorem flushTurn_accounts {cfg : SyncConfig K V ε} (hnodup : cfg.matchKeys.Nodup)
    (hverbose : cfg.emitPartial = true) : Accounts (flushTurn cfg) taken (Proper cfg) := by
  intro bufs bufs' outcomes hproper hturn
  refine ⟨hproper.of_suffix (flushTurn_spec hproper.sorted hturn).1, ?_⟩
  intro k
  obtain ⟨key, el, other, late, -, hel, -, -, -, rfl, rfl⟩ | ⟨hs, lo, hheads, -, rfl, rfl⟩ :=
    flushTurn_cases hturn
  · rw [if_pos hverbose]
    have htopic : el.topic = key := hproper.topic key el (List.mem_of_head? hel)
    by_cases hk : k = key
    · subst hk
      obtain ⟨tail, htail⟩ := List.head?_eq_some_iff.mp hel
      simp [taken, pop, htopic, htail]
    · have hne : el.topic ≠ k := by
        rw [htopic]
        exact Ne.symm hk
      simp [taken, pop, hk, hne]
  · rw [pops_eq hnodup]
    simpa [taken] using memberOf_heads hnodup hheads lo k

/-! ## What any push yields -/

/-- The heads of the buffers make a set, and a turn leaves less in the buffers. -/
theorem flushTurn_members {cfg : SyncConfig K V ε} {bufs bufs' : Buffers K V}
    {outcomes : List (Outcome K V)} (hturn : flushTurn cfg bufs = some (outcomes, bufs')) :
    (∀ k, bufs' k <:+ bufs k) ∧ ∀ set, .matched set ∈ outcomes →
      (∀ a ∈ set.byTopic, a.2.element ∈ bufs a.1) ∧
        ∀ a ∈ set.byTopic, ∀ b ∈ set.byTopic,
          a.2.element.tNs - b.2.element.tNs ≤ cfg.tolNs := by
  obtain ⟨key, el, other, late, -, -, -, -, -, rfl, rfl⟩ | ⟨hs, lo, hheads, hclose, rfl, rfl⟩ :=
    flushTurn_cases hturn
  · refine ⟨pop_suffix bufs key, ?_⟩
    intro set hset
    split at hset <;> simp at hset
  · refine ⟨pops_suffix _ bufs, ?_⟩
    intro set hset
    obtain rfl := Outcome.matched.inj (List.mem_singleton.mp hset)
    constructor
    · intro a ha
      obtain ⟨x, hx, rfl⟩ := List.mem_map.mp ha
      exact List.mem_of_head? ((heads_spec hheads).1 x hx).2
    · intro a ha b hb
      obtain ⟨x, hx, rfl⟩ := List.mem_map.mp ha
      obtain ⟨y, hy, rfl⟩ := List.mem_map.mp hb
      have hfar := (hclose x hx).2
      have hnear := (hclose y hy).1
      change x.2.tNs - y.2.tNs ≤ cfg.tolNs
      omega

theorem flush_members (cfg : SyncConfig K V ε) (turns : ℕ) (bufs : Buffers K V) :
    (∀ k, (flush cfg turns bufs).2 k <:+ bufs k) ∧
      ∀ set, .matched set ∈ (flush cfg turns bufs).1 →
        (∀ a ∈ set.byTopic, a.2.element ∈ bufs a.1) ∧
          ∀ a ∈ set.byTopic, ∀ b ∈ set.byTopic,
            a.2.element.tNs - b.2.element.tNs ≤ cfg.tolNs := by
  induction turns generalizing bufs with
  | zero => exact ⟨fun _ => List.suffix_rfl, fun set hset => by cases hset⟩
  | succ turns ih =>
      unfold flush
      cases hturn : flushTurn cfg bufs with
      | none => exact ⟨fun _ => List.suffix_rfl, fun set hset => by cases hset⟩
      | some turn =>
          obtain ⟨hsuffix, hsets⟩ := flushTurn_members hturn
          obtain ⟨hrest, hlater⟩ := ih turn.2
          refine ⟨fun k => (hrest k).trans (hsuffix k), ?_⟩
          intro set hset
          rcases List.mem_append.mp hset with hset | hset
          · exact hsets set hset
          · obtain ⟨hmembers, hclose⟩ := hlater set hset
            exact ⟨fun a ha => (hsuffix a.1).subset (hmembers a ha), hclose⟩

/-- What holds of the elements held and of the one pushed holds of what is held then, and of the
members of the sets. -/
theorem push_members (cfg : SyncConfig K V ε) {bufs : Buffers K V} {el : Element K V}
    {P : K → Element K V → Prop} (hbufs : ∀ k, ∀ x ∈ bufs k, P k x) (hel : P el.topic el) :
    (∀ k, ∀ x ∈ (push cfg bufs el).2 k, P k x) ∧
      ∀ set, .matched set ∈ (push cfg bufs el).1 →
        (∀ a ∈ set.byTopic, P a.1 a.2.element) ∧
          ∀ a ∈ set.byTopic, ∀ b ∈ set.byTopic,
            a.2.element.tNs - b.2.element.tNs ≤ cfg.tolNs := by
  have hpushed : ∀ x ∈ bufs el.topic ++ [el], P el.topic x := by
    intro x hx
    rcases List.mem_append.mp hx with hx | hx
    · exact hbufs _ x hx
    · rw [List.mem_singleton.mp hx]
      exact hel
  have hupdated : ∀ buf : List (Element K V), (∀ x ∈ buf, P el.topic x) →
      ∀ k, ∀ x ∈ Function.update bufs el.topic buf k, P k x := by
    intro buf hbuf k x hx
    by_cases hk : k = el.topic
    · subst hk
      rw [Function.update_self] at hx
      exact hbuf x hx
    · rw [Function.update_of_ne hk] at hx
      exact hbufs k x hx
  unfold push
  dsimp only
  split
  · have htail := hupdated (bufs el.topic ++ [el]).tail fun x hx =>
      hpushed x (List.mem_of_mem_tail hx)
    obtain ⟨hsuffix, hsets⟩ := flush_members cfg (buffered cfg.matchKeys
      (Function.update bufs el.topic (bufs el.topic ++ [el]).tail))
      (Function.update bufs el.topic (bufs el.topic ++ [el]).tail)
    refine ⟨fun k x hx => htail k x ((hsuffix k).subset hx), ?_⟩
    intro set hset
    rcases List.mem_append.mp hset with hset | hset
    · split at hset
      · obtain ⟨lost, -, hlost⟩ := List.mem_map.mp hset
        cases hlost
      · cases hset
    · obtain ⟨hmembers, hclose⟩ := hsets set hset
      exact ⟨fun a ha => htail a.1 _ (hmembers a ha), hclose⟩
  · have hall := hupdated (bufs el.topic ++ [el]) hpushed
    obtain ⟨hsuffix, hsets⟩ := flush_members cfg (buffered cfg.matchKeys
      (Function.update bufs el.topic (bufs el.topic ++ [el])))
      (Function.update bufs el.topic (bufs el.topic ++ [el]))
    refine ⟨fun k x hx => hall k x ((hsuffix k).subset hx), ?_⟩
    intro set hset
    obtain ⟨hmembers, hclose⟩ := hsets set hset
    exact ⟨fun a ha => hall a.1 _ (hmembers a ha), hclose⟩

/-! ## What a turn yields -/

/-- What holds of an outcome and of the elements that were waiting. -/
def Sound (cfg : SyncConfig K V ε) (found : Buffers K V) : Outcome K V → Prop
  | .matched set =>
      ∀ a ∈ set.byTopic, ∀ b ∈ set.byTopic,
        a.2.element.tNs - b.2.element.tNs ≤ cfg.tolNs
  | .dropped el =>
      ∃ other ∈ cfg.matchKeys, other ≠ el.topic ∧
        ∀ late ∈ found other, cfg.tolNs < |late.tNs - el.tNs|

theorem flushTurn_sound {cfg : SyncConfig K V ε} (htol : 0 ≤ cfg.tolNs)
    (hverbose : cfg.emitPartial = true) {bufs bufs' : Buffers K V}
    {outcomes : List (Outcome K V)} (hproper : Proper cfg bufs)
    (hturn : flushTurn cfg bufs = some (outcomes, bufs')) :
    ∃ outcome, outcomes = [outcome] ∧ Sound cfg bufs outcome := by
  obtain ⟨key, el, other, late, -, hel, hother, hlate, hgap, rfl, -⟩ |
    ⟨hs, lo, -, hclose, rfl, -⟩ := flushTurn_cases hturn
  · refine ⟨.dropped el, by rw [if_pos hverbose], other, hother, ?_, ?_⟩
    · intro hsame
      rw [hproper.topic key el (List.mem_of_head? hel)] at hsame
      rw [hsame, hel] at hlate
      obtain rfl := Option.some.inj hlate
      omega
    · intro later hlater
      have hle := head_le_of_sorted (hproper.sorted other hother) hlate hlater
      have habs := le_abs_self (later.tNs - el.tNs)
      omega
  · refine ⟨_, rfl, ?_⟩
    intro a ha b hb
    obtain ⟨x, hx, rfl⟩ := List.mem_map.mp ha
    obtain ⟨y, hy, rfl⟩ := List.mem_map.mp hb
    obtain ⟨-, hfar⟩ := hclose x hx
    obtain ⟨hnear, -⟩ := hclose y hy
    change x.2.tNs - y.2.tNs ≤ cfg.tolNs
    omega

/-- No instant lies before the elements it is made of. -/
theorem le_instants {cfg : SyncConfig K V ε} {bufs last : Buffers K V}
    {outcomes : List (Outcome K V)} (hdrains : Drains (flushTurn cfg) bufs outcomes last)
    (hsorted : Sorted cfg.matchKeys bufs) {t : ℤ}
    (ht : ∀ k ∈ cfg.matchKeys, ∀ el ∈ bufs k, t ≤ el.tNs) :
    ∀ set ∈ sets outcomes, t ≤ set.tNs := by
  induction hdrains with
  | stuck _ =>
      intro set hset
      cases hset
  | turn hturn _ ih =>
      obtain ⟨hsuffix, hsets⟩ := flushTurn_spec hsorted hturn
      intro set hset
      rw [sets_append] at hset
      rcases List.mem_append.mp hset with hset | hset
      · rcases hsets with hnone | ⟨only, honly, hinstant⟩
        · rw [hnone] at hset
          cases hset
        · rw [honly] at hset
          obtain rfl := List.mem_singleton.mp hset
          obtain ⟨k, hk, el, hel, heq⟩ := hinstant.attained
          rw [← heq]
          exact ht k hk el hel
      · apply ih (fun k hk => (hsorted k hk).sublist (hsuffix k).sublist) _ set hset
        intro k hk el hel
        exact ht k hk el ((hsuffix k).subset hel)

theorem instants_pairwise {cfg : SyncConfig K V ε} {bufs last : Buffers K V}
    {outcomes : List (Outcome K V)} (hdrains : Drains (flushTurn cfg) bufs outcomes last)
    (hsorted : Sorted cfg.matchKeys bufs) :
    (sets outcomes).Pairwise fun a b => a.tNs ≤ b.tNs := by
  induction hdrains with
  | stuck _ => exact List.Pairwise.nil
  | turn hturn hrest ih =>
      obtain ⟨hsuffix, hsets⟩ := flushTurn_spec hsorted hturn
      have hsorted' : Sorted cfg.matchKeys _ := fun k hk =>
        (hsorted k hk).sublist (hsuffix k).sublist
      rw [sets_append]
      rcases hsets with hnone | ⟨only, honly, hinstant⟩
      · rw [hnone]
        exact ih hsorted'
      · rw [honly]
        refine List.Pairwise.cons ?_ (ih hsorted')
        apply le_instants hrest hsorted'
        intro k hk el hel
        exact hinstant.le k hk el ((hsuffix k).subset hel)

/-! ## With and without `emit_partial` -/

theorem flushTurn_verbose (cfg : SyncConfig K V ε) (bufs : Buffers K V) :
    (flushTurn (verbose cfg) bufs).map (fun turn => (sets turn.1, turn.2)) =
      (flushTurn cfg bufs).map fun turn => (sets turn.1, turn.2) := by
  unfold flushTurn
  rw [show (verbose cfg).matchKeys = cfg.matchKeys from rfl,
    show (verbose cfg).tolNs = cfg.tolNs from rfl]
  cases heads cfg.matchKeys bufs with
  | none => rfl
  | some hs =>
      cases hs with
      | nil => rfl
      | cons first rest =>
          dsimp only
          split
          · cases cfg.emitPartial <;> rfl
          · rfl

theorem flush_verbose (cfg : SyncConfig K V ε) (turns : ℕ) (bufs : Buffers K V) :
    sets (flush (verbose cfg) turns bufs).1 = sets (flush cfg turns bufs).1 ∧
      (flush (verbose cfg) turns bufs).2 = (flush cfg turns bufs).2 := by
  induction turns generalizing bufs with
  | zero => exact ⟨rfl, rfl⟩
  | succ turns ih =>
      have hturn := flushTurn_verbose cfg bufs
      unfold flush
      cases hloud : flushTurn (verbose cfg) bufs with
      | none =>
          cases hquiet : flushTurn cfg bufs with
          | none => exact ⟨rfl, rfl⟩
          | some turn => simp [hloud, hquiet] at hturn
      | some turn =>
          cases hquiet : flushTurn cfg bufs with
          | none => simp [hloud, hquiet] at hturn
          | some turn' =>
              simp only [hloud, hquiet, Option.map_some, Option.some.injEq, Prod.mk.injEq] at hturn
              obtain ⟨hsets, hbufs⟩ := hturn
              obtain ⟨hrest, hlast⟩ := ih turn.2
              rw [hbufs] at hrest hlast
              simp only [sets_append, hsets, hbufs, hrest, hlast, and_self]

theorem push_verbose (cfg : SyncConfig K V ε) (bufs : Buffers K V) (el : Element K V) :
    sets (push (verbose cfg) bufs el).1 = sets (push cfg bufs el).1 ∧
      (push (verbose cfg) bufs el).2 = (push cfg bufs el).2 := by
  unfold push
  rw [show (verbose cfg).window = cfg.window from rfl]
  dsimp only
  split
  · obtain ⟨hsets, hlast⟩ := flush_verbose cfg (buffered cfg.matchKeys
      (Function.update bufs el.topic (bufs el.topic ++ [el]).tail))
      (Function.update bufs el.topic (bufs el.topic ++ [el]).tail)
    refine ⟨?_, hlast⟩
    have hlost : ∀ shown : Bool, sets (if shown = true then
        (bufs el.topic ++ [el]).head?.toList.map Outcome.dropped else []) = [] := by
      intro shown
      cases shown with
      | false => rfl
      | true => exact sets_dropped _
    dsimp only
    rw [sets_append, sets_append, hlost, hlost]
    exact hsets
  · exact flush_verbose cfg _ _

theorem pushes_verbose (cfg : SyncConfig K V ε) (els : List (Element K V)) (bufs : Buffers K V) :
    sets (pushes (verbose cfg) bufs els).1 = sets (pushes cfg bufs els).1 ∧
      (pushes (verbose cfg) bufs els).2 = (pushes cfg bufs els).2 := by
  induction els generalizing bufs with
  | nil => exact ⟨rfl, rfl⟩
  | cons el rest ih =>
      obtain ⟨hsets, hbufs⟩ := push_verbose cfg bufs el
      obtain ⟨hrest, hlast⟩ := ih (push cfg bufs el).2
      unfold pushes
      dsimp only
      rw [hbufs, sets_append, sets_append, hsets, hrest]
      exact ⟨rfl, hlast⟩

theorem emits_verbose (cfg : SyncConfig K V ε) (els : List (Element K V)) :
    sets (emits (verbose cfg) els) = sets (emits cfg els) := by
  obtain ⟨hsets, hlast⟩ := pushes_verbose cfg els (fun _ => [])
  unfold emits
  dsimp only
  rw [sets_append, sets_append, hsets, hlast]
  congr 1
  exact (flush_verbose cfg _ _).1

theorem within_verbose {cfg : SyncConfig K V ε} {els : List (Element K V)}
    (hwithin : Within cfg els) : Within (verbose cfg) els := by
  have hstep : (fun bufs (el : Element K V) => (push (verbose cfg) bufs el).2) =
      fun bufs el => (push cfg bufs el).2 := by
    funext bufs el
    exact (push_verbose cfg bufs el).2
  unfold Within
  rw [hstep]
  exact hwithin

/-! ## The laws of a run -/

section Laws

variable {cfg : SyncConfig K V ε} {seqs : K → List (Element K V)} {els els' : List (Element K V)}

theorem Interleaves.queue_eq (hels : Interleaves cfg seqs els) (hels' : Interleaves cfg seqs els') :
    queue els = queue els' := by
  funext k
  by_cases hk : k ∈ cfg.matchKeys
  · rw [hels.order k hk, hels'.order k hk]
  · have hnone : ∀ {others : List (Element K V)}, Interleaves cfg seqs others →
        queue others k = [] := by
      intro others hothers
      apply List.filter_eq_nil_iff.mpr
      intro el hel htopic
      rw [← of_decide_eq_true htopic] at hk
      exact hk (hothers.topics el hel)
    rw [hnone hels, hnone hels']

theorem Interleaves.proper (hels : Interleaves cfg seqs els)
    (hsorted : ∀ k ∈ cfg.matchKeys, Chronological Element.tNs (seqs k)) :
    Proper cfg (queue els) where
  topic := by
    intro k el hel
    exact of_decide_eq_true (List.mem_filter.mp hel).2
  sorted := by
    intro k hk
    rw [hels.order k hk]
    exact hsorted k hk

/-- The sets of a run take the members that its outcomes take. -/
theorem sets_sublist_taken (outcomes : List (Outcome K V)) (k : K) :
    ((sets outcomes).flatMap (memberOf k)).Sublist
      (outcomes.flatMap fun outcome => taken outcome k) := by
  induction outcomes with
  | nil => exact List.Sublist.refl _
  | cons outcome rest ih =>
      rw [List.flatMap_cons]
      cases outcome with
      | matched set => exact (List.Sublist.refl _).append ih
      | dropped el => exact ih.trans (List.sublist_append_right _ _)

/-- However the keys' elements are interleaved within the window, the same sets form in the same
order, of elements within the tolerance that no other set has; and an element is given up only when
another key has none left for it among those that are still waiting. -/
theorem emits_confluent_and_greedy (haccepted : Accepted cfg)
    (hsorted : ∀ k ∈ cfg.matchKeys, Chronological Element.tNs (seqs k))
    (hels : Interleaves cfg seqs els) (hels' : Interleaves cfg seqs els')
    (hwithin : Within cfg els) (hwithin' : Within cfg els') :
    sets (emits cfg els) = sets (emits cfg els') ∧
      (sets (emits cfg els)).Pairwise (fun a b => a.tNs ≤ b.tNs) ∧
      (∀ set ∈ sets (emits cfg els), ∀ a ∈ set.byTopic, ∀ b ∈ set.byTopic,
        a.2.element.tNs - b.2.element.tNs ≤ cfg.tolNs) ∧
      (∀ k ∈ cfg.matchKeys, ((sets (emits cfg els)).flatMap (memberOf k)).Sublist (seqs k)) ∧
      sets (emits (verbose cfg) els) = sets (emits cfg els) ∧
      ∀ before el after, emits (verbose cfg) els = before ++ .dropped el :: after →
        ∃ other ∈ cfg.matchKeys, other ≠ el.topic ∧
          ∀ late ∈ waiting seqs before other, cfg.tolNs < |late.tNs - el.tNs| := by
  obtain ⟨last, hdrains⟩ := emits_drains haccepted.nodup hwithin
  obtain ⟨last', hdrains'⟩ := emits_drains haccepted.nodup hwithin'
  have hverbose : Accepted (verbose cfg) :=
    ⟨haccepted.keys, haccepted.nodup, haccepted.window, haccepted.tol⟩
  obtain ⟨shown, hshown⟩ := emits_drains hverbose.nodup (within_verbose hwithin)
  have hproper : Proper (verbose cfg) (queue els) :=
    ⟨(hels.proper hsorted).topic, (hels.proper hsorted).sorted⟩
  have haccounts : Accounts (flushTurn (verbose cfg)) taken (Proper (verbose cfg)) :=
    flushTurn_accounts hverbose.nodup rfl
  have hturns : ∀ bufs bufs' outcomes, Proper (verbose cfg) bufs →
      flushTurn (verbose cfg) bufs = some (outcomes, bufs') →
        ∃ outcome, outcomes = [outcome] ∧ Sound (verbose cfg) bufs outcome := by
    intro bufs bufs' outcomes hbufs hturn
    exact flushTurn_sound hverbose.tol rfl hbufs hturn
  refine ⟨?_, instants_pairwise hdrains hproper.sorted, ?_, ?_, emits_verbose cfg els, ?_⟩
  · rw [hels.queue_eq hels'] at hdrains
    rw [(hdrains.unique hdrains').1]
  · intro set hset
    rw [← emits_verbose] at hset
    obtain ⟨outcome, houtcome, heq⟩ := List.mem_filterMap.mp hset
    obtain ⟨before, after, hsplit⟩ := List.append_of_mem houtcome
    obtain ⟨found, -, hsound⟩ := hshown.forall haccounts hturns hproper hsplit
    cases outcome with
    | matched found =>
        obtain rfl := Option.some.inj heq
        exact hsound
    | dropped el => cases heq
  · intro k hk
    rw [← emits_verbose, ← hels.order k hk, hshown.accounts haccounts hproper k]
    exact (sets_sublist_taken _ k).trans (List.sublist_append_left _ _)
  · intro before el after hsplit
    obtain ⟨found, hfound, other, hother, hne, hlate⟩ :=
      hshown.forall haccounts hturns hproper hsplit
    refine ⟨other, hother, hne, ?_⟩
    intro late hwaiting
    apply hlate
    unfold waiting at hwaiting
    rw [← hels.order other hother, hfound other, List.drop_left] at hwaiting
    exact hwaiting

end Laws

/-- Three cameras with a tolerance of ten. -/
def threeCameras : SyncConfig ℕ Unit Unit where
  matchKeys := [0, 1, 2]
  resample := []
  resample_nodup := List.nodup_nil
  tolNs := 10
  lagNs := 0
  onFuture := .hold
  staleNs := none
  window := 4
  passthrough := false
  emitPartial := true
  blend := fun _ _ _ => .ok none

theorem threeCameras_accepted : Accepted threeCameras :=
  ⟨by decide, by decide, by decide, by decide⟩

/-- The second frame lies between the first, for which the third is too late, and the third. -/
def spreadFrames : List (Element ℕ Unit) :=
  [⟨0, 0, ()⟩, ⟨1, 5, ()⟩, ⟨2, 12, ()⟩, ⟨0, 100, ()⟩]

theorem spreadFrames_interleaves :
    Interleaves threeCameras (queue spreadFrames) spreadFrames :=
  ⟨by decide, fun _ _ => rfl⟩

theorem spreadFrames_sorted : ∀ k ∈ threeCameras.matchKeys,
    Chronological Element.tNs (queue spreadFrames k) := by
  unfold Chronological
  decide

/-- What has been given up is in no set: an element may be given up although every other key has
one that is in no set and within the tolerance of it. -/
theorem dropped_beside_ungrouped :
    Accepted threeCameras ∧
      (∀ k ∈ threeCameras.matchKeys, Chronological Element.tNs (queue spreadFrames k)) ∧
      Interleaves threeCameras (queue spreadFrames) spreadFrames ∧
      Within threeCameras spreadFrames ∧
      ∃ before el after,
        emits threeCameras spreadFrames = before ++ .dropped el :: after ∧
          ¬ ∃ other ∈ threeCameras.matchKeys, other ≠ el.topic ∧
            ∀ partner ∈ queue spreadFrames other,
              (∀ set ∈ sets before, partner ∉ memberOf other set) →
                threeCameras.tolNs < |partner.tNs - el.tNs| := by
  refine ⟨threeCameras_accepted, spreadFrames_sorted, spreadFrames_interleaves, by decide +kernel,
    [.dropped ⟨0, 0, ()⟩], ⟨1, 5, ()⟩, [], by decide +kernel, ?_⟩
  decide +kernel

/-- Frames of three cameras, of which two sets form, with a frame between them that is given up. -/
def groupedFrames : List (Element ℕ Unit) :=
  [⟨0, 0, ()⟩, ⟨1, 3, ()⟩, ⟨2, 5, ()⟩, ⟨0, 50, ()⟩, ⟨0, 100, ()⟩, ⟨1, 104, ()⟩, ⟨2, 106, ()⟩]

/-- The frames of `groupedFrames`, one camera after the other. -/
theorem emits_confluent_and_greedy_grouped :
    (sets (emits threeCameras groupedFrames)).map (fun set => set.tNs) = [0, 100] ∧
      sets (emits threeCameras groupedFrames) = sets (emits threeCameras
        [⟨2, 5, ()⟩, ⟨2, 106, ()⟩, ⟨1, 3, ()⟩, ⟨1, 104, ()⟩, ⟨0, 0, ()⟩, ⟨0, 50, ()⟩,
          ⟨0, 100, ()⟩]) := by
  have hsorted : ∀ k ∈ threeCameras.matchKeys,
      Chronological Element.tNs (queue groupedFrames k) := by
    unfold Chronological
    decide
  have hinterleaves : Interleaves threeCameras (queue groupedFrames) groupedFrames :=
    ⟨by decide, fun _ _ => rfl⟩
  refine ⟨by decide +kernel, ?_⟩
  exact (emits_confluent_and_greedy threeCameras_accepted hsorted hinterleaves
    ⟨by decide, by decide⟩ (by decide +kernel) (by decide +kernel)).1

end StreamMatcher

end VisioSchema.Reader

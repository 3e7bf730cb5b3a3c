import VisioSchema.Reader.Sync

/-!
# Pruning that cannot be seen

The loop of `sync` with its `prune_before` and the loop without it agree on everything but the
samples kept, as long as no instant comes below what was discarded.  An instant is that of a
match element, so it is enough that no match element arrives there: those buffered or pending are
what the frontier is taken from.

## Strategy

The two loops are run side by side (`Twins`).  Two invariants are needed to take a step of both.

* `TrackOk`, of the samples: the pruned track is the other one without a front, whose samples lie
  below the floor but for the last.  Above the floor both give the same value
  (`TrackOk.valueAt_eq`).
* `Held`, of the match elements: those buffered, pending and still to come are in order of time,
  and none lies below a floor.  The turns of the matcher keep it (`Held.flush`), and a set that
  is closed has its instant above the floors (`release_eq`, `close_eq`).

The frontier is not above any instant that may still be closed (`frontier_le`), so discarding
below it keeps both.  `twins_step` is one turn of the loops, `twins_run` the stream and
`twins_finish` its end.
-/

namespace VisioSchema.Reader

open VisioSchema.Library

variable {K V ε : Type*}

/-! ## The matcher's turns -/

namespace StreamMatcher

theorem heads_spec {keys : List K} {bufs : Buffers K V} {hs : List (K × Element K V)}
    (hheads : heads keys bufs = some hs) :
    (∀ h ∈ hs, h.1 ∈ keys ∧ (bufs h.1).head? = some h.2) ∧ ∀ k ∈ keys, ∃ h ∈ hs, h.1 = k := by
  induction keys generalizing hs with
  | nil =>
      obtain rfl : [] = hs := by simpa [heads] using hheads
      simp
  | cons k keys ih =>
      cases hhead : (bufs k).head? with
      | none => simp [heads, List.mapM_cons, hhead] at hheads
      | some el =>
          cases hrest : heads keys bufs with
          | none =>
              have hrest' := hrest
              unfold heads at hrest'
              simp [heads, List.mapM_cons, hhead, hrest'] at hheads
          | some tail =>
              have hrest' := hrest
              unfold heads at hrest'
              obtain rfl : (k, el) :: tail = hs := by
                simpa [heads, List.mapM_cons, hhead, hrest'] using hheads
              obtain ⟨hown, hall⟩ := ih hrest
              constructor
              · intro h hh
                rcases List.mem_cons.mp hh with rfl | hh
                · exact ⟨List.mem_cons_self .., hhead⟩
                · exact ⟨List.mem_cons_of_mem _ (hown h hh).1, (hown h hh).2⟩
              · intro k' hk'
                rcases List.mem_cons.mp hk' with rfl | hk'
                · exact ⟨_, List.mem_cons_self .., rfl⟩
                · obtain ⟨h, hh, heq⟩ := hall k' hk'
                  exact ⟨h, List.mem_cons_of_mem _ hh, heq⟩

theorem oldestOf_spec (best : K × Element K V) (rest : List (K × Element K V)) :
    oldestOf best rest ∈ best :: rest ∧
      ∀ h ∈ best :: rest, (oldestOf best rest).2.tNs ≤ h.2.tNs := by
  induction rest generalizing best with
  | nil => simp [oldestOf]
  | cons other rest ih =>
      unfold oldestOf
      split
      · rename_i hlt
        obtain ⟨hmem, hle⟩ := ih other
        refine ⟨List.mem_cons_of_mem _ hmem, fun h hh => ?_⟩
        rcases List.mem_cons.mp hh with rfl | hh
        · exact (hle other (List.mem_cons_self ..)).trans hlt.le
        · exact hle h hh
      · rename_i hge
        obtain ⟨hmem, hle⟩ := ih best
        refine ⟨?_, fun h hh => ?_⟩
        · rcases List.mem_cons.mp hmem with heq | hin
          · rw [heq]
            exact List.mem_cons_self ..
          · exact List.mem_cons_of_mem _ (List.mem_cons_of_mem _ hin)
        · rcases List.mem_cons.mp hh with rfl | hh
          · exact hle h (List.mem_cons_self ..)
          · rcases List.mem_cons.mp hh with rfl | hh
            · exact (hle best (List.mem_cons_self ..)).trans (not_lt.mp hge)
            · exact hle h (List.mem_cons_of_mem _ hh)

/-- The sets among what the matcher yields. -/
def sets (outcomes : List (Outcome K V)) : List (Matched K V) :=
  outcomes.filterMap fun
    | .matched set => some set
    | .dropped _ => none

theorem sets_append (first second : List (Outcome K V)) :
    sets (first ++ second) = sets first ++ sets second := List.filterMap_append ..

theorem sets_dropped (els : List (Element K V)) :
    sets (els.map Outcome.dropped) = [] := by
  induction els with
  | nil => rfl
  | cons el rest ih => exact ih

/-- The buffers are in order of time. -/
def Sorted (keys : List K) (bufs : Buffers K V) : Prop :=
  ∀ k ∈ keys, Chronological Element.tNs (bufs k)

/-- An instant that the heads make: every key has an element, and none is earlier. -/
structure Instant (keys : List K) (bufs : Buffers K V) (t : ℤ) : Prop where
  held : ∀ k ∈ keys, bufs k ≠ []
  le : ∀ k ∈ keys, ∀ e ∈ bufs k, t ≤ e.tNs
  attained : ∃ k ∈ keys, ∃ e ∈ bufs k, e.tNs = t

theorem head_le_of_sorted {l : List (Element K V)} (hl : Chronological Element.tNs l)
    {first e : Element K V} (hfirst : l.head? = some first) (he : e ∈ l) : first.tNs ≤ e.tNs := by
  cases l with
  | nil => cases he
  | cons a rest =>
      obtain rfl : a = first := by simpa using hfirst
      rcases List.mem_cons.mp he with rfl | hrest
      · exact le_refl _
      · exact (List.pairwise_cons.mp hl).1 e hrest

variable [DecidableEq K]

theorem pop_suffix (bufs : Buffers K V) (key k : K) : pop bufs key k <:+ bufs k := by
  unfold pop
  by_cases hk : k = key
  · rw [hk, Function.update_self]
    exact List.tail_suffix _
  · rw [Function.update_of_ne hk]

theorem pops_suffix (keys : List K) (bufs : Buffers K V) (k : K) :
    keys.foldl pop bufs k <:+ bufs k := by
  induction keys generalizing bufs with
  | nil => exact List.suffix_rfl
  | cons key keys ih => exact (ih (pop bufs key)).trans (pop_suffix bufs key k)

/-- What one turn does: elements are popped, and a set's instant is the earliest of all. -/
theorem flushTurn_spec {cfg : SyncConfig K V ε} {bufs bufs' : Buffers K V}
    {outcomes : List (Outcome K V)} (hsorted : Sorted cfg.matchKeys bufs)
    (hturn : flushTurn cfg bufs = some (outcomes, bufs')) :
    (∀ k, bufs' k <:+ bufs k) ∧
      (sets outcomes = [] ∨ ∃ set, sets outcomes = [set] ∧ Instant cfg.matchKeys bufs set.tNs) := by
  unfold flushTurn at hturn
  cases hheads : heads cfg.matchKeys bufs with
  | none => simp [hheads] at hturn
  | some hs =>
      cases hs with
      | nil => simp [hheads] at hturn
      | cons first rest =>
          obtain ⟨hown, hall⟩ := heads_spec hheads
          obtain ⟨hmem, hleast⟩ := oldestOf_spec first rest
          rw [hheads] at hturn
          dsimp only at hturn
          split at hturn
          · obtain ⟨rfl, rfl⟩ := Prod.mk.inj (Option.some_inj.mp hturn)
            refine ⟨pop_suffix bufs _, Or.inl ?_⟩
            split <;> rfl
          · obtain ⟨rfl, rfl⟩ := Prod.mk.inj (Option.some_inj.mp hturn)
            refine ⟨pops_suffix _ bufs, Or.inr ⟨_, rfl, ?_, ?_, ?_⟩⟩
            · intro k hk hnil
              obtain ⟨h, hh, rfl⟩ := hall k hk
              have hhead := (hown h hh).2
              rw [hnil] at hhead
              cases hhead
            · intro k hk e he
              obtain ⟨h, hh, rfl⟩ := hall k hk
              exact (hleast h hh).trans (head_le_of_sorted (hsorted _ hk) (hown h hh).2 he)
            · have holdest := hown _ hmem
              exact ⟨_, holdest.1, _, List.mem_of_head? holdest.2, rfl⟩

theorem pops_tail {keys : List K} {k : K} (hk : k ∈ keys) (bufs : Buffers K V) :
    keys.foldl pop bufs k <:+ (bufs k).tail := by
  induction keys generalizing bufs with
  | nil => cases hk
  | cons key keys ih =>
      by_cases hown : k = key
      · have hsuffix := pops_suffix keys (pop bufs key) k
        rw [hown] at hsuffix ⊢
        rwa [pop, Function.update_self] at hsuffix
      · have hrest := ih ((List.mem_cons.mp hk).resolve_left hown) (pop bufs key)
        rwa [pop, Function.update_of_ne hown] at hrest

/-- A turn pops an element at least. -/
theorem flushTurn_buffered {cfg : SyncConfig K V ε} {bufs bufs' : Buffers K V}
    {outcomes : List (Outcome K V)} (hturn : flushTurn cfg bufs = some (outcomes, bufs')) :
    buffered cfg.matchKeys bufs' < buffered cfg.matchKeys bufs := by
  have hless : (∀ k, (bufs' k).length ≤ (bufs k).length) ∧
      ∃ k ∈ cfg.matchKeys, (bufs' k).length < (bufs k).length := by
    unfold flushTurn at hturn
    cases hheads : heads cfg.matchKeys bufs with
    | none => simp [hheads] at hturn
    | some hs =>
        cases hs with
        | nil => simp [hheads] at hturn
        | cons first rest =>
            obtain ⟨hown, -⟩ := heads_spec hheads
            have hpos : ∀ h ∈ first :: rest, 0 < (bufs h.1).length := by
              intro h hh
              exact List.length_pos_of_mem (List.mem_of_head? (hown h hh).2)
            rw [hheads] at hturn
            dsimp only at hturn
            split at hturn
            · -- The oldest head alone is dropped, or one head of every key is taken.
              obtain ⟨-, rfl⟩ := Prod.mk.inj (Option.some_inj.mp hturn)
              have hmem := (oldestOf_spec first rest).1
              refine ⟨fun k => (pop_suffix bufs _ k).length_le, _, (hown _ hmem).1, ?_⟩
              have := hpos _ hmem
              rw [pop, Function.update_self, List.length_tail]
              omega
            · obtain ⟨-, rfl⟩ := Prod.mk.inj (Option.some_inj.mp hturn)
              have hfirst := (hown _ (List.mem_cons_self ..)).1
              refine ⟨fun k => (pops_suffix _ bufs k).length_le, first.1, hfirst, ?_⟩
              have hle := (pops_tail hfirst bufs).length_le
              have := hpos _ (List.mem_cons_self ..)
              rw [List.length_tail] at hle
              omega
  obtain ⟨hall, k, hk, hlt⟩ := hless
  have hle : ∀ keys : List K, buffered keys bufs' ≤ buffered keys bufs := by
    intro keys
    induction keys with
    | nil => exact Nat.le_refl _
    | cons key keys ih => exact Nat.add_le_add (hall key) ih
  generalize cfg.matchKeys = keys at hk ⊢
  induction keys with
  | nil => cases hk
  | cons key keys ih =>
      show (bufs' key).length + buffered keys bufs' < (bufs key).length + buffered keys bufs
      rcases List.mem_cons.mp hk with rfl | hk
      · have := hle keys
        omega
      · have := ih hk
        have := hall key
        omega

end StreamMatcher

open StreamMatcher

/-! ## The buffers and the pending sets -/

/-- What holds of the match elements buffered and the sets pending, those of the stream still
to come: all are in order of time, and none lies below a floor. -/
structure Held (cfg : SyncConfig K V ε) (rest : List (Element K V)) (floor : K → Option ℤ)
    (bufs : Buffers K V) (pending : List (Matched K V)) : Prop where
  sorted : Sorted cfg.matchKeys bufs
  upcoming : ∀ el ∈ rest, el.topic ∈ cfg.matchKeys → ∀ e ∈ bufs el.topic, e.tNs ≤ el.tNs
  pendingSorted : pending.Pairwise fun first second => first.tNs ≤ second.tNs
  pendingBuffered : ∀ set ∈ pending, ∀ k ∈ cfg.matchKeys, ∀ e ∈ bufs k, set.tNs ≤ e.tNs
  pendingUpcoming : ∀ set ∈ pending, ∀ el ∈ rest, el.topic ∈ cfg.matchKeys → set.tNs ≤ el.tNs
  floorPending : ∀ k ∈ cfg.resampleKeys, ∀ f ∈ floor k, ∀ set ∈ pending, f ≤ set.tNs
  floorBuffered : ∀ k ∈ cfg.resampleKeys, ∀ f ∈ floor k, ∀ j ∈ cfg.matchKeys, ∀ e ∈ bufs j,
    f ≤ e.tNs

section Held

variable {cfg : SyncConfig K V ε} {rest : List (Element K V)} {floor : K → Option ℤ}
  {bufs bufs' : Buffers K V} {pending : List (Matched K V)}

theorem Held.popped (hheld : Held cfg rest floor bufs pending)
    (hsuffix : ∀ k, bufs' k <:+ bufs k) : Held cfg rest floor bufs' pending where
  sorted := fun k hk => (hheld.sorted k hk).sublist (hsuffix k).sublist
  upcoming := fun el hel hk e he => hheld.upcoming el hel hk e ((hsuffix _).mem he)
  pendingSorted := hheld.pendingSorted
  pendingBuffered := fun set hset k hk e he =>
    hheld.pendingBuffered set hset k hk e ((hsuffix k).mem he)
  pendingUpcoming := hheld.pendingUpcoming
  floorPending := hheld.floorPending
  floorBuffered := fun k hk f hf j hj e he =>
    hheld.floorBuffered k hk f hf j hj e ((hsuffix j).mem he)

theorem Held.released (hheld : Held cfg rest floor bufs pending)
    {pending' : List (Matched K V)} (hsuffix : pending' <:+ pending) :
    Held cfg rest floor bufs pending' where
  sorted := hheld.sorted
  upcoming := hheld.upcoming
  pendingSorted := hheld.pendingSorted.sublist hsuffix.sublist
  pendingBuffered := fun set hset => hheld.pendingBuffered set (hsuffix.mem hset)
  pendingUpcoming := fun set hset => hheld.pendingUpcoming set (hsuffix.mem hset)
  floorPending := fun k hk f hf set hset => hheld.floorPending k hk f hf set (hsuffix.mem hset)
  floorBuffered := hheld.floorBuffered

/-- A set that the heads make joins the pending ones, whatever is popped for it. -/
theorem Held.joined (hheld : Held cfg rest floor bufs pending) {set : Matched K V}
    (hinstant : Instant cfg.matchKeys bufs set.tNs) :
    Held cfg rest floor bufs (pending ++ [set]) := by
  obtain ⟨j, hj, oldest, holdest, htime⟩ := hinstant.attained
  refine ⟨hheld.sorted, hheld.upcoming, ?_, ?_, ?_, ?_, hheld.floorBuffered⟩
  · refine List.pairwise_append.mpr ⟨hheld.pendingSorted, List.pairwise_singleton _ _, ?_⟩
    intro earlier hearlier other hother
    rw [List.mem_singleton.mp hother, ← htime]
    exact hheld.pendingBuffered earlier hearlier j hj oldest holdest
  · intro other hother k hk e he
    rcases List.mem_append.mp hother with hold | hnew
    · exact hheld.pendingBuffered other hold k hk e he
    · rw [List.mem_singleton.mp hnew]
      exact hinstant.le k hk e he
  · intro other hother el hel hk
    rcases List.mem_append.mp hother with hold | hnew
    · exact hheld.pendingUpcoming other hold el hel hk
    · rw [List.mem_singleton.mp hnew]
      obtain ⟨e, he⟩ := List.exists_mem_of_ne_nil _ (hinstant.held _ hk)
      exact (hinstant.le _ hk e he).trans (hheld.upcoming el hel hk e he)
  · intro k hk f hf other hother
    rcases List.mem_append.mp hother with hold | hnew
    · exact hheld.floorPending k hk f hf other hold
    · rw [List.mem_singleton.mp hnew, ← htime]
      exact hheld.floorBuffered k hk f hf j hj oldest holdest

variable [DecidableEq K]

theorem Held.flush (turns : ℕ) : ∀ {bufs : Buffers K V} {pending : List (Matched K V)},
    Held cfg rest floor bufs pending →
      Held cfg rest floor (flush cfg turns bufs).2 (pending ++ sets (flush cfg turns bufs).1) := by
  induction turns with
  | zero =>
      intro bufs pending hheld
      simpa [StreamMatcher.flush, sets] using hheld
  | succ turns ih =>
      intro bufs pending hheld
      unfold StreamMatcher.flush
      cases hturn : flushTurn cfg bufs with
      | none => simpa [sets] using hheld
      | some turn =>
          obtain ⟨outcomes, bufs'⟩ := turn
          obtain ⟨hsuffix, hsets⟩ := flushTurn_spec hheld.sorted hturn
          have hnext : Held cfg rest floor bufs' (pending ++ sets outcomes) := by
            rcases hsets with hnone | ⟨set, hone, hinstant⟩
            · rw [hnone, List.append_nil]
              exact hheld.popped hsuffix
            · rw [hone]
              exact (hheld.joined hinstant).popped hsuffix
          have hall := ih hnext
          dsimp only
          rw [sets_append, ← List.append_assoc]
          exact hall

/-- A match element joins its key's buffer. -/
theorem Held.arrived {el : Element K V} (hheld : Held cfg (el :: rest) floor bufs pending)
    (horder : ∀ later ∈ rest, later.topic = el.topic → el.tNs ≤ later.tNs)
    (hmatch : el.topic ∈ cfg.matchKeys)
    (hfloor : ∀ k ∈ cfg.resampleKeys, ∀ f ∈ floor k, f ≤ el.tNs) :
    Held cfg rest floor (Function.update bufs el.topic (bufs el.topic ++ [el])) pending := by
  have hmem : ∀ k e, e ∈ Function.update bufs el.topic (bufs el.topic ++ [el]) k →
      e ∈ bufs k ∨ k = el.topic ∧ e = el := by
    intro k e he
    by_cases hk : k = el.topic
    · subst hk
      rw [Function.update_self] at he
      rcases List.mem_append.mp he with hold | hnew
      · exact Or.inl hold
      · exact Or.inr ⟨rfl, List.mem_singleton.mp hnew⟩
    · rw [Function.update_of_ne hk] at he
      exact Or.inl he
  refine ⟨?_, ?_, hheld.pendingSorted, ?_, ?_, hheld.floorPending, ?_⟩
  · intro k hk
    by_cases hown : k = el.topic
    · subst hown
      rw [Function.update_self]
      refine List.pairwise_append.mpr ⟨hheld.sorted _ hk, List.pairwise_singleton _ _, ?_⟩
      intro a ha b hb
      rw [List.mem_singleton.mp hb]
      exact hheld.upcoming el (List.mem_cons_self ..) hk a ha
    · rw [Function.update_of_ne hown]
      exact hheld.sorted k hk
  · intro later hlater hk e he
    rcases hmem _ e he with hold | ⟨hown, rfl⟩
    · exact hheld.upcoming later (List.mem_cons_of_mem _ hlater) hk e hold
    · exact horder later hlater hown
  · intro set hset k hk e he
    rcases hmem _ e he with hold | ⟨hown, rfl⟩
    · exact hheld.pendingBuffered set hset k hk e hold
    · exact hheld.pendingUpcoming set hset e (List.mem_cons_self ..) hmatch
  · exact fun set hset later hlater => hheld.pendingUpcoming set hset later
      (List.mem_cons_of_mem _ hlater)
  · intro k hk f hf j hj e he
    rcases hmem _ e he with hold | ⟨hown, rfl⟩
    · exact hheld.floorBuffered k hk f hf j hj e hold
    · exact hfloor k hk f hf

theorem Held.push {el : Element K V} (hheld : Held cfg (el :: rest) floor bufs pending)
    (horder : ∀ later ∈ rest, later.topic = el.topic → el.tNs ≤ later.tNs)
    (hmatch : el.topic ∈ cfg.matchKeys)
    (hfloor : ∀ k ∈ cfg.resampleKeys, ∀ f ∈ floor k, f ≤ el.tNs) :
    Held cfg rest floor (push cfg bufs el).2 (pending ++ sets (push cfg bufs el).1) := by
  have harrived := hheld.arrived horder hmatch hfloor
  unfold StreamMatcher.push
  dsimp only
  split
  · have hpopped : Held cfg rest floor
        (Function.update bufs el.topic (bufs el.topic ++ [el]).tail) pending := by
      refine harrived.popped fun k => ?_
      by_cases hk : k = el.topic
      · rw [hk, Function.update_self, Function.update_self]
        exact List.tail_suffix _
      · rw [Function.update_of_ne hk, Function.update_of_ne hk]
    have hall := hpopped.flush (buffered cfg.matchKeys
      (Function.update bufs el.topic (bufs el.topic ++ [el]).tail))
    rw [sets_append]
    have hnone : sets (if cfg.emitPartial = true then
        List.map Outcome.dropped (bufs el.topic ++ [el]).head?.toList else []) = [] := by
      split
      · exact sets_dropped _
      · rfl
    rw [hnone, List.nil_append]
    exact hall
  · exact harrived.flush _

end Held

/-! ## Values at an instant -/

section Values

variable {cfg : SyncConfig K V ε} {samples samples' : Buffers K V} {floor : K → Option ℤ} {t : ℤ}

/-- The samples of the pruned loop and of the other one. -/
structure TrackOk (full kept : List (Element K V)) (floor : Option ℤ) : Prop where
  agrees : Agrees Element.tNs full kept floor
  full : Chronological Element.tNs full
  kept : Chronological Element.tNs kept

theorem TrackOk.valueAt_eq {full kept : List (Element K V)} {floor : Option ℤ}
    (htrack : TrackOk full kept floor) (hfloor : ∀ f ∈ floor, f ≤ t) (mode : ResampleMode) :
    Resampler.valueAt cfg kept t mode = Resampler.valueAt cfg full t mode := by
  unfold Resampler.valueAt
  rw [htrack.agrees.upTo_getLast? htrack.full htrack.kept hfloor,
    htrack.agrees.after_eq htrack.full htrack.kept hfloor, htrack.agrees.dropLast_getLast?]

theorem valuesAt_eq {keys : List (K × ResampleMode)}
    (htracks : ∀ key ∈ keys, TrackOk (samples' key.1) (samples key.1) (floor key.1))
    (hfloor : ∀ key ∈ keys, ∀ f ∈ floor key.1, f ≤ t) :
    Resampler.valuesAt cfg samples t keys = Resampler.valuesAt cfg samples' t keys := by
  induction keys with
  | nil => rfl
  | cons key rest ih =>
      obtain ⟨topic, mode⟩ := key
      have hfirst : Resampler.valueAt cfg (samples topic) t mode =
          Resampler.valueAt cfg (samples' topic) t mode :=
        (htracks _ (List.mem_cons_self ..)).valueAt_eq (hfloor _ (List.mem_cons_self ..)) mode
      have hrest := ih (fun key hkey => htracks key (List.mem_cons_of_mem _ hkey))
        (fun key hkey => hfloor key (List.mem_cons_of_mem _ hkey))
      simp only [Resampler.valuesAt, hfirst, hrest]

/-- The two loops close a set alike, its instant being above the floors. -/
theorem close_eq {set : Matched K V}
    (htracks : ∀ k ∈ cfg.resampleKeys, TrackOk (samples' k) (samples k) (floor k))
    (hfloor : ∀ k ∈ cfg.resampleKeys, ∀ f ∈ floor k, f ≤ set.tNs) :
    Resampler.close cfg samples set = Resampler.close cfg samples' set := by
  unfold Resampler.close
  rw [valuesAt_eq (fun key hkey => htracks key.1 (List.mem_map_of_mem hkey))
    (fun key hkey => hfloor key.1 (List.mem_map_of_mem hkey))]

theorem release_eq {pending : List (Matched K V)} (due : ℤ)
    (htracks : ∀ k ∈ cfg.resampleKeys, TrackOk (samples' k) (samples k) (floor k))
    (hfloor : ∀ k ∈ cfg.resampleKeys, ∀ f ∈ floor k, ∀ set ∈ pending, f ≤ set.tNs) :
    Resampler.release cfg samples due pending = Resampler.release cfg samples' due pending := by
  induction pending with
  | nil => rfl
  | cons set rest ih =>
      have hclose : Resampler.close cfg samples set = Resampler.close cfg samples' set :=
        close_eq htracks fun k hk f hf => hfloor k hk f hf set (List.mem_cons_self ..)
      have hrest := ih fun k hk f hf other hother =>
        hfloor k hk f hf other (List.mem_cons_of_mem _ hother)
      simp only [Resampler.release, hclose, hrest]

theorem release_suffix (due : ℤ) (pending : List (Matched K V)) :
    (Resampler.release cfg samples due pending).2.1 <:+ pending := by
  induction pending with
  | nil => exact List.suffix_rfl
  | cons set rest ih =>
      unfold Resampler.release
      split
      · split
        · exact List.suffix_cons _ _
        · exact ih.trans (List.suffix_cons _ _)
      · exact List.suffix_rfl

variable [DecidableEq K]

theorem push_self {el : Element K V} (hsorted : Chronological Element.tNs (samples el.topic)) :
    Resampler.push samples el el.topic = insort Element.tNs el (samples el.topic) := by
  unfold Resampler.push
  rw [Function.update_self]
  cases hlast : (samples el.topic).getLast? with
  | none =>
      rw [List.getLast?_eq_none_iff.mp hlast]
      rfl
  | some last =>
      dsimp only
      split
      · rfl
      · rename_i hge
        refine (insort_of_forall_le fun a ha => ?_).symm
        have hsplit : (samples el.topic).dropLast ++ [last] = samples el.topic :=
          List.dropLast_append_getLast? last hlast
        rw [← hsplit] at ha hsorted
        rcases List.mem_append.mp ha with hold | hend
        · have hle := (List.pairwise_append.mp hsorted).2.2 a hold last (List.mem_singleton_self _)
          exact hle.trans (not_lt.mp hge)
        · rw [List.mem_singleton.mp hend]
          exact not_lt.mp hge

theorem TrackOk.push {el : Element K V} {k : K} {floor : Option ℤ}
    (htrack : TrackOk (samples' k) (samples k) floor) :
    TrackOk (Resampler.push samples' el k) (Resampler.push samples el k) floor := by
  by_cases hk : k = el.topic
  · subst hk
    rw [push_self htrack.full, push_self htrack.kept]
    exact ⟨htrack.agrees.insort htrack.full htrack.kept el, htrack.full.insort el,
      htrack.kept.insort el⟩
  · unfold Resampler.push
    rw [Function.update_of_ne hk, Function.update_of_ne hk]
    exact htrack

end Values

/-! ## The two loops -/

namespace SyncConfig

variable {cfg : SyncConfig K V ε} {s s' : SyncState K V ε}

/-- The loop that prunes and the one that does not agree on all but the samples kept. -/
structure Twins (cfg : SyncConfig K V ε) (s s' : SyncState K V ε) : Prop where
  bufs : s.bufs = s'.bufs
  pending : s.pending = s'.pending
  watermark : s.watermark = s'.watermark
  out : s.out = s'.out
  error : s.error = s'.error
  tracks : ∀ k ∈ cfg.resampleKeys, TrackOk (s'.samples k) (s.samples k) (s.floor k)

theorem pending_absorb (outcomes : List (Outcome K V)) :
    (absorb s outcomes).pending = s.pending ++ sets outcomes := rfl

theorem Twins.absorb (htwins : Twins cfg s s') (outcomes : List (Outcome K V)) :
    Twins cfg (absorb s outcomes) (absorb s' outcomes) where
  bufs := htwins.bufs
  pending := by rw [pending_absorb, pending_absorb, htwins.pending]
  watermark := htwins.watermark
  out := by
    show s.out ++ _ = s'.out ++ _
    rw [htwins.out]
  error := htwins.error
  tracks := htwins.tracks

variable {rest : List (Element K V)}

/-- The invariant of the loop that prunes. -/
def Ready (cfg : SyncConfig K V ε) (rest : List (Element K V)) (s : SyncState K V ε) : Prop :=
  s.error = none → Held cfg rest s.floor s.bufs s.pending

/-- The frontier is not above any instant that may still be closed. -/
theorem frontier_le (hheld : Held cfg rest s.floor s.bufs s.pending) :
    (∀ set ∈ s.pending, cfg.frontier s ≤ set.tNs) ∧
      ∀ j ∈ cfg.matchKeys, ∀ e ∈ s.bufs j, cfg.frontier s ≤ e.tNs := by
  unfold frontier
  cases hpending : s.pending with
  | cons first others =>
      have hsorted := hheld.pendingSorted
      have hbuffered := hheld.pendingBuffered
      rw [hpending] at hsorted hbuffered
      refine ⟨fun set hset => ?_, fun j hj e he =>
        hbuffered first (List.mem_cons_self ..) j hj e he⟩
      rcases List.mem_cons.mp hset with rfl | hlater
      · exact le_refl _
      · exact (List.pairwise_cons.mp hsorted).1 set hlater
  | nil =>
      refine ⟨fun set hset => (nomatch hset), fun j hj e he => ?_⟩
      dsimp only
      unfold oldestNs
      have hhead : ∃ first, (s.bufs j).head? = some first := by
        cases hbuf : s.bufs j with
        | nil =>
            rw [hbuf] at he
            cases he
        | cons first others => exact ⟨first, rfl⟩
      obtain ⟨first, hfirst⟩ := hhead
      have hin : (j, first) ∈ cfg.matchKeys.filterMap
          fun k => (s.bufs k).head?.map fun el => (k, el) :=
        List.mem_filterMap.mpr ⟨j, hj, by rw [hfirst]; rfl⟩
      cases hheads : cfg.matchKeys.filterMap fun k => (s.bufs k).head?.map fun el => (k, el) with
      | nil =>
          rw [hheads] at hin
          cases hin
      | cons best others =>
          rw [hheads] at hin
          exact ((oldestOf_spec best others).2 _ hin).trans
            (head_le_of_sorted (hheld.sorted j hj) hfirst he)

theorem twins_releaseDue (htwins : Twins cfg s s') (due : ℤ)
    (hheld : Held cfg rest s.floor s.bufs s.pending) :
    Twins cfg (cfg.releaseDue s due) (cfg.releaseDue s' due) ∧
      Held cfg rest (cfg.releaseDue s due).floor (cfg.releaseDue s due).bufs
        (cfg.releaseDue s due).pending := by
  have hsame : Resampler.release cfg s.samples due s.pending =
      Resampler.release cfg s'.samples due s.pending :=
    release_eq due htwins.tracks hheld.floorPending
  have hsame' : Resampler.release cfg s.samples due s.pending =
      Resampler.release cfg s'.samples due s'.pending := by rw [hsame, htwins.pending]
  refine ⟨⟨htwins.bufs, ?_, htwins.watermark, ?_, ?_, htwins.tracks⟩, ?_⟩
  · show (Resampler.release cfg s.samples due s.pending).2.1 = _
    rw [hsame']
    rfl
  · show s.out ++ (Resampler.release cfg s.samples due s.pending).1 = _
    rw [hsame', htwins.out]
    rfl
  · show (Resampler.release cfg s.samples due s.pending).2.2 = _
    rw [hsame']
    rfl
  · exact hheld.released (release_suffix due s.pending)

/-- The sets left at the end, closed by both loops. -/
theorem closes_eq {sets : List (Matched K V)} :
    ∀ {s s' : SyncState K V ε}, Twins cfg s s' →
      (∀ k ∈ cfg.resampleKeys, ∀ f ∈ s.floor k, ∀ set ∈ sets, f ≤ set.tNs) →
      Twins cfg (sets.foldl cfg.closeNext s) (sets.foldl cfg.closeNext s') := by
  induction sets with
  | nil => exact fun htwins _ => htwins
  | cons set rest ih =>
      intro s s' htwins hfloor
      have hclose : Resampler.close cfg s.samples set = Resampler.close cfg s'.samples set :=
        close_eq htwins.tracks fun k hk f hf => hfloor k hk f hf set (List.mem_cons_self ..)
      have hnext : Twins cfg (cfg.closeNext s set) (cfg.closeNext s' set) ∧
          (cfg.closeNext s set).floor = s.floor := by
        unfold closeNext
        rw [← htwins.error, ← hclose]
        split
        · exact ⟨htwins, rfl⟩
        · cases Resampler.close cfg s.samples set with
          | error e =>
              exact ⟨⟨htwins.bufs, htwins.pending, htwins.watermark, htwins.out, rfl,
                htwins.tracks⟩, rfl⟩
          | ok group =>
              refine ⟨⟨htwins.bufs, htwins.pending, htwins.watermark, ?_, rfl, htwins.tracks⟩, rfl⟩
              show s.out ++ _ = s'.out ++ _
              rw [htwins.out]
      refine ih hnext.1 fun k hk f hf other hother => ?_
      rw [hnext.2] at hf
      exact hfloor k hk f hf other (List.mem_cons_of_mem _ hother)

theorem twins_start : Twins cfg {} {} ∧ ∀ stream, Ready cfg stream {} := by
  refine ⟨⟨rfl, rfl, rfl, rfl, rfl, fun k _ => ⟨rfl, List.Pairwise.nil, List.Pairwise.nil⟩⟩,
    fun stream _ => ?_⟩
  constructor <;> simp [Sorted, Chronological]

variable [DecidableEq K]

theorem twins_prune (htwins : Twins cfg s s')
    (hheld : Held cfg rest s.floor s.bufs s.pending) :
    Twins cfg (cfg.prune s (cfg.frontier s)) s' ∧
      Held cfg rest (cfg.prune s (cfg.frontier s)).floor s.bufs s.pending := by
  obtain ⟨hpending, hbuffered⟩ := frontier_le hheld
  have hfloor : ∀ k ∈ cfg.resampleKeys, (cfg.prune s (cfg.frontier s)).floor k =
      floorOf Element.tNs (s.floor k) (s.samples k)
        (retain Element.tNs (cfg.frontier s) (s.samples k)) := fun k hk => if_pos hk
  refine ⟨⟨htwins.bufs, htwins.pending, htwins.watermark, htwins.out, htwins.error, ?_⟩, ?_⟩
  · intro k hk
    have htrack := htwins.tracks k hk
    have hkept : (cfg.prune s (cfg.frontier s)).samples k =
        retain Element.tNs (cfg.frontier s) (s.samples k) := if_pos hk
    rw [hfloor k hk, hkept]
    exact ⟨htrack.agrees.retain _, htrack.full, htrack.kept.retain _⟩
  · refine ⟨hheld.sorted, hheld.upcoming, hheld.pendingSorted, hheld.pendingBuffered,
      hheld.pendingUpcoming, ?_, ?_⟩
    · intro k hk f hf set hset
      rw [hfloor k hk] at hf
      exact floorOf_le (htwins.tracks k hk).kept
        (fun f hf => hheld.floorPending k hk f hf set hset) (hpending set hset) f hf
    · intro k hk f hf j hj e he
      rw [hfloor k hk] at hf
      exact floorOf_le (htwins.tracks k hk).kept
        (fun f hf => hheld.floorBuffered k hk f hf j hj e he) (hbuffered j hj e he) f hf

/-- A match element arrives below no floor: it is not older than the oldest sample kept when
samples were last discarded. -/
def Arrives (cfg : SyncConfig K V ε) (s : SyncState K V ε) (el : Element K V) : Prop :=
  el.topic ∈ cfg.matchKeys → ∀ k ∈ cfg.resampleKeys, ∀ f ∈ s.floor k, f ≤ el.tNs

theorem twins_take {el : Element K V} (htwins : Twins cfg s s')
    (hheld : Held cfg (el :: rest) s.floor s.bufs s.pending)
    (horder : ∀ later ∈ rest, later.topic = el.topic → el.topic ∈ cfg.matchKeys →
      el.tNs ≤ later.tNs)
    (harrives : Arrives cfg s el) :
    Twins cfg (cfg.take s el) (cfg.take s' el) ∧
      Held cfg rest (cfg.take s el).floor (cfg.take s el).bufs (cfg.take s el).pending := by
  have hlater : Held cfg rest s.floor s.bufs s.pending :=
    { sorted := hheld.sorted
      upcoming := fun later hlater => hheld.upcoming later (List.mem_cons_of_mem _ hlater)
      pendingSorted := hheld.pendingSorted
      pendingBuffered := hheld.pendingBuffered
      pendingUpcoming := fun set hset later hlater =>
        hheld.pendingUpcoming set hset later (List.mem_cons_of_mem _ hlater)
      floorPending := hheld.floorPending
      floorBuffered := hheld.floorBuffered }
  unfold take
  split
  · rename_i hmatch
    rw [← htwins.bufs]
    have hsame : Twins cfg { s with bufs := (StreamMatcher.push cfg s.bufs el).2 }
        { s' with bufs := (StreamMatcher.push cfg s.bufs el).2 } :=
      ⟨rfl, htwins.pending, htwins.watermark, htwins.out, htwins.error, htwins.tracks⟩
    refine ⟨hsame.absorb _, ?_⟩
    exact hheld.push (fun later hin htopic => horder later hin htopic hmatch) hmatch
      (harrives hmatch)
  · split
    · refine ⟨⟨htwins.bufs, htwins.pending, htwins.watermark, htwins.out, htwins.error, ?_⟩, hlater⟩
      exact fun k hk => (htwins.tracks k hk).push
    · split
      · refine ⟨⟨htwins.bufs, htwins.pending, htwins.watermark, ?_, htwins.error, htwins.tracks⟩,
          hlater⟩
        show s.out ++ _ = s'.out ++ _
        rw [htwins.out]
      · exact ⟨htwins, hlater⟩

theorem step_error {prunes : Bool} (herror : s.error.isSome = true) (el : Element K V) :
    cfg.step prunes s el = s := by
  unfold step
  rw [if_pos herror]

/-- One turn of the two loops. -/
theorem twins_step {el : Element K V} (htwins : Twins cfg s s') (hready : Ready cfg (el :: rest) s)
    (horder : ∀ later ∈ rest, later.topic = el.topic → el.topic ∈ cfg.matchKeys →
      el.tNs ≤ later.tNs)
    (harrives : Arrives cfg s el) :
    Twins cfg (cfg.step true s el) (cfg.step false s' el) ∧
      Ready cfg rest (cfg.step true s el) := by
  cases herror : s.error with
  | some e =>
      have hsome : s.error.isSome = true := by rw [herror]; rfl
      have hsome' : s'.error.isSome = true := by rw [← htwins.error, herror]; rfl
      rw [step_error hsome, step_error hsome']
      refine ⟨htwins, fun hnone => ?_⟩
      rw [herror] at hnone
      cases hnone
  | none =>
      have hnone : ¬s.error.isSome = true := by rw [herror]; exact Bool.false_ne_true
      have hnone' : ¬s'.error.isSome = true := by
        rw [← htwins.error, herror]
        exact Bool.false_ne_true
      have hmarked : Twins cfg { s with watermark := max s.watermark el.tNs }
          { s' with watermark := max s'.watermark el.tNs } :=
        ⟨htwins.bufs, htwins.pending, by rw [htwins.watermark], htwins.out, htwins.error,
          htwins.tracks⟩
      obtain ⟨htaken, hheld⟩ := twins_take hmarked (hready herror) horder harrives
      unfold step
      rw [if_neg hnone, if_neg hnone']
      dsimp only
      generalize cfg.take { s with watermark := max s.watermark el.tNs } el = u at htaken hheld ⊢
      generalize cfg.take { s' with watermark := max s'.watermark el.tNs } el = u' at htaken ⊢
      obtain ⟨hreleased, hheld'⟩ := twins_releaseDue htaken (u.watermark - cfg.lagNs) hheld
      rw [← htaken.watermark]
      generalize cfg.releaseDue u (u.watermark - cfg.lagNs) = v at hreleased hheld' ⊢
      generalize cfg.releaseDue u' (u.watermark - cfg.lagNs) = v' at hreleased ⊢
      rw [if_pos (Or.inr rfl : v'.error.isSome = true ∨ false = false)]
      by_cases hraised : v.error.isSome = true
      · rw [if_pos (Or.inl hraised)]
        exact ⟨hreleased, fun _ => hheld'⟩
      · rw [if_neg (by simpa using hraised)]
        obtain ⟨hpruned, hheld''⟩ := twins_prune hreleased hheld'
        exact ⟨hpruned, fun _ => hheld''⟩

/-- The stream's match elements come in order of time, key by key. -/
def MatchOrder (cfg : SyncConfig K V ε) (stream : List (Element K V)) : Prop :=
  stream.Pairwise fun earlier later =>
    later.topic = earlier.topic → earlier.topic ∈ cfg.matchKeys → earlier.tNs ≤ later.tNs

/-- The two loops over a stream. -/
theorem twins_run {stream : List (Element K V)} (htwins : Twins cfg s s')
    (hready : Ready cfg stream s) (horder : MatchOrder cfg stream)
    (harrives : Along (cfg.step true) (Arrives cfg) s stream) :
    Twins cfg (stream.foldl (cfg.step true) s) (stream.foldl (cfg.step false) s') ∧
      Ready cfg [] (stream.foldl (cfg.step true) s) := by
  induction stream generalizing s s' with
  | nil => exact ⟨htwins, hready⟩
  | cons el rest ih =>
      obtain ⟨hfirst, hrest⟩ := List.pairwise_cons.mp horder
      obtain ⟨hnext, hready'⟩ := twins_step htwins hready hfirst harrives.1
      exact ih hnext hready' hrest harrives.2

/-- What the loops yield at the end of the stream. -/
theorem twins_finish (htwins : Twins cfg s s') (hready : Ready cfg [] s) :
    Twins cfg (cfg.finish s) (cfg.finish s') := by
  unfold finish
  rw [← htwins.error, ← htwins.bufs]
  split
  · exact htwins
  · rename_i hraised
    have hnone : s.error = none := by simpa using hraised
    have hheld := (hready hnone).flush (buffered cfg.matchKeys s.bufs)
    have hflushed : Twins cfg { s with bufs := (flushAll cfg s.bufs).2 }
        { s' with bufs := (flushAll cfg s.bufs).2 } :=
      ⟨rfl, htwins.pending, htwins.watermark, htwins.out, htwins.error, htwins.tracks⟩
    have habsorbed := hflushed.absorb (flushAll cfg s.bufs).1
    dsimp only
    rw [pending_absorb, pending_absorb, ← htwins.pending]
    refine closes_eq ⟨habsorbed.bufs, rfl, habsorbed.watermark, habsorbed.out, rfl,
      habsorbed.tracks⟩ ?_
    exact hheld.floorPending

/-- The loops yield the same after every front of the stream, and at its end. -/
theorem sync_prune_invisible (cfg : SyncConfig K V ε) (stream : List (Element K V))
    (horder : MatchOrder cfg stream)
    (harrives : Along (cfg.step true) (Arrives cfg) {} stream) :
    (∀ front, front <+: stream → (front.foldl (cfg.step true) {}).out =
        (front.foldl (cfg.step false) {}).out) ∧
      cfg.sync true stream = cfg.sync false stream := by
  refine ⟨?_, ?_⟩
  · rintro front ⟨back, rfl⟩
    have hfront := (along_append _ front back).mp harrives
    exact (twins_run twins_start.1 (twins_start.2 front)
      (List.pairwise_append.mp horder).1 hfront.1).1.out
  · obtain ⟨htwins, hready⟩ := twins_run twins_start.1 (twins_start.2 stream) horder harrives
    have hfinished := twins_finish htwins hready
    unfold sync
    cases cfg.argumentError with
    | some error => rfl
    | none =>
        show (_, _) = (_, _)
        rw [hfinished.out, hfinished.error]

/-! ## A late instant -/

theorem nodup_pose : ([(1, ResampleMode.nearest)].map Prod.fst : List ℕ).Nodup := by decide

/-- One camera, and a trajectory whose nearest sample is wanted. -/
def nearestPose : SyncConfig ℕ ℕ Unit where
  matchKeys := [0]
  resample := [(1, .nearest)]
  resample_nodup := nodup_pose
  tolNs := 0
  lagNs := 10
  onFuture := .hold
  staleNs := none
  window := 8
  passthrough := false
  emitPartial := false
  blend := fun _ _ _ => .ok none

/-- Three samples, and a frame at an instant. -/
def threeSamples (frame : ℤ) : List (Element ℕ ℕ) :=
  [⟨1, 0, 0⟩, ⟨1, 5, 5⟩, ⟨1, 10, 10⟩, ⟨0, frame, 0⟩]

/-- No element arrives more than `lag_ns` below the largest stamp before it. -/
def WithinLag (cfg : SyncConfig K V ε) (stream : List (Element K V)) : Prop :=
  stream.Pairwise fun earlier later => earlier.tNs - cfg.lagNs ≤ later.tNs

instance (s : SyncState ℕ ℕ Unit) (el : Element ℕ ℕ) : Decidable (Arrives nearestPose s el) :=
  inferInstanceAs (Decidable (_ → ∀ k ∈ nearestPose.resampleKeys, ∀ f ∈ s.floor k, f ≤ el.tNs))

theorem matchOrder_threeSamples (frame : ℤ) : nearestPose.MatchOrder (threeSamples frame) := by
  simp [MatchOrder, threeSamples, nearestPose]

theorem sync_prune_invisible_threeSamples :
    (∀ front, front <+: threeSamples 6 → (front.foldl (nearestPose.step true) {}).out =
        (front.foldl (nearestPose.step false) {}).out) ∧
      nearestPose.sync true (threeSamples 6) = nearestPose.sync false (threeSamples 6) := by
  exact sync_prune_invisible nearestPose (threeSamples 6) (matchOrder_threeSamples 6) (by decide)

/-- A frame 8 behind the last sample gets the sample at 5, not the one at 0. -/
theorem not_sync_prune_invisible :
    nearestPose.MatchOrder (threeSamples 2) ∧ WithinLag nearestPose (threeSamples 2) ∧
      nearestPose.sync true (threeSamples 2) ≠ nearestPose.sync false (threeSamples 2) := by
  refine ⟨matchOrder_threeSamples 2, ?_, by decide⟩
  simp [WithinLag, threeSamples, nearestPose]

end SyncConfig

end VisioSchema.Reader

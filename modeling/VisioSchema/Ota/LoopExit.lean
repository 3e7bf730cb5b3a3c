import VisioSchema.Ota.Budget

/-!
# The send loop is left

The iterations of the send loop that send a chunk or consume a resume are as many as the budget
allows (`Budget.lean`).  All others wait on the device, and they end with the deadline once the
clock moves on by some fixed amount in each of them.

## Strategy

Suppose that the loop is never left.  Then it goes on for ever once it was entered
(`loops_forever`), and since its budget is bounded there is a turn from which on no chunk is sent
and no resume is consumed (`idles_forever`).  From there on the head of the loop can only wait
(`waits`), it is reached again and again (`reaches_head`), and between two of its visits the
clock moves on.  So the deadline passes, which ends the loop (`not_idling`).

What a turn inside the loop can do is `LoopTurn`, with one lemma for each turn.
-/

namespace VisioSchema.Ota

open VisioSchema.Library

/-! ## One turn of the loop -/

section Turns

variable {T : Type*} [Zero T] [Add T] [Sub T] [LT T] [DecidableLT T] [Min T]
variable {d : Driver} {opts : Options T} {image : List Wire.Byte} {c c' : Config T} {a : Answer T}

/-- What no turn of the loop changes. -/
structure SameTransfer (c c' : Config T) : Prop where
  start : c'.start = c.start
  chunk : c'.chunk = c.chunk

/-- Everything a turn inside the loop can do. -/
inductive LoopTurn (opts : Options T) (c : Config T) (a : Answer T) : Config T → Prop
  | leaves {c' : Config T} (hlive : c'.pc.live = false) : LoopTurn opts c a c'
  | resumes {c' : Config T} (hsame : SameTransfer c c') (hconsumes : consumes opts c a = true)
      (hnext : c'.pc = .head) : LoopTurn opts c a c'
  | picks {c' : Config T} (hsame : SameTransfer c c') (n : ℕ) (hpc : c.pc = .head)
      (hnext : c'.pc = .chunkSend n) : LoopTurn opts c a c'
  | waits {c' : Config T} (hsame : SameTransfer c c') (hpc : c.pc = .head)
      (hclock : ¬ opts.deadline < a.clock - c.start) (hnext : c'.pc = .pump .sending) :
      LoopTurn opts c a c'
  | sends {c' : Config T} (hsame : SameTransfer c c') (n : ℕ) (hpc : c.pc = .chunkSend n)
      (hsent : c'.chunksSent = c.chunksSent + 1) (hnext : c'.pc = .pump .sending) :
      LoopTurn opts c a c'
  | drains {c' : Config T} (hsame : SameTransfer c c') (hpc : c.pc = .pump .sending)
      (hnext : c'.pc = .pump .sending ∨ c'.pc = .tail) : LoopTurn opts c a c'
  | checks {c' : Config T} (hsame : SameTransfer c c') (hpc : c.pc = .tail)
      (hnext : c'.pc = .head) : LoopTurn opts c a c'

omit [Add T] [Sub T] [LT T] [DecidableLT T] [Min T] in
theorem afterLoop_live : (afterLoop d opts image c).pc.live = false := by
  unfold afterLoop
  split
  · exact finish_live _
  split
  · exact finish_live _
  split
  · rfl
  · exact finish_live _

omit [Add T] [Min T] in
theorem head_loopTurn (hpc : c.pc = .head) : LoopTurn opts c a (head d opts image c a) := by
  unfold head
  split
  · exact .leaves afterLoop_live
  next hfinished =>
    split
    · exact .leaves (finish_live _)
    next hdeadline =>
      cases hresume : c.st.resumeTo with
      | some target =>
          have hconsumes : consumes opts c a = true := by
            simp [consumes, hpc, hfinished, hdeadline, hresume]
          simp only [rewind]
          split
          · exact .leaves (finish_live _)
          · exact .resumes ⟨rfl, rfl⟩ hconsumes hpc
      | none =>
          dsimp only
          split
          · exact .picks ⟨rfl, rfl⟩ _ hpc rfl
          split
          · exact .leaves afterLoop_live
          · exact .waits ⟨rfl, rfl⟩ hpc hdeadline rfl

omit [Add T] [Min T] in
theorem chunkSend_loopTurn (n : ℕ) (hpc : c.pc = .chunkSend n) :
    LoopTurn opts c a (chunkSend d opts image c n a) := by
  unfold chunkSend
  split
  · split
    · exact .leaves linkRaised_live
    · exact .leaves (finish_live _)
  dsimp only
  cases a.sendResult d with
  | ok =>
      refine .sends ⟨rfl, rfl⟩ n hpc ?_ rfl
      simp [Config.chunksSent, call, List.countP_append, Call.isChunk, chunkMessage, message]
  | gone => exact .leaves (finish_live _)
  | raised => exact .leaves linkRaised_live

omit [Add T] [Min T] in
theorem pump_loopTurn (hpc : c.pc = .pump .sending) :
    LoopTurn opts c a (pump d opts image c .sending a) := by
  unfold pump
  split
  · exact .leaves linkRaised_live
  cases a.recv with
  | nothing => exact .drains ⟨rfl, rfl⟩ hpc (Or.inr rfl)
  | undecodable =>
      cases d with
      | cpp => exact .drains ⟨rfl, rfl⟩ hpc (Or.inl hpc)
      | python => exact .leaves (finish_live _)
      | ts => exact .leaves linkRaised_live
  | status status => exact .drains ⟨rfl, rfl⟩ hpc (Or.inl hpc)

omit [Add T] [Min T] in
theorem tail_loopTurn (hpc : c.pc = .tail) : LoopTurn opts c a (tail d opts image c a) := by
  unfold tail
  split
  · exact .checks ⟨rfl, rfl⟩ hpc rfl
  split
  · exact .leaves (finish_live _)
  split
  · exact .checks ⟨rfl, rfl⟩ hpc rfl
  · exact .checks ⟨rfl, rfl⟩ hpc rfl

theorem step_loopTurn (d : Driver) (opts : Options T) (image : List Wire.Byte) (a : Answer T)
    (hloop : c.pc.looping = true) : LoopTurn opts c a (step d opts image c a) := by
  unfold step
  cases hpc : c.pc with
  | head => exact head_loopTurn hpc
  | chunkSend n => exact chunkSend_loopTurn n hpc
  | tail => exact tail_loopTurn hpc
  | pump back =>
      cases back with
      | sending => exact pump_loopTurn hpc
      | start => simp [hpc, Pc.looping] at hloop
      | committing deadline => simp [hpc, Pc.looping] at hloop
  | _ => simp [hpc, Pc.looping] at hloop

omit [Add T] [Min T] in
theorem LoopTurn.same (hturn : LoopTurn opts c a c') (hlive : c'.pc.live = true) :
    SameTransfer c c' := by
  cases hturn with
  | leaves hdead => simp [hlive] at hdead
  | resumes hsame _ _ => exact hsame
  | picks hsame _ _ _ => exact hsame
  | waits hsame _ _ _ => exact hsame
  | sends hsame _ _ _ _ => exact hsame
  | drains hsame _ _ => exact hsame
  | checks hsame _ _ => exact hsame

/-- The loop goes on, or no chunk is sent any more. -/
theorem step_looping (a : Answer T) (hloop : c.pc.looping = true) :
    (step d opts image c a).pc.looping = true ∨ (step d opts image c a).pc.live = false := by
  cases step_loopTurn d opts image a hloop with
  | leaves hlive => exact Or.inr hlive
  | resumes hsame hconsumes hnext => left; rw [hnext]; rfl
  | picks hsame n hpc hnext => left; rw [hnext]; rfl
  | waits hsame hpc hclock hnext => left; rw [hnext]; rfl
  | sends hsame n hpc hsent hnext => left; rw [hnext]; rfl
  | drains hsame hpc hnext =>
      left
      rcases hnext with hnext | hnext
      · rw [hnext]
        rfl
      · rw [hnext]
        rfl
  | checks hsame hpc hnext => left; rw [hnext]; rfl

theorem step_dead (a : Answer T) (hdead : c.pc.live = false) :
    (step d opts image c a).pc.live = false := by
  have hflow := step_flow d opts image c a
  generalize step d opts image c a = next at hflow ⊢
  cases hflow with
  | still hstill hpc hplace =>
      cases hlive : next.pc.live with
      | false => rfl
      | true => exact absurd (hplace hlive).1 (by simp [hdead])
  | settles smallest hpc _ _ _ _ _ => simp [Pc.live_of_asking hpc] at hdead
  | picks hpc _ _ => simp [hpc, Pc.live, Pc.looping] at hdead
  | sends n hpc _ _ _ _ _ => simp [hpc, Pc.live, Pc.looping] at hdead
  | rewinds target hpc _ _ _ _ _ => simp [hpc, Pc.live, Pc.looping] at hdead

theorem step_chunksSent_le (d : Driver) (opts : Options T) (image : List Wire.Byte) (c : Config T)
    (a : Answer T) : c.chunksSent ≤ (step d opts image c a).chunksSent := by
  have hflow := step_flow d opts image c a
  generalize step d opts image c a = next at hflow ⊢
  cases hflow with
  | still hstill _ _ => exact Nat.le_of_eq hstill.unsent.chunksSent.symm
  | settles smallest _ _ _ _ _ hunsent => exact Nat.le_of_eq hunsent.chunksSent.symm
  | picks _ _ _ => exact Nat.le_refl _
  | sends n _ _ hcalls _ _ _ =>
      simp only [Config.chunksSent, hcalls, List.countP_append]
      exact Nat.le_add_right _ _
  | rewinds target _ _ _ _ hunsent _ => exact Nat.le_of_eq hunsent.chunksSent.symm

end Turns

/-! ## Endless scripts -/

section Endless

variable {T : Type*} [AddCommGroup T] [LinearOrder T]
variable (d : Driver) (opts : Options T) (image : List Wire.Byte) (script : ℕ → Answer T)

/-- The relay before turn `k` of a script that never ends. -/
def relayAt (k : ℕ) : Config T := stateAt (step d opts image) {} script k

/-- An iteration that waits on the device moves the clock: the reading at the next head of the
loop is past its own by `ε`. -/
def Advances (ε : T) : Prop :=
  ∀ i j, i < j → (relayAt d opts image script i).pc = .head →
    (relayAt d opts image script (i + 1)).pc = .pump .sending →
    (relayAt d opts image script j).pc = .head →
    (∀ k, i < k → k < j → (relayAt d opts image script k).pc ≠ .head) →
    (script i).clock + ε ≤ (script j).clock

/-- A drain inside the loop comes to an end. -/
def DrainsEnd : Prop :=
  ∀ k, (relayAt d opts image script k).pc = .pump .sending →
    ∃ j, k < j ∧ (relayAt d opts image script j).pc ≠ .pump .sending

variable {d opts image script}

theorem relayAt_inBudget (hcountable : Countable d opts) (hchunk : 0 < opts.chunk) (k : ℕ) :
    InBudget d opts image (relayAt d opts image script k) :=
  stateAt_persists (fun _ a hc => step_inBudget hcountable hchunk a hc) (Nat.zero_le k)
    inBudget_init

/-- From turn `N` on, the loop goes on and neither sends a chunk nor consumes a resume. -/
structure Idling (d : Driver) (opts : Options T) (image : List Wire.Byte)
    (script : ℕ → Answer T) (N : ℕ) : Prop where
  looping : ∀ k, N ≤ k → (relayAt d opts image script k).pc.looping = true
  unsent : ∀ k, N ≤ k →
    (relayAt d opts image script (k + 1)).chunksSent = (relayAt d opts image script k).chunksSent
  unspent : ∀ k, N ≤ k → consumes opts (relayAt d opts image script k) (script k) = false

variable {N : ℕ}

namespace Idling

theorem live (hidling : Idling d opts image script N) {k : ℕ} (hk : N ≤ k) :
    (relayAt d opts image script k).pc.live = true :=
  Pc.live_of_looping (hidling.looping k hk)

theorem turn (hidling : Idling d opts image script N) {k : ℕ} (hk : N ≤ k) :
    LoopTurn opts (relayAt d opts image script k) (script k)
      (relayAt d opts image script (k + 1)) :=
  step_loopTurn d opts image (script k) (hidling.looping k hk)

theorem start (hidling : Idling d opts image script N) {k : ℕ} (hk : N ≤ k) :
    (relayAt d opts image script k).start = (relayAt d opts image script N).start := by
  induction k, hk using Nat.le_induction with
  | base => rfl
  | succ k hk ih =>
      rw [← ih]
      exact ((hidling.turn hk).same (hidling.live (Nat.le_succ_of_le hk))).start

theorem not_chunkSend (hidling : Idling d opts image script N) {k : ℕ} (hk : N ≤ k) (n : ℕ) :
    (relayAt d opts image script k).pc ≠ .chunkSend n := by
  intro hpc
  have hlive := hidling.live (Nat.le_succ_of_le hk)
  cases hidling.turn hk with
  | leaves hdead => simp [hlive] at hdead
  | resumes _ hconsumes _ => simp [hidling.unspent k hk] at hconsumes
  | picks _ _ hhead _ => simp [hpc] at hhead
  | waits _ hhead _ _ => simp [hpc] at hhead
  | sends _ _ _ hsent _ =>
      have hsame := hidling.unsent k hk
      omega
  | drains _ hpump _ => simp [hpc] at hpump
  | checks _ htail _ => simp [hpc] at htail

/-- What is left to do at the head of the loop is to wait. -/
theorem waits (hidling : Idling d opts image script N) {k : ℕ} (hk : N ≤ k)
    (hpc : (relayAt d opts image script k).pc = .head) :
    (relayAt d opts image script (k + 1)).pc = .pump .sending ∧
      ¬ opts.deadline < (script k).clock - (relayAt d opts image script k).start := by
  have hlive := hidling.live (Nat.le_succ_of_le hk)
  cases hidling.turn hk with
  | leaves hdead => simp [hlive] at hdead
  | resumes _ hconsumes _ => simp [hidling.unspent k hk] at hconsumes
  | picks _ n _ hnext => exact absurd hnext (hidling.not_chunkSend (Nat.le_succ_of_le hk) n)
  | waits _ _ hclock hnext => exact ⟨hnext, hclock⟩
  | sends _ n hsend _ _ => simp [hpc] at hsend
  | drains _ hpump _ => simp [hpc] at hpump
  | checks _ htail _ => simp [hpc] at htail

theorem head_of_tail (hidling : Idling d opts image script N) {k : ℕ} (hk : N ≤ k)
    (hpc : (relayAt d opts image script k).pc = .tail) :
    (relayAt d opts image script (k + 1)).pc = .head := by
  have hlive := hidling.live (Nat.le_succ_of_le hk)
  cases hidling.turn hk with
  | leaves hdead => simp [hlive] at hdead
  | resumes _ hconsumes _ => simp [hidling.unspent k hk] at hconsumes
  | picks _ _ hhead _ => simp [hpc] at hhead
  | waits _ hhead _ _ => simp [hpc] at hhead
  | sends _ n hsend _ _ => simp [hpc] at hsend
  | drains _ hpump _ => simp [hpc] at hpump
  | checks _ _ hnext => exact hnext

theorem tail_of_pump (hidling : Idling d opts image script N)
    (hdrains : DrainsEnd d opts image script) {k : ℕ} (hk : N ≤ k)
    (hpc : (relayAt d opts image script k).pc = .pump .sending) :
    ∃ j, k < j ∧ (relayAt d opts image script j).pc = .tail := by
  obtain ⟨j, hj, hleft, hbefore⟩ := exists_first_after (hdrains k hpc)
  obtain ⟨i, rfl⟩ : ∃ i, j = i + 1 := ⟨j - 1, by omega⟩
  have hpump : (relayAt d opts image script i).pc = .pump .sending := by
    rcases Nat.lt_or_ge k i with hlt | hge
    · exact Classical.not_not.mp (hbefore i hlt (Nat.lt_succ_self i))
    · rw [show i = k by omega]
      exact hpc
  have hi : N ≤ i := by omega
  have hlive := hidling.live (Nat.le_succ_of_le hi)
  refine ⟨i + 1, hj, ?_⟩
  cases hidling.turn hi with
  | leaves hdead => simp [hlive] at hdead
  | resumes _ hconsumes _ => simp [hidling.unspent i hi] at hconsumes
  | picks _ _ hhead _ => simp [hpump] at hhead
  | waits _ hhead _ _ => simp [hpump] at hhead
  | sends _ n hsend _ _ => simp [hpump] at hsend
  | drains _ _ hnext => exact hnext.resolve_left hleft
  | checks _ htail _ => simp [hpump] at htail

/-- The head of the loop is reached again and again. -/
theorem reaches_head (hidling : Idling d opts image script N)
    (hdrains : DrainsEnd d opts image script) {k : ℕ} (hk : N ≤ k) :
    ∃ j, k < j ∧ (relayAt d opts image script j).pc = .head := by
  have hpumped : ∀ {k}, N ≤ k → (relayAt d opts image script k).pc = .pump .sending →
      ∃ j, k < j ∧ (relayAt d opts image script j).pc = .head := by
    intro k hk hpc
    obtain ⟨j, hj, htail⟩ := hidling.tail_of_pump hdrains hk hpc
    exact ⟨j + 1, Nat.lt_succ_of_lt hj, hidling.head_of_tail (by omega) htail⟩
  have hloop := hidling.looping k hk
  cases hpc : (relayAt d opts image script k).pc with
  | head =>
      obtain ⟨j, hj, hhead⟩ := hpumped (Nat.le_succ_of_le hk) (hidling.waits hk hpc).1
      exact ⟨j, by omega, hhead⟩
  | chunkSend n => exact absurd hpc (hidling.not_chunkSend hk n)
  | tail => exact ⟨k + 1, Nat.lt_succ_self k, hidling.head_of_tail hk hpc⟩
  | pump back =>
      cases back with
      | sending => exact hpumped hk hpc
      | start => simp [hpc, Pc.looping] at hloop
      | committing deadline => simp [hpc, Pc.looping] at hloop
  | _ => simp [hpc, Pc.looping] at hloop

end Idling

/-- A loop that is never left goes on for ever once it was entered. -/
theorem loops_forever
    (hnever : ∀ N, ∃ k, N ≤ k ∧ (relayAt d opts image script k).pc.looping = true) :
    ∃ N, ∀ k, N ≤ k → (relayAt d opts image script k).pc.looping = true := by
  obtain ⟨N, -, hN⟩ := hnever 0
  refine ⟨N, fun k hk => ?_⟩
  induction k, hk using Nat.le_induction with
  | base => exact hN
  | succ k hk ih =>
      rcases step_looping (script k) ih with hloop | hdead
      · exact hloop
      · obtain ⟨j, hj, hlooping⟩ := hnever (k + 1)
        have hstays : (relayAt d opts image script j).pc.live = false :=
          stateAt_persists (P := fun c : Config T => c.pc.live = false)
            (fun _ a => step_dead a) hj hdead
        simp [Pc.live_of_looping hlooping] at hstays

/-- A loop that is never left comes to idle, for its budget is bounded. -/
theorem idles_forever (hcountable : Countable d opts) (hchunk : 0 < opts.chunk)
    (hnever : ∀ N, ∃ k, N ≤ k ∧ (relayAt d opts image script k).pc.looping = true) :
    ∃ N, Idling d opts image script N := by
  obtain ⟨first, hlooping⟩ := loops_forever hnever
  have hcounts : ∀ k, (relayAt d opts image script (k + 1)).resumes =
      (relayAt d opts image script k).resumes +
        (consumes opts (relayAt d opts image script k) (script k)).toNat :=
    fun k => step_counts hcountable (script k) (relayAt_inBudget hcountable hchunk k)
  have hsends : ∀ k, (relayAt d opts image script k).chunksSent ≤
      (relayAt d opts image script (k + 1)).chunksSent :=
    fun k => step_chunksSent_le d opts image _ (script k)
  have hchunks : ∀ k, first ≤ k →
      (relayAt d opts image script k).chunk = (relayAt d opts image script first).chunk := by
    intro k hk
    induction k, hk using Nat.le_induction with
    | base => rfl
    | succ k hk ih =>
        rw [← ih]
        have hturn := step_loopTurn d opts image (script k) (hlooping k hk)
        exact (hturn.same (Pc.live_of_looping (hlooping (k + 1) (Nat.le_succ_of_le hk)))).chunk
  -- both counts together never fall, and the budget bounds them
  let spent : ℕ → ℕ := fun k =>
    (relayAt d opts image script k).chunksSent + (relayAt d opts image script k).resumes
  have hmono : ∀ k, first ≤ k → spent k ≤ spent (k + 1) := by
    intro k _
    have hcount := hcounts k
    have hsend := hsends k
    simp only [spent]
    omega
  have hbound : ∀ k, first ≤ k → spent k ≤ ((relayAt d opts image script first).limit d opts image
      + 1) * (relayAt d opts image script first).pass image +
      ((relayAt d opts image script first).limit d opts image + 1) := by
    intro k hk
    have hbudget : Budget d opts image (relayAt d opts image script k) :=
      (relayAt_inBudget hcountable hchunk k).budget
    have hsent := hbudget.sent
    have hconsumed := hbudget.consumed
    rw [Config.limit, hchunks k hk, ← Config.limit] at hsent hconsumed
    rw [Config.pass, hchunks k hk, ← Config.pass] at hsent
    exact Nat.add_le_add hsent hconsumed
  obtain ⟨N, hN, hstays⟩ := eventually_constant hmono hbound
  have hsame : ∀ k, N ≤ k → (relayAt d opts image script (k + 1)).chunksSent =
        (relayAt d opts image script k).chunksSent ∧
      (consumes opts (relayAt d opts image script k) (script k)).toNat = 0 := by
    intro k hk
    have hspent : spent (k + 1) = spent k :=
      (hstays (k + 1) (Nat.le_succ_of_le hk)).trans (hstays k hk).symm
    have hcount := hcounts k
    have hsend := hsends k
    simp only [spent] at hspent
    exact ⟨by omega, by omega⟩
  refine ⟨N, fun k hk => hlooping k (Nat.le_trans hN hk), fun k hk => (hsame k hk).1, ?_⟩
  intro k hk
  exact Bool.toNat_eq_zero.mp (hsame k hk).2

variable [IsOrderedAddMonoid T] [Archimedean T] {ε : T}

/-- The deadline ends the waiting. -/
theorem not_idling (hε : 0 < ε) (hadvances : Advances d opts image script ε)
    (hdrains : DrainsEnd d opts image script) : ¬ Idling d opts image script N := by
  intro hidling
  obtain ⟨first, hfirst, hhead⟩ := hidling.reaches_head hdrains (Nat.le_refl N)
  have hlimit : ∀ k, (N ≤ k ∧ (relayAt d opts image script k).pc = .head) →
      (script k).clock ≤ (relayAt d opts image script N).start + opts.deadline := by
    rintro k ⟨hk, hpc⟩
    have hclock := not_lt.mp (hidling.waits hk hpc).2
    rw [hidling.start hk] at hclock
    exact sub_le_iff_le_add'.mp hclock
  have hlater : ∀ k, (N ≤ k ∧ (relayAt d opts image script k).pc = .head) →
      ∃ j, (N ≤ j ∧ (relayAt d opts image script j).pc = .head) ∧
        (script k).clock + ε ≤ (script j).clock := by
    rintro k ⟨hk, hpc⟩
    obtain ⟨j, hj, hnext, hbetween⟩ := exists_first_after (hidling.reaches_head hdrains hk)
    have hmoved := hadvances k j hj hpc (hidling.waits hk hpc).1 hnext hbetween
    exact ⟨j, ⟨by omega, hnext⟩, hmoved⟩
  exact no_visit hε hlimit hlater first ⟨Nat.le_of_lt hfirst, hhead⟩

/-- Whatever the device reports and the clock reads: the chunks that are sent, the resumes that are
consumed, and the end of the loop.  Clock readings and timeouts are finite: no duration is out of
reach of repeated steps of `ε`, as an infinite timeout would be. -/
theorem relay_bounded (d : Driver) (opts : Options T) (image : List Wire.Byte)
    (hchunk : 0 < opts.chunk) (hcountable : Countable d opts) (script : ℕ → Answer T) :
    (∀ k, (relayAt d opts image script k).chunksSent ≤
          (maxResumes d opts.maxResumes image.length (relayAt d opts image script k).chunk + 1) *
            (image.length ⌈/⌉ (relayAt d opts image script k).chunk) ∧
        tally (step d opts image) (consumes opts) {} (inputsBefore script k) ≤
          maxResumes d opts.maxResumes image.length (relayAt d opts image script k).chunk + 1) ∧
      ∀ ε : T, 0 < ε → Advances d opts image script ε → DrainsEnd d opts image script →
        ∃ N, ∀ k, N ≤ k → (relayAt d opts image script k).pc.looping = false := by
  refine ⟨fun k => ?_, fun ε hε hadvances hdrains => ?_⟩
  · have hbudget : Budget d opts image (relayAt d opts image script k) :=
      (relayAt_inBudget hcountable hchunk k).budget
    refine ⟨hbudget.sent, ?_⟩
    have hcounted : (relayAt d opts image script k).resumes =
        0 + tally (step d opts image) (consumes opts) {} (inputsBefore script k) := by
      rw [relayAt, stateAt_eq_foldl]
      exact tally_counted (fun _ a hc => step_inBudget hcountable hchunk a hc)
        (fun _ a hc => step_counts hcountable a hc) inBudget_init (inputsBefore script k)
    have hconsumed := hbudget.consumed
    rw [hcounted, Nat.zero_add] at hconsumed
    exact hconsumed
  · by_contra hstays
    have hnever : ∀ N, ∃ k, N ≤ k ∧ (relayAt d opts image script k).pc.looping = true := by
      intro N
      by_contra hnone
      refine hstays ⟨N, fun k hk => ?_⟩
      cases hloop : (relayAt d opts image script k).pc.looping with
      | false => rfl
      | true => exact absurd ⟨k, hk, hloop⟩ hnone
    obtain ⟨N, hidling⟩ := idles_forever hcountable hchunk hnever
    exact not_idling hε hadvances hdrains hidling

end Endless

/-! ## A silent device -/

/-- Nothing is heard, and the clock goes on by 100 seconds a turn. -/
def silentScript (k : ℕ) : Answer ℤ := { clock := 100000 * k }

theorem silent_advances : Advances .cpp smallOptions smallImage silentScript 100000 := by
  intro i j hij _ _ _ _
  simp only [silentScript]
  omega

theorem silent_drainsEnd : DrainsEnd .cpp smallOptions smallImage silentScript := by
  intro k hpc
  refine ⟨k + 1, Nat.lt_succ_self k, ?_⟩
  have htail : (relayAt .cpp smallOptions smallImage silentScript (k + 1)).pc = .tail := by
    show (step .cpp smallOptions smallImage (relayAt .cpp smallOptions smallImage silentScript k)
      (silentScript k)).pc = .tail
    simp [step, hpc, pump, silentScript, Answer.throws, pumped]
  simp [htail]

/-- The relay gives up on it. -/
theorem relay_bounded_silent :
    ∃ N, ∀ k, N ≤ k →
      (relayAt .cpp smallOptions smallImage silentScript k).pc.looping = false :=
  (relay_bounded .cpp smallOptions smallImage (by decide) (fun _ _ hgiven => nomatch hgiven)
    silentScript).2 100000 (by decide) silent_advances silent_drainsEnd

/-! ## A limit that the counter does not exceed -/

/-- One byte, one chunk, and the largest limit of resumes in C++. -/
def patientOptions : Options ℤ :=
  { plainOptions with chunk := 1, maxResumes := some 4294967295 }

/-- The top of the loop between two chunks. -/
def between (resumes : ℕ) (calls : List Call) (heard : List OtaStatus) : Config ℤ :=
  { pc := .head, chunk := 1, resumes := resumes, calls := calls, heard := heard }

/-- The chunk is sent, the device asks for it again, and the relay rewinds. -/
def lossyRound : List (Answer ℤ) :=
  [{ clock := 0 }, { clock := 0 }, { clock := 0, recv := .status { state := .needsResume } },
    { clock := 0 }, { clock := 0 }, { clock := 0 }]

theorem lossyRound_run (resumes : ℕ) (calls : List Call) (heard : List OtaStatus) :
    lossyRound.foldl (step .cpp patientOptions [7]) (between resumes calls heard) =
      between ((resumes + 1) % word32)
        (calls ++ [.sent (chunkMessage .cpp patientOptions 0 [7])])
        ({ state := .needsResume } :: heard) := by
  have hkept : ¬ 4294967295 < (resumes + 1) % word32 := by
    unfold word32
    omega
  simp [lossyRound, between, step, head, chunkSend, pump, pumped, tail, rewind, Folded.finished,
    patientOptions, plainOptions, defaultOptions, inWindow, word64, maxResumes, bump, fold, foreign,
    foldOwn, call, Answer.throws, Answer.sendResult, slice]
  exact fun hlossy => absurd hlossy hkept

theorem lossyRound_tally (resumes : ℕ) (calls : List Call) (heard : List OtaStatus) :
    tally (step .cpp patientOptions [7]) (consumes patientOptions) (between resumes calls heard)
      lossyRound = 1 := by
  simp [lossyRound, between, step, head, chunkSend, pump, pumped, tail, consumes, Folded.finished,
    patientOptions, plainOptions, defaultOptions, inWindow, word64, fold, foreign, foldOwn, call,
    Answer.throws, Answer.sendResult, slice]

def lossyRounds : ℕ → List (Answer ℤ)
  | 0 => []
  | n + 1 => lossyRound ++ lossyRounds n

theorem lossyRounds_run (n : ℕ) (resumes : ℕ) (calls : List Call) (heard : List OtaStatus) :
    (∃ resumes' calls' heard', (lossyRounds n).foldl (step .cpp patientOptions [7])
        (between resumes calls heard) = between resumes' calls' heard' ∧
        calls'.countP Call.isChunk = calls.countP Call.isChunk + n) ∧
      tally (step .cpp patientOptions [7]) (consumes patientOptions) (between resumes calls heard)
        (lossyRounds n) = n := by
  induction n generalizing resumes calls heard with
  | zero => exact ⟨⟨resumes, calls, heard, rfl, rfl⟩, rfl⟩
  | succ n ih =>
      have hrun := lossyRound_run resumes calls heard
      obtain ⟨⟨resumes', calls', heard', hrest, hsent⟩, htally⟩ := ih ((resumes + 1) % word32)
        (calls ++ [.sent (chunkMessage .cpp patientOptions 0 [7])])
        ({ state := .needsResume } :: heard)
      constructor
      · refine ⟨resumes', calls', heard', ?_, ?_⟩
        · rw [lossyRounds, List.foldl_append, hrun, hrest]
        · rw [hsent, List.countP_append, Nat.add_assoc, Nat.add_comm n 1]
          rfl
      · rw [lossyRounds, tally_append, lossyRound_tally, hrun, htally, Nat.add_comm]

/-- The begin is sent and nothing is heard. -/
def openScript : List (Answer ℤ) := List.replicate 3 { clock := 0 }

theorem open_run : openScript.foldl (step .cpp patientOptions [7]) {} =
    between 0 [.sent (beginMessage .cpp patientOptions 1 1)] [] := rfl

/-- The device can make the relay send its chunk, and consume a resume, as often as it likes. -/
theorem lossyRounds_unbounded (n : ℕ) :
    (relay .cpp patientOptions [7] (openScript ++ lossyRounds n)).chunk = 1 ∧
      (relay .cpp patientOptions [7] (openScript ++ lossyRounds n)).chunksSent = n ∧
      tally (step .cpp patientOptions [7]) (consumes patientOptions) {}
        (openScript ++ lossyRounds n) = n := by
  obtain ⟨⟨resumes', calls', heard', hrun, hsent⟩, htally⟩ :=
    lossyRounds_run n 0 [.sent (beginMessage .cpp patientOptions 1 1)] []
  have hlast : relay .cpp patientOptions [7] (openScript ++ lossyRounds n) =
      between resumes' calls' heard' := by
    rw [relay, List.foldl_append, open_run, hrun]
  refine ⟨?_, ?_, ?_⟩
  · rw [hlast]
    rfl
  · rw [hlast]
    exact hsent.trans (Nat.zero_add n)
  · rw [tally_append, open_run, htally]
    exact Nat.zero_add n

/-- A counter of 32 bits never exceeds `2^32 - 1`: with that limit more chunks are sent and more
resumes consumed than the limit allows. -/
theorem not_relay_bounded :
    (maxResumes .cpp patientOptions.maxResumes 1 1 + 1) * (1 ⌈/⌉ 1) <
        (relay .cpp patientOptions [7] (openScript ++ lossyRounds 4294967297)).chunksSent ∧
      maxResumes .cpp patientOptions.maxResumes 1 1 + 1 <
        tally (step .cpp patientOptions [7]) (consumes patientOptions) {}
          (openScript ++ lossyRounds 4294967297) ∧
      (relay .cpp patientOptions [7] (openScript ++ lossyRounds 4294967297)).chunk = 1 := by
  obtain ⟨hchunk, hsent, htally⟩ := lossyRounds_unbounded 4294967297
  rw [hsent, htally]
  exact ⟨by decide, by decide, hchunk⟩

end VisioSchema.Ota

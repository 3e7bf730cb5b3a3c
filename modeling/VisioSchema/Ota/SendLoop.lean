import Mathlib.Tactic.Push
import VisioSchema.Library.Runs
import VisioSchema.Ota.Agreement

/-!
# The send loop

The cursor of a relay is moved by its sends, by the offsets that the device asks to resume from
and by the relay's own retries.  What a turn can do to the transfer is said once, by `Flow`.

## Strategy

`step_flow` is assembled from one lemma for each turn, and everything below it is read off
`Flow`.

A chunk is picked at the head of the loop and sent in the next turn, so what the head has tested
still holds when it is sent, whatever moved the cursor before: that is `Poised`, and it is kept
by every turn (`step_poised`).  Whether a chunk then keeps to the window is a matter of its size
alone (`windowed_iff`), since a C++ message carries no data of 64 KiB or more; so the run lemma
is an equivalence (`run_windowed_iff`).  A chunk size within the protocol's limit is settled
before the first chunk and stays (`SettledBy`), and with it every run keeps to the window
(`run_windowed`).
-/

namespace VisioSchema.Ota

open VisioSchema.Library

/-! ## Chunks and places -/

/-- The calls that send an OtaChunk. -/
def Call.isChunk : Call → Bool
  | .sent msg =>
      match msg.body with
      | .chunk .. => true
      | _ => false
  | .quiesce _ => false

/-- How many OtaChunk messages were handed to `send`. -/
def Config.chunksSent {T : Type*} [Zero T] (c : Config T) : ℕ := c.calls.countP Call.isChunk

/-- The places before the chunk size is settled. -/
def Pc.asking {T : Type*} : Pc T → Bool
  | .quiesceOn | .querySend | .queryHead .. | .queryRecv .. => true
  | _ => false

/-- The places inside the send loop. -/
def Pc.looping {T : Type*} : Pc T → Bool
  | .head | .chunkSend _ | .pump .sending | .tail => true
  | _ => false

/-- The places from which a chunk may still be sent. -/
def Pc.live {T : Type*} : Pc T → Bool
  | .beginSend | .pump .start => true
  | pc => pc.asking || pc.looping

theorem Pc.live_of_asking {T : Type*} {pc : Pc T} (hasking : pc.asking = true) :
    pc.live = true := by
  cases pc <;> first | rfl | exact absurd hasking (by simp [Pc.asking])

theorem Pc.live_of_looping {T : Type*} {pc : Pc T} (hloop : pc.looping = true) :
    pc.live = true := by
  cases pc with
  | pump back => cases back <;> first | rfl | exact absurd hloop (by simp [Pc.looping])
  | _ => first | rfl | exact absurd hloop (by simp [Pc.looping])

/-! ## What a turn does to the transfer -/

section Flow

variable {T : Type*} [Zero T]

/-- A turn that makes no call with a chunk, and one call at most. -/
def Unsent (c c' : Config T) : Prop :=
  c'.calls = c.calls ∨ ∃ made, made.isChunk = false ∧ c'.calls = c.calls ++ [made]

/-- Nothing of the transfer moves. -/
structure Still (c c' : Config T) : Prop where
  chunk : c'.chunk = c.chunk
  cursor : c'.cursor = c.cursor
  resumes : c'.resumes = c.resumes
  unsent : Unsent c c'

/-- Everything one turn can do to the cursor, the chunks and the count of resumes. -/
inductive Flow (d : Driver) (opts : Options T) (image : List Wire.Byte) (c : Config T)
    (a : Answer T) : Config T → Prop
  | still {c' : Config T} (hstill : Still c c') (hpc : ∀ n, c'.pc ≠ .chunkSend n)
      (hplace : c'.pc.live = true → c.pc.live = true ∧ c'.pc.asking = c.pc.asking) :
      Flow d opts image c a c'
  | settles {c' : Config T} (smallest : ℕ) (hpc : c.pc.asking = true)
      (hnext : c'.pc = .beginSend)
      (hchunk : c'.chunk = negotiatedChunk opts.chunk opts.chunkCap smallest)
      (hcursor : c'.cursor = c.cursor) (hresumes : c'.resumes = c.resumes)
      (hunsent : Unsent c c') : Flow d opts image c a c'
  | picks (hpc : c.pc = .head) (hcursor : c.cursor < image.length)
      (hwindow : inWindow d opts.window c.cursor c.st.acked
        (min c.chunk (image.length - c.cursor)) = true) :
      Flow d opts image c a { c with pc := .chunkSend (min c.chunk (image.length - c.cursor)) }
  | sends {c' : Config T} (n : ℕ) (hpc : c.pc = .chunkSend n) (hread : a.read = true)
      (hcalls : c'.calls =
        c.calls ++ [.sent (chunkMessage d opts c.cursor (slice image c.cursor n))])
      (hchunk : c'.chunk = c.chunk) (hresumes : c'.resumes = c.resumes)
      (hnext : c'.pc = .pump .sending ∧ c'.cursor = c.cursor + n ∨ c'.pc.live = false) :
      Flow d opts image c a c'
  | rewinds {c' : Config T} (target : ℕ) (hpc : c.pc = .head)
      (hresume : c.st.resumeTo = some target) (hchunk : c'.chunk = c.chunk)
      (hresumes : c'.resumes = bump d c.resumes) (hunsent : Unsent c c')
      (hnext : c'.pc = .head ∧
          bump d c.resumes ≤ maxResumes d opts.maxResumes image.length c.chunk ∨
        c'.pc.live = false ∧
          maxResumes d opts.maxResumes image.length c.chunk < bump d c.resumes) :
      Flow d opts image c a c'

variable {d : Driver} {opts : Options T} {image : List Wire.Byte} {c c' : Config T} {a : Answer T}

theorem Still.refl (c : Config T) : Still c c := ⟨rfl, rfl, rfl, Or.inl rfl⟩

/-- A turn that leaves the loop, or stays out of it. -/
theorem Flow.leaves (hstill : Still c c') (hlive : c'.pc.live = false) :
    Flow d opts image c a c' := by
  refine .still hstill ?_ ?_
  · intro n hpc
    rw [hpc] at hlive
    exact absurd hlive (by simp [Pc.live, Pc.looping])
  · intro htrue
    rw [hlive] at htrue
    exact absurd htrue (by simp)

/-- A turn that goes on asking for the chunk size. -/
theorem Flow.asks (hstill : Still c c') (hpc : c.pc.asking = true) (hnext : c'.pc.asking = true) :
    Flow d opts image c a c' := by
  refine .still hstill ?_ fun _ => ⟨Pc.live_of_asking hpc, hnext.trans hpc.symm⟩
  intro n hn
  rw [hn] at hnext
  exact absurd hnext (by simp [Pc.asking])

/-! ### One lemma for each turn -/

theorem finish_live (outcome : Option Outcome) : (finish c outcome).pc.live = false := by
  unfold finish
  cases c.quieted <;> rfl

theorem linkRaised_live : (linkRaised image c).pc.live = false := by
  unfold linkRaised
  split <;> exact finish_live _

theorem Still.linkRaised (hstill : Still c c') : Still c (linkRaised image c') := by
  unfold Ota.linkRaised
  split <;> exact ⟨hstill.chunk, hstill.cursor, hstill.resumes, hstill.unsent⟩

theorem flow_endWith (ok : Bool) (reason : Reason) (hstill : Still c c') :
    Flow d opts image c a (endWith image c' ok reason) :=
  .leaves ⟨hstill.chunk, hstill.cursor, hstill.resumes, hstill.unsent⟩ (finish_live _)

theorem flow_linkRaised (hstill : Still c c') : Flow d opts image c a (linkRaised image c') :=
  .leaves hstill.linkRaised linkRaised_live

theorem flow_abortWith (why : String) (ok : Bool) (reason : Reason) :
    Flow d opts image c a (abortWith d opts image c why ok reason) :=
  flow_endWith ok reason ⟨rfl, rfl, rfl, Or.inr ⟨_, rfl, rfl⟩⟩

theorem flow_chooseChunk (smallest : ℕ) (hpc : c.pc.asking = true) (hstill : Still c c') :
    Flow d opts image c a (chooseChunk opts c' smallest) :=
  .settles smallest hpc rfl rfl hstill.cursor hstill.resumes hstill.unsent

theorem flow_undecodable (hstill : Still c c') (hpc : ∀ n, c'.pc ≠ .chunkSend n)
    (hplace : c'.pc.live = true → c.pc.live = true ∧ c'.pc.asking = c.pc.asking) :
    Flow d opts image c a (undecodable d image c') := by
  cases d with
  | cpp => exact .still hstill hpc hplace
  | python =>
      exact .leaves ⟨hstill.chunk, hstill.cursor, hstill.resumes, hstill.unsent⟩ (finish_live none)
  | ts => exact flow_linkRaised hstill

theorem flow_afterLoop : Flow d opts image c a (afterLoop d opts image c) := by
  unfold afterLoop
  split
  · exact flow_endWith _ _ (.refl c)
  split
  · exact flow_endWith _ _ (.refl c)
  split
  · exact .leaves ⟨rfl, rfl, rfl, Or.inl rfl⟩ rfl
  · exact flow_abortWith _ _ _

theorem flow_verdict : Flow d opts image c a (verdict image c) := by
  unfold verdict
  split
  · exact flow_endWith _ _ (.refl c)
  split
  · exact flow_endWith _ _ (.refl c)
  split <;> exact flow_endWith _ _ (.refl c)

theorem flow_afterQuiesce (hpc : c.pc.asking = true) (hstill : Still c c') :
    Flow d opts image c a (afterQuiesce opts c') := by
  unfold afterQuiesce
  split
  · exact .asks ⟨hstill.chunk, hstill.cursor, hstill.resumes, hstill.unsent⟩ hpc rfl
  · exact flow_chooseChunk 0 hpc hstill

theorem still_call (made : Call) (hmade : made.isChunk = false) : Still c (call c made) :=
  ⟨rfl, rfl, rfl, Or.inr ⟨made, hmade, rfl⟩⟩

theorem flow_quiesceOn (hpc : c.pc = .quiesceOn) :
    Flow d opts image c a (quiesceOn d opts image c a) := by
  have hasking : c.pc.asking = true := by rw [hpc]; rfl
  unfold quiesceOn
  split
  · exact flow_afterQuiesce hasking (.refl c)
  split
  · exact flow_linkRaised (still_call (.quiesce true) rfl)
  · exact flow_afterQuiesce hasking ⟨rfl, rfl, rfl, Or.inr ⟨.quiesce true, rfl, rfl⟩⟩

theorem flow_queryRecv (deadline : T) (smallest : ℕ) (hpc : c.pc = .queryRecv deadline smallest) :
    Flow d opts image c a (queryRecv d opts image c deadline smallest a) := by
  have hasking : c.pc.asking = true := by rw [hpc]; rfl
  have hasked : ∀ smallest, Flow d opts image c a { c with pc := .queryHead deadline smallest } :=
    fun smallest => .asks ⟨rfl, rfl, rfl, Or.inl rfl⟩ hasking rfl
  unfold queryRecv
  split
  · exact flow_linkRaised (.refl c)
  cases a.recv with
  | nothing =>
      dsimp only
      split
      · exact flow_chooseChunk smallest hasking (.refl c)
      · exact hasked smallest
  | undecodable =>
      exact flow_undecodable ⟨rfl, rfl, rfl, Or.inl rfl⟩ (by simp)
        fun _ => ⟨Pc.live_of_asking hasking, hasking.symm⟩
  | status status => exact hasked _

theorem flow_pump (back : Back T) (hpc : c.pc = .pump back) :
    Flow d opts image c a (pump d opts image c back a) := by
  have hplace : Pc.live (pumped back) = true →
      c.pc.live = true ∧ (pumped back).asking = c.pc.asking := by
    rw [hpc]
    cases back <;> simp [pumped, Pc.live, Pc.looping, Pc.asking]
  unfold pump
  split
  · exact flow_linkRaised (.refl c)
  cases a.recv with
  | nothing =>
      refine .still ⟨rfl, rfl, rfl, Or.inl rfl⟩ ?_ hplace
      cases back <;> simp [pumped]
  | undecodable => exact flow_undecodable (.refl c) (by simp [hpc]) fun hlive => ⟨hlive, rfl⟩
  | status status =>
      exact .still ⟨rfl, rfl, rfl, Or.inl rfl⟩ (by simp [hpc]) fun hlive => ⟨hlive, rfl⟩

theorem flow_rewind (hpc : c.pc = .head) {target : ℕ} (hresume : c.st.resumeTo = some target) :
    Flow d opts image c a (rewind d opts image c target) := by
  simp only [rewind]
  split
  next hlossy =>
    exact .rewinds target hpc hresume rfl rfl (Or.inr ⟨_, rfl, rfl⟩)
      (Or.inr ⟨finish_live _, hlossy⟩)
  next hkept =>
    exact .rewinds target hpc hresume rfl rfl (Or.inl rfl) (Or.inl ⟨hpc, Nat.not_lt.mp hkept⟩)

theorem flow_chunkSend (n : ℕ) (hpc : c.pc = .chunkSend n) :
    Flow d opts image c a (chunkSend d opts image c n a) := by
  unfold chunkSend
  cases hread : a.read with
  | false =>
      rw [if_pos rfl]
      split
      · exact flow_linkRaised (.refl c)
      · exact flow_endWith _ _ (.refl c)
  | true =>
      rw [if_neg (by simp)]
      dsimp only
      cases a.sendResult d with
      | ok => exact .sends n hpc hread rfl rfl rfl (Or.inl ⟨rfl, rfl⟩)
      | gone => exact .sends n hpc hread rfl rfl rfl (Or.inr (finish_live _))
      | raised =>
          refine .sends n hpc hread ?_ ?_ ?_ (Or.inr linkRaised_live)
          · exact linkRaised_calls
          · exact (Still.linkRaised (.refl _)).chunk
          · exact (Still.linkRaised (.refl _)).resumes

end Flow

section Turns

variable {T : Type*} [Zero T] [Add T] [Sub T] [LT T] [DecidableLT T] [Min T]
variable {d : Driver} {opts : Options T} {image : List Wire.Byte} {c : Config T} {a : Answer T}

omit [Add T] [Min T] in
theorem flow_head (hpc : c.pc = .head) : Flow d opts image c a (head d opts image c a) := by
  unfold head
  split
  · exact flow_afterLoop
  split
  · exact flow_abortWith _ _ _
  cases hresume : c.st.resumeTo with
  | some target => exact flow_rewind hpc hresume
  | none =>
      dsimp only
      split
      next hsend => exact .picks hpc hsend.1 hsend.2
      split
      · exact flow_afterLoop
      · exact .still ⟨rfl, rfl, rfl, Or.inl rfl⟩ (by simp)
          (by simp [hpc, Pc.live, Pc.looping, Pc.asking])

omit [Add T] [Min T] in
theorem flow_tail (hpc : c.pc = .tail) : Flow d opts image c a (tail d opts image c a) := by
  have hhead : ∀ {c' : Config T}, Still c c' → c'.pc = .head → Flow d opts image c a c' := by
    intro c' hstill hnext
    exact .still hstill (by simp [hnext]) (by simp [hnext, hpc, Pc.live, Pc.looping, Pc.asking])
  unfold tail
  split
  · exact hhead ⟨rfl, rfl, rfl, Or.inl rfl⟩ rfl
  split
  · exact flow_abortWith _ _ _
  split
  · exact hhead ⟨rfl, rfl, rfl, Or.inl rfl⟩ rfl
  · exact hhead ⟨rfl, rfl, rfl, Or.inl rfl⟩ rfl

theorem step_flow (d : Driver) (opts : Options T) (image : List Wire.Byte) (c : Config T)
    (a : Answer T) : Flow d opts image c a (step d opts image c a) := by
  unfold step
  cases hpc : c.pc with
  | quiesceOn => exact flow_quiesceOn hpc
  | querySend =>
      have hasking : c.pc.asking = true := by rw [hpc]; rfl
      simp only [querySend]
      cases a.sendResult d with
      | ok =>
          exact .asks ⟨rfl, rfl, rfl, Or.inr ⟨_, rfl, rfl⟩⟩ hasking rfl
      | gone => exact flow_chooseChunk 0 hasking (still_call _ rfl)
      | raised => exact flow_linkRaised (still_call _ rfl)
  | queryHead deadline smallest =>
      have hasking : c.pc.asking = true := by rw [hpc]; rfl
      simp only [queryHead]
      split
      · exact .asks ⟨rfl, rfl, rfl, Or.inl rfl⟩ hasking rfl
      · exact flow_chooseChunk smallest hasking (.refl c)
  | queryRecv deadline smallest => exact flow_queryRecv deadline smallest hpc
  | beginSend =>
      simp only [beginSend]
      cases a.sendResult d with
      | ok =>
          exact .still ⟨rfl, rfl, rfl, Or.inr ⟨_, rfl, rfl⟩⟩ (by simp)
            (by simp [hpc, Pc.live, Pc.asking])
      | gone => exact flow_endWith _ _ (still_call _ rfl)
      | raised => exact flow_linkRaised (still_call _ rfl)
  | pump back => exact flow_pump back hpc
  | head => exact flow_head hpc
  | chunkSend n => exact flow_chunkSend n hpc
  | tail => exact flow_tail hpc
  | commitSend =>
      simp only [commitSend]
      cases a.sendResult d with
      | ok => exact .leaves ⟨rfl, rfl, rfl, Or.inr ⟨_, rfl, rfl⟩⟩ rfl
      | gone => exact flow_endWith _ _ (still_call _ rfl)
      | raised => exact flow_linkRaised (still_call _ rfl)
  | commitHead deadline =>
      simp only [commitHead]
      split
      · exact flow_verdict
      split
      · exact .leaves ⟨rfl, rfl, rfl, Or.inl rfl⟩ rfl
      · exact flow_verdict
  | restore outcome => exact .leaves ⟨rfl, rfl, rfl, Or.inr ⟨_, rfl, rfl⟩⟩ rfl
  | done outcome => exact .leaves (.refl c) (by rw [hpc]; rfl)

/-! ## The window -/

/-- What the head of the loop has tested when it picks a chunk still holds when it is sent. -/
structure Poised (d : Driver) (opts : Options T) (image : List Wire.Byte) (c : Config T) :
    Prop where
  acked : c.st.acked < word64
  picked : ∀ n, c.pc = .chunkSend n → c.cursor < image.length ∧
    n = min c.chunk (image.length - c.cursor) ∧
      inWindow d opts.window c.cursor c.st.acked n = true

/-- A chunk that is sent in a turn carries the `n` bytes by which the cursor moves on, at least
one of them, and all that is in flight with it fits the window. -/
def Windowed (d : Driver) (opts : Options T) (image : List Wire.Byte) (c : Config T)
    (a : Answer T) : Prop :=
  ∀ msg offset data, (step d opts image c a).calls = c.calls ++ [.sent msg] →
    msg.body = .chunk offset data →
    ∃ n, c.pc = .chunkSend n ∧ data = slice image offset n ∧ 0 < n ∧
      offset + n ≤ image.length ∧ (offset : ℤ) + n - c.st.acked ≤ opts.window

/-- The chunk that is about to be sent has a size that its message can carry. -/
def Sizeable (d : Driver) (c : Config T) (a : Answer T) : Prop :=
  ∀ n, c.pc = .chunkSend n → a.read = true → 0 < n ∧ (d = .cpp → n < 65536)

omit [Add T] [Sub T] [LT T] [DecidableLT T] [Min T] in
theorem poised_init : Poised d opts image ({} : Config T) :=
  ⟨by simp [word64], by simp⟩

theorem step_acked_lt (hacked : c.st.acked < word64) :
    (step d opts image c a).st.acked < word64 := by
  have hturn := step_turn d opts image c a
  generalize step d opts image c a = next at hturn ⊢
  cases hturn with
  | silent hquiet hcalls => rw [hquiet.acked]; exact hacked
  | calls made hdue hquiet hcalls => rw [hquiet.acked]; exact hacked
  | hears back status hpc hrecv => exact fold_acked_lt hacked d _ status
  | leaves hpc hfailure hstaged hcommit hall => exact hacked

theorem step_poised (a : Answer T) (hpoised : Poised d opts image c) :
    Poised d opts image (step d opts image c a) := by
  refine ⟨step_acked_lt hpoised.acked, ?_⟩
  intro n hn
  have hflow := step_flow d opts image c a
  generalize step d opts image c a = next at hflow hn ⊢
  cases hflow with
  | still hstill hpc hplace => exact absurd hn (hpc n)
  | settles smallest hpc hnext hchunk hcursor hresumes hunsent => simp [hnext] at hn
  | picks hpc hcursor hwindow =>
      cases hn
      exact ⟨hcursor, rfl, hwindow⟩
  | sends m hpc hread hcalls hchunk hresumes hnext =>
      rcases hnext with ⟨hpump, -⟩ | hlive
      · simp [hpump] at hn
      · simp [hn, Pc.live, Pc.looping] at hlive
  | rewinds target hpc hresume hchunk hresumes hunsent hnext =>
      rcases hnext with ⟨hhead, -⟩ | ⟨hlive, -⟩
      · simp [hhead] at hn
      · simp [hn, Pc.live, Pc.looping] at hlive

omit [Add T] [Sub T] [LT T] [DecidableLT T] [Min T] in
theorem Unsent.no_chunk {c' : Config T} (hunsent : Unsent c c') {msg : OtaMessage} {offset : ℕ}
    {data : List Wire.Byte} (hcalls : c'.calls = c.calls ++ [.sent msg])
    (hbody : msg.body = .chunk offset data) : False := by
  rcases hunsent with hsame | ⟨made, hmade, hadded⟩
  · rw [hsame] at hcalls
    simp at hcalls
  · have hcall : made = .sent msg := by simpa using hadded.symm.trans hcalls
    rw [hcall] at hmade
    simp [Call.isChunk, hbody] at hmade

theorem sends_of_chunk {msg : OtaMessage} {offset : ℕ} {data : List Wire.Byte}
    (hcalls : (step d opts image c a).calls = c.calls ++ [.sent msg])
    (hbody : msg.body = .chunk offset data) :
    ∃ n, c.pc = .chunkSend n ∧ a.read = true ∧
      msg = chunkMessage d opts c.cursor (slice image c.cursor n) := by
  have hflow := step_flow d opts image c a
  generalize step d opts image c a = next at hflow hcalls
  cases hflow with
  | still hstill hpc hplace => exact (hstill.unsent.no_chunk hcalls hbody).elim
  | settles smallest hpc hnext hchunk hcursor hresumes hunsent =>
      exact (hunsent.no_chunk hcalls hbody).elim
  | picks hpc hcursor hwindow => simp at hcalls
  | sends n hpc hread hmade hchunk hresumes hnext =>
      have hmsg := hmade.symm.trans hcalls
      exact ⟨n, hpc, hread, by simpa using hmsg.symm⟩
  | rewinds target hpc hresume hchunk hresumes hunsent hnext =>
      exact (hunsent.no_chunk hcalls hbody).elim

theorem step_sends {n : ℕ} (hpc : c.pc = .chunkSend n) (hread : a.read = true) :
    (step d opts image c a).calls =
      c.calls ++ [.sent (chunkMessage d opts c.cursor (slice image c.cursor n))] := by
  simp only [step, hpc, chunkSend, hread]
  cases a.sendResult d with
  | ok => rfl
  | gone => rfl
  | raised => exact linkRaised_calls

omit [Zero T] [Add T] [Sub T] [LT T] [DecidableLT T] [Min T] in
theorem length_slice {offset n : ℕ} (hend : offset + n ≤ image.length) :
    (slice image offset n).length = n := by
  simp only [slice, List.length_take, List.length_drop]
  omega

/-- A message carries its data whole unless it is 64 KiB or more, in C++. -/
theorem chunkData_eq_iff (d : Driver) (data : List Wire.Byte) :
    chunkData d data = data ↔ (d = .cpp → data.length < 65536) := by
  cases d with
  | cpp =>
      simp only [chunkData, List.take_eq_self_iff, true_implies]
      omega
  | python => simp [chunkData]
  | ts => simp [chunkData]

/-- In C++ the difference wraps, which only ever makes it larger. -/
theorem in_flight_le {window cursor acked n : ℕ} (hend : d = .cpp → cursor + n < word64)
    (hacked : acked < word64) (hwindow : inWindow d window cursor acked n = true) :
    (cursor : ℤ) + n - acked ≤ window := by
  cases d with
  | cpp =>
      have hend := hend rfl
      simp only [inWindow, decide_eq_true_eq] at hwindow
      unfold word64 at *
      omega
  | python =>
      simp only [inWindow, decide_eq_true_eq] at hwindow
      omega
  | ts =>
      simp only [inWindow, decide_eq_true_eq] at hwindow
      omega

/-- A turn keeps to the window exactly if the size of the chunk is one that a message carries. -/
theorem windowed_iff (himage : d = .cpp → image.length < word64)
    (hpoised : Poised d opts image c) (a : Answer T) :
    Windowed d opts image c a ↔ Sizeable d c a := by
  constructor
  · intro hwindowed n hpc hread
    obtain ⟨m, hm, hdata, hpos, hend, -⟩ := hwindowed _ _ _ (step_sends hpc hread) rfl
    have hsame : m = n := by
      rw [hpc] at hm
      exact (Pc.chunkSend.inj hm).symm
    subst hsame
    refine ⟨hpos, fun hcpp => ?_⟩
    have hlt := (chunkData_eq_iff d _).mp hdata hcpp
    rwa [length_slice hend] at hlt
  · intro hsizeable msg offset data hcalls hbody
    obtain ⟨n, hpc, hread, rfl⟩ := sends_of_chunk hcalls hbody
    obtain ⟨hpos, hsize⟩ := hsizeable n hpc hread
    obtain ⟨hcursor, hmin, hwindow⟩ := hpoised.picked n hpc
    have hend : c.cursor + n ≤ image.length := by omega
    obtain ⟨rfl, rfl⟩ : c.cursor = offset ∧ chunkData d (slice image c.cursor n) = data := by
      simpa [chunkMessage, message] using hbody
    refine ⟨n, hpc, ?_, hpos, hend, ?_⟩
    · rw [chunkData_eq_iff, length_slice hend]
      exact hsize
    · refine in_flight_le (fun hcpp => ?_) hpoised.acked hwindow
      exact Nat.lt_of_le_of_lt hend (himage hcpp)

/-- In every run, each chunk is a non-empty piece of the image within the window, exactly if each
has a size that its message carries. -/
theorem run_windowed_iff (d : Driver) (opts : Options T) (image : List Wire.Byte)
    (himage : d = .cpp → image.length < word64) (answers : List (Answer T)) :
    Along (step d opts image) (Windowed d opts image) {} answers ↔
      Along (step d opts image) (Sizeable d) {} answers :=
  along_congr (I := Poised d opts image) (fun _ a hpoised => windowed_iff himage hpoised a)
    (fun _ a hpoised _ => step_poised a hpoised) poised_init answers

/-! ### Chunk sizes that every message carries -/

omit [Add T] [Sub T] [LT T] [DecidableLT T] [Min T] [Zero T] in
theorem negotiatedChunk_pos (hchunk : 0 < opts.chunk) (smallest : ℕ) :
    0 < negotiatedChunk opts.chunk opts.chunkCap smallest := by
  simp only [negotiatedChunk, kMinChunkBytes, kMaxChunkBytes]
  split <;> split <;> omega

/-- What holds of whatever is negotiated holds of the chunk size once it is settled. -/
def SettledBy (P : ℕ → Prop) (c : Config T) : Prop :=
  c.pc.live = true → c.pc.asking = false → P c.chunk

theorem step_settledBy {P : ℕ → Prop}
    (hP : ∀ smallest, P (negotiatedChunk opts.chunk opts.chunkCap smallest)) (a : Answer T)
    (hc : SettledBy P c) : SettledBy P (step d opts image c a) := by
  intro hlive hasking
  have hflow := step_flow d opts image c a
  generalize step d opts image c a = next at hflow hlive hasking ⊢
  cases hflow with
  | still hstill hpc hplace =>
      obtain ⟨hbefore, hsame⟩ := hplace hlive
      rw [hstill.chunk]
      exact hc hbefore (hsame ▸ hasking)
  | settles smallest hpc hnext hchunk hcursor hresumes hunsent =>
      rw [hchunk]
      exact hP smallest
  | picks hpc hcursor hwindow => exact hc (by rw [hpc]; rfl) (by rw [hpc]; rfl)
  | sends n hpc hread hcalls hchunk hresumes hnext =>
      rw [hchunk]
      exact hc (by rw [hpc]; rfl) (by rw [hpc]; rfl)
  | rewinds target hpc hresume hchunk hresumes hunsent hnext =>
      rw [hchunk]
      exact hc (by rw [hpc]; rfl) (by rw [hpc]; rfl)

omit [Add T] [Sub T] [LT T] [DecidableLT T] [Min T] in
theorem settledBy_init (P : ℕ → Prop) : SettledBy P ({} : Config T) :=
  fun _ hasking => absurd hasking (by simp [Pc.asking])

/-- With a chunk size from 1 up to the limit of the protocol, every run keeps to the window. -/
theorem run_windowed (d : Driver) (opts : Options T) (image : List Wire.Byte)
    (himage : d = .cpp → image.length < word64) (hpos : 0 < opts.chunk)
    (hmax : opts.chunk ≤ kMaxChunkBytes) (answers : List (Answer T)) :
    Along (step d opts image) (Windowed d opts image) {} answers := by
  have hsettles : ∀ smallest, 0 < negotiatedChunk opts.chunk opts.chunkCap smallest ∧
      negotiatedChunk opts.chunk opts.chunkCap smallest ≤ kMaxChunkBytes :=
    fun smallest => ⟨negotiatedChunk_pos hpos smallest, negotiatedChunk_le hmax⟩
  refine (run_windowed_iff d opts image himage answers).mpr ?_
  refine along_of_invariant
    (I := fun c => Poised d opts image c ∧ SettledBy (fun n => 0 < n ∧ n ≤ kMaxChunkBytes) c)
    (fun c a hc => ⟨step_poised a hc.1, step_settledBy hsettles a hc.2⟩) ?_
    ⟨poised_init, settledBy_init _⟩ answers
  rintro c a ⟨hpoised, hsettled⟩ n hpc hread
  obtain ⟨hcursor, hmin, -⟩ := hpoised.picked n hpc
  obtain ⟨hchunk, hbound⟩ := hsettled (by rw [hpc]; rfl) (by rw [hpc]; rfl)
  unfold kMaxChunkBytes at hbound
  exact ⟨by omega, fun _ => by omega⟩

end Turns

/-! ## Chunk sizes that no message carries -/

/-- A run that hears its device out keeps to the window. -/
theorem run_windowed_iff_watermark :
    (Along (step .cpp smallOptions smallImage) (Windowed .cpp smallOptions smallImage) {}
        (rewindScript 8) ↔
      Along (step .cpp smallOptions smallImage) (Sizeable .cpp) {} (rewindScript 8)) ∧
    Along (step .cpp smallOptions smallImage) (Windowed .cpp smallOptions smallImage) {}
      (rewindScript 8) :=
  ⟨run_windowed_iff .cpp smallOptions smallImage (by decide) (rewindScript 8),
    run_windowed .cpp smallOptions smallImage (by decide) (by decide) (by decide) _⟩

/-- A chunk of 64 KiB, whose length the 16 bits of the C++ message count as 0. -/
def wideOptions : Options ℤ := { plainOptions with chunk := 65536 }

def emptyOptions : Options ℤ := { plainOptions with chunk := 0 }

/-- The begin is sent, nothing is heard, and the first chunk is picked. -/
def pickScript : List (Answer ℤ) := List.replicate 4 { clock := 0 }

theorem picked_wide {image : List Wire.Byte} (hlength : image.length = 65536) :
    (relay .cpp wideOptions image pickScript).pc = .chunkSend 65536 := by
  have hwindow : inWindow .cpp (2 * 1024 * 1024) 0 0 65536 = true := by decide
  simp [relay, pickScript, step, quiesceOn, afterQuiesce, chooseChunk, beginSend, pump, pumped,
    head, wideOptions, plainOptions, defaultOptions, negotiatedChunk, Answer.sendResult,
    Answer.throws, Folded.finished, call, hlength, hwindow]

/-- In C++ a chunk of 64 KiB is sent without its bytes; a chunk size of 0 sends empty chunks in
every driver. -/
theorem not_run_windowed :
    ¬ Along (step .cpp wideOptions (List.replicate 65536 0))
        (Windowed .cpp wideOptions (List.replicate 65536 0)) {} (pickScript ++ [{ clock := 0 }]) ∧
      ¬ Along (step .python emptyOptions [1]) (Windowed .python emptyOptions [1]) {}
        (pickScript ++ [{ clock := 0 }]) := by
  constructor
  · rw [along_append]
    rintro ⟨-, hwindowed, -⟩
    have hlength : (List.replicate 65536 (0 : Wire.Byte)).length = 65536 := List.length_replicate
    have hpicked := picked_wide hlength
    obtain ⟨n, hn, hdata, -, hend, -⟩ := hwindowed _ _ _ (step_sends hpicked rfl) rfl
    have hsize : n = 65536 := (Pc.chunkSend.inj (hpicked.symm.trans hn)).symm
    rw [hsize] at hdata hend
    have hlt := (chunkData_eq_iff .cpp _).mp hdata rfl
    rw [length_slice hend] at hlt
    exact Nat.lt_irrefl _ hlt
  · rw [along_append]
    rintro ⟨-, hwindowed, -⟩
    obtain ⟨n, hn, -, hpos, -⟩ := hwindowed _ _ _ (step_sends (n := 0) rfl rfl) rfl
    cases hn
    exact absurd hpos (by decide)

end VisioSchema.Ota

import Mathlib.Algebra.Order.Floor.Div
import VisioSchema.Library.EndlessRuns
import VisioSchema.Ota.SendLoop

/-!
# The budget of a transfer

Whatever the device reports, a transfer sends at most one pass over the image for each resume it
may consume, and one more.  The chunks that were sent and the chunks that are left from the
cursor on stay within the passes that were begun (`Budget`): a send takes one chunk from what is
left (`Budget.send`), and a rewind, wherever it goes, begins a pass (`Budget.rewind`).

The counter of the driver counts the resumes that are consumed, and does not wrap as long as the
limit is kept (`bump_eq`).  So the passes that were begun are passes that may be
(`Budget.sent_le`).  The invariant of all configurations is `InBudget`; before the chunk size is
settled nothing is spent.
-/

namespace VisioSchema.Ota

open VisioSchema.Library

/-! ## Limits -/

section Limits

variable {T : Type*} {d : Driver} {opts : Options T}

/-- A limit of resumes that the counter of the driver can exceed. -/
def Countable (d : Driver) (opts : Options T) : Prop :=
  d = .cpp → ∀ limit, opts.maxResumes = some limit → limit + 1 < word32

/-- The counter does not wrap as long as the limit is kept. -/
theorem bump_eq (hcountable : Countable d opts) {total chunk resumes : ℕ}
    (hle : resumes ≤ maxResumes d opts.maxResumes total chunk) : bump d resumes = resumes + 1 := by
  cases d with
  | python => rfl
  | ts => rfl
  | cpp =>
      have hderived : derivedResumes total chunk % word32 + 1 < word32 := by
        unfold derivedResumes word32
        omega
      have hlimit : maxResumes .cpp opts.maxResumes total chunk + 1 < word32 := by
        cases hgiven : opts.maxResumes with
        | none => exact hderived
        | some limit =>
            cases limit with
            | zero => exact hderived
            | succ limit => exact hcountable rfl (limit + 1) hgiven
      exact Nat.mod_eq_of_lt (by omega)

/-- A full chunk, or all that is left, is one chunk less that is left. -/
theorem ceilDiv_take {left chunk : ℕ} (hchunk : 0 < chunk) (hleft : 0 < left) :
    (left - min chunk left) ⌈/⌉ chunk + 1 ≤ left ⌈/⌉ chunk := by
  simp only [Nat.ceilDiv_eq_add_pred_div]
  rcases Nat.le_total chunk left with hfull | hrest
  · rw [Nat.min_eq_left hfull]
    have hsum : left + chunk - 1 = (left - chunk + chunk - 1) + chunk := by omega
    rw [hsum, Nat.add_div_right _ hchunk]
  · rw [Nat.min_eq_right hrest, Nat.sub_self, Nat.zero_add, Nat.div_eq_of_lt (by omega)]
    exact Nat.div_pos (by omega) hchunk

theorem ceilDiv_mono {left total : ℕ} (hle : left ≤ total) (chunk : ℕ) :
    left ⌈/⌉ chunk ≤ total ⌈/⌉ chunk := by
  simp only [Nat.ceilDiv_eq_add_pred_div]
  exact Nat.div_le_div_right (by omega)

end Limits

/-! ## The invariant -/

section Budget

variable {T : Type*} [Zero T]

/-- The limit that the driver compares its count with. -/
def Config.limit (d : Driver) (opts : Options T) (image : List Wire.Byte) (c : Config T) : ℕ :=
  maxResumes d opts.maxResumes image.length c.chunk

/-- The chunks of one pass over the image. -/
def Config.pass (image : List Wire.Byte) (c : Config T) : ℕ := image.length ⌈/⌉ c.chunk

/-- The chunks from the cursor to the end of the image. -/
def Config.left (image : List Wire.Byte) (c : Config T) : ℕ :=
  (image.length - c.cursor) ⌈/⌉ c.chunk

structure Budget (d : Driver) (opts : Options T) (image : List Wire.Byte) (c : Config T) :
    Prop where
  asking : c.pc.asking = true → c.chunksSent = 0 ∧ c.resumes = 0 ∧ c.cursor = 0
  resumes : c.pc.live = true → c.resumes ≤ c.limit d opts image
  passes : c.pc.live = true → c.chunksSent + c.left image ≤ (c.resumes + 1) * c.pass image
  consumed : c.resumes ≤ c.limit d opts image + 1
  sent : c.chunksSent ≤ (c.limit d opts image + 1) * c.pass image

variable {d : Driver} {opts : Options T} {image : List Wire.Byte} {c c' : Config T} {a : Answer T}

theorem budget_init : Budget d opts image ({} : Config T) where
  asking := fun _ => ⟨rfl, rfl, rfl⟩
  resumes := fun _ => Nat.zero_le _
  passes := fun _ => by simp [Config.chunksSent, Config.left, Config.pass]
  consumed := Nat.zero_le _
  sent := Nat.zero_le _

theorem Unsent.chunksSent (hunsent : Unsent c c') : c'.chunksSent = c.chunksSent := by
  rcases hunsent with hsame | ⟨made, hmade, hcalls⟩
  · rw [Config.chunksSent, hsame, Config.chunksSent]
  · simp [Config.chunksSent, hcalls, List.countP_append, hmade]

/-- The passes that were begun are passes that may be. -/
theorem Budget.sent_le (hbudget : Budget d opts image c) (hlive : c.pc.live = true) :
    c.chunksSent + c.left image ≤ (c.limit d opts image + 1) * c.pass image :=
  calc c.chunksSent + c.left image
      ≤ (c.resumes + 1) * c.pass image := hbudget.passes hlive
    _ ≤ (c.limit d opts image + 1) * c.pass image :=
        Nat.mul_le_mul_right _ (Nat.succ_le_succ (hbudget.resumes hlive))

theorem Budget.still (hbudget : Budget d opts image c) (hstill : Still c c')
    (hplace : c'.pc.live = true → c.pc.live = true ∧ c'.pc.asking = c.pc.asking) :
    Budget d opts image c' := by
  have hsent := hstill.unsent.chunksSent
  have hlimit : c'.limit d opts image = c.limit d opts image := by
    rw [Config.limit, hstill.chunk, Config.limit]
  have hpass : c'.pass image = c.pass image := by rw [Config.pass, hstill.chunk, Config.pass]
  have hleft : c'.left image = c.left image := by
    rw [Config.left, hstill.chunk, hstill.cursor, Config.left]
  refine ⟨?_, ?_, ?_, ?_, ?_⟩
  · intro hasking
    obtain ⟨-, hsame⟩ := hplace (Pc.live_of_asking hasking)
    rw [hsent, hstill.resumes, hstill.cursor]
    exact hbudget.asking (hsame.symm.trans hasking)
  · intro hlive
    rw [hstill.resumes, hlimit]
    exact hbudget.resumes (hplace hlive).1
  · intro hlive
    rw [hsent, hleft, hstill.resumes, hpass]
    exact hbudget.passes (hplace hlive).1
  · rw [hstill.resumes, hlimit]
    exact hbudget.consumed
  · rw [hsent, hlimit, hpass]
    exact hbudget.sent

/-- While the chunk size is not settled, nothing of the budget is spent. -/
theorem Budget.settle (hbudget : Budget d opts image c) (hpc : c.pc.asking = true)
    (hnext : c'.pc = .beginSend) (hcursor : c'.cursor = c.cursor)
    (hresumes : c'.resumes = c.resumes) (hunsent : Unsent c c') : Budget d opts image c' := by
  obtain ⟨hsent, hzero, hstart⟩ := hbudget.asking hpc
  rw [← hunsent.chunksSent] at hsent
  rw [← hresumes] at hzero
  rw [← hcursor] at hstart
  refine ⟨?_, ?_, ?_, ?_, ?_⟩
  · intro hasking
    rw [hnext] at hasking
    exact absurd hasking (by simp [Pc.asking])
  · intro _
    rw [hzero]
    exact Nat.zero_le _
  · intro _
    rw [hsent, hzero, Config.left, hstart, Config.pass, Nat.sub_zero]
    omega
  · rw [hzero]
    exact Nat.zero_le _
  · rw [hsent]
    exact Nat.zero_le _

theorem Budget.send (hbudget : Budget d opts image c) (hlive : c.pc.live = true)
    (hchunk : 0 < c.chunk) (hcursor : c.cursor < image.length)
    (hsent : c'.chunksSent = c.chunksSent + 1) (hsame : c'.chunk = c.chunk)
    (hresumes : c'.resumes = c.resumes)
    (hnext : c'.pc = .pump .sending ∧
        c'.cursor = c.cursor + min c.chunk (image.length - c.cursor) ∨ c'.pc.live = false) :
    Budget d opts image c' := by
  have hlimit : c'.limit d opts image = c.limit d opts image := by
    rw [Config.limit, hsame, Config.limit]
  have hpass : c'.pass image = c.pass image := by rw [Config.pass, hsame, Config.pass]
  have htake := ceilDiv_take hchunk (Nat.sub_pos_of_lt hcursor)
  have hasking : c'.pc.asking = true → False := by
    intro hasking
    rcases hnext with ⟨hpump, -⟩ | hdead
    · simp [hpump, Pc.asking] at hasking
    · simp [Pc.live_of_asking hasking] at hdead
  refine ⟨fun h => (hasking h).elim, ?_, ?_, ?_, ?_⟩
  · intro _
    rw [hresumes, hlimit]
    exact hbudget.resumes hlive
  · intro hlive'
    rcases hnext with ⟨-, hmoved⟩ | hdead
    · have hpasses := hbudget.passes hlive
      rw [hsent, hresumes, hpass, Config.left, hsame, hmoved, Nat.sub_add_eq]
      rw [Config.left] at hpasses
      omega
    · simp [hlive'] at hdead
  · rw [hresumes, hlimit]
    exact hbudget.consumed
  · have hpasses := hbudget.sent_le hlive
    rw [hsent, hlimit, hpass]
    rw [Config.left] at hpasses
    omega

theorem Budget.rewind (hbudget : Budget d opts image c) (hlive : c.pc.live = true)
    (hsent : c'.chunksSent = c.chunksSent) (hsame : c'.chunk = c.chunk)
    (hresumes : c'.resumes = c.resumes + 1)
    (hnext : c'.pc = .head ∧ c.resumes + 1 ≤ c.limit d opts image ∨ c'.pc.live = false) :
    Budget d opts image c' := by
  have hlimit : c'.limit d opts image = c.limit d opts image := by
    rw [Config.limit, hsame, Config.limit]
  have hpass : c'.pass image = c.pass image := by rw [Config.pass, hsame, Config.pass]
  have hleft : c'.left image ≤ c.pass image := by
    rw [Config.left, hsame, Config.pass]
    exact ceilDiv_mono (Nat.sub_le _ _) c.chunk
  have hasking : c'.pc.asking = true → False := by
    intro hasking
    rcases hnext with ⟨hhead, -⟩ | hdead
    · simp [hhead, Pc.asking] at hasking
    · simp [Pc.live_of_asking hasking] at hdead
  refine ⟨fun h => (hasking h).elim, ?_, ?_, ?_, ?_⟩
  · intro hlive'
    rcases hnext with ⟨-, hle⟩ | hdead
    · rw [hresumes, hlimit]
      exact hle
    · simp [hlive'] at hdead
  · intro _
    have hpasses := hbudget.passes hlive
    rw [hsent, hresumes, hpass]
    calc c.chunksSent + c'.left image
        ≤ (c.resumes + 1) * c.pass image + c.pass image := by omega
      _ = (c.resumes + 1 + 1) * c.pass image := (Nat.succ_mul _ _).symm
  · rw [hresumes, hlimit]
    exact Nat.succ_le_succ (hbudget.resumes hlive)
  · rw [hsent, hlimit, hpass]
    exact hbudget.sent

end Budget

section Turns

variable {T : Type*} [Zero T] [Add T] [Sub T] [LT T] [DecidableLT T] [Min T]
variable {d : Driver} {opts : Options T} {image : List Wire.Byte} {c : Config T} {a : Answer T}

/-- What every configuration of a run meets. -/
structure InBudget (d : Driver) (opts : Options T) (image : List Wire.Byte) (c : Config T) :
    Prop where
  budget : Budget d opts image c
  poised : Poised d opts image c
  positive : SettledBy (0 < ·) c

omit [Add T] [Sub T] [LT T] [DecidableLT T] [Min T] in
theorem inBudget_init : InBudget d opts image ({} : Config T) :=
  ⟨budget_init, poised_init, settledBy_init _⟩

theorem step_budget (hcountable : Countable d opts) (a : Answer T)
    (hc : InBudget d opts image c) : Budget d opts image (step d opts image c a) := by
  have hflow := step_flow d opts image c a
  generalize step d opts image c a = next at hflow ⊢
  cases hflow with
  | still hstill hpc hplace => exact hc.budget.still hstill hplace
  | settles smallest hpc hnext hchunk hcursor hresumes hunsent =>
      exact hc.budget.settle hpc hnext hcursor hresumes hunsent
  | picks hpc hcursor hwindow =>
      refine hc.budget.still ⟨rfl, rfl, rfl, Or.inl rfl⟩ fun _ => ?_
      rw [hpc]
      exact ⟨rfl, rfl⟩
  | sends n hpc hread hcalls hchunk hresumes hnext =>
      obtain ⟨hcursor, rfl, -⟩ := hc.poised.picked n hpc
      have hlive : c.pc.live = true := by rw [hpc]; rfl
      refine hc.budget.send hlive (hc.positive hlive (by rw [hpc]; rfl)) hcursor ?_ hchunk hresumes
        hnext
      simp [Config.chunksSent, hcalls, List.countP_append, Call.isChunk, chunkMessage, message]
  | rewinds target hpc hresume hchunk hresumes hunsent hnext =>
      have hlive : c.pc.live = true := by rw [hpc]; rfl
      have hbump : bump d c.resumes = c.resumes + 1 :=
        bump_eq hcountable (hc.budget.resumes hlive)
      rw [hbump] at hresumes hnext
      refine hc.budget.rewind hlive hunsent.chunksSent hchunk hresumes ?_
      exact hnext.imp id fun hdead => hdead.1

theorem step_inBudget (hcountable : Countable d opts) (hchunk : 0 < opts.chunk) (a : Answer T)
    (hc : InBudget d opts image c) : InBudget d opts image (step d opts image c a) :=
  ⟨step_budget hcountable a hc, step_poised a hc.poised,
    step_settledBy (negotiatedChunk_pos hchunk) a hc.positive⟩

/-! ## Resumes that are consumed -/

/-- A turn that consumes a resume. -/
def consumes (opts : Options T) (c : Config T) (a : Answer T) : Bool :=
  match c.pc with
  | .head =>
      !c.st.finished && !decide (opts.deadline < a.clock - c.start) && c.st.resumeTo.isSome
  | _ => false

omit [Add T] [Min T] in
theorem head_resumes (hpc : c.pc = .head) :
    (head d opts image c a).resumes =
      if consumes opts c a then bump d c.resumes else c.resumes := by
  have hloop : (afterLoop d opts image c).resumes = c.resumes := by
    unfold afterLoop
    split
    · rfl
    split
    · rfl
    split <;> rfl
  unfold head
  simp only [consumes, hpc]
  cases hfinished : c.st.finished with
  | true => simpa using hloop
  | false =>
      rw [if_neg (by simp)]
      by_cases hdeadline : opts.deadline < a.clock - c.start
      · rw [if_pos hdeadline]
        simp [hdeadline, abortWith, endWith, finish, call]
      rw [if_neg hdeadline]
      cases hresume : c.st.resumeTo with
      | some target =>
          simp only [hdeadline, decide_false, Bool.not_false, Bool.and_self, Option.isSome_some,
            if_true, rewind]
          split <;> rfl
      | none =>
          simp only [Option.isSome_none, Bool.and_false, Bool.false_eq_true, if_false]
          split
          · rfl
          split
          · exact hloop
          · rfl

theorem step_resumes (d : Driver) (opts : Options T) (image : List Wire.Byte) (c : Config T)
    (a : Answer T) : (step d opts image c a).resumes =
      if consumes opts c a then bump d c.resumes else c.resumes := by
  by_cases hpc : c.pc = .head
  · have hstep : step d opts image c a = head d opts image c a := by rw [step, hpc]
    rw [hstep]
    exact head_resumes hpc
  · have hno : consumes opts c a = false := by
      unfold consumes
      split
      next hhead => exact absurd hhead hpc
      · rfl
    rw [hno]
    have hflow := step_flow d opts image c a
    generalize step d opts image c a = next at hflow ⊢
    cases hflow with
    | still hstill _ _ => exact hstill.resumes
    | settles smallest _ _ _ _ hresumes _ => exact hresumes
    | picks hhead _ _ => exact absurd hhead hpc
    | sends n _ _ _ _ hresumes _ => exact hresumes
    | rewinds target hhead _ _ _ _ _ => exact absurd hhead hpc

omit [Add T] [Min T] in
theorem consumes_live (hconsumes : consumes opts c a = true) : c.pc.live = true := by
  unfold consumes at hconsumes
  split at hconsumes
  next hpc =>
    rw [hpc]
    rfl
  · simp at hconsumes

/-- The counter of the driver counts the resumes that are consumed. -/
theorem step_counts (hcountable : Countable d opts) (a : Answer T)
    (hc : InBudget d opts image c) :
    (step d opts image c a).resumes = c.resumes + (consumes opts c a).toNat := by
  rw [step_resumes]
  cases hconsumes : consumes opts c a with
  | false => rfl
  | true => exact bump_eq hcountable (hc.budget.resumes (consumes_live hconsumes))

end Turns

end VisioSchema.Ota

import VisioSchema.Library.Runs
import VisioSchema.Ota.Relay

/-!
# When a commit is sent

The protocol document forbids a commit before the device has acked every byte.
The send loop has two ways to the commit: every byte is acked, or a SUCCESS was
folded.  STAGED and a failure are filtered behind the loop, a SUCCESS is not.
`EarlySuccess` is the configuration in which that matters; a run that never
passes through it commits only what was acked.
-/

namespace VisioSchema.Ota

open VisioSchema.Library

variable {T : Type*} [Zero T]

/-- The loop is about to be left for a SUCCESS although no status of the session
has counted every byte. -/
def EarlySuccess (opts : Options T) (image : List Wire.Byte) (c : Config T) : Bool :=
  match c.pc with
  | .head =>
      c.st.succeeded && !c.st.staged && c.st.failure.isNone && opts.commit &&
        decide (c.largestHeard opts.sessionId < image.length)
  | _ => false

/-- Every OtaCommit among the messages is covered by the largest count heard. -/
def Covered (opts : Options T) (image : List Wire.Byte) (c : Config T) : Prop :=
  ∀ msg ∈ c.sent, msg.body = .commit → image.length ≤ c.largestHeard opts.sessionId

instance (opts : Options T) (image : List Wire.Byte) (c : Config T) :
    Decidable (Covered opts image c) :=
  inferInstanceAs (Decidable (∀ msg ∈ c.sent,
    msg.body = .commit → image.length ≤ c.largestHeard opts.sessionId))

/-! ## The largest count -/

namespace Config

theorem largestHeard_congr {c c' : Config T} (session : UInt64) (hheard : c'.heard = c.heard) :
    c'.largestHeard session = c.largestHeard session := by
  rw [largestHeard, hheard, largestHeard]

theorem largestHeard_hears {c c' : Config T} {status : OtaStatus} (session : UInt64)
    (hheard : c'.heard = status :: c.heard) :
    c'.largestHeard session =
      if foreign session status then c.largestHeard session
      else max status.bytesReceived.toNat (c.largestHeard session) := by
  rw [largestHeard, hheard, largestHeard, List.foldr_cons]

theorem le_largestHeard_hears {c c' : Config T} {status : OtaStatus} (session : UInt64)
    (hheard : c'.heard = status :: c.heard) :
    c.largestHeard session ≤ c'.largestHeard session := by
  rw [largestHeard_hears session hheard]
  split <;> omega

theorem sent_congr {c c' : Config T} (hcalls : c'.calls = c.calls) : c'.sent = c.sent := by
  rw [sent, hcalls, sent]

theorem mem_sent_call {c c' : Config T} {made : Call} {msg : OtaMessage}
    (hcalls : c'.calls = c.calls ++ [made]) :
    msg ∈ c'.sent ↔ msg ∈ c.sent ∨ made = .sent msg := by
  simp only [sent, hcalls, List.filterMap_append, List.mem_append, List.filterMap_cons,
    List.filterMap_nil]
  cases made <;> simp [eq_comm]

end Config

/-! ## The invariant -/

/-- The watermark is a heard count, and so is what stands behind a commit. -/
structure CommitSafe (opts : Options T) (image : List Wire.Byte) (c : Config T) : Prop where
  acked : c.st.acked ≤ c.largestHeard opts.sessionId
  pending : c.pc = .commitSend → image.length ≤ c.largestHeard opts.sessionId
  covered : Covered opts image c

variable {opts : Options T} {image : List Wire.Byte} {c c' : Config T}

theorem commitSafe_init : CommitSafe opts image {} :=
  ⟨Nat.zero_le _, by simp, by simp [Covered, Config.sent]⟩

theorem CommitSafe.quiet (hsafe : CommitSafe opts image c) (hquiet : Quiet opts c c')
    (hcovered : Covered opts image c') : CommitSafe opts image c' where
  acked := by
    rw [hquiet.acked, Config.largestHeard_congr _ hquiet.heard]
    exact hsafe.acked
  pending := fun hpc => absurd hpc hquiet.pc
  covered := hcovered

/-- A call that is due keeps commits covered: one is due only where it is
already covered. -/
theorem CommitSafe.call {d : Driver} {made : Call} (hsafe : CommitSafe opts image c)
    (hdue : Due d image c made) (hheard : c'.heard = c.heard)
    (hcalls : c'.calls = c.calls ++ [made]) : Covered opts image c' := by
  intro msg hmsg hbody
  rw [Config.largestHeard_congr _ hheard]
  rcases (Config.mem_sent_call hcalls).mp hmsg with hbefore | rfl
  · exact hsafe.covered msg hbefore hbody
  · simp only [Due, hbody] at hdue
    exact hsafe.pending hdue

theorem CommitSafe.hears {d : Driver} {back : Back T} {status : OtaStatus}
    (hsafe : CommitSafe opts image c) (hpc : c.pc = .pump back) :
    CommitSafe opts image
      { c with st := fold d opts.sessionId c.st status, heard := status :: c.heard } where
  acked := by
    have hacked := hsafe.acked
    rw [Config.largestHeard_hears opts.sessionId (c := c) rfl]
    cases hforeign : foreign opts.sessionId status with
    | true => simpa only [fold_of_foreign hforeign, if_true] using hacked
    | false =>
        simp only [fold_of_own hforeign, Bool.false_eq_true, if_false]
        rcases foldOwn_acked d c.st status with hsame | hmax <;> omega
  pending := fun hcommit => by
    rw [hpc] at hcommit
    cases hcommit
  covered := by
    intro msg hmsg hbody
    exact le_trans (hsafe.covered msg hmsg hbody)
      (Config.le_largestHeard_hears opts.sessionId (c := c) rfl)

section Runs

variable [Add T] [Sub T] [LT T] [DecidableLT T] [Min T]

theorem step_commitSafe (d : Driver) (opts : Options T) (image : List Wire.Byte) (c : Config T)
    (a : Answer T) (hsafe : CommitSafe opts image c) (hearly : EarlySuccess opts image c = false) :
    CommitSafe opts image (step d opts image c a) := by
  have hturn := step_turn d opts image c a
  generalize step d opts image c a = next at hturn ⊢
  cases hturn with
  | silent hquiet hcalls =>
      refine hsafe.quiet hquiet ?_
      intro msg hmsg hbody
      rw [Config.sent_congr hcalls] at hmsg
      rw [Config.largestHeard_congr _ hquiet.heard]
      exact hsafe.covered msg hmsg hbody
  | calls made hdue hquiet hcalls =>
      exact hsafe.quiet hquiet (hsafe.call hdue hquiet.heard hcalls)
  | hears back status hpc hrecv => exact hsafe.hears hpc
  | leaves hpc hfailure hstaged hcommit hall =>
      refine ⟨hsafe.acked, fun _ => ?_, hsafe.covered⟩
      rcases hall with hsucceeded | hacked
      · -- left for a SUCCESS: the condition on the run says the bytes were counted
        have hcounted : image.length ≤ c.largestHeard opts.sessionId := by
          simpa [EarlySuccess, hpc, hfailure, hstaged, hcommit, hsucceeded] using hearly
        exact hcounted
      · exact le_trans hacked hsafe.acked

/-- In a run that never leaves the send loop for an early SUCCESS, every commit
that was sent is covered by the largest count heard. -/
theorem relay_commit_covered (d : Driver) (opts : Options T) (image : List Wire.Byte)
    (answers : List (Answer T))
    (halong : Along (step d opts image) (fun c _ => EarlySuccess opts image c = false) {} answers) :
    ∀ c ∈ visited (step d opts image) {} answers, Covered opts image c := by
  intro c hc
  have hsafe : CommitSafe opts image c :=
    visited_invariant_along (step_commitSafe d opts image) commitSafe_init halong c hc
  exact hsafe.covered

end Runs

/-! ## Two transfers of one byte -/

/-- Send the begin, hear `status`, and go on for eight quiet turns. -/
def oneByteScript (status : OtaStatus) : List (Answer ℤ) :=
  [{ clock := 0 }, { clock := 0 }, { clock := 0, recv := .status status }] ++
    List.replicate 8 { clock := 0 }

/-- A device that acks the byte: the run meets the condition and commits. -/
theorem relay_commit_covered_acked :
    Covered plainOptions [7]
      (relay .python plainOptions [7]
        (oneByteScript { state := .receiving, bytesReceived := 1 })) :=
  relay_commit_covered _ _ _ _ (by decide +kernel) _ (mem_visited_last _ _)

/-- A device that reports SUCCESS before it acked anything draws the commit, from
each of the drivers. -/
theorem not_commit_covered :
    ¬ Covered plainOptions [7]
        (relay .cpp plainOptions [7] (oneByteScript { state := .success })) ∧
      ¬ Covered plainOptions [7]
        (relay .python plainOptions [7] (oneByteScript { state := .success })) ∧
      ¬ Covered plainOptions [7]
        (relay .ts plainOptions [7] (oneByteScript { state := .success })) := by
  decide +kernel

end VisioSchema.Ota

import VisioSchema.Library.Runs
import VisioSchema.Ota.Relay

/-!
# The quiet link

A relay asks for its link to be quieted before anything else, and puts the link back on every
exit if it was quieted: the destructor of `Quiet` in C++, a `finally` in the other two.  In C++
any of the calls may throw as well; what it throws leaves `Relay` by way of that destructor.

A run is the first turn, then turns between the two brackets, then at most one turn that closes
them.  Of a turn in the middle it is enough that it adds at most the message that it sends
(`Inner`) and goes on or leaves by the closing turn (`Pc.leavesBy`); what leaves as an exception
does so by the same way (`inner_turn`).  `Bracketed` is the invariant.
-/

namespace VisioSchema.Ota

open VisioSchema.Library

variable {T : Type*} [Zero T]

/-! ## Calls that throw -/

section Throwing

variable [Add T] [Sub T] [LT T] [DecidableLT T] [Min T]

/-- A turn one of whose calls throws, in C++: the calls were made, and the exception leaves
`Relay`. -/
def unwind (c next : Config T) : Config T := finish { c with calls := next.calls } none

/-- A turn of the relay.  `thrown` is an exception in C++; the restore swallows its own. -/
def turn (d : Driver) (opts : Options T) (image : List Wire.Byte) (c : Config T)
    (input : Answer T × Bool) : Config T :=
  match c.pc with
  | .restore _ | .done _ => step d opts image c input.1
  | _ =>
      if input.2 = true ∧ d = .cpp then unwind c (step d opts image c input.1)
      else step d opts image c input.1

end Throwing

/-! ## What a turn between the two brackets does -/

/-- A place between the two calls of `quiesce`. -/
def Pc.inner : Pc T → Prop
  | .quiesceOn | .restore _ | .done _ => False
  | _ => True

/-- The relay is left by way of the restore exactly if the link was quieted. -/
def Pc.leavesBy (quieted : Bool) : Pc T → Prop
  | .quiesceOn => False
  | .restore _ => quieted = true
  | .done _ => quieted = false
  | _ => True

omit [Zero T] in
theorem Pc.inner.leavesBy {pc : Pc T} (hinner : pc.inner) (quieted : Bool) :
    pc.leavesBy quieted := by
  cases pc <;> first | exact trivial | exact hinner.elim

/-- The message that a turn sends, if it sends one, is all that it adds to the calls. -/
structure Inner (c c' : Config T) : Prop where
  quieted : c'.quieted = c.quieted
  calls : c'.calls = c.calls ∨ ∃ msg, c'.calls = c.calls ++ [.sent msg]
  left : c'.pc.leavesBy c.quieted

variable {d : Driver} {opts : Options T} {image : List Wire.Byte} {c c' : Config T}

theorem inner_finish (outcome : Option Outcome) (hquieted : c'.quieted = c.quieted)
    (hcalls : c'.calls = c.calls ∨ ∃ msg, c'.calls = c.calls ++ [.sent msg]) :
    Inner c (finish c' outcome) := by
  refine ⟨hquieted, hcalls, ?_⟩
  cases hq : c'.quieted with
  | true =>
      have hpc : (finish c' outcome).pc = .restore outcome := by simp [finish, hq]
      rw [hpc]
      exact hquieted.symm.trans hq
  | false =>
      have hpc : (finish c' outcome).pc = .done outcome := by simp [finish, hq]
      rw [hpc]
      exact hquieted.symm.trans hq

theorem inner_endWith (ok : Bool) (reason : Reason) (hquieted : c'.quieted = c.quieted)
    (hcalls : c'.calls = c.calls ∨ ∃ msg, c'.calls = c.calls ++ [.sent msg]) :
    Inner c (endWith image c' ok reason) :=
  inner_finish _ hquieted hcalls

theorem inner_linkRaised (hquieted : c'.quieted = c.quieted)
    (hcalls : c'.calls = c.calls ∨ ∃ msg, c'.calls = c.calls ++ [.sent msg]) :
    Inner c (linkRaised image c') := by
  unfold linkRaised
  split <;> exact inner_endWith _ _ hquieted hcalls

theorem inner_abortWith (why : String) (ok : Bool) (reason : Reason)
    (hquieted : c'.quieted = c.quieted) (hcalls : c'.calls = c.calls) :
    Inner c (abortWith d opts image c' why ok reason) :=
  inner_endWith _ _ hquieted (Or.inr ⟨_, congrArg (· ++ _) hcalls⟩)

theorem inner_undecodable (hquieted : c'.quieted = c.quieted) (hcalls : c'.calls = c.calls)
    (hpc : c'.pc.inner) : Inner c (undecodable d image c') := by
  cases d with
  | cpp => exact ⟨hquieted, Or.inl hcalls, hpc.leavesBy c.quieted⟩
  | python => exact inner_finish none hquieted (Or.inl hcalls)
  | ts => exact inner_linkRaised hquieted (Or.inl hcalls)

theorem inner_afterLoop : Inner c (afterLoop d opts image c) := by
  unfold afterLoop
  split
  · exact inner_endWith _ _ rfl (Or.inl rfl)
  split
  · exact inner_endWith _ _ rfl (Or.inl rfl)
  split
  · exact ⟨rfl, Or.inl rfl, trivial⟩
  · exact inner_abortWith _ _ _ rfl rfl

theorem inner_verdict : Inner c (verdict image c) := by
  unfold verdict
  split
  · exact inner_endWith _ _ rfl (Or.inl rfl)
  split
  · exact inner_endWith _ _ rfl (Or.inl rfl)
  split <;> exact inner_endWith _ _ rfl (Or.inl rfl)

/-- A turn that sends one message and goes by what the link answers. -/
theorem inner_sends (msg : OtaMessage) (hquieted : c'.quieted = c.quieted)
    (hcalls : c'.calls = c.calls ++ [.sent msg]) (hpc : c'.pc.inner) : Inner c c' :=
  ⟨hquieted, Or.inr ⟨msg, hcalls⟩, hpc.leavesBy c.quieted⟩

theorem inner_pump (back : Back T) (a : Answer T) (hpc : c.pc = .pump back) :
    Inner c (pump d opts image c back a) := by
  unfold pump
  split
  · exact inner_linkRaised rfl (Or.inl rfl)
  cases a.recv with
  | nothing =>
      refine ⟨rfl, Or.inl rfl, ?_⟩
      cases back <;> exact trivial
  | undecodable => exact inner_undecodable rfl rfl (by rw [hpc]; trivial)
  | status status =>
      refine ⟨rfl, Or.inl rfl, ?_⟩
      show c.pc.leavesBy c.quieted
      rw [hpc]
      trivial

section Head

variable [Sub T] [LT T] [DecidableLT T]

theorem inner_head (a : Answer T) (hpc : c.pc = .head) : Inner c (head d opts image c a) := by
  unfold head
  split
  · exact inner_afterLoop
  split
  · exact inner_abortWith _ _ _ rfl rfl
  split
  · unfold rewind
    dsimp only
    split
    · exact inner_abortWith _ _ _ rfl rfl
    · refine ⟨rfl, Or.inl rfl, ?_⟩
      show c.pc.leavesBy c.quieted
      rw [hpc]
      trivial
  · dsimp only
    split
    · exact ⟨rfl, Or.inl rfl, trivial⟩
    split
    · exact inner_afterLoop
    · exact ⟨rfl, Or.inl rfl, trivial⟩

end Head

section Turns

variable [Add T] [Sub T] [LT T] [DecidableLT T] [Min T]

theorem inner_step (a : Answer T) (hinner : c.pc.inner) : Inner c (step d opts image c a) := by
  unfold step
  cases hpc : c.pc with
  -- The first turn and the closing ones are not in the middle.
  | quiesceOn => rw [hpc] at hinner; exact hinner.elim
  | restore outcome => rw [hpc] at hinner; exact hinner.elim
  | done outcome => rw [hpc] at hinner; exact hinner.elim
  | querySend =>
      show Inner c (querySend d opts image c a)
      unfold querySend
      dsimp only
      cases a.sendResult d with
      | ok => exact inner_sends _ rfl rfl trivial
      | gone => exact inner_sends _ rfl rfl trivial
      | raised => exact inner_linkRaised rfl (Or.inr ⟨_, rfl⟩)
  | queryHead deadline smallest =>
      show Inner c (queryHead d opts c deadline smallest a)
      unfold queryHead
      -- A choice between two places in the middle, with no call of its own.
      split <;> exact ⟨rfl, Or.inl rfl, trivial⟩
  | queryRecv deadline smallest =>
      show Inner c (queryRecv d opts image c deadline smallest a)
      unfold queryRecv
      split
      · exact inner_linkRaised rfl (Or.inl rfl)
      cases a.recv with
      | nothing =>
          dsimp only
          split <;> exact ⟨rfl, Or.inl rfl, trivial⟩
      | undecodable => exact inner_undecodable rfl rfl trivial
      | status status => exact ⟨rfl, Or.inl rfl, trivial⟩
  | beginSend =>
      show Inner c (beginSend d opts image c a)
      unfold beginSend
      dsimp only
      cases a.sendResult d with
      | ok => exact inner_sends _ rfl rfl trivial
      | gone => exact inner_endWith _ _ rfl (Or.inr ⟨_, rfl⟩)
      | raised => exact inner_linkRaised rfl (Or.inr ⟨_, rfl⟩)
  | pump back => exact inner_pump back a hpc
  | head => exact inner_head a hpc
  | chunkSend n =>
      show Inner c (chunkSend d opts image c n a)
      unfold chunkSend
      split
      · split
        · exact inner_linkRaised rfl (Or.inl rfl)
        · exact inner_endWith _ _ rfl (Or.inl rfl)
      · dsimp only
        cases a.sendResult d with
        | ok => exact inner_sends _ rfl rfl trivial
        | gone => exact inner_endWith _ _ rfl (Or.inr ⟨_, rfl⟩)
        | raised => exact inner_linkRaised rfl (Or.inr ⟨_, rfl⟩)
  | tail =>
      show Inner c (tail d opts image c a)
      unfold tail
      split
      · exact ⟨rfl, Or.inl rfl, trivial⟩
      split
      · exact inner_abortWith _ _ _ rfl rfl
      split <;> exact ⟨rfl, Or.inl rfl, trivial⟩
  | commitSend =>
      show Inner c (commitSend d opts image c a)
      unfold commitSend
      dsimp only
      cases a.sendResult d with
      | ok => exact inner_sends _ rfl rfl trivial
      | gone => exact inner_endWith _ _ rfl (Or.inr ⟨_, rfl⟩)
      | raised => exact inner_linkRaised rfl (Or.inr ⟨_, rfl⟩)
  | commitHead deadline =>
      show Inner c (commitHead image c deadline a)
      unfold commitHead
      split
      · exact inner_verdict
      split
      · exact ⟨rfl, Or.inl rfl, trivial⟩
      · exact inner_verdict

/-- What leaves `Relay` as an exception does so by the same way. -/
theorem inner_turn (input : Answer T × Bool) (hinner : c.pc.inner) :
    Inner c (turn d opts image c input) := by
  have hstep : Inner c (step d opts image c input.1) := inner_step input.1 hinner
  have hcases : Inner c (if input.2 = true ∧ d = .cpp then unwind c (step d opts image c input.1)
      else step d opts image c input.1) := by
    split
    · exact inner_finish none rfl hstep.calls
    · exact hstep
  unfold turn
  cases hpc : c.pc with
  | restore outcome => rw [hpc] at hinner; exact hinner.elim
  | done outcome => rw [hpc] at hinner; exact hinner.elim
  | _ => exact hcases

end Turns

/-! ## Whole runs -/

/-- What `quiesce(true)` returned on the first turn: false if it is not there or did not return. -/
def held (d : Driver) (opts : Options T) (first : Answer T × Bool) : Bool :=
  opts.hasQuiesce && !first.1.throws d && !(first.2 && d = .cpp) && first.1.quiesce

/-- `quiesce(true)`, if there is a hook. -/
def opening (opts : Options T) : List Call := if opts.hasQuiesce then [.quiesce true] else []

/-- `quiesce(false)`, once the relay has ended, if the link was quieted. -/
def closing (quieted : Bool) : Pc T → List Call
  | .done _ => if quieted then [.quiesce false] else []
  | _ => []

/-- The messages lie between the two calls of `quiesce`. -/
structure Bracketed (opts : Options T) (quieted : Bool) (c : Config T) : Prop where
  held : c.quieted = quieted
  begun : c.pc ≠ .quiesceOn
  restoring : ∀ outcome, c.pc = .restore outcome → quieted = true
  calls : ∃ msgs : List OtaMessage,
    c.calls = opening opts ++ msgs.map .sent ++ closing quieted c.pc

section Runs

variable [Add T] [Sub T] [LT T] [DecidableLT T] [Min T]

theorem Bracketed.turn {quieted : Bool} (hc : Bracketed opts quieted c)
    (input : Answer T × Bool) : Bracketed opts quieted (turn d opts image c input) := by
  obtain ⟨hheld, hbegun, hrestoring, msgs, hcalls⟩ := hc
  cases hpc : c.pc with
  | quiesceOn => exact absurd hpc hbegun
  | restore outcome =>
      have hnext : Ota.turn d opts image c input =
          { call c (.quiesce false) with pc := .done outcome } := by
        simp only [Ota.turn, step, hpc]
      rw [hnext]
      refine ⟨hheld, by simp, by simp, msgs, ?_⟩
      show c.calls ++ [.quiesce false] = opening opts ++ msgs.map .sent ++
        (if quieted then [.quiesce false] else [])
      rw [hcalls, hpc, hrestoring outcome hpc]
      simp [closing]
  | done outcome =>
      have hnext : Ota.turn d opts image c input = c := by
        simp only [Ota.turn, step, hpc]
      rw [hnext]
      exact ⟨hheld, hbegun, hrestoring, msgs, hcalls⟩
  | _ =>
      have hinner : c.pc.inner := by
        rw [hpc]
        trivial
      obtain ⟨hquieted, hsends, hleft⟩ :=
        @inner_turn T _ d opts image c _ _ _ _ _ input hinner
      have hopen : closing quieted c.pc = [] := by
        rw [hpc]
        rfl
      rw [hopen, List.append_nil] at hcalls
      rw [hheld] at hquieted hleft
      refine ⟨hquieted, ?_, ?_, ?_⟩
      · intro heq
        rw [heq] at hleft
        exact hleft
      · intro outcome heq
        rw [heq] at hleft
        exact hleft
      · have hclosed : closing quieted (Ota.turn d opts image c input).pc = [] := by
          cases hend : (Ota.turn d opts image c input).pc with
          | done outcome =>
              rw [hend] at hleft
              have hnot : quieted = false := hleft
              simp [closing, hnot]
          | _ => rfl
        rw [hclosed]
        rcases hsends with hsame | ⟨msg, hsent⟩
        · exact ⟨msgs, by rw [hsame, hcalls, List.append_nil]⟩
        · exact ⟨msgs ++ [msg], by rw [hsent, hcalls]; simp⟩

end Runs

end VisioSchema.Ota

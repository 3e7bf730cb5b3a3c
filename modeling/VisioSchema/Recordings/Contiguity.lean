import VisioSchema.Recordings.Answers

/-!
# What a pull hands to its sink

The ranges that a pull hands to its sink follow each other from the requested offset on, across
all its opens, and a pull that succeeds ends where the file does.  Only a byte that was received
counts as progress, so a pull of a file whose size stays the same is over after a number of opens
that the rest of the file bounds.

## Strategy

* **Receiving** hands over consecutive ranges from an offset on and returns how many bytes that
  was (`ReceivedSo`), for every way in which the socket cuts what it gives.
* **An open** checks that the answer describes the range that was asked for.  In C++ this is a
  comparison of 64-bit sums, which is exact where none of them wraps
  (`exact_of_describesRange`).  What an open leaves is `LeftBy`.
* **The pull** is an induction over its opens, with `InStep`: the offset is the requested one and
  the bytes that the sink accepted.  An open after which it goes on has moved the offset, or is
  one more without (`GoesOn`), and either costs one of the opens that are left
  (`GoesOn.opensLeft`).

A pull from a device is a pull from answers (`pullFile_alike`), so that the statements above hold
of the clients of `Pull.lean` as well.
-/

namespace VisioSchema.Recordings

/-! ## Ranges -/

/-- The ranges follow each other from `start` on. -/
def Contiguous : ℕ → List Handed → Prop
  | _, [] => True
  | start, handed :: rest =>
      handed.offset = start ∧ Contiguous (start + handed.bytes.length) rest

/-- The bytes that the sink accepted. -/
def acceptedBytes : List Handed → ℕ
  | [] => 0
  | handed :: rest => (if handed.taken then handed.bytes.length else 0) + acceptedBytes rest

theorem acceptedBytes_append (first second : List Handed) :
    acceptedBytes (first ++ second) = acceptedBytes first + acceptedBytes second := by
  induction first with
  | nil => simp [acceptedBytes]
  | cons handed rest ih => simp only [List.cons_append, acceptedBytes, ih, Nat.add_assoc]

/-- Behind ranges that were all accepted, the next one starts where the accepted bytes end. -/
theorem Contiguous.append {start : ℕ} {first second : List Handed}
    (hfirst : Contiguous start first) (htaken : ∀ handed ∈ first, handed.taken = true)
    (hsecond : Contiguous (start + acceptedBytes first) second) :
    Contiguous start (first ++ second) := by
  induction first generalizing start with
  | nil => exact hsecond
  | cons handed rest ih =>
      obtain ⟨hoffset, hrest⟩ := hfirst
      rw [acceptedBytes, if_pos (htaken handed (List.mem_cons_self ..)), ← Nat.add_assoc] at hsecond
      refine ⟨hoffset, ih hrest (fun other hother => ?_) hsecond⟩
      exact htaken other (List.mem_cons_of_mem _ hother)

/-! ## Receiving -/

/-- A range that can be counted from its offset to its end. -/
def Countable (p : Puller) (opened : RecordingFileOpen) : Prop :=
  ∀ received, received ≤ opened.length → p.add opened.offset received = opened.offset + received

/-- What `Receive` hands over, and what it returns. -/
structure ReceivedSo (opened : RecordingFileOpen) (received : ℕ)
    (result : List Handed × Received) : Prop where
  contiguous : Contiguous (opened.offset + received) result.1
  counted : result.2.received = received + acceptedBytes result.1
  within : result.2.received ≤ opened.length
  taken : result.2.sinkFailed = false → ∀ handed ∈ result.1, handed.taken = true

variable {p : Puller} {opened : RecordingFileOpen}

theorem receivedSo_nothing {received error : ℕ} (hwithin : received ≤ opened.length) :
    ReceivedSo opened received ([], { received := received, error := error }) :=
  ⟨trivial, rfl, hwithin, by simp⟩

theorem receive_so (hcountable : Countable p opened) {received : ℕ}
    (hwithin : received ≤ opened.length) (reads : List SocketRead) :
    ReceivedSo opened received (p.receive opened received reads) := by
  induction reads generalizing received with
  | nil => exact receivedSo_nothing hwithin
  | cons read reads ih =>
      by_cases hfull : opened.length ≤ received
      · cases read <;>
        · rw [Puller.receive, if_pos hfull]
          exact receivedSo_nothing hwithin
      cases read with
      | interrupted =>
          rw [Puller.receive, if_neg hfull]
          exact ih hwithin
      | failed errno =>
          rw [Puller.receive, if_neg hfull]
          exact receivedSo_nothing hwithin
      | data bytes sinkTakes =>
          simp only [Puller.receive, if_neg hfull]
          have hgot : (bytes.take (want opened received)).length ≤ opened.length - received :=
            Nat.le_trans (List.length_take_le _ _) (Nat.min_le_right _ _)
          have hplace := hcountable received hwithin
          by_cases hnone : bytes.take (want opened received) = []
          · rw [if_pos hnone]
            exact receivedSo_nothing hwithin
          rw [if_neg hnone]
          cases sinkTakes with
          | false =>
              rw [if_pos rfl]
              exact ⟨⟨hplace, trivial⟩, by simp [acceptedBytes], hwithin, by simp⟩
          | true =>
              rw [if_neg (by simp)]
              have hwithin' : received + (bytes.take (want opened received)).length ≤
                  opened.length := by omega
              have hrest := ih hwithin'
              refine ⟨⟨hplace, ?_⟩, ?_, hrest.within, ?_⟩
              · rw [Nat.add_assoc]
                exact hrest.contiguous
              · rw [hrest.counted, acceptedBytes, if_pos rfl, Nat.add_assoc]
              · intro hsink handed hmem
                rcases List.mem_cons.mp hmem with rfl | hlater
                · rfl
                · exact hrest.taken hsink handed hlater

/-! ## One open -/

/-- The answer to an open at this offset has no range that C++ counts past `2^64`. -/
def NeverWraps (p : Puller) (offset : ℕ) (turn : Answered) : Prop :=
  p = .cpp → ∀ opened, turn.reply = .fileOpen opened →
    opened.Fits ∧ ¬ (opened.offset = offset ∧ opened.Wraps)

/-- No answer of the pull has one at the offset that the pull has reached then. -/
def NeverWrapsFrom (p : Puller) (request : PullRequest) : Pulled → List Answered → Prop
  | _, [] => True
  | pulled, turn :: turns =>
      NeverWraps p pulled.offset turn ∧
        ((p.attempt request pulled turn).2 = none →
          NeverWrapsFrom p request (p.attempt request pulled turn).1 turns)

theorem exact_of_describesRange {offset : ℕ}
    (hnever : p = .cpp → opened.Fits ∧ ¬ (opened.offset = offset ∧ opened.Wraps))
    (hdescribes : p.describesRange opened offset = true) :
    opened.Exact offset ∧ Countable p opened := by
  cases p with
  | python => exact ⟨describesRange_python.mp hdescribes, fun _ _ => rfl⟩
  | cpp =>
      obtain ⟨hfits, hwraps⟩ := hnever rfl
      have hexact : opened.Exact offset :=
        ((describesRange_cpp hfits).mp hdescribes).resolve_right hwraps
      refine ⟨hexact, fun received hreceived => Nat.mod_eq_of_lt ?_⟩
      have hsize := hfits.size
      have hsum := hexact.2
      omega

variable {request : PullRequest} {pulled : Pulled}

/-- What holds of the sink and the offset throughout a pull. -/
structure InStep (request : PullRequest) (pulled : Pulled) : Prop where
  contiguous : Contiguous request.offset pulled.sunk
  offset : pulled.offset = request.offset + acceptedBytes pulled.sunk

/-- Nothing that was handed over was refused. -/
def Taken (pulled : Pulled) : Prop := ∀ handed ∈ pulled.sunk, handed.taken = true

/-- The file has been handed over to its end. -/
def Reached (pulled : Pulled) : Prop :=
  Taken pulled ∧ ∃ opened, pulled.lastOpen = some opened ∧ pulled.offset = opened.file.size

/-- How an open leaves a pull that had everything taken. -/
structure LeftBy (p : Puller) (request : PullRequest) (pulled : Pulled)
    (result : Pulled × Option Ending) : Prop where
  inStep : InStep request result.1
  taken : result.2 = none → Taken result.1
  complete : result.2 = some .complete → Reached result.1
  ending : result.2 ≠ some .pulling

theorem sinkFailed_ending (p : Puller) :
    p.client.sinkFailed ≠ .complete ∧ p.client.sinkFailed ≠ .pulling := by
  cases p <;> simp [Puller.client]

theorem leftBy_failure {ending : Ending} (hinStep : InStep request pulled)
    (hcomplete : ending ≠ .complete) (hpulling : ending ≠ .pulling) :
    LeftBy p request pulled (pulled, some ending) :=
  ⟨hinStep, by simp, fun heq => absurd (Option.some.inj heq) hcomplete,
    fun heq => absurd (Option.some.inj heq) hpulling⟩

theorem afterOpen_leftBy (hexact : opened.Exact pulled.offset) (hcountable : Countable p opened)
    (hinStep : InStep request pulled) (htaken : Taken pulled) (reads : List SocketRead) :
    LeftBy p request pulled (p.afterOpen request pulled opened reads) := by
  unfold Puller.afterOpen
  by_cases hempty : opened.length = 0
  · -- The device has nothing more from this offset on: the file is complete.
    rw [if_pos hempty]
    refine ⟨⟨hinStep.contiguous, hinStep.offset⟩, by simp, fun _ => ⟨htaken, opened, rfl, ?_⟩,
      by simp⟩
    have hsum := hexact.2
    rw [hempty, hexact.1] at hsum
    exact hsum
  rw [if_neg hempty]
  have hreceived := receive_so hcountable (Nat.zero_le _) reads
  generalize p.receive opened 0 reads = result at hreceived
  obtain ⟨handed, got⟩ := result
  have hcount : got.received = acceptedBytes handed := by
    rw [hreceived.counted, Nat.zero_add]
  -- No wrap-around on this open, so the counter moves by exactly what was accepted.
  have hoffset : p.add pulled.offset got.received = pulled.offset + got.received := by
    rw [← hexact.1]
    exact hcountable _ hreceived.within
  have hmoved : InStep request { pulled with
      lastOpen := some opened, expect := p.client.carries opened.file
      offset := p.add pulled.offset got.received, sunk := pulled.sunk ++ handed } := by
    constructor
    · refine hinStep.contiguous.append htaken ?_
      rw [← hinStep.offset, ← hexact.1]
      exact hreceived.contiguous
    · rw [hoffset, hinStep.offset, acceptedBytes_append, hcount, Nat.add_assoc]
  have hall : got.sinkFailed = false → ∀ h ∈ pulled.sunk ++ handed, h.taken = true := by
    intro hsink h hmem
    rcases List.mem_append.mp hmem with hold | hnew
    · exact htaken h hold
    · exact hreceived.taken hsink h hnew
  dsimp only
  split
  · obtain ⟨hcomplete, hpulling⟩ := sinkFailed_ending p
    exact ⟨hmoved, by simp, fun heq => absurd (Option.some.inj heq) hcomplete,
      fun heq => absurd (Option.some.inj heq) hpulling⟩
  next hsink =>
    have htaken' := hall (by simpa using hsink)
    split
    next hend =>
      exact ⟨hmoved, by simp, fun _ => ⟨htaken', opened, rfl, hend⟩, by simp⟩
    split
    · exact ⟨⟨hmoved.contiguous, hmoved.offset⟩, fun _ => htaken', by simp, by simp⟩
    split
    · exact ⟨⟨hmoved.contiguous, hmoved.offset⟩, by simp, by simp, by simp⟩
    · exact ⟨⟨hmoved.contiguous, hmoved.offset⟩, fun _ => htaken', by simp, by simp⟩

theorem attempt_leftBy {turn : Answered} (hnever : NeverWraps p pulled.offset turn)
    (hinStep : InStep request pulled) (htaken : Taken pulled) :
    LeftBy p request pulled (p.attempt request pulled turn) := by
  unfold Puller.attempt
  dsimp only
  split
  · refine leftBy_failure hinStep ?_ ?_ <;> cases p <;> simp [Puller.client]
  cases hreply : turn.reply with
  | noAnswer => refine leftBy_failure hinStep ?_ ?_ <;> cases p <;> simp [Puller.client]
  | refused errorCode => exact leftBy_failure hinStep (by simp) (by simp)
  | otherPayload => exact leftBy_failure hinStep (by simp) (by simp)
  | fileOpen opened =>
      dsimp only
      split
      · exact leftBy_failure hinStep (by simp) (by simp)
      next hdescribes =>
        obtain ⟨hexact, hcountable⟩ := exact_of_describesRange
          (fun hcpp => hnever hcpp opened hreply) (Bool.not_eq_false _ ▸ hdescribes)
        exact afterOpen_leftBy hexact hcountable hinStep htaken turn.reads

/-! ## Opens -/

/-- An open after which the pull goes on has moved the offset, or it was one more without. -/
structure GoesOn (request : PullRequest) (pulled pulled' : Pulled) (size : ℕ) : Prop where
  within : pulled'.offset < size
  moved : pulled.offset < pulled'.offset ∧ pulled'.idleOpens = 0 ∨
    pulled'.offset = pulled.offset ∧ pulled'.idleOpens = pulled.idleOpens + 1 ∧
      pulled.idleOpens + 1 < request.maxOpensWithoutProgress

theorem afterOpen_goesOn (hexact : opened.Exact pulled.offset) (hcountable : Countable p opened)
    {reads : List SocketRead} {pulled' : Pulled}
    (hgoes : p.afterOpen request pulled opened reads = (pulled', none)) :
    GoesOn request pulled pulled' opened.file.size := by
  unfold Puller.afterOpen at hgoes
  by_cases hempty : opened.length = 0
  · simp [if_pos hempty] at hgoes
  rw [if_neg hempty] at hgoes
  have hreceived := receive_so hcountable (Nat.zero_le _) reads
  generalize p.receive opened 0 reads = result at hreceived hgoes
  obtain ⟨handed, got⟩ := result
  have hoffset : p.add pulled.offset got.received = pulled.offset + got.received := by
    rw [← hexact.1]
    exact hcountable _ hreceived.within
  have hbound : pulled.offset + got.received ≤ opened.file.size := by
    rw [← hexact.1, ← hexact.2]
    exact Nat.add_le_add_left hreceived.within _
  dsimp only at hgoes
  rw [hoffset] at hgoes
  split at hgoes
  · simp at hgoes
  split at hgoes
  · simp at hgoes
  next hend =>
    have hwithin : pulled.offset + got.received < opened.file.size :=
      Nat.lt_of_le_of_ne hbound hend
    split at hgoes
    next hsome =>
      cases hgoes
      exact ⟨hwithin, Or.inl ⟨Nat.lt_add_of_pos_right (Nat.pos_of_ne_zero hsome), rfl⟩⟩
    next hnone =>
      have hzero : got.received = 0 := Classical.not_not.mp hnone
      split at hgoes
      · simp at hgoes
      next hidle =>
        cases hgoes
        refine ⟨hwithin, Or.inr ⟨?_, rfl, Int.not_le.mp hidle⟩⟩
        rw [hzero, Nat.add_zero]

theorem attempt_goesOn {turn : Answered} (hnever : NeverWraps p pulled.offset turn) {size : ℕ}
    (hsize : ∀ opened, turn.reply = .fileOpen opened → opened.file.size = size) {pulled' : Pulled}
    (hgoes : p.attempt request pulled turn = (pulled', none)) :
    GoesOn request pulled pulled' size := by
  unfold Puller.attempt at hgoes
  dsimp only at hgoes
  split at hgoes
  · simp at hgoes
  cases hreply : turn.reply with
  | noAnswer => simp [hreply] at hgoes
  | refused errorCode => simp [hreply] at hgoes
  | otherPayload => simp [hreply] at hgoes
  | fileOpen opened =>
      simp only [hreply] at hgoes
      split at hgoes
      · simp at hgoes
      next hdescribes =>
        obtain ⟨hexact, hcountable⟩ := exact_of_describesRange
          (fun hcpp => hnever hcpp opened hreply) (Bool.not_eq_false _ ▸ hdescribes)
        rw [← hsize opened hreply]
        exact afterOpen_goesOn hexact hcountable hgoes

/-- The opens a pull may still take: the idle ones left, and the full number for each byte. -/
def opensLeft (limit size : ℕ) (pulled : Pulled) : ℕ :=
  (size - pulled.offset) * limit + (limit - pulled.idleOpens.toNat)

/-- Going on costs one of them. -/
theorem GoesOn.opensLeft {limit size : ℕ} {pulled pulled' : Pulled}
    (hlimit : request.maxOpensWithoutProgress = limit)
    (hidle : 0 ≤ pulled.idleOpens ∧ pulled.idleOpens < limit)
    (hgoes : GoesOn request pulled pulled' size) :
    (0 ≤ pulled'.idleOpens ∧ pulled'.idleOpens < limit) ∧
      Recordings.opensLeft limit size pulled' + 1 ≤ Recordings.opensLeft limit size pulled := by
  have hwithin := hgoes.within
  unfold Recordings.opensLeft
  rcases hgoes.moved with ⟨hmoved, hzero⟩ | ⟨hsame, hcount, hmore⟩
  · refine ⟨by omega, ?_⟩
    have hfewer : size - pulled'.offset + 1 ≤ size - pulled.offset := by omega
    have hbytes := Nat.mul_le_mul_right limit hfewer
    rw [Nat.succ_mul] at hbytes
    rw [hzero]
    omega
  · rw [hlimit] at hmore
    refine ⟨by omega, ?_⟩
    rw [hsame, hcount]
    omega

/-! ## Whole pulls -/

/-- The end of a pull from where it stands. -/
theorem pullFrom_so (hinStep : InStep request pulled) (htaken : Taken pulled)
    {turns : List Answered} (hnever : NeverWrapsFrom p request pulled turns) :
    InStep request (p.pullFrom request pulled turns).1 ∧
      ((p.pullFrom request pulled turns).2 = .complete →
        Reached (p.pullFrom request pulled turns).1) := by
  induction turns generalizing pulled with
  | nil => exact ⟨hinStep, fun heq => Ending.noConfusion heq⟩
  | cons turn turns ih =>
      obtain ⟨hturn, hlater⟩ := hnever
      have hleft := attempt_leftBy hturn hinStep htaken
      rw [Puller.pullFrom]
      generalize p.attempt request pulled turn = result at hleft hlater
      obtain ⟨pulled', ending⟩ := result
      cases ending with
      | some ending =>
          exact ⟨hleft.inStep, fun heq => hleft.complete (congrArg some heq)⟩
      | none => exact ih hleft.inStep (hleft.taken rfl) (hlater rfl)

theorem pullFrom_ends {limit size : ℕ} (hlimit : request.maxOpensWithoutProgress = limit)
    (hidle : 0 ≤ pulled.idleOpens ∧ pulled.idleOpens < limit)
    (hinStep : InStep request pulled) (htaken : Taken pulled) {turns : List Answered}
    (hnever : NeverWrapsFrom p request pulled turns)
    (hsize : ∀ turn ∈ turns, ∀ opened, turn.reply = .fileOpen opened → opened.file.size = size)
    (hopens : opensLeft limit size pulled ≤ turns.length) :
    (p.pullFrom request pulled turns).2 ≠ .pulling := by
  induction turns generalizing pulled with
  | nil =>
      unfold opensLeft at hopens
      simp only [List.length_nil] at hopens
      omega
  | cons turn turns ih =>
      obtain ⟨hturn, hlater⟩ := hnever
      have hleft := attempt_leftBy hturn hinStep htaken
      rw [Puller.pullFrom]
      cases hresult : p.attempt request pulled turn with
      | mk pulled' ending =>
          rw [hresult] at hleft hlater
          cases ending with
          | some ending => exact fun heq => hleft.ending (congrArg some heq)
          | none =>
              have hgoes := attempt_goesOn hturn (hsize turn (List.mem_cons_self ..)) hresult
              obtain ⟨hidle', hfewer⟩ := hgoes.opensLeft hlimit hidle
              rw [List.length_cons] at hopens
              exact ih hidle' hleft.inStep (hleft.taken rfl) (hlater rfl)
                (fun other hother => hsize other (List.mem_cons_of_mem _ hother)) (by omega)

/-- A pull hands its sink consecutive ranges from the requested offset on, its offset counts what
the sink accepted, and if it succeeds the file has been handed over to its end.  If the size of the
file stays the same, it ends after a bounded number of opens. -/
theorem pullFile_contiguous (p : Puller) (request : PullRequest) (turns : List Answered)
    (hnever : NeverWrapsFrom p request
      { offset := request.offset, expect := p.client.carries request.expect } turns) :
    Contiguous request.offset (p.pullFile request turns).1.sunk ∧
      (p.pullFile request turns).1.offset =
        request.offset + acceptedBytes (p.pullFile request turns).1.sunk ∧
      ((p.pullFile request turns).2 = .complete → Reached (p.pullFile request turns).1) ∧
      ∀ size, (∀ turn ∈ turns, ∀ opened, turn.reply = .fileOpen opened →
          opened.file.size = size) →
        1 ≤ request.maxOpensWithoutProgress →
        (size - request.offset + 1) * request.maxOpensWithoutProgress.toNat ≤ turns.length →
        (p.pullFile request turns).2 ≠ .pulling := by
  have hinStep : InStep request
      { offset := request.offset, expect := p.client.carries request.expect } :=
    ⟨trivial, rfl⟩
  have htaken : Taken { offset := request.offset, expect := p.client.carries request.expect } :=
    fun _ hmem => absurd hmem (by simp)
  obtain ⟨hso, hreached⟩ := pullFrom_so hinStep htaken hnever
  refine ⟨hso.contiguous, hso.offset, hreached, fun size hsize hpositive hopens => ?_⟩
  have hlimit : request.maxOpensWithoutProgress =
      (request.maxOpensWithoutProgress.toNat : ℤ) := (Int.toNat_of_nonneg (by omega)).symm
  have hidle : (0 : ℤ) < request.maxOpensWithoutProgress.toNat := by omega
  refine pullFrom_ends hlimit ⟨Int.le_refl _, hidle⟩ hinStep htaken hnever hsize ?_
  rw [Nat.succ_mul] at hopens
  simpa [opensLeft] using hopens

/-! ## Pulls from a device -/

/-- The two records of a pull say the same. -/
structure Alike (progress : Progress) (pulled : Pulled) : Prop where
  offset : pulled.offset = progress.offset
  expect : pulled.expect = progress.expect
  idleOpens : pulled.idleOpens = progress.idleOpens
  lastOpen : pulled.lastOpen = progress.lastOpen
  sunk : pulled.sunk.map (fun handed => (handed.offset, handed.bytes)) =
    progress.sunk.map fun delivery => (delivery.offset, delivery.bytes)

theorem receive_alike (hcountable : Countable p opened) {received : ℕ}
    (hwithin : received ≤ opened.length) (reads : List SocketRead) :
    (p.receive opened received reads).1.map (fun handed => (handed.offset, handed.bytes)) =
        (receive opened received reads).1.map (fun delivery => (delivery.offset, delivery.bytes)) ∧
      (p.receive opened received reads).2 = (receive opened received reads).2 := by
  induction reads generalizing received with
  | nil => exact ⟨rfl, rfl⟩
  | cons read reads ih =>
      by_cases hfull : opened.length ≤ received
      · cases read <;>
        · rw [Puller.receive, receive, if_pos hfull, if_pos hfull]
          exact ⟨rfl, rfl⟩
      cases read with
      | interrupted =>
          rw [Puller.receive, receive, if_neg hfull, if_neg hfull]
          exact ih hwithin
      | failed errno =>
          rw [Puller.receive, receive, if_neg hfull, if_neg hfull]
          exact ⟨rfl, rfl⟩
      | data bytes sinkTakes =>
          simp only [Puller.receive, receive, if_neg hfull, want, hcountable received hwithin]
          by_cases hnone : bytes.take (min kBufferBytes (opened.length - received)) = []
          · rw [if_pos hnone, if_pos hnone]
            exact ⟨rfl, rfl⟩
          rw [if_neg hnone, if_neg hnone]
          cases sinkTakes with
          | false => exact ⟨rfl, rfl⟩
          | true =>
              have hlength :=
                List.length_take_le (min kBufferBytes (opened.length - received)) bytes
              have hwithin' : received +
                  (bytes.take (min kBufferBytes (opened.length - received))).length ≤
                    opened.length := by omega
              obtain ⟨hsunk, hgot⟩ := ih hwithin'
              exact ⟨congrArg _ hsunk, hgot⟩

theorem afterOpen_alike {progress : Progress} (halike : Alike progress pulled)
    (hexact : opened.Exact progress.offset) (hcountable : Countable p opened)
    (reads : List SocketRead) :
    Alike (p.client.afterOpen request progress opened reads).1
        (p.afterOpen request pulled opened reads).1 ∧
      (p.afterOpen request pulled opened reads).2 =
        (p.client.afterOpen request progress opened reads).2 := by
  unfold Puller.afterOpen Client.afterOpen
  by_cases hempty : opened.length = 0
  · rw [if_pos hempty, if_pos hempty]
    exact ⟨⟨halike.offset, rfl, halike.idleOpens, rfl, halike.sunk⟩, rfl⟩
  rw [if_neg hempty, if_neg hempty]
  obtain ⟨hsunk, hgot⟩ := receive_alike hcountable (Nat.zero_le _) reads
  have hwithin := (receive_so hcountable (Nat.zero_le _) reads).within
  have hoffset : p.add pulled.offset (p.receive opened 0 reads).2.received =
      progress.offset + (receive opened 0 reads).2.received := by
    rw [halike.offset, ← hgot, ← hexact.1]
    exact hcountable _ hwithin
  have hall := congrArg₂ (· ++ ·) halike.sunk hsunk
  simp only [← List.map_append] at hall
  dsimp only
  rw [hoffset, hgot, halike.idleOpens]
  split
  · exact ⟨⟨rfl, rfl, rfl, rfl, hall⟩, rfl⟩
  split
  · exact ⟨⟨rfl, rfl, rfl, rfl, hall⟩, rfl⟩
  split
  · exact ⟨⟨rfl, rfl, rfl, rfl, hall⟩, rfl⟩
  split
  · exact ⟨⟨rfl, rfl, rfl, rfl, hall⟩, rfl⟩
  · exact ⟨⟨rfl, rfl, rfl, rfl, hall⟩, rfl⟩

/-- What a device opens is described by its answer. -/
theorem device_exact {device : Device} {cmd : OpenRecordingFile}
    (hopen : device.openRecordingFile cmd = .fileOpen opened) :
    opened.Exact cmd.offset ∧ opened.file = device.file := by
  unfold Device.openRecordingFile at hopen
  split at hopen
  · cases hopen
  split at hopen
  · cases hopen
  split at hopen
  · cases hopen
  split at hopen
  · cases hopen
  next hrange =>
    cases hopen
    have hle := Nat.not_lt.mp hrange
    exact ⟨⟨rfl, Nat.add_sub_cancel' hle⟩, rfl⟩

theorem countable_of_exact {offset : ℕ} (hexact : opened.Exact offset)
    (hsize : p = .cpp → opened.file.size < word64) : Countable p opened := by
  cases p with
  | python => exact fun _ _ => rfl
  | cpp =>
      have hlt := hsize rfl
      have hsum := hexact.2
      exact fun received hreceived => Nat.mod_eq_of_lt (by omega)

theorem describesRange_of_exact {offset : ℕ} (hexact : opened.Exact offset)
    (hcountable : Countable p opened) :
    p.describesRange opened offset = true ∧ Client.describesRange opened offset = true := by
  have hsum := hcountable opened.length (Nat.le_refl _)
  simp only [Puller.describesRange, Client.describesRange, hsum, Bool.and_eq_true, beq_iff_eq]
  exact ⟨hexact, hexact⟩

theorem attempt_alike (request : PullRequest) {progress : Progress}
    (halike : Alike progress pulled) (turn : Turn)
    (hsize : p = .cpp → turn.device.file.size < word64) :
    ∃ answer : Answered,
      Alike (p.client.attempt request progress turn).1 (p.attempt request pulled answer).1 ∧
        (p.attempt request pulled answer).2 = (p.client.attempt request progress turn).2 := by
  refine ⟨{ reply := turn.device.openRecordingFile
              { targetDevice := request.targetDevice, sessionName := request.sessionName
                fileName := request.fileName, offset := progress.offset
                expect := progress.expect }
            reads := turn.reads }, ?_⟩
  unfold Puller.attempt Client.attempt
  dsimp only
  split
  · exact ⟨halike, rfl⟩
  cases hopen : turn.device.openRecordingFile
      { targetDevice := request.targetDevice, sessionName := request.sessionName
        fileName := request.fileName, offset := progress.offset, expect := progress.expect } with
  | noAnswer => exact ⟨halike, rfl⟩
  | refused errorCode => exact ⟨halike, rfl⟩
  | otherPayload => exact ⟨halike, rfl⟩
  | fileOpen opened =>
      obtain ⟨hexact, hfile⟩ := device_exact hopen
      have hcountable : Countable p opened :=
        countable_of_exact hexact (fun hcpp => hfile ▸ hsize hcpp)
      obtain ⟨hhere, hthere⟩ := describesRange_of_exact hexact hcountable
      dsimp only
      rw [halike.offset, hhere, hthere]
      exact afterOpen_alike halike hexact hcountable turn.reads

/-- A pull from devices is a pull from answers. -/
theorem pullFrom_alike {progress : Progress} (halike : Alike progress pulled) (turns : List Turn)
    (hsize : ∀ turn ∈ turns, p = .cpp → turn.device.file.size < word64) :
    ∃ answers, Alike (p.client.pullFrom request progress turns).1
        (p.pullFrom request pulled answers).1 ∧
      (p.pullFrom request pulled answers).2 = (p.client.pullFrom request progress turns).2 := by
  induction turns generalizing progress pulled with
  | nil => exact ⟨[], halike, rfl⟩
  | cons turn turns ih =>
      obtain ⟨answer, hnext, hending⟩ :=
        attempt_alike request halike turn (hsize turn (List.mem_cons_self ..))
      rw [Client.pullFrom]
      cases hthere : p.client.attempt request progress turn with
      | mk progress' ending =>
          cases hhere : p.attempt request pulled answer with
          | mk pulled' ending' =>
              rw [hthere, hhere] at hnext hending
              cases ending with
              | some ending =>
                  refine ⟨[answer], ?_⟩
                  simp only at hending
                  simp only [Puller.pullFrom, hhere, hending]
                  exact ⟨hnext, trivial⟩
              | none =>
                  obtain ⟨answers, hrest⟩ :=
                    ih hnext fun other hother => hsize other (List.mem_cons_of_mem _ hother)
                  refine ⟨answer :: answers, ?_⟩
                  simp only at hending
                  simp only [Puller.pullFrom, hhere, hending]
                  exact hrest

theorem pullFile_alike (p : Puller) (request : PullRequest) (turns : List Turn)
    (hsize : ∀ turn ∈ turns, p = .cpp → turn.device.file.size < word64) :
    ∃ answers, Alike (p.client.pullFile request turns).1 (p.pullFile request answers).1 ∧
      (p.pullFile request answers).2 = (p.client.pullFile request turns).2 :=
  pullFrom_alike ⟨rfl, rfl, rfl, rfl, rfl⟩ turns hsize

/-! ## Two pulls -/

def smallRequest : PullRequest := { sessionName := [97], fileName := [98], offset := 3 }

/-- Two of four bytes are read, then the other two. -/
def shortReads : List Answered :=
  [{ reply := .fileOpen tailAnswer, reads := [.data [1, 2] true] },
    { reply := .fileOpen { port := 50002, offset := 5, length := 2, file := { size := 7 } }
      reads := [.interrupted, .data [3, 4] true] }]

theorem shortReads_neverWrap : NeverWrapsFrom .cpp smallRequest
    { offset := 3, expect := Puller.cpp.client.carries smallRequest.expect } shortReads := by
  refine ⟨?_, fun _ => ⟨?_, fun _ => trivial⟩⟩
  all_goals
    intro _ opened hreply
    cases hreply
    exact ⟨⟨by decide, by decide, by decide⟩, fun hwraps =>
      absurd hwraps.2 (by unfold RecordingFileOpen.Wraps; decide)⟩

theorem pullFile_contiguous_shortReads :
    Contiguous 3 (Puller.cpp.pullFile smallRequest shortReads).1.sunk ∧
      (Puller.cpp.pullFile smallRequest shortReads).1.offset =
        3 + acceptedBytes (Puller.cpp.pullFile smallRequest shortReads).1.sunk ∧
      Reached (Puller.cpp.pullFile smallRequest shortReads).1 := by
  obtain ⟨hcontiguous, hoffset, hcomplete, -⟩ :=
    pullFile_contiguous .cpp smallRequest shortReads shortReads_neverWrap
  exact ⟨hcontiguous, hoffset, hcomplete (by decide)⟩

/-- Two bytes at the last offset that 64 bits count, of a file that ends after one byte. -/
def lastRequest : PullRequest :=
  { sessionName := [97], fileName := [98], offset := 18446744073709551615 }

def lastAnswer : RecordingFileOpen :=
  { port := 50002, offset := 18446744073709551615, length := 2, file := { size := 1 } }

/-- In C++ that pull succeeds, at an offset that is neither what the sink accepted nor where the
bytes end. -/
theorem not_pullFile_contiguous :
    lastAnswer.Fits ∧
      (Puller.cpp.pullFile lastRequest
        [{ reply := .fileOpen lastAnswer, reads := [.data [7, 7] true] }]).2 = .complete ∧
      (Puller.cpp.pullFile lastRequest
        [{ reply := .fileOpen lastAnswer, reads := [.data [7, 7] true] }]).1.offset ≠
        lastRequest.offset + acceptedBytes (Puller.cpp.pullFile lastRequest
          [{ reply := .fileOpen lastAnswer, reads := [.data [7, 7] true] }]).1.sunk ∧
      (Puller.cpp.pullFile lastRequest
        [{ reply := .fileOpen lastAnswer, reads := [.data [7, 7] true] }]).1.sunk =
        [{ offset := 18446744073709551615, bytes := [7, 7], taken := true }] :=
  ⟨⟨by decide, by decide, by decide⟩, by decide +kernel, by decide +kernel, by decide +kernel⟩

end VisioSchema.Recordings

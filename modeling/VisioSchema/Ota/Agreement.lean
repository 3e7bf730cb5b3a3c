import VisioSchema.Library.Runs
import VisioSchema.Ota.Relay

/-!
# C++ and Python side by side

The two drivers are fed the same answers and compared turn by turn.  As long as
nothing fails on the link, they differ in three places only:

* the in-flight test, which C++ computes modulo `2^64`: a cursor more than one
  chunk below the watermark is out of the window there and inside it in Python;
* the count of resumes and its limit, which have 32 bits in C++;
* texts, which C++ cuts at 31 bytes and at a NUL.

`Comparable` says that a turn stays clear of the first two and reads no NUL.
-/

namespace VisioSchema.Ota

open VisioSchema.Library

/-! ## The conditions -/

/-- The links and the image do what they are asked to. -/
def Answer.Smooth {T : Type*} (a : Answer T) : Prop :=
  a.send = true ∧ a.read = true ∧ a.raised = false ∧ a.recv ≠ .undecodable

instance {T : Type*} (a : Answer T) : Decidable a.Smooth :=
  inferInstanceAs (Decidable (_ ∧ _ ∧ _ ∧ _))

/-- A text that C++ sends as it is. -/
def Fits (text : Text) : Prop := snprintf31 text = text

instance (text : Text) : Decidable (Fits text) := inferInstanceAs (Decidable (_ = _))

/-- A status whose texts C++ reads as they are. -/
def OtaStatus.plain (status : OtaStatus) : Bool :=
  inText .cpp status.errorCode = status.errorCode &&
    inText .cpp status.errorMessage = status.errorMessage

section Comparable

variable {T : Type*} [Zero T]

/-- The next resume fits the 32-bit counter of C++, and it is not told apart by the limit: that is
given, or the derived one is the same in 32 bits.  A given zero is a limit in Python, and derives
one in C++. -/
def countsAlike (opts : Options T) (image : List Wire.Byte) (c : Config T) : Bool :=
  let derived := derivedResumes image.length c.chunk
  decide (c.resumes + 1 < word32) &&
    match opts.maxResumes with
    | some 0 => decide (derived % word32 < c.resumes + 1)
    | some _ => true
    | none => decide (derived % word32 < c.resumes + 1) == decide (derived < c.resumes + 1)

/-- The next chunk ends below the watermark, and not so far below that the
difference wraps back into the window. -/
def farBelow (opts : Options T) (image : List Wire.Byte) (c : Config T) : Bool :=
  let n := min c.chunk (image.length - c.cursor)
  decide (c.cursor < image.length ∧ c.cursor + n < c.st.acked ∧
    c.st.acked + opts.window < c.cursor + n + word64)

variable [Sub T] [LT T] [DecidableLT T]

/-- The condition of a turn under which the drivers take the same one. -/
def Comparable (opts : Options T) (image : List Wire.Byte) (c : Config T) (a : Answer T) : Bool :=
  match c.pc with
  | .head =>
      if c.st.finished || decide (opts.deadline < a.clock - c.start) then true
      else if c.st.resumeTo.isSome then countsAlike opts image c
      else !farBelow opts image c
  | .pump _ =>
      match a.recv with
      | .status status => status.plain
      | _ => true
  | _ => true

end Comparable

/-- What the drivers cannot leave: 60 KiB chunks and 64-bit counts. -/
structure Bounded {T : Type*} [Zero T] (c : Config T) : Prop where
  chunk : c.chunk ≤ kMaxChunkBytes
  sized : ∀ n, c.pc = .chunkSend n → n ≤ kMaxChunkBytes
  acked : c.st.acked < word64

/-- The configurations of the two drivers after the same answers. -/
structure Paired {T : Type*} [Zero T] (c c' : Config T) : Prop where
  same : c' = c
  bounded : Bounded c

section Turns

set_option linter.unusedSectionVars false

variable {T : Type*} [Zero T] {opts : Options T} {image : List Wire.Byte} {c : Config T}
  {a : Answer T}

theorem bounded_init : Bounded ({} : Config T) :=
  ⟨Nat.zero_le _, by simp, by simp [word64]⟩

/-! ## Where the drivers compute alike -/

/-- The in-flight tests agree exactly where the next chunk is not far below the
watermark. -/
theorem inWindow_agree (window : ℕ) {cursor acked n : ℕ} (hend : cursor + n < word64)
    (hacked : acked < word64) :
    inWindow .cpp window cursor acked n = inWindow .python window cursor acked n ↔
      ¬ (cursor + n < acked ∧ acked + window < cursor + n + word64) := by
  simp only [inWindow, decide_eq_decide]
  unfold word64 at *
  rcases Nat.lt_or_ge cursor acked with hbelow | habove
  · -- the difference wraps; adding `n` wraps it back unless the chunk ends below
    have hwrap : (cursor + (18446744073709551616 - acked)) % 18446744073709551616 =
        cursor + (18446744073709551616 - acked) := Nat.mod_eq_of_lt (by omega)
    rw [hwrap]
    omega
  · have hdiff : (cursor + (18446744073709551616 - acked)) % 18446744073709551616 =
        cursor - acked := by omega
    rw [hdiff, Nat.mod_eq_of_lt (by omega)]
    omega

theorem message_agree (htarget : Fits opts.targetDevice) (body : OtaBody) :
    message .cpp opts body = message .python opts body := by
  simp only [message, outText]
  rw [htarget]

theorem foldOwn_agree {status : OtaStatus} (hplain : status.plain = true) (st : Folded) :
    foldOwn .cpp st status = foldOwn .python st status := by
  simp only [OtaStatus.plain, Bool.and_eq_true, decide_eq_true_eq] at hplain
  simp only [foldOwn, hplain.1, hplain.2]
  rfl

theorem fold_agree {status : OtaStatus} (hplain : status.plain = true) (session : UInt64)
    (st : Folded) : fold .cpp session st status = fold .python session st status := by
  simp only [fold, foldOwn_agree hplain]

theorem fold_acked_lt {st : Folded} (hacked : st.acked < word64) (d : Driver) (session : UInt64)
    (status : OtaStatus) : (fold d session st status).acked < word64 := by
  have hstatus : status.bytesReceived.toNat < word64 := status.bytesReceived.toNat_lt
  unfold fold
  split
  · exact hacked
  · rcases foldOwn_acked d st status with hsame | hmax <;> omega

theorem sendResult_smooth (hsmooth : a.Smooth) (d : Driver) : a.sendResult d = .ok := by
  simp [Answer.sendResult, Answer.throws, hsmooth.1, hsmooth.2.2.1]

theorem throws_smooth (hsmooth : a.Smooth) (d : Driver) : a.throws d = false := by
  simp [Answer.throws, hsmooth.2.2.1]

theorem chunkData_agree {data : List Wire.Byte} (hsize : data.length ≤ kMaxChunkBytes) :
    chunkData .cpp data = chunkData .python data := by
  have hlt : data.length < 65536 := by
    simp only [kMaxChunkBytes] at hsize
    omega
  simp only [chunkData, Nat.mod_eq_of_lt hlt, List.take_length]

theorem abortWith_agree (htarget : Fits opts.targetDevice) (why : String) (ok : Bool)
    (reason : Reason) :
    abortWith .cpp opts image c why ok reason = abortWith .python opts image c why ok reason := by
  simp only [abortWith, abortMessage, message_agree htarget]

theorem afterLoop_agree (htarget : Fits opts.targetDevice) :
    afterLoop .cpp opts image c = afterLoop .python opts image c := by
  simp only [afterLoop, abortWith_agree htarget]

/-- The condition is exact: the counts are the same, and so is what the limit makes of them. -/
theorem countsAlike_iff : countsAlike opts image c = true ↔
    bump .cpp c.resumes = bump .python c.resumes ∧
      (maxResumes .cpp opts.maxResumes image.length c.chunk < bump .python c.resumes ↔
        maxResumes .python opts.maxResumes image.length c.chunk < bump .python c.resumes) := by
  have hbump : bump .cpp c.resumes = bump .python c.resumes ↔ c.resumes + 1 < word32 := by
    simp only [bump, word32]
    omega
  rw [hbump, countsAlike, Bool.and_eq_true, decide_eq_true_eq]
  refine and_congr_right fun _ => ?_
  cases opts.maxResumes with
  | none => simp [maxResumes, bump]
  | some limit =>
      cases limit with
      | zero => simp [maxResumes, bump]
      | succ limit => simp [maxResumes, bump]

theorem rewind_agree (htarget : Fits opts.targetDevice) (hcounts : countsAlike opts image c = true)
    (target : ℕ) : rewind .cpp opts image c target = rewind .python opts image c target := by
  obtain ⟨hsame, hlimit⟩ := countsAlike_iff.mp hcounts
  simp only [rewind, hsame, hlimit, abortWith_agree htarget]

/-! ## One turn -/

variable [Add T] [Sub T] [LT T] [DecidableLT T] [Min T]

theorem head_agree (htarget : Fits opts.targetDevice) (himage : image.length < word64)
    (hbounded : Bounded c) (hpc : c.pc = .head) (hcomparable : Comparable opts image c a = true) :
    head .cpp opts image c a = head .python opts image c a := by
  simp only [Comparable, hpc] at hcomparable
  unfold head
  cases hfinished : c.st.finished with
  | true => simp only [if_true, afterLoop_agree htarget]
  | false =>
      by_cases hdeadline : opts.deadline < a.clock - c.start
      · simp only [Bool.false_eq_true, if_false, hdeadline, if_true, abortWith_agree htarget]
      simp only [hfinished, hdeadline, decide_false, Bool.or_self, Bool.false_eq_true,
        if_false] at hcomparable ⊢
      cases hresume : c.st.resumeTo with
      | some target =>
          simp only [hresume, Option.isSome_some, if_true] at hcomparable ⊢
          exact rewind_agree htarget hcomparable target
      | none =>
          simp only [hresume, Option.isSome_none, Bool.false_eq_true, if_false, farBelow,
            Bool.not_eq_true', decide_eq_false_iff_not] at hcomparable ⊢
          by_cases hcursor : c.cursor < image.length
          · have hend : c.cursor + min c.chunk (image.length - c.cursor) < word64 := by omega
            have hwindow := (inWindow_agree opts.window hend hbounded.acked).mpr
              fun hbelow => hcomparable ⟨hcursor, hbelow⟩
            simp only [hwindow, afterLoop_agree htarget]
          · simp only [hcursor, false_and, if_false, afterLoop_agree htarget]

theorem pump_agree {back : Back T} (hsmooth : a.Smooth) (hpc : c.pc = .pump back)
    (hcomparable : Comparable opts image c a = true) :
    pump .cpp opts image c back a = pump .python opts image c back a := by
  simp only [pump, throws_smooth hsmooth, Bool.false_eq_true, if_false]
  cases hrecv : a.recv with
  | nothing => rfl
  | undecodable => exact absurd hrecv hsmooth.2.2.2
  | status status =>
      have hplain : status.plain = true := by
        simpa only [Comparable, hpc, hrecv] using hcomparable
      simp only [fold_agree hplain]

theorem queryRecv_agree (deadline : T) (smallest : ℕ) (hsmooth : a.Smooth) :
    queryRecv .cpp opts image c deadline smallest a =
      queryRecv .python opts image c deadline smallest a := by
  simp only [queryRecv, throws_smooth hsmooth, Bool.false_eq_true, if_false]
  cases hrecv : a.recv with
  | nothing => rfl
  | undecodable => exact absurd hrecv hsmooth.2.2.2
  | status status => rfl

theorem chunkSend_agree (htarget : Fits opts.targetDevice) {n : ℕ} (hsmooth : a.Smooth)
    (hsized : n ≤ kMaxChunkBytes) :
    chunkSend .cpp opts image c n a = chunkSend .python opts image c n a := by
  have hlength : (slice image c.cursor n).length ≤ kMaxChunkBytes := by
    simp only [slice, List.length_take]
    omega
  simp only [chunkSend, hsmooth.2.1, Bool.true_eq_false, if_false, sendResult_smooth hsmooth,
    chunkMessage, chunkData_agree hlength, message_agree htarget]

/-- One turn of C++ is one turn of Python. -/
theorem step_agree (htarget : Fits opts.targetDevice) (hversion : Fits opts.fwVersion)
    (hboard : Fits opts.board) (himage : image.length < word64) (hsmooth : a.Smooth)
    (hbounded : Bounded c) (hcomparable : Comparable opts image c a = true) :
    step .cpp opts image c a = step .python opts image c a := by
  unfold step
  cases hpc : c.pc with
  | quiesceOn => simp only [quiesceOn, throws_smooth hsmooth]
  | querySend =>
      simp only [querySend, sendResult_smooth hsmooth, queryMessage, message_agree htarget]
  | queryHead deadline smallest => rfl
  | queryRecv deadline smallest => exact queryRecv_agree deadline smallest hsmooth
  | beginSend =>
      have hbegin : beginMessage .cpp opts image.length c.chunk =
          beginMessage .python opts image.length c.chunk := by
        simp only [beginMessage, message_agree htarget, outText]
        rw [hversion, hboard]
      simp only [beginSend, sendResult_smooth hsmooth, hbegin]
  | pump back => exact pump_agree hsmooth hpc hcomparable
  | head => exact head_agree htarget himage hbounded hpc hcomparable
  | chunkSend n => exact chunkSend_agree htarget hsmooth (hbounded.sized n hpc)
  | tail => simp only [tail, abortWith_agree htarget]
  | commitSend =>
      simp only [commitSend, sendResult_smooth hsmooth, commitMessage, message_agree htarget]
  | commitHead deadline => rfl
  | restore outcome => rfl
  | done outcome => rfl

theorem step_bounded (d : Driver) (hchunk : opts.chunk ≤ kMaxChunkBytes) (hbounded : Bounded c) :
    Bounded (step d opts image c a) := by
  have hturn := step_turn d opts image c a
  generalize step d opts image c a = next at hturn ⊢
  have hquiet : ∀ {next : Config T}, Quiet opts c next → Bounded next := by
    intro next hquiet
    refine ⟨?_, fun n hn => le_trans (hquiet.sized n hn) hbounded.chunk, ?_⟩
    · rcases hquiet.chunk with hsame | ⟨smallest, hsettled⟩
      · exact hsame ▸ hbounded.chunk
      · exact hsettled ▸ negotiatedChunk_le hchunk
    · rw [hquiet.acked]
      exact hbounded.acked
  cases hturn with
  | silent hsilent hcalls => exact hquiet hsilent
  | calls made hdue hcalled hcalls => exact hquiet hcalled
  | hears back status hpc hrecv =>
      exact ⟨hbounded.chunk, hbounded.sized, fold_acked_lt hbounded.acked d _ status⟩
  | leaves hpc hfailure hstaged hcommit hall =>
      exact ⟨hbounded.chunk, by simp, hbounded.acked⟩

/-! ## Whole runs -/

/-- Fed answers under which every turn is comparable, the C++ relay goes through
the configurations of the Python relay: it sends the same messages in the same
order and returns the same outcome. -/
theorem relay_agree (htarget : Fits opts.targetDevice) (hversion : Fits opts.fwVersion)
    (hboard : Fits opts.board) (himage : image.length < word64)
    (hchunk : opts.chunk ≤ kMaxChunkBytes) {answers : List (Answer T)}
    (hsmooth : ∀ a ∈ answers, a.Smooth)
    (halong : Along (step .python opts image)
      (fun c a => Comparable opts image c a = true) {} answers) :
    (relay .cpp opts image answers).sent = (relay .python opts image answers).sent ∧
      (relay .cpp opts image answers).outcome = (relay .python opts image answers).outcome := by
  have hboth : Along (step .python opts image)
      (fun c a => a.Smooth ∧ Comparable opts image c a = true) {} answers :=
    along_and (along_of_mem (fun a ha _ => hsmooth a ha) _) halong
  have hpaired : Paired (relay .python opts image answers) (relay .cpp opts image answers) := by
    refine run_simulation ?_ ⟨rfl, bounded_init⟩ hboth
    rintro c c' a ⟨rfl, hbounded⟩ ⟨hsmooth, hcomparable⟩
    exact ⟨step_agree htarget hversion hboard himage hsmooth hbounded hcomparable,
      step_bounded .python hchunk hbounded⟩
  rw [hpaired.same]
  exact ⟨rfl, rfl⟩

end Turns

/-! ## Two rewinds -/

/-- A window of three chunks of 4 bytes. -/
def smallOptions : Options ℤ := { plainOptions with chunk := 4, window := 12 }

def smallImage : List Wire.Byte := [1, 2, 3, 4, 5, 6, 7, 8, 9, 10, 11, 12]

/-- The begin and two chunks are sent, the device acks both, the third chunk is
sent and the device asks for `wanted`; from then on the link is silent and every
clock reading is past the stall timeout. -/
def rewindScript (wanted : UInt64) : List (Answer ℤ) :=
  List.replicate 9 { clock := 0 } ++
    [{ clock := 0, recv := .status { state := .receiving, bytesReceived := 8 } }] ++
    List.replicate 4 { clock := 0 } ++
    [{ clock := 0, recv := .status { state := .needsResume, bytesReceived := wanted } }] ++
    List.replicate 2 { clock := 0 } ++ List.replicate 8 { clock := 50000 }

/-- A rewind to the watermark is honoured alike. -/
theorem relay_agree_watermark :
    (relay .cpp smallOptions smallImage (rewindScript 8)).sent =
        (relay .python smallOptions smallImage (rewindScript 8)).sent ∧
      (relay .cpp smallOptions smallImage (rewindScript 8)).outcome =
        (relay .python smallOptions smallImage (rewindScript 8)).outcome :=
  relay_agree (by decide) (by decide) (by decide) (by decide) (by decide) (by decide +kernel)
    (by decide +kernel)

/-- A rewind below it is not: both relays return, and only Python has sent the
first chunk again. -/
theorem not_relay_agree :
    (relay .python smallOptions smallImage (rewindScript 0)).sent.count
        (chunkMessage .python smallOptions 0 [1, 2, 3, 4]) = 2 ∧
      (relay .cpp smallOptions smallImage (rewindScript 0)).sent.count
        (chunkMessage .cpp smallOptions 0 [1, 2, 3, 4]) = 1 ∧
      (relay .cpp smallOptions smallImage (rewindScript 0)).sent ≠
        (relay .python smallOptions smallImage (rewindScript 0)).sent ∧
      (relay .cpp smallOptions smallImage (rewindScript 0)).outcome.isSome = true ∧
      (relay .python smallOptions smallImage (rewindScript 0)).outcome.isSome = true ∧
      ∀ a ∈ rewindScript 0, a.Smooth := by
  decide +kernel

end VisioSchema.Ota

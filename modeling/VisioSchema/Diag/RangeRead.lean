import Mathlib.Algebra.Order.Group.Int
import Mathlib.Algebra.Ring.Int.Defs
import Mathlib.Order.MinMax
import VisioSchema.Diag.ReadFile

/-!
# What a diagnostic read returns

The drivers check that the chunks of their session follow one another, and take a last chunk or a
`DONE` for the end of the range.  So what they return is a run of the file's bytes from the
offset on, and its end is where the last chunk in front of that signal ends (`signalledEnd`): the
range is returned when the device signals the end there, and only then.

## Strategy

* **One reply.**  An accepted reply adds the next chunk of the file, or nothing (`Adds`); `Reads`
  says that what was read so far is the file from the offset on, and each reply keeps it.
* **A run.**  Turns without a reply of the session change nothing or end the read with an error,
  so a run that returns has read up to the signal (`drive_returned`).  Replies of other sessions
  can be taken out of a script altogether (`Py.readFile_filter`).
* **The TypeScript driver** keeps the chunks apart and joins them behind the last one.  It is
  related to the Python driver state by state (`Agrees`), and makes the same calls
  (`readFile_eq`).
-/

namespace VisioSchema.Diag

open VisioSchema.Wire VisioSchema.Library

/-! ## The device's file -/

/-- A file on the device; what lies past `valid` is pre-allocation or a torn tail. -/
structure DeviceFile where
  bytes : List Byte
  valid : ℕ
  valid_le : valid ≤ bytes.length

/-- The end of the range that a read asks for; a length of 0 is "to the end of the valid region". -/
def DeviceFile.rangeEnd (file : DeviceFile) (offset length : ℕ) : ℕ :=
  if length = 0 then file.valid else min (offset + length) file.valid

/-- The range that a read asks for. -/
def DeviceFile.range (file : DeviceFile) (offset length : ℕ) : List Byte :=
  (file.bytes.take (file.rangeEnd offset length)).drop offset

theorem DeviceFile.rangeEnd_le (file : DeviceFile) (offset length : ℕ) :
    file.rangeEnd offset length ≤ file.bytes.length := by
  have hvalid := file.valid_le
  unfold DeviceFile.rangeEnd
  split <;> omega

/-- Bytes of the file from the offset on are the range when they end with it. -/
theorem DeviceFile.eq_range_iff (file : DeviceFile) {offset length : ℕ} {data : List Byte}
    (hdata : data <+: file.bytes.drop offset) :
    data = file.range offset length ↔
      offset + data.length = max offset (file.rangeEnd offset length) := by
  have hend := file.rangeEnd_le offset length
  have hlength : (file.range offset length).length = file.rangeEnd offset length - offset := by
    rw [DeviceFile.range, List.length_drop, List.length_take]
    omega
  have hrange : file.range offset length <+: file.bytes.drop offset := by
    rw [DeviceFile.range, List.drop_take]
    exact List.take_prefix ..
  constructor
  · rintro rfl
    omega
  · intro heq
    have hsame : data.length = (file.range offset length).length := by omega
    exact (List.prefix_of_prefix_length_le hdata hrange hsame.le).eq_of_length hsame

/-! ## The replies of a session -/

/-- The reply of an answer, if it is one of the session. -/
def Answer.inSession (sessionId : ℕ) : Answer → Option DiagReply
  | .silence => none
  | .garbled => none
  | .reply r => if r.sessionId = sessionId then some r else none

/-- The session's replies in a script. -/
def sessionReplies {Time : Type*} (sessionId : ℕ) (script : List (Turn Time)) : List DiagReply :=
  script.filterMap fun turn => turn.answer.inSession sessionId

/-- The turn is no reply of another session. -/
def Turn.ours {Time : Type*} (sessionId : ℕ) (turn : Turn Time) : Bool :=
  match turn.answer with
  | .silence => true
  | .garbled => true
  | .reply r => r.sessionId = sessionId

/-- Each chunk that names the file carries the file's bytes at its stated offset. -/
def Honest {Time : Type*} (file : DeviceFile) (name : Text) (script : List (Turn Time)) : Prop :=
  ∀ turn ∈ script, ∀ r c, turn.answer = .reply r → r.body = .chunk c → c.name = name →
    c.data <+: file.bytes.drop c.offset

/-- The reply signals the end of the read. -/
def DiagReply.signalsEnd (r : DiagReply) : Bool :=
  match r.body with
  | .chunk c => c.last
  | .status s => s.state = .done
  | .listing => false
  | .unset => false

/-- Where the chunk of the reply ends in the file. -/
def DiagReply.chunkEnd (r : DiagReply) : Option ℕ :=
  match r.body with
  | .chunk c => some (c.offset + c.data.length)
  | .status _ => none
  | .listing => none
  | .unset => none

/-- Where the last chunk up to the signal of the end ends in the file, `offset` without a chunk. -/
def signalledEnd (offset : ℕ) (replies : List DiagReply) : ℕ :=
  ((replies.take (replies.findIdx DiagReply.signalsEnd + 1)).filterMap
    DiagReply.chunkEnd).getLastD offset

section Scripts

variable {Time : Type*} {sessionId : ℕ} {turn : Turn Time}

theorem sessionReplies_some {r : DiagReply} (hreply : turn.answer.inSession sessionId = some r)
    (script : List (Turn Time)) :
    sessionReplies sessionId (turn :: script) = r :: sessionReplies sessionId script :=
  List.filterMap_cons_some hreply

theorem sessionReplies_none (hnone : turn.answer.inSession sessionId = none)
    (script : List (Turn Time)) :
    sessionReplies sessionId (turn :: script) = sessionReplies sessionId script :=
  List.filterMap_cons_none hnone

theorem inSession_eq_some {answer : Answer} {r : DiagReply}
    (hreply : answer.inSession sessionId = some r) :
    answer = .reply r ∧ r.sessionId = sessionId := by
  unfold Answer.inSession at hreply
  cases answer with
  | silence => cases hreply
  | garbled => cases hreply
  | reply other =>
      simp only at hreply
      split at hreply
      case isTrue hsession =>
        obtain rfl := Option.some.inj hreply
        exact ⟨rfl, hsession⟩
      case isFalse => cases hreply

theorem honest_tail {file : DeviceFile} {name : Text} {script : List (Turn Time)}
    (hhonest : Honest file name (turn :: script)) : Honest file name script :=
  fun other hmem => hhonest other (List.mem_cons_of_mem _ hmem)

theorem honest_reply {file : DeviceFile} {name : Text} {script : List (Turn Time)}
    (hhonest : Honest file name (turn :: script)) {r : DiagReply}
    (hreply : turn.answer.inSession sessionId = some r) :
    ∀ c, r.body = .chunk c → c.name = name → c.data <+: file.bytes.drop c.offset :=
  fun c hbody hname =>
    hhonest turn (List.mem_cons_self ..) r c (inSession_eq_some hreply).1 hbody hname

end Scripts

/-! ## The signalled end -/

theorem getLastD_filterMap_cons {α β : Type*} (f : α → Option β) (x : α) (xs : List α) (b : β) :
    ((x :: xs).filterMap f).getLastD b = (xs.filterMap f).getLastD ((f x).getD b) := by
  cases hx : f x with
  | none => rw [List.filterMap_cons_none hx, Option.getD_none]
  | some y => rw [List.filterMap_cons_some hx, Option.getD_some, List.getLastD_cons]

theorem signalledEnd_of_signal {r : DiagReply} (hr : r.signalsEnd = true) (offset : ℕ)
    (rest : List DiagReply) : signalledEnd offset (r :: rest) = r.chunkEnd.getD offset := by
  rw [signalledEnd, List.findIdx_cons, hr, cond_true, List.take_succ_cons, List.take_zero,
    getLastD_filterMap_cons]
  rfl

theorem signalledEnd_of_not_signal {r : DiagReply} (hr : r.signalsEnd = false) (offset : ℕ)
    (rest : List DiagReply) :
    signalledEnd offset (r :: rest) = signalledEnd (r.chunkEnd.getD offset) rest := by
  rw [signalledEnd, List.findIdx_cons, hr, cond_false, List.take_succ_cons,
    getLastD_filterMap_cons]
  rfl

section Drivers

variable {Time : Type*}

/-! ## What the Python driver does with a reply -/

namespace Py

/-- What a reply that is accepted adds to the bytes: a chunk of the file that begins where they end,
or nothing. -/
inductive Adds (name : Text) (expect : ℕ) (out : List Byte) (r : DiagReply) : List Byte → Prop
  | nothing (hchunk : r.chunkEnd = none) : Adds name expect out r out
  | chunk {c : DiagChunk} (hbody : r.body = .chunk c) (hname : c.name = name)
      (hoffset : c.offset = expect) : Adds name expect out r (out ++ c.data)

theorem onReply_next {args : ReadArgs Time} {st after : Reading Time} {r : DiagReply}
    {calls : List (Call Time)} (hstep : onReply args st r = .next calls after) :
    r.signalsEnd = false ∧ after.expect = r.chunkEnd.getD st.expect ∧
      Adds args.name st.expect st.out r after.out := by
  unfold onReply at hstep
  cases hbody : r.body with
  | chunk c =>
      simp only [hbody] at hstep
      split at hstep
      case isTrue => cases hstep
      case isFalse hmatch =>
        rw [not_or, not_not, not_not] at hmatch
        split at hstep
        case isTrue => cases hstep
        case isFalse hlast =>
          cases hstep
          refine ⟨?_, ?_, .chunk hbody hmatch.1 hmatch.2⟩
          · simpa [DiagReply.signalsEnd, hbody] using hlast
          · simp [DiagReply.chunkEnd, hbody, hmatch.2]
  | status s =>
      simp only [hbody] at hstep
      split at hstep
      case isTrue => cases hstep
      case isFalse hdone =>
        split at hstep
        case isTrue => cases hstep
        case isFalse =>
          cases hstep
          have hchunk : r.chunkEnd = none := by simp [DiagReply.chunkEnd, hbody]
          refine ⟨by simpa [DiagReply.signalsEnd, hbody] using hdone, ?_, .nothing hchunk⟩
          rw [hchunk, Option.getD_none]
  | listing =>
      simp only [hbody] at hstep
      cases hstep
      have hchunk : r.chunkEnd = none := by simp [DiagReply.chunkEnd, hbody]
      exact ⟨by simp [DiagReply.signalsEnd, hbody], by rw [hchunk, Option.getD_none],
        .nothing hchunk⟩
  | unset =>
      simp only [hbody] at hstep
      cases hstep
      have hchunk : r.chunkEnd = none := by simp [DiagReply.chunkEnd, hbody]
      exact ⟨by simp [DiagReply.signalsEnd, hbody], by rw [hchunk, Option.getD_none],
        .nothing hchunk⟩

theorem onReply_returned {args : ReadArgs Time} {st : Reading Time} {r : DiagReply}
    {calls : List (Call Time)} {data : List Byte}
    (hstep : onReply args st r = .stop calls (.returned data)) :
    r.signalsEnd = true ∧ Adds args.name st.expect st.out r data := by
  unfold onReply at hstep
  cases hbody : r.body with
  | chunk c =>
      simp only [hbody] at hstep
      split at hstep
      case isTrue => cases hstep
      case isFalse hmatch =>
        rw [not_or, not_not, not_not] at hmatch
        split at hstep
        case isTrue hlast =>
          cases hstep
          exact ⟨by simpa [DiagReply.signalsEnd, hbody] using hlast,
            .chunk hbody hmatch.1 hmatch.2⟩
        case isFalse => cases hstep
  | status s =>
      simp only [hbody] at hstep
      split at hstep
      case isTrue hdone =>
        cases hstep
        exact ⟨by simpa [DiagReply.signalsEnd, hbody] using hdone,
          .nothing (by simp [DiagReply.chunkEnd, hbody])⟩
      case isFalse => split at hstep <;> cases hstep
  | listing =>
      simp only [hbody] at hstep
      cases hstep
  | unset =>
      simp only [hbody] at hstep
      cases hstep

/-- The bytes read so far are the file's from the offset on, up to the next that is expected. -/
structure Reads (file : DeviceFile) (offset expect : ℕ) (out : List Byte) : Prop where
  bytes : out <+: file.bytes.drop offset
  expect : expect = offset + out.length

theorem Reads.adds {file : DeviceFile} {name : Text} {offset expect : ℕ} {out data : List Byte}
    {r : DiagReply} (hreads : Reads file offset expect out)
    (hhonest : ∀ c, r.body = .chunk c → c.name = name → c.data <+: file.bytes.drop c.offset)
    (hadds : Adds name expect out r data) :
    Reads file offset (r.chunkEnd.getD expect) data := by
  cases hadds with
  | nothing hchunk =>
      rw [hchunk, Option.getD_none]
      exact hreads
  | @chunk c hbody hname hoffset =>
      have hend : r.chunkEnd = some (c.offset + c.data.length) := by
        simp [DiagReply.chunkEnd, hbody]
      have hat := hhonest c hbody hname
      rw [hoffset, hreads.expect, ← List.drop_drop] at hat
      obtain ⟨rest, hrest⟩ := hat
      obtain ⟨behind, hbehind⟩ := hreads.bytes
      rw [← hbehind, List.drop_left] at hrest
      refine ⟨⟨rest, by rw [List.append_assoc, hrest, hbehind]⟩, ?_⟩
      rw [hend, Option.getD_some, hoffset, hreads.expect, List.length_append, Nat.add_assoc]

/-! ## Turns -/

section Clock

variable [LinearOrder Time] [Add Time] [Sub Time] [Zero Time]

theorem step_reply {args : ReadArgs Time} {turn : Turn Time} {r : DiagReply}
    (hreply : turn.answer.inSession args.sessionId = some r) (st : Reading Time) :
    step args st turn =
      (onReply args { st with deadline := turn.behind + args.timeout } r).after
        [.recv (max 0 (st.deadline - turn.before))] := by
  obtain ⟨hanswer, hsession⟩ := inSession_eq_some hreply
  simp [step, replies, hanswer, hsession]

/-- A turn without a reply of the session leaves what was read as it is, or ends the read with an
error. -/
theorem step_no_reply {args : ReadArgs Time} {turn : Turn Time}
    (hnone : turn.answer.inSession args.sessionId = none) (st : Reading Time) :
    (∃ calls, step args st turn = .next calls st) ∨
      ∃ calls ending, step args st turn = .stop calls ending ∧
        ∀ data, ending ≠ .returned data := by
  unfold Answer.inSession at hnone
  unfold step replies
  cases hanswer : turn.answer with
  | silence =>
      by_cases hdeadline : st.deadline ≤ turn.behind
      · simp [hdeadline]
      · simp [hdeadline]
  | garbled => simp
  | reply other =>
      simp only [hanswer] at hnone
      split at hnone
      case isTrue => cases hnone
      case isFalse hsession => simp [hsession]

theorem step_foreign {args : ReadArgs Time} {turn : Turn Time}
    (hforeign : turn.ours args.sessionId = false) (st : Reading Time) :
    ∃ calls, step args st turn = .next calls st := by
  unfold Turn.ours at hforeign
  cases hanswer : turn.answer with
  | silence => simp [hanswer] at hforeign
  | garbled => simp [hanswer] at hforeign
  | reply r =>
      have hsession : r.sessionId ≠ args.sessionId := by simpa [hanswer] using hforeign
      exact ⟨[.recv (max 0 (st.deadline - turn.before))],
        by simp [step, replies, hanswer, hsession]⟩

/-- A run that returns has read the file up to where the end was signalled. -/
theorem drive_returned {file : DeviceFile} {args : ReadArgs Time} {script : List (Turn Time)}
    {st : Reading Time} {data : List Byte} (hhonest : Honest file args.name script)
    (hreads : Reads file args.offset st.expect st.out)
    (hends : (drive (step args) st script).2 = .inr (.returned data)) :
    Reads file args.offset (signalledEnd st.expect (sessionReplies args.sessionId script))
      data := by
  have hrule := @drive_ends (Reading Time) (Turn Time) (Call Time) (Ending Time) (step args)
    (fun st script ending => Honest file args.name script →
      Reads file args.offset st.expect st.out → ∀ data, ending = .returned data →
      Reads file args.offset (signalledEnd st.expect (sessionReplies args.sessionId script)) data)
  refine hrule ?_ ?_ hends hhonest hreads data rfl
  · -- The turn that ends the read: only a signalled end returns data.
    rintro st turn script calls ending hstep hhonest hreads data rfl
    cases hreply : turn.answer.inSession args.sessionId with
    | none =>
        exfalso
        rcases step_no_reply hreply st with ⟨calls', hnext⟩ | ⟨calls', ending, hstop, hnot⟩
        · rw [hstep] at hnext
          cases hnext
        · rw [hstep] at hstop
          cases hstop
          exact hnot data rfl
    | some r =>
        rw [step_reply hreply] at hstep
        generalize hon : onReply args { st with deadline := turn.behind + args.timeout } r = on
          at hstep
        cases on with
        | next => cases hstep
        | stop calls' ending =>
            cases hstep
            obtain ⟨hsignal, hadds⟩ := onReply_returned hon
            rw [sessionReplies_some hreply, signalledEnd_of_signal hsignal]
            exact hreads.adds (honest_reply hhonest hreply) hadds
  · -- A turn that goes on: a reply adds the bytes it carries, silence adds none.
    rintro st turn script calls after ending hstep ih hhonest hreads data rfl
    cases hreply : turn.answer.inSession args.sessionId with
    | none =>
        rcases step_no_reply hreply st with ⟨calls', hnext⟩ | ⟨calls', ending, hstop, -⟩
        · rw [hstep] at hnext
          cases hnext
          rw [sessionReplies_none hreply]
          exact ih (honest_tail hhonest) hreads data rfl
        · rw [hstep] at hstop
          cases hstop
    | some r =>
        rw [step_reply hreply] at hstep
        generalize hon : onReply args { st with deadline := turn.behind + args.timeout } r = on
          at hstep
        cases on with
        | stop => cases hstep
        | next calls' state =>
            cases hstep
            obtain ⟨hsignal, hexpect, hadds⟩ := onReply_next hon
            have hafter := hreads.adds (honest_reply hhonest hreply) hadds
            rw [sessionReplies_some hreply, signalledEnd_of_not_signal hsignal]
            rw [← hexpect] at hafter
            have hret := ih (honest_tail hhonest) hafter data rfl
            rw [hexpect] at hret
            exact hret

end Clock

end Py

/-! ## The TypeScript driver -/

namespace Ts

theorem setAt_zeros (done p : List Byte) (room : ℕ) :
    setAt (done ++ List.replicate room 0) done.length p =
      (done ++ p) ++ List.replicate (room - p.length) 0 := by
  rw [setAt, List.take_left, ← List.drop_drop, List.drop_left, List.drop_replicate]

/-- The parts that were copied stand in front of the zeros that are left. -/
theorem foldl_setAt (parts : List (List Byte)) (done : List Byte) (room : ℕ) :
    parts.foldl (fun (copied : List Byte × ℕ) p =>
        (setAt copied.1 copied.2 p, copied.2 + p.length))
      (done ++ List.replicate room 0, done.length) =
      (done ++ parts.flatten ++ List.replicate (room - parts.flatten.length) 0,
        (done ++ parts.flatten).length) := by
  induction parts generalizing done room with
  | nil => simp
  | cons p parts ih =>
      have hnext := ih (done ++ p) (room - p.length)
      rw [List.length_append] at hnext
      rw [List.foldl_cons, setAt_zeros, hnext, List.flatten_cons, Nat.sub_sub,
        ← List.length_append, List.append_assoc done p]

/-- The parts are joined in order. -/
theorem joined_eq_flatten (parts : List (List Byte)) :
    joined parts parts.flatten.length = parts.flatten := by
  have hfold := foldl_setAt parts [] parts.flatten.length
  rw [List.nil_append, List.nil_append, Nat.sub_self, List.replicate_zero, List.append_nil,
    List.length_nil] at hfold
  rw [joined, hfold]

/-- The two drivers have read the same. -/
structure Agrees (first : Py.Reading Time) (second : Reading Time) : Prop where
  deadline : first.deadline = second.deadline
  expect : first.expect = second.expect
  bytes : first.out = second.parts.flatten
  total : second.total = second.parts.flatten.length

theorem Agrees.joined {first : Py.Reading Time} {second : Reading Time}
    (hagrees : Agrees first second) : Ts.joined second.parts second.total = first.out := by
  rw [hagrees.total, joined_eq_flatten, hagrees.bytes]

/-- A chunk that both take. -/
theorem Agrees.push {first : Py.Reading Time} {second : Reading Time}
    (hagrees : Agrees first second) (data : List Byte) :
    Agrees { first with out := first.out ++ data, expect := first.expect + data.length }
      { second with
        parts := second.parts ++ [data], total := second.total + data.length
        expect := second.expect + data.length } where
  deadline := hagrees.deadline
  expect := congrArg (· + data.length) hagrees.expect
  bytes := by simp only [hagrees.bytes, List.flatten_append, List.flatten_singleton]
  total := by
    simp only [hagrees.total, List.flatten_append, List.flatten_singleton, List.length_append]

theorem onReply_related {first : Py.Reading Time} {second : Reading Time} (args : ReadArgs Time)
    (hagrees : Agrees first second) (r : DiagReply) :
    Step.Related Agrees (Py.onReply args first r) (onReply args second r) := by
  unfold Py.onReply onReply
  cases r.body with
  | chunk c =>
      have hpush := hagrees.push c.data
      have hjoined := hpush.joined
      have hlength : second.total + c.data.length = (first.out ++ c.data).length := by
        rw [List.length_append, hagrees.total, hagrees.bytes]
      rw [hlength] at hpush hjoined
      rw [← hagrees.expect] at hpush
      simp only [← hagrees.expect, hlength]
      split
      case isTrue => exact .stop
      case isFalse =>
        split
        case isTrue =>
          rw [hjoined]
          exact .stop
        case isFalse => exact .next hpush
  | status s =>
      simp only [hagrees.joined]
      split
      case isTrue => exact .stop
      case isFalse =>
        split
        case isTrue => exact .stop
        case isFalse => exact .next hagrees
  | listing => exact .next hagrees
  | unset => exact .next hagrees

section Clock

variable [LinearOrder Time] [Add Time] [Sub Time] [Zero Time]

omit [Sub Time] [Zero Time] in
theorem replies_eq (args : ReadArgs Time) (deadline : Time) {turn : Turn Time}
    (hgarbled : turn.answer ≠ .garbled) :
    replies args deadline turn = Py.replies args deadline turn := by
  unfold replies Py.replies
  cases hanswer : turn.answer with
  | silence => rfl
  | garbled => exact absurd hanswer hgarbled
  | reply r => rfl

theorem step_related {first : Py.Reading Time} {second : Reading Time} (args : ReadArgs Time)
    (hagrees : Agrees first second) {turn : Turn Time} (hgarbled : turn.answer ≠ .garbled) :
    Step.Related Agrees (Py.step args first turn) (step args second turn) := by
  unfold Py.step step
  rw [replies_eq args _ hgarbled, hagrees.deadline]
  cases Py.replies args second.deadline turn with
  | quiet => exact .next hagrees
  | error ending => exact .stop
  | reply r deadline =>
      have hnow : Agrees { first with deadline := deadline } { second with deadline := deadline } :=
        ⟨rfl, hagrees.expect, hagrees.bytes, hagrees.total⟩
      exact (onReply_related args hnow r).after _

/-- The drivers make the same calls on the same script, and come to the same. -/
theorem readFile_eq (args : ReadArgs Time) (started : Time) {script : List (Turn Time)}
    (hgarbled : ∀ turn ∈ script, turn.answer ≠ .garbled) :
    readFile args true started script = Py.readFile args true started script := by
  have hstart : Agrees ⟨started + args.timeout, [], args.offset⟩
      (⟨started + args.timeout, [], 0, args.offset⟩ : Reading Time) := ⟨rfl, rfl, rfl, rfl⟩
  have hstep : ∀ turn ∈ script, ∀ first second, Agrees first second →
      Step.Related Agrees (Py.step args first turn) (step args second turn) :=
    fun turn hmem _ _ hrel => step_related args hrel (hgarbled turn hmem)
  obtain ⟨hcalls, hout⟩ := drive_related hstep hstart
  rw [readFile, Py.readFile, if_pos rfl, if_pos rfl]
  simp only [hcalls]
  generalize (drive (Py.step args) _ script).2 = fromPy at hout ⊢
  generalize (drive (step args) _ script).2 = fromTs at hout ⊢
  cases hout with
  | inl hrel => rw [outcome, Py.outcome, hrel.deadline]
  | inr heq => rw [outcome, Py.outcome, heq]

end Clock

end Ts

end Drivers

/-! ## The read -/

section Read

variable {Time : Type*} [LinearOrder Time] [Add Time] [Sub Time] [Zero Time]

/-- Replies of other sessions change neither what a driver comes to nor its deadline. -/
theorem Py.readFile_filter (args : ReadArgs Time) (sent : Bool) (started : Time)
    (script : List (Turn Time)) :
    (Py.readFile args sent started (script.filter (Turn.ours args.sessionId))).2 =
      (Py.readFile args sent started script).2 := by
  unfold Py.readFile
  cases sent with
  | false => rfl
  | true =>
      rw [if_pos rfl, if_pos rfl]
      exact congrArg Py.outcome
        (drive_filter _ (fun st turn hforeign => Py.step_foreign hforeign st) script _)

theorem Py.readFile_returned {file : DeviceFile} {args : ReadArgs Time} {started : Time}
    {script : List (Turn Time)} {data : List Byte} (hhonest : Honest file args.name script)
    (hret : (Py.readFile args true started script).2 = .ended (.returned data)) :
    Py.Reads file args.offset
      (signalledEnd args.offset (sessionReplies args.sessionId script)) data := by
  rw [Py.readFile, if_pos rfl] at hret
  have hstart : Py.Reads file args.offset args.offset [] := ⟨List.nil_prefix, rfl⟩
  simp only at hret
  cases hrun : (drive (Py.step args) ⟨started + args.timeout, [], args.offset⟩ script).2 with
  | inl st =>
      rw [hrun, Py.outcome] at hret
      cases hret
  | inr ending =>
      rw [hrun, Py.outcome] at hret
      injection hret with hending
      rw [hending] at hrun
      exact Py.drive_returned hhonest hstart hrun

/-- On every script the two drivers make the same calls and come to the same, whatever other
sessions send, and what they return is the range exactly when the end is signalled at its end. -/
theorem readFile_range_iff {file : DeviceFile} {args : ReadArgs Time} {script : List (Turn Time)}
    (hhonest : Honest file args.name script) (hgarbled : ∀ turn ∈ script, turn.answer ≠ .garbled)
    (started : Time) :
    Ts.readFile args true started script = Py.readFile args true started script ∧
      (Py.readFile args true started (script.filter (Turn.ours args.sessionId))).2 =
        (Py.readFile args true started script).2 ∧
      ∀ data, (Py.readFile args true started script).2 = .ended (.returned data) →
        (data = file.range args.offset args.length ↔
          signalledEnd args.offset (sessionReplies args.sessionId script) =
            max args.offset (file.rangeEnd args.offset args.length)) := by
  refine ⟨Ts.readFile_eq args started hgarbled, Py.readFile_filter args true started script, ?_⟩
  intro data hret
  have hreads := Py.readFile_returned hhonest hret
  rw [hreads.expect]
  exact file.eq_range_iff hreads.bytes

end Read

/-! ## A tail that is lost -/

/-- A file of four bytes. -/
def fourBytes : DeviceFile := ⟨[97, 98, 99, 100], 4, Nat.le_refl 4⟩

/-- A read of the whole file. -/
def wholeRead : ReadArgs ℤ := ⟨['f'], 0, 0, 7, [], 10⟩

/-- Both halves arrive, behind the `DONE` of an earlier session. -/
def bothHalves : List (Turn ℤ) :=
  [⟨0, .reply ⟨6, .status ⟨.done, [], []⟩⟩, 1⟩,
    ⟨1, .reply ⟨7, .chunk ⟨['f'], 0, [97, 98], false⟩⟩, 2⟩,
    ⟨2, .reply ⟨7, .chunk ⟨['f'], 2, [99, 100], true⟩⟩, 3⟩]

/-- The second half is lost, and the trailing `DONE` arrives. -/
def lostTail : List (Turn ℤ) :=
  [⟨0, .reply ⟨7, .chunk ⟨['f'], 0, [97, 98], false⟩⟩, 1⟩,
    ⟨1, .reply ⟨7, .status ⟨.done, [], []⟩⟩, 2⟩]

theorem honest_bothHalves : Honest fourBytes ['f'] bothHalves := by
  intro turn hmem r c hreply hbody _
  simp only [bothHalves, List.mem_cons, List.not_mem_nil, or_false] at hmem
  rcases hmem with rfl | rfl | rfl
  · cases hreply
    cases hbody
  · cases hreply
    cases hbody
    exact ⟨[99, 100], rfl⟩
  · cases hreply
    cases hbody
    exact ⟨[], rfl⟩

theorem honest_lostTail : Honest fourBytes ['f'] lostTail := by
  intro turn hmem r c hreply hbody _
  simp only [lostTail, List.mem_cons, List.not_mem_nil, or_false] at hmem
  rcases hmem with rfl | rfl
  · cases hreply
    cases hbody
    exact ⟨[99, 100], rfl⟩
  · cases hreply
    cases hbody

theorem not_garbled_bothHalves : ∀ turn ∈ bothHalves, turn.answer ≠ .garbled := by
  intro turn hmem
  simp only [bothHalves, List.mem_cons, List.not_mem_nil, or_false] at hmem
  rcases hmem with rfl | rfl | rfl <;> decide

theorem readFile_range_iff_bothHalves :
    (Py.readFile wholeRead true 0 bothHalves).2 = .ended (.returned [97, 98, 99, 100]) ∧
      (Ts.readFile wholeRead true 0 bothHalves = Py.readFile wholeRead true 0 bothHalves ∧
        (Py.readFile wholeRead true 0 (bothHalves.filter (Turn.ours 7))).2 =
          (Py.readFile wholeRead true 0 bothHalves).2 ∧
        ∀ data, (Py.readFile wholeRead true 0 bothHalves).2 = .ended (.returned data) →
          (data = fourBytes.range 0 0 ↔
            signalledEnd 0 (sessionReplies 7 bothHalves) = max 0 (fourBytes.rangeEnd 0 0))) :=
  ⟨rfl, @readFile_range_iff ℤ _ _ _ _ _ wholeRead _ honest_bothHalves not_garbled_bothHalves 0⟩

/-- Both drivers return half of the file. -/
theorem readFile_lostTail :
    Honest fourBytes ['f'] lostTail ∧
      (Py.readFile wholeRead true 0 lostTail).2 = .ended (.returned [97, 98]) ∧
      (Ts.readFile wholeRead true 0 lostTail).2 = .ended (.returned [97, 98]) ∧
      fourBytes.range 0 0 = [97, 98, 99, 100] :=
  ⟨honest_lostTail, rfl, rfl, rfl⟩

end VisioSchema.Diag

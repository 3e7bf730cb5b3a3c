import Mathlib.Algebra.Order.Ring.Nat
import VisioSchema.Library.Runs
import VisioSchema.Mcap.Continuity

/-!
# The spans of a part

`CloexecFileWriter` tells its `SpanReadback` of each span that was written back and evicted, and
of the tail when the part ends.  Eviction runs one span behind writeback: what is evicted is the
span before the one just handed over, which starts where the last evicted one ended.

A `ReadPart` is the part's file with what was reported of it.  The read-back only listens: below,
each function has the same effect on the writer as the one it extends (`handleWrite_w`).  The
invariant `Covered` says that the evicted spans tile the file up to the span that was handed over
last.  An append moves the end of the file and a handed span the end of what is tiled
(`Covered.append`, `Covered.writeSpan`), so that in the end the tail is what is left
(`Covered.reported`).
-/

namespace VisioSchema.Mcap

open VisioSchema.Library

/-! ## What is reported -/

/-- The part's file and what its read-back was told: `evictedEnd` is `evicted_end_`, `spans` the
`OnSpanEvicted`s so far and `tail` what `NotePartEnd` keeps, as offsets and lengths in the file. -/
structure ReadPart where
  w : McapWriter
  evictedEnd : ℕ := 0
  spans : List (ℕ × ℕ) := []
  tail : Option (ℕ × ℕ) := none

namespace ReadPart

section Writing

variable (cfg : WriterConfig) (env : Env) (r : ReadPart)

/-- Whether `EvictPreviousSpan` is called, and succeeds. -/
def evicts (file : PartFile) : Bool :=
  (r.w.answer env (.writeback false)).error == 0 && decide (0 < file.prevLen) &&
    ((r.w.storage env (.writeback false)).answer env (.writeback true)).error == 0

/-- The span goes to writeback, and the one before it is evicted. -/
def writeSpan (file : PartFile) (stop : ℕ) : ReadPart :=
  if r.evicts env file then
    { r with
      w := r.w.writeSpan env file stop
      evictedEnd := file.prevOff + file.prevLen
      spans := r.spans ++ [(file.prevOff, file.prevLen)] }
  else { r with w := r.w.writeSpan env file stop }

/-- `SyncSpan`. -/
def syncSpan (file : PartFile) : ReadPart :=
  if (r.w.answer env .flush).error ≠ 0 ∨ file.syncDisabled = true ∨
      McapWriter.roundDownToPage file.fileSize ≤ file.syncedOff then
    { r with w := r.w.syncSpan env file }
  else
    { r with w := r.w.report env .flush }.writeSpan env file
      (McapWriter.roundDownToPage file.fileSize)

def syncSpanIfDue : ReadPart :=
  match r.w.file with
  | some file =>
      if 0 < McapWriter.syncSpanBytes cfg ∧
          McapWriter.syncSpanBytes cfg ≤ file.fileSize - file.syncedOff then
        r.syncSpan env file
      else r
  | none => r

/-- The append of `WriteBytes`, and what landed. -/
def append (slice size : ℕ) : ReadPart :=
  let result := r.w.answer env (.append slice size)
  let w := r.w.storage env (.append slice size)
  let w := if result.error ≠ 0 ∨ result.accepted ≠ size then w.note result else w
  { r with w := w.setFile fun file => { file with size := file.size + result.accepted } }

/-- `WriteBytes`. -/
def writeBytes (slice size : ℕ) : ReadPart :=
  let r := (r.append env slice size).syncSpanIfDue cfg env
  { r with w := r.w.checkpointIfDue cfg env }

def writeSlices (r : ReadPart) : List (ℕ × ℕ) → ReadPart
  | [] => r
  | (n, slice) :: rest =>
      if env.cipher r.w.tick then
        let landed := (r.w.tock.answer env (.append slice n)).accepted
        let r := { r with w := r.w.tock }.writeBytes cfg env slice n
        if landed ≠ n then r else r.writeSlices rest
      else { r with w := r.w.writeSlices cfg env ((n, slice) :: rest) }

/-- `handleWrite`. -/
def handleWrite (size : ℕ) : ReadPart :=
  if r.w.file.isNone || r.w.outcome.refused then r
  else if cfg.encrypting then r.writeSlices cfg env (McapWriter.slices size)
  else r.writeBytes cfg env 0 size

/-- `NotePartEnd`. -/
def notePartEnd (unverifiedFrom fileSize : ℕ) (syncDisabled : Bool) : Option (ℕ × ℕ) :=
  if fileSize ≤ unverifiedFrom ∨ syncDisabled = true then none
  else some (unverifiedFrom, fileSize - unverifiedFrom)

/-- `end`. -/
def endFile : ReadPart :=
  match r.w.file with
  | some file =>
      { r with
        w := r.w.endFile env
        tail := notePartEnd r.evictedEnd file.fileSize file.syncDisabled }
  | none => r

/-- All that was reported of the part. -/
def reported : List (ℕ × ℕ) := r.spans ++ r.tail.toList

end Writing

end ReadPart

/-! ## The writer underneath -/

namespace ReadPart

variable (cfg : WriterConfig) (env : Env) (r : ReadPart)

theorem writeSpan_w (file : PartFile) (stop : ℕ) :
    (r.writeSpan env file stop).w = r.w.writeSpan env file stop := by
  unfold writeSpan
  split <;> rfl

theorem syncSpan_w (file : PartFile) : (r.syncSpan env file).w = r.w.syncSpan env file := by
  unfold syncSpan
  split
  · rfl
  next hspan =>
    simp only [not_or] at hspan
    obtain ⟨hflush, henabled, hnew⟩ := hspan
    rw [writeSpan_w, McapWriter.syncSpan]
    simp only [if_neg hflush, if_neg henabled, if_neg hnew]

theorem syncSpanIfDue_w : (r.syncSpanIfDue cfg env).w = r.w.syncSpanIfDue cfg env := by
  unfold syncSpanIfDue McapWriter.syncSpanIfDue
  cases r.w.file with
  | none => rfl
  | some file =>
      dsimp only
      split
      · exact syncSpan_w env r file
      · rfl

theorem writeBytes_w (slice size : ℕ) :
    (r.writeBytes cfg env slice size).w = r.w.writeBytes cfg env slice size := by
  simp only [writeBytes, syncSpanIfDue_w]
  rfl

theorem writeSlices_w (slices : List (ℕ × ℕ)) :
    (r.writeSlices cfg env slices).w = r.w.writeSlices cfg env slices := by
  induction slices generalizing r with
  | nil => rfl
  | cons entry rest ih =>
      obtain ⟨n, slice⟩ := entry
      rw [writeSlices]
      split
      next hcipher =>
        dsimp only
        rw [McapWriter.writeSlices, if_pos hcipher]
        dsimp only
        split
        · exact writeBytes_w cfg env _ slice n
        · rw [ih, writeBytes_w]
      · rfl

/-- The read-back only listens. -/
theorem handleWrite_w (size : ℕ) :
    (r.handleWrite cfg env size).w = r.w.handleWrite cfg env size := by
  unfold handleWrite McapWriter.handleWrite
  split
  · rfl
  split
  · exact writeSlices_w cfg env r _
  · exact writeBytes_w cfg env r 0 size

end ReadPart

/-! ## Tiles -/

/-- The spans follow each other from `start` to `stop`, and none of them is empty. -/
def Tiles : ℕ → List (ℕ × ℕ) → ℕ → Prop
  | start, [], stop => start = stop
  | start, (off, len) :: rest, stop => off = start ∧ 0 < len ∧ Tiles (start + len) rest stop

theorem Tiles.append {start middle stop : ℕ} {first second : List (ℕ × ℕ)}
    (hfirst : Tiles start first middle) (hsecond : Tiles middle second stop) :
    Tiles start (first ++ second) stop := by
  induction first generalizing start with
  | nil =>
      rw [show start = middle from hfirst]
      exact hsecond
  | cons span rest ih =>
      obtain ⟨hoff, hlen, hrest⟩ := hfirst
      exact ⟨hoff, hlen, ih hrest⟩

theorem tiles_singleton {start len : ℕ} (hlen : 0 < len) :
    Tiles start [(start, len)] (start + len) := ⟨rfl, hlen, rfl⟩

/-- The span starts and ends on a page boundary. -/
def PageAligned (span : ℕ × ℕ) : Prop := 4096 ∣ span.1 ∧ 4096 ∣ span.1 + span.2

theorem roundDownToPage_dvd (n : ℕ) : 4096 ∣ McapWriter.roundDownToPage n :=
  Nat.dvd_sub_mod n

theorem roundDownToPage_le (n : ℕ) : McapWriter.roundDownToPage n ≤ n := Nat.sub_le _ _

/-! ## The invariant -/

/-- The evicted spans tile the file up to the span that was handed over last. -/
structure Covered (r : ReadPart) (file : PartFile) : Prop where
  opened : r.w.file = some file
  bounding : file.syncDisabled = false
  tiles : Tiles 0 r.spans r.evictedEnd
  aligned : ∀ span ∈ r.spans, PageAligned span
  behind : r.evictedEnd = file.prevOff
  handed : file.prevOff + file.prevLen = file.syncedOff
  prevAligned : 4096 ∣ file.prevOff
  syncedAligned : 4096 ∣ file.syncedOff
  within : file.syncedOff ≤ file.fileSize

section Healthy

variable {cfg : WriterConfig} {env : Env} {r : ReadPart} {file : PartFile}

namespace McapWriter

variable {w : McapWriter}

theorem answer_error (hhealthy : env.Healthy) (call : StorageCall) :
    (w.answer env call).error = 0 := hhealthy.io _ _

theorem report_file (hhealthy : env.Healthy) (call : StorageCall) :
    (w.report env call).file = w.file := by
  rw [report, if_neg (not_not_intro (answer_error hhealthy call))]
  rfl

theorem writeSpan_file (hhealthy : env.Healthy) (hopened : w.file = some file) (stop : ℕ) :
    (w.writeSpan env file stop).file = some { file with
      prevOff := file.syncedOff, prevLen := stop - file.syncedOff, syncedOff := stop } := by
  have hlast : ∀ (w : McapWriter) (wait : Bool), (w.writebackLast env wait).file = w.file := by
    intro w wait
    simp only [writebackLast, answer_error hhealthy, ne_eq, not_true_eq_false, if_false]
    rfl
  unfold writeSpan
  split
  · simp only [setFile, hlast]
    exact congrArg (Option.map _) hopened
  · simp only [setFile, hlast]
    exact congrArg (Option.map _) hopened

theorem checkpointIfDue_file (cfg : WriterConfig) (hhealthy : env.Healthy)
    (hopened : w.file = some file) :
    ∃ checkpointAt, (w.checkpointIfDue cfg env).file =
      some { file with checkpointAt := checkpointAt } := by
  unfold checkpointIfDue
  rw [hopened]
  dsimp only
  split
  · split
    · refine ⟨((w.tock.report env .checkpoint).now env), ?_⟩
      have hreport : (w.tock.report env .checkpoint).tock.file = some file :=
        (report_file hhealthy .checkpoint).trans hopened
      simp only [stampFile, setFile, hreport]
      rfl
    · exact ⟨file.checkpointAt, hopened⟩
  · exact ⟨file.checkpointAt, hopened⟩

end McapWriter

/-- Under a new time of the last checkpoint, nothing changes. -/
theorem Covered.stamped (hcovered : Covered r file) {w : McapWriter} {checkpointAt : ℤ}
    (hopened : w.file = some { file with checkpointAt := checkpointAt }) :
    Covered { r with w := w } { file with checkpointAt := checkpointAt } :=
  ⟨hopened, hcovered.bounding, hcovered.tiles, hcovered.aligned, hcovered.behind, hcovered.handed,
    hcovered.prevAligned, hcovered.syncedAligned, hcovered.within⟩

theorem Covered.append (hhealthy : env.Healthy) (hcovered : Covered r file) (slice size : ℕ) :
    Covered (r.append env slice size) { file with size := file.size + size } := by
  have haccepted : (r.w.answer env (.append slice size)).accepted = size := hhealthy.append _ _ _
  have hwhole : ¬ ((r.w.answer env (.append slice size)).error ≠ 0 ∨
      (r.w.answer env (.append slice size)).accepted ≠ size) := by
    rw [McapWriter.answer_error hhealthy, haccepted]
    simp
  refine ⟨?_, hcovered.bounding, hcovered.tiles, hcovered.aligned, hcovered.behind,
    hcovered.handed, hcovered.prevAligned, hcovered.syncedAligned, ?_⟩
  · simp only [ReadPart.append]
    rw [if_neg hwhole, haccepted]
    exact congrArg (Option.map _) hcovered.opened
  · have hwithin := hcovered.within
    simp only [PartFile.fileSize] at hwithin ⊢
    omega

/-- A span goes to writeback, and the one before it joins the evicted ones. -/
theorem Covered.writeSpan (hhealthy : env.Healthy) (hcovered : Covered r file)
    (hnew : file.syncedOff < McapWriter.roundDownToPage file.fileSize) :
    Covered (r.writeSpan env file (McapWriter.roundDownToPage file.fileSize))
      { file with
        prevOff := file.syncedOff
        prevLen := McapWriter.roundDownToPage file.fileSize - file.syncedOff
        syncedOff := McapWriter.roundDownToPage file.fileSize } := by
  have hopened : (r.writeSpan env file (McapWriter.roundDownToPage file.fileSize)).w.file = _ :=
    (congrArg McapWriter.file (r.writeSpan_w env file _)).trans
      (McapWriter.writeSpan_file hhealthy hcovered.opened _)
  have hevicts : r.evicts env file = decide (0 < file.prevLen) := by
    simp [ReadPart.evicts, McapWriter.answer_error hhealthy]
  have hhanded := hcovered.handed
  have hsum : file.syncedOff + (McapWriter.roundDownToPage file.fileSize - file.syncedOff) =
      McapWriter.roundDownToPage file.fileSize := by omega
  by_cases hprev : 0 < file.prevLen
  · have hwrites : r.writeSpan env file (McapWriter.roundDownToPage file.fileSize) =
        { r with
          w := r.w.writeSpan env file (McapWriter.roundDownToPage file.fileSize)
          evictedEnd := file.prevOff + file.prevLen
          spans := r.spans ++ [(file.prevOff, file.prevLen)] } := by
      rw [ReadPart.writeSpan, hevicts, if_pos (decide_eq_true hprev)]
    rw [hwrites] at hopened ⊢
    refine ⟨hopened, hcovered.bounding, ?_, ?_, hhanded, hsum, hcovered.syncedAligned,
      roundDownToPage_dvd _, roundDownToPage_le _⟩
    · refine hcovered.tiles.append ?_
      rw [hcovered.behind]
      exact tiles_singleton hprev
    · intro span hspan
      rcases List.mem_append.mp hspan with hold | hlast
      · exact hcovered.aligned span hold
      · rw [List.mem_singleton.mp hlast, PageAligned, hhanded]
        exact ⟨hcovered.prevAligned, hcovered.syncedAligned⟩
  · have hwrites : r.writeSpan env file (McapWriter.roundDownToPage file.fileSize) =
        { r with w := r.w.writeSpan env file (McapWriter.roundDownToPage file.fileSize) } := by
      rw [ReadPart.writeSpan, hevicts, if_neg (by simpa using hprev)]
    rw [hwrites] at hopened ⊢
    refine ⟨hopened, hcovered.bounding, hcovered.tiles, hcovered.aligned, ?_, hsum,
      hcovered.syncedAligned, roundDownToPage_dvd _, roundDownToPage_le _⟩
    rw [hcovered.behind]
    show file.prevOff = file.syncedOff
    omega

theorem Covered.syncSpanIfDue (cfg : WriterConfig) (hhealthy : env.Healthy)
    (hcovered : Covered r file) :
    ∃ file', Covered (r.syncSpanIfDue cfg env) file' ∧ file'.size = file.size ∧
      file'.headerBytes = file.headerBytes := by
  unfold ReadPart.syncSpanIfDue
  rw [hcovered.opened]
  dsimp only
  split
  · have hflush := McapWriter.answer_error (w := r.w) hhealthy .flush
    unfold ReadPart.syncSpan
    split
    next hnothing =>
      have hold : McapWriter.roundDownToPage file.fileSize ≤ file.syncedOff := by
        rcases hnothing with herror | hdisabled | hold
        · exact absurd hflush herror
        · rw [hcovered.bounding] at hdisabled
          exact absurd hdisabled (by simp)
        · exact hold
      have hsync : r.w.syncSpan env file = r.w.report env .flush := by
        simp only [McapWriter.syncSpan, hflush, hcovered.bounding, if_pos hold, ne_eq,
          not_true_eq_false, if_false, Bool.false_eq_true]
      rw [hsync]
      exact ⟨file, ⟨(McapWriter.report_file hhealthy .flush).trans hcovered.opened,
        hcovered.bounding, hcovered.tiles, hcovered.aligned, hcovered.behind, hcovered.handed,
        hcovered.prevAligned, hcovered.syncedAligned, hcovered.within⟩, rfl, rfl⟩
    next hspan =>
      simp only [not_or, not_le] at hspan
      have hflushed : Covered { r with w := r.w.report env .flush } file :=
        ⟨(McapWriter.report_file hhealthy .flush).trans hcovered.opened, hcovered.bounding,
          hcovered.tiles, hcovered.aligned, hcovered.behind, hcovered.handed, hcovered.prevAligned,
          hcovered.syncedAligned, hcovered.within⟩
      exact ⟨_, hflushed.writeSpan hhealthy hspan.2.2, rfl, rfl⟩
  · exact ⟨file, hcovered, rfl, rfl⟩

theorem Covered.writeBytes (cfg : WriterConfig) (hhealthy : env.Healthy) (hcovered : Covered r file)
    (slice size : ℕ) :
    ∃ file', Covered (r.writeBytes cfg env slice size) file' ∧
      file'.size = file.size + size ∧ file'.headerBytes = file.headerBytes := by
  obtain ⟨synced, hsynced, hsize, hheader⟩ :=
    (hcovered.append hhealthy slice size).syncSpanIfDue cfg hhealthy
  obtain ⟨checkpointAt, hstamped⟩ :=
    McapWriter.checkpointIfDue_file cfg hhealthy hsynced.opened
  exact ⟨_, hsynced.stamped hstamped, hsize, hheader⟩

theorem Covered.tocked (hcovered : Covered r file) :
    Covered { r with w := r.w.tock } file :=
  ⟨hcovered.opened, hcovered.bounding, hcovered.tiles, hcovered.aligned, hcovered.behind,
    hcovered.handed, hcovered.prevAligned, hcovered.syncedAligned, hcovered.within⟩

theorem Covered.writeSlices (cfg : WriterConfig) (hhealthy : env.Healthy)
    (hcovered : Covered r file) (slices : List (ℕ × ℕ)) :
    ∃ file', Covered (r.writeSlices cfg env slices) file' ∧
      file'.size = file.size + (slices.map Prod.fst).sum ∧
      file'.headerBytes = file.headerBytes := by
  induction slices generalizing r file with
  | nil => exact ⟨file, hcovered, rfl, rfl⟩
  | cons entry rest ih =>
      obtain ⟨n, slice⟩ := entry
      rw [ReadPart.writeSlices, if_pos (hhealthy.cipher _)]
      obtain ⟨written, hwritten, hsize, hheader⟩ :=
        hcovered.tocked.writeBytes cfg hhealthy slice n
      -- every slice lands whole, so that the next one follows
      have hlanded : (r.w.tock.answer env (.append slice n)).accepted = n :=
        hhealthy.append _ _ _
      dsimp only
      rw [if_neg (not_not_intro hlanded)]
      obtain ⟨last, hlast, hgrown, hsame⟩ := ih hwritten
      refine ⟨last, hlast, ?_, hsame.trans hheader⟩
      rw [hgrown, hsize, List.map_cons, List.sum_cons, Nat.add_assoc]

/-- The slices of a write are the whole of it. -/
private theorem sum_slices (size : ℕ) : ((McapWriter.slices size).map Prod.fst).sum = size := by
  have hwhole : 65536 * (size / 65536) + size % 65536 = size := Nat.div_add_mod size 65536
  rw [McapWriter.slices, List.zipIdx_map_fst, List.sum_append, List.sum_replicate_nat]
  split
  next hexact =>
    rw [List.sum_nil]
    omega
  · rw [List.sum_singleton]
    omega

/-- Where storage does what it is asked, a write has nothing to note. -/
private theorem outcome_handleWrite (cfg : WriterConfig) (hhealthy : env.Healthy) (r : ReadPart)
    (size : ℕ) : (r.handleWrite cfg env size).w.outcome = r.w.outcome := by
  obtain ⟨events, hwrote⟩ := McapWriter.writes_handleWrite cfg env r.w size
  rw [ReadPart.handleWrite_w, hwrote.state]
  exact PartOutcome.absorb_of_failures_nil (hwrote.healthy hhealthy)

theorem Covered.handleWrite (cfg : WriterConfig) (hhealthy : env.Healthy)
    (hcovered : Covered r file) (size : ℕ) :
    ∃ file', Covered (r.handleWrite cfg env size) file' ∧
      (r.w.outcome.refused = false → file'.size = file.size + size) ∧
      file'.headerBytes = file.headerBytes := by
  unfold ReadPart.handleWrite
  split
  next hrefuses =>
    refine ⟨file, hcovered, fun hgoes => ?_, rfl⟩
    rw [hcovered.opened, hgoes] at hrefuses
    exact absurd hrefuses (by simp)
  split
  · obtain ⟨last, hlast, hsize, hheader⟩ :=
      hcovered.writeSlices cfg hhealthy (McapWriter.slices size)
    rw [sum_slices] at hsize
    exact ⟨last, hlast, fun _ => hsize, hheader⟩
  · obtain ⟨last, hlast, hsize, hheader⟩ := hcovered.writeBytes cfg hhealthy 0 size
    exact ⟨last, hlast, fun _ => hsize, hheader⟩

theorem Covered.run (cfg : WriterConfig) (hhealthy : env.Healthy) (hcovered : Covered r file)
    (sizes : List ℕ) :
    ∃ file', Covered (sizes.foldl (fun r size => r.handleWrite cfg env size) r) file' ∧
      (r.w.outcome.refused = false → file'.size = file.size + sizes.sum) ∧
      file'.headerBytes = file.headerBytes := by
  induction sizes generalizing r file with
  | nil => exact ⟨file, hcovered, fun _ => rfl, rfl⟩
  | cons size rest ih =>
      obtain ⟨written, hwritten, hsize, hheader⟩ := hcovered.handleWrite cfg hhealthy size
      obtain ⟨last, hlast, hgrown, hsame⟩ := ih hwritten
      refine ⟨last, hlast, fun hgoes => ?_, hsame.trans hheader⟩
      rw [outcome_handleWrite cfg hhealthy] at hgrown
      rw [hgrown hgoes, hsize hgoes, List.sum_cons, Nat.add_assoc]

/-- The tail is what lies behind the last evicted span. -/
theorem Covered.reported (hcovered : Covered r file) :
    Tiles 0 (r.endFile env).reported file.fileSize := by
  have hends : r.endFile env = { r with
      w := r.w.endFile env
      tail := ReadPart.notePartEnd r.evictedEnd file.fileSize file.syncDisabled } := by
    rw [ReadPart.endFile, hcovered.opened]
  rw [hends]
  have hle : r.evictedEnd ≤ file.fileSize := by
    have hhanded := hcovered.handed
    have hwithin := hcovered.within
    have hbehind := hcovered.behind
    omega
  refine hcovered.tiles.append ?_
  show Tiles r.evictedEnd (ReadPart.notePartEnd r.evictedEnd file.fileSize
    file.syncDisabled).toList file.fileSize
  rw [hcovered.bounding, ReadPart.notePartEnd]
  by_cases hempty : file.fileSize ≤ r.evictedEnd
  · rw [if_pos (Or.inl hempty)]
    exact Nat.le_antisymm hle hempty
  · rw [if_neg (by simpa using hempty)]
    have hend : r.evictedEnd + (file.fileSize - r.evictedEnd) = file.fileSize := by omega
    exact ⟨rfl, by omega, hend⟩

end Healthy

/-! ## Parts -/

/-- A file that was just opened: all of it, the header of an encrypted part included, is still to
be handed to writeback. -/
theorem openFile_covered (cfg : WriterConfig) {env : Env} (hhealthy : env.Healthy)
    (w : McapWriter) :
    ∃ file, Covered { w := (w.openFile cfg env).2 } file ∧
      file.headerBytes = (if cfg.encrypting then 32 else 0) ∧ file.size = 0 ∧
      (w.openFile cfg env).2.outcome = w.outcome := by
  have hcovered : ∀ {opened : McapWriter} {headerBytes : ℕ} {checkpointAt : ℤ},
      opened.file = some { headerBytes := headerBytes, checkpointAt := checkpointAt } →
      Covered { w := opened } { headerBytes := headerBytes, checkpointAt := checkpointAt } :=
    fun hopened => ⟨hopened, rfl, rfl, by simp, rfl, rfl, Nat.dvd_zero _, Nat.dvd_zero _,
      Nat.zero_le _⟩
  have hmade : ((w.create env).stampFile env).file =
      some { checkpointAt := (w.create env).now env } := by
    simp only [McapWriter.stampFile, McapWriter.setFile, McapWriter.tock, McapWriter.create,
      hhealthy.made, if_true, Option.map_some]
  unfold McapWriter.openFile
  rw [if_pos (hhealthy.made _)]
  dsimp only
  cases hencrypting : cfg.encrypting with
  | false =>
      rw [if_neg (by simp)]
      exact ⟨_, hcovered hmade, rfl, rfl, rfl⟩
  | true =>
      rw [if_pos rfl]
      have hwhole : ¬ ((((w.create env).stampFile env).tock.answer env .header).error ≠ 0 ∨
          (((w.create env).stampFile env).tock.answer env .header).accepted ≠ 32) := by
        simp [McapWriter.answer, hhealthy.io, hhealthy.header]
      have hbegin : ((w.create env).stampFile env).beginVrec env = ({},
          ((((w.create env).stampFile env).tock.storage env .header).setFile
            fun file => { file with headerBytes := 32 }).tock) := by
        simp only [McapWriter.beginVrec, hhealthy.random, if_true, if_neg hwhole, hhealthy.cipher]
      have hfile : ((((w.create env).stampFile env).tock.storage env .header).setFile
            fun file => { file with headerBytes := 32 }).tock.file =
          some { headerBytes := 32, checkpointAt := (w.create env).now env } :=
        congrArg (Option.map _) hmade
      rw [hbegin]
      exact ⟨_, hcovered hfile, rfl, rfl, rfl⟩

/-- The spans that were evicted and the tail tile the file of a part, its VREC header included,
and every evicted span starts and ends on a page boundary; unless storage had refused before, the
file holds the header and all that was written. -/
theorem part_covered (cfg : WriterConfig) {env : Env} (hhealthy : env.Healthy) (w : McapWriter)
    (sizes : List ℕ) :
    ∃ file, (sizes.foldl (fun r size => r.handleWrite cfg env size)
        ({ w := (w.openFile cfg env).2 } : ReadPart)).w.file = some file ∧
      file.headerBytes = (if cfg.encrypting then 32 else 0) ∧
      (w.outcome.refused = false → file.fileSize = file.headerBytes + sizes.sum) ∧
      Tiles 0 ((sizes.foldl (fun r size => r.handleWrite cfg env size)
        ({ w := (w.openFile cfg env).2 } : ReadPart)).endFile env).reported file.fileSize ∧
      ∀ span ∈ (sizes.foldl (fun r size => r.handleWrite cfg env size)
        ({ w := (w.openFile cfg env).2 } : ReadPart)).spans, PageAligned span := by
  obtain ⟨opened, hopened, hheader, hempty, houtcome⟩ := openFile_covered cfg hhealthy w
  obtain ⟨file, hcovered, hsize, hsame⟩ := hopened.run cfg hhealthy sizes
  refine ⟨file, hcovered.opened, hsame.trans hheader, fun hgoes => ?_, hcovered.reported,
    hcovered.aligned⟩
  rw [← houtcome] at hgoes
  rw [PartFile.fileSize, hsize hgoes, hempty, Nat.zero_add, Nat.add_comm]

/-- An encrypted take whose spans are two pages. -/
def spannedTake : WriterConfig where
  syncSpanBytes := 8192
  encrypting := true
  duration_of_pos := McapWriter.noDuration

/-- The part after three writes. -/
def spannedPart : ReadPart :=
  [5000, 70000, 9000].foldl (fun r size => r.handleWrite spannedTake McapWriter.ticking size)
    { w := (({} : McapWriter).openFile spannedTake McapWriter.ticking).2 }

theorem part_covered_spanned :
    ∃ file, spannedPart.w.file = some file ∧ file.headerBytes = (if true then 32 else 0) ∧
      (false = false → file.fileSize = file.headerBytes + 84000) ∧
      Tiles 0 (spannedPart.endFile McapWriter.ticking).reported file.fileSize ∧
      ∀ span ∈ spannedPart.spans, PageAligned span :=
  part_covered spannedTake McapWriter.ticking_healthy {} [5000, 70000, 9000]

/-- One span is evicted, the one behind it is not yet, and the tail covers both. -/
example : (spannedPart.endFile McapWriter.ticking).reported =
    [(0, 69632), (69632, 14400)] := by decide +kernel

end VisioSchema.Mcap

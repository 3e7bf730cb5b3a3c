import VisioSchema.Library.Delimited
import VisioSchema.Wire.Frame

/-!
# Stream reassembly

`ExtractFrames`: the cursor loop over a receive buffer.  The loop reads off the
delimited runs of the buffer (`extractFrames_eq`), so it does not matter how the
stream was cut into reads, and a frame between two delimiters is found whatever
surrounds it.
-/

namespace VisioSchema.Transport

open Wire Library

/-! ## The loop -/

section Loop

-- What is made of a nonempty run between two delimiters; `none` is a drop.
variable {M : Type} (decode : List Byte → Option M)

/-- The loop of `ExtractFrames` from the cursor `pos` on; `extract_frames` runs the
same loop with a decoder of its own. -/
def extractLoop (rxBuf : List Byte) (pos : ℕ) : List M × ℕ :=
  if _hpos : pos < rxBuf.length then
    let len := (rxBuf.drop pos).idxOf 0
    let delim := pos + len
    -- A partial trailing frame is kept for the next read.
    if delim = rxBuf.length then ([], pos)
    else
      let rest := extractLoop rxBuf (delim + 1)
      if len = 0 then rest
      else
        match decode ((rxBuf.drop pos).take len) with
        | none => rest
        | some msg => (msg :: rest.1, rest.2)
  else ([], pos)
  termination_by rxBuf.length - pos

/-- `ExtractFrames`: the messages, and the buffer it leaves. -/
def extractFrames (rxBuf : List Byte) : List M × List Byte :=
  ((extractLoop decode rxBuf 0).1, rxBuf.drop (extractLoop decode rxBuf 0).2)

/-- A reader appends each chunk to what is left over and extracts. -/
def feed (buf : List Byte) : List (List Byte) → List M × List Byte
  | [] => ([], buf)
  | chunk :: rest =>
      let now := extractFrames decode (buf ++ chunk)
      let later := feed now.2 rest
      (now.1 ++ later.1, later.2)

/-- What the runs of a stream are decoded to. -/
def decodeRuns (runs : List (List Byte)) : List M :=
  runs.filterMap fun run => if run = [] then none else decode run

theorem decodeRuns_append (first second : List (List Byte)) :
    decodeRuns decode (first ++ second) = decodeRuns decode first ++ decodeRuns decode second :=
  List.filterMap_append

theorem decodeRuns_cons {run : List Byte} {msg : M} (hne : run ≠ [])
    (hrun : decode run = some msg) (runs : List (List Byte)) :
    decodeRuns decode (run :: runs) = msg :: decodeRuns decode runs := by
  rw [decodeRuns, List.filterMap_cons, if_neg hne, hrun]
  rfl

/-- One turn of the loop at a delimiter. -/
theorem extractLoop_delimiter {rxBuf : List Byte} {pos : ℕ} (hmem : 0 ∈ rxBuf.drop pos) :
    let delim := pos + (rxBuf.drop pos).idxOf 0
    extractLoop decode rxBuf pos =
      (decodeRuns decode [(rxBuf.drop pos).take ((rxBuf.drop pos).idxOf 0)] ++
        (extractLoop decode rxBuf (delim + 1)).1, (extractLoop decode rxBuf (delim + 1)).2) := by
  intro delim
  have hlt : (rxBuf.drop pos).idxOf 0 < (rxBuf.drop pos).length := List.idxOf_lt_length_iff.mpr hmem
  rw [List.length_drop] at hlt
  rw [extractLoop, dif_pos (by omega)]
  dsimp only
  rw [if_neg (by omega)]
  by_cases hlen : (rxBuf.drop pos).idxOf 0 = 0
  · simp only [delim, hlen, if_true, List.take_zero]
    rfl
  · have hrun : (rxBuf.drop pos).take ((rxBuf.drop pos).idxOf 0) ≠ [] := by
      rw [ne_eq, List.take_eq_nil_iff, not_or]
      exact ⟨hlen, List.ne_nil_of_mem hmem⟩
    rw [if_neg hlen, decodeRuns, List.filterMap_cons, if_neg hrun]
    cases decode ((rxBuf.drop pos).take ((rxBuf.drop pos).idxOf 0)) <;> rfl

/-- The cursor reads off the runs and stops behind the last delimiter. -/
theorem extractLoop_eq (rxBuf : List Byte) (pos : ℕ) :
    (extractLoop decode rxBuf pos).1 = decodeRuns decode (Delimited.split 0 (rxBuf.drop pos)).1 ∧
      rxBuf.drop (extractLoop decode rxBuf pos).2 = (Delimited.split 0 (rxBuf.drop pos)).2 := by
  induction hleft : rxBuf.length - pos using Nat.strongRecOn generalizing pos with
  | _ left ih =>
      by_cases hmem : 0 ∈ rxBuf.drop pos
      · obtain ⟨hfree, hcut⟩ := Delimited.take_idxOf hmem
        have hlt := List.idxOf_lt_length_iff.mpr hmem
        rw [List.length_drop] at hlt
        rw [List.drop_drop, ← Nat.add_assoc] at hcut
        obtain ⟨hmsgs, hrest⟩ := ih _ (by omega) (pos + (rxBuf.drop pos).idxOf 0 + 1) rfl
        have hsplit := (congrArg (Delimited.split 0) hcut).trans (Delimited.split_run hfree _)
        rw [extractLoop_delimiter decode hmem, hmsgs, hrest, hsplit, ← decodeRuns_append]
        exact ⟨rfl, rfl⟩
      · -- No delimiter is left: the loop ends and keeps the bytes.
        have hstop : extractLoop decode rxBuf pos = ([], pos) := by
          rw [extractLoop]
          split
          · rw [List.idxOf_eq_length hmem, List.length_drop]
            dsimp only
            rw [if_pos (by omega)]
          · rfl
        rw [hstop, Delimited.split_of_not_mem hmem]
        exact ⟨rfl, rfl⟩

theorem extractFrames_eq (rxBuf : List Byte) :
    extractFrames decode rxBuf =
      (decodeRuns decode (Delimited.split 0 rxBuf).1, (Delimited.split 0 rxBuf).2) := by
  obtain ⟨hmsgs, hrest⟩ := extractLoop_eq decode rxBuf 0
  rw [extractFrames, hmsgs, hrest, List.drop_zero]

/-! ## Cutting the stream -/

theorem extractFrames_append (first second : List Byte) :
    extractFrames decode (first ++ second) =
      ((extractFrames decode first).1 ++
          (extractFrames decode ((extractFrames decode first).2 ++ second)).1,
        (extractFrames decode ((extractFrames decode first).2 ++ second)).2) := by
  simp only [extractFrames_eq]
  rw [Delimited.split_append, decodeRuns_append]

/-- However the stream is cut into chunks, the reader sees what one read would. -/
theorem feed_eq (chunks : List (List Byte)) (buf : List Byte) (hbuf : 0 ∉ buf) :
    feed decode buf chunks = extractFrames decode (buf ++ chunks.flatten) := by
  induction chunks generalizing buf with
  | nil =>
      rw [feed, List.flatten_nil, List.append_nil, extractFrames_eq,
        Delimited.split_of_not_mem hbuf]
      rfl
  | cons chunk rest ih =>
      have hleft : 0 ∉ (extractFrames decode (buf ++ chunk)).2 := by
        rw [extractFrames_eq]
        exact Delimited.not_mem_waiting List.not_mem_nil _
      rw [feed, ih _ hleft, List.flatten_cons, ← List.append_assoc,
        extractFrames_append decode (buf ++ chunk)]

end Loop

/-! ## Frames among garbage -/

section Garbage

variable (pbEncode : Header → List Byte) (pbDecode : List Byte → Option Header)

/-- One run in `ExtractFrames`: `CobsDecode`, then `DecodeFrame` into a fresh message. -/
def decodeRun (run : List Byte) : Option Message :=
  match cobsDecode run with
  | none => none
  | some frame =>
      match decodeFrame pbDecode frame {} with
      | (.ok, msg) => some msg
      | _ => none

/-- The stream `g0 00 EncodeFramed(m1) g1 00 EncodeFramed(m2) …`; each message comes
with the garbage behind it. -/
def noisy (garbage : List Byte) : List (Message × List Byte) → List Byte
  | [] => garbage
  | (msg, next) :: rest => garbage ++ 0 :: (encodeFramed pbEncode msg ++ noisy next rest)

/-- A message as a reader gets it: the fields that are not serialized have their
defaults. -/
def onWire (msg : Message) : Message where
  streamId := msg.streamId
  seq := msg.seq
  timestamp := msg.timestamp
  clockAuthorityEpoch := msg.clockAuthorityEpoch
  clockRevision := msg.clockRevision
  syncPoint := msg.syncPoint
  payload := msg.payload
  keyframe := msg.keyframe

/-- What is relied on for a message: nanopb reads back the header bytes that it
wrote, they fit the `u8` HEADER_LEN, and the sync point is valid or all zero. -/
structure Transmissible (msg : Message) : Prop where
  decodes : pbDecode (pbEncode (toHeader msg)) = some (toHeader msg)
  fits : (pbEncode (toHeader msg)).length ≤ 255
  syncPoint : msg.syncPoint.valid = true ∨ msg.syncPoint = {}

variable {pbEncode pbDecode}

theorem received_eq_onWire {msg : Message}
    (hpoint : msg.syncPoint.valid = true ∨ msg.syncPoint = {}) : received msg = onWire msg := by
  rcases hpoint with hvalid | hzero
  · simp [received, fromHeader, toHeader, onWire, hvalid]
  · have hinvalid : (({} : SyncPoint)).valid = false := rfl
    simp [received, fromHeader, toHeader, onWire, hzero, hinvalid]

theorem decodeRun_encodeFrame {msg : Message} (hmsg : Transmissible pbEncode pbDecode msg) :
    decodeRun pbDecode (cobsEncode (encodeFrame pbEncode msg)) = some (onWire msg) := by
  rw [decodeRun, cobsDecode_cobsEncode]
  dsimp only
  rw [decodeFrame_encodeFrame hmsg.decodes hmsg.fits, received_eq_onWire hmsg.syncPoint]

/-- Every framed message is extracted, in order, whatever lies between. -/
theorem sublist_extractFrames (frames : List (Message × List Byte)) (garbage : List Byte)
    (hframes : ∀ frame ∈ frames, Transmissible pbEncode pbDecode frame.1) :
    (frames.map fun frame => onWire frame.1).Sublist
      (extractFrames (decodeRun pbDecode) (noisy pbEncode garbage frames)).1 := by
  induction frames generalizing garbage with
  | nil => exact List.nil_sublist _
  | cons frame rest ih =>
      obtain ⟨msg, next⟩ := frame
      have hmsg := hframes _ List.mem_cons_self
      have hrun := zero_not_mem_cobsEncode (encodeFrame pbEncode msg)
      have hne := cobsEncode_ne_nil (encodeFrame pbEncode msg)
      have hrest := ih next fun frame hmem => hframes frame (List.mem_cons_of_mem _ hmem)
      rw [extractFrames_eq] at hrest
      rw [noisy, encodeFramed, List.append_assoc, List.singleton_append, extractFrames_eq,
        Delimited.split_delimiter, Delimited.split_run hrun]
      dsimp only
      -- The run that the garbage and the delimiter make goes with the garbage.
      rw [List.append_cons, decodeRuns_append,
        decodeRuns_cons _ hne (decodeRun_encodeFrame hmsg), List.map_cons]
      exact (hrest.cons_cons _).trans (List.sublist_append_right ..)

end Garbage

/-- Reassembly: no cutting of the stream changes what is extracted or left over, and
no garbage between frames costs a frame. -/
theorem reassembly :
    (∀ (decode : List Byte → Option Message) (chunks : List (List Byte)),
        feed decode [] chunks = extractFrames decode chunks.flatten) ∧
      ∀ (pbEncode : Header → List Byte) (pbDecode : List Byte → Option Header)
        (garbage : List Byte) (frames : List (Message × List Byte)),
        (∀ frame ∈ frames, Transmissible pbEncode pbDecode frame.1) →
          (frames.map fun frame => onWire frame.1).Sublist
            (extractFrames (decodeRun pbDecode) (noisy pbEncode garbage frames)).1 :=
  ⟨fun decode chunks => feed_eq decode chunks [] List.not_mem_nil,
    fun _ _ garbage frames => sublist_extractFrames frames garbage⟩

/-- A message behind a torn frame, with another torn one behind it. -/
theorem reassembly_torn :
    [onWire {}].Sublist (extractFrames
      (decodeRun fun bytes => if bytes = [0x1A, 0x00] then some (toHeader {}) else none)
      (noisy nanopbHeader [3, 1] [({}, [7, 0, 9])])).1 := by
  refine reassembly.2 nanopbHeader _ [3, 1] [({}, [7, 0, 9])] fun frame hmem => ?_
  obtain rfl := List.mem_singleton.mp hmem
  exact ⟨by decide +kernel, by decide +kernel, Or.inr rfl⟩

end VisioSchema.Transport

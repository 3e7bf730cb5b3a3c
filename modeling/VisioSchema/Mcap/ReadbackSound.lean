import VisioSchema.Mcap.ReadbackSafety

/-!
# What the read-back finds and puts

A span is counted mismatched only if the medium answered with bytes that were not written there,
and a rewrite puts only bytes that were; whatever turn the threads take, since a step looks at
the reservation after it has read the ring.

## Strategy

What is recorded stays right as more is written (`Mismatch.Differs.mono`, `Put.AsWritten.mono`).
What a piece under way has found is right only if the ring has not moved on (`PieceOk`), because
the writer may overwrite a byte between two accesses of the stepping side.  The reservation is
looked at behind each access, so a byte that passes the look is the one that was written
(`Sound.ringByte`), and one that does not pass is not used.

The steps are those that offer spans (`Sound.enqueue`), those that take one up or go on with it
(`Sound.pop`, `Sound.goOn`), and those that end it.  All ends look alike (`Ends`), up to the
verdict, so that the invariants are shown of them once (`Sound.ends`, `LogOk.ends`).
-/

namespace VisioSchema.Mcap.SpanReadback

open VisioSchema.Library VisioSchema.Wire RingView

/-- The read differs from the bytes written there. -/
def Mismatch.Differs (files : ℕ → List Byte) (m : Mismatch) : Prop :=
  ∃ o b, m.fileOff ≤ o ∧ o < m.fileOff + m.len ∧ (files m.part)[o]? = some b ∧ m.got o ≠ b

/-- The bytes are those written at their offsets. -/
def Put.AsWritten (files : ℕ → List Byte) (p : Put) : Prop :=
  ∀ i b, p.bytes[i]? = some b → (files p.part)[p.fileOff + i]? = some b

/-- What was counted and put is right. -/
structure LogOk (s : SpanReadback) : Prop where
  differs : ∀ m ∈ s.history.mismatches, Mismatch.Differs s.history.files m
  counted : s.stats.spansMismatched = s.history.mismatches.length
  asWritten : ∀ p ∈ s.history.puts, Put.AsWritten s.history.files p

def pieceOf (s : SpanReadback) (c : InFlight) (got : ℕ → Byte) : Mismatch :=
  ⟨c.span.part, c.span.fileOff + c.done, s.pieceLen c, got⟩

def putOf (c : InFlight) (bytes : List Byte) : Put :=
  ⟨c.span.part, c.span.fileOff + c.done, bytes⟩

/-- What a piece under way has found, if the ring has not moved on. -/
def PieceOk (s : SpanReadback) (c : InFlight) : StepperAt → Prop
  | .compared got true => s.spanStillInRing c.span →
      Mismatch.Differs s.history.files (s.pieceOf c got)
  | .copying bytes => bytes.length ≤ s.pieceLen c ∧
      (s.spanStillInRing c.span → Put.AsWritten s.history.files (putOf c bytes))
  | .writing bytes => Put.AsWritten s.history.files (putOf c bytes)
  | _ => True

structure Sound (s : SpanReadback) : Prop where
  ring : s.ringView.RingOk
  spans : ∀ sp ∈ s.queue, s.ringView.SpanOk sp ∧ sp.len ≤ s.ringSize
  tail : ∀ sp ∈ s.pendingTail, s.ringView.SpanOk sp
  flight : ∀ c, s.inFlight = some c → s.queue.head? = some c.span
  rest : s.inFlight = none → s.stepper = .idle
  piece : ∀ c, s.inFlight = some c → PieceOk s c s.stepper

variable {s : SpanReadback}

theorem size_ringView : s.ringView.size = s.ringSize := rfl

/-! ## What later writes keep -/

theorem getElem?_of_prefix {l l' : List Byte} (hfront : l <+: l') {i : ℕ} {b : Byte}
    (hb : l[i]? = some b) : l'[i]? = some b := by
  obtain ⟨rest, rfl⟩ := hfront
  rw [List.getElem?_append_left (List.getElem?_eq_some_iff.mp hb).1]
  exact hb

theorem Mismatch.Differs.mono {files files' : ℕ → List Byte} (hfiles : ∀ p, files p <+: files' p)
    {m : Mismatch} (hdiffers : Mismatch.Differs files m) : Mismatch.Differs files' m := by
  obtain ⟨o, b, hlow, hhigh, hbyte, hne⟩ := hdiffers
  exact ⟨o, b, hlow, hhigh, getElem?_of_prefix (hfiles _) hbyte, hne⟩

theorem Put.AsWritten.mono {files files' : ℕ → List Byte} (hfiles : ∀ p, files p <+: files' p)
    {p : Put} (hput : Put.AsWritten files p) : Put.AsWritten files' p :=
  fun i b hb => getElem?_of_prefix (hfiles _) (hput i b hb)

theorem LogOk.mono {s' : SpanReadback} (hlog : LogOk s)
    (hfiles : ∀ p, s.history.files p <+: s'.history.files p)
    (hmismatches : s'.history.mismatches = s.history.mismatches)
    (hputs : s'.history.puts = s.history.puts)
    (hcount : s'.stats.spansMismatched = s.stats.spansMismatched) : LogOk s' where
  differs := by
    rw [hmismatches]
    exact fun m hm => (hlog.differs m hm).mono hfiles
  counted := by rw [hmismatches, hcount, hlog.counted]
  asWritten := by
    rw [hputs]
    exact fun p hp => (hlog.asWritten p hp).mono hfiles

theorem PieceOk.mono {s' : SpanReadback} (hgrows : s.ringView.Grows s'.ringView) {c : InFlight}
    {stepper : StepperAt} (hpiece : PieceOk s c stepper) : PieceOk s' c stepper := by
  have hoptions : s'.options = s.options := hgrows.options
  have hlen : s'.pieceLen c = s.pieceLen c := by
    rw [pieceLen, pieceLen, hoptions]
  have hstill : s'.spanStillInRing c.span → s.spanStillInRing c.span := by
    intro hle
    have hreserve : s.reserve ≤ s'.reserve := hgrows.reserve
    unfold spanStillInRing at hle ⊢
    rw [ringSize, hoptions] at hle
    exact (Nat.sub_le_sub_right hreserve _).trans hle
  cases stepper with
  | idle => trivial
  | comparing got i => trivial
  | compared got differs =>
      cases differs with
      | false => trivial
      | true =>
          intro hin
          have hdiffers := (hpiece (hstill hin)).mono hgrows.files
          rw [pieceOf] at hdiffers ⊢
          rw [hlen]
          exact hdiffers
  | copying bytes =>
      obtain ⟨hle, hput⟩ := hpiece
      refine ⟨by rw [hlen]; exact hle, fun hin => ?_⟩
      exact (hput (hstill hin)).mono hgrows.files
  | writing bytes => exact Put.AsWritten.mono hgrows.files hpiece

/-- An access or a call of the writer that leaves the spans alone. -/
theorem Sound.grows {s' : SpanReadback} (hs : Sound s) (hring : s'.ringView.RingOk)
    (hgrows : s.ringView.Grows s'.ringView) (hqueue : s'.queue = s.queue)
    (htail : ∀ sp ∈ s'.pendingTail, sp ∈ s.pendingTail) (hflight : s'.inFlight = s.inFlight)
    (hstepper : s'.stepper = s.stepper) : Sound s' where
  ring := hring
  spans := by
    rw [hqueue]
    intro sp hsp
    have hsize : s'.ringSize = s.ringSize := by
      have hoptions : s'.options = s.options := hgrows.options
      rw [ringSize, ringSize, hoptions]
    rw [hsize]
    exact (hs.spans sp hsp).imp_left hgrows.spanOk
  tail := fun sp hsp => hgrows.spanOk (hs.tail sp (htail sp hsp))
  flight := by
    rw [hqueue, hflight]
    exact hs.flight
  rest := by
    rw [hflight, hstepper]
    exact hs.rest
  piece := by
    rw [hflight, hstepper]
    exact fun c hc => (hs.piece c hc).mono hgrows

/-! ## Spans that are offered -/

theorem ringView_enqueue (sp : Span) : (s.enqueue sp).ringView = s.ringView := by
  unfold enqueue
  split
  · rfl
  · split
    · rfl
    · split <;> rfl

/-- The span of an offer is one of bytes written. -/
theorem spanOk_offer (hs : Sound s) (hidle : s.writer = .idle) {fileOff len : ℕ}
    (hlen : fileOff + len ≤ (s.history.files s.part).length) :
    s.ringView.SpanOk (s.offer fileOff len).1 where
  part_le := Nat.le_refl s.part
  pos_eq := by
    show s.partBase + fileOff = s.history.bases s.part + fileOff
    have hbase : s.history.bases s.part = s.partBase := hs.ring.base_eq
    rw [hbase]
  in_file := hlen
  copied := by
    have hcopied : s.ringView.copied = s.ringView.stop := RingOk.copied_idle hidle
    have hstop : s.ringView.stop = s.partBase + (s.history.files s.part).length := rfl
    rw [hcopied, hstop]
    show s.partBase + fileOff + len ≤ s.partBase + (s.history.files s.part).length
    omega

/-- Enqueueing changes the queue at its end only. -/
theorem queue_enqueue (sp : Span) : (s.enqueue sp).queue = s.queue ∨
    (s.enqueue sp).queue = s.queue ++ [sp] ∧ sp.len ≤ s.ringSize := by
  unfold enqueue
  split
  · exact Or.inl rfl
  · split
    · exact Or.inl rfl
    · split
      · exact Or.inl rfl
      · rename_i _ hfits _
        exact Or.inr ⟨rfl, Nat.not_lt.mp hfits⟩

/-- What `Enqueue` leaves alone. -/
theorem enqueue_frame (sp : Span) : (s.enqueue sp).pendingTail = s.pendingTail ∧
    (s.enqueue sp).inFlight = s.inFlight ∧ (s.enqueue sp).stepper = s.stepper ∧
    (s.enqueue sp).history.mismatches = s.history.mismatches ∧
    (s.enqueue sp).history.puts = s.history.puts ∧
    (s.enqueue sp).stats.spansMismatched = s.stats.spansMismatched := by
  unfold enqueue
  split
  · simp
  · split
    · simp [settle, McapReadbackStats.count]
    · split <;> simp [settle, McapReadbackStats.count]

theorem Sound.enqueue (hs : Sound s) {sp : Span} (hsp : s.ringView.SpanOk sp) :
    Sound (s.enqueue sp) := by
  obtain ⟨htail, hflight, hstepper, -⟩ := enqueue_frame (s := s) sp
  have hview := ringView_enqueue (s := s) sp
  have hsize : (s.enqueue sp).ringSize = s.ringSize := by
    rw [← size_ringView, hview, size_ringView]
  refine ⟨by rw [hview]; exact hs.ring, ?_, ?_, ?_, ?_, ?_⟩
  · rw [hview, hsize]
    rcases queue_enqueue (s := s) sp with hqueue | ⟨hqueue, hfits⟩
    · rw [hqueue]
      exact hs.spans
    · rw [hqueue]
      intro other hother
      rcases List.mem_append.mp hother with hold | hnew
      · exact hs.spans other hold
      · rw [List.mem_singleton.mp hnew]
        exact ⟨hsp, hfits⟩
  · rw [hview, htail]
    exact hs.tail
  · rw [hflight]
    intro c hc
    have hhead := hs.flight c hc
    rcases queue_enqueue (s := s) sp with hqueue | ⟨hqueue, -⟩
    · rw [hqueue, hhead]
    · rw [hqueue, List.head?_append, hhead]
      rfl
  · rw [hflight, hstepper]
    exact hs.rest
  · rw [hflight, hstepper]
    intro c hc
    refine (hs.piece c hc).mono ?_
    rw [hview]
    exact Grows.refl

/-! ## The writer's calls -/

theorem sound_beginPart (hs : Sound s) (hidle : s.writer = .idle) : Sound s.beginPart := by
  obtain ⟨hring, hgrows⟩ := ringOk_beginPart hs.ring hidle
  have hnone : s.beginPart.pendingTail = none := by
    unfold beginPart skipTail
    cases htail : s.pendingTail <;> simp [htail]
  refine hs.grows hring hgrows ?_ ?_ ?_ ?_
  · unfold beginPart skipTail
    split <;> rfl
  · simp [hnone]
  · unfold beginPart skipTail
    split <;> rfl
  · unfold beginPart skipTail
    split <;> rfl

theorem sound_onBytesWritten (hon : s.on = true) (hs : Sound s) (hidle : s.writer = .idle)
    {fileOff : ℕ} (hoff : fileOff = (s.history.files s.part).length) (data : List Byte) :
    Sound (s.onBytesWritten fileOff data) := by
  obtain ⟨hring, hgrows⟩ := ringOk_onBytesWritten hon hs.ring hidle hoff data
  refine hs.grows hring hgrows ?_ ?_ ?_ ?_
  · unfold onBytesWritten
    dsimp only
    split <;> rfl
  · unfold onBytesWritten
    dsimp only
    split <;> exact fun sp hsp => hsp
  · unfold onBytesWritten
    dsimp only
    split <;> rfl
  · unfold onBytesWritten
    dsimp only
    split <;> rfl

theorem writerStep_frame : s.writerStep.queue = s.queue ∧
    s.writerStep.pendingTail = s.pendingTail ∧ s.writerStep.inFlight = s.inFlight ∧
    s.writerStep.stepper = s.stepper ∧ s.writerStep.history = s.history ∧
    s.writerStep.stats = s.stats ∧ s.writerStep.allocated = s.allocated ∧
    s.writerStep.released = s.released ∧ s.writerStep.noMoreWrites = s.noMoreWrites := by
  unfold writerStep
  split
  · simp
  · split <;> simp
  · simp

theorem sound_writerStep (hs : Sound s) : Sound s.writerStep := by
  obtain ⟨hring, hgrows⟩ := ringOk_writerStep hs.ring
  obtain ⟨hqueue, htail, hflight, hstepper, -⟩ := writerStep_frame (s := s)
  exact hs.grows hring hgrows hqueue (by rw [htail]; exact fun _ hsp => hsp) hflight hstepper

/-- A change of what `Sound` does not look at. -/
theorem Sound.same {s' : SpanReadback} (hs : Sound s) (hring : s'.ringView = s.ringView)
    (hqueue : s'.queue = s.queue) (htail : ∀ sp ∈ s'.pendingTail, s.ringView.SpanOk sp)
    (hflight : s'.inFlight = s.inFlight) (hstepper : s'.stepper = s.stepper) : Sound s' := by
  have hsize : s'.ringSize = s.ringSize := by
    rw [← size_ringView, hring, size_ringView]
  refine ⟨hring ▸ hs.ring, ?_, hring ▸ htail, ?_, ?_, ?_⟩
  · rw [hring, hsize, hqueue]
    exact hs.spans
  · rw [hflight, hqueue]
    exact hs.flight
  · rw [hflight, hstepper]
    exact hs.rest
  · rw [hflight, hstepper]
    intro c hc
    refine (hs.piece c hc).mono ?_
    rw [hring]
    exact Grows.refl

theorem sound_onSpanEvicted (hs : Sound s) (hidle : s.writer = .idle) {fileOff len : ℕ}
    (hlen : fileOff + len ≤ (s.history.files s.part).length) :
    Sound (s.onSpanEvicted fileOff len) := by
  have hoffered : Sound (s.offer fileOff len).2 := hs.same rfl rfl hs.tail rfl rfl
  exact hoffered.enqueue (spanOk_offer hs hidle hlen)

theorem sound_notePartEnd (hs : Sound s) (hidle : s.writer = .idle)
    {unverifiedFrom fileSize : ℕ} (hsize : fileSize ≤ (s.history.files s.part).length)
    (syncDisabled : Bool) : Sound (s.notePartEnd unverifiedFrom fileSize syncDisabled) := by
  unfold notePartEnd
  by_cases hnone : fileSize ≤ unverifiedFrom
  · rw [if_pos hnone]
    exact hs
  · rw [if_neg hnone]
    have hspan : s.ringView.SpanOk (s.offer unverifiedFrom (fileSize - unverifiedFrom)).1 :=
      spanOk_offer hs hidle (by omega)
    cases syncDisabled with
    | true => exact hs.same rfl rfl hs.tail rfl rfl
    | false =>
        refine hs.same rfl rfl ?_ rfl rfl
        rintro sp hsp
        cases hsp
        exact hspan

theorem sound_commitTail (hs : Sound s) : Sound s.commitTail := by
  unfold commitTail
  cases htail : s.pendingTail with
  | none => exact hs
  | some sp =>
      have hsp := hs.tail sp (by rw [htail]; rfl)
      have hqueued := hs.enqueue hsp
      exact hqueued.same rfl rfl (by rintro _ ⟨⟩) rfl rfl

/-! ## The stepping side -/

/-- The spans left when one is popped, no span being in flight. -/
theorem Sound.pop {s' : SpanReadback} (hs : Sound s) (hring : s'.ringView = s.ringView)
    (hqueue : s'.queue = s.queue.tail) (htail : s'.pendingTail = s.pendingTail)
    (hflight : s'.inFlight = none) (hstepper : s'.stepper = .idle) : Sound s' := by
  have hsize : s'.ringSize = s.ringSize := by
    rw [← size_ringView, hring, size_ringView]
  refine ⟨hring ▸ hs.ring, ?_, ?_, ?_, fun _ => hstepper, ?_⟩
  · rw [hring, hsize, hqueue]
    exact fun sp hsp => hs.spans sp (List.mem_of_mem_tail hsp)
  · rw [hring, htail]
    exact hs.tail
  · rw [hflight]
    rintro c ⟨⟩
  · rw [hflight]
    rintro c ⟨⟩

/-- A span that goes on. -/
theorem Sound.goOn {s' : SpanReadback} {c c' : InFlight} (hs : Sound s)
    (hring : s'.ringView = s.ringView) (hqueue : s'.queue = s.queue)
    (htail : s'.pendingTail = s.pendingTail) (hhead : s.queue.head? = some c.span)
    (hflight : s'.inFlight = some c') (hspan : c'.span = c.span)
    (hpiece : PieceOk s c' s'.stepper) : Sound s' := by
  have hsize : s'.ringSize = s.ringSize := by
    rw [← size_ringView, hring, size_ringView]
  refine ⟨hring ▸ hs.ring, ?_, ?_, ?_, ?_, ?_⟩
  · rw [hring, hsize, hqueue]
    exact hs.spans
  · rw [hring, htail]
    exact hs.tail
  · rw [hflight, hqueue, hhead]
    rintro _ ⟨⟩
    rw [hspan]
  · rw [hflight]
    rintro ⟨⟩
  · rw [hflight]
    rintro _ ⟨⟩
    refine hpiece.mono ?_
    rw [hring]
    exact Grows.refl

theorem sound_startNextSpan (hs : Sound s) (hflight : s.inFlight = none) :
    Sound s.startNextSpan := by
  unfold startNextSpan
  cases hqueue : s.queue with
  | nil => exact hs
  | cons sp rest =>
      dsimp only
      by_cases hrun : s.ringSize < s.head - sp.ringPos
      · rw [if_pos hrun]
        exact hs.pop rfl (by rw [hqueue]; rfl) rfl hflight (hs.rest hflight)
      · rw [if_neg hrun]
        split
        · exact hs
        · refine hs.goOn (c := ⟨sp, .verify, 0⟩) rfl hqueue.symm rfl ?_ rfl rfl ?_
          · rw [hqueue]
            rfl
          · show PieceOk s _ s.stepper
            rw [hs.rest hflight]
            trivial

/-- The ring's byte of a piece, if the ring has not moved on. -/
theorem Sound.ringByte (hs : Sound s) {c : InFlight} (hc : s.inFlight = some c) {i : ℕ}
    (hi : i < s.pieceLen c) (hin : s.spanStillInRing c.span) :
    (s.history.files c.span.part)[c.span.fileOff + c.done + i]? = some (s.ringByte c i) := by
  obtain ⟨hspan, hfits⟩ := hs.spans c.span (List.mem_of_mem_head? (hs.flight c hc))
  have hlen : s.pieceLen c ≤ c.span.len - c.done := Nat.min_le_right _ _
  have hstill : s.reserve ≤ c.span.ringPos + s.ringSize := by
    unfold spanStillInRing at hin
    omega
  obtain ⟨b, hbyte, hring⟩ := hspan.byte hs.ring (k := c.done + i) (by omega) hstill
  have hcell : s.ringByte c i = b := by
    rw [SpanReadback.ringByte, sliceCell_eq hi (by omega), Nat.add_assoc]
    exact hring
  rw [hcell, Nat.add_assoc]
  exact hbyte

/-- A span's end: its verdict, beside what is counted of a rewrite and the latched fault. -/
def ended (s : SpanReadback) (c : InFlight) (verdict : Verdict) (fault : Bool) (rewritten : ℕ) :
    SpanReadback :=
  { (s.settle c.span verdict).finishSpan with
    storageFault := fault
    stats := { s.stats.count c.span.len verdict with spansRewrittenOk := rewritten } }

/-- Some end of the span. -/
def Ends (s : SpanReadback) (c : InFlight) (s' : SpanReadback) : Prop :=
  ∃ verdict fault rewritten, s' = s.ended c verdict fault rewritten

theorem ends_noteUnrepaired (c : InFlight) : Ends s c (s.noteUnrepaired c.span).finishSpan :=
  ⟨.unrepaired, true, s.stats.spansRewrittenOk, rfl⟩

theorem ends_abandonInFlight (c : InFlight) : Ends s c (s.abandonInFlight c).finishSpan := by
  unfold abandonInFlight
  split
  · exact ⟨.skipped, s.storageFault, s.stats.spansRewrittenOk, rfl⟩
  · exact ends_noteUnrepaired c

theorem ends_noteReadFailed (c : InFlight) (eio : Bool) :
    Ends s c (s.noteReadFailed c eio).finishSpan := by
  unfold noteReadFailed
  split
  · exact ends_noteUnrepaired c
  · exact ⟨.readFailed, s.storageFault, s.stats.spansRewrittenOk, rfl⟩

theorem ends_verifySpan (c : InFlight) : Ends s c (s.verifySpan c) := by
  unfold verifySpan
  dsimp only
  split
  · exact ⟨.verified, s.storageFault, s.stats.spansRewrittenOk + 1, rfl⟩
  · exact ⟨.verified, s.storageFault, s.stats.spansRewrittenOk, rfl⟩

theorem Sound.ends {c : InFlight} {s' : SpanReadback} (hs : Sound s) (hends : Ends s c s') :
    Sound s' := by
  obtain ⟨verdict, fault, rewritten, rfl⟩ := hends
  exact hs.pop rfl rfl rfl rfl rfl

theorem count_spansMismatched (stats : McapReadbackStats) (len : ℕ) (verdict : Verdict) :
    (stats.count len verdict).spansMismatched = stats.spansMismatched := by
  cases verdict <;> rfl

theorem LogOk.ends {c : InFlight} {s' : SpanReadback} (hlog : LogOk s) (hends : Ends s c s') :
    LogOk s' := by
  obtain ⟨verdict, fault, rewritten, rfl⟩ := hends
  exact hlog.mono (fun _ => List.prefix_rfl) rfl rfl (count_spansMismatched ..)

/-- A piece that goes on within the piece. -/
theorem Sound.moves {c : InFlight} (hs : Sound s) (hc : s.inFlight = some c)
    {stepper : StepperAt} (hpiece : PieceOk s c stepper) :
    Sound { s with stepper := stepper } :=
  hs.goOn rfl rfl rfl (hs.flight c hc) hc rfl hpiece

theorem LogOk.same {s' : SpanReadback} (hlog : LogOk s) (hhistory : s'.history = s.history)
    (hcount : s'.stats.spansMismatched = s.stats.spansMismatched) : LogOk s' :=
  hlog.mono (fun p => by rw [hhistory]) (by rw [hhistory]) (by rw [hhistory]) hcount

theorem ok_runPiece {c : InFlight} (hs : Sound s) (hlog : LogOk s) (hc : s.inFlight = some c)
    (m : Medium) : Sound (s.runPiece c m) ∧ LogOk (s.runPiece c m) := by
  unfold runPiece
  cases m.openError with
  | some eio => exact ⟨hs.ends (ends_noteReadFailed c eio), hlog.ends (ends_noteReadFailed c eio)⟩
  | none =>
      dsimp only
      by_cases hpass : c.pass = .rewrite
      · rw [if_pos hpass]
        refine ⟨hs.moves hc ⟨Nat.zero_le _, fun _ i b hb => ?_⟩, hlog.same rfl rfl⟩
        cases hb
      · rw [if_neg hpass]
        cases m.reads with
        | ok got => exact ⟨hs.moves hc trivial, hlog.same rfl rfl⟩
        | shortFile =>
            exact ⟨hs.ends (ends_noteReadFailed c false), hlog.ends (ends_noteReadFailed c false)⟩
        | error eio =>
            exact ⟨hs.ends (ends_noteReadFailed c eio), hlog.ends (ends_noteReadFailed c eio)⟩

theorem ok_compareByte {c : InFlight} (hs : Sound s) (hlog : LogOk s) (hc : s.inFlight = some c)
    (got : ℕ → Byte) (i : ℕ) : Sound (s.compareByte c got i) ∧ LogOk (s.compareByte c got i) := by
  unfold compareByte
  by_cases hi : i < s.pieceLen c
  · rw [if_pos hi]
    by_cases hsame : got (c.span.fileOff + c.done + i) = s.ringByte c i
    · rw [if_pos hsame]
      exact ⟨hs.moves hc trivial, hlog.same rfl rfl⟩
    · rw [if_neg hsame]
      refine ⟨hs.moves hc fun hin => ?_, hlog.same rfl rfl⟩
      refine ⟨c.span.fileOff + c.done + i, s.ringByte c i, Nat.le_add_right _ _,
        Nat.add_lt_add_left hi _, hs.ringByte hc hi hin, hsame⟩
  · rw [if_neg hi]
    exact ⟨hs.moves hc trivial, hlog.same rfl rfl⟩

theorem ok_continueSpan {c c' : InFlight} (hs : Sound s) (hlog : LogOk s)
    (hc : s.inFlight = some c) (hspan : c'.span = c.span) :
    Sound (s.continueSpan c') ∧ LogOk (s.continueSpan c') :=
  ⟨hs.goOn rfl rfl rfl (hs.flight c hc) rfl hspan trivial, hlog.same rfl rfl⟩

theorem ok_verifyPiece {c : InFlight} (hs : Sound s) (hlog : LogOk s) (hc : s.inFlight = some c)
    {got : ℕ → Byte} {differs : Bool} (hpiece : s.stepper = .compared got differs) :
    Sound (s.verifyPiece c got differs) ∧ LogOk (s.verifyPiece c got differs) := by
  have hfound := hs.piece c hc
  rw [hpiece] at hfound
  unfold verifyPiece
  by_cases hin : s.spanStillInRing c.span
  · rw [if_neg (not_not.mpr hin)]
    cases differs with
    | true =>
        rw [if_pos rfl]
        by_cases hpass : c.pass = .verify
        · rw [if_pos hpass]
          refine ⟨hs.goOn rfl rfl rfl (hs.flight c hc) rfl rfl trivial, ?_, ?_, hlog.asWritten⟩
          · intro m hm
            rcases List.mem_append.mp hm with hold | hnew
            · exact hlog.differs m hold
            · rw [List.mem_singleton.mp hnew]
              exact hfound hin
          · show s.stats.spansMismatched + 1 = (s.history.mismatches ++ [_]).length
            rw [hlog.counted, List.length_append]
            rfl
        · rw [if_neg hpass]
          exact ⟨hs.ends (ends_noteUnrepaired c), hlog.ends (ends_noteUnrepaired c)⟩
    | false =>
        rw [if_neg Bool.false_ne_true]
        split
        · exact ok_continueSpan hs hlog hc rfl
        · exact ⟨hs.ends (ends_verifySpan c), hlog.ends (ends_verifySpan c)⟩
  · rw [if_pos hin]
    exact ⟨hs.ends (ends_abandonInFlight c), hlog.ends (ends_abandonInFlight c)⟩

theorem ok_copyByte {c : InFlight} (hs : Sound s) (hlog : LogOk s) (hc : s.inFlight = some c)
    {bytes : List Byte} (hpiece : s.stepper = .copying bytes) :
    Sound (s.copyByte c bytes) ∧ LogOk (s.copyByte c bytes) := by
  have hfound := hs.piece c hc
  rw [hpiece] at hfound
  obtain ⟨hlen, hput⟩ := hfound
  unfold copyByte
  by_cases hmore : bytes.length < s.pieceLen c
  · rw [if_pos hmore]
    refine ⟨hs.moves hc ⟨?_, fun hin i b hb => ?_⟩, hlog.same rfl rfl⟩
    · rw [List.length_append]
      exact hmore
    · rcases Nat.lt_or_ge i bytes.length with hold | hnew
      · change (bytes ++ [_])[i]? = some b at hb
        rw [List.getElem?_append_left hold] at hb
        exact hput hin i b hb
      · change (bytes ++ [s.ringByte c bytes.length])[i]? = some b at hb
        rw [List.getElem?_append_right hnew, List.getElem?_singleton] at hb
        split at hb
        · rename_i hzero
          have hi : i = bytes.length := by omega
          rw [← Option.some_inj.mp hb, hi]
          exact hs.ringByte hc hmore hin
        · cases hb
  · rw [if_neg hmore]
    by_cases hin : s.spanStillInRing c.span
    · rw [if_neg (not_not.mpr hin)]
      exact ⟨hs.moves hc (hput hin), hlog.same rfl rfl⟩
    · rw [if_pos hin]
      exact ⟨hs.ends (ends_abandonInFlight c), hlog.ends (ends_abandonInFlight c)⟩

theorem LogOk.recordPut (hlog : LogOk s) {put : Put} (hput : Put.AsWritten s.history.files put) :
    LogOk (s.recordPut put) where
  differs := hlog.differs
  counted := hlog.counted
  asWritten := by
    intro p hp
    rcases List.mem_append.mp hp with hold | hnew
    · exact hlog.asWritten p hold
    · rw [List.mem_singleton.mp hnew]
      exact hput

theorem ok_rewritePiece {c : InFlight} (hs : Sound s) (hlog : LogOk s) (hc : s.inFlight = some c)
    {bytes : List Byte} (hpiece : s.stepper = .writing bytes) (writes : Bool) :
    Sound (s.rewritePiece c bytes writes) ∧ LogOk (s.rewritePiece c bytes writes) := by
  have hfound := hs.piece c hc
  rw [hpiece] at hfound
  have hput : LogOk (s.recordPut (putOf c bytes)) := hlog.recordPut hfound
  have hsame : Sound (s.recordPut (putOf c bytes)) := hs.same rfl rfl hs.tail rfl rfl
  have hflight : (s.recordPut (putOf c bytes)).inFlight = some c := hc
  unfold rewritePiece
  change Sound (if writes = false then ((s.recordPut (putOf c bytes)).noteUnrepaired _).finishSpan
    else _) ∧ LogOk (if writes = false then
      ((s.recordPut (putOf c bytes)).noteUnrepaired _).finishSpan else _)
  by_cases hwrites : writes = false
  · rw [if_pos hwrites]
    exact ⟨hsame.ends (ends_noteUnrepaired c), hput.ends (ends_noteUnrepaired c)⟩
  · rw [if_neg hwrites]
    split
    · exact ok_continueSpan hsame hput hflight rfl
    · exact ok_continueSpan hsame hput hflight rfl

/-! ## Every step -/

/-- The invariant: the read-back's own while it has its ring, and what was counted and put. -/
structure ReadbackOk (s : SpanReadback) : Prop where
  sound : s.on = true → Sound s
  log : LogOk s

/-- What a call leaves alone, or only adds to. -/
structure CallFrame (s s' : SpanReadback) : Prop where
  allocated : s'.allocated = s.allocated
  released : s'.released = s.released
  files : ∀ p, s.history.files p <+: s'.history.files p
  mismatches : s'.history.mismatches = s.history.mismatches
  puts : s'.history.puts = s.history.puts
  counted : s'.stats.spansMismatched = s.stats.spansMismatched

theorem CallFrame.refl : CallFrame s s := ⟨rfl, rfl, fun _ => List.prefix_rfl, rfl, rfl, rfl⟩

theorem CallFrame.trans {s' s'' : SpanReadback} (hfirst : CallFrame s s')
    (hsecond : CallFrame s' s'') : CallFrame s s'' where
  allocated := hsecond.allocated.trans hfirst.allocated
  released := hsecond.released.trans hfirst.released
  files := fun p => (hfirst.files p).trans (hsecond.files p)
  mismatches := hsecond.mismatches.trans hfirst.mismatches
  puts := hsecond.puts.trans hfirst.puts
  counted := hsecond.counted.trans hfirst.counted

theorem CallFrame.on {s' : SpanReadback} (hframe : CallFrame s s') : s'.on = s.on := by
  unfold SpanReadback.on
  rw [hframe.allocated, hframe.released]

theorem CallFrame.log {s' : SpanReadback} (hframe : CallFrame s s') (hlog : LogOk s) : LogOk s' :=
  hlog.mono hframe.files hframe.mismatches hframe.puts hframe.counted

theorem callFrame_settle (sp : Span) (verdict : Verdict) : CallFrame s (s.settle sp verdict) :=
  ⟨rfl, rfl, fun _ => List.prefix_rfl, rfl, rfl, count_spansMismatched ..⟩

theorem callFrame_skipTail : CallFrame s s.skipTail := by
  unfold skipTail
  split
  · exact (callFrame_settle _ .skipped).trans ⟨rfl, rfl, fun _ => List.prefix_rfl, rfl, rfl, rfl⟩
  · exact CallFrame.refl

theorem callFrame_offer (fileOff len : ℕ) : CallFrame s (s.offer fileOff len).2 :=
  ⟨rfl, rfl, fun _ => List.prefix_rfl, rfl, rfl, rfl⟩

theorem callFrame_enqueue (sp : Span) : CallFrame s (s.enqueue sp) := by
  unfold enqueue
  split
  · exact CallFrame.refl
  · split
    · exact callFrame_settle sp .skipped
    · split
      · exact callFrame_settle sp .skipped
      · exact ⟨rfl, rfl, fun _ => List.prefix_rfl, rfl, rfl, rfl⟩

theorem callFrame_onBytesWritten (fileOff : ℕ) (data : List Byte) :
    CallFrame s (s.onBytesWritten fileOff data) := by
  have hfiles : ∀ p, s.history.files p <+:
      Function.update s.history.files s.part (s.history.files s.part ++ data) p := by
    intro p
    by_cases hp : p = s.part
    · rw [hp, Function.update_self]
      exact List.prefix_append _ _
    · rw [Function.update_of_ne hp]
  unfold onBytesWritten
  dsimp only
  split
  · exact ⟨rfl, rfl, hfiles, rfl, rfl, rfl⟩
  · exact ⟨rfl, rfl, hfiles, rfl, rfl, rfl⟩

theorem callFrame_notePartEnd (unverifiedFrom fileSize : ℕ) (syncDisabled : Bool) :
    CallFrame s (s.notePartEnd unverifiedFrom fileSize syncDisabled) := by
  unfold notePartEnd
  split
  · exact CallFrame.refl
  · dsimp only
    split
    · exact (callFrame_offer unverifiedFrom (fileSize - unverifiedFrom)).trans
        (callFrame_settle _ .skipped)
    · exact ⟨rfl, rfl, fun _ => List.prefix_rfl, rfl, rfl, rfl⟩

theorem callFrame_call (event : Event) : CallFrame s (s.call event) := by
  cases event with
  | beginPart =>
      show CallFrame s s.beginPart
      unfold beginPart
      dsimp only
      generalize roundUpToPage s.skipTail.head = base
      exact (callFrame_skipTail (s := s)).trans ⟨rfl, rfl, fun _ => List.prefix_rfl, rfl, rfl, rfl⟩
  | onBytesWritten fileOff data => exact callFrame_onBytesWritten fileOff data
  | onSpanEvicted fileOff len =>
      exact (callFrame_offer fileOff len).trans (callFrame_enqueue _)
  | onSyncDisabled => exact ⟨rfl, rfl, fun _ => List.prefix_rfl, rfl, rfl, rfl⟩
  | notePartEnd unverifiedFrom fileSize syncDisabled => exact callFrame_notePartEnd _ _ _
  | commitTail =>
      show CallFrame s s.commitTail
      unfold commitTail
      split
      · exact (callFrame_enqueue _).trans ⟨rfl, rfl, fun _ => List.prefix_rfl, rfl, rfl, rfl⟩
      · exact CallFrame.refl
  | finish =>
      simp only [call]
      split
      · exact ⟨rfl, rfl, fun _ => List.prefix_rfl, rfl, rfl, rfl⟩
      · exact CallFrame.refl
  | writer => exact CallFrame.refl
  | stepper m => exact CallFrame.refl
  | finishEnd => exact CallFrame.refl

theorem sound_call (hs : Sound s) (hon : s.on = true) {event : Event} (hcallable : s.callable)
    (hobeys : s.Obeys event) : Sound (s.call event) := by
  cases event with
  | beginPart => exact sound_beginPart hs hcallable.1
  | onBytesWritten fileOff data =>
      exact sound_onBytesWritten hon hs hcallable.1 (hobeys hcallable) data
  | onSpanEvicted fileOff len => exact sound_onSpanEvicted hs hcallable.1 (hobeys hcallable)
  | onSyncDisabled => exact hs.same rfl rfl hs.tail rfl rfl
  | notePartEnd unverifiedFrom fileSize syncDisabled =>
      exact sound_notePartEnd hs hcallable.1 (hobeys hcallable).1 syncDisabled
  | commitTail => exact sound_commitTail hs
  | finish =>
      simp only [call]
      split
      · exact hs.same rfl rfl hs.tail rfl rfl
      · exact hs
  | writer => exact hs
  | stepper m => exact hs
  | finishEnd => exact hs

theorem log_startNextSpan (hlog : LogOk s) : LogOk s.startNextSpan := by
  unfold startNextSpan
  split
  · exact hlog
  · split
    · exact hlog.mono (fun _ => List.prefix_rfl) rfl rfl (count_spansMismatched ..)
    · split
      · exact hlog
      · exact hlog.same rfl rfl

theorem ok_stepperStep (hs : Sound s) (hlog : LogOk s) (hon : s.on = true) (m : Medium) :
    Sound (s.stepperStep m) ∧ LogOk (s.stepperStep m) := by
  unfold stepperStep
  rw [if_neg (by rw [hon]; decide)]
  cases hflight : s.inFlight with
  | none =>
      exact ⟨sound_startNextSpan hs hflight, log_startNextSpan hlog⟩
  | some c =>
      cases hstepper : s.stepper with
      | idle => exact ok_runPiece hs hlog hflight m
      | comparing got i => exact ok_compareByte hs hlog hflight got i
      | compared got differs => exact ok_verifyPiece hs hlog hflight hstepper
      | copying bytes => exact ok_copyByte hs hlog hflight hstepper
      | writing bytes => exact ok_rewritePiece hs hlog hflight hstepper m.writes

theorem stepperStep_off (hoff : s.on = false) (m : Medium) : s.stepperStep m = s := by
  unfold stepperStep
  rw [if_pos hoff]

theorem LogOk.skipQueue (hlog : LogOk s) : LogOk s.skipQueue := by
  have hall : ∀ spans : List Span, LogOk (spans.foldl (fun s sp => s.settle sp .skipped) s) := by
    intro spans
    refine run_invariant (I := LogOk) (fun s sp hs => ?_) hlog spans
    exact (callFrame_settle sp .skipped).log hs
  exact (hall s.queue).same rfl rfl

theorem LogOk.finishEnd (hlog : LogOk s) : LogOk s.finishEnd := by
  have hflight : LogOk s.giveUpFlight := by
    unfold giveUpFlight
    cases hflight : s.inFlight with
    | none => exact hlog
    | some c => exact hlog.ends (ends_abandonInFlight c)
  rw [finishEnd_eq]
  exact (callFrame_skipTail.log hflight.skipQueue).same rfl rfl

/-- Every step keeps the invariant, if the sink keeps to its part. -/
theorem readbackOk_step (hs : ReadbackOk s) {event : Event} (hobeys : s.Obeys event) :
    ReadbackOk (s.step event) := by
  have hcall : ReadbackOk (if s.callable then s.call event else s) := by
    split
    · rename_i hcallable
      have hframe := callFrame_call (s := s) event
      refine ⟨fun hon => ?_, hframe.log hs.log⟩
      rw [hframe.on] at hon
      exact sound_call (hs.sound hon) hon hcallable hobeys
    · exact hs
  cases event with
  | writer =>
      obtain ⟨-, -, -, -, hhistory, hstats, hallocated, hreleased, -⟩ := writerStep_frame (s := s)
      refine ⟨fun hon => sound_writerStep (hs.sound ?_), ?_⟩
      · rw [← hon]
        show s.on = s.writerStep.on
        rw [on, on, hallocated, hreleased]
      · exact hs.log.same hhistory (by rw [show s.step .writer = s.writerStep from rfl, hstats])
  | stepper m =>
      show ReadbackOk (s.stepperStep m)
      cases hon : s.on with
      | true =>
          obtain ⟨hsound, hlog⟩ := ok_stepperStep (hs.sound hon) hs.log hon m
          exact ⟨fun _ => hsound, hlog⟩
      | false =>
          rw [stepperStep_off hon]
          exact hs
  | finishEnd =>
      show ReadbackOk (if s.finishable then s.finishEnd else s)
      split
      · refine ⟨fun hon => ?_, hs.log.finishEnd⟩
        have hoff : s.finishEnd.on = false := by simp [SpanReadback.finishEnd, on]
        rw [hoff] at hon
        cases hon
      · exact hs
  | beginPart => exact hcall
  | onBytesWritten fileOff data => exact hcall
  | onSpanEvicted fileOff len => exact hcall
  | onSyncDisabled => exact hcall
  | notePartEnd unverifiedFrom fileSize syncDisabled => exact hcall
  | commitTail => exact hcall
  | finish => exact hcall

theorem readbackOk_start (options : McapReadbackOptions) (allocated : Bool) :
    ReadbackOk (start options allocated) where
  sound _ :=
    { ring :=
        { base_eq := rfl
          before := fun p hp => absurd hp (Nat.not_lt_zero p)
          future := fun _ _ => rfl
          reserve_eq := rfl
          mirrors := fun q _ hq => absurd hq (Nat.not_lt_zero q)
          place := rfl }
      spans := fun _ hsp => nomatch hsp
      tail := fun _ hsp => nomatch hsp
      flight := fun _ hc => nomatch hc
      rest := fun _ => rfl
      piece := fun _ hc => nomatch hc }
  log :=
    { differs := fun _ hm => nomatch hm
      counted := rfl
      asWritten := fun _ hp => nomatch hp }

theorem run_readbackOk {options : McapReadbackOptions} {allocated : Bool} {events : List Event}
    (hobeys : Along step Obeys (start options allocated) events) :
    ReadbackOk (events.foldl step (start options allocated)) :=
  run_invariant_along (I := ReadbackOk) (fun _ _ hs hevent => readbackOk_step hs hevent)
    (readbackOk_start options allocated) hobeys

end VisioSchema.Mcap.SpanReadback

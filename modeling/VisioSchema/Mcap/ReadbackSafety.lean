import VisioSchema.Mcap.SpanReadback

/-!
# The ring under the read-back

What the writer's accesses keep true of the ring (`RingOk`), and of the spans that are queued in
it (`SpanOk`).  A byte of a span is in its cell as long as no reservation reaches a ring's length
past the span's start (`SpanOk.byte`).

The writer reserves before it copies and publishes behind it, byte by byte, and the other thread
may look between any two of these accesses.  So the invariant has a place for a call under way:
what was reserved, what was copied, and what was published.  Only the writer changes these
(`RingView`), and the accesses are taken one at a time (`RingOk.begun`, `RingOk.copiedOne`,
`RingOk.published`).
-/

namespace VisioSchema.Mcap.SpanReadback

open VisioSchema.Library VisioSchema.Wire

/-! ## What the writer alone changes -/

structure RingView where
  options : McapReadbackOptions
  ring : ℕ → Byte
  head : ℕ
  reserve : ℕ
  part : ℕ
  partBase : ℕ
  writer : WriterAt
  files : ℕ → List Byte
  bases : ℕ → ℕ

def ringView (s : SpanReadback) : RingView :=
  ⟨s.options, s.ring, s.head, s.reserve, s.part, s.partBase, s.writer, s.history.files,
    s.history.bases⟩

namespace RingView

variable (v : RingView)

def size : ℕ := v.options.ringSize

/-- The position after the last byte written. -/
def stop : ℕ := v.partBase + (v.files v.part).length

/-- The position after the last byte copied. -/
def copied : ℕ :=
  match v.writer with
  | .copying pos _ i => pos + i
  | _ => v.stop

/-- The byte written at a position: that of some part's file. -/
def Stream (q : ℕ) (b : Byte) : Prop := ∃ p o, q = v.bases p + o ∧ (v.files p)[o]? = some b

/-- Where a call of the writer stands. -/
def Place : Prop :=
  match v.writer with
  | .idle => v.head = v.stop
  | .publishing stop => stop = v.stop
  | .copying pos src i =>
      pos + src.length = v.stop ∧ v.partBase ≤ pos ∧ i ≤ src.length ∧ src.length ≤ v.size ∧
        src = (v.files v.part).drop (pos - v.partBase)

/-- What the writer keeps true. -/
structure RingOk : Prop where
  base_eq : v.bases v.part = v.partBase
  before : ∀ p < v.part, v.bases p + (v.files p).length ≤ v.partBase
  future : ∀ p, v.part < p → v.files p = []
  reserve_eq : v.reserve = v.stop
  mirrors : Mirrors v.size v.ring v.Stream v.reserve v.copied
  place : v.Place

/-- A span of bytes that were written and copied. -/
structure SpanOk (sp : Span) : Prop where
  part_le : sp.part ≤ v.part
  pos_eq : sp.ringPos = v.bases sp.part + sp.fileOff
  in_file : sp.fileOff + sp.len ≤ (v.files sp.part).length
  copied : sp.ringPos + sp.len ≤ v.copied

/-- How the ring may move on. -/
structure Grows (v' : RingView) : Prop where
  options : v'.options = v.options
  part : v.part ≤ v'.part
  files : ∀ p, v.files p <+: v'.files p
  bases : ∀ p ≤ v.part, v'.bases p = v.bases p
  reserve : v.reserve ≤ v'.reserve
  copied : v.copied ≤ v'.copied

variable {v}

theorem RingOk.stream_last (hv : v.RingOk) {q : ℕ} {b : Byte} (hq : v.partBase ≤ q)
    (hbyte : v.Stream q b) : (v.files v.part)[q - v.partBase]? = some b := by
  obtain ⟨p, o, rfl, ho⟩ := hbyte
  have hlen : o < (v.files p).length := by
    rw [List.getElem?_eq_some_iff] at ho
    exact ho.1
  rcases Nat.lt_trichotomy p v.part with hlt | rfl | hgt
  · have := hv.before p hlt
    omega
  · rw [hv.base_eq, Nat.add_sub_cancel_left]
    exact ho
  · rw [hv.future p hgt] at hlen
    cases hlen

theorem RingOk.stream_lt (hv : v.RingOk) {q : ℕ} {b : Byte} (hbyte : v.Stream q b) :
    q < v.stop := by
  obtain ⟨p, o, rfl, ho⟩ := hbyte
  have hlen : o < (v.files p).length := by
    rw [List.getElem?_eq_some_iff] at ho
    exact ho.1
  unfold stop
  rcases Nat.lt_trichotomy p v.part with hlt | rfl | hgt
  · have := hv.before p hlt
    omega
  · rw [hv.base_eq]
    omega
  · rw [hv.future p hgt] at hlen
    cases hlen

theorem Grows.refl : v.Grows v :=
  ⟨rfl, Nat.le_refl _, fun _ => List.prefix_rfl, fun _ _ => rfl, Nat.le_refl _, Nat.le_refl _⟩

theorem Grows.spanOk {v' : RingView} (hgrows : v.Grows v') {sp : Span} (hsp : v.SpanOk sp) :
    v'.SpanOk sp where
  part_le := hsp.part_le.trans hgrows.part
  pos_eq := by rw [hgrows.bases _ hsp.part_le, hsp.pos_eq]
  in_file := hsp.in_file.trans (hgrows.files _).length_le
  copied := hsp.copied.trans hgrows.copied

/-- The byte of a span that is still in the ring. -/
theorem SpanOk.byte {sp : Span} (hsp : v.SpanOk sp) (hv : v.RingOk) {k : ℕ} (hk : k < sp.len)
    (hstill : v.reserve ≤ sp.ringPos + v.size) :
    ∃ b, (v.files sp.part)[sp.fileOff + k]? = some b ∧ v.ring ((sp.ringPos + k) % v.size) = b := by
  have hlen : sp.fileOff + k < (v.files sp.part).length := by
    have := hsp.in_file
    omega
  refine ⟨(v.files sp.part)[sp.fileOff + k], List.getElem?_eq_getElem hlen, ?_⟩
  refine hv.mirrors.read ?_ (by omega) ⟨sp.part, sp.fileOff + k, ?_, List.getElem?_eq_getElem hlen⟩
  · have := hsp.copied
    omega
  · have := hsp.pos_eq
    omega

theorem RingOk.copied_idle (hidle : v.writer = .idle) : v.copied = v.stop := by
  simp only [RingView.copied, hidle]

theorem RingOk.head_idle (hv : v.RingOk) (hidle : v.writer = .idle) : v.head = v.stop := by
  have hplace := hv.place
  simp only [Place, hidle] at hplace
  exact hplace

/-! ## The writer's accesses -/

/-- A part that begins at a base. -/
def begun (v : RingView) (base : ℕ) : RingView where
  options := v.options
  ring := v.ring
  head := v.head
  reserve := base
  part := v.part + 1
  partBase := base
  writer := .publishing base
  files := v.files
  bases := Function.update v.bases (v.part + 1) base

theorem begun_bases {base p : ℕ} (hp : p ≤ v.part) : (v.begun base).bases p = v.bases p :=
  Function.update_of_ne (by omega) ..

theorem RingOk.begun_stop (hv : v.RingOk) (base : ℕ) : (v.begun base).stop = base := by
  show base + (v.files (v.part + 1)).length = base
  rw [hv.future _ (Nat.lt_succ_self _)]
  rfl

theorem RingOk.begun_stream (hv : v.RingOk) {base q : ℕ} {b : Byte}
    (hbyte : (v.begun base).Stream q b) : v.Stream q b := by
  obtain ⟨p, o, hq, ho⟩ := hbyte
  change (v.files p)[o]? = some b at ho
  refine ⟨p, o, ?_, ho⟩
  have hp : p ≤ v.part := by
    by_contra hlater
    rw [hv.future p (by omega)] at ho
    cases ho
  rw [hq, begun_bases hp]

theorem RingOk.begun (hv : v.RingOk) (hidle : v.writer = .idle) {base : ℕ}
    (hbase : v.head ≤ base) : (v.begun base).RingOk ∧ v.Grows (v.begun base) := by
  have hhead := hv.head_idle hidle
  have hstop := hv.begun_stop base
  have hcopied : (v.begun base).copied = base := hstop
  refine ⟨⟨?_, ?_, ?_, ?_, ?_, ?_⟩, ⟨rfl, Nat.le_succ _, fun p => List.prefix_rfl, ?_, ?_, ?_⟩⟩
  · exact Function.update_self ..
  · intro p hp
    change p < v.part + 1 at hp
    rw [begun_bases (by omega)]
    show v.bases p + (v.files p).length ≤ base
    have hlast : v.stop = v.partBase + (v.files v.part).length := rfl
    rcases Nat.lt_succ_iff_lt_or_eq.mp hp with hlt | rfl
    · have := hv.before p hlt
      omega
    · have := hv.base_eq
      omega
  · intro p hp
    exact hv.future p (Nat.lt_of_succ_lt hp)
  · exact hstop.symm
  · refine hv.mirrors.reserve ?_ fun q b _ _ hbyte => ?_
    · show v.reserve ≤ base
      rw [hv.reserve_eq]
      omega
    · have hstream := hv.begun_stream hbyte
      rw [RingOk.copied_idle hidle]
      exact ⟨hv.stream_lt hstream, hstream⟩
  · exact hstop.symm
  · intro p hp
    exact begun_bases hp
  · show v.reserve ≤ base
    rw [hv.reserve_eq]
    omega
  · rw [hcopied, RingOk.copied_idle hidle]
    omega

/-- Bytes appended to the part's file, and reserved. -/
def written (v : RingView) (data : List Byte) : RingView where
  options := v.options
  ring := v.ring
  head := v.head
  reserve := v.stop + data.length
  part := v.part
  partBase := v.partBase
  writer := .copying (v.stop + (data.length - v.size)) (data.drop (data.length - v.size)) 0
  files := Function.update v.files v.part (v.files v.part ++ data)
  bases := v.bases

theorem written_files_self (data : List Byte) :
    (v.written data).files v.part = v.files v.part ++ data := Function.update_self ..

theorem written_files_prefix (data : List Byte) (p : ℕ) :
    v.files p <+: (v.written data).files p := by
  by_cases hp : p = v.part
  · rw [hp, written_files_self]
    exact List.prefix_append _ _
  · show _ <+: Function.update v.files v.part _ p
    rw [Function.update_of_ne hp]

theorem written_stop (data : List Byte) : (v.written data).stop = v.stop + data.length := by
  show v.partBase + ((v.written data).files v.part).length = _
  rw [written_files_self, List.length_append, ← Nat.add_assoc]
  rfl

theorem RingOk.written_stream {data : List Byte} {q : ℕ} {b : Byte} (hv : v.RingOk)
    (hq : q < v.stop) (hbyte : (v.written data).Stream q b) : v.Stream q b := by
  obtain ⟨p, o, hpos, ho⟩ := hbyte
  refine ⟨p, o, hpos, ?_⟩
  by_cases hp : p = v.part
  · subst hp
    rw [written_files_self, List.getElem?_append_left] at ho
    · exact ho
    · have hbase := hv.base_eq
      have hlast : v.stop = v.partBase + (v.files v.part).length := rfl
      change q = v.bases v.part + o at hpos
      omega
  · rw [← ho]
    show _ = (Function.update v.files v.part _ p)[o]?
    rw [Function.update_of_ne hp]

theorem RingOk.written (hv : v.RingOk) (hidle : v.writer = .idle) (data : List Byte) :
    (v.written data).RingOk ∧ v.Grows (v.written data) := by
  have hstop := written_stop (v := v) data
  have hlast : v.stop = v.partBase + (v.files v.part).length := rfl
  have hcopied : (v.written data).copied = v.stop + (data.length - v.size) := Nat.add_zero _
  refine ⟨⟨hv.base_eq, ?_, ?_, hstop.symm, ?_, ?_⟩,
    ⟨rfl, Nat.le_refl v.part, written_files_prefix data, fun _ _ => rfl, ?_, ?_⟩⟩
  · intro p hp
    change p < v.part at hp
    show v.bases p + (Function.update v.files v.part _ p).length ≤ v.partBase
    rw [Function.update_of_ne (by omega)]
    exact hv.before p hp
  · intro p hp
    change v.part < p at hp
    show Function.update v.files v.part _ p = []
    rw [Function.update_of_ne (by omega)]
    exact hv.future p hp
  · refine hv.mirrors.reserve ?_ fun q b hq hkept hbyte => ?_
    · show v.reserve ≤ v.stop + data.length
      rw [hv.reserve_eq]
      omega
    · -- the bytes of a huge write that are not copied are overwritten already
      have hlt : q < v.stop := by
        rw [hcopied] at hq
        change v.stop + data.length ≤ q + v.size at hkept
        omega
      rw [RingOk.copied_idle hidle]
      exact ⟨hlt, hv.written_stream hlt hbyte⟩
  · refine ⟨?_, ?_, Nat.zero_le _, ?_, ?_⟩
    · rw [hstop, List.length_drop]
      omega
    · show v.partBase ≤ v.stop + (data.length - v.size)
      omega
    · show (data.drop (data.length - v.size)).length ≤ v.size
      rw [List.length_drop]
      omega
    · have hoff : v.stop + (data.length - v.size) - v.partBase =
          (v.files v.part).length + (data.length - v.size) := by omega
      show data.drop (data.length - v.size) =
        ((v.written data).files v.part).drop (v.stop + (data.length - v.size) - v.partBase)
      rw [written_files_self, hoff, List.drop_length_add_append]
  · show v.reserve ≤ v.stop + data.length
    rw [hv.reserve_eq]
    omega
  · rw [hcopied, RingOk.copied_idle hidle]
    omega

/-- A byte copied into the ring. -/
def copiedOne (v : RingView) (pos : ℕ) (src : List Byte) (i : ℕ) (b : Byte) : RingView where
  options := v.options
  ring := Function.update v.ring (sliceCell v.size pos src.length i) b
  head := v.head
  reserve := v.reserve
  part := v.part
  partBase := v.partBase
  writer := .copying pos src (i + 1)
  files := v.files
  bases := v.bases

theorem RingOk.copiedOne (hv : v.RingOk) {pos i : ℕ} {src : List Byte} {b : Byte}
    (hcopying : v.writer = .copying pos src i) (hb : src[i]? = some b) :
    (v.copiedOne pos src i b).RingOk ∧ v.Grows (v.copiedOne pos src i b) := by
  have hplace := hv.place
  simp only [Place, hcopying] at hplace
  obtain ⟨hend, hbase, -, hsize, hsrc⟩ := hplace
  have hi : i < src.length := by
    rw [List.getElem?_eq_some_iff] at hb
    exact hb.1
  have hcopied : v.copied = pos + i := by
    simp only [RingView.copied, hcopying]
  have hmirrors := hv.mirrors
  rw [hcopied] at hmirrors
  have hcell : sliceCell v.size pos src.length i = (pos + i) % v.size := sliceCell_eq hi hsize
  refine ⟨⟨hv.base_eq, hv.before, hv.future, hv.reserve_eq, ?_, ?_⟩,
    ⟨rfl, Nat.le_refl v.part, fun _ => List.prefix_rfl, fun _ _ => rfl, Nat.le_refl v.reserve, ?_⟩⟩
  · show Mirrors v.size (Function.update v.ring (sliceCell v.size pos src.length i) b) v.Stream
      v.reserve (pos + (i + 1))
    rw [hcell]
    refine hmirrors.copy ?_ fun b' hb' => ?_
    · rw [hv.reserve_eq]
      omega
    · have hlast := hv.stream_last (by omega) hb'
      rw [hsrc, List.getElem?_drop] at hb
      have hoff : pos - v.partBase + i = pos + i - v.partBase := by omega
      rw [hoff, hlast] at hb
      exact Option.some_inj.mp hb
  · exact ⟨hend, hbase, hi, hsize, hsrc⟩
  · rw [hcopied]
    show pos + i ≤ pos + (i + 1)
    omega

/-- The head published. -/
def published (v : RingView) (stop : ℕ) : RingView where
  options := v.options
  ring := v.ring
  head := stop
  reserve := v.reserve
  part := v.part
  partBase := v.partBase
  writer := .idle
  files := v.files
  bases := v.bases

theorem RingOk.published (hv : v.RingOk) {stop : ℕ} (hcopied : v.copied = v.stop)
    (hstop : stop = v.stop) :
    (v.published stop).RingOk ∧ v.Grows (v.published stop) := by
  have hmirrors := hv.mirrors
  rw [hcopied] at hmirrors
  refine ⟨⟨hv.base_eq, hv.before, hv.future, hv.reserve_eq, hmirrors, hstop⟩,
    ⟨rfl, Nat.le_refl v.part, fun _ => List.prefix_rfl, fun _ _ => rfl, Nat.le_refl v.reserve, ?_⟩⟩
  rw [hcopied]
  exact Nat.le_refl v.stop

theorem RingOk.copied_end (hv : v.RingOk) {pos i : ℕ} {src : List Byte}
    (hcopying : v.writer = .copying pos src i) (hend : src[i]? = none) :
    v.copied = v.stop ∧ pos + src.length = v.stop := by
  have hplace := hv.place
  simp only [Place, hcopying] at hplace
  obtain ⟨hstop, -, hle, -⟩ := hplace
  have hi : src.length ≤ i := List.getElem?_eq_none_iff.mp hend
  refine ⟨?_, hstop⟩
  simp only [RingView.copied, hcopying]
  omega

end RingView

open RingView

/-! ## The writer's calls -/

variable {s : SpanReadback}

theorem le_roundUpToPage (n : ℕ) : n ≤ roundUpToPage n := by
  unfold roundUpToPage McapWriter.roundDownToPage
  omega

theorem ringView_beginPart :
    s.beginPart.ringView = s.ringView.begun (roundUpToPage s.head) := by
  unfold beginPart skipTail
  split <;> rfl

theorem ringOk_beginPart (hv : s.ringView.RingOk) (hidle : s.writer = .idle) :
    s.beginPart.ringView.RingOk ∧ s.ringView.Grows s.beginPart.ringView := by
  rw [ringView_beginPart]
  exact hv.begun hidle (le_roundUpToPage s.head)

theorem ringView_onBytesWritten (hon : s.on = true) {data : List Byte} (hdata : data ≠ []) :
    (s.onBytesWritten (s.history.files s.part).length data).ringView =
      s.ringView.written data := by
  unfold onBytesWritten
  dsimp only
  rw [if_neg (by
    rintro (hoff | hnil)
    · exact absurd (hon.symm.trans hoff) (by decide)
    · exact hdata hnil)]
  rfl

theorem ringView_onBytesWritten_nil (fileOff : ℕ) :
    (s.onBytesWritten fileOff []).ringView = s.ringView := by
  unfold onBytesWritten
  dsimp only
  rw [if_pos (Or.inr rfl), List.append_nil, Function.update_eq_self]

theorem ringOk_onBytesWritten (hon : s.on = true) (hv : s.ringView.RingOk)
    (hidle : s.writer = .idle) {fileOff : ℕ} (hoff : fileOff = (s.history.files s.part).length)
    (data : List Byte) : (s.onBytesWritten fileOff data).ringView.RingOk ∧
      s.ringView.Grows (s.onBytesWritten fileOff data).ringView := by
  subst hoff
  by_cases hdata : data = []
  · rw [hdata, ringView_onBytesWritten_nil]
    exact ⟨hv, Grows.refl⟩
  · rw [ringView_onBytesWritten hon hdata]
    exact hv.written hidle data

theorem ringOk_writerStep (hv : s.ringView.RingOk) :
    s.writerStep.ringView.RingOk ∧ s.ringView.Grows s.writerStep.ringView := by
  unfold writerStep
  cases hwriter : s.writer with
  | idle =>
      exact ⟨hv, Grows.refl⟩
  | copying pos src i =>
      dsimp only
      cases hb : src[i]? with
      | some b => exact hv.copiedOne hwriter hb
      | none =>
          obtain ⟨hcopied, hstop⟩ := hv.copied_end hwriter hb
          exact hv.published hcopied hstop
  | publishing stop =>
      have hplace := hv.place
      have hcopied : s.ringView.copied = s.ringView.stop := by
        simp only [RingView.copied, ringView, hwriter]
      simp only [Place, ringView, hwriter] at hplace
      exact hv.published hcopied hplace

end VisioSchema.Mcap.SpanReadback

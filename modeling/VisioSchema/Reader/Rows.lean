import VisioSchema.Library.Generators
import VisioSchema.Library.Watermark
import VisioSchema.Reader.Decode
import VisioSchema.Reader.Domain

/-!
# From rows to elements

What `Session` shares with a live row source: the CPU decoders, one for each camera, and
`_reorder`, which puts elements that come in by arrival in order of time.
-/

namespace VisioSchema.Reader

open VisioSchema.Library VisioSchema.Wire

abbrev Topic := Text

/-- The suffix of a camera's `frame_info` topic. -/
def frameInfoSuffix : Text := ['/', 'f', 'r', 'a', 'm', 'e', '_', 'i', 'n', 'f', 'o']

/-- A parsed `CompressedVideo`. -/
structure Video where
  format : Text
  frameId : Text
  data : List Byte
  deriving DecidableEq, Repr

/-- What an element is: a frame, a passed through payload, or an adapter's own. -/
inductive Value (Img D V : Type*)
  | frame (image : Img) (frameId : Text)
  | raw (data : D)
  | other (value : V)
  deriving DecidableEq, Repr

/-- A yielded `(t_ns, arrival_ns, element)`; the element carries `t_ns` as its stamp. -/
structure Triple (K V : Type*) where
  sortNs : ℤ
  arrivalNs : ℤ
  element : Element K V
  deriving DecidableEq, Repr

/-! ## Decoders -/

/-- A camera's decoder, and the format and frame id that it was made for. -/
structure Decoding (Ctx : Type*) where
  format : Text
  frameId : Text
  ctx : Ctx

section Decoding

variable {Ctx Img ε : Type*} (av : PyAv Ctx Img)

/-- The decoder kept for an access unit: none after a change of format or frame id. -/
def keptDecoder (video : Video) (decoder : Option (Decoding Ctx)) : Option (Decoding Ctx) :=
  decoder.filter fun dec => (dec.format, dec.frameId) = (video.format, video.frameId)

/-- The `emit` of `cpu_video_decoders`, for one camera: a frame or none, and the decoder that is
kept.  Under `continuation` a new decoder waits for a keyframe. -/
def emitVideo (continuation : Bool) (video : Video) (decoder : Option (Decoding Ctx)) :
    Except (ReadError ε) (Option Img × Option (Decoding Ctx)) :=
  match keptDecoder video decoder with
  | some dec =>
      let (image, ctx) := av.decode dec.ctx video.data
      .ok (image, some { dec with ctx := ctx })
  | none =>
      if continuation ∧ keyframeFormat (lower video.format) = true ∧
          isKeyframe video.format video.data ≠ some true then .ok (none, none)
      else
        match hevcDecoder av video.format with
        | .error e => .error e
        | .ok ctx =>
            let (image, ctx) := av.decode ctx video.data
            .ok (image, some ⟨video.format, video.frameId, ctx⟩)

end Decoding

/-! ## Reordering -/

section Reorder

variable {K V ε : Type*}

/-- `_reorder`'s heap and watermark at the start. -/
def emptyHeap : Holdback (Triple K V) ℤ := ⟨[], 0⟩

/-- `_reorder`.  The heap goes out as a whole if the items come to an end, and not if they
raise. -/
def reorder (reorderNs : ℤ) (items : Gen (Triple K V) ε Unit) : Gen (Element K V) ε Unit :=
  match items.result with
  | .ok () =>
      .yield ((emptyHeap.release Triple.sortNs Triple.arrivalNs (· - reorderNs)
        items.items).map Triple.element) ()
  | .error e =>
      ⟨(emptyHeap.feed Triple.sortNs Triple.arrivalNs (· - reorderNs)
        items.items).1.map Triple.element, .error e⟩

theorem reorder_of_returns {reorderNs : ℤ} {items : Gen (Triple K V) ε Unit}
    (hreturns : items.Returns ()) :
    reorder reorderNs items = .yield ((emptyHeap.release Triple.sortNs Triple.arrivalNs
      (· - reorderNs) items.items).map Triple.element) () := by
  unfold reorder
  rw [show items.result = .ok () from hreturns]

theorem returns_of_reorder {reorderNs : ℤ} {items : Gen (Triple K V) ε Unit}
    (hreturns : (reorder reorderNs items).Returns ()) : items.Returns () := by
  unfold reorder at hreturns
  split at hreturns
  next hresult => exact hresult
  next hresult => cases hreturns

/-- Nothing is lost or added on the way through the heap. -/
theorem reorder_perm {reorderNs : ℤ} {items : Gen (Triple K V) ε Unit}
    (hreturns : items.Returns ()) :
    (reorder reorderNs items).items.Perm (items.items.map Triple.element) := by
  rw [reorder_of_returns hreturns]
  have hperm := @Holdback.release_perm (Triple K V) ℤ _ Triple.sortNs Triple.arrivalNs
    (· - reorderNs) emptyHeap items.items
  exact hperm.map Triple.element

/-! ### The order of the elements -/

/-- The elements are in order of time. -/
def InTimeOrder (elements : List (Element K V)) : Prop :=
  elements.Pairwise fun a b => a.tNs ≤ b.tNs

/-- No item that is kept comes in behind a later one that has left the window: when `x` comes behind
a `y` of a later time, everything before `x`, kept or not, arrived less than the window after the
time of `y`. -/
def NoneLate (keep : Element K V → Bool) (reorderNs : ℤ) (items : List (Triple K V)) : Prop :=
  ∀ front x back, items = front ++ x :: back → keep x.element = true →
    ∀ y ∈ front, keep y.element = true → x.sortNs < y.sortNs →
      ∀ z ∈ front, z.arrivalNs < y.sortNs + reorderNs

theorem timely_iff_noneLate {keep : Element K V → Bool} {reorderNs : ℤ}
    {items : List (Triple K V)} (harrives : ∀ x ∈ items, 0 ≤ x.arrivalNs) :
    Holdback.Timely Triple.sortNs Triple.arrivalNs (· - reorderNs) (keep ∘ Triple.element)
        emptyHeap items ↔
      NoneLate keep reorderNs items := by
  constructor
  · rintro htimely front x back rfl hx y hy hkept hlate z hz
    have hpast := htimely front x back rfl hx y hy hkept hlate
    have hmark : z.arrivalNs ≤ Holdback.latest Triple.arrivalNs 0 front := by
      obtain ⟨before, after, rfl⟩ := List.append_of_mem hz
      rw [Holdback.latest_append]
      exact (le_max_right _ _).trans (Holdback.le_latest _ after)
    change Holdback.latest Triple.arrivalNs 0 front - reorderNs < y.sortNs at hpast
    omega
  · rintro hnone front x back rfl hx y hy hkept hlate
    change Holdback.latest Triple.arrivalNs 0 front - reorderNs < y.sortNs
    rcases @Holdback.latest_cases _ _ _ Triple.arrivalNs 0 front with hzero | ⟨z, hz, hlast⟩
    · have hfirst := hnone front x back rfl hx y hy hkept hlate y hy
      have harrived := harrives y (List.mem_append_left _ hy)
      omega
    · have hlast' := hnone front x back rfl hx y hy hkept hlate z hz
      omega

/-- Of elements that sort by their own stamps, those that are kept leave in order of time exactly if
none of them comes late. -/
theorem reorder_chronological_iff {keep : Element K V → Bool} {reorderNs : ℤ}
    {items : Gen (Triple K V) ε Unit} (harrives : ∀ x ∈ items.items, 0 ≤ x.arrivalNs)
    (hstamped : ∀ x ∈ items.items, x.sortNs = x.element.tNs) :
    InTimeOrder ((reorder reorderNs items).items.filter keep) ↔
      NoneLate keep reorderNs items.items := by
  have hmono : Monotone fun w : ℤ => w - reorderNs := fun a b hab => Int.sub_le_sub_right hab _
  have hok : Holdback.Ok Triple.sortNs (· - reorderNs) (emptyHeap : Holdback (Triple K V) ℤ) :=
    ⟨List.Pairwise.nil, by simp [emptyHeap]⟩
  obtain ⟨hrelease, hfeed⟩ := @Holdback.release_chronological_iff _ _ _ Triple.sortNs
    Triple.arrivalNs (· - reorderNs) hmono emptyHeap hok (keep ∘ Triple.element) items.items
  have hperm := @Holdback.release_perm (Triple K V) ℤ _ Triple.sortNs Triple.arrivalNs
    (· - reorderNs) emptyHeap items.items
  -- the stamps of elements are in order if the triples are
  have hsame : ∀ l : List (Triple K V), (∀ x ∈ l, x ∈ items.items) →
      (InTimeOrder ((l.map Triple.element).filter keep) ↔
        Chronological Triple.sortNs (l.filter (keep ∘ Triple.element))) := by
    intro l hl
    rw [List.filter_map, InTimeOrder, List.pairwise_map]
    refine List.Pairwise.iff_of_mem fun {a b} ha hb => ?_
    rw [hstamped a (hl a (List.mem_filter.mp ha).1), hstamped b (hl b (List.mem_filter.mp hb).1)]
  have hin : ∀ x ∈ emptyHeap.release Triple.sortNs Triple.arrivalNs (· - reorderNs) items.items,
      x ∈ items.items := fun x hx => hperm.mem_iff.mp hx
  rw [← timely_iff_noneLate harrives]
  unfold reorder
  split
  next => exact (hsame _ hin).trans hrelease
  next => exact (hsame _ fun x hx => hin x (List.mem_append_left _ hx)).trans hfeed

end Reorder

end VisioSchema.Reader

import Mathlib.Data.Option.Basic
import VisioSchema.Reader.Splitting

/-!
# Decoders restart at keyframes

From a keyframe on, what a decoder yields depends on what it is fed from there on (`Restarts`).
Two runs over the access units of a camera therefore agree from the first keyframe on that both
are fed, whatever decoders they come with (`cameraRun_restarts`).

The relation between the two runs is `Alike`, at three levels: contexts of a codec, the decoders
that are kept for a camera, and cameras.  At each level a keyframe makes two states alike
(`emitVideo_restarts`, `cameraMessage_restarts`), and any access unit leaves states alike that
were and yields the same of both (`emitVideo_alike`, `cameraMessage_alike`).
-/

namespace VisioSchema.Reader

open VisioSchema.Library VisioSchema.Wire

variable {D Ctx Img V ε : Type*}

/-! ## Contexts -/

namespace PyAv

variable (av : PyAv Ctx Img)

/-- The context behind some access units. -/
def behind (ctx : Ctx) (units : List (List Byte)) : Ctx :=
  units.foldl (fun ctx accessUnit => (av.decode ctx accessUnit).2) ctx

/-- What comes out for some access units. -/
def outputs : Ctx → List (List Byte) → List (Option Img)
  | _, [] => []
  | ctx, accessUnit :: rest =>
      (av.decode ctx accessUnit).1 :: outputs (av.decode ctx accessUnit).2 rest

/-- After an access unit that `is_keyframe` accepts, a decoder's output depends only on the access
units from it on. -/
def Restarts : Prop :=
  ∀ (format : Text) (codec : Codec) (before rest : List (List Byte)) (key : List Byte),
    avCodec (lower format) = some codec → isKeyframe format key = some true →
      av.outputs (av.behind (av.create codec) before) (key :: rest) =
        av.outputs (av.create codec) (key :: rest)

/-- Contexts that yield the same of whatever follows. -/
def Alike (ctx ctx' : Ctx) : Prop := ∀ units, av.outputs ctx units = av.outputs ctx' units

variable {av}

theorem Alike.decode {ctx ctx' : Ctx} (halike : av.Alike ctx ctx') (accessUnit : List Byte) :
    (av.decode ctx accessUnit).1 = (av.decode ctx' accessUnit).1 ∧
      av.Alike (av.decode ctx accessUnit).2 (av.decode ctx' accessUnit).2 :=
  ⟨(List.cons.inj (halike [accessUnit])).1,
    fun rest => (List.cons.inj (halike (accessUnit :: rest))).2⟩

/-- Contexts of one codec are alike behind a keyframe. -/
theorem Restarts.decode (hrestarts : av.Restarts) {format : Text} {codec : Codec}
    {key : List Byte} (hcodec : avCodec (lower format) = some codec)
    (hkey : isKeyframe format key = some true) (before before' : List (List Byte)) :
    (av.decode (av.behind (av.create codec) before) key).1 =
        (av.decode (av.behind (av.create codec) before') key).1 ∧
      av.Alike (av.decode (av.behind (av.create codec) before) key).2
        (av.decode (av.behind (av.create codec) before') key).2 := by
  have hsame : ∀ rest, av.outputs (av.behind (av.create codec) before) (key :: rest) =
      av.outputs (av.behind (av.create codec) before') (key :: rest) := fun rest =>
    (hrestarts format codec before rest key hcodec hkey).trans
      (hrestarts format codec before' rest key hcodec hkey).symm
  exact ⟨(List.cons.inj (hsame [])).1, fun rest => (List.cons.inj (hsame rest)).2⟩

end PyAv

/-! ## Decoders -/

section Decoders

variable (av : PyAv Ctx Img)

/-- A decoder as `HevcDecoder` made it, and fed since. -/
def Decoding.Made (dec : Decoding Ctx) : Prop :=
  ∃ codec units, avCodec (lower dec.format) = some codec ∧
    dec.ctx = av.behind (av.create codec) units

/-- Decoders that are kept for the same access units, and yield the same of them. -/
structure Decoding.Alike (dec dec' : Decoding Ctx) : Prop where
  format : dec.format = dec'.format
  frameId : dec.frameId = dec'.frameId
  ctx : av.Alike dec.ctx dec'.ctx

variable {av} {video : Video} {decoder decoder' next : Option (Decoding Ctx)} {image : Option Img}

/-- What `emit` makes of an access unit that it does not wait at. -/
theorem emitVideo_cases
    (hemit : emitVideo av true video decoder = (.ok (image, next) : Except (ReadError ε) _)) :
    (image = none ∧ next = none ∧ keptDecoder video decoder = none ∧
        isKeyframe video.format video.data ≠ some true) ∨
      (∃ dec, keptDecoder video decoder = some dec ∧ image = (av.decode dec.ctx video.data).1 ∧
        next = some { dec with ctx := (av.decode dec.ctx video.data).2 }) ∨
      ∃ codec, keptDecoder video decoder = none ∧ avCodec (lower video.format) = some codec ∧
        image = (av.decode (av.create codec) video.data).1 ∧
        next = some ⟨video.format, video.frameId, (av.decode (av.create codec) video.data).2⟩ := by
  unfold emitVideo at hemit
  split at hemit
  next dec hkept =>
    cases hemit
    exact Or.inr (Or.inl ⟨dec, hkept, rfl, rfl⟩)
  next hkept =>
    split at hemit
    next hwaits =>
      cases hemit
      exact Or.inl ⟨rfl, rfl, hkept, hwaits.2.2⟩
    next =>
      unfold hevcDecoder at hemit
      cases hcodec : avCodec (lower video.format) with
      | none =>
          rw [hcodec] at hemit
          cases hemit
      | some codec =>
          rw [hcodec] at hemit
          cases hemit
          exact Or.inr (Or.inr ⟨codec, hkept, rfl, rfl, rfl⟩)

theorem keptDecoder_eq_some {dec : Decoding Ctx} :
    keptDecoder video decoder = some dec ↔
      decoder = some dec ∧ dec.format = video.format ∧ dec.frameId = video.frameId := by
  rw [keptDecoder, Option.filter_eq_some_iff, decide_eq_true_eq, Prod.mk.injEq]

/-- A decoder that is fed a keyframe yields what its codec makes of it. -/
theorem emitVideo_key
    (hmade : ∀ dec, decoder = some dec → dec.Made av)
    (hkey : isKeyframe video.format video.data = some true)
    (hemit : emitVideo av true video decoder = (.ok (image, next) : Except (ReadError ε) _)) :
    ∃ codec units, avCodec (lower video.format) = some codec ∧
      image = (av.decode (av.behind (av.create codec) units) video.data).1 ∧
      next = some ⟨video.format, video.frameId,
        (av.decode (av.behind (av.create codec) units) video.data).2⟩ := by
  rcases emitVideo_cases hemit with ⟨-, -, -, hwaits⟩ | ⟨dec, hkept, himage, hnext⟩ |
      ⟨codec, -, hcodec, himage, hnext⟩
  · exact absurd hkey hwaits
  · obtain ⟨hdecoder, hformat, hframeId⟩ := keptDecoder_eq_some.mp hkept
    obtain ⟨codec, units, hcodec, hctx⟩ := hmade dec hdecoder
    rw [hctx] at himage hnext
    rw [hformat] at hcodec hnext
    rw [hframeId] at hnext
    exact ⟨codec, units, hcodec, himage, hnext⟩
  · exact ⟨codec, [], hcodec, himage, hnext⟩

theorem Decoding.Made.emit (hmade : ∀ dec, decoder = some dec → dec.Made av)
    (hemit : emitVideo av true video decoder = (.ok (image, next) : Except (ReadError ε) _)) :
    ∀ dec, next = some dec → dec.Made av := by
  rcases emitVideo_cases hemit with ⟨-, rfl, -, -⟩ | ⟨dec, hkept, -, rfl⟩ |
      ⟨codec, -, hcodec, -, rfl⟩
  · rintro dec ⟨⟩
  · rintro _ ⟨⟩
    obtain ⟨codec, units, hcodec, hctx⟩ := hmade dec (keptDecoder_eq_some.mp hkept).1
    refine ⟨codec, units ++ [video.data], hcodec, ?_⟩
    rw [PyAv.behind, List.foldl_append, hctx]
    rfl
  · rintro _ ⟨⟩
    exact ⟨codec, [video.data], hcodec, rfl⟩

variable {image' : Option Img} {next' : Option (Decoding Ctx)}

/-- Any two decoders yield the same of a keyframe, and are alike behind it. -/
theorem emitVideo_restarts (hrestarts : av.Restarts)
    (hmade : ∀ dec, decoder = some dec → dec.Made av)
    (hmade' : ∀ dec, decoder' = some dec → dec.Made av)
    (hkey : isKeyframe video.format video.data = some true)
    (hemit : emitVideo av true video decoder = (.ok (image, next) : Except (ReadError ε) _))
    (hemit' : emitVideo av true video decoder' = (.ok (image', next') : Except (ReadError ε) _)) :
    image = image' ∧ Option.Rel (Decoding.Alike av) next next' := by
  obtain ⟨codec, units, hcodec, rfl, rfl⟩ := emitVideo_key hmade hkey hemit
  obtain ⟨codec', units', hcodec', rfl, rfl⟩ := emitVideo_key hmade' hkey hemit'
  obtain rfl : codec = codec' := Option.some.inj (hcodec.symm.trans hcodec')
  obtain ⟨hsame, halike⟩ := hrestarts.decode hcodec hkey units units'
  exact ⟨hsame, .some ⟨rfl, rfl, halike⟩⟩

theorem keptDecoder_alike (halike : Option.Rel (Decoding.Alike av) decoder decoder') :
    Option.Rel (Decoding.Alike av) (keptDecoder video decoder) (keptDecoder video decoder') := by
  cases halike with
  | none => exact .none
  | @some dec dec' hsame =>
      have hboth : ((dec.format, dec.frameId) = (video.format, video.frameId)) =
          ((dec'.format, dec'.frameId) = (video.format, video.frameId)) := by
        rw [hsame.format, hsame.frameId]
      simp only [keptDecoder, Option.filter_some, hboth]
      split
      · exact .some hsame
      · exact .none

/-- Decoders that are alike yield the same, and stay alike. -/
theorem emitVideo_alike (halike : Option.Rel (Decoding.Alike av) decoder decoder')
    (hemit : emitVideo av true video decoder = (.ok (image, next) : Except (ReadError ε) _))
    (hemit' : emitVideo av true video decoder' = (.ok (image', next') : Except (ReadError ε) _)) :
    image = image' ∧ Option.Rel (Decoding.Alike av) next next' := by
  have hkept := @keptDecoder_alike _ _ av video _ _ halike
  generalize hfirst : keptDecoder video decoder = kept at hkept
  generalize hsecond : keptDecoder video decoder' = kept' at hkept
  cases hkept with
  | none =>
      -- both wait, or are made anew
      have hsame : emitVideo av true video decoder =
          (emitVideo av true video decoder' : Except (ReadError ε) _) := by
        unfold emitVideo
        rw [hfirst, hsecond]
      rw [hsame, hemit'] at hemit
      cases hemit
      refine ⟨rfl, ?_⟩
      cases next with
      | none => exact .none
      | some dec => exact .some ⟨rfl, rfl, fun _ => rfl⟩
  | some hsame =>
      unfold emitVideo at hemit hemit'
      rw [hfirst] at hemit
      rw [hsecond] at hemit'
      cases hemit
      cases hemit'
      obtain ⟨himage, hctx⟩ := hsame.ctx.decode video.data
      exact ⟨himage, .some ⟨hsame.format, hsame.frameId, hctx⟩⟩

end Decoders

/-! ## Cameras -/

/-- The decoder of a camera is one that was made for it. -/
def Camera.Made (av : PyAv Ctx Img) (camera : Camera Ctx) : Prop :=
  ∀ dec, camera.decoder = some dec → dec.Made av

/-- Cameras that yield the same of whatever follows. -/
structure Camera.Alike (av : PyAv Ctx Img) (camera camera' : Camera Ctx) : Prop where
  sequence : camera.sequence = camera'.sequence
  decoder : Option.Rel (Decoding.Alike av) camera.decoder camera'.decoder

theorem Camera.made_empty (av : PyAv Ctx Img) : ({} : Camera Ctx).Made av := by
  rintro dec ⟨⟩

namespace Session

variable {backend : Backend D Ctx Img V ε} {topic : Topic}

/-- An access unit that is a keyframe. -/
def IsKeyUnit (backend : Backend D Ctx Img V ε) (m : Message D) : Prop :=
  ∃ video, backend.parseVideo m.data = .ok video ∧
    isKeyframe video.format video.data = some true

/-- The decoder that an access unit finds. -/
def foundDecoder (camera : Camera Ctx) (m : Message D) : Option (Decoding Ctx) :=
  if sequenceGap camera.sequence m.sequence then none else camera.decoder

/-- What an access unit does to its camera. -/
theorem cameraMessage_returns {camera next : Camera Ctx} {m : Message D}
    (hreturns : (cameraMessage backend topic camera m).Returns next) :
    ∃ video image decoder, backend.parseVideo m.data = .ok video ∧
      emitVideo backend.av true video (foundDecoder camera m) =
        (.ok (image, decoder) : Except (ReadError ε) _) ∧
      next = ⟨decoder, some m.sequence⟩ ∧
      (cameraMessage backend topic camera m).items = image.toList.map fun image =>
        ⟨m.logTime, m.logTime, ⟨topic, m.logTime, .frame image video.frameId⟩⟩ := by
  unfold cameraMessage decodeUnit at hreturns ⊢
  cases hparse : backend.parseVideo m.data with
  | error e =>
      rw [hparse] at hreturns
      cases hreturns
  | ok video =>
      rw [hparse] at hreturns
      simp only [Bool.true_and] at hreturns ⊢
      cases hemit : emitVideo backend.av true video
          (if sequenceGap camera.sequence m.sequence then none else camera.decoder) with
      | error e =>
          rw [hemit] at hreturns
          cases hreturns
      | ok emitted =>
          obtain ⟨image, decoder⟩ := emitted
          rw [hemit] at hreturns
          cases hreturns
          exact ⟨video, image, decoder, rfl, hemit, rfl, rfl⟩

theorem foundDecoder_made {camera : Camera Ctx} (hmade : camera.Made backend.av) (m : Message D) :
    ∀ dec, foundDecoder camera m = some dec → dec.Made backend.av := by
  intro dec hdec
  unfold foundDecoder at hdec
  split at hdec
  next => cases hdec
  next => exact hmade dec hdec

theorem cameraMessage_made {camera next : Camera Ctx} {m : Message D}
    (hmade : camera.Made backend.av)
    (hreturns : (cameraMessage backend topic camera m).Returns next) : next.Made backend.av := by
  obtain ⟨video, image, decoder, -, hemit, rfl, -⟩ := cameraMessage_returns hreturns
  exact Decoding.Made.emit (foundDecoder_made hmade m) hemit

variable {camera camera' next next' : Camera Ctx} {m : Message D}

/-- Cameras agree behind a keyframe. -/
theorem cameraMessage_restarts (hrestarts : backend.av.Restarts) (hmade : camera.Made backend.av)
    (hmade' : camera'.Made backend.av) (hkey : IsKeyUnit backend m)
    (hreturns : (cameraMessage backend topic camera m).Returns next)
    (hreturns' : (cameraMessage backend topic camera' m).Returns next') :
    (cameraMessage backend topic camera m).items = (cameraMessage backend topic camera' m).items ∧
      next.Alike backend.av next' := by
  obtain ⟨video, image, decoder, hparse, hemit, rfl, hitems⟩ := cameraMessage_returns hreturns
  obtain ⟨video', image', decoder', hparse', hemit', rfl, hitems'⟩ :=
    cameraMessage_returns hreturns'
  obtain rfl : video = video' := Except.ok.inj (hparse.symm.trans hparse')
  obtain ⟨keyVideo, hkeyParse, hkeyframe⟩ := hkey
  obtain rfl : video = keyVideo := Except.ok.inj (hparse.symm.trans hkeyParse)
  obtain ⟨rfl, halike⟩ := emitVideo_restarts hrestarts (foundDecoder_made hmade m)
    (foundDecoder_made hmade' m) hkeyframe hemit hemit'
  exact ⟨hitems.trans hitems'.symm, rfl, halike⟩

/-- Cameras that agree go on to agree. -/
theorem cameraMessage_alike (halike : camera.Alike backend.av camera')
    (hreturns : (cameraMessage backend topic camera m).Returns next)
    (hreturns' : (cameraMessage backend topic camera' m).Returns next') :
    (cameraMessage backend topic camera m).items = (cameraMessage backend topic camera' m).items ∧
      next.Alike backend.av next' := by
  obtain ⟨video, image, decoder, hparse, hemit, rfl, hitems⟩ := cameraMessage_returns hreturns
  obtain ⟨video', image', decoder', hparse', hemit', rfl, hitems'⟩ :=
    cameraMessage_returns hreturns'
  obtain rfl : video = video' := Except.ok.inj (hparse.symm.trans hparse')
  have hfound : Option.Rel (Decoding.Alike backend.av) (foundDecoder camera m)
      (foundDecoder camera' m) := by
    unfold foundDecoder
    rw [halike.sequence]
    split
    next => exact .none
    next => exact halike.decoder
  obtain ⟨rfl, hnext⟩ := emitVideo_alike hfound hemit hemit'
  exact ⟨hitems.trans hitems'.symm, rfl, hnext⟩

/-! ## Runs -/

variable {messages front front' back : List (Message D)}

theorem cameraRun_cons (camera : Camera Ctx) (m : Message D) (rest : List (Message D)) :
    cameraRun backend topic camera (m :: rest) =
      (cameraMessage backend topic camera m).andThen fun camera =>
        cameraRun backend topic camera rest := rfl

theorem cameraRun_append (camera : Camera Ctx) (front back : List (Message D)) :
    cameraRun backend topic camera (front ++ back) =
      (cameraRun backend topic camera front).andThen fun camera =>
        cameraRun backend topic camera back := Gen.each_append ..

theorem cameraRun_made (hmade : camera.Made backend.av)
    (hreturns : (cameraRun backend topic camera messages).Returns next) :
    next.Made backend.av := by
  induction messages generalizing camera with
  | nil =>
      obtain rfl : camera = next := Except.ok.inj hreturns
      exact hmade
  | cons m rest ih =>
      rw [cameraRun_cons] at hreturns
      obtain ⟨between, hfirst, hrest⟩ := Gen.returns_andThen.mp hreturns
      exact ih (cameraMessage_made hmade hfirst) hrest

theorem cameraRun_alike (halike : camera.Alike backend.av camera')
    (hreturns : (cameraRun backend topic camera messages).Returns next)
    (hreturns' : (cameraRun backend topic camera' messages).Returns next') :
    (cameraRun backend topic camera messages).items =
      (cameraRun backend topic camera' messages).items := by
  induction messages generalizing camera camera' with
  | nil => rfl
  | cons m rest ih =>
      rw [cameraRun_cons] at hreturns hreturns'
      obtain ⟨between, hfirst, hrest⟩ := Gen.returns_andThen.mp hreturns
      obtain ⟨between', hfirst', hrest'⟩ := Gen.returns_andThen.mp hreturns'
      obtain ⟨hitems, hbetween⟩ := cameraMessage_alike halike hfirst hfirst'
      rw [cameraRun_cons, cameraRun_cons, hfirst.andThen_eq, hfirst'.andThen_eq, hitems,
        ih hbetween hrest hrest']

/-- What an access unit yields has its time. -/
theorem cameraMessage_times (camera : Camera Ctx) (m : Message D) :
    ∀ triple ∈ (cameraMessage backend topic camera m).items,
      triple.sortNs = m.logTime ∧ triple.element.tNs = m.logTime := by
  intro triple htriple
  unfold cameraMessage at htriple
  split at htriple
  next => cases htriple
  next hdecoded =>
    obtain ⟨image, frameId, rfl⟩ := decodeUnit_items hdecoded triple htriple
    exact ⟨rfl, rfl⟩

/-- The items of some times. -/
def timed {W : Type*} (inside : ℤ → Bool) (items : List (Triple Topic W)) :
    List (Triple Topic W) := items.filter fun triple => inside triple.element.tNs

variable {inside : ℤ → Bool}

theorem timed_append {W : Type*} (l r : List (Triple Topic W)) :
    timed inside (l ++ r) = timed inside l ++ timed inside r := List.filter_append ..

/-- What agrees at the times of a window item by item agrees there as a whole. -/
theorem timed_flatMap_congr {α W : Type*} {f g : α → List (Triple Topic W)} {l : List α}
    (hsame : ∀ a ∈ l, timed inside (f a) = timed inside (g a)) :
    timed inside (l.flatMap f) = timed inside (l.flatMap g) := by
  induction l with
  | nil => rfl
  | cons a l ih =>
      rw [List.flatMap_cons, List.flatMap_cons, timed_append, timed_append,
        hsame a (List.mem_cons_self ..), ih fun b hb => hsame b (List.mem_cons_of_mem a hb)]

theorem timed_cameraRun_outside (houtside : ∀ m ∈ messages, inside m.logTime = false) :
    timed inside (cameraRun backend topic camera messages).items = [] := by
  refine List.filter_eq_nil_iff.mpr (Gen.each_forall (fun camera m hm triple htriple => ?_) camera)
  rw [(cameraMessage_times camera m triple htriple).2, houtside m hm]
  decide

/-- Runs agree on the times that both read behind a keyframe. -/
theorem cameraRun_restarts (hrestarts : backend.av.Restarts) (hmade : camera.Made backend.av)
    (hmade' : camera'.Made backend.av) (hkey : IsKeyUnit backend m)
    (hfront : ∀ m ∈ front, inside m.logTime = false)
    (hfront' : ∀ m ∈ front', inside m.logTime = false)
    (hreturns : (cameraRun backend topic camera (front ++ m :: back)).Returns next)
    (hreturns' : (cameraRun backend topic camera' (front' ++ m :: back)).Returns next') :
    timed inside (cameraRun backend topic camera (front ++ m :: back)).items =
      timed inside (cameraRun backend topic camera' (front' ++ m :: back)).items := by
  rw [cameraRun_append] at hreturns hreturns' ⊢
  rw [cameraRun_append]
  obtain ⟨before, hbefore, hback⟩ := Gen.returns_andThen.mp hreturns
  obtain ⟨before', hbefore', hback'⟩ := Gen.returns_andThen.mp hreturns'
  rw [hbefore.andThen_eq, hbefore'.andThen_eq, timed_append, timed_append,
    timed_cameraRun_outside hfront, timed_cameraRun_outside hfront', List.nil_append,
    List.nil_append]
  rw [cameraRun_cons] at hback hback'
  obtain ⟨behind, hfirst, hrest⟩ := Gen.returns_andThen.mp hback
  obtain ⟨behind', hfirst', hrest'⟩ := Gen.returns_andThen.mp hback'
  obtain ⟨hitems, halike⟩ := cameraMessage_restarts hrestarts (cameraRun_made hmade hbefore)
    (cameraRun_made hmade' hbefore') hkey hfirst hfirst'
  rw [cameraRun_cons, cameraRun_cons, hfirst.andThen_eq, hfirst'.andThen_eq, hitems,
    cameraRun_alike halike hrest hrest']

end Session

end VisioSchema.Reader

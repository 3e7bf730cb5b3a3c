import Mathlib.Data.List.Perm.Subperm
import VisioSchema.Reader.Ordering
import VisioSchema.Reader.Restarts

/-!
# Sparse keyframes

`keyframe_stream`, on the CPU: every n-th keyframe of one camera, with nothing else decoded.  Its
frames are what decoders of their own make of the keyframes, counted across the files of the session
(`keyframeStream_exact`).  The whole stream, which decodes every access unit, yields each of them
too (`keyframeStream_subperm`).

A frame carries the exposure that the indexed track of its camera gives its stamp.  The track is
read in full when the first frame asks for it (`_exposure_at`), so that a fault in any `frame_info`
entry ends the pass at its first frame.

The pass is described part by part (`Samples`): what a part does depends on the counters that it
begins with, and not on the decoder, because every access unit that is decoded is a keyframe.  Two
parts in a row are one part (`Samples.andThen`), a loop is one part (`samples_each`), and so the
pass is one part over the access units of all files (`samples_files`).
-/

namespace VisioSchema.Reader

open VisioSchema.Library VisioSchema.Wire

variable {D Ctx Img V φ ε : Type*}

/-! ## Every n-th element -/

/-- Every n-th element of a list whose first element has the number `seen`. -/
def everyNth {α : Type*} (n : ℤ) (seen : ℕ) (l : List α) : List α :=
  ((l.zipIdx seen).filter fun p => (p.2 : ℤ) % n = 0).map Prod.fst

@[simp] theorem everyNth_nil {α : Type*} (n : ℤ) (seen : ℕ) : everyNth n seen ([] : List α) = [] :=
  rfl

theorem everyNth_singleton {α : Type*} (n : ℤ) (seen : ℕ) (a : α) :
    everyNth n seen [a] = if (seen : ℤ) % n = 0 then [a] else [] := by
  unfold everyNth
  rw [List.zipIdx_singleton, List.filter_singleton]
  by_cases htake : (seen : ℤ) % n = 0
  · simp [htake]
  · simp [htake]

/-- The numbers run on. -/
theorem everyNth_append {α : Type*} (n : ℤ) (seen : ℕ) (l r : List α) :
    everyNth n seen (l ++ r) = everyNth n seen l ++ everyNth n (seen + l.length) r := by
  unfold everyNth
  rw [List.zipIdx_append, List.filter_append, List.map_append]

theorem everyNth_sublist {α : Type*} (n : ℤ) (seen : ℕ) (l : List α) :
    (everyNth n seen l).Sublist l := by
  have hfst : (l.zipIdx seen).map Prod.fst = l := List.zipIdx_map_fst seen l
  calc (everyNth n seen l).Sublist ((l.zipIdx seen).map Prod.fst) :=
        List.filter_sublist.map Prod.fst
    _ = l := hfst

/-! ## The pass -/

/-- What `keyframe_stream` raises. -/
inductive SparseError (ε : Type*)
  | everyN (everyN : ℤ)
  | noVideoTopic (topic : Topic) (device : Option Text) (present : List Topic)
  | unlocatable (format : Text) (topic : Topic)
  | noKeyframe (aus : ℕ) (topic : Topic)
  | stream (error : StreamError ε)
  deriving DecidableEq, Repr

/-- A frame with the exposure that a track gives it. -/
def exposedFrame (track : ℤ → Option (FrameExposure φ)) (el : Element Topic (Value Img D V)) :
    ExposedElement D Img V φ :=
  { el with value := .frame el.value (track el.tNs) }

@[simp] theorem exposedFrame_tNs (track : ℤ → Option (FrameExposure φ))
    (el : Element Topic (Value Img D V)) : (exposedFrame track el).tNs = el.tNs := rfl

namespace Session

section Pass

variable (s : Session D) (backend : Backend D Ctx Img V ε) (exposing : Exposing D Img V φ ε)

/-- `_topics_of_schema`. -/
def topicsOfSchema (schema : Schema) : List Topic :=
  (((s.canonEntries.map Prod.fst).eraseDups).filter fun topic =>
    s.topicSchema topic = some schema).insertionSort fun a b => ¬b < a

/-- `_require_video_topic`. -/
def requireVideoTopic (topic : Topic) : Except (SparseError ε) Unit :=
  if topic ∈ s.topicsOfSchema .video then .ok ()
  else .error (.noVideoTopic topic s.device (s.topicsOfSchema .video))

/-- The counters of `_keyframe_frames`, and the decoder of the file. -/
structure Sparse (Ctx : Type*) where
  seen : ℕ := 0
  aus : ℕ := 0
  decoder : Option (Decoding Ctx) := none

/-- An access unit in the loops of `_iter_video_aus` and `_keyframe_frames`; `hook` is
`_exposure_at` of the camera. -/
def sparseUnit (hook : Except (StreamError ε) (ℤ → Option (FrameExposure φ))) (topic : Topic)
    (everyN : ℤ) (state : Sparse Ctx) (m : Message D) :
    Gen (ExposedElement D Img V φ) (SparseError ε) (Sparse Ctx) :=
  match backend.parseVideo m.data with
  | .error e => .raise (.stream (.read (.adapter e)))
  | .ok video =>
      match isKeyframe video.format video.data with
      | none => .raise (.unlocatable video.format topic)
      | some key =>
          if key = false then .done { state with aus := state.aus + 1 }
          else if (state.seen : ℤ) % everyN = 0 then
            match emitVideo backend.av false video state.decoder with
            | .error e => .raise (.stream (.read e))
            | .ok (none, decoder) =>
                .done { seen := state.seen + 1, aus := state.aus + 1, decoder := decoder }
            | .ok (some image, decoder) =>
                match hook with
                | .error e => .raise (.stream e)
                | .ok track =>
                    .yield [exposedFrame track ⟨topic, m.logTime, .frame image video.frameId⟩]
                      { seen := state.seen + 1, aus := state.aus + 1, decoder := decoder }
          else .done { state with seen := state.seen + 1, aus := state.aus + 1 }

/-- `_video_topic_in`. -/
def videoTopicIn (index : FileIndex) (canon : Topic) : Option Topic :=
  (index.topics.find? fun entry =>
    entry.schema = some .video && stripDevice s.device entry.topic = some canon).map
    TopicEntry.topic

/-- `_read_messages`, of a topic in a window. -/
def readWindow (file : File D) (topic : Topic) (startNs endNs : Option ℤ) : List (Message D) :=
  file.messages.filter fun m => m.topic = topic && inWindow startNs endNs m.logTime

/-- A file that `_video_files` yields is read with a decoder of its own; the counters run on. -/
def sparseFile (hook : Except (StreamError ε) (ℤ → Option (FrameExposure φ))) (topic : Topic)
    (everyN : ℤ) (startNs endNs : Option ℤ) (state : Sparse Ctx) (file : File D) :
    Gen (ExposedElement D Img V φ) (SparseError ε) (Sparse Ctx) :=
  match s.videoTopicIn file.index topic with
  | none => .done state
  | some name =>
      if spansWindow file.index startNs endNs = false then .done state
      else
        Gen.each (sparseUnit backend hook topic everyN) { state with decoder := none }
          (readWindow file name startNs endNs)

/-- `keyframe_stream`, on the CPU. -/
def keyframeStream (topic : Topic) (everyN : ℤ) (startNs endNs : Option ℤ) :
    Gen (ExposedElement D Img V φ) (SparseError ε) Unit :=
  if everyN < 1 then .raise (.everyN everyN)
  else
    match s.requireVideoTopic topic with
    | .error e => .raise e
    | .ok () =>
        (Gen.each (s.sparseFile backend (s.exposureAt exposing topic) topic everyN startNs endNs) {}
            s.files).andThen fun state =>
          if state.aus ≠ 0 ∧ state.seen = 0 then .raise (.noKeyframe state.aus topic) else .done ()

end Pass

/-! ## Access units -/

section Units

variable (backend : Backend D Ctx Img V ε)

/-- `is_keyframe` of a message, if it is an access unit of a format that is parsed. -/
def keyOf (m : Message D) : Option Bool :=
  match backend.parseVideo m.data with
  | .error _ => none
  | .ok video => isKeyframe video.format video.data

/-- The frame that a decoder of its own makes of a keyframe. -/
def keyPicture (topic : Topic) (m : Message D) : List (Element Topic (Value Img D V)) :=
  match backend.parseVideo m.data with
  | .error _ => []
  | .ok video =>
      match avCodec (lower video.format) with
      | none => []
      | some codec =>
          (backend.av.decode (backend.av.create codec) video.data).1.toList.map fun image =>
            ⟨topic, m.logTime, .frame image video.frameId⟩

/-- The same with its exposure. -/
def exposedPicture (track : ℤ → Option (FrameExposure φ)) (topic : Topic) (m : Message D) :
    List (ExposedElement D Img V φ) :=
  (keyPicture backend topic m).map (exposedFrame track)

/-- The access units of a camera in a window, of one file. -/
def fileUnits (s : Session D) (topic : Topic) (startNs endNs : Option ℤ) (file : File D) :
    List (Message D) :=
  match s.videoTopicIn file.index topic with
  | none => []
  | some name => readWindow file name startNs endNs

/-- The access units of a camera in a window, file after file. -/
def windowUnits (s : Session D) (topic : Topic) (startNs endNs : Option ℤ) : List (Message D) :=
  s.files.flatMap (s.fileUnits topic startNs endNs)

end Units

section Decoders

variable {backend : Backend D Ctx Img V ε} {video : Video} {decoder next : Option (Decoding Ctx)}
  {image : Option Img} {carry : Bool}

/-- A format whose keyframes are told has a codec. -/
theorem avCodec_of_isKeyframe {format : Text} {accessUnit : List Byte} {key : Bool}
    (hkey : isKeyframe format accessUnit = some key) :
    ∃ codec, avCodec (lower format) = some codec := by
  cases hcodec : avCodec (lower format) with
  | some codec => exact ⟨codec, rfl⟩
  | none =>
      unfold isKeyframe at hkey
      rw [hcodec] at hkey
      cases hkey

/-- At a keyframe a decoder that is made anew does not wait, carried or not. -/
theorem emitVideo_key_carry (hkey : isKeyframe video.format video.data = some true) :
    (emitVideo backend.av carry video decoder : Except (ReadError ε) _) =
      emitVideo backend.av true video decoder := by
  cases carry with
  | true => rfl
  | false =>
      unfold emitVideo
      have hwaits : ¬(true = true ∧ keyframeFormat (lower video.format) = true ∧
          isKeyframe video.format video.data ≠ some true) := fun hwaits => hwaits.2.2 hkey
      have hwaits' : ¬(false = true ∧ keyframeFormat (lower video.format) = true ∧
          isKeyframe video.format video.data ≠ some true) := fun hwaits => hwaits.2.2 hkey
      rw [if_neg hwaits, if_neg hwaits']

theorem emitVideo_made (hmade : ∀ dec, decoder = some dec → dec.Made backend.av)
    (hemit : emitVideo backend.av carry video decoder =
      (.ok (image, next) : Except (ReadError ε) _)) :
    ∀ dec, next = some dec → dec.Made backend.av := by
  cases carry with
  | true => exact Decoding.Made.emit hmade hemit
  | false =>
      cases hkept : keptDecoder video decoder with
      | some dec =>
          have hsame : emitVideo backend.av true video decoder =
              (.ok (image, next) : Except (ReadError ε) _) := by
            rw [← hemit]
            unfold emitVideo
            simp only [hkept]
          exact Decoding.Made.emit hmade hsame
      | none =>
          unfold emitVideo hevcDecoder at hemit
          simp only [hkept, Bool.false_eq_true, false_and, if_false] at hemit
          cases hcodec : avCodec (lower video.format) with
          | none =>
              rw [hcodec] at hemit
              cases hemit
          | some codec =>
              rw [hcodec] at hemit
              cases hemit
              rintro _ ⟨⟩
              exact ⟨codec, [video.data], hcodec, rfl⟩

/-- Of a keyframe every decoder yields what one of its own would. -/
theorem emitVideo_fresh (hrestarts : backend.av.Restarts)
    (hmade : ∀ dec, decoder = some dec → dec.Made backend.av)
    (hkey : isKeyframe video.format video.data = some true)
    (hemit : emitVideo backend.av carry video decoder =
      (.ok (image, next) : Except (ReadError ε) _)) :
    ∃ codec, avCodec (lower video.format) = some codec ∧
      image = (backend.av.decode (backend.av.create codec) video.data).1 := by
  rw [emitVideo_key_carry hkey] at hemit
  obtain ⟨codec, units, hcodec, rfl, -⟩ := emitVideo_key hmade hkey hemit
  exact ⟨codec, hcodec, (hrestarts.decode hcodec hkey units []).1⟩

/-- A keyframe is decoded, whatever the decoder. -/
theorem emitVideo_key_ok (hkey : isKeyframe video.format video.data = some true) :
    ∃ image next, emitVideo backend.av carry video decoder =
      (.ok (image, next) : Except (ReadError ε) _) := by
  obtain ⟨codec, hcodec⟩ := avCodec_of_isKeyframe hkey
  rw [emitVideo_key_carry hkey]
  unfold emitVideo
  cases hkept : keptDecoder video decoder with
  | some dec => exact ⟨_, _, rfl⟩
  | none =>
      unfold hevcDecoder
      simp only [hcodec, hkey, ne_eq, not_true_eq_false, and_false, if_false]
      exact ⟨_, _, rfl⟩

end Decoders

/-! ## The sampled run -/

section Run

variable {s : Session D} {backend : Backend D Ctx Img V ε} {topic : Topic} {everyN : ℤ}
  {track : ℤ → Option (FrameExposure φ)}

/-- The keyframes in front of the first message that is no access unit of a known format. -/
def readableKeys (backend : Backend D Ctx Img V ε) (units : List (Message D)) : List (Message D) :=
  (units.takeWhile fun m => (keyOf backend m).isSome).filter fun m => keyOf backend m = some true

/-- What a part of the pass does that begins at the counters `seen` and `aus`: the pictures of its
n-th keyframes, and the counters behind it, unless an access unit of it cannot be classified. -/
structure Samples (backend : Backend D Ctx Img V ε) (track : ℤ → Option (FrameExposure φ))
    (topic : Topic) (everyN : ℤ) (seen aus : ℕ) (units : List (Message D))
    (g : Gen (ExposedElement D Img V φ) (SparseError ε) (Sparse Ctx)) : Prop where
  items : g.items =
    (everyNth everyN seen (readableKeys backend units)).flatMap (exposedPicture backend track topic)
  returns : (∀ m ∈ units, (keyOf backend m).isSome) → ∃ decoder : Option (Decoding Ctx),
    (∀ dec, decoder = some dec → dec.Made backend.av) ∧
      g.Returns ⟨seen + (readableKeys backend units).length, aus + units.length, decoder⟩
  raises : (∃ m ∈ units, keyOf backend m = none) → ∃ e, g.result = .error e

theorem exists_unclassified {units : List (Message D)}
    (hunits : ¬∀ m ∈ units, (keyOf backend m).isSome) : ∃ m ∈ units, keyOf backend m = none := by
  push Not at hunits
  obtain ⟨m, hm, hsome⟩ := hunits
  exact ⟨m, hm, by simpa using hsome⟩

theorem readableKeys_append {front back : List (Message D)}
    (hfront : ∀ m ∈ front, (keyOf backend m).isSome) :
    readableKeys backend (front ++ back) =
      readableKeys backend front ++ readableKeys backend back := by
  have hall : front.takeWhile (fun m => (keyOf backend m).isSome) = front :=
    List.takeWhile_eq_self_iff.mpr hfront
  unfold readableKeys
  rw [List.takeWhile_append_of_pos hfront, List.filter_append, hall]

/-- Nothing is read behind an access unit that cannot be classified. -/
theorem readableKeys_append_of_none {front back : List (Message D)}
    (hfront : ∃ m ∈ front, keyOf backend m = none) :
    readableKeys backend (front ++ back) = readableKeys backend front := by
  have hcut : (front ++ back).takeWhile (fun m => (keyOf backend m).isSome) =
      front.takeWhile fun m => (keyOf backend m).isSome := by
    rw [List.takeWhile_append, if_neg]
    intro hlength
    have hall := List.takeWhile_eq_self_iff.mp
      ((List.takeWhile_prefix _).eq_of_length hlength)
    obtain ⟨m, hm, hnone⟩ := hfront
    have hsome := hall m hm
    rw [hnone] at hsome
    cases hsome
  unfold readableKeys
  rw [hcut]

theorem samples_nil {state : Sparse Ctx}
    (hmade : ∀ dec, state.decoder = some dec → dec.Made backend.av) :
    Samples backend track topic everyN state.seen state.aus [] (.done state) where
  items := rfl
  returns := fun _ => ⟨state.decoder, hmade, rfl⟩
  raises := by
    rintro ⟨m, hm, -⟩
    cases hm

/-- Two parts of a pass. -/
theorem Samples.andThen {seen aus : ℕ} {front back : List (Message D)}
    {g : Gen (ExposedElement D Img V φ) (SparseError ε) (Sparse Ctx)}
    {next : Sparse Ctx → Gen (ExposedElement D Img V φ) (SparseError ε) (Sparse Ctx)}
    (hfirst : Samples backend track topic everyN seen aus front g)
    (hnext : ∀ state : Sparse Ctx, (∀ dec, state.decoder = some dec → dec.Made backend.av) →
      Samples backend track topic everyN state.seen state.aus back (next state)) :
    Samples backend track topic everyN seen aus (front ++ back) (g.andThen next) := by
  by_cases hfront : ∀ m ∈ front, (keyOf backend m).isSome
  · obtain ⟨decoder, hmade, hreturns⟩ := hfirst.returns hfront
    have hbehind := hnext
      ⟨seen + (readableKeys backend front).length, aus + front.length, decoder⟩ hmade
    rw [hreturns.andThen_eq]
    refine ⟨?_, fun hall => ?_, fun hnone => ?_⟩
    · calc g.items ++ (next _).items
          = (everyNth everyN seen (readableKeys backend front)).flatMap
                (exposedPicture backend track topic) ++
              (everyNth everyN (seen + (readableKeys backend front).length)
                (readableKeys backend back)).flatMap (exposedPicture backend track topic) := by
            rw [hfirst.items, hbehind.items]
        _ = _ := by rw [readableKeys_append hfront, everyNth_append, List.flatMap_append]
    · obtain ⟨last, hlast, hdone⟩ := hbehind.returns fun m hm =>
        hall m (List.mem_append_right _ hm)
      refine ⟨last, hlast, ?_⟩
      rw [readableKeys_append hfront, List.length_append, List.length_append, ← Nat.add_assoc,
        ← Nat.add_assoc]
      exact hdone
    · obtain ⟨m, hm, hnone⟩ := hnone
      rcases List.mem_append.mp hm with hm | hm
      · have hsome := hfront m hm
        rw [hnone] at hsome
        cases hsome
      · exact hbehind.raises ⟨m, hm, hnone⟩
  · have hnone := exists_unclassified hfront
    obtain ⟨e, he⟩ := hfirst.raises hnone
    rw [Gen.andThen_of_error he]
    refine ⟨?_, fun hall => ?_, fun _ => ⟨e, rfl⟩⟩
    · rw [readableKeys_append_of_none hnone]
      exact hfirst.items
    · exact absurd (fun m hm => hall m (List.mem_append_left _ hm)) hfront

/-- A loop over parts of a pass. -/
theorem samples_each {β : Type*}
    {round : Sparse Ctx → β →
      Gen (ExposedElement D Img V φ) (SparseError ε) (Sparse Ctx)}
    {unitsOf : β → List (Message D)} {l : List β}
    (hround : ∀ b ∈ l, ∀ state : Sparse Ctx,
      (∀ dec, state.decoder = some dec → dec.Made backend.av) →
        Samples backend track topic everyN state.seen state.aus (unitsOf b) (round state b))
    {state : Sparse Ctx} (hmade : ∀ dec, state.decoder = some dec → dec.Made backend.av) :
    Samples backend track topic everyN state.seen state.aus (l.flatMap unitsOf)
      (Gen.each round state l) := by
  induction l generalizing state with
  | nil => exact samples_nil hmade
  | cons b rest ih =>
      rw [Gen.each_cons, List.flatMap_cons]
      refine (hround b (List.mem_cons_self ..) state hmade).andThen fun next hnext => ?_
      exact ih (fun c hc => hround c (List.mem_cons_of_mem b hc)) hnext

/-- A turn of the loop counts an access unit, and decodes it if it is an n-th keyframe. -/
theorem samples_unit (hrestarts : backend.av.Restarts) {state : Sparse Ctx}
    (hmade : ∀ dec, state.decoder = some dec → dec.Made backend.av) (m : Message D) :
    Samples backend track topic everyN state.seen state.aus [m]
      (sparseUnit backend (.ok track) topic everyN state m) := by
  -- The branches of the loop: no access unit, one whose kind is not known, one between keyframes, a
  -- keyframe that is taken, and one that is not.
  cases hparse : backend.parseVideo m.data with
  | error e =>
      have hkey : keyOf backend m = none := by simp only [keyOf, hparse]
      have hunit : sparseUnit backend (.ok track) topic everyN state m =
          .raise (.stream (.read (.adapter e))) := by
        simp only [sparseUnit, hparse]
      rw [hunit]
      refine ⟨?_, fun hall => ?_, fun _ => ⟨_, rfl⟩⟩
      · simp [readableKeys, hkey]
      · have hsome := hall m (List.mem_singleton_self m)
        rw [hkey] at hsome
        cases hsome
  | ok video =>
      have hsame : keyOf backend m = isKeyframe video.format video.data := by
        simp only [keyOf, hparse]
      cases hkey : isKeyframe video.format video.data with
      | none =>
          rw [hkey] at hsame
          have hunit : sparseUnit backend (.ok track) topic everyN state m =
              .raise (.unlocatable video.format topic) := by
            simp only [sparseUnit, hparse, hkey]
          rw [hunit]
          refine ⟨?_, fun hall => ?_, fun _ => ⟨_, rfl⟩⟩
          · simp [readableKeys, hsame]
          · have hsome := hall m (List.mem_singleton_self m)
            rw [hsame] at hsome
            cases hsome
      | some key =>
          rw [hkey] at hsame
          have hnotNone : ¬∃ n ∈ [m], keyOf backend n = none := by
            rintro ⟨n, hn, hnone⟩
            rw [List.mem_singleton.mp hn, hsame] at hnone
            cases hnone
          cases key with
          | false =>
              have hunit : sparseUnit backend (.ok track) topic everyN state m =
                  .done { state with aus := state.aus + 1 } := by
                simp only [sparseUnit, hparse, hkey, if_true]
              have hkeys : readableKeys backend [m] = [] := by simp [readableKeys, hsame]
              rw [hunit]
              refine ⟨?_, fun _ => ⟨state.decoder, hmade, ?_⟩, fun hnone => absurd hnone hnotNone⟩
              · rw [hkeys]
                rfl
              · rw [hkeys]
                rfl
          | true =>
              have hkeys : readableKeys backend [m] = [m] := by simp [readableKeys, hsame]
              by_cases htake : (state.seen : ℤ) % everyN = 0
              · -- The decoder that is kept has been fed keyframes only, and yields what a fresh one
                -- would.
                obtain ⟨image, next, hemit⟩ :=
                  @emitVideo_key_ok _ _ _ _ ε backend video state.decoder false hkey
                obtain ⟨codec, hcodec, himage⟩ := emitVideo_fresh hrestarts hmade hkey hemit
                have hunit : sparseUnit backend (.ok track) topic everyN state m =
                    .yield (image.toList.map fun image => exposedFrame track
                        ⟨topic, m.logTime, .frame image video.frameId⟩)
                      { seen := state.seen + 1, aus := state.aus + 1, decoder := next } := by
                  cases image with
                  | none =>
                      simp only [sparseUnit, hparse, hkey, Bool.true_eq_false, if_false,
                        if_pos htake, hemit]
                      rfl
                  | some picture =>
                      simp only [sparseUnit, hparse, hkey, Bool.true_eq_false, if_false,
                        if_pos htake, hemit]
                      rfl
                have hpicture : exposedPicture backend track topic m =
                    image.toList.map fun image => exposedFrame track
                      ⟨topic, m.logTime, .frame image video.frameId⟩ := by
                  simp only [exposedPicture, keyPicture, hparse, hcodec, himage, List.map_map]
                  rfl
                rw [hunit]
                refine ⟨?_, fun _ => ⟨next, emitVideo_made hmade hemit, ?_⟩,
                  fun hnone => absurd hnone hnotNone⟩
                · rw [hkeys, everyNth_singleton, if_pos htake, List.flatMap_singleton, hpicture]
                  rfl
                · rw [hkeys]
                  rfl
              · -- a keyframe between two that are taken
                have hunit : sparseUnit backend (.ok track) topic everyN state m =
                    .done { state with seen := state.seen + 1, aus := state.aus + 1 } := by
                  simp only [sparseUnit, hparse, hkey, Bool.true_eq_false, if_false, if_neg htake]
                rw [hunit]
                refine ⟨?_, fun _ => ⟨state.decoder, hmade, ?_⟩,
                  fun hnone => absurd hnone hnotNone⟩
                · rw [hkeys, everyNth_singleton, if_neg htake]
                  rfl
                · rw [hkeys]
                  rfl

/-- A file that is pruned holds no access unit of the window. -/
theorem samples_file (hrestarts : backend.av.Restarts) {file : File D} {startNs endNs : Option ℤ}
    (hbounded : ∀ lo hi, file.index.startNs = some lo → file.index.endNs = some hi →
      ∀ m ∈ file.messages, lo ≤ m.logTime ∧ m.logTime ≤ hi)
    {state : Sparse Ctx} (hmade : ∀ dec, state.decoder = some dec → dec.Made backend.av) :
    Samples backend track topic everyN state.seen state.aus (s.fileUnits topic startNs endNs file)
      (s.sparseFile backend (.ok track) topic everyN startNs endNs state file) := by
  cases hname : s.videoTopicIn file.index topic with
  | none =>
      have hunits : s.fileUnits topic startNs endNs file = [] := by simp only [fileUnits, hname]
      have hfile : s.sparseFile backend (.ok track) topic everyN startNs endNs state file =
          .done state := by
        simp only [sparseFile, hname]
      rw [hunits, hfile]
      exact samples_nil hmade
  | some name =>
      have hunits : s.fileUnits topic startNs endNs file = readWindow file name startNs endNs := by
        simp only [fileUnits, hname]
      rw [hunits]
      cases hspans : spansWindow file.index startNs endNs with
      | false =>
          have hnothing : readWindow file name startNs endNs = [] := by
            refine List.filter_eq_nil_iff.mpr fun m hm => ?_
            rw [inWindow_outside hspans fun lo hi hlo hhi => hbounded lo hi hlo hhi m hm,
              Bool.and_false]
            exact Bool.false_ne_true
          have hfile : s.sparseFile backend (.ok track) topic everyN startNs endNs state file =
              .done state := by
            simp only [sparseFile, hname, hspans, if_true]
          rw [hnothing, hfile]
          exact samples_nil hmade
      | true =>
          have hfresh : ∀ dec, ({ state with decoder := none } : Sparse Ctx).decoder = some dec →
              dec.Made backend.av := by
            rintro dec ⟨⟩
          have hfile : s.sparseFile backend (.ok track) topic everyN startNs endNs state file =
              Gen.each (sparseUnit backend (.ok track) topic everyN) { state with decoder := none }
                (readWindow file name startNs endNs) := by
            simp only [sparseFile, hname, hspans, Bool.true_eq_false, if_false]
          have heach := @samples_each _ _ _ V _ ε backend topic everyN track _
            (sparseUnit backend (.ok track) topic everyN) (fun m => [m])
            (readWindow file name startNs endNs)
            (fun m _ state hmade => samples_unit hrestarts hmade m) _ hfresh
          rw [List.flatMap_singleton'] at heach
          rw [hfile]
          exact heach

/-- The files of the pass, one after the other. -/
theorem samples_files (hrestarts : backend.av.Restarts) {startNs endNs : Option ℤ}
    (hbounded : ∀ file ∈ s.files, ∀ lo hi, file.index.startNs = some lo →
      file.index.endNs = some hi → ∀ m ∈ file.messages, lo ≤ m.logTime ∧ m.logTime ≤ hi) :
    Samples backend track topic everyN 0 0 (s.windowUnits topic startNs endNs)
      (Gen.each (s.sparseFile backend (.ok track) topic everyN startNs endNs) {} s.files) := by
  refine @samples_each _ _ _ V _ ε backend topic everyN track _ _ _ s.files ?_ {} ?_
  · exact fun file hfile state hmade => samples_file hrestarts (hbounded file hfile) hmade
  · rintro dec ⟨⟩

/-- The end of the pass refuses access units without a keyframe. -/
theorem Samples.finish {units : List (Message D)}
    {g : Gen (ExposedElement D Img V φ) (SparseError ε) (Sparse Ctx)}
    (hsamples : Samples backend track topic everyN 0 0 units g) :
    ((g.andThen fun state => if state.aus ≠ 0 ∧ state.seen = 0 then
          .raise (.noKeyframe state.aus topic) else .done ()).Returns () ↔
        (∀ m ∈ units, (keyOf backend m).isSome) ∧
          (units ≠ [] → ∃ m ∈ units, keyOf backend m = some true)) ∧
      (g.andThen fun state => if state.aus ≠ 0 ∧ state.seen = 0 then
          .raise (.noKeyframe state.aus topic) else .done ()).items = g.items := by
  by_cases hall : ∀ m ∈ units, (keyOf backend m).isSome
  · obtain ⟨decoder, -, hreturns⟩ := hsamples.returns hall
    -- the counters tell whether there was a keyframe
    have hseen : (0 + (readableKeys backend units).length = 0) ↔
        ∀ m ∈ units, keyOf backend m ≠ some true := by
      have htake : units.takeWhile (fun m => (keyOf backend m).isSome) = units :=
        List.takeWhile_eq_self_iff.mpr hall
      rw [Nat.zero_add, List.length_eq_zero_iff, readableKeys, htake, List.filter_eq_nil_iff]
      simp only [decide_eq_true_eq, ne_eq]
    have haus : (0 + units.length ≠ 0) ↔ units ≠ [] := by
      rw [Nat.zero_add, ne_eq, List.length_eq_zero_iff]
    rw [hreturns.andThen_eq]
    dsimp only
    by_cases hnone : 0 + units.length ≠ 0 ∧ 0 + (readableKeys backend units).length = 0
    · rw [if_pos hnone]
      refine ⟨⟨fun hraised => ?_, fun hok => ?_⟩, List.append_nil _⟩
      · cases hraised
      · obtain ⟨m, hm, hkey⟩ := hok.2 (haus.mp hnone.1)
        exact absurd hkey (hseen.mp hnone.2 m hm)
    · rw [if_neg hnone]
      refine ⟨⟨fun _ => ⟨hall, fun hsome => ?_⟩, fun _ => rfl⟩, List.append_nil _⟩
      by_contra hnot
      push Not at hnot
      exact hnone ⟨haus.mpr hsome, hseen.mpr hnot⟩
  · obtain ⟨e, he⟩ := hsamples.raises (exists_unclassified hall)
    rw [Gen.andThen_of_error he]
    refine ⟨⟨fun hreturns => ?_, fun hok => absurd hok.1 hall⟩, rfl⟩
    cases hreturns

end Run

/-- A pass that is accepted runs over the files. -/
theorem keyframeStream_accepted {s : Session D} {backend : Backend D Ctx Img V ε}
    {exposing : Exposing D Img V φ ε} {topic : Topic} {everyN : ℤ} {startNs endNs : Option ℤ}
    (hpos : 1 ≤ everyN) (hin : topic ∈ s.topicsOfSchema .video) :
    s.keyframeStream backend exposing topic everyN startNs endNs =
      (Gen.each (s.sparseFile backend (s.exposureAt exposing topic) topic everyN startNs endNs) {}
          s.files).andThen fun state =>
        if state.aus ≠ 0 ∧ state.seen = 0 then .raise (.noKeyframe state.aus topic)
        else .done () := by
  have hrequire : (s.requireVideoTopic topic : Except (SparseError ε) Unit) = .ok () := if_pos hin
  simp only [keyframeStream, if_neg (show ¬everyN < 1 by omega), hrequire]

theorem keyframeStream_refused {s : Session D} {backend : Backend D Ctx Img V ε}
    {exposing : Exposing D Img V φ ε} {topic : Topic} {everyN : ℤ} {startNs endNs : Option ℤ}
    (hnot : ¬(1 ≤ everyN ∧ topic ∈ s.topicsOfSchema .video)) :
    ∃ e, s.keyframeStream backend exposing topic everyN startNs endNs = .raise e := by
  by_cases heveryN : everyN < 1
  · exact ⟨_, if_pos heveryN⟩
  · have habsent : topic ∉ s.topicsOfSchema .video := fun hin => hnot ⟨by omega, hin⟩
    have hrequire : (s.requireVideoTopic topic : Except (SparseError ε) Unit) =
        .error (.noVideoTopic topic s.device (s.topicsOfSchema .video)) := if_neg habsent
    refine ⟨.noVideoTopic topic s.device (s.topicsOfSchema .video), ?_⟩
    simp only [keyframeStream, if_neg heveryN, hrequire]

/-- Where the track cannot be read no access unit yields a frame. -/
theorem sparseUnit_untracked {backend : Backend D Ctx Img V ε} {lost : StreamError ε}
    {topic : Topic} {everyN : ℤ} (state : Sparse Ctx) (m : Message D) :
    (sparseUnit (φ := φ) backend (.error lost) topic everyN state m).items = [] := by
  unfold sparseUnit
  split
  · rfl
  · split
    · rfl
    · split
      · rfl
      · split
        · split <;> rfl
        · rfl

theorem keyframeStream_untracked {s : Session D} {backend : Backend D Ctx Img V ε}
    {exposing : Exposing D Img V φ ε} {topic : Topic} {everyN : ℤ} {startNs endNs : Option ℤ}
    {lost : StreamError ε} (hlost : s.exposureAt exposing topic = .error lost) :
    (s.keyframeStream backend exposing topic everyN startNs endNs).items = [] := by
  by_cases hok : 1 ≤ everyN ∧ topic ∈ s.topicsOfSchema .video
  · rw [keyframeStream_accepted hok.1 hok.2, hlost]
    refine List.eq_nil_iff_forall_not_mem.mpr ?_
    refine Gen.andThen_forall (Gen.each_forall (fun state file _ el hel => ?_) _)
      fun state _ el => ?_
    · -- a file yields what its access units yield
      unfold sparseFile at hel
      split at hel
      · cases hel
      · split at hel
        · cases hel
        · refine Gen.each_forall (P := fun _ => False) (fun unit m _ el hel => ?_) _ el hel
          rw [sparseUnit_untracked unit m] at hel
          cases hel
    · split <;> exact List.not_mem_nil
  · obtain ⟨e, he⟩ := @keyframeStream_refused _ _ _ _ _ _ s backend exposing topic everyN startNs
      endNs hok
    rw [he]
    rfl

end Session

/-- `keyframe_stream` yields the pictures that decoders of their own make of every n-th keyframe of
the window, counted across files, each with the exposure that its camera's track gives it.  It
returns exactly for a positive n and a camera of the session whose access units can all be
classified and hold a keyframe, if there are any; otherwise it yields the pictures in front of the
first unit that it cannot classify.  Where the track cannot be read it yields nothing. -/
theorem keyframeStream_exact (s : Session D) (backend : Backend D Ctx Img V ε)
    (exposing : Exposing D Img V φ ε) (hrestarts : backend.av.Restarts) (topic : Topic)
    (everyN : ℤ) (startNs endNs : Option ℤ)
    (hbounded : ∀ file ∈ s.files, ∀ lo hi, file.index.startNs = some lo →
      file.index.endNs = some hi → ∀ m ∈ file.messages, lo ≤ m.logTime ∧ m.logTime ≤ hi) :
    (∀ track, s.exposureAt exposing topic = .ok track →
      ((s.keyframeStream backend exposing topic everyN startNs endNs).Returns () ↔
          1 ≤ everyN ∧ topic ∈ s.topicsOfSchema .video ∧
            (∀ m ∈ s.windowUnits topic startNs endNs, (Session.keyOf backend m).isSome) ∧
            (s.windowUnits topic startNs endNs ≠ [] →
              ∃ m ∈ s.windowUnits topic startNs endNs, Session.keyOf backend m = some true)) ∧
        (1 ≤ everyN → topic ∈ s.topicsOfSchema .video →
          (s.keyframeStream backend exposing topic everyN startNs endNs).items =
            (everyNth everyN 0 (Session.readableKeys backend
              (s.windowUnits topic startNs endNs))).flatMap
                (Session.exposedPicture backend track topic))) ∧
      ∀ lost, s.exposureAt exposing topic = .error lost →
        (s.keyframeStream backend exposing topic everyN startNs endNs).items = [] := by
  refine ⟨fun track htrack => ?_, fun lost hlost => Session.keyframeStream_untracked hlost⟩
  by_cases hok : 1 ≤ everyN ∧ topic ∈ s.topicsOfSchema .video
  · obtain ⟨hpos, hin⟩ := hok
    have hsamples := @Session.samples_files _ _ _ V _ ε s backend topic everyN track hrestarts
      startNs endNs hbounded
    obtain ⟨hreturns, hitems⟩ := hsamples.finish
    rw [Session.keyframeStream_accepted hpos hin, htrack]
    refine ⟨hreturns.trans ⟨fun hunits => ⟨hpos, hin, hunits⟩, fun hall => hall.2.2⟩, fun _ _ => ?_⟩
    exact hitems.trans hsamples.items
  · obtain ⟨e, he⟩ := @Session.keyframeStream_refused _ _ _ _ _ _ s backend exposing topic everyN
      startNs endNs hok
    rw [he]
    refine ⟨⟨fun hreturns => ?_, fun hall => absurd ⟨hall.1, hall.2.1⟩ hok⟩, fun hpos hin =>
      absurd ⟨hpos, hin⟩ hok⟩
    cases hreturns

theorem reachingChain_bounded : ∀ file ∈ reachingChain, ∀ lo hi, file.index.startNs = some lo →
    file.index.endNs = some hi → ∀ m ∈ file.messages, lo ≤ m.logTime ∧ m.logTime ≤ hi := by
  intro file hfile lo hi hlo hhi
  simp only [reachingChain, List.mem_cons, List.not_mem_nil, or_false] at hfile
  rcases hfile with rfl | rfl | rfl
  all_goals
    cases hlo
    cases hhi
    decide

theorem exposedChain_bounded : ∀ file ∈ exposedChain, ∀ lo hi, file.index.startNs = some lo →
    file.index.endNs = some hi → ∀ m ∈ file.messages, lo ≤ m.logTime ∧ m.logTime ≤ hi := by
  intro file hfile lo hi hlo hhi
  simp only [exposedChain, List.mem_cons, List.not_mem_nil, or_false] at hfile
  rcases hfile with rfl | rfl | rfl
  all_goals
    cases hlo
    cases hhi
    decide

/-- The track of the camera has the three entries of the first part. -/
theorem exposedChain_track :
    (openSession [exposedChain] .auto 0).exposureAt jpegExposing jpegTopic =
      .ok (Track.at? jpegExposing.floating
        [(0, ⟨1000, 0, (), 0, .unspecified⟩), (82, ⟨1000, 0, (), 0, .unspecified⟩),
          (100, ⟨1000, 0, (), 0, .unspecified⟩)]) := by
  have hcams : (openSession [exposedChain] .auto 0).exposureCams jpegExposing =
      .ok [jpegTopic] := by decide +kernel
  have htracks : ((openSession [exposedChain] .auto 0).exposureTracks jpegExposing).map
      (fun track => track jpegTopic) = .ok
        [(0, ⟨1000, 0, (), 0, .unspecified⟩), (82, ⟨1000, 0, (), 0, .unspecified⟩),
          (100, ⟨1000, 0, (), 0, .unspecified⟩)] := by
    decide +kernel
  have hknown : ¬jpegTopic ∉ [jpegTopic] := not_not.mpr (List.mem_singleton_self jpegTopic)
  simp only [Session.exposureAt, hcams, if_neg hknown]
  cases hresult : (openSession [exposedChain] .auto 0).exposureTracks jpegExposing with
  | error e =>
      rw [hresult] at htracks
      cases htracks
  | ok track =>
      rw [hresult] at htracks
      exact congrArg _ (congrArg _ (Except.ok.inj htracks))

/-- Every third picture of three parts: one of an entry's stamp, one between two entries. -/
theorem keyframeStream_exact_pictures :
    ((openSession [exposedChain] .auto 0).keyframeStream recordBackend jpegExposing jpegTopic 3 none
        none).items =
      [⟨jpegTopic, 0, .frame (.frame [7] []) (some ⟨1000, 0, (), 0, .unspecified, false⟩)⟩,
        ⟨jpegTopic, 95, .frame (.frame [7] []) (some ⟨1, 96, (), 0, .unspecified, true⟩)⟩] := by
  have hfiles : (openSession [exposedChain] .auto 0).files = exposedChain := by decide +kernel
  have hbounded := exposedChain_bounded
  rw [← hfiles] at hbounded
  have hexact := (keyframeStream_exact (openSession [exposedChain] .auto 0) recordBackend
    jpegExposing (fun _ _ _ _ _ _ _ => rfl) jpegTopic 3 none none hbounded).1 _ exposedChain_track
  rw [hexact.2 (by decide) (by decide +kernel)]
  decide +kernel

end VisioSchema.Reader

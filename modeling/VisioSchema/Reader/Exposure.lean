import VisioSchema.Library.Generators
import VisioSchema.Library.Timeline
import VisioSchema.Reader.Rows
import VisioSchema.Reader.Sync

/-!
# Exposures

A camera's `frame_info` entries say when its frames were exposed.  `_ExposureTrack.at` looks a frame
up in the entries of a whole recording.  `join_exposure` gives the frames of a stream their
exposures while the entries arrive in the same stream.
-/

namespace VisioSchema.Reader

open VisioSchema.Library

inductive ReadoutDirection
  | unspecified
  | topToBottom
  | bottomToTop
  deriving DecidableEq, Repr

/-- One frame's exposure timing. -/
structure FrameExposure (φ : Type*) where
  exposureNs : ℤ
  midNs : ℤ
  gain : φ
  lineDelayNs : ℤ
  readoutDirection : ReadoutDirection
  interpolated : Bool
  deriving DecidableEq, Repr

/-- `CameraFrameInfo`; an open enumeration is its number. -/
structure CameraFrameInfo (φ : Type*) where
  exposureUs : ℕ
  exposureMidOffsetUs : ℤ
  gain : φ
  lineDelayNs : ℕ
  readoutDirection : ℤ
  deriving DecidableEq, Repr

/-- What an element carries.  The message of a record is there if it is a `CameraFrameInfo`; `D` is
everything else of an element. -/
inductive Payload (Img D φ : Type*)
  | frame (image : Img) (exposure : Option (FrameExposure φ))
  | record (msg : Option (CameraFrameInfo φ)) (data : Option D)
  | other (data : D)
  deriving DecidableEq, Repr

/-- The arithmetic of floats that `_lerp_entry` rests on. -/
structure Floating (φ : Type*) where
  ofInt : ℤ → φ
  add : φ → φ → φ
  sub : φ → φ → φ
  mul : φ → φ → φ
  div : φ → φ → φ
  /-- `w >= 0.5`. -/
  atLeastHalf : φ → Bool
  /-- `round`. -/
  round : φ → ℤ

/-- `_ExposureEntry`. -/
structure ExposureEntry (φ : Type*) where
  exposureNs : ℤ
  midOffsetNs : ℤ
  gain : φ
  lineDelayNs : ℤ
  readoutDirection : ReadoutDirection
  deriving DecidableEq, Repr

/-- What `join_exposure` raises. -/
inductive ExposureError
  | zeroExposure (cam : Topic) (tNs : ℤ)
  | unknownDirection (cam : Topic) (tNs : ℤ) (direction : ℤ)
  | lineDelayWithoutDirection (cam : Topic) (tNs : ℤ) (lineDelayNs : ℕ)
  | notFrameInfo (cam : Topic) (tNs : ℤ)
  | duplicateTimestamp (cam : Topic)
  | leadingGap (cam : Topic)
  | interpolationGap (cam : Topic)
  | tailGap (cam : Topic)
  | unresolvedGap (cam : Topic) (tNs : ℤ)
  | pendingImageBytes
  deriving DecidableEq, Repr

variable {Img D φ : Type*}

/-- `ReadoutDirection(number)`. -/
def readoutDirectionOf (number : ℤ) : Option ReadoutDirection :=
  if number = 0 then some .unspecified
  else if number = 1 then some .topToBottom
  else if number = 2 then some .bottomToTop
  else none

/-- `_parse_frame_info`. -/
def parseFrameInfo (cam : Topic) (tNs : ℤ) (msg : Option (CameraFrameInfo φ)) :
    Except ExposureError (ExposureEntry φ) :=
  match msg with
  | none => .error (.notFrameInfo cam tNs)
  | some m =>
      if m.exposureUs = 0 then .error (.zeroExposure cam tNs)
      else
        match readoutDirectionOf m.readoutDirection with
        | none => .error (.unknownDirection cam tNs m.readoutDirection)
        | some direction =>
            if m.lineDelayNs ≠ 0 ∧ direction = .unspecified then
              .error (.lineDelayWithoutDirection cam tNs m.lineDelayNs)
            else .ok ⟨m.exposureUs * 1000, m.exposureMidOffsetUs * 1000, m.gain, m.lineDelayNs,
              direction⟩

/-- `_bind`. -/
def bindEntry (e : ExposureEntry φ) (tNs : ℤ) (interpolated : Bool) : FrameExposure φ where
  exposureNs := e.exposureNs
  midNs := tNs + e.midOffsetNs
  gain := e.gain
  lineDelayNs := e.lineDelayNs
  readoutDirection := e.readoutDirection
  interpolated := interpolated

namespace Floating

variable (flo : Floating φ)

/-- `a + (b - a) * w`, of floats. -/
def mix (a b w : φ) : φ := flo.add a (flo.mul (flo.sub b a) w)

/-- `round(a + (b - a) * w)`, of integers. -/
def mixRound (a b : ℤ) (w : φ) : ℤ :=
  flo.round (flo.add (flo.ofInt a) (flo.mul (flo.ofInt (b - a)) w))

/-- `_lerp_entry`. -/
def lerpEntry (lo hi : ExposureEntry φ) (w : φ) : ExposureEntry φ :=
  let near := if flo.atLeastHalf w then hi else lo
  { near with
    exposureNs := flo.mixRound lo.exposureNs hi.exposureNs w
    midOffsetNs := flo.mixRound lo.midOffsetNs hi.midOffsetNs w
    gain := flo.mix lo.gain hi.gain w }

/-- An entry between two, at a time between theirs. -/
def between (lo hi : ℤ × ExposureEntry φ) (tNs : ℤ) : FrameExposure φ :=
  bindEntry (flo.lerpEntry lo.2 hi.2 (flo.div (flo.ofInt (tNs - lo.1)) (flo.ofInt (hi.1 - lo.1))))
    tNs true

end Floating

/-- A camera's entries with their stamps. -/
abbrev Track (φ : Type*) := List (ℤ × ExposureEntry φ)

namespace Track

/-- The entries left of `bisect_left`. -/
def before (track : Track φ) (tNs : ℤ) : Track φ := track.takeWhile fun entry => entry.1 < tNs

/-- The entries from `bisect_left` on. -/
def behind (track : Track φ) (tNs : ℤ) : Track φ := track.dropWhile fun entry => entry.1 < tNs

/-- `_ExposureTrack.at`; a track without entries has no answer (`IndexError`). -/
def at? (flo : Floating φ) (track : Track φ) (tNs : ℤ) : Option (FrameExposure φ) :=
  match track.behind tNs, (track.before tNs).getLast? with
  | hi :: _, none => some (bindEntry hi.2 tNs (hi.1 ≠ tNs))
  | hi :: _, some lo =>
      if hi.1 = tNs then some (bindEntry hi.2 tNs false) else some (flo.between lo hi tNs)
  | [], some last => some (bindEntry last.2 tNs true)
  | [], none => none

end Track

/-! ## The join -/

def infoTopic (cam : Topic) : Topic := cam ++ frameInfoSuffix

/-- The arguments of `join_exposure`; `nbytes` is the size of an image. -/
structure JoinConfig (Img φ : Type*) where
  cameras : List Topic
  emitTopics : List Topic
  maxGapNs : ℤ
  maxFrameBytes : ℤ
  nbytes : Img → ℤ
  floating : Floating φ

/-- The exposures that were joined exactly, by camera and stamp. -/
abbrev Ready (φ : Type*) := Topic × ℤ → Option (FrameExposure φ)

/-- What `join_exposure` holds between two elements of its stream. -/
structure JoinState (Img D φ : Type*) where
  /-- The buffers of each camera's matcher. -/
  matchers : Topic → Buffers Topic (Payload Img D φ)
  entries : Topic → Track φ
  ready : Ready φ
  pending : List (Element Topic (Payload Img D φ))
  imageBytes : ℤ

/-- A camera's matcher. -/
def matcherConfig (cam : Topic) : SyncConfig Topic (Payload Img D φ) Unit where
  matchKeys := [cam, infoTopic cam]
  resample := []
  resample_nodup := List.nodup_nil
  tolNs := 0
  lagNs := 0
  onFuture := .hold
  staleNs := none
  window := 128
  passthrough := false
  emitPartial := true
  blend := fun _ _ _ => .ok none

namespace JoinConfig

variable (cfg : JoinConfig Img φ)

/-- `info_topics.get(topic)`. -/
def infoCamera (topic : Topic) : Option Topic :=
  cfg.cameras.find? fun cam => infoTopic cam = topic

/-- The element is a frame of one of the cameras. -/
def isCameraFrame (el : Element Topic (Payload Img D φ)) : Bool :=
  match el.value with
  | .frame _ _ => el.topic ∈ cfg.cameras
  | .record _ _ => false
  | .other _ => false

/-- `el.topic not in info_topics or el.topic in emit_topics`. -/
def emitted (el : Element Topic (Payload Img D φ)) : Bool :=
  (cfg.infoCamera el.topic).isNone || el.topic ∈ cfg.emitTopics

/-- The bytes that an element counts for while it is pending. -/
def imageBytesOf (el : Element Topic (Payload Img D φ)) : ℤ :=
  match el.value with
  | .frame image _ => cfg.nbytes image
  | .record _ _ => 0
  | .other _ => 0

/-- The lookup in a camera's entries so far; `none` where it is too early to say. -/
def lookup (track : Track φ) (cam : Topic) (tNs : ℤ) (final : Bool) :
    Except ExposureError (Option (FrameExposure φ)) :=
  match track.behind tNs, (track.before tNs).getLast? with
  | hi :: _, lo =>
      if hi.1 = tNs then .ok (some (bindEntry hi.2 tNs false))
      else
        match lo with
        | none =>
            if cfg.maxGapNs < hi.1 - tNs then .error (.leadingGap cam)
            else .ok (some (bindEntry hi.2 tNs (hi.1 ≠ tNs)))
        | some lo =>
            if cfg.maxGapNs < hi.1 - lo.1 then .error (.interpolationGap cam)
            else .ok (some (cfg.floating.between lo hi tNs))
  | [], some last =>
      if final then
        if cfg.maxGapNs < tNs - last.1 then .error (.tailGap cam)
        else .ok (some (bindEntry last.2 tNs true))
      else .ok none
  | [], none => .ok none

/-- `exposure`: what the matcher has joined, else the lookup. -/
def exposure (entries : Topic → Track φ) (ready : Ready φ)
    (cam : Topic) (tNs : ℤ) (final : Bool) :
    Except ExposureError (Option (FrameExposure φ) × Ready φ) :=
  match ready (cam, tNs) with
  | some joined => .ok (some joined, Function.update ready (cam, tNs) none)
  | none => (cfg.lookup (entries cam) cam tNs final).map fun found => (found, ready)

/-- The frame with its exposure. -/
def withExposure (exp : FrameExposure φ) (el : Element Topic (Payload Img D φ)) :
    Element Topic (Payload Img D φ) :=
  match el.value with
  | .frame image _ => { el with value := .frame image (some exp) }
  | .record _ _ => el
  | .other _ => el

/-- What `drain` leaves of `ready`, `pending` and `image_bytes`. -/
structure Drained (Img D φ : Type*) where
  ready : Ready φ
  pending : List (Element Topic (Payload Img D φ))
  imageBytes : ℤ

/-- The loop of `drain` over the pending elements. -/
def drainPending (entries : Topic → Track φ) (watermark : ℤ) (final : Bool)
    (ready : Ready φ) (imageBytes : ℤ) :
    List (Element Topic (Payload Img D φ)) →
      Gen (Element Topic (Payload Img D φ)) ExposureError (Drained Img D φ)
  | [] => .done ⟨ready, [], imageBytes⟩
  | el :: rest =>
      if cfg.isCameraFrame el then
        match cfg.exposure entries ready el.topic el.tNs final with
        | .error e => .raise e
        | .ok (none, ready) =>
            if final || cfg.maxGapNs < watermark - el.tNs then
              .raise (.unresolvedGap el.topic el.tNs)
            else .done ⟨ready, el :: rest, imageBytes⟩
        | .ok (some exp, ready) =>
            if exp.interpolated && !final && watermark ≤ el.tNs then
              -- another record at this exact timestamp may follow
              .done ⟨ready, el :: rest, imageBytes⟩
            else
              (Gen.yield [withExposure exp el] ()).andThen fun _ =>
                drainPending entries watermark final ready (imageBytes - cfg.imageBytesOf el) rest
      else
        (Gen.yield [el] ()).andThen fun _ =>
          drainPending entries watermark final ready (imageBytes - cfg.imageBytesOf el) rest

/-- Entries that no later frame can need. -/
def prune (frontier : ℤ) : Track φ → Track φ
  | first :: second :: third :: rest =>
      if second.1 < frontier then prune frontier (second :: third :: rest)
      else first :: second :: third :: rest
  | track => track

/-- `drain`. -/
def drain (s : JoinState Img D φ) (watermark : ℤ) (final : Bool) :
    Gen (Element Topic (Payload Img D φ)) ExposureError (JoinState Img D φ) :=
  (cfg.drainPending s.entries watermark final s.ready s.imageBytes s.pending).andThen fun drained =>
    let frontier :=
      match drained.pending with
      | first :: _ => first.tNs
      | [] => watermark
    .done { s with
      entries := fun cam => prune frontier (s.entries cam)
      ready := drained.ready
      pending := drained.pending
      imageBytes := drained.imageBytes }

/-- A record enters the track of its camera. -/
def insertEntry (track : Track φ) (cam : Topic) (tNs : ℤ) (msg : Option (CameraFrameInfo φ)) :
    Except ExposureError (Track φ) :=
  match track.behind tNs with
  | hi :: rest =>
      if hi.1 = tNs then .error (.duplicateTimestamp cam)
      else (parseFrameInfo cam tNs msg).map fun entry =>
        track.before tNs ++ (tNs, entry) :: hi :: rest
  | [] => (parseFrameInfo cam tNs msg).map fun entry => track.before tNs ++ [(tNs, entry)]

/-- The member of a key in a match set. -/
def memberAt (set : Matched Topic (Payload Img D φ)) (key : Topic) :
    Option (Element Topic (Payload Img D φ)) :=
  (set.byTopic.find? fun member => member.1 = key).map fun member => member.2.element

/-- What the matcher's outcomes make ready. -/
def markReady (cam : Topic) :
    List (Outcome Topic (Payload Img D φ)) → Ready φ → Except ExposureError (Ready φ)
  | [], ready => .ok ready
  | .dropped _ :: rest, ready => markReady cam rest ready
  | .matched set :: rest, ready =>
      match memberAt set cam, memberAt set (infoTopic cam) with
      | some frame, some record =>
          match record.value with
          | .record msg _ =>
              match parseFrameInfo cam record.tNs msg with
              | .error e => .error e
              | .ok entry =>
                  markReady cam rest (Function.update ready (cam, frame.tNs)
                    (some (bindEntry entry frame.tNs false)))
          | .frame _ _ => .error (.notFrameInfo cam record.tNs)
          | .other _ => .error (.notFrameInfo cam record.tNs)
      | _, _ => markReady cam rest ready

/-- The matcher is told of a frame or of a record. -/
def tell (s : JoinState Img D φ) (cam : Topic) (identity : Element Topic (Payload Img D φ)) :
    Except ExposureError (JoinState Img D φ) :=
  let (outcomes, bufs) := StreamMatcher.push (matcherConfig cam) (s.matchers cam) identity
  (markReady cam outcomes s.ready).map fun ready =>
    { s with matchers := Function.update s.matchers cam bufs, ready := ready }

/-- What an element does to the tracks and to the matchers. -/
def absorb (s : JoinState Img D φ) (el : Element Topic (Payload Img D φ)) :
    Except ExposureError (JoinState Img D φ) :=
  match cfg.infoCamera el.topic, el.value with
  | some cam, .record msg _ =>
      match insertEntry (s.entries cam) cam el.tNs msg with
      | .error e => .error e
      | .ok track => tell { s with entries := Function.update s.entries cam track } cam el
  | _, _ =>
      if cfg.isCameraFrame el then tell s el.topic { el with value := .record none none }
      else .ok s

/-- One round of the loop over the stream. -/
def round (s : JoinState Img D φ) (el : Element Topic (Payload Img D φ)) :
    Gen (Element Topic (Payload Img D φ)) ExposureError (JoinState Img D φ) :=
  match cfg.absorb s el with
  | .error e => .raise e
  | .ok s =>
      let s := if cfg.emitted el then
          { s with pending := s.pending ++ [el], imageBytes := s.imageBytes + cfg.imageBytesOf el }
        else s
      (cfg.drain s el.tNs false).andThen fun s =>
        if cfg.maxFrameBytes < s.imageBytes then .raise .pendingImageBytes else .done s

/-- The state before the first element. -/
def initial : JoinState Img D φ := ⟨fun _ _ => [], fun _ => [], fun _ => none, [], 0⟩

/-- `join_exposure`. -/
def joinExposure (stream : List (Element Topic (Payload Img D φ))) :
    Gen (Element Topic (Payload Img D φ)) ExposureError (JoinState Img D φ) :=
  (Gen.each cfg.round initial stream).andThen fun s =>
    cfg.drain s ((s.pending.getLast?.map Element.tNs).getD 0) true

end JoinConfig

end VisioSchema.Reader

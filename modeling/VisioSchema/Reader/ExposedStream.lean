import VisioSchema.Reader.Exposure
import VisioSchema.Reader.Session

/-!
# Streams with exposures

Where a selected camera has a `frame_info` topic, `stream` reads that topic too and puts
`join_exposure` behind the reordering.  What is read for the join moves the watermark of the
reordering like everything else, although it is yielded only if it was selected.  `Session.stream`
is the stream of a session without such a camera; `Session.streamElements` is the stream of every
session (`streamElements_unjoined`).

The join keeps the order of what comes in.  It holds elements back at the front of a queue, so that
what it has yielded is always a first part of the elements that it keeps, and all of them once it
has returned (`joinExposure_stamps`).  That is shown round by round: a round yields a first part of
what was pending, and the rest is still pending behind it (`drain_serves`, `round_serves`).
-/

namespace VisioSchema.Reader

open VisioSchema.Library

/-! ## What the join is told of an element -/

/-- What `stream` may raise. -/
inductive StreamError (ε : Type*)
  | read (error : ReadError ε)
  | exposure (error : ExposureError)
  /-- A `frame_info` topic of another device has no name to cut the suffix from (`TypeError`). -/
  | otherDevice (topic : Topic)
  deriving DecidableEq, Repr

/-- What an element of an adapter is: a `Frame`, a `Record`, whose message is there if it is a
`CameraFrameInfo`, or neither. -/
inductive Kind (φ : Type*)
  | frame
  | record (msg : Option (CameraFrameInfo φ))
  | other
  deriving DecidableEq, Repr

/-- What the exposures of a session rest on: `_frame_info_is_current`, which looks into the
descriptor that a file embeds, `CameraFrameInfo.FromString`, the elements of the adapters, the size
of an image, and floats. -/
structure Exposing (D Img V φ ε : Type*) where
  current : File D → Bool
  parse : D → Except ε (CameraFrameInfo φ)
  kind : V → Kind φ
  nbytes : Value Img D V → ℤ
  floating : Floating φ

/-- The elements of a stream with exposures; a frame keeps its value beside its exposure. -/
abbrev ExposedElement (D Img V φ : Type*) :=
  Element Topic (Payload (Value Img D V) (Value Img D V) φ)

variable {D Ctx Img V φ ε : Type*}

/-- The element as `join_exposure` sees it.  Frames come in without an exposure, and passed through
messages are records without a parsed message. -/
def Exposing.element (exposing : Exposing D Img V φ ε) (el : Element Topic (Value Img D V)) :
    ExposedElement D Img V φ where
  topic := el.topic
  tNs := el.tNs
  value :=
    match el.value with
    | .frame _ _ => .frame el.value none
    | .raw _ => .record none (some el.value)
    | .other value =>
        match exposing.kind value with
        | .frame => .frame el.value none
        | .record msg => .record msg (some el.value)
        | .other => .other el.value

@[simp] theorem Exposing.element_tNs (exposing : Exposing D Img V φ ε)
    (el : Element Topic (Value Img D V)) : (exposing.element el).tNs = el.tNs := rfl

@[simp] theorem Exposing.element_topic (exposing : Exposing D Img V φ ε)
    (el : Element Topic (Value Img D V)) : (exposing.element el).topic = el.topic := rfl

/-- `join_exposure` over a stream that may raise. -/
def JoinConfig.joinStream {I X : Type*} (cfg : JoinConfig I φ)
    (stream : Gen (Element Topic (Payload I X φ)) (ReadError ε) Unit) :
    Gen (Element Topic (Payload I X φ)) (StreamError ε) Unit :=
  match stream.result with
  | .ok () =>
      { items := (cfg.joinExposure stream.items).items
        result := ((cfg.joinExposure stream.items).result.mapError .exposure).map fun _ => () }
  | .error e =>
      -- what is pending is lost with the stream
      { items := (Gen.each cfg.round JoinConfig.initial stream.items).items
        result :=
          match (Gen.each cfg.round JoinConfig.initial stream.items).result with
          | .error lost => .error (.exposure lost)
          | .ok _ => .error (.read e) }

/-! ## The order behind the join -/

section Stamps

variable {I X : Type*} {cfg : JoinConfig I φ} {s s' : JoinState I X φ}

/-- The stamps of elements. -/
def stamps {K V : Type*} (els : List (Element K V)) : List ℤ := els.map Element.tNs

theorem stamps_append {K V : Type*} (els others : List (Element K V)) :
    stamps (els ++ others) = stamps els ++ stamps others := List.map_append

theorem withExposure_tNs (exp : FrameExposure φ) (el : Element Topic (Payload I X φ)) :
    (JoinConfig.withExposure exp el).tNs = el.tNs := by
  unfold JoinConfig.withExposure
  split <;> rfl

/-- The loop of `drain` serves what is pending. -/
theorem drainPending_serves {entries : Topic → Track φ} {watermark imageBytes : ℤ} {final : Bool}
    {ready : Ready φ} (pending : List (Element Topic (Payload I X φ))) :
    (cfg.drainPending entries watermark final ready imageBytes pending).Serves Element.tNs
      (stamps pending) fun drained => stamps drained.pending := by
  induction pending generalizing ready imageBytes with
  | nil => exact Gen.serves_done _ rfl
  | cons el rest ih =>
      have hgoes : ∀ (out : Element Topic (Payload I X φ)) (ready : Ready φ) (bytes : ℤ),
          out.tNs = el.tNs → ((Gen.yield [out] ()).andThen fun _ =>
            cfg.drainPending entries watermark final ready bytes rest).Serves Element.tNs
              (stamps (el :: rest)) fun drained => stamps drained.pending := by
        intro out ready bytes hout
        have hfirst : (Gen.yield [out] () : Gen _ ExposureError Unit).Serves Element.tNs [el.tNs]
            fun _ => [] := Gen.serves_yield _ _ (by rw [List.map_singleton, hout]; rfl)
        exact hfirst.andThen fun _ _ => ih
      unfold JoinConfig.drainPending
      split
      · split
        · exact Gen.serves_raise _
        · split
          · exact Gen.serves_raise _
          · exact Gen.serves_done _ rfl
        · split
          · exact Gen.serves_done _ rfl
          · exact hgoes _ _ _ (withExposure_tNs _ el)
      · exact hgoes _ _ _ rfl

/-- The last `drain` leaves nothing. -/
theorem drainPending_final {entries : Topic → Track φ} {watermark imageBytes : ℤ}
    {ready : Ready φ} {pending : List (Element Topic (Payload I X φ))}
    {drained : JoinConfig.Drained I X φ}
    (hreturns : (cfg.drainPending entries watermark true ready imageBytes pending).Returns
      drained) : drained.pending = [] := by
  induction pending generalizing ready imageBytes with
  | nil =>
      obtain rfl := Except.ok.inj hreturns
      rfl
  | cons el rest ih =>
      unfold JoinConfig.drainPending at hreturns
      simp only [Bool.true_or, Bool.not_true, Bool.and_false, Bool.false_and, if_true,
        Bool.false_eq_true, if_false] at hreturns
      split at hreturns
      · split at hreturns
        · cases hreturns
        · cases hreturns
        · obtain ⟨-, -, hrest⟩ := Gen.returns_andThen.mp hreturns
          exact ih hrest
      · obtain ⟨-, -, hrest⟩ := Gen.returns_andThen.mp hreturns
        exact ih hrest

theorem drain_serves (s : JoinState I X φ) (watermark : ℤ) (final : Bool) :
    (cfg.drain s watermark final).Serves Element.tNs (stamps s.pending)
      fun s => stamps s.pending := by
  have hdrained := @drainPending_serves _ _ _ cfg s.entries watermark s.imageBytes final s.ready
    s.pending
  rw [← List.append_nil (stamps s.pending)]
  exact hdrained.andThen fun drained _ => Gen.serves_done _ (List.append_nil _).symm

theorem drain_final {watermark : ℤ} (hreturns : (cfg.drain s watermark true).Returns s') :
    s'.pending = [] := by
  obtain ⟨drained, hdrained, hlast⟩ := Gen.returns_andThen.mp hreturns
  obtain rfl := Except.ok.inj hlast
  exact drainPending_final hdrained

theorem tell_pending {cam : Topic} {identity : Element Topic (Payload I X φ)}
    (htold : JoinConfig.tell s cam identity = .ok s') : s'.pending = s.pending := by
  unfold JoinConfig.tell at htold
  dsimp only at htold
  cases hmarked : JoinConfig.markReady cam
      (StreamMatcher.push (matcherConfig cam) (s.matchers cam) identity).1 s.ready with
  | error e =>
      rw [hmarked] at htold
      cases htold
  | ok left =>
      rw [hmarked] at htold
      obtain rfl := Except.ok.inj htold
      rfl

theorem absorb_pending {el : Element Topic (Payload I X φ)} (habsorbed : cfg.absorb s el = .ok s') :
    s'.pending = s.pending := by
  unfold JoinConfig.absorb at habsorbed
  split at habsorbed
  · split at habsorbed
    · cases habsorbed
    · exact (tell_pending habsorbed).trans rfl
  · split at habsorbed
    · exact tell_pending habsorbed
    · obtain rfl := Except.ok.inj habsorbed
      rfl

/-- A round puts an element that is emitted behind what is pending. -/
theorem round_serves (s : JoinState I X φ) (el : Element Topic (Payload I X φ)) :
    (cfg.round s el).Serves Element.tNs
      (stamps s.pending ++ stamps ([el].filter cfg.emitted)) fun s => stamps s.pending := by
  unfold JoinConfig.round
  split
  next => exact Gen.serves_raise _
  next absorbed habsorbed =>
    have hpending := absorb_pending habsorbed
    have hfull : ∀ t : JoinState I X φ, ((cfg.drain t el.tNs false).andThen fun s =>
        if cfg.maxFrameBytes < s.imageBytes then .raise .pendingImageBytes else .done s).Serves
          Element.tNs (stamps t.pending) fun s => stamps s.pending := by
      intro t
      rw [← List.append_nil (stamps t.pending)]
      refine (drain_serves t el.tNs false).andThen fun next _ => ?_
      split
      · exact Gen.serves_raise _
      · exact Gen.serves_done _ (List.append_nil _).symm
    cases hemitted : cfg.emitted el with
    | true =>
        have hqueue : stamps s.pending ++ stamps ([el].filter cfg.emitted) =
            stamps (absorbed.pending ++ [el]) := by
          rw [hpending, stamps_append, List.filter_singleton, hemitted]
          rfl
        rw [hqueue]
        exact hfull { absorbed with
          pending := absorbed.pending ++ [el]
          imageBytes := absorbed.imageBytes + cfg.imageBytesOf el }
    | false =>
        have hqueue : stamps s.pending ++ stamps ([el].filter cfg.emitted) =
            stamps absorbed.pending := by
          rw [hpending, List.filter_singleton, hemitted]
          exact List.append_nil _
        rw [hqueue]
        exact hfull absorbed

/-- The rounds serve the elements that are emitted. -/
theorem rounds_serve (stream : List (Element Topic (Payload I X φ))) :
    (Gen.each cfg.round JoinConfig.initial stream).Serves Element.tNs
      (stamps (stream.filter cfg.emitted)) fun s => stamps s.pending := by
  have hcomes : (stream.flatMap fun el => stamps ([el].filter cfg.emitted)) =
      stamps (stream.filter cfg.emitted) := by
    induction stream with
    | nil => rfl
    | cons el rest ih =>
        rw [List.flatMap_cons, ih, ← stamps_append, ← List.filter_append, List.singleton_append]
  rw [← hcomes]
  exact Gen.Serves.each (@round_serves _ _ _ cfg) JoinConfig.initial stream

/-- What the join yields is a first part of the elements that it emits, and all of them if it
returns. -/
theorem joinExposure_stamps (stream : List (Element Topic (Payload I X φ))) :
    stamps (cfg.joinExposure stream).items <+: stamps (stream.filter cfg.emitted) ∧
      ∀ s, (cfg.joinExposure stream).Returns s →
        stamps (cfg.joinExposure stream).items = stamps (stream.filter cfg.emitted) := by
  have hall : (cfg.joinExposure stream).Serves Element.tNs (stamps (stream.filter cfg.emitted))
      fun s => stamps s.pending := by
    rw [← List.append_nil (stamps (stream.filter cfg.emitted))]
    refine (rounds_serve stream).andThen fun s _ => ?_
    rw [List.append_nil]
    exact drain_serves ..
  refine ⟨hall.front, fun s hreturns => ?_⟩
  obtain ⟨before, -, hdrained⟩ := Gen.returns_andThen.mp hreturns
  have hrest := hall.rest s hreturns
  rw [drain_final hdrained] at hrest
  exact (List.append_nil _).symm.trans hrest

/-- The same of a stream that may raise: it loses at most the last of what it would have yielded. -/
theorem joinStream_stamps (stream : Gen (Element Topic (Payload I X φ)) (ReadError ε) Unit) :
    stamps (cfg.joinStream stream).items <+: stamps (stream.items.filter cfg.emitted) ∧
      ((cfg.joinStream stream).Returns () →
        stamps (cfg.joinStream stream).items = stamps (stream.items.filter cfg.emitted)) := by
  obtain ⟨hfront, hall⟩ := @joinExposure_stamps _ _ _ cfg stream.items
  unfold JoinConfig.joinStream Gen.Returns
  cases hresult : stream.result with
  | ok _ =>
      refine ⟨hfront, fun hreturns => ?_⟩
      cases hjoined : (cfg.joinExposure stream.items).result with
      | error e =>
          dsimp only at hreturns
          rw [hjoined] at hreturns
          cases hreturns
      | ok s => exact hall s hjoined
  | error e =>
      refine ⟨(@rounds_serve _ _ _ cfg stream.items).front, fun hreturns => ?_⟩
      dsimp only at hreturns
      split at hreturns
      · cases hreturns
      · cases hreturns

end Stamps

/-! ## The topics of a session -/

/-- `FRAME_INFO_SCHEMA`. -/
def frameInfoSchema : Schema :=
  .other ['v', 'i', 's', 'i', 'o', '_', 's', 'c', 'h', 'e', 'm', 'a', '.', 'v', '1', '.', 's', 'e',
    'n', 's', 'o', 'r', '.', 'C', 'a', 'm', 'e', 'r', 'a', 'F', 'r', 'a', 'm', 'e', 'I', 'n', 'f',
    'o']

/-- `_frame_info_topics`. -/
def frameInfoTopics (index : FileIndex) : List Topic :=
  (index.topics.filter fun entry =>
    entry.schema = some frameInfoSchema && frameInfoSuffix.isSuffixOf entry.topic).map
    TopicEntry.topic

/-- `topic[: -len(FRAME_INFO_SUFFIX)]`. -/
def cutInfoSuffix (topic : Topic) : Topic := topic.take (topic.length - frameInfoSuffix.length)

namespace Session

/-- `file_order` among the files of all streams: the owner stands behind the start. -/
def ownedLe (a b : ℕ × FileKey) : Bool :=
  if a.2.start ≠ b.2.start then a.2.start < b.2.start
  else if a.1 ≠ b.1 then a.1 < b.1
  else a.2.le b.2

variable (s : Session D) (backend : Backend D Ctx Img V ε) (exposing : Exposing D Img V φ ε)

/-- `Session._files`. -/
def files : List (File D) :=
  ((s.streams.zipIdx.flatMap fun owned =>
    owned.1.map fun file => ((owned.2, fileKey owned.1 file), file)).insertionSort
      fun a b => ownedLe a.1 b.1 = true).map Prod.snd

/-- The entries of all files, under their names without a device's prefix. -/
def canonEntries : List (Topic × Option Schema) :=
  s.files.flatMap fun file => file.index.topics.filterMap fun entry =>
    (stripDevice s.device entry.topic).map fun canon => (canon, entry.schema)

/-- The schema of a row of `topics`: the last one that a file names. -/
def topicSchema (topic : Topic) : Option Schema :=
  (s.canonEntries.filterMap fun entry =>
    if entry.1 = topic then entry.2 else none).getLast?

/-- The topics that `stream` selects: those that were named, or all that it can decode. -/
def selected (want : Want) : List Topic :=
  want.getD ((s.canonEntries.map Prod.fst).filter fun topic =>
    s.topicSchema topic = some .video || s.topicSchema topic = some .imuRaw)

/-- `_exposure_cams`. -/
def exposureCams : Except (StreamError ε) (List Topic) :=
  let infos := s.files.flatMap fun file => (frameInfoTopics file.index).map fun topic =>
    (exposing.current file, topic)
  match infos.find? fun info => (stripDevice s.device info.2).isNone with
  | some info => .error (.otherDevice info.2)
  | none => .ok (infos.filterMap fun info =>
      if info.1 then (stripDevice s.device info.2).map cutInfoSuffix else none).eraseDups

/-- `exposure_cameras`. -/
def exposureCameras (q : Query) : Except (StreamError ε) (List Topic) :=
  if q.rawAll then .ok []
  else (s.exposureCams exposing).map fun cams =>
    cams.filter fun cam => cam ∈ s.selected q.want && cam ∉ q.rawSet

/-! ## The indexed exposures -/

/-- The loop of `_exposure_tracks` over the messages of the files. -/
def infoEntries : List (Message D) →
    Except (StreamError ε) (List (Topic × ℤ × ExposureEntry φ))
  | [] => .ok []
  | m :: rest =>
      match stripDevice s.device m.topic with
      | none => infoEntries rest
      | some canon =>
          -- `_strip_suffix`
          let cam := if frameInfoSuffix.isSuffixOf canon then cutInfoSuffix canon else canon
          match exposing.parse m.data with
          | .error e => .error (.read (.adapter e))
          | .ok info =>
              match parseFrameInfo cam m.logTime (some info) with
              | .error e => .error (.exposure e)
              | .ok entry =>
                  (infoEntries rest).map fun entries => (cam, m.logTime, entry) :: entries

/-- The `frame_info` messages of the files that have them in the current layout. -/
def infoMessages : List (Message D) :=
  let current := s.files.filter exposing.current
  let topics := current.flatMap fun file => frameInfoTopics file.index
  current.flatMap fun file =>
    (readMessages file topics none).filter fun m => m.schema = some frameInfoSchema

/-- `_exposure_tracks`: each camera's entries by their stamps, of which none comes twice
(`_reject_duplicate_stamps`). -/
def exposureTracks : Except (StreamError ε) (Topic → Track φ) :=
  match s.infoEntries exposing (s.infoMessages exposing) with
  | .error e => .error e
  | .ok entries =>
      let track := fun cam => ((entries.filter fun entry => entry.1 = cam).map
        Prod.snd).insertionSort fun a b => a.1 ≤ b.1
      match ((entries.map Prod.fst).eraseDups).find? fun cam =>
          ¬(track cam).IsChain fun a b => a.1 ≠ b.1 with
      | some cam => .error (.exposure (.duplicateTimestamp cam))
      | none => .ok track

/-- `_exposure_at`, of a camera. -/
def exposureAt (topic : Topic) : Except (StreamError ε) (ℤ → Option (FrameExposure φ)) :=
  match s.exposureCams exposing with
  | .error e => .error e
  | .ok cams =>
      if topic ∉ cams then .ok fun _ => none
      else (s.exposureTracks exposing).map fun track => (track topic).at? exposing.floating

/-! ## The stream -/

/-- `context_ns`, where exposures are joined. -/
def contextNs : ℤ := max 1000000000 s.reorderNs

/-- The pass that is read for some cameras: their `frame_info` topics too, and more of them on both
sides of the window. -/
def reading (q : Query) (cameras : List Topic) : Query :=
  if cameras = [] then s.readQuery { q with infoLeadNs := 0 }
  else
    { s.readQuery q with
      want := some (s.selected q.want ++ cameras.map infoTopic)
      endNs := q.endNs.map (· + s.contextNs)
      infoLeadNs := s.contextNs - s.reorderNs }

/-- The arguments of `join_exposure`. -/
def joining (q : Query) (cameras : List Topic) : JoinConfig (Value Img D V) φ where
  cameras := cameras
  emitTopics := (cameras.map infoTopic).filter (· ∈ s.selected q.want)
  maxGapNs := max 1000000000 s.reorderNs
  maxFrameBytes := 256 * 1024 * 1024
  nbytes := exposing.nbytes
  floating := exposing.floating

/-- `stream`, with the exposures of its frames. -/
def streamElements (q : Query) : Gen (ExposedElement D Img V φ) (StreamError ε) Unit :=
  match s.exposureCameras exposing q with
  | .error e => .raise e
  | .ok cameras =>
      let ordered := reorder s.reorderNs (s.rawItems backend (s.reading q cameras))
      let elements := ordered.items.map exposing.element
      let joined : Gen (ExposedElement D Img V φ) (StreamError ε) Unit :=
        if cameras = [] then ⟨elements, ordered.result.mapError .read⟩
        else (s.joining exposing q cameras).joinStream ⟨elements, ordered.result⟩
      { joined with items := joined.items.filter fun el => inWindow q.startNs q.endNs el.tNs }

/-- The element is yielded once the join has come to it. -/
def emits (q : Query) (cameras : List Topic) (el : Element Topic (Value Img D V)) : Bool :=
  (s.joining exposing q cameras).emitted (exposing.element el)

variable {s backend exposing} {q : Query}

/-- Where no selected camera has exposures, `Session.stream` is the stream. -/
theorem streamElements_unjoined (hnone : s.exposureCameras exposing q = .ok []) :
    s.streamElements backend exposing q =
      { items := (s.stream backend { q with infoLeadNs := 0 }).items.map exposing.element
        result := (s.stream backend { q with infoLeadNs := 0 }).result.mapError .read } := by
  simp only [streamElements, hnone, if_true, reading, stream, List.filter_map]
  rfl

theorem streamElements_plain (hnone : s.exposureCameras exposing q = .ok [])
    (hreturns : (s.streamElements backend exposing q).Returns ()) :
    (s.streamElements backend exposing q).items =
        (s.stream backend { q with infoLeadNs := 0 }).items.map exposing.element ∧
      (s.stream backend { q with infoLeadNs := 0 }).Returns () := by
  rw [streamElements_unjoined hnone] at hreturns ⊢
  refine ⟨rfl, ?_⟩
  unfold Gen.Returns at hreturns ⊢
  cases hresult : (s.stream backend { q with infoLeadNs := 0 }).result with
  | error e =>
      dsimp only at hreturns
      rw [hresult] at hreturns
      cases hreturns
  | ok _ => rfl

/-- Without cameras everything is emitted. -/
theorem emits_nil (el : Element Topic (Value Img D V)) : s.emits exposing q [] el = true := rfl

theorem reading_unbounded (hstart : q.startNs = none) (hend : q.endNs = none)
    (cameras : List Topic) :
    (s.reading q cameras).startNs = none ∧ (s.reading q cameras).endNs = none := by
  unfold reading readQuery
  split
  · simp [hstart, hend]
  · simp [hstart, hend]

/-- The stamps that a stream without a window yields are a first part of those that the reordering
lets out and the join emits; they are all of them if the stream returns, or joins nothing. -/
theorem streamElements_stamps (hstart : q.startNs = none) (hend : q.endNs = none)
    {cameras : List Topic} (hcameras : s.exposureCameras exposing q = .ok cameras) :
    stamps (s.streamElements backend exposing q).items <+:
        stamps ((reorder s.reorderNs (s.rawItems backend (s.reading q cameras))).items.filter
          (s.emits exposing q cameras)) ∧
      ((s.streamElements backend exposing q).Returns () ∨ cameras = [] →
        stamps (s.streamElements backend exposing q).items =
          stamps ((reorder s.reorderNs (s.rawItems backend (s.reading q cameras))).items.filter
            (s.emits exposing q cameras))) := by
  let ordered := reorder s.reorderNs (s.rawItems backend (s.reading q cameras))
  have hall : ∀ els : List (ExposedElement D Img V φ),
      els.filter (fun el => inWindow q.startNs q.endNs el.tNs) = els := by
    intro els
    rw [hstart, hend]
    exact List.filter_eq_self.mpr fun el _ => rfl
  have hstamps : ∀ els : List (Element Topic (Value Img D V)),
      stamps ((els.map exposing.element).filter (s.joining exposing q cameras).emitted) =
        stamps (els.filter (s.emits exposing q cameras)) := by
    intro els
    rw [List.filter_map, stamps, stamps, List.map_map]
    rfl
  unfold streamElements
  rw [hcameras]
  by_cases hnone : cameras = []
  · subst hnone
    -- nothing is joined, and everything is emitted
    simp only [if_true, hall]
    have hemits : ordered.items.filter (s.emits exposing q []) = ordered.items :=
      List.filter_eq_self.mpr fun el _ => emits_nil el
    rw [hemits, stamps, stamps, List.map_map]
    exact ⟨List.prefix_rfl, fun _ => rfl⟩
  · obtain ⟨hfront, hjoined⟩ := @joinStream_stamps _ ε _ _ (s.joining exposing q cameras)
      ⟨ordered.items.map exposing.element, ordered.result⟩
    rw [hstamps] at hfront hjoined
    simp only [if_neg hnone, hall]
    exact ⟨hfront, fun hends => hjoined (hends.resolve_right hnone)⟩

end Session

end VisioSchema.Reader

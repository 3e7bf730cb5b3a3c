import VisioSchema.Reader.Parts

/-!
# Cutting a recording changes no frames

What a session of one recording yields of a camera is the camera's run over its access units
(`framesOf_stream`), however the recording is cut into parts (`frames_of_parts`).  It has to find
the same device in both, or else the cameras have other topics; and nothing may be raised, or else
what was read before is another part of the recording.
-/

namespace VisioSchema.Reader

open VisioSchema.Library VisioSchema.Wire

variable {D Ctx Img V ε : Type*}

namespace Session

variable {s : Session D} {backend : Backend D Ctx Img V ε} {topic : Topic} {q : Query}
  {identity : Text} {part : ℕ} {messages : List (Message D)} {parts : List (File D)}

/-! ## A stream of parts -/

/-- The frames of a camera have the times of its access units. -/
theorem cameraRun_chronological (camera : Camera Ctx)
    (hincreasing : messages.Pairwise fun a b => a.logTime < b.logTime) :
    Chronological Triple.sortNs (cameraRun backend topic camera messages).items := by
  have hround : ∀ (camera : Camera Ctx) (m : Message D),
      ∀ triple ∈ (cameraMessage backend topic camera m).items, triple.sortNs = m.logTime := by
    intro camera m triple htriple
    unfold cameraMessage at htriple
    split at htriple
    next => cases htriple
    next hdecoded =>
      obtain ⟨image, frameId, rfl⟩ := decodeUnit_items hdecoded triple htriple
      rfl
  refine Gen.each_pairwise (P := fun m triple => triple.sortNs = m.logTime) ?_ ?_ camera
  · intro camera m _
    refine ⟨List.pairwise_of_forall_mem_list fun a ha b hb => ?_, hround camera m⟩
    rw [hround camera m a ha, hround camera m b hb]
  · refine hincreasing.imp fun hab a b ha hb => ?_
    rw [ha, hb]
    exact hab.le

theorem framesOf_map (items : List (Triple Topic (Value Img D V))) :
    framesOf topic (items.map Triple.element) = (tripleFrames topic items).map Triple.element := by
  rw [framesOf, List.filter_map]
  rfl

/-- Frames that are read in order of time leave the reordering in this order. -/
theorem framesOf_reorder {reorderNs : ℤ}
    {g : Gen (Triple Topic (Value Img D V)) (ReadError ε) Unit} (hreturns : g.Returns ())
    (hordered : Chronological Triple.sortNs (tripleFrames topic g.items)) :
    framesOf topic (reorder reorderNs g).items =
      (tripleFrames topic g.items).map Triple.element := by
  have hempty : Holdback.Ok Triple.sortNs (· - reorderNs)
      (emptyHeap : Holdback (Triple Topic (Value Img D V)) ℤ) :=
    ⟨List.Pairwise.nil, fun _ ha => absurd ha List.not_mem_nil⟩
  rw [reorder_of_returns hreturns, Gen.items_yield, framesOf_map]
  exact congrArg _ (Holdback.filter_release hempty hordered)

/-- A pass that passes everything through yields no frame. -/
theorem tripleFrames_raw (hraw : q.rawAll = true) (members : List (File D × Want))
    (state : StreamState Ctx) :
    tripleFrames topic (Gen.each (s.streamFile backend q) state members).items = [] := by
  refine tripleFrames_other (Gen.each_forall (fun state member _ triple htriple => ?_) state)
  obtain ⟨carried, hitems⟩ := @streamFile_items _ _ _ _ _ s backend q state member
  rw [hitems] at htriple
  unfold iterFile at htriple
  dsimp only at htriple
  split at htriple
  next => cases htriple
  next =>
    obtain ⟨m, -, hmap⟩ := List.mem_filterMap.mp htriple
    split at hmap
    next =>
      obtain ⟨name, -, rfl⟩ := Option.map_eq_some_iff.mp hmap
      rfl
    next => cases hmap

/-- What a pass decodes of a camera. -/
def decoded (s : Session D) (q : Query) (topic : Topic) (messages : List (Message D)) :
    List (Message D) := if q.rawAll then [] else messages.filter (s.isSelected q topic)

theorem decoded_congr {s' : Session D} (hdevice : s.device = s'.device)
    (messages : List (Message D)) : s.decoded q topic messages = s'.decoded q topic messages := by
  have hselected : s.isSelected q topic = s'.isSelected q topic := by
    funext m
    rw [isSelected, isSelected, isUnitOf, isUnitOf, hdevice]
  rw [decoded, decoded, hselected]

/-- The frames of a camera in a session of one recording. -/
theorem framesOf_stream (hbuiltin : backend.custom .video = false) (hstart : q.startNs = none)
    (hend : q.endNs = none) (hcut : CutInto identity 0 messages parts)
    (hstreams : s.streams = [parts])
    (hincreasing : (messages.filter (s.isSelected q topic)).Pairwise fun a b =>
      a.logTime < b.logTime)
    (hreturns : (s.stream backend q).Returns ()) :
    framesOf topic (s.stream backend q).items =
      (cameraRun backend topic {} (s.decoded q topic messages)).items.map Triple.element := by
  rw [stream_unbounded hstart hend] at hreturns ⊢
  have hraw : (s.rawItems backend q).Returns () := returns_of_reorder hreturns
  have hone : (s.oneStream backend q parts).Returns () :=
    Gen.returns_of_merge hraw (by simp [hstreams])
  have hitems : (s.rawItems backend q).items = (s.oneStream backend q parts).items := by
    have hall : ∀ g ∈ s.streams.map (s.oneStream backend q), g.Returns () := by
      rw [hstreams]
      intro g hg
      rw [List.mem_singleton.mp hg]
      exact hone
    rw [rawItems, Gen.merge_of_returns hall, hstreams]
    simp
  have hread : (s.oneStream backend q parts).items =
      (Gen.each (s.streamFile backend q) {} (parts.map (·, q.want))).items := by
    rw [oneStream_unbounded hstart hend, Gen.items_andThen_done]
  have hframes : tripleFrames topic (s.rawItems backend q).items =
      (cameraRun backend topic {} (s.decoded q topic messages)).items := by
    rw [hitems, hread, decoded]
    cases hall : q.rawAll with
    | true =>
        rw [tripleFrames_raw hall]
        rfl
    | false =>
        rw [oneStream_unbounded hstart hend] at hone
        obtain ⟨state, hstate, -⟩ := Gen.returns_andThen.mp hone
        have hawaits : Awaits identity 0 ({} : StreamState Ctx) :=
          ⟨fun _ => ⟨rfl, rfl⟩, fun hne => absurd rfl hne⟩
        exact (runsCamera_parts hbuiltin hall hend hcut hincreasing hawaits state hstate).2
  rw [← hframes]
  refine framesOf_reorder hraw ?_
  rw [hframes, decoded]
  split
  next => exact List.Pairwise.nil
  next => exact cameraRun_chronological {} hincreasing

end Session

/-! ## Cut and whole -/

/-- The messages of a camera, by its topic without a device's prefix. -/
def isCameraMessage (device : Option Text) (topic : Topic) (m : Message D) : Bool :=
  m.schema = some .video && stripDevice device m.topic = some topic

/-- A session of one recording, in the order of its parts. -/
theorem streams_openSession {identity : Text} {messages : List (Message D)}
    {parts group : List (File D)} (hcut : CutInto identity 0 messages parts)
    (hgroup : group.Perm parts) (hsome : group ≠ []) (mode : DeviceMode) (reorderNs : ℤ) :
    (openSession [group] mode reorderNs).streams = [parts] := by
  have hkept : ([group] : List (List (File D))).filter (· ≠ []) = [group] :=
    List.filter_eq_self.mpr fun members hmembers => by simp [List.mem_singleton.mp hmembers, hsome]
  have hordered : fileOrder group = parts := fileOrder_parts hcut hgroup
  change (([group] : List (List (File D))).filter (· ≠ [])).map fileOrder = [parts]
  rw [hkept, List.map_singleton, hordered]

/-- A recording cut into parts yields the frames of a camera that it yields as one part, if the
session finds the same device and nothing is raised. -/
theorem frames_of_parts (backend : Backend D Ctx Img V ε)
    (hbuiltin : backend.custom .video = false) (mode : DeviceMode) (reorderNs : ℤ) (q : Query)
    (hstart : q.startNs = none) (hend : q.endNs = none) (identity : Text)
    (messages : List (Message D)) (parts group : List (File D)) (whole : File D)
    (hcut : CutInto identity 0 messages parts) (hgroup : group.Perm parts)
    (hwhole : PartOf identity 0 messages whole)
    (hdevice : (openSession [group] mode reorderNs).device =
      (openSession [[whole]] mode reorderNs).device)
    (hsplit : ((openSession [group] mode reorderNs).stream backend q).Returns ())
    (hunsplit : ((openSession [[whole]] mode reorderNs).stream backend q).Returns ())
    (topic : Topic)
    (hincreasing : (messages.filter (isCameraMessage (openSession [group] mode reorderNs).device
      topic)).Pairwise fun a b => a.logTime < b.logTime) :
    framesOf topic ((openSession [group] mode reorderNs).stream backend q).items =
      framesOf topic ((openSession [[whole]] mode reorderNs).stream backend q).items := by
  have hone : CutInto identity 0 messages [whole] := by
    have hcons := CutInto.cons hwhole (CutInto.nil 1)
    rwa [List.append_nil] at hcons
  -- what a pass decodes are messages of the camera
  have hselected : ∀ s : Session D, s.device = (openSession [group] mode reorderNs).device →
      (messages.filter (s.isSelected q topic)).Pairwise fun a b => a.logTime < b.logTime := by
    intro s hs
    have hsub : (messages.filter (s.isSelected q topic)).Sublist
        (messages.filter (isCameraMessage (openSession [group] mode reorderNs).device topic)) := by
      refine List.monotone_filter_right messages fun m hm => ?_
      simp only [Session.isSelected, Session.isUnitOf, Bool.and_eq_true] at hm
      rw [isCameraMessage, ← hs, Bool.and_eq_true]
      exact hm.1.1
    exact hincreasing.sublist hsub
  have hwholeFrames := Session.framesOf_stream hbuiltin hstart hend hone
    (streams_openSession hone (List.Perm.refl _) (List.cons_ne_nil _ _) mode reorderNs)
    (hselected _ hdevice.symm) hunsplit
  rw [hwholeFrames, ← Session.decoded_congr hdevice]
  by_cases hsome : group = []
  · -- no parts, and no messages
    subst hsome
    rw [List.nil_perm.mp hgroup] at hcut
    obtain rfl : messages = [] := by
      cases hcut
      rfl
    have hnone : (openSession [([] : List (File D))] mode reorderNs).streams = [] := by
      simp [openSession]
    rw [Session.stream_unbounded hstart hend, Session.rawItems, hnone, Session.decoded,
      List.filter_nil, ite_self]
    rfl
  · exact Session.framesOf_stream hbuiltin hstart hend hcut
      (streams_openSession hcut hgroup hsome mode reorderNs) (hselected _ rfl) hsplit

/-! ## Where the parts tell -/

/-- A recording of video, in which the times of every topic increase, cut into parts and whole. -/
structure Recording (identity : Text) (messages : List (Message D)) (parts : List (File D))
    (whole : File D) : Prop where
  cut : CutInto identity 0 messages parts
  whole : PartOf identity 0 messages whole
  increasing : messages.Pairwise fun a b => a.topic = b.topic → a.logTime < b.logTime

/-- A part of a recording, with its messages in order of time and an index of them. -/
def indexedPart (part : ℕ) (messages : List (Message Video)) : File Video where
  index :=
    { topics := (messages.map Message.topic).eraseDups.map fun topic =>
        ⟨topic, some .video, messages.countP fun m => m.topic = topic⟩
      startNs := messages.head?.map Message.logTime
      endNs := messages.getLast?.map Message.logTime }
  rotation := some ⟨['r'], part, part ≠ 0⟩
  messages := messages

theorem partOf_indexedPart {part : ℕ} {cut messages : List (Message Video)}
    (hperm : messages.Perm cut)
    (hordered : messages.Pairwise fun a b => a.logTime ≤ b.logTime) :
    PartOf ['r'] part cut (indexedPart part messages) where
  marked := ⟨_, rfl, fun hne => by simpa using hne⟩
  holds := hperm
  ordered := hordered
  indexed m hm _ := by
    have hin : m.topic ∈ (messages.map Message.topic).eraseDups := by
      rw [List.mem_eraseDups]
      exact List.mem_map_of_mem (hperm.mem_iff.mpr hm)
    exact ⟨_, List.mem_map_of_mem hin, rfl, rfl⟩

theorem recording_of_parts {first second all : List (Message Video)}
    (hfirst : first.Pairwise fun a b => a.logTime ≤ b.logTime)
    (hsecond : second.Pairwise fun a b => a.logTime ≤ b.logTime)
    (hperm : all.Perm (first ++ second))
    (hall : all.Pairwise fun a b => a.logTime ≤ b.logTime)
    (hincreasing : (first ++ second).Pairwise fun a b => a.topic = b.topic →
      a.logTime < b.logTime) :
    Recording ['r'] (first ++ second) [indexedPart 0 first, indexedPart 1 second]
      (indexedPart 0 all) where
  cut := by
    have hlast := CutInto.cons (partOf_indexedPart (List.Perm.refl second) hsecond) (.nil 2)
    rw [List.append_nil] at hlast
    exact .cons (partOf_indexedPart (List.Perm.refl first) hfirst) hlast
  whole := partOf_indexedPart hperm hall
  increasing := hincreasing

def videoAt (topic : Topic) (format : Text) (accessUnit : List Byte) (sequence : ℕ) (t : ℤ) :
    Message Video := ⟨topic, some .video, sequence, t, ⟨format, [], accessUnit⟩⟩

/-- `/GILABS-A/c`. -/
def cameraA : Topic := ['/', 'G', 'I', 'L', 'A', 'B', 'S', '-', 'A', '/', 'c']

/-- `/GILABS-B/c`. -/
def cameraB : Topic := ['/', 'G', 'I', 'L', 'A', 'B', 'S', '-', 'B', '/', 'c']

def deviceA : Text := ['G', 'I', 'L', 'A', 'B', 'S', '-', 'A']

/-- A JPEG picture of a camera. -/
def jpegAt (topic : Topic) (sequence : ℕ) (t : ℤ) : Message Video :=
  videoAt topic ['j', 'p', 'e', 'g'] [7] sequence t

/-- The second part has another device too, and the recording as a whole has none. -/
def twoDevices : List (Message Video) × List (Message Video) :=
  ([jpegAt cameraA 0 0], [jpegAt cameraA 1 1, jpegAt cameraB 0 2])

/-- A camera whose format has no decoder, and whose access unit is the first of the recording. -/
def oneUnsupported : List (Message Video) × List (Message Video) :=
  ([jpegAt jpegTopic 0 60000000000, jpegAt jpegTopic 1 100000000000],
    [videoAt ['/', 'v'] ['v', 'p', '9'] [7] 0 50000000000])

/-- A camera under its topic with the device's prefix and without, the keyframe behind the access
unit that follows it. -/
def twoTopics : List (Message Video) × List (Message Video) :=
  ([videoAt cameraA ['h', '2', '6', '4'] [0, 0, 1, 0x41] 1 10],
    [videoAt jpegTopic ['h', '2', '6', '4'] [0, 0, 1, 0x65] 0 5])

/-- A recording in two parts that does not yield the frames of a camera that it yields whole. -/
structure PartsTell (mode : DeviceMode) (topic : Topic)
    (parts : List (Message Video) × List (Message Video)) (whole : List (Message Video)) :
    Prop where
  recording : Recording ['r'] (parts.1 ++ parts.2) [indexedPart 0 parts.1, indexedPart 1 parts.2]
    (indexedPart 0 whole)
  differs : framesOf topic ((openSession [[indexedPart 0 parts.1, indexedPart 1 parts.2]]
      mode 0).stream jpegBackend {}).items ≠
    framesOf topic ((openSession [[indexedPart 0 whole]] mode 0).stream jpegBackend {}).items

/-- A cut changes what the session finds as its device; or what is read before an error; or the
order of a camera's access units, where two topics are its. -/
theorem parts_change_frames :
    PartsTell .auto cameraA twoDevices (twoDevices.1 ++ twoDevices.2) ∧
      PartsTell .preserve jpegTopic oneUnsupported (oneUnsupported.2 ++ oneUnsupported.1) ∧
      PartsTell (.given deviceA) jpegTopic twoTopics (twoTopics.2 ++ twoTopics.1) := by
  refine ⟨⟨recording_of_parts ?_ ?_ ?_ ?_ ?_, ?_⟩, ⟨recording_of_parts ?_ ?_ ?_ ?_ ?_, ?_⟩,
    ⟨recording_of_parts ?_ ?_ ?_ ?_ ?_, ?_⟩⟩
  all_goals decide +kernel

/-- A decoder that shows all that it was fed. -/
def memoryBackend : Backend Video (List Byte) (List Byte) Unit Unit where
  av :=
    { create := fun _ => []
      decode := fun fed accessUnit => (some (fed ++ accessUnit), fed ++ accessUnit) }
  parseVideo := .ok
  emit := fun _ _ _ => .done ()
  flush := fun _ _ => .done ()

/-- The keyframe of a group of pictures. -/
def gopKey : Message Video := videoAt jpegTopic ['h', '2', '6', '4'] [0, 0, 1, 0x65] 0 10

/-- A picture that refers to it. -/
def gopPicture : Message Video := videoAt jpegTopic ['h', '2', '6', '4'] [0, 0, 1, 0x41] 1 20

/-- A group of pictures that is cut behind its keyframe. -/
theorem frames_of_parts_gop :
    framesOf jpegTopic ((openSession [[indexedPart 0 [gopKey], indexedPart 1 [gopPicture]]]
        .auto 0).stream memoryBackend {}).items =
      framesOf jpegTopic ((openSession [[indexedPart 0 [gopKey, gopPicture]]]
        .auto 0).stream memoryBackend {}).items := by
  have hrecording : Recording ['r'] [gopKey, gopPicture]
      [indexedPart 0 [gopKey], indexedPart 1 [gopPicture]]
      (indexedPart 0 [gopKey, gopPicture]) :=
    @recording_of_parts [gopKey] [gopPicture] _ (by decide) (by decide) (List.Perm.refl _)
      (by decide) (by decide +kernel)
  refine frames_of_parts memoryBackend rfl .auto 0 {} rfl rfl ['r'] _ _ _ _ hrecording.cut
    (List.Perm.refl _) hrecording.whole (by decide +kernel) ?_ ?_ jpegTopic (by decide +kernel)
  · unfold Gen.Returns
    decide +kernel
  · unfold Gen.Returns
    decide +kernel

/-- The second part goes on with the decoder of the first. -/
example : (framesOf jpegTopic ((openSession [[indexedPart 0 [gopKey], indexedPart 1 [gopPicture]]]
    .auto 0).stream memoryBackend {}).items).map Element.value =
      [.frame [0, 0, 1, 0x65] [], .frame [0, 0, 1, 0x65, 0, 0, 1, 0x41] []] := by
  decide +kernel

end VisioSchema.Reader

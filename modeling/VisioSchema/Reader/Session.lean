import Mathlib.Data.List.DropRight
import Mathlib.Data.List.Sort
import VisioSchema.Library.Interleave
import VisioSchema.Reader.Rows

/-!
# Sessions

`Session`: the union of some streams of MCAP files.  The files of a stream follow each other, and
the streams are merged by arrival.  A pass (`stream`) selects topics and files, decodes their
messages and puts the elements in order of time.  What the MCAP reader finds in a file is data
here; parsing and the adapters other than that of video are parameters (`Backend`).
-/

namespace VisioSchema.Reader

open VisioSchema.Library VisioSchema.Wire

/-- The schemas that the reader tells apart. -/
inductive Schema
  | video
  | image
  | imuRaw
  | imuQuat
  | other (name : Text)
  deriving DecidableEq, Repr

/-- A message of an MCAP file, with the topic and the schema of its channel. -/
structure Message (D : Type*) where
  topic : Topic
  schema : Option Schema
  sequence : ℕ
  logTime : ℤ
  data : D
  deriving DecidableEq, Repr

/-- A row of `_FileIndex.topics()`. -/
structure TopicEntry where
  topic : Topic
  schema : Option Schema
  count : ℕ
  deriving DecidableEq, Repr

structure FileIndex where
  topics : List TopicEntry
  startNs : Option ℤ
  endNs : Option ℤ
  deriving DecidableEq, Repr

/-- `_rotation_identity`, of a valid `visio.rotation` record. -/
structure Rotation where
  identity : Text
  part : ℕ
  continuation : Bool
  deriving DecidableEq, Repr

/-- A file, and its messages as `_read_messages` yields them. -/
structure File (D : Type*) where
  index : FileIndex
  rotation : Option Rotation
  messages : List (Message D)
  deriving DecidableEq, Repr

/-- What a pass selects: topics without the prefix of a device, or all that it can decode. -/
abbrev Want := Option (List Topic)

/-! ## Devices -/

/-- The second of a topic's components, cut at `/`. -/
def secondPart (topic : Topic) : Option Text :=
  match topic.dropWhile (· != '/') with
  | [] => none
  | _ :: rest => some (rest.takeWhile (· != '/'))

def devicePrefix : Text := ['G', 'I', 'L', 'A', 'B', 'S', '-']

/-- The device that a topic names. -/
def deviceOf (topic : Topic) : Option Text :=
  (secondPart topic).filter fun part => devicePrefix.isPrefixOf part

/-- `strip_device_topic_prefix`. -/
def stripDevice (device : Option Text) (topic : Topic) : Option Topic :=
  match device with
  | none => some topic
  | some name =>
      if name = [] then some topic
      else if topic = '/' :: name then some ['/']
      else if ('/' :: name ++ ['/']).isPrefixOf topic then some (topic.drop (name.length + 1))
      else if (deviceOf topic).isSome then none
      else some topic

/-- The only one of some names. -/
def onlyOne : List Text → Option Text
  | [name] => some name
  | _ => none

/-- `_detect_device`. -/
def detectDevice (topics : List Topic) : Option Text :=
  if topics.all fun topic => (deviceOf topic).isSome then
    onlyOne (topics.filterMap deviceOf).eraseDups
  else none

/-- How a session is told its device: `topic_mode` and `device`. -/
inductive DeviceMode
  | preserve
  | given (device : Text)
  | auto
  deriving DecidableEq, Repr

/-- `_auto_device`. -/
def autoDevice {D : Type*} (files : List (File D)) : Option Text :=
  onlyOne (files.filterMap fun file =>
    detectDevice (file.index.topics.map TopicEntry.topic)).eraseDups

/-! ## The order of the files -/

section Order

variable {D : Type*}

/-- `start_ns or 0`. -/
def File.start (file : File D) : ℤ := file.index.startNs.getD 0

/-- The start of the chain of a recording, among the files of a stream. -/
def chainStart (files : List (File D)) (identity : Text) (start : ℤ) : ℤ :=
  files.foldl (fun earliest file =>
    if file.rotation.map Rotation.identity = some identity then min earliest file.start
    else earliest) start

/-- The key of `file_order`, less the owner, which is the same for the files of a stream. -/
structure FileKey where
  start : ℤ
  identity : Text
  part : ℕ
  deriving DecidableEq, Repr

def fileKey (files : List (File D)) (file : File D) : FileKey :=
  match file.rotation with
  | none => ⟨file.start, [], 0⟩
  | some rotation =>
      ⟨chainStart files rotation.identity file.start, rotation.identity, rotation.part⟩

/-- Tuples are compared from the left. -/
def FileKey.le (a b : FileKey) : Bool :=
  if a.start ≠ b.start then a.start < b.start
  else if a.identity ≠ b.identity then a.identity < b.identity
  else a.part ≤ b.part

/-- The files of a stream, in their order. -/
def fileOrder (files : List (File D)) : List (File D) :=
  files.insertionSort fun a b => (fileKey files a).le (fileKey files b) = true

/-! ## The reorder window -/

/-- `_MAX_SEAM_SLACK_NS`. -/
def maxSeamSlackNs : ℤ := 5000000000

/-- The part of `same_chain` and of a chain's next part: the same recording, and its next part. -/
def nextPart (previous rotation : Option Rotation) : Bool :=
  match previous, rotation with
  | some before, some here => before.identity = here.identity && here.part = before.part + 1
  | _, _ => false

/-- The two files look like parallel streams: they start together, and the second one reaches
back over more than half of the first one. -/
def parallel (same : Bool) (aStart aEnd bStart : ℤ) : Bool :=
  !same && ((bStart - aStart).natAbs : ℤ) < aEnd - bStart && aEnd - aStart < 2 * (aEnd - bStart)

/-- Two neighbours are refused, if the bounds of both are known. -/
def refused (a b : File D) : Bool :=
  match a.index.endNs, a.index.startNs, b.index.endNs, b.index.startNs with
  | some aEnd, some aStart, some _, some bStart =>
      parallel (nextPart a.rotation b.rotation) aStart aEnd bStart
  | _, _, _, _ => false

/-- The overlap that `_seam_slack` measures between two neighbours. -/
def seamOverlap (a b : File D) : ℤ :=
  match a.index.endNs, a.index.startNs, b.index.endNs, b.index.startNs with
  | some aEnd, some _, some _, some bStart => if refused a b then 0 else max 0 (aEnd - bStart)
  | _, _, _, _ => 0

/-- The largest overlap of a file and the next one of its stream. -/
def worstSeam : List (File D) → ℤ
  | a :: b :: rest => max (seamOverlap a b) (worstSeam (b :: rest))
  | _ => 0

/-- `_seam_slack`. -/
def seamSlack (streams : List (List (File D))) : ℤ :=
  min (streams.foldl (fun worst files => max worst (worstSeam files)) 0) maxSeamSlackNs

end Order

/-! ## The session -/

structure Session (D : Type*) where
  streams : List (List (File D))
  device : Option Text
  reorderNs : ℤ
  deriving DecidableEq, Repr

/-- `Session.__init__`. -/
def openSession {D : Type*} (groups : List (List (File D))) (mode : DeviceMode)
    (reorderNs : ℤ) : Session D :=
  let streams := (groups.filter (· ≠ [])).map fileOrder
  { streams := streams
    device :=
      match mode with
      | .preserve => none
      | .given device => some device
      | .auto => autoDevice streams.flatten
    reorderNs := reorderNs + seamSlack streams }

/-- `_spans_window`. -/
def spansWindow (index : FileIndex) (startNs endNs : Option ℤ) : Bool :=
  match index.startNs, index.endNs with
  | some lo, some hi => endNs.all (fun stop => lo < stop) && startNs.all (fun start => start ≤ hi)
  | _, _ => true

/-- `_in_window`. -/
def inWindow (startNs endNs : Option ℤ) (t : ℤ) : Bool :=
  startNs.all (fun start => start ≤ t) && endNs.all (fun stop => t < stop)

/-- A part that continues the decoders of the file before it. -/
def continues (previous rotation : Option Rotation) : Bool :=
  nextPart previous rotation && (rotation.map Rotation.continuation).getD false

/-- What an adapter is fed. -/
structure Fed (D : Type*) where
  topic : Topic
  tNs : ℤ
  data : D
  deriving DecidableEq, Repr

/-- Parsing, PyAV, and the adapters.  An adapter is made anew for each file, so that what it
yields depends on the messages it was fed from that file. -/
structure Backend (D Ctx Img V ε : Type*) where
  av : PyAv Ctx Img
  parseVideo : D → Except ε Video
  custom : Schema → Bool := fun _ => false
  emit : Schema → List (Fed D) → Fed D → Gen (Triple Topic V) ε Unit
  flush : Schema → List (Fed D) → Gen (Triple Topic V) ε Unit

/-- The decoder state that parts of a chain share: `decoders`, `formats` and `sequences`. -/
structure Carried (Ctx : Type*) where
  decoders : Topic → Option (Decoding Ctx) := fun _ => none
  sequences : Topic → Option ℕ := fun _ => none

/-- The decoders in use, and what the other adapters of the file were fed. -/
structure Pass (Ctx D : Type*) where
  carried : Carried Ctx := {}
  fed : Schema → List (Fed D) := fun _ => []

/-- The selection of a pass: `want`, `raw_all`, `raw_set` and the window that is read, of which
`frame_info` is read from somewhat earlier (`info_start`) where it is joined. -/
structure Query where
  want : Want := none
  rawAll : Bool := false
  rawSet : List Topic := []
  startNs : Option ℤ := none
  endNs : Option ℤ := none
  infoLeadNs : ℤ := 0
  deriving DecidableEq, Repr

namespace Session

variable {D Ctx Img V ε : Type*} (s : Session D) (backend : Backend D Ctx Img V ε)

/-- `_wanted_prefixed`. -/
def wantedPrefixed (index : FileIndex) (want : Want) (rawAll : Bool) : List Topic :=
  (index.topics.filter fun entry =>
    match stripDevice s.device entry.topic with
    | none => false
    | some canon =>
        match want with
        | some topics => canon ∈ topics
        | none => rawAll || entry.schema = some .video || entry.schema = some .imuRaw).map
    TopicEntry.topic

/-! ## A file -/

/-- `_read_messages`. -/
def readMessages (file : File D) (topics : List Topic) (endNs : Option ℤ) : List (Message D) :=
  file.messages.filter fun m => m.topic ∈ topics && endNs.all fun stop => m.logTime < stop

/-- The topics without a device's prefix that satisfy a test and carry messages. -/
def countedTopics (index : FileIndex) (want : Want) (rawSet : List Topic)
    (test : TopicEntry → Bool) : List Topic :=
  index.topics.filterMap fun entry =>
    if entry.count ≠ 0 ∧ entry.topic ∈ s.wantedPrefixed index want false ∧ test entry = true then
      (stripDevice s.device entry.topic).filter (· ∉ rawSet)
    else none

/-- The schemas that `_build_adapters` builds an adapter for: the three of `_PREBUILT`, and those
of the decoded topics. -/
def adapterSchemas (index : FileIndex) (decoded : List Topic) : List Schema :=
  [.video, .image, .imuRaw] ++
    ((index.topics.filterMap fun entry =>
      if entry.topic ∈ decoded then entry.schema else none).filter
        (· ∉ [Schema.video, .image, .imuRaw])).eraseDups

/-- A gap in the sequence numbers of a topic. -/
def sequenceGap (previous : Option ℕ) (sequence : ℕ) : Bool :=
  previous.any fun p => sequence ≠ (p + 1) % 4294967296

/-- An access unit of a camera: its frame, if it yields one, and the decoder that is kept.  After
a gap a carried decoder is dropped. -/
def decodeUnit (carry : Bool) (topic : Topic) (m : Message D) (sequence : Option ℕ)
    (decoder : Option (Decoding Ctx)) :
    Except (ReadError ε) (List (Triple Topic (Value Img D V)) × Option (Decoding Ctx)) :=
  match backend.parseVideo m.data with
  | .error e => .error (.adapter e)
  | .ok video =>
      match emitVideo backend.av carry video
          (if carry && sequenceGap sequence m.sequence then none else decoder) with
      | .error e => .error e
      | .ok (image, decoder) =>
          .ok (image.toList.map fun image =>
            ⟨m.logTime, m.logTime, ⟨topic, m.logTime, .frame image video.frameId⟩⟩, decoder)

/-- A video message. -/
def videoMessage (carry : Bool) (topic : Topic) (m : Message D) (pass : Pass Ctx D) :
    Gen (Triple Topic (Value Img D V)) (ReadError ε) (Pass Ctx D) :=
  match decodeUnit backend carry topic m (pass.carried.sequences topic)
      (pass.carried.decoders topic) with
  | .error e => .raise e
  | .ok (items, decoder) =>
      .yield items
        { pass with
          carried :=
            { decoders := Function.update pass.carried.decoders topic decoder
              sequences :=
                if carry then Function.update pass.carried.sequences topic (some m.sequence)
                else pass.carried.sequences } }

/-- An adapter's yield, as elements of the pass. -/
def adapted {σ : Type*} (next : σ) (g : Gen (Triple Topic V) ε Unit) :
    Gen (Triple Topic (Value Img D V)) (ReadError ε) σ :=
  { items := g.items.map fun triple =>
      ⟨triple.sortNs, triple.arrivalNs,
        ⟨triple.element.topic, triple.element.tNs, .other triple.element.value⟩⟩
    result := (g.result.mapError ReadError.adapter).map fun _ => next }

/-- A message of another schema, or of video under an adapter of the session's own. -/
def adapterMessage (schema : Schema) (topic : Topic) (m : Message D) (pass : Pass Ctx D) :
    Gen (Triple Topic (Value Img D V)) (ReadError ε) (Pass Ctx D) :=
  let fed : Fed D := ⟨topic, m.logTime, m.data⟩
  adapted
    { pass with fed := Function.update pass.fed schema (pass.fed schema ++ [fed]) }
    (backend.emit schema (pass.fed schema) fed)

/-- A passed through message. -/
def rawTriple (topic : Topic) (m : Message D) : Triple Topic (Value Img D V) :=
  ⟨m.logTime, m.logTime, ⟨topic, m.logTime, .raw m.data⟩⟩

/-- A turn of the loop of `_iter_file`. -/
def iterMessage (built : List Schema) (rawSet : List Topic) (carry : Bool) (pass : Pass Ctx D)
    (m : Message D) : Gen (Triple Topic (Value Img D V)) (ReadError ε) (Pass Ctx D) :=
  match m.schema, stripDevice s.device m.topic with
  | some schema, some topic =>
      if topic ∈ rawSet then .yield [rawTriple topic m] pass
      else if schema ∉ built then .done pass
      else if schema = .video ∧ backend.custom .video = false then
        videoMessage backend carry topic m pass
      else adapterMessage backend schema topic m pass
  | _, _ => .done pass

/-- The flush of an adapter at the end of a file.  CPU decoders hold nothing. -/
def flushAdapter (pass : Pass Ctx D) (schema : Schema) :
    Gen (Triple Topic (Value Img D V)) (ReadError ε) (Pass Ctx D) :=
  if schema = .video ∧ backend.custom .video = false then .done pass
  else adapted pass (backend.flush schema (pass.fed schema))

/-- `_iter_file_raw`. -/
def iterFileRaw (file : File D) (wanted : List Topic) (endNs : Option ℤ) :
    List (Triple Topic (Value Img D V)) :=
  (readMessages file wanted endNs).filterMap fun m =>
    if m.schema.isSome then (stripDevice s.device m.topic).map fun topic => rawTriple topic m
    else none

/-- `_iter_file`. -/
def iterFile (q : Query) (file : File D) (want : Want) (carried : Option (Carried Ctx)) :
    Gen (Triple Topic (Value Img D V)) (ReadError ε) (Option (Carried Ctx)) :=
  let wanted := s.wantedPrefixed file.index want q.rawAll
  if wanted = [] then .done carried
  else if q.rawAll then .yield (s.iterFileRaw file wanted q.endNs) carried
  else
    let decoded := wanted.filter fun topic =>
      (stripDevice s.device topic).all fun canon => canon ∉ q.rawSet
    let built := adapterSchemas file.index decoded
    let carry := carried.isSome && !backend.custom .video
    let pass : Pass Ctx D := { carried := if carry then carried.getD {} else {} }
    (Gen.each (s.iterMessage backend built q.rawSet carry) pass
      (readMessages file wanted q.endNs)).andThen fun pass =>
        (Gen.each (flushAdapter backend) pass built).andThen fun pass =>
          .done (if carry then some pass.carried else carried)

/-! ## A stream -/

/-- `_preroll_start`: how many files of a chain are skipped.  The files are those up to the first
one that is needed, the last of them first. -/
def prerollStart (startNs : ℤ) (needed : List Topic) : List (File D) → Except ε ℕ
  | [] => .ok 0
  | file :: earlier =>
      let names := (file.index.topics.filter fun entry =>
        entry.count ≠ 0 && entry.schema = some .video &&
          (stripDevice s.device entry.topic).any (· ∈ needed)).map TopicEntry.topic
      match keyframeTopics needed (readMessages file names (some (startNs + 1))) with
      | .error e => .error e
      | .ok left => if left = [] then .ok earlier.length else prerollStart startNs left earlier
where
  /-- The topics that are still needed behind some messages. -/
  keyframeTopics (needed : List Topic) : List (Message D) → Except ε (List Topic)
    | [] => .ok needed
    | m :: rest =>
        match stripDevice s.device m.topic with
        | none => keyframeTopics needed rest
        | some topic =>
            if topic ∉ needed then keyframeTopics needed rest
            else
              match backend.parseVideo m.data with
              | .error e => .error e
              | .ok video =>
                  if isKeyframe video.format video.data = some true then
                    keyframeTopics (needed.filter (· ≠ topic)) rest
                  else keyframeTopics needed rest

/-- The files of a chain, each with its selection if it is read.  `front` are those before the
first one that the window meets, and `body` those up to the last one that it meets. -/
def selectChain (q : Query) (chain : List (File D)) :
    Except ε (List (File D × Option Want)) :=
  let outside := fun file : File D => !spansWindow file.index q.startNs q.endNs
  let front := chain.takeWhile outside
  let body := (chain.dropWhile outside).rdropWhile outside
  let tail := (chain.dropWhile outside).rtakeWhile outside
  let skipped : Except ε ℕ :=
    match q.startNs, body with
    | some start, first :: _ =>
        let video := fun file : File D =>
          s.countedTopics file.index q.want q.rawSet fun entry => entry.schema = some .video
        let needed := (front.flatMap video).filter (· ∈ body.flatMap video)
        if first.rotation.isSome ∧ q.rawAll = false ∧ backend.custom .video = false ∧
            needed ≠ [] then
          s.prerollStart backend start needed (first :: front.reverse)
        else .ok front.length
    | _, _ => .ok front.length
  match skipped with
  | .error e => .error e
  | .ok skip =>
      .ok (((front ++ body).take skip).map (·, none) ++
        ((front ++ body).drop skip).map (·, some q.want) ++ tail.map (·, none))

/-- The chains of a stream, one after the other. -/
def selectChains (q : Query) :
    List (List (File D)) → Except ε (List (File D × Option Want))
  | [] => .ok []
  | chain :: rest =>
      match s.selectChain backend q chain, selectChains q rest with
      | .ok chosen, .ok others => .ok (chosen ++ others)
      | .error e, _ => .error e
      | _, .error e => .error e

/-- `_early_topics`: what is read of a file that ends before the window. -/
def earlyTopics (q : Query) (index : FileIndex) : List Topic :=
  s.countedTopics index q.want q.rawSet fun entry =>
    entry.schema = some .imuRaw || entry.schema = some .imuQuat ||
      entry.schema.any backend.custom ||
      (frameInfoSuffix.isSuffixOf entry.topic &&
        spansWindow index (q.startNs.map (· - q.infoLeadNs)) none)

/-- The selection of a file outside the chains' selections. -/
def earlySelection (q : Query) (file : File D) : Option Want :=
  if q.rawAll || spansWindow file.index q.startNs q.endNs then none
  else if q.startNs.any fun start => file.index.endNs.any fun stop => stop < start then
    match s.earlyTopics backend q file.index with
    | [] => none
    | topics => some (some topics)
  else none

/-- `_window_members`. -/
def windowMembers (q : Query) (members : List (File D)) : Except ε (List (File D × Want)) :=
  match s.selectChains backend q
      (members.splitBy fun a b => continues a.rotation b.rotation) with
  | .error e => .error e
  | .ok chosen =>
      .ok (chosen.filterMap fun (file, selection) =>
        (selection.or (s.earlySelection backend q file)).map (file, ·))

/-- The decoder state that is carried along a stream, and the file before. -/
structure StreamState (Ctx : Type*) where
  carried : Option (Carried Ctx) := none
  previous : Option Rotation := none

/-- A turn of the loop of `_one_stream`. -/
def streamFile (q : Query) (state : StreamState Ctx) (member : File D × Want) :
    Gen (Triple Topic (Value Img D V)) (ReadError ε) (StreamState Ctx) :=
  let carried :=
    if continues state.previous member.1.rotation then state.carried
    else if member.1.rotation.isSome && !q.rawAll then some {} else none
  (s.iterFile backend q member.1 member.2 carried).andThen fun carried =>
    .done { carried := carried, previous := member.1.rotation }

/-- `_one_stream`. -/
def oneStream (q : Query) (members : List (File D)) :
    Gen (Triple Topic (Value Img D V)) (ReadError ε) Unit :=
  match s.windowMembers backend q members with
  | .error e => .raise (.adapter e)
  | .ok chosen => (Gen.each (s.streamFile backend q) {} chosen).andThen fun _ => .done ()

/-- `_raw`. -/
def rawItems (q : Query) : Gen (Triple Topic (Value Img D V)) (ReadError ε) Unit :=
  Gen.merge Triple.arrivalNs (s.streams.map (s.oneStream backend q))

/-- The window that is read: the reorder window wider on both sides. -/
def readQuery (q : Query) : Query :=
  { q with startNs := q.startNs.map (· - s.reorderNs), endNs := q.endNs.map (· + s.reorderNs) }

/-- `stream`, where no `frame_info` is joined. -/
def stream (q : Query) : Gen (Element Topic (Value Img D V)) (ReadError ε) Unit :=
  let ordered := reorder s.reorderNs (s.rawItems backend (s.readQuery q))
  { ordered with
    items := ordered.items.filter fun element => inWindow q.startNs q.endNs element.tNs }

end Session

end VisioSchema.Reader

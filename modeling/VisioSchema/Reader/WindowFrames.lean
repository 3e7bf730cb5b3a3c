import VisioSchema.Reader.Chains
import VisioSchema.Reader.Selection

/-!
# The frames of a window

A windowed pass reads of a chain the files that the window meets, and as many before them as its
cameras need (`ChainRead`).  What it yields of a camera at the times of the window is what the
pass over the whole chain yields (`timed_frames_marked`).

## Strategy

The frames of a camera come from its access units alone (`tripleFrames_iterMessage`), so a chain
is a run of the camera over the access units of its files (`frames_chain`).  Two runs are
compared, one from the first file on and one from a keyframe before the window.

* **At the front.**  From a keyframe on the two runs agree (`cameraRun_windowed`).  Between that
  keyframe and the window lie files that are read for their samples alone; these leave the
  decoders as they were, and yield no frame (`Blank.early`, `tripleFrames_early`).
* **At the end.**  The access units are in order of time, so those behind the window are cut off
  together (`cut_at_end`), and their frames would lie outside (`timed_cameraRun_append`).
-/

namespace VisioSchema.Reader

open VisioSchema.Library VisioSchema.Wire

variable {D Ctx Img V ε : Type*}

/-- What is asked of a file: its messages are read in order of time and lie within its bounds, if
they are known; the index lists them, and counts them; and topics that are one without a device's
prefix are one topic, of one schema. -/
structure File.Indexed (device : Option Text) (file : File D) : Prop where
  ordered : file.messages.Pairwise fun a b => a.logTime ≤ b.logTime
  bounded : ∀ lo hi, file.index.startNs = some lo → file.index.endNs = some hi →
    ∀ m ∈ file.messages, lo ≤ m.logTime ∧ m.logTime ≤ hi
  listed : ∀ m ∈ file.messages, ∃ entry ∈ file.index.topics,
    entry.topic = m.topic ∧ entry.schema = m.schema ∧ entry.count ≠ 0
  named : ∀ entry ∈ file.index.topics, ∀ other ∈ file.index.topics, ∀ name,
    stripDevice device entry.topic = some name → stripDevice device other.topic = some name →
      entry.topic = other.topic ∧ entry.schema = other.schema

/-- The same selection without a window. -/
def Query.unbounded (q : Query) : Query := { q with startNs := none, endNs := none }

theorem File.Indexed.listsVideo {device : Option Text} {file : File D}
    (hfile : file.Indexed device) : Session.ListsVideo file := by
  intro m hm hschema
  obtain ⟨entry, hentry, htopic, hsame, -⟩ := hfile.listed m hm
  exact ⟨entry, hentry, htopic, hsame.trans hschema⟩

/-- A file outside a window has no message at its times. -/
theorem File.Indexed.outside {device : Option Text} {file : File D} (hfile : file.Indexed device)
    {startNs endNs : Option ℤ} (houtside : spansWindow file.index startNs endNs = false)
    {m : Message D} (hm : m ∈ file.messages) : inWindow startNs endNs m.logTime = false :=
  Session.inWindow_outside houtside fun lo hi hlo hhi => hfile.bounded lo hi hlo hhi m hm

namespace Session

variable {s : Session D} {backend : Backend D Ctx Img V ε} {topic : Topic} {q : Query}

/-! ## Frames come from access units -/

/-- What is no access unit of a camera yields no frame of it. -/
theorem tripleFrames_iterMessage {built : List Schema} {rawSet : List Topic} {carry : Bool}
    {pass : Pass Ctx D} {m : Message D} (hnot : s.isUnitOf rawSet topic m = false) :
    tripleFrames topic (s.iterMessage backend built rawSet carry pass m).items = [] := by
  unfold iterMessage
  split
  next schema other hschema hstrip =>
    split
    next =>
      refine tripleFrames_other fun triple htriple => ?_
      rw [List.mem_singleton.mp htriple]
      rfl
    next hraw =>
      split
      next => rfl
      next =>
        split
        next hvideo =>
          have hne : other ≠ topic := by
            rintro rfl
            simp [isUnitOf, hschema, hstrip, hvideo.1, hraw] at hnot
          refine tripleFrames_other fun triple htriple => ?_
          unfold videoMessage at htriple
          split at htriple
          next => cases htriple
          next hdecoded =>
            obtain ⟨image, frameId, rfl⟩ := decodeUnit_items hdecoded triple htriple
            simp [isFrameOf, hne]
        next => exact adapted_frames _ _
  next => rfl

/-- A file without access units of a camera yields no frame of it. -/
theorem tripleFrames_iterFile {file : File D} {want : Want} {carried : Option (Carried Ctx)}
    (hnone : ∀ m ∈ readMessages file (s.wantedPrefixed file.index want false) q.endNs,
      s.isUnitOf q.rawSet topic m = false) (hraw : q.rawAll = false) :
    tripleFrames topic (s.iterFile backend q file want carried).items = [] := by
  refine tripleFrames_other ?_
  unfold iterFile
  dsimp only
  rw [hraw]
  split
  next =>
    intro triple htriple
    cases htriple
  next =>
    refine Gen.andThen_forall (Gen.each_forall (fun pass m hm triple htriple => ?_) _) ?_
    · have hframes := @tripleFrames_iterMessage _ _ _ _ _ s backend topic
        (adapterSchemas file.index ((s.wantedPrefixed file.index want false).filter fun topic =>
          (stripDevice s.device topic).all fun canon => canon ∉ q.rawSet)) q.rawSet
        (carried.isSome && !backend.custom .video) pass m (hnone m hm)
      have hin := List.filter_eq_nil_iff.mp hframes triple htriple
      rwa [Bool.not_eq_true] at hin
    · intro pass _
      refine Gen.andThen_forall (Gen.each_forall (fun pass schema _ triple htriple => ?_) _) ?_
      · unfold flushAdapter at htriple
        split at htriple
        next => cases htriple
        next =>
          obtain ⟨source, -, rfl⟩ := List.mem_map.mp htriple
          rfl
      · intro pass _ triple htriple
        cases htriple

/-! ## A chain -/

/-- The decoders that a file is read with. -/
def carriedInto (q : Query) (state : StreamState Ctx) (file : File D) : Option (Carried Ctx) :=
  if continues state.previous file.rotation then state.carried
  else if file.rotation.isSome && !q.rawAll then some {} else none

theorem streamFile_eq (state : StreamState Ctx) (file : File D) (want : Want) :
    s.streamFile backend q state (file, want) =
      (s.iterFile backend q file want (carriedInto q state file)).andThen fun carried =>
        .done { carried := carried, previous := file.rotation } := rfl

/-- A file that is read with decoders leaves some, and passes a camera on. -/
theorem streamFile_carries (hbuiltin : backend.custom .video = false) (hraw : q.rawAll = false)
    (topic : Topic) {file : File D} (hlists : ListsVideo file) {want : Want}
    {state next : StreamState Ctx} {carried : Carried Ctx}
    (hcarried : carriedInto q state file = some carried)
    (hreturns : (s.streamFile backend q state (file, want)).Returns next) :
    (∃ left : Carried Ctx, next = ⟨some left, file.rotation⟩ ∧
        (cameraRun backend topic (carried.camera topic)
          (s.unitsOf { q with want := want } topic file)).Returns (left.camera topic)) ∧
      tripleFrames topic (s.streamFile backend q state (file, want)).items =
        (cameraRun backend topic (carried.camera topic)
          (s.unitsOf { q with want := want } topic file)).items := by
  rw [streamFile_eq, hcarried] at hreturns ⊢
  obtain ⟨after, hfile, hdone⟩ := Gen.returns_andThen.mp hreturns
  cases hdone
  obtain ⟨left, rfl⟩ := Option.isSome_iff_exists.mp (isSome_of_iterFile rfl hfile)
  have hruns : RunsCamera backend topic (carried.camera topic) (carriedCamera topic)
      (s.unitsOf { q with want := want } topic file)
      (s.iterFile backend { q with want := want } file want (some carried)) :=
    @runsCamera_iterFile _ _ _ _ _ s backend topic { q with want := want } hbuiltin hraw _ hlists
      carried
  obtain ⟨hcamera, hframes⟩ := hruns _ hfile
  rw [Gen.items_andThen_done]
  exact ⟨⟨left, rfl, hcamera⟩, hframes⟩

/-- The files of a chain run a camera from the first one on. -/
theorem frames_chain (hbuiltin : backend.custom .video = false) (hraw : q.rawAll = false)
    (topic : Topic) {chain : List (File D)} (hlists : ∀ file ∈ chain, ListsVideo file)
    (hchain : chain.IsChain fun a b => continues a.rotation b.rotation = true)
    {state final : StreamState Ctx} {camera : Camera Ctx}
    (hstart : ∀ file ∈ chain.head?, ∃ carried : Carried Ctx,
      carriedInto q state file = some carried ∧ carried.camera topic = camera)
    (hreturns : (Gen.each (s.streamFile backend q) state (chain.map (·, q.want))).Returns final) :
    (∃ last, (cameraRun backend topic camera (chain.flatMap (s.unitsOf q topic))).Returns last) ∧
      tripleFrames topic (Gen.each (s.streamFile backend q) state (chain.map (·, q.want))).items =
        (cameraRun backend topic camera (chain.flatMap (s.unitsOf q topic))).items := by
  induction chain generalizing state camera with
  | nil => exact ⟨⟨camera, rfl⟩, rfl⟩
  | cons file rest ih =>
      obtain ⟨carried, hcarried, rfl⟩ := hstart file rfl
      rw [List.map_cons, Gen.each_cons] at hreturns ⊢
      obtain ⟨next, hfile, hrest⟩ := Gen.returns_andThen.mp hreturns
      obtain ⟨⟨left, rfl, hcamera⟩, hframes⟩ := streamFile_carries hbuiltin hraw topic
        (hlists file (List.mem_cons_self ..)) hcarried hfile
      have hnext : ∀ other ∈ rest.head?, ∃ carried : Carried Ctx,
          carriedInto q ⟨some left, file.rotation⟩ other = some carried ∧
            carried.camera topic = left.camera topic := by
        intro other hother
        obtain ⟨others, rfl⟩ := List.head?_eq_some_iff.mp hother
        have hcontinues : continues file.rotation other.rotation = true :=
          (List.isChain_cons_cons.mp hchain).1
        exact ⟨left, if_pos hcontinues, rfl⟩
      obtain ⟨⟨last, hlast⟩, hframes'⟩ := ih
        (fun other hother => hlists other (List.mem_cons_of_mem file hother)) hchain.tail hnext
        hrest
      rw [List.flatMap_cons, cameraRun_append, hcamera.andThen_eq, hfile.andThen_eq,
        tripleFrames_append, hframes, hframes']
      exact ⟨⟨last, hlast⟩, rfl⟩

/-! ## Files that are read for their samples alone -/

/-- A file that ends before a window does not meet any that starts with it. -/
theorem spansWindow_before {index : FileIndex} {startNs endNs : Option ℤ}
    (houtside : spansWindow index startNs endNs = false)
    (hbefore : (startNs.any fun start => index.endNs.any fun stop => stop < start) = true) :
    spansWindow index startNs none = false := by
  obtain ⟨start, hstart, hbefore⟩ := (Option.any_eq_true _ _).mp hbefore
  obtain ⟨hi, hhi, hbefore⟩ := (Option.any_eq_true _ _).mp hbefore
  rw [decide_eq_true_eq] at hbefore
  unfold spansWindow at houtside ⊢
  cases hlo : index.startNs with
  | none =>
      rw [hlo] at houtside
      cases houtside
  | some lo => simp [hhi, hstart, hbefore]

/-- What is read of a file for its samples: the window does not meet it, nor does any that starts
with the window. -/
theorem earlySelection_cases {file : File D} {want : Want}
    (hearly : s.earlySelection backend q file = some want) :
    want = some (s.earlyTopics backend q file.index) ∧
      spansWindow file.index q.startNs none = false := by
  unfold earlySelection at hearly
  split at hearly
  next => cases hearly
  next houtside =>
    rw [Bool.not_eq_true, Bool.or_eq_false_iff] at houtside
    split at hearly
    next hbefore =>
      refine ⟨?_, spansWindow_before houtside.2 hbefore⟩
      split at hearly
      next => cases hearly
      next => exact (Option.some.inj hearly).symm
    next => cases hearly

/-- Where nothing is joined, `frame_info` is read from where the window starts. -/
theorem infoStart_of_lead (hlead : q.infoLeadNs = 0) :
    q.startNs.map (· - q.infoLeadNs) = q.startNs := by
  rw [hlead]
  simp

/-- No access unit of a camera is read for samples. -/
theorem unitsOf_early (hbuiltin : backend.custom .video = false) (hlead : q.infoLeadNs = 0)
    {file : File D} (hfile : file.Indexed s.device) {want : Want}
    (hearly : s.earlySelection backend q file = some want) (topic : Topic) :
    s.unitsOf { q with want := want } topic file = [] := by
  obtain ⟨rfl, hspans⟩ := earlySelection_cases hearly
  refine List.filter_eq_nil_iff.mpr fun m hm => ?_
  obtain ⟨hmem, hselected⟩ := List.mem_filter.mp hm
  simp only [isSelected, isUnitOf, Bool.and_eq_true, decide_eq_true_eq, Option.all_some]
    at hselected
  obtain ⟨⟨⟨hschema, hstrip⟩, -⟩, hin⟩ := hselected
  -- the topic would be one of samples, and is one of video
  obtain ⟨entry, hentry, htopic⟩ := List.mem_filterMap.mp hin
  split at htopic
  next htest =>
    obtain ⟨own, hown, hownTopic, hownSchema, -⟩ := hfile.listed m hmem
    have hname : stripDevice s.device entry.topic = some topic :=
      (Option.filter_eq_some_iff.mp htopic).1
    obtain ⟨-, hsame⟩ := hfile.named entry hentry own hown topic hname (hownTopic ▸ hstrip)
    obtain ⟨-, -, htest⟩ := htest
    dsimp only at htest
    rw [hsame, hownSchema, hschema, infoStart_of_lead hlead, hspans, Option.any_some, hbuiltin,
      Bool.and_false] at htest
    cases htest
  next => cases htopic

/-- The files of a list that are read for their samples. -/
def earlyMembers (s : Session D) (backend : Backend D Ctx Img V ε) (q : Query)
    (files : List (File D)) : List (File D × Want) :=
  files.filterMap fun file => (s.earlySelection backend q file).map (file, ·)

/-- Whichever file of a chain is next, its decoders hold nothing of a camera. -/
def Blank (q : Query) (topic : Topic) (chain : List (File D)) (state : StreamState Ctx) : Prop :=
  ∀ file ∈ chain, ∃ carried : Carried Ctx,
    carriedInto q state file = some carried ∧ carried.camera topic = {}

theorem blank_of_fresh (hraw : q.rawAll = false) {chain : List (File D)}
    (hmarked : ∀ file ∈ chain, file.rotation.isSome = true) {state : StreamState Ctx}
    (hfresh : ∀ file ∈ chain, continues state.previous file.rotation = false) :
    Blank q topic chain state := by
  intro file hfile
  refine ⟨{}, ?_, rfl⟩
  rw [carriedInto, hfresh file hfile, hmarked file hfile, hraw]
  rfl

theorem earlyMembers_cons (file : File D) (rest : List (File D)) :
    s.earlyMembers backend q (file :: rest) =
      ((s.earlySelection backend q file).map (file, ·)).toList ++
        s.earlyMembers backend q rest := by
  rw [earlyMembers, List.filterMap_cons]
  cases s.earlySelection backend q file with
  | none => rfl
  | some want => rfl

/-- Files that are read for their samples leave the decoders of a chain blank. -/
theorem Blank.early (hbuiltin : backend.custom .video = false) (hraw : q.rawAll = false)
    (hlead : q.infoLeadNs = 0) {chain files : List (File D)}
    (hmarked : ∀ file ∈ chain, file.rotation.isSome = true)
    (hindexed : ∀ file ∈ chain, file.Indexed s.device) (hfiles : ∀ file ∈ files, file ∈ chain)
    {state next : StreamState Ctx} (hblank : Blank q topic chain state)
    (hreturns : (Gen.each (s.streamFile backend q) state
      (s.earlyMembers backend q files)).Returns next) : Blank q topic chain next := by
  induction files generalizing state with
  | nil =>
      cases hreturns
      exact hblank
  | cons file rest ih =>
      have hrest : ∀ file ∈ rest, file ∈ chain := fun other hother =>
        hfiles other (List.mem_cons_of_mem file hother)
      have hfile := hfiles file (List.mem_cons_self ..)
      rw [earlyMembers_cons] at hreturns
      cases hearly : s.earlySelection backend q file with
      | none =>
          rw [hearly] at hreturns
          exact ih hrest hblank hreturns
      | some want =>
          rw [hearly] at hreturns
          change (Gen.each (s.streamFile backend q) state
            ((file, want) :: s.earlyMembers backend q rest)).Returns next at hreturns
          rw [Gen.each_cons] at hreturns
          obtain ⟨between, hfirst, hlater⟩ := Gen.returns_andThen.mp hreturns
          obtain ⟨carried, hcarried, hempty⟩ := hblank file hfile
          obtain ⟨⟨left, rfl, hcamera⟩, -⟩ := streamFile_carries hbuiltin hraw topic
            (hindexed file hfile).listsVideo hcarried hfirst
          rw [unitsOf_early hbuiltin hlead (hindexed file hfile) hearly] at hcamera
          have hleft : left.camera topic = {} := (Except.ok.inj hcamera).symm.trans hempty
          refine ih hrest (fun other hother => ?_) hlater
          unfold carriedInto
          split
          next => exact ⟨left, rfl, hleft⟩
          next =>
            rw [hmarked other hother, hraw]
            exact ⟨{}, rfl, rfl⟩

/-- Files that are read for their samples yield no frame. -/
theorem tripleFrames_early (hbuiltin : backend.custom .video = false) (hraw : q.rawAll = false)
    (hlead : q.infoLeadNs = 0) {files : List (File D)}
    (hindexed : ∀ file ∈ files, file.Indexed s.device)
    (state : StreamState Ctx) :
    tripleFrames topic (Gen.each (s.streamFile backend q) state
      (s.earlyMembers backend q files)).items = [] := by
  refine tripleFrames_other (Gen.each_forall (fun state member hmember triple htriple => ?_) state)
  obtain ⟨file, hfile, hmap⟩ := List.mem_filterMap.mp hmember
  obtain ⟨want, hearly, rfl⟩ := Option.map_eq_some_iff.mp hmap
  have hnone := unitsOf_early hbuiltin hlead (hindexed file hfile) hearly topic
  rw [← readMessages_units (hindexed file hfile).listsVideo] at hnone
  rw [streamFile_eq, Gen.items_andThen_done] at htriple
  have hframes := @tripleFrames_iterFile _ _ _ _ _ s backend topic q file want
    (carriedInto q state file)
    (fun m hm => Bool.eq_false_iff.mpr (List.filter_eq_nil_iff.mp hnone m hm)) hraw
  exact Bool.eq_false_iff.mpr (List.filter_eq_nil_iff.mp hframes triple htriple)

/-! ## A camera's run over a window -/

variable {startNs endNs : Option ℤ} {inside : ℤ → Bool} {camera next next' : Camera Ctx}
  {units : List (Message D)}

/-- Access units of other times at the end of a run do not tell. -/
theorem timed_cameraRun_append (camera : Camera Ctx) (units : List (Message D))
    {behind : List (Message D)} (hbehind : ∀ m ∈ behind, inside m.logTime = false)
    (hreturns : (cameraRun backend topic camera (units ++ behind)).Returns next) :
    (∃ last, (cameraRun backend topic camera units).Returns last) ∧
      timed inside (cameraRun backend topic camera (units ++ behind)).items =
        timed inside (cameraRun backend topic camera units).items := by
  rw [cameraRun_append] at hreturns ⊢
  obtain ⟨last, hunits, -⟩ := Gen.returns_andThen.mp hreturns
  rw [hunits.andThen_eq, timed_append, timed_cameraRun_outside hbehind, List.append_nil]
  exact ⟨⟨last, hunits⟩, rfl⟩

/-- Messages in order of time are cut at the end of a window. -/
theorem cut_at_end (hordered : units.Pairwise fun a b => a.logTime ≤ b.logTime)
    (endNs : Option ℤ) : ∃ late, (∀ m ∈ late, inWindow startNs endNs m.logTime = false) ∧
      units = (units.filter fun m => endNs.all fun stop => m.logTime < stop) ++ late := by
  refine ⟨units.filter fun m => !endNs.all fun stop => m.logTime < stop, fun m hm => ?_, ?_⟩
  · obtain ⟨-, hlate⟩ := List.mem_filter.mp hm
    rw [Bool.not_eq_true'] at hlate
    rw [inWindow, hlate, Bool.and_false]
  · induction units with
    | nil => rfl
    | cons m rest ih =>
        obtain ⟨hfirst, hrest⟩ := List.pairwise_cons.mp hordered
        have hcut := ih hrest
        cases hread : endNs.all fun stop => decide (m.logTime < stop) with
        | true =>
            rw [List.filter_cons_of_pos (by simpa using hread),
              List.filter_cons_of_neg (by simp [hread]), List.cons_append, ← hcut]
        | false =>
            -- nothing behind it is read either
            have hnone : (rest.filter fun m => endNs.all fun stop => m.logTime < stop) = [] := by
              refine List.filter_eq_nil_iff.mpr fun other hother => ?_
              have hle := hfirst other hother
              cases endNs with
              | none => cases hread
              | some stop =>
                  simp only [Option.all_some, decide_eq_false_iff_not, decide_eq_true_eq] at hread ⊢
                  omega
            rw [hnone, List.nil_append] at hcut
            rw [List.filter_cons_of_neg (by simpa using hread), hnone, List.nil_append,
              List.filter_cons_of_pos (by simp [hread]), ← hcut]

/-- A run from the last keyframe before a window on, or from an earlier one, yields at the times of
the window what a run over all access units yields. -/
theorem cameraRun_windowed (hrestarts : backend.av.Restarts) {before behind : List (Message D)}
    (hordered : (before ++ (units ++ behind)).Pairwise fun a b => a.logTime < b.logTime)
    (hbefore : ∀ m ∈ before, inWindow startNs endNs m.logTime = false)
    (hbehind : ∀ m ∈ behind, inWindow startNs endNs m.logTime = false)
    (hinside : ∀ t, inside t = true → inWindow startNs endNs t = true)
    (hkey : before ≠ [] → ∀ start, startNs = some start →
      (∃ m ∈ units, inWindow startNs endNs m.logTime = true) →
      ∃ m ∈ units, m.logTime ≤ start ∧ IsKeyUnit backend m)
    (hreturns : (cameraRun backend topic {} (before ++ (units ++ behind))).Returns next)
    (hreturns' : (cameraRun backend topic {}
      (units.filter fun m => endNs.all fun stop => m.logTime < stop)).Returns next') :
    timed inside (cameraRun backend topic {} (before ++ (units ++ behind))).items =
      timed inside (cameraRun backend topic {}
        (units.filter fun m => endNs.all fun stop => m.logTime < stop)).items := by
  have houtside : ∀ t, inWindow startNs endNs t = false → inside t = false := by
    intro t ht
    by_contra hin
    rw [Bool.not_eq_false] at hin
    cases ht.symm.trans (hinside t hin)
  obtain ⟨hbeforeOrdered, hrestOrdered, hcross⟩ := List.pairwise_append.mp hordered
  obtain ⟨late, hlate, hunits⟩ := @cut_at_end _ startNs units
    ((List.pairwise_append.mp hrestOrdered).1.imp le_of_lt) endNs
  generalize hread : (units.filter fun m => endNs.all fun stop => m.logTime < stop) = read
    at hunits hreturns' ⊢
  -- what is behind the window does not tell
  have hall : before ++ (units ++ behind) = (before ++ read) ++ (late ++ behind) := by
    rw [hunits]
    simp
  rw [hall] at hreturns ⊢
  obtain ⟨⟨last, hlast⟩, hitems⟩ := timed_cameraRun_append _ _ (fun m hm =>
    (List.mem_append.mp hm).elim (fun hm => houtside _ (hlate m hm))
      fun hm => houtside _ (hbehind m hm)) hreturns
  rw [hitems]
  have hreadUnits : ∀ m ∈ read, m ∈ units := fun m hm => by
    rw [hunits]
    exact List.mem_append_left _ hm
  by_cases hsome : ∃ m ∈ read, inWindow startNs endNs m.logTime = true
  · by_cases hnil : before = []
    · rw [hnil, List.nil_append]
    · obtain ⟨early, hearly⟩ := List.exists_mem_of_ne_nil before hnil
      obtain ⟨m₀, hm₀, hin⟩ := hsome
      have hlt : early.logTime < m₀.logTime :=
        hcross early hearly m₀ (List.mem_append_left _ (hreadUnits m₀ hm₀))
      have hearlyOut := hbefore early hearly
      rw [inWindow, Bool.and_eq_true] at hin
      cases hstart : startNs with
      | none =>
          -- a window without a start holds what is before its end
          rw [hstart, inWindow] at hearlyOut
          cases hend : endNs with
          | none =>
              rw [hend] at hearlyOut
              cases hearlyOut
          | some stop =>
              rw [hend] at hin hearlyOut
              simp only [Option.all_some, Option.all_none, Bool.true_and, decide_eq_true_eq,
                decide_eq_false_iff_not] at hin hearlyOut
              omega
      | some start =>
          obtain ⟨m, hm, hmStart, hmKey⟩ := hkey hnil start hstart
            ⟨m₀, hreadUnits m₀ hm₀, by rw [inWindow, Bool.and_eq_true]; exact hin⟩
          rw [hstart] at hin
          have hmRead : m ∈ read := by
            rw [← hread]
            refine List.mem_filter.mpr ⟨hm, ?_⟩
            cases hend : endNs with
            | none => rfl
            | some stop =>
                rw [hend] at hin
                simp only [Option.all_some, decide_eq_true_eq] at hin ⊢
                omega
          obtain ⟨front, back, hsplit⟩ := List.append_of_mem hmRead
          have hreadOrdered : (before ++ read).Pairwise fun a b => a.logTime < b.logTime := by
            rw [hall] at hordered
            exact (List.pairwise_append.mp hordered).1
          rw [hsplit, ← List.append_assoc] at hreadOrdered hlast ⊢
          have hfront : ∀ n ∈ before ++ front, inside n.logTime = false := by
            intro n hn
            have hbeforeKey : n.logTime < m.logTime :=
              (List.pairwise_append.mp hreadOrdered).2.2 n hn m (List.mem_cons_self ..)
            refine houtside _ ?_
            rw [inWindow, hstart, Option.all_some, decide_eq_false (by omega), Bool.false_and]
          rw [hsplit] at hreturns'
          exact cameraRun_restarts hrestarts (Camera.made_empty _) (Camera.made_empty _) hmKey
            hfront (fun n hn => hfront n (List.mem_append_right _ hn)) hlast hreturns'
  · -- nothing of the window is read
    have hnone : ∀ m ∈ read, inside m.logTime = false := by
      intro m hm
      refine houtside _ ?_
      by_contra hin
      exact hsome ⟨m, hm, by simpa using hin⟩
    rw [timed_cameraRun_outside hnone, timed_cameraRun_outside]
    intro m hm
    rcases List.mem_append.mp hm with hm | hm
    · exact houtside _ (hbefore m hm)
    · exact hnone m hm

/-! ## Marked chains -/

/-- The files that are read of a selection. -/
def membersOf (s : Session D) (backend : Backend D Ctx Img V ε) (q : Query)
    (chosen : List (File D × Option Want)) : List (File D × Want) :=
  chosen.filterMap fun (file, selection) =>
    (selection.or (s.earlySelection backend q file)).map (file, ·)

theorem ChainRead.members {chain skipped read rest : List (File D)}
    {chosen : List (File D × Option Want)}
    (hread : s.ChainRead backend q chain skipped read rest chosen) :
    s.membersOf backend q chosen = s.earlyMembers backend q skipped ++
      (read.map (·, q.want) ++ s.earlyMembers backend q rest) := by
  have hnone : ∀ files : List (File D), s.membersOf backend q (files.map (·, none)) =
      s.earlyMembers backend q files := by
    intro files
    rw [membersOf, List.filterMap_map]
    rfl
  have hsome : s.membersOf backend q (read.map (·, some q.want)) = read.map (·, q.want) := by
    rw [membersOf, List.filterMap_map, ← List.filterMap_eq_map]
    rfl
  rw [hread.chosen_eq, membersOf, List.filterMap_append, List.filterMap_append]
  exact congrArg₂ _ (hnone skipped) (congrArg₂ _ hsome (hnone rest))

/-- An access unit that is read is counted by the index. -/
theorem mem_countedVideo {file : File D} (hfile : file.Indexed s.device) {m : Message D}
    (hm : m ∈ file.messages) (hselected : s.isSelected q topic m = true) :
    topic ∈ s.countedVideo q file := by
  simp only [isSelected, isUnitOf, Bool.and_eq_true, decide_eq_true_eq] at hselected
  obtain ⟨⟨⟨hschema, hstrip⟩, hraw⟩, hwant⟩ := hselected
  obtain ⟨entry, hentry, htopic, hsame, hcount⟩ := hfile.listed m hm
  have hwanted : entry.topic ∈ s.wantedPrefixed file.index q.want false := by
    rw [htopic]
    refine (@mem_wantedPrefixed_iff _ s topic q _ m ?_ ⟨entry, hentry, htopic,
      hsame.trans hschema⟩).mpr hwant
    simp [isUnitOf, hschema, hstrip, hraw]
  refine List.mem_filterMap.mpr ⟨entry, hentry, ?_⟩
  rw [if_pos ⟨hcount, hwanted, by simp [hsame, hschema]⟩, htopic, hstrip]
  simpa using hraw

/-- A keyframe that the walk back found is an access unit of its camera. -/
theorem KeyIn.selected {start : ℤ} {file : File D} (hfile : file.Indexed s.device) {m : Message D}
    (hkey : s.KeyIn backend start topic file m) (hraw : topic ∉ q.rawSet)
    (hwant : (q.want.all fun topics => decide (topic ∈ topics)) = true) :
    s.isSelected q topic m = true := by
  obtain ⟨entry, hentry, htopic, hvideo⟩ := hkey.listed
  obtain ⟨own, hown, hownTopic, hownSchema, -⟩ := hfile.listed m hkey.mem
  obtain ⟨-, hsame⟩ := hfile.named entry hentry own hown topic (htopic ▸ hkey.strip)
    (hownTopic ▸ hkey.strip)
  have hschema : m.schema = some .video := by rw [← hownSchema, ← hsame, hvideo]
  simp [isSelected, isUnitOf, hschema, hkey.strip, hraw, hwant]

section Marked

variable {chain skipped read rest : List (File D)} {chosen : List (File D × Option Want)}
  {state final state' final' : StreamState Ctx}

/-- What is read of a marked chain runs a camera over the access units of the files that are read
in full. -/
theorem frames_marked (hbuiltin : backend.custom .video = false) (hraw : q.rawAll = false)
    (hlead : q.infoLeadNs = 0) (topic : Topic)
    (hread : s.ChainRead backend q chain skipped read rest chosen)
    (hchain : chain.IsChain fun a b => continues a.rotation b.rotation = true)
    (hmarked : ∀ file ∈ chain, file.rotation.isSome = true)
    (hindexed : ∀ file ∈ chain, file.Indexed s.device)
    (hfresh : ∀ file ∈ chain, continues state.previous file.rotation = false)
    (hreturns : (Gen.each (s.streamFile backend q) state
      (s.membersOf backend q chosen)).Returns final) :
    (∃ last, (cameraRun backend topic {} (read.flatMap (s.unitsOf q topic))).Returns last) ∧
      tripleFrames topic (Gen.each (s.streamFile backend q) state
          (s.membersOf backend q chosen)).items =
        (cameraRun backend topic {} (read.flatMap (s.unitsOf q topic))).items := by
  have hsplit := hread.split
  have hskippedChain : ∀ file ∈ skipped, file ∈ chain := by
    rw [hsplit]
    exact fun file hfile => List.mem_append_left _ hfile
  have hreadChain : ∀ file ∈ read, file ∈ chain := by
    rw [hsplit]
    exact fun file hfile => List.mem_append_right _ (List.mem_append_left _ hfile)
  have hrestChain : ∀ file ∈ rest, file ∈ chain := by
    rw [hsplit]
    exact fun file hfile => List.mem_append_right _ (List.mem_append_right _ hfile)
  rw [hread.members, Gen.each_append] at hreturns ⊢
  obtain ⟨before, hskipped, hrest⟩ := Gen.returns_andThen.mp hreturns
  rw [Gen.each_append] at hrest
  obtain ⟨behind, hbody, htail⟩ := Gen.returns_andThen.mp hrest
  have hblank : Blank q topic chain before :=
    (blank_of_fresh hraw hmarked hfresh).early hbuiltin hraw hlead hmarked hindexed hskippedChain
      hskipped
  have hreadRun : read.IsChain fun a b => continues a.rotation b.rotation = true := by
    rw [hsplit] at hchain
    exact hchain.right_of_append.left_of_append
  obtain ⟨hlast, hframes⟩ := frames_chain hbuiltin hraw topic
    (fun file hfile => (hindexed file (hreadChain file hfile)).listsVideo) hreadRun
    (fun file hfile => hblank file (hreadChain file (List.mem_of_mem_head? hfile))) hbody
  refine ⟨hlast, ?_⟩
  rw [hskipped.andThen_eq, tripleFrames_append, Gen.each_append, hbody.andThen_eq,
    tripleFrames_append, hframes,
    tripleFrames_early hbuiltin hraw hlead
      (fun file hfile => hindexed file (hskippedChain file hfile)),
    tripleFrames_early hbuiltin hraw hlead
      (fun file hfile => hindexed file (hrestChain file hfile)),
    List.nil_append, List.append_nil]

/-- The access units that are read up to the end of a window. -/
theorem flatMap_unitsOf (files : List (File D)) :
    files.flatMap (s.unitsOf q topic) = (files.flatMap (s.unitsOf q.unbounded topic)).filter
      fun m => q.endNs.all fun stop => m.logTime < stop := by
  rw [List.filter_flatMap]
  refine congrArg (fun f => List.flatMap f files) (funext fun file => ?_)
  have hunbounded : s.unitsOf q.unbounded topic file =
      file.messages.filter (s.isSelected q topic) := unitsOf_unbounded rfl file
  rw [hunbounded]
  rfl

/-- A marked chain yields of a camera, at the times of a window, what it yields without one. -/
theorem timed_frames_marked (hbuiltin : backend.custom .video = false) (hraw : q.rawAll = false)
    (hlead : q.infoLeadNs = 0) (hrestarts : backend.av.Restarts)
    (hread : s.ChainRead backend q chain skipped read rest chosen)
    (hchain : chain.IsChain fun a b => continues a.rotation b.rotation = true)
    (hmarked : ∀ file ∈ chain, file.rotation.isSome = true)
    (hindexed : ∀ file ∈ chain, file.Indexed s.device)
    (hordered : (chain.flatMap (s.unitsOf q.unbounded topic)).Pairwise fun a b =>
      a.logTime < b.logTime)
    (hinside : ∀ t, inside t = true → inWindow q.startNs q.endNs t = true)
    (hfresh : ∀ file ∈ chain, continues state.previous file.rotation = false)
    (hfresh' : ∀ file ∈ chain, continues state'.previous file.rotation = false)
    (hfull : (Gen.each (s.streamFile backend q.unbounded) state
      (chain.map (·, q.unbounded.want))).Returns final)
    (hwindow : (Gen.each (s.streamFile backend q) state'
      (s.membersOf backend q chosen)).Returns final') :
    timed inside (tripleFrames topic (Gen.each (s.streamFile backend q.unbounded) state
        (chain.map (·, q.unbounded.want))).items) =
      timed inside (tripleFrames topic (Gen.each (s.streamFile backend q) state'
        (s.membersOf backend q chosen)).items) := by
  have hraw' : q.unbounded.rawAll = false := hraw
  -- Both passes run the camera over access units: the one over all, the other over those of the
  -- files that are read, up to the end of the window.
  obtain ⟨⟨last, hlast⟩, hframes⟩ := frames_chain hbuiltin hraw' topic
    (fun file hfile => (hindexed file hfile).listsVideo) hchain
    (fun file hfile => blank_of_fresh hraw' hmarked hfresh file (List.mem_of_mem_head? hfile))
    hfull
  obtain ⟨⟨last', hlast'⟩, hframes'⟩ := frames_marked hbuiltin hraw hlead topic hread hchain hmarked
    hindexed hfresh' hwindow
  rw [flatMap_unitsOf] at hlast' hframes'
  have hflat : chain.flatMap (s.unitsOf q.unbounded topic) =
      skipped.flatMap (s.unitsOf q.unbounded topic) ++
        (read.flatMap (s.unitsOf q.unbounded topic) ++
          rest.flatMap (s.unitsOf q.unbounded topic)) := by
    rw [hread.split, List.flatMap_append, List.flatMap_append]
  have hunits : ∀ file : File D, s.unitsOf q.unbounded topic file =
      file.messages.filter (s.isSelected q topic) := fun file => unitsOf_unbounded rfl file
  have hunit : ∀ files : List (File D), ∀ m ∈ files.flatMap (s.unitsOf q.unbounded topic),
      ∃ file ∈ files, m ∈ file.messages ∧ s.isSelected q topic m = true := by
    intro files m hm
    obtain ⟨file, hfile, hm⟩ := List.mem_flatMap.mp hm
    rw [hunits] at hm
    exact ⟨file, hfile, List.mem_filter.mp hm⟩
  have hchainMem : ∀ file ∈ skipped ++ (read ++ rest), file ∈ chain := by
    rw [← hread.split]
    exact fun file hfile => hfile
  -- Files that are not read in full lie outside the window.
  have houtside : ∀ files : List (File D), (∀ file ∈ files, file ∈ skipped ++ rest) →
      (∀ file ∈ files, file ∈ chain) → ∀ m ∈ files.flatMap (s.unitsOf q.unbounded topic),
      inWindow q.startNs q.endNs m.logTime = false := by
    intro files hfiles hin m hm
    obtain ⟨file, hfile, hmem, -⟩ := hunit files m hm
    exact (hindexed file (hin file hfile)).outside (hread.outside file (hfiles file hfile)) hmem
  rw [hframes, hframes']
  rw [hflat] at hlast hordered ⊢
  refine cameraRun_windowed hrestarts hordered ?_ ?_ hinside ?_ hlast hlast'
  · exact houtside skipped (fun file hfile => List.mem_append_left _ hfile)
      fun file hfile => hchainMem file (List.mem_append_left _ hfile)
  · exact houtside rest (fun file hfile => List.mem_append_right _ hfile)
      fun file hfile => hchainMem file (List.mem_append_right _ (List.mem_append_right _ hfile))
  · -- a camera of files before and in the window has a keyframe that is read
    rintro hsome start hstart ⟨m₀, hm₀, hin⟩
    obtain ⟨early, hearly⟩ := List.exists_mem_of_ne_nil _ hsome
    obtain ⟨earlyFile, hearlyFile, hearlyMem, hearlySelected⟩ := hunit skipped early hearly
    obtain ⟨file₀, hfile₀, hmem₀, hselected₀⟩ := hunit read m₀ hm₀
    have hchain₀ := hchainMem file₀ (List.mem_append_right _ (List.mem_append_left _ hfile₀))
    have hspans : spansWindow file₀.index q.startNs q.endNs = true := by
      by_contra hout
      rw [Bool.not_eq_true] at hout
      cases hin.symm.trans ((hindexed file₀ hchain₀).outside hout hmem₀)
    obtain ⟨file, hfile, m, hkey⟩ := hread.preroll start hstart hraw hbuiltin hmarked topic
      ⟨earlyFile, hearlyFile, mem_countedVideo
        (hindexed earlyFile (hchainMem earlyFile (List.mem_append_left _ hearlyFile)))
        hearlyMem hearlySelected⟩
      ⟨file₀, hfile₀, hspans, mem_countedVideo (hindexed file₀ hchain₀) hmem₀ hselected₀⟩
    simp only [isSelected, isUnitOf, Bool.and_eq_true, decide_eq_true_eq] at hselected₀
    have hselected := hkey.selected
      (hindexed file (hchainMem file (List.mem_append_right _ (List.mem_append_left _ hfile))))
      hselected₀.1.2 (by simpa using hselected₀.2)
    refine ⟨m, List.mem_flatMap.mpr ⟨file, hfile, ?_⟩, hkey.early, hkey.key⟩
    rw [hunits]
    exact List.mem_filter.mpr ⟨hkey.mem, hselected⟩

end Marked

end Session

end VisioSchema.Reader

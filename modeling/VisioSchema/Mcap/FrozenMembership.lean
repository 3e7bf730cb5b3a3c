import VisioSchema.Mcap.WriterEndpoint
import VisioSchema.Routing.Bijection

/-!
# Frozen membership

An endpoint with a rotation policy records the video of the cameras selected when it was built.
A camera that reconnects comes under a fresh id and is recognised by its topic, as long as a
frame under the selected id has come through: the topics of the selected ids are only learned
from such frames.

## Strategy

The registry belongs to the bus, and the endpoint reads it whenever a message comes in.  A
`Scene` is both, with the channel that every id has ever named, and an event is a call of the
registry or an input of the endpoint.  Of the endpoint only three fields matter, its
`membership`; everything that it does beside `Send` leaves them alone.

The invariant `Tracked` says of the caches what they hold: for each cached id the channel that a
message under it has to be recorded on (`Right`).  The first message of an id is the only one
that the registry is asked about.  Whether the answer is right depends on whether the camera came
first under its selected id (`Primed`, `Tracked.standsFor_right`), which makes the run lemma an
equivalence (`run_membership_iff`).
-/

namespace VisioSchema.Mcap

open VisioSchema.Wire VisioSchema.Library VisioSchema.Routing

/-! ## The registry around the endpoint -/

/-- The registry that resolves, the endpoint it resolves for, and the channel that every id
has ever named. -/
structure Scene where
  registry : ChannelRegistry
  endpoint : McapWriterEndpoint
  known : ℕ → Option Channel

namespace Scene

/-- What happens to the scene. -/
inductive Event
  /-- `Forget` of the cameras that are gone. -/
  | disconnect (ids : List ℕ)
  /-- A channel is announced; only a fresh id comes through. -/
  | appear (channel : Channel)
  /-- A section of the endpoint; what a `Send` resolves to is the registry's to say. -/
  | endpoint (input : McapWriterEndpoint.Input)

variable (blob : List Byte) (videoIds : List ℕ)

/-- The input as the registry answers it. -/
def asked (r : ChannelRegistry) : McapWriterEndpoint.Input → McapWriterEndpoint.Input
  | .send msg _ canPut => .send msg (r.resolve blob msg.streamId) canPut
  | input => input

def step (s : Scene) : Event → Scene
  | .disconnect ids => { s with registry := s.registry.forget ids }
  | .appear channel =>
      if s.known channel.id = none ∧ channel.id ∉ videoIds then
        match s.registry.learn .cpp channel with
        | .ok registry =>
            { s with
              registry := registry
              known := Function.update s.known channel.id (some channel) }
        | .error _ => s
      else s
  | .endpoint input => { s with endpoint := s.endpoint.step (asked blob s.registry input) }

/-- The endpoint is built over a registry. -/
def opened (policy : Transport.WritePolicy) (opening : ChannelRegistry) : Scene where
  registry := opening
  endpoint := McapWriterEndpoint.make policy (some videoIds)
  known := opening.resolve blob

/-! ## What is promised -/

/-- The channel of a selected id, as the registry had it when the endpoint was built. -/
def Original (opening : ChannelRegistry) (topic : String) (channel : Channel) : Prop :=
  ∃ id ∈ videoIds, opening.resolve blob id = some channel ∧ channel.topic = topic

def SelectedTopic (opening : ChannelRegistry) (topic : String) : Prop :=
  ∃ channel, Original blob videoIds opening topic channel

/-- A video message that resolves passes the membership check exactly when its topic is
selected, and then carries the channel of the selected id. -/
def Faithful (opening : ChannelRegistry) (s : Scene) : Event → Prop
  | .endpoint (.send msg _ _) =>
      ∀ own channel, s.known msg.streamId = some own → isVideo own = true →
        (s.endpoint.resolve msg.streamId (s.registry.resolve blob msg.streamId)).2 =
          some channel →
        ((s.endpoint.resolve msg.streamId (s.registry.resolve blob msg.streamId)).1.frozenOut
            channel = false ↔ SelectedTopic blob videoIds opening own.topic) ∧
          (SelectedTopic blob videoIds opening own.topic →
            Original blob videoIds opening own.topic channel)
  | _ => True

/-- A message that comes first under its id is not one of a selected camera that came back
before any message under its selected id was resolved. -/
def Primed (opening : ChannelRegistry) (s : Scene) : Event → Prop
  | .endpoint (.send msg _ _) =>
      s.endpoint.channelCache msg.streamId = none →
        ∀ own, s.registry.resolve blob msg.streamId = some own → isVideo own = true →
          SelectedTopic blob videoIds opening own.topic →
          msg.streamId ∈ videoIds ∨ s.endpoint.selectedVideoTopics own.topic ≠ none
  | _ => True

end Scene

/-! ## What the membership check reads -/

namespace McapWriterEndpoint

/-- The caches and the selection of an endpoint. -/
def membership (s : McapWriterEndpoint) :
    (ℕ → Option Channel) × (String → Option Channel) × List ℕ × Bool :=
  (s.channelCache, s.selectedVideoTopics, s.selectedVideoIds, s.freezeVideoMembership)

variable (s : McapWriterEndpoint)

theorem membership_enqueueEntry (entry : Entry) :
    (s.enqueueEntry entry).membership = s.membership := by
  unfold enqueueEntry
  split <;> rfl

theorem membership_send (msg : Message) (resolved : Option Channel) (canPut : Bool) :
    (s.send msg resolved canPut).membership = (s.resolve msg.streamId resolved).1.membership := by
  unfold send
  dsimp only
  split
  · rfl
  · split
    · rfl
    · exact membership_enqueueEntry _ _

theorem membership_ioStep (answer : Answer) : (s.ioStep answer).membership = s.membership := by
  cases hpc : s.pc with
  | account releaser => cases releaser <;> simp only [ioStep, hpc, accountStep, membership]
  | wait =>
      simp only [ioStep, hpc, swap]
      split <;> rfl
  | drain =>
      simp only [ioStep, hpc, drainStep]
      split
      · rfl
      · split
        · rfl
        · split <;> rfl
  | release =>
      simp only [ioStep, hpc, popBatch]
      split <;> rfl
  | clean =>
      simp only [ioStep, hpc, popBatch]
      split
      · rfl
      · split <;> rfl
  | inline =>
      simp only [ioStep, hpc, popQueue]
      split
      · rfl
      · split <;> rfl
  | decide | flush =>
      simp only [ioStep, hpc]
      split <;> rfl
  | write =>
      simp only [ioStep, hpc, writeStep]
      split <;> rfl
  | _ => simp only [ioStep, hpc, membership]

theorem membership_stopFor (spawns forever : Bool) :
    (s.stopFor spawns forever).membership = s.membership := by
  unfold stopFor
  dsimp only
  split
  · rfl
  · split
    · rfl
    · split <;> rfl

/-- The channel that a video id of a known topic stands for. -/
def standsFor (own : Channel) : Channel :=
  ((if isVideo own then s.selectedVideoTopics own.topic else none)).getD own

theorem resolve_cached {streamId : ℕ} {channel : Channel} (resolved : Option Channel)
    (hcache : s.channelCache streamId = some channel) :
    s.resolve streamId resolved = (s, some channel) := by
  simp only [resolve, hcache]

theorem resolve_unmapped {streamId : ℕ} (hcache : s.channelCache streamId = none) :
    (s.resolve streamId none).2 = none ∧
      (s.resolve streamId none).1.membership = s.membership := by
  simp only [resolve, hcache]
  split <;> exact ⟨trivial, rfl⟩

/-- The first message of an id that resolves. -/
theorem resolve_first {streamId : ℕ} (own : Channel) (hcache : s.channelCache streamId = none) :
    s.resolve streamId (some own) =
      ({ s with
          selectedVideoTopics :=
            if (s.standsFor own).id ∈ s.selectedVideoIds ∧
                s.selectedVideoTopics (s.standsFor own).topic = none then
              Function.update s.selectedVideoTopics (s.standsFor own).topic
                (some (s.standsFor own))
            else s.selectedVideoTopics
          channelCache := Function.update s.channelCache streamId (some (s.standsFor own)) },
        some (s.standsFor own)) := by
  simp only [resolve, hcache]
  rfl

/-- Resolving leaves the selection alone. -/
theorem resolve_frozenOut (streamId : ℕ) (resolved : Option Channel) (channel : Channel) :
    (s.resolve streamId resolved).1.frozenOut channel = s.frozenOut channel := by
  unfold resolve
  split
  · rfl
  · split
    · split <;> rfl
    · rfl

/-- A message resolves from the cache, or its channel is taken from the registry. -/
theorem resolve_some {streamId : ℕ} {resolved : Option Channel} {channel : Channel}
    (hfound : (s.resolve streamId resolved).2 = some channel) :
    s.channelCache streamId = some channel ∧ (s.resolve streamId resolved).1 = s ∨
      s.channelCache streamId = none ∧ ∃ own, resolved = some own ∧ s.standsFor own = channel := by
  cases hcache : s.channelCache streamId with
  | some kept =>
      rw [resolve_cached s resolved hcache] at hfound ⊢
      exact .inl ⟨hfound, rfl⟩
  | none =>
      cases resolved with
      | none =>
          rw [(resolve_unmapped s hcache).1] at hfound
          cases hfound
      | some own =>
          rw [resolve_first s own hcache] at hfound
          exact .inr ⟨rfl, own, rfl, Option.some.inj hfound⟩

end McapWriterEndpoint

namespace Scene

open McapWriterEndpoint

variable {blob : List Byte} {videoIds : List ℕ} {opening : ChannelRegistry} {s : Scene}

/-! ## The invariant -/

/-- The channel that a message under an id of `own` has to be recorded on. -/
structure Right (blob : List Byte) (videoIds : List ℕ) (opening : ChannelRegistry)
    (own channel : Channel) : Prop where
  selected : isVideo own = true → SelectedTopic blob videoIds opening own.topic →
    Original blob videoIds opening own.topic channel
  other : (isVideo own = true → ¬ SelectedTopic blob videoIds opening own.topic) → channel = own

/-- An id names one channel for good, and the caches hold what they have to hold. -/
structure Tracked (blob : List Byte) (videoIds : List ℕ) (opening : ChannelRegistry) (s : Scene) :
    Prop where
  selection : s.endpoint.selectedVideoIds = videoIds
  frozen : s.endpoint.freezeVideoMembership = true
  keyed : ∀ id own, s.known id = some own → own.id = id
  live : ∀ id own, s.registry.resolve blob id = some own → s.known id = some own
  chosen : ∀ id ∈ videoIds, s.known id = opening.resolve blob id
  topics : ∀ topic channel, s.endpoint.selectedVideoTopics topic = some channel →
    Original blob videoIds opening topic channel
  cached : ∀ id channel, s.endpoint.channelCache id = some channel →
    ∃ own, s.known id = some own ∧ Right blob videoIds opening own channel

theorem Tracked.of_membership (htracked : Tracked blob videoIds opening s)
    {endpoint : McapWriterEndpoint} (hsame : endpoint.membership = s.endpoint.membership) :
    Tracked blob videoIds opening { s with endpoint := endpoint } := by
  simp only [membership, Prod.mk.injEq] at hsame
  obtain ⟨hcache, htopics, hselection, hfrozen⟩ := hsame
  exact
    { selection := hselection.trans htracked.selection
      frozen := hfrozen.trans htracked.frozen
      keyed := htracked.keyed
      live := htracked.live
      chosen := htracked.chosen
      topics := fun topic channel hkept => htracked.topics topic channel (htopics ▸ hkept)
      cached := fun id channel hkept => htracked.cached id channel (hcache ▸ hkept) }

/-- The channel of a selected id is the one it had at the start. -/
theorem Tracked.original (htracked : Tracked blob videoIds opening s) {id : ℕ} {own : Channel}
    (hown : s.known id = some own) (hselected : own.id ∈ videoIds) :
    Original blob videoIds opening own.topic own := by
  have hid : own.id = id := htracked.keyed id own hown
  refine ⟨own.id, hselected, ?_, rfl⟩
  rw [← htracked.chosen own.id hselected, hid]
  exact hown

theorem Tracked.original_id (htracked : Tracked blob videoIds opening s) {topic : String}
    {channel : Channel} (horiginal : Original blob videoIds opening topic channel) :
    channel.id ∈ videoIds := by
  obtain ⟨id, hid, hchannel, -⟩ := horiginal
  have hkeyed : channel.id = id := htracked.keyed id channel (htracked.chosen id hid ▸ hchannel)
  rwa [hkeyed]

/-- The right channel passes the check exactly when the topic is selected. -/
theorem Tracked.frozenOut (htracked : Tracked blob videoIds opening s) {id : ℕ}
    {own channel : Channel} (hown : s.known id = some own) (hvideo : isVideo own = true)
    (hright : Right blob videoIds opening own channel) :
    s.endpoint.frozenOut channel = false ↔ SelectedTopic blob videoIds opening own.topic := by
  constructor
  · intro hpasses
    by_contra hother
    have hsame : channel = own := hright.other fun _ => hother
    subst hsame
    have hselected : channel.id ∈ videoIds := by
      simpa [McapWriterEndpoint.frozenOut, htracked.frozen, htracked.selection, hvideo]
        using hpasses
    exact hother ⟨channel, htracked.original hown hselected⟩
  · intro hselected
    have hid : channel.id ∈ videoIds :=
      htracked.original_id (hright.selected hvideo hselected)
    simp [McapWriterEndpoint.frozenOut, htracked.selection, hid]

/-! ## The first message of an id -/

theorem Tracked.standsFor_eq (htracked : Tracked blob videoIds opening s) (own : Channel) :
    s.endpoint.standsFor own = own ∨
      isVideo own = true ∧
        Original blob videoIds opening own.topic (s.endpoint.standsFor own) := by
  unfold standsFor
  by_cases hvideo : isVideo own = true
  · rw [if_pos hvideo]
    cases htopic : s.endpoint.selectedVideoTopics own.topic with
    | none => exact .inl rfl
    | some channel => exact .inr ⟨hvideo, htracked.topics own.topic channel htopic⟩
  · exact .inl (by rw [if_neg hvideo]; rfl)

/-- The channel is the right one when the camera came first under its selected id. -/
theorem Tracked.standsFor_right (htracked : Tracked blob videoIds opening s) {id : ℕ}
    {own : Channel} (hown : s.known id = some own)
    (hprimed : isVideo own = true → SelectedTopic blob videoIds opening own.topic →
      id ∈ videoIds ∨ s.endpoint.selectedVideoTopics own.topic ≠ none) :
    Right blob videoIds opening own (s.endpoint.standsFor own) where
  selected := by
    intro hvideo hselected
    rcases hprimed hvideo hselected with hid | hlearned
    · rcases htracked.standsFor_eq own with hsame | ⟨-, horiginal⟩
      · rw [hsame]
        refine htracked.original hown ?_
        rwa [htracked.keyed id own hown]
      · exact horiginal
    · obtain ⟨channel, hchannel⟩ := Option.ne_none_iff_exists'.mp hlearned
      have hstands : s.endpoint.standsFor own = channel := by
        simp [standsFor, hvideo, hchannel]
      rw [hstands]
      exact htracked.topics own.topic channel hchannel
  other := by
    intro hother
    rcases htracked.standsFor_eq own with hsame | ⟨hvideo, horiginal⟩
    · exact hsame
    · exact absurd ⟨_, horiginal⟩ (hother hvideo)

theorem Tracked.first (htracked : Tracked blob videoIds opening s) {id : ℕ} {own : Channel}
    (hown : s.known id = some own) (hcache : s.endpoint.channelCache id = none)
    (hright : Right blob videoIds opening own (s.endpoint.standsFor own)) :
    Tracked blob videoIds opening
      { s with endpoint := (s.endpoint.resolve id (some own)).1 } := by
  rw [resolve_first s.endpoint own hcache]
  refine
    { selection := htracked.selection
      frozen := htracked.frozen
      keyed := htracked.keyed
      live := htracked.live
      chosen := htracked.chosen
      topics := ?_
      cached := ?_ }
  · intro topic channel hkept
    dsimp only at hkept
    split at hkept
    next hnew =>
      by_cases htopic : topic = (s.endpoint.standsFor own).topic
      · subst htopic
        have hsame : s.endpoint.standsFor own = channel := by simpa using hkept
        subst hsame
        rcases htracked.standsFor_eq own with hsame | ⟨-, horiginal⟩
        · rw [hsame]
          refine htracked.original hown ?_
          rw [← htracked.selection, ← hsame]
          exact hnew.1
        · obtain ⟨other, hother, hchannel, -⟩ := horiginal
          exact ⟨other, hother, hchannel, rfl⟩
      · rw [Function.update_of_ne htopic] at hkept
        exact htracked.topics topic channel hkept
    · exact htracked.topics topic channel hkept
  · intro other channel hkept
    by_cases hid : other = id
    · subst hid
      have hsame : s.endpoint.standsFor own = channel := by simpa using hkept
      exact ⟨own, hown, hsame ▸ hright⟩
    · refine htracked.cached other channel ?_
      simpa [Function.update_of_ne hid] using hkept

/-! ## Steps -/

theorem Tracked.send (htracked : Tracked blob videoIds opening s) (msg : Message) (canPut : Bool)
    (hprimed : s.endpoint.channelCache msg.streamId = none →
      ∀ own, s.registry.resolve blob msg.streamId = some own → isVideo own = true →
        SelectedTopic blob videoIds opening own.topic →
        msg.streamId ∈ videoIds ∨ s.endpoint.selectedVideoTopics own.topic ≠ none) :
    Tracked blob videoIds opening
      { s with
        endpoint := s.endpoint.send msg (s.registry.resolve blob msg.streamId) canPut } := by
  -- the queue and the drop bound are beside the caches
  suffices hresolved : Tracked blob videoIds opening
      { s with
        endpoint :=
          (s.endpoint.resolve msg.streamId (s.registry.resolve blob msg.streamId)).1 } by
    exact hresolved.of_membership (membership_send s.endpoint msg _ canPut)
  cases hcache : s.endpoint.channelCache msg.streamId with
  | some channel =>
      rw [resolve_cached s.endpoint _ hcache]
      exact htracked
  | none =>
      cases hlive : s.registry.resolve blob msg.streamId with
      | none => exact htracked.of_membership (resolve_unmapped s.endpoint hcache).2
      | some own =>
          have hown : s.known msg.streamId = some own := htracked.live _ own hlive
          exact htracked.first hown hcache
            (htracked.standsFor_right hown (hprimed hcache own hlive))

theorem Tracked.appear (htracked : Tracked blob videoIds opening s) {channel : Channel}
    (hfresh : s.known channel.id = none) (hother : channel.id ∉ videoIds) :
    Tracked blob videoIds opening
      { s with
        registry := s.registry.bind channel
        known := Function.update s.known channel.id (some channel) } where
  selection := htracked.selection
  frozen := htracked.frozen
  keyed := by
    intro id own hown
    by_cases hid : id = channel.id
    · subst hid
      have hsame : channel = own := by simpa using hown
      rw [hsame]
    · exact htracked.keyed id own (by simpa [Function.update_of_ne hid] using hown)
  live := by
    intro id own hown
    by_cases hid : id = channel.id
    · subst hid
      -- The reserved id resolves already, so a fresh id is another one.
      have hinfo : channel.id ≠ kDeviceInfo := by
        intro hinfo
        have hlive := htracked.live channel.id (ChannelRegistry.deviceInfoChannel blob)
          (by rw [ChannelRegistry.resolve, if_pos hinfo])
        rw [hfresh] at hlive
        cases hlive
      have hsame : channel = own := by
        simpa [ChannelRegistry.resolve, hinfo, ChannelRegistry.bind] using hown
      simp [hsame]
    · dsimp only
      rw [Function.update_of_ne hid]
      refine htracked.live id own ?_
      simpa [ChannelRegistry.resolve, ChannelRegistry.bind, Function.update_of_ne hid] using hown
  chosen := by
    intro id hid
    have hne : id ≠ channel.id := fun hsame => hother (hsame ▸ hid)
    dsimp only
    rw [Function.update_of_ne hne]
    exact htracked.chosen id hid
  topics := htracked.topics
  cached := by
    intro id kept hkept
    obtain ⟨own, hown, hright⟩ := htracked.cached id kept hkept
    have hne : id ≠ channel.id := by
      rintro rfl
      rw [hfresh] at hown
      cases hown
    refine ⟨own, ?_, hright⟩
    dsimp only
    rwa [Function.update_of_ne hne]

theorem Tracked.step (htracked : Tracked blob videoIds opening s) (event : Event)
    (hprimed : Primed blob videoIds opening s event) :
    Tracked blob videoIds opening (s.step blob videoIds event) := by
  cases event with
  | disconnect ids =>
      refine { htracked with live := ?_ }
      intro id own hown
      refine htracked.live id own ?_
      unfold ChannelRegistry.resolve at hown ⊢
      split at hown
      next hinfo => rwa [if_pos hinfo]
      next hdata =>
        rw [if_neg hdata]
        exact ChannelRegistry.forget_byId hown
  | appear channel =>
      simp only [Scene.step]
      split
      next hfresh =>
        cases hlearn : s.registry.learn .cpp channel with
        | error e => exact htracked
        | ok r =>
            rw [(ChannelRegistry.learn_eq_ok.mp hlearn).1]
            exact htracked.appear hfresh.1 hfresh.2
      · exact htracked
  | endpoint input =>
      cases input with
      | send msg resolved canPut => exact htracked.send msg canPut hprimed
      | start =>
          refine htracked.of_membership ?_
          change (if _ then _ else _ : McapWriterEndpoint).membership = _
          split <;> rfl
      | stopFor spawns forever => exact htracked.of_membership (membership_stopFor _ _ _)
      | storageRefuses => exact htracked.of_membership rfl
      | io answer => exact htracked.of_membership (membership_ioStep _ _)

/-- A message is treated as promised exactly when its camera came first under its selected
id. -/
theorem Tracked.faithful_iff (htracked : Tracked blob videoIds opening s) (event : Event) :
    Faithful blob videoIds opening s event ↔ Primed blob videoIds opening s event := by
  cases event with
  | disconnect ids => exact Iff.rfl
  | appear channel => exact Iff.rfl
  | endpoint input =>
      cases input with
      | send msg resolved canPut =>
          constructor
          · intro hfaithful hcache own hlive hvideo hselected
            by_contra hunprimed
            rw [not_or, not_not] at hunprimed
            obtain ⟨hnew, hunlearned⟩ := hunprimed
            have hown : s.known msg.streamId = some own := htracked.live _ own hlive
            have hstands : s.endpoint.standsFor own = own := by
              simp [standsFor, hvideo, hunlearned]
            have hpasses := (hfaithful own own hown hvideo (by
              rw [hlive, resolve_first s.endpoint own hcache, hstands])).1.mpr hselected
            rw [resolve_frozenOut] at hpasses
            have hid : own.id = msg.streamId := htracked.keyed _ own hown
            simp [McapWriterEndpoint.frozenOut, htracked.frozen, htracked.selection, hvideo, hid,
              hnew] at hpasses
          · intro hprimed own channel hown hvideo hfound
            have hright : Right blob videoIds opening own channel := by
              rcases resolve_some s.endpoint hfound with ⟨hcache, -⟩ | ⟨hcache, live, hlive, rfl⟩
              · obtain ⟨kept, hkept, hright⟩ := htracked.cached _ channel hcache
                rw [hown] at hkept
                rwa [Option.some.inj hkept]
              · have hknown := htracked.live _ live hlive
                rw [hown] at hknown
                obtain rfl := Option.some.inj hknown
                exact htracked.standsFor_right hown (hprimed hcache own hlive)
            rw [resolve_frozenOut]
            exact ⟨htracked.frozenOut hown hvideo hright, hright.selected hvideo⟩
      | _ => exact Iff.rfl

/-! ## Runs -/

theorem opened_tracked (policy : Transport.WritePolicy) (hkeyed : opening.Keyed) :
    Tracked blob videoIds opening (opened blob videoIds policy opening) where
  selection := rfl
  frozen := rfl
  keyed := by
    intro id own hown
    simp only [opened, ChannelRegistry.resolve] at hown
    split at hown
    next hinfo =>
      obtain rfl := Option.some.inj hown
      exact hinfo.symm
    · exact hkeyed id own hown
  live := fun _ _ hown => hown
  chosen := fun _ _ => rfl
  topics := fun _ _ hkept => nomatch hkept
  cached := fun _ _ hkept => nomatch hkept

/-- An endpoint over any registry that has come up by calls: every message of a run is
treated as promised exactly when no camera comes back under a new id before a message under
its selected id was resolved. -/
theorem run_membership_iff (decode : List Byte → Option (List Channel)) (blob : List Byte)
    (videoIds : List ℕ) (policy : Transport.WritePolicy) (calls : List ChannelRegistry.Call)
    (events : List Event) :
    let opening := calls.foldl (ChannelRegistry.step .cpp decode blob) {}
    Along (step blob videoIds) (Faithful blob videoIds opening)
        (opened blob videoIds policy opening) events ↔
      Along (step blob videoIds) (Primed blob videoIds opening)
        (opened blob videoIds policy opening) events := by
  intro opening
  refine along_congr (I := Tracked blob videoIds opening) (fun s event hs => hs.faithful_iff event)
    (fun s event hs hprimed => hs.step event hprimed) ?_ events
  exact opened_tracked policy (ChannelRegistry.run_keyed .cpp decode blob calls)

/-! ## A camera that is lost -/

def cameraChannel (id : ℕ) : Channel where
  id := id
  topic := "/cam0"
  schemaName := kCompressedVideoSchema

/-- The selected camera reconnects before its first frame. -/
def earlyReconnect : List Event :=
  [.disconnect [16], .appear (cameraChannel 17), .endpoint (.send { streamId := 17 } none true)]

/-- The frame resolves, its topic is selected, and the check drops it. -/
theorem not_run_membership :
    ¬ Along (step [] [16])
      (Faithful [] [16]
        ([.learn (cameraChannel 16)].foldl (ChannelRegistry.step .cpp (fun _ => none) []) {}))
      (opened [] [16] {}
        ([.learn (cameraChannel 16)].foldl (ChannelRegistry.step .cpp (fun _ => none) []) {}))
      earlyReconnect := by
  intro hall
  have hfaithful := hall.2.2.1 (cameraChannel 17) (cameraChannel 17) (by decide +kernel)
    (by decide +kernel) (by decide +kernel)
  have hselected : SelectedTopic [] [16]
      ([.learn (cameraChannel 16)].foldl (ChannelRegistry.step .cpp (fun _ => none) []) {})
      "/cam0" := ⟨cameraChannel 16, 16, by decide, by decide +kernel, rfl⟩
  exact absurd (hfaithful.1.mpr hselected) (by decide +kernel)

end Scene

end VisioSchema.Mcap

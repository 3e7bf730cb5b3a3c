import VisioSchema.Library.Claims
import VisioSchema.Routing.Bijection

/-!
# The registry of a relayed link

`RelayRegistry`: one TCP link carries the streams of many devices, and stays up when one of
them reconnects and announces its topics under new ids.  The strict registry refuses the new
ids, so the device stays silent.  The relay registry keeps the device that introduced each id;
where the same device announces a topic again, its old id is forgotten first.

What both resolve is read off the log of all announced channels.  A topic belongs to whoever
announced it first: under the first id in the strict registry, for the first device in the
relayed one.
-/

namespace VisioSchema.Routing

open VisioSchema.Library VisioSchema.Wire

/-- A decoded `DeviceInfo`, as far as `on_announce` reads it. -/
structure DeviceAnnounce where
  deviceName : String
  channels : List Channel
  deriving DecidableEq, Repr

/-- A registry, and the device whose announce introduced each learned id. -/
structure RelayRegistry where
  registry : ChannelRegistry := {}
  owner : ℕ → Option String := fun _ => none

namespace RelayRegistry

/-- The topic is mapped to another id that the same device introduced: it reconnected, and the
old id is dead. -/
def dropStale (device : String) (r : RelayRegistry) (channel : Channel) : RelayRegistry :=
  match r.registry.topicToId channel.topic with
  | some existing =>
      if existing ≠ channel.id ∧ r.owner existing = some device then
        { registry := r.registry.forget [existing]
          owner := Function.update r.owner existing none }
      else r
  | none => r

/-- One channel of an announce; a collision with another device is logged and skipped. -/
def learnFrom (device : String) (r : RelayRegistry) (channel : Channel) : RelayRegistry :=
  match (r.dropStale device channel).registry.learn .python channel with
  | .ok registry =>
      { registry := registry
        owner := Function.update (r.dropStale device channel).owner channel.id (some device) }
  | .error _ => r.dropStale device channel

/-- `on_announce`; `decode` is the protobuf decoder, `none` where the payload is malformed. -/
def onAnnounce (decode : List Byte → Option DeviceAnnounce) (r : RelayRegistry)
    (payload : List Byte) : RelayRegistry :=
  match decode payload with
  | some info => info.channels.foldl (learnFrom info.deviceName) r
  | none => r

/-- `accept`, which is inherited and calls the `on_announce` of this class. -/
def accept (decode : List Byte → Option DeviceAnnounce) (blob : List Byte) (r : RelayRegistry)
    (msg : Message) : Routed × RelayRegistry :=
  if msg.streamId = kDeviceInfo then ({}, r.onAnnounce decode msg.payload)
  else
    -- past the announces the base method decodes nothing
    ((r.registry.accept .python (fun _ => none) blob msg).1,
      { r with registry := (r.registry.accept .python (fun _ => none) blob msg).2 })

end RelayRegistry

/-- What `_resolved_with_device_info` yields for one message. -/
def resolvedRow (blob : List Byte) (msg : Message) (routed : Routed) :
    List (Option Message × Channel) :=
  match routed.channel with
  | some channel => [(routed.message, channel)]
  | none =>
      if msg.streamId = kDeviceInfo then
        [(some msg, ChannelRegistry.deviceInfoChannel blob)]
      else []

/-- `read_tcp_resolved`: `_resolved_with_device_info` over a relayed link. -/
def readTcpResolved (decode : List Byte → Option DeviceAnnounce) (blob : List Byte) :
    RelayRegistry → List Message → List (Option Message × Channel)
  | _, [] => []
  | r, msg :: rest =>
      resolvedRow blob msg (r.accept decode blob msg).1 ++
        readTcpResolved decode blob (r.accept decode blob msg).2 rest

/-- `read_serial_resolved`: `_resolved_with_device_info` over the link of one device. -/
def readSerialResolved (decode : List Byte → Option DeviceAnnounce) (blob : List Byte) :
    ChannelRegistry → List Message → List (Option Message × Channel)
  | _, [] => []
  | r, msg :: rest =>
      let channels payload := (decode payload).map DeviceAnnounce.channels
      resolvedRow blob msg (r.accept .python channels blob msg).1 ++
        readSerialResolved decode blob (r.accept .python channels blob msg).2 rest

/-! ## The log of announced channels -/

/-- A channel, with the device that announced it. -/
structure Announced where
  device : String
  channel : Channel
  deriving DecidableEq, Repr

def Announced.topic (entry : Announced) : String := entry.channel.topic

def Announced.id (entry : Announced) : ℕ := entry.channel.id

/-- What a message announces. -/
def announcedBy (decode : List Byte → Option DeviceAnnounce) (msg : Message) : List Announced :=
  if msg.streamId = kDeviceInfo then
    match decode msg.payload with
    | some info => info.channels.map fun channel => ⟨info.deviceName, channel⟩
    | none => []
  else []

/-- No id is announced by two devices, or with two topics. -/
def SingleUse (heard : List Announced) : Prop :=
  ∀ first ∈ heard, ∀ second ∈ heard, first.id = second.id →
    first.device = second.device ∧ first.topic = second.topic

/-- The live channel of an id: some topic is held by it. -/
def liveChannel {κ : Type*} [DecidableEq κ] (key : Announced → κ) (heard : List Announced)
    (id : ℕ) : Option Channel :=
  heard.findSome? fun entry =>
    ((holder Announced.topic key heard entry.topic).filter fun held => held.id = id).map
      Announced.channel

/-- What a viewer gets for a message after what was `heard`. -/
def heardRow {κ : Type*} [DecidableEq κ] (key : Announced → κ) (blob : List Byte)
    (heard : List Announced) (msg : Message) : List (Option Message × Channel) :=
  if msg.streamId = kDeviceInfo then [(some msg, ChannelRegistry.deviceInfoChannel blob)]
  else if msg.streamId < kFirstDynamic then []
  else (liveChannel key heard msg.streamId).toList.map fun channel => (some msg, channel)

/-- The rows of a link, from the announces alone. -/
def heardRows {κ : Type*} [DecidableEq κ] (key : Announced → κ)
    (decode : List Byte → Option DeviceAnnounce) (blob : List Byte) :
    List Announced → List Message → List (Option Message × Channel)
  | _, [] => []
  | heard, msg :: rest =>
      heardRow key blob heard msg ++
        heardRows key decode blob (heard ++ announcedBy decode msg) rest

/-! ## A registry that follows the log -/

/-- The registry holds exactly what the log of announced channels says is held. -/
structure Holds {κ : Type*} [DecidableEq κ] (key : Announced → κ) (heard : List Announced)
    (r : ChannelRegistry) : Prop where
  sound : r.Sound
  index : ∀ topic, r.topicToId topic = (holder Announced.topic key heard topic).map Announced.id
  entry : ∀ topic held, holder Announced.topic key heard topic = some held →
    r.byId held.id = some held.channel

section Holds

variable {κ : Type*} [DecidableEq κ] {key : Announced → κ} {heard : List Announced}
  {r : ChannelRegistry}

theorem holds_nil : Holds key [] {} where
  sound := ChannelRegistry.init_sound
  index := fun _ => rfl
  entry := by
    intro topic held hheld
    cases hheld

theorem Holds.of_byId (hholds : Holds key heard r) {id : ℕ} {channel : Channel}
    (hentry : r.byId id = some channel) :
    ∃ held, holder Announced.topic key heard channel.topic = some held ∧ held.id = id ∧
      held.channel = channel := by
  have hindex : r.topicToId channel.topic = some id :=
    (hholds.sound.inverse _ _).mpr ⟨channel, hentry, rfl⟩
  rw [hholds.index] at hindex
  obtain ⟨held, hheld, hid⟩ := Option.map_eq_some_iff.mp hindex
  refine ⟨held, hheld, hid, ?_⟩
  have hsame : r.byId held.id = some held.channel := hholds.entry _ _ hheld
  rw [hid, hentry] at hsame
  exact (Option.some.inj hsame).symm

/-- What is resolved is read off the log. -/
theorem Holds.byId_eq (hholds : Holds key heard r) (id : ℕ) :
    r.byId id = liveChannel key heard id := by
  have hlive : ∀ channel, liveChannel key heard id = some channel →
      r.byId id = some channel := by
    intro channel hchannel
    obtain ⟨entry, -, hentry⟩ := List.exists_of_findSome?_eq_some hchannel
    obtain ⟨held, hheld, rfl⟩ := Option.map_eq_some_iff.mp hentry
    obtain ⟨hheld, hid⟩ := Option.filter_eq_some_iff.mp hheld
    have hid : held.id = id := by simpa using hid
    rw [← hid]
    exact hholds.entry _ _ hheld
  cases hchannel : liveChannel key heard id with
  | some channel => exact hlive channel hchannel
  | none =>
      cases hentry : r.byId id with
      | none => rfl
      | some channel =>
          obtain ⟨held, hheld, hid, -⟩ := hholds.of_byId hentry
          obtain ⟨hmem, htopic, -⟩ := holder_spec hheld
          have hmissing := List.findSome?_eq_none_iff.mp hchannel held hmem
          rw [htopic, hheld] at hmissing
          simp [hid] at hmissing

/-- A channel that takes its topic, in a registry `cleared` of the old id of the topic. -/
theorem Holds.bind (hholds : Holds key heard r) {claim : Announced} {cleared : ChannelRegistry}
    (hsingle : ∀ entry ∈ heard, entry.id = claim.id → entry.topic = claim.topic)
    (htakes : holder Announced.topic key (heard ++ [claim]) claim.topic = some claim)
    (hsound : cleared.Sound)
    (hname : ∀ id, cleared.topicToId claim.topic = some id → id = claim.id)
    (hindex : ∀ topic, topic ≠ claim.topic → cleared.topicToId topic = r.topicToId topic)
    (hless : ∀ id channel, cleared.byId id = some channel → r.byId id = some channel)
    (hkept : ∀ id channel, r.byId id = some channel → channel.topic ≠ claim.topic →
      cleared.byId id = some channel) :
    Holds key (heard ++ [claim]) (cleared.bind claim.channel) where
  sound := by
    refine ChannelRegistry.bind_sound hsound hname ?_
    intro old hold
    obtain ⟨held, hheld, hid, hchannel⟩ := hholds.of_byId (hless _ _ hold)
    have htopic : held.topic = claim.topic := hsingle held (holder_spec hheld).1 hid
    rw [← hchannel]
    exact htopic
  index := by
    intro topic
    by_cases htopic : topic = claim.topic
    · subst htopic
      rw [htakes]
      exact Function.update_self ..
    · rw [holder_push_other (Ne.symm htopic), ← hholds.index, ← hindex topic htopic]
      exact Function.update_of_ne htopic ..
  entry := by
    intro topic held hheld
    by_cases htopic : topic = claim.topic
    · subst htopic
      rw [htakes] at hheld
      obtain rfl := Option.some.inj hheld
      exact Function.update_self ..
    · rw [holder_push_other (Ne.symm htopic)] at hheld
      obtain ⟨hmem, rfl, -⟩ := holder_spec hheld
      -- an entry of another topic is under another id
      have hid : held.id ≠ claim.id := fun hsame => htopic (hsingle held hmem hsame)
      refine (Function.update_of_ne hid ..).trans ?_
      exact hkept _ _ (hholds.entry _ _ hheld) htopic

/-- A channel whose topic is free, or held under its own id. -/
theorem Holds.bind_named (hholds : Holds key heard r) {claim : Announced}
    (hsingle : ∀ entry ∈ heard, entry.id = claim.id → entry.topic = claim.topic)
    (htakes : holder Announced.topic key (heard ++ [claim]) claim.topic = some claim)
    (hname : ∀ id, r.topicToId claim.topic = some id → id = claim.id) :
    Holds key (heard ++ [claim]) (r.bind claim.channel) :=
  hholds.bind hsingle htakes hholds.sound hname (fun _ _ => rfl) (fun _ _ h => h)
    fun _ _ h _ => h

/-- A channel that is refused leaves the registry as it is. -/
theorem Holds.refuse (hholds : Holds key heard r) {claim : Announced}
    (hrefused : ∀ topic, holder Announced.topic key (heard ++ [claim]) topic =
      holder Announced.topic key heard topic) :
    Holds key (heard ++ [claim]) r where
  sound := hholds.sound
  index := by
    intro topic
    rw [hrefused]
    exact hholds.index topic
  entry := by
    intro topic held hheld
    rw [hrefused] at hheld
    exact hholds.entry topic held hheld

end Holds

namespace RelayRegistry

variable {heard : List Announced} {r : RelayRegistry}

/-- The registry follows the log, and owns exactly the live ids. -/
structure Follows (heard : List Announced) (r : RelayRegistry) : Prop where
  holds : Holds Announced.device heard r.registry
  owned : ∀ topic held, holder Announced.topic Announced.device heard topic = some held →
    r.owner held.id = some held.device
  unowned : ∀ id, r.registry.byId id = none → r.owner id = none

theorem follows_nil : Follows [] {} where
  holds := holds_nil
  owned := by
    intro topic held hheld
    cases hheld
  unowned := fun _ _ => rfl

theorem learnFrom_of_ok {device : String} {channel : Channel} {registry : ChannelRegistry}
    (hok : (r.dropStale device channel).registry.learn .python channel = .ok registry) :
    r.learnFrom device channel =
      { registry := (r.dropStale device channel).registry.bind channel
        owner := Function.update (r.dropStale device channel).owner channel.id
          (some device) } := by
  rw [learnFrom, hok, (ChannelRegistry.learn_eq_ok.mp hok).1]

/-- A channel that takes its topic takes its id. -/
theorem Follows.bind (hfollows : Follows heard r) {claim : Announced} (cleared : RelayRegistry)
    (hsingle : ∀ entry ∈ heard, entry.id = claim.id → entry.topic = claim.topic)
    (htakes : holder Announced.topic Announced.device (heard ++ [claim]) claim.topic = some claim)
    (hbind : Holds Announced.device (heard ++ [claim]) (cleared.registry.bind claim.channel))
    (hkept : ∀ held, held.topic ≠ claim.topic →
      holder Announced.topic Announced.device heard held.topic = some held →
        cleared.owner held.id = r.owner held.id)
    (hless : ∀ id, cleared.registry.byId id = none → cleared.owner id = none) :
    Follows (heard ++ [claim])
      { registry := cleared.registry.bind claim.channel
        owner := Function.update cleared.owner claim.id (some claim.device) } where
  holds := hbind
  owned := by
    intro topic held hheld
    by_cases htopic : topic = claim.topic
    · subst htopic
      rw [htakes] at hheld
      obtain rfl := Option.some.inj hheld
      exact Function.update_self ..
    · rw [holder_push_other (Ne.symm htopic)] at hheld
      obtain ⟨hmem, rfl, -⟩ := holder_spec hheld
      have hid : held.id ≠ claim.id := fun hsame => htopic (hsingle held hmem hsame)
      calc Function.update cleared.owner claim.id (some claim.device) held.id
          = cleared.owner held.id := Function.update_of_ne hid ..
        _ = r.owner held.id := hkept held htopic hheld
        _ = some held.device := hfollows.owned _ held hheld
  unowned := by
    intro id hfree
    by_cases hid : id = claim.id
    · subst hid
      have hbound : (cleared.registry.bind claim.channel).byId claim.id = some claim.channel :=
        Function.update_self ..
      rw [hbound] at hfree
      cases hfree
    · refine (Function.update_of_ne hid ..).trans (hless id ?_)
      exact (Function.update_of_ne hid ..).symm.trans hfree

/-- A free topic, or one that is announced under its id again. -/
theorem Follows.named (hfollows : Follows heard r) {claim : Announced}
    (hsingle : ∀ entry ∈ heard, entry.id = claim.id → entry.topic = claim.topic)
    (htakes : holder Announced.topic Announced.device (heard ++ [claim]) claim.topic = some claim)
    (hname : ∀ id, r.registry.topicToId claim.topic = some id → id = claim.id) :
    Follows (heard ++ [claim]) (r.learnFrom claim.device claim.channel) := by
  have hdrop : r.dropStale claim.device claim.channel = r := by
    unfold dropStale
    cases hmapped : r.registry.topicToId claim.channel.topic with
    | none => rfl
    | some existing => exact if_neg fun hstale => hstale.1 (hname existing hmapped)
  have hlearn : (r.dropStale claim.device claim.channel).registry.learn .python claim.channel =
      .ok (r.registry.bind claim.channel) := by
    rw [hdrop]
    exact ChannelRegistry.learn_eq_ok.mpr ⟨rfl, hname, by simp⟩
  rw [learnFrom_of_ok hlearn, hdrop]
  exact hfollows.bind r hsingle htakes (hfollows.holds.bind_named hsingle htakes hname)
    (fun _ _ _ => rfl) hfollows.unowned

/-- The old id of a topic is forgotten, and nothing else. -/
theorem forget_live {r : ChannelRegistry} (hsound : r.Sound) {id : ℕ} {channel : Channel}
    (hentry : r.byId id = some channel) :
    (r.forget [id]).byId = Function.update r.byId id none ∧
      (r.forget [id]).topicToId = Function.update r.topicToId channel.topic none := by
  have hindex : r.topicToId channel.topic = some id :=
    (hsound.inverse _ _).mpr ⟨channel, hentry, rfl⟩
  simp [ChannelRegistry.forget, ChannelRegistry.forgetOne, hentry, hindex]

/-- A device that announces its topic under a new id. -/
theorem Follows.reconnect (hfollows : Follows heard r) {claim held : Announced}
    (hsingle : ∀ entry ∈ heard, entry.id = claim.id → entry.topic = claim.topic)
    (hheld : holder Announced.topic Announced.device heard claim.topic = some held)
    (hdevice : claim.device = held.device) (hid : held.id ≠ claim.id) :
    Follows (heard ++ [claim]) (r.learnFrom claim.device claim.channel) := by
  obtain ⟨-, htopic, -⟩ := holder_spec hheld
  have htakes := (holder_push hheld).trans (if_pos hdevice)
  have hentry : r.registry.byId held.id = some held.channel := hfollows.holds.entry _ _ hheld
  have hmapped : r.registry.topicToId claim.channel.topic = some held.id := by
    refine (hfollows.holds.index claim.topic).trans ?_
    rw [hheld, Option.map_some]
  have hdrop : r.dropStale claim.device claim.channel =
      { registry := r.registry.forget [held.id]
        owner := Function.update r.owner held.id none } := by
    rw [dropStale, hmapped]
    exact if_pos ⟨hid, by rw [hfollows.owned _ _ hheld, hdevice]⟩
  obtain ⟨hbyId, hnames⟩ := forget_live hfollows.holds.sound hentry
  have htopic : held.channel.topic = claim.topic := htopic
  rw [htopic] at hnames
  have hname : ∀ id, (r.registry.forget [held.id]).topicToId claim.topic = some id →
      id = claim.id := by
    intro id hsome
    rw [hnames, Function.update_self] at hsome
    cases hsome
  have hlearn : (r.dropStale claim.device claim.channel).registry.learn .python claim.channel =
      .ok ((r.registry.forget [held.id]).bind claim.channel) := by
    rw [hdrop]
    exact ChannelRegistry.learn_eq_ok.mpr ⟨rfl, hname, by simp⟩
  -- an entry of another topic is not the one that is forgotten
  have hapart : ∀ id channel, r.registry.byId id = some channel →
      channel.topic ≠ claim.topic → id ≠ held.id := by
    rintro id channel hlive hother rfl
    rw [hentry] at hlive
    obtain rfl := Option.some.inj hlive
    exact hother htopic
  have hbind : Holds Announced.device (heard ++ [claim])
      ((r.registry.forget [held.id]).bind claim.channel) := by
    apply hfollows.holds.bind hsingle htakes
      (ChannelRegistry.forget_sound hfollows.holds.sound _) hname
    · intro topic hother
      rw [hnames]
      exact Function.update_of_ne hother ..
    · intro id channel hlive
      exact ChannelRegistry.forget_byId hlive
    · intro id channel hlive hother
      rw [hbyId, Function.update_of_ne (hapart id channel hlive hother)]
      exact hlive
  rw [learnFrom_of_ok hlearn, hdrop]
  apply hfollows.bind ⟨r.registry.forget [held.id], Function.update r.owner held.id none⟩
    hsingle htakes hbind
  · intro other hother hlive
    exact Function.update_of_ne (hapart _ _ (hfollows.holds.entry _ _ hlive) hother) ..
  · intro id hfree
    by_cases heq : id = held.id
    · subst heq
      exact Function.update_self ..
    · rw [hbyId, Function.update_of_ne heq] at hfree
      exact (Function.update_of_ne heq ..).trans (hfollows.unowned id hfree)

/-- A topic that another device has. -/
theorem Follows.collide (hfollows : Follows heard r) {claim held : Announced}
    (hheld : holder Announced.topic Announced.device heard claim.topic = some held)
    (hdevice : claim.device ≠ held.device) (hid : held.id ≠ claim.id) :
    Follows (heard ++ [claim]) (r.learnFrom claim.device claim.channel) := by
  have hmapped : r.registry.topicToId claim.channel.topic = some held.id := by
    refine (hfollows.holds.index claim.topic).trans ?_
    rw [hheld, Option.map_some]
  have hdrop : r.dropStale claim.device claim.channel = r := by
    rw [dropStale, hmapped]
    refine if_neg fun hstale => hdevice ?_
    exact (Option.some.inj ((hfollows.owned _ _ hheld).symm.trans hstale.2)).symm
  have hlearn : r.registry.learn .python claim.channel =
      .error (.topic claim.channel.topic held.id) := by
    rw [ChannelRegistry.learn, hmapped]
    exact if_pos hid
  have hstays : r.learnFrom claim.device claim.channel = r := by
    rw [RelayRegistry.learnFrom, hdrop, hlearn]
  have hsamelog : ∀ topic, holder Announced.topic Announced.device (heard ++ [claim]) topic =
      holder Announced.topic Announced.device heard topic := by
    intro topic
    by_cases hother : claim.topic = topic
    · subst hother
      calc holder Announced.topic Announced.device (heard ++ [claim]) claim.topic
          _ = if claim.device = held.device then some claim else some held := holder_push hheld
          _ = some held := if_neg hdevice
          _ = holder Announced.topic Announced.device heard claim.topic := hheld.symm
    · exact holder_push_other hother
  rw [hstays]
  refine ⟨hfollows.holds.refuse hsamelog, ?_, hfollows.unowned⟩
  intro topic other hother
  rw [hsamelog] at hother
  exact hfollows.owned topic other hother

/-- One announced channel: a free topic is claimed, the device that holds a topic renews it
under whatever id it has now, and any other device is refused. -/
theorem Follows.step (hfollows : Follows heard r) {claim : Announced}
    (hsingle : ∀ entry ∈ heard, entry.id = claim.id →
      entry.device = claim.device ∧ entry.topic = claim.topic) :
    Follows (heard ++ [claim]) (r.learnFrom claim.device claim.channel) := by
  have hsame : ∀ entry ∈ heard, entry.id = claim.id → entry.topic = claim.topic :=
    fun entry hentry hid => (hsingle entry hentry hid).2
  have hindex := hfollows.holds.index claim.topic
  cases hheld : holder Announced.topic Announced.device heard claim.topic with
  | none =>
      rw [hheld, Option.map_none] at hindex
      apply hfollows.named hsame (holder_push_free hheld)
      intro id hid
      rw [hindex] at hid
      cases hid
  | some held =>
      by_cases hdevice : claim.device = held.device
      · by_cases hid : held.id = claim.id
        · apply hfollows.named hsame ((holder_push hheld).trans (if_pos hdevice))
          intro id hsome
          rw [hindex, hheld, Option.map_some] at hsome
          exact (Option.some.inj hsome).symm.trans hid
        · exact hfollows.reconnect hsame hheld hdevice hid
      · apply hfollows.collide hheld hdevice
        intro hid
        exact hdevice (hsingle held (holder_spec hheld).1 hid).1.symm

/-- Every channel of an announce, one after the other. -/
theorem Follows.learns {claims : List Announced} (hfollows : Follows heard r)
    (hsingle : SingleUse (heard ++ claims)) :
    Follows (heard ++ claims)
      (claims.foldl (fun r claim => r.learnFrom claim.device claim.channel) r) := by
  induction claims generalizing heard r with
  | nil => simpa using hfollows
  | cons claim rest ih =>
      rw [← List.singleton_append, ← List.append_assoc] at hsingle ⊢
      refine ih (hfollows.step ?_) hsingle
      intro entry hentry hid
      exact hsingle entry (by simp [hentry]) claim (by simp) hid

theorem onAnnounce_eq (decode : List Byte → Option DeviceAnnounce) {msg : Message}
    (hinfo : msg.streamId = kDeviceInfo) :
    r.onAnnounce decode msg.payload = (announcedBy decode msg).foldl
      (fun r claim => r.learnFrom claim.device claim.channel) r := by
  rw [announcedBy, if_pos hinfo, onAnnounce]
  cases decode msg.payload with
  | none => rfl
  | some info =>
      dsimp only
      rw [List.foldl_map]

end RelayRegistry

/-! ## Links -/

section Links

variable {κ : Type*} [DecidableEq κ] {key : Announced → κ} {heard : List Announced}
  {decode : List Byte → Option DeviceAnnounce}

theorem announcedBy_data {msg : Message} (hdata : msg.streamId ≠ kDeviceInfo) :
    announcedBy decode msg = [] := if_neg hdata

/-- A message that is no announce is resolved in a registry as the log says. -/
theorem Holds.row {r : ChannelRegistry} (hholds : Holds key heard r) (blob : List Byte)
    (msg : Message)
    (hdata : msg.streamId ≠ kDeviceInfo) (channels : List Byte → Option (List Channel)) :
    resolvedRow blob msg (r.accept .python channels blob msg).1 = heardRow key blob heard msg ∧
      Holds key heard (r.accept .python channels blob msg).2 ∧
      (r.accept .python channels blob msg).2.byId = r.byId := by
  unfold ChannelRegistry.accept heardRow
  rw [if_neg hdata, if_neg hdata]
  by_cases hcontrol : msg.streamId < kFirstDynamic
  · rw [if_pos hcontrol, if_pos hcontrol]
    exact ⟨by simp [resolvedRow, hdata], hholds, rfl⟩
  · rw [if_neg hcontrol, if_neg hcontrol, ← hholds.byId_eq]
    have hresolve : r.resolve blob msg.streamId = r.byId msg.streamId := if_neg hdata
    cases hentry : r.byId msg.streamId with
    | some channel =>
        rw [hresolve, hentry]
        exact ⟨rfl, hholds, rfl⟩
    | none =>
        rw [hresolve, hentry]
        refine ⟨by simp [resolvedRow, hdata], ?_, rfl⟩
        exact ⟨⟨hholds.sound.inverse, hholds.sound.own⟩, hholds.index, hholds.entry⟩

theorem RelayRegistry.Follows.accept {r : RelayRegistry} (hfollows : r.Follows heard)
    (blob : List Byte) (msg : Message) (hsingle : SingleUse (heard ++ announcedBy decode msg)) :
    resolvedRow blob msg (r.accept decode blob msg).1 =
        heardRow Announced.device blob heard msg ∧
      RelayRegistry.Follows (heard ++ announcedBy decode msg) (r.accept decode blob msg).2 := by
  unfold RelayRegistry.accept
  by_cases hinfo : msg.streamId = kDeviceInfo
  · rw [if_pos hinfo]
    refine ⟨by simp [resolvedRow, heardRow, hinfo], ?_⟩
    dsimp only
    rw [RelayRegistry.onAnnounce_eq decode hinfo]
    exact hfollows.learns hsingle
  · rw [if_neg hinfo, announcedBy_data hinfo, List.append_nil]
    obtain ⟨hrow, hholds, hbyId⟩ := hfollows.holds.row blob msg hinfo fun _ => none
    refine ⟨hrow, hholds, hfollows.owned, ?_⟩
    intro id hfree
    dsimp only at hfree
    rw [hbyId] at hfree
    exact hfollows.unowned id hfree

/-- One announced channel in the strict registry: only the first id of a topic renews it. -/
theorem Holds.learnOrWarn {r : ChannelRegistry} (hholds : Holds Announced.id heard r)
    {claim : Announced}
    (hsingle : ∀ entry ∈ heard, entry.id = claim.id → entry.topic = claim.topic) :
    Holds Announced.id (heard ++ [claim]) (r.learnOrWarn .python claim.channel) := by
  have hindex := hholds.index claim.topic
  -- the channel is learned unless its topic has another id
  have hnamed : (∀ id, r.topicToId claim.topic = some id → id = claim.id) →
      r.learnOrWarn .python claim.channel = r.bind claim.channel := by
    intro hname
    exact ChannelRegistry.learnOrWarn_of_ok
      (ChannelRegistry.learn_eq_ok.mpr ⟨rfl, hname, by simp⟩)
  cases hheld : holder Announced.topic Announced.id heard claim.topic with
  | none =>
      rw [hheld, Option.map_none] at hindex
      have hname : ∀ id, r.topicToId claim.topic = some id → id = claim.id := by
        intro id hid
        rw [hindex] at hid
        cases hid
      rw [hnamed hname]
      exact hholds.bind_named hsingle (holder_push_free hheld) hname
  | some held =>
      rw [hheld, Option.map_some] at hindex
      by_cases hid : claim.id = held.id
      · have hname : ∀ id, r.topicToId claim.topic = some id → id = claim.id := by
          intro id hsome
          rw [hindex] at hsome
          exact (Option.some.inj hsome).symm.trans hid.symm
        rw [hnamed hname]
        exact hholds.bind_named hsingle ((holder_push hheld).trans (if_pos hid)) hname
      · have hmapped : r.topicToId claim.channel.topic = some held.id := hindex
        have hlearn : r.learn .python claim.channel =
            .error (.topic claim.channel.topic held.id) := by
          rw [ChannelRegistry.learn, hmapped]
          exact if_pos (Ne.symm hid)
        rw [ChannelRegistry.learnOrWarn_of_error hlearn]
        refine hholds.refuse fun topic => ?_
        by_cases hother : claim.topic = topic
        · subst hother
          calc holder Announced.topic Announced.id (heard ++ [claim]) claim.topic
              _ = if claim.id = held.id then some claim else some held := holder_push hheld
              _ = some held := if_neg hid
              _ = holder Announced.topic Announced.id heard claim.topic := hheld.symm
        · exact holder_push_other hother

theorem Holds.learns {r : ChannelRegistry} {claims : List Announced}
    (hholds : Holds Announced.id heard r) (hsingle : SingleUse (heard ++ claims)) :
    Holds Announced.id (heard ++ claims)
      (claims.foldl (fun r claim => r.learnOrWarn .python claim.channel) r) := by
  induction claims generalizing heard r with
  | nil => simpa using hholds
  | cons claim rest ih =>
      rw [← List.singleton_append, ← List.append_assoc] at hsingle ⊢
      refine ih (hholds.learnOrWarn ?_) hsingle
      intro entry hentry hid
      exact (hsingle entry (by simp [hentry]) claim (by simp) hid).2

theorem Holds.accept {r : ChannelRegistry} (hholds : Holds Announced.id heard r)
    (blob : List Byte) (msg : Message) (hsingle : SingleUse (heard ++ announcedBy decode msg)) :
    let channels payload := (decode payload).map DeviceAnnounce.channels
    resolvedRow blob msg (r.accept .python channels blob msg).1 =
        heardRow Announced.id blob heard msg ∧
      Holds Announced.id (heard ++ announcedBy decode msg)
        (r.accept .python channels blob msg).2 := by
  intro channels
  by_cases hinfo : msg.streamId = kDeviceInfo
  · have haccept : r.accept .python channels blob msg =
        ({}, r.onAnnounce .python channels msg.payload) := if_pos hinfo
    have hlearns : r.onAnnounce .python channels msg.payload = (announcedBy decode msg).foldl
        (fun r claim => r.learnOrWarn .python claim.channel) r := by
      rw [announcedBy, if_pos hinfo, ChannelRegistry.onAnnounce]
      simp only [channels]
      cases decode msg.payload with
      | none => rfl
      | some info =>
          dsimp only [Option.map_some]
          rw [List.foldl_map]
    rw [haccept]
    refine ⟨by simp [resolvedRow, heardRow, hinfo], ?_⟩
    dsimp only
    rw [hlearns]
    exact hholds.learns hsingle
  · rw [announcedBy_data hinfo, List.append_nil]
    exact ⟨(hholds.row blob msg hinfo channels).1, (hholds.row blob msg hinfo channels).2.1⟩

theorem SingleUse.front {heard later : List Announced} (hsingle : SingleUse (heard ++ later)) :
    SingleUse heard := by
  intro first hfirst second hsecond
  exact hsingle first (List.mem_append_left _ hfirst) second (List.mem_append_left _ hsecond)

theorem readTcpResolved_of_follows {r : RelayRegistry} (hfollows : r.Follows heard)
    (blob : List Byte) (messages : List Message)
    (hsingle : SingleUse (heard ++ messages.flatMap (announcedBy decode))) :
    readTcpResolved decode blob r messages =
      heardRows Announced.device decode blob heard messages := by
  induction messages generalizing heard r with
  | nil => rfl
  | cons msg rest ih =>
      rw [List.flatMap_cons, ← List.append_assoc] at hsingle
      obtain ⟨hrow, hnext⟩ := hfollows.accept blob msg hsingle.front
      rw [readTcpResolved, heardRows, hrow, ih hnext hsingle]

theorem readSerialResolved_of_holds {r : ChannelRegistry} (hholds : Holds Announced.id heard r)
    (blob : List Byte) (messages : List Message)
    (hsingle : SingleUse (heard ++ messages.flatMap (announcedBy decode))) :
    readSerialResolved decode blob r messages =
      heardRows Announced.id decode blob heard messages := by
  induction messages generalizing heard r with
  | nil => rfl
  | cons msg rest ih =>
      rw [List.flatMap_cons, ← List.append_assoc] at hsingle
      obtain ⟨hrow, hnext⟩ := hholds.accept blob msg hsingle.front
      rw [readSerialResolved, heardRows, hrow, ih hnext hsingle]

end Links

/-- On a link that never uses an id for two devices or two topics, both viewers yield what the
announces before each message say: behind a relayed link a topic is followed to whatever id the
device that announced it first has given it last, and no other device gets it; behind the strict
registry it stays with the first id. -/
theorem resolved_rows (decode : List Byte → Option DeviceAnnounce) (blob : List Byte)
    (messages : List Message) (hsingle : SingleUse (messages.flatMap (announcedBy decode))) :
    readTcpResolved decode blob {} messages =
        heardRows Announced.device decode blob [] messages ∧
      readSerialResolved decode blob {} messages =
        heardRows Announced.id decode blob [] messages :=
  ⟨readTcpResolved_of_follows RelayRegistry.follows_nil blob messages hsingle,
    readSerialResolved_of_holds holds_nil blob messages hsingle⟩

/-- The announce of one device with one channel on topic `/a`. -/
def smallAnnounce (letter : Byte) (id : Byte) : List Byte :=
  [0x0A, 1, letter, 0x12, 6, 0x08, id, 0x12, 2, 0x2F, 0x61]

/-- The protobuf decoder on such announces. -/
def decodeSmall : List Byte → Option DeviceAnnounce
  | [0x0A, 1, letter, 0x12, 6, 0x08, id, 0x12, 2, 0x2F, 0x61] =>
      some
        { deviceName := String.singleton (Char.ofNat letter.toNat)
          channels :=
            [{ id := id.toNat, topic := "/a", encoding := "", schemaEncoding := "" }] }
  | _ => none

/-- A device announces its topic, reconnects under id 20, and another device claims it. -/
def reconnecting : List Message :=
  [{ streamId := 1, payload := smallAnnounce 0x67 16 }, { streamId := 16 },
    { streamId := 1, payload := smallAnnounce 0x67 20 }, { streamId := 16 }, { streamId := 20 },
    { streamId := 1, payload := smallAnnounce 0x68 30 }, { streamId := 20 }, { streamId := 30 }]

theorem resolved_rows_reconnecting :
    (readTcpResolved decodeSmall [] {} reconnecting).map (fun row => row.2.id) =
        [1, 16, 1, 20, 1, 20] ∧
      (readSerialResolved decodeSmall [] {} reconnecting).map (fun row => row.2.id) =
        [1, 16, 1, 16, 1] := by
  have hsingle : SingleUse (reconnecting.flatMap (announcedBy decodeSmall)) := by
    unfold SingleUse
    decide
  obtain ⟨htcp, hserial⟩ := resolved_rows decodeSmall [] reconnecting hsingle
  rw [htcp, hserial]
  decide

end VisioSchema.Routing

import Mathlib.Data.List.Nodup
import VisioSchema.Library.Runs
import VisioSchema.Routing.Registry

/-!
# The announce of a registry

`SelfInfoShared`: the DeviceInfo announce of a C++ registry is encoded once and kept until
`Declare`, the `Forget` of an own output or `SetMetadata` drops it.  `Learn` does not drop
it: what it keeps off the own outputs cannot change them.

## Strategy

Each operation either drops what is kept or leaves the metadata and the own outputs as they
are (`learnOrWarn_cases`, `ownChannels_forgetOne`), so that what is kept stays what `Encode`
would produce (`Coherent`).  That the own outputs are the right ones is a second invariant,
against a list that the calls alone keep (`keepDeclared`): `Owns` holds after each call, and
from it `OwnChannels` is that list up to order.
-/

namespace VisioSchema.Routing

open VisioSchema.Wire

/-- A channel of the announce, as `Encode` hands it to nanopb: an empty schema is left out. -/
structure AnnouncedChannel where
  id : ℕ
  topic : String
  encoding : String
  schemaName : String
  schemaEncoding : String
  schema : Option (List Byte)
  deriving DecidableEq, Repr

/-- The announce, as `Encode` hands it to nanopb. -/
structure DeviceInfo where
  deviceName : String
  equipmentType : Option String
  firmwareVersion : Option String
  hardwareRevision : Option String
  serial : Option String
  bootUnixSeconds : ℕ
  channels : List AnnouncedChannel
  deriving DecidableEq, Repr

/-- `OrNull`. -/
def orNull (s : String) : Option String := if s = "" then none else some s

def Channel.announced (channel : Channel) : AnnouncedChannel where
  id := channel.id
  topic := channel.topic
  encoding := channel.encoding
  schemaName := channel.schemaName
  schemaEncoding := channel.schemaEncoding
  schema := if channel.schema = [] then none else some channel.schema

/-- What the announce says of the device. -/
structure DeviceMetadata where
  deviceName : String := ""
  equipmentType : String := ""
  firmwareVersion : String := ""
  hardwareRevision : String := ""
  serial : String := ""
  bootUnixSeconds : ℕ := 0
  deriving DecidableEq, Repr

/-- `Encode`; `pbEncode` is nanopb, `none` where it fails and `Encode` throws. -/
def encodeDeviceInfo (pbEncode : DeviceInfo → Option (List Byte)) (metadata : DeviceMetadata)
    (channels : List Channel) : Option (List Byte) :=
  pbEncode
    { deviceName := metadata.deviceName
      equipmentType := orNull metadata.equipmentType
      firmwareVersion := orNull metadata.firmwareVersion
      hardwareRevision := orNull metadata.hardwareRevision
      serial := orNull metadata.serial
      bootUnixSeconds := metadata.bootUnixSeconds
      channels := channels.map Channel.announced }

/-- `OwnChannels`. -/
def ChannelRegistry.ownChannels (r : ChannelRegistry) : List Channel := r.ownIds.filterMap r.byId

/-- A C++ registry with what it announces. -/
structure AnnouncingRegistry where
  registry : ChannelRegistry := {}
  metadata : DeviceMetadata := {}
  selfInfoCache : Option (List Byte) := none

namespace AnnouncingRegistry

/-- `Declare`. -/
def declare (a : AnnouncingRegistry) (channel : Channel) : ℕ × AnnouncingRegistry :=
  match a.registry.topicToId channel.topic with
  | some id => (id, a)
  | none =>
      ((a.registry.declare .cpp channel).1,
        { a with registry := (a.registry.declare .cpp channel).2, selfInfoCache := none })

/-- `Learn`, whose caller goes on where it throws. -/
def learnOrWarn (a : AnnouncingRegistry) (channel : Channel) : AnnouncingRegistry :=
  { a with registry := a.registry.learnOrWarn .cpp channel }

def forgetOne (a : AnnouncingRegistry) (cid : ℕ) : AnnouncingRegistry :=
  { a with
    registry := a.registry.forgetOne cid
    selfInfoCache := if cid ∈ a.registry.ownIds then none else a.selfInfoCache }

/-- `Forget`. -/
def forget (a : AnnouncingRegistry) (ids : List ℕ) : AnnouncingRegistry := ids.foldl forgetOne a

/-- `OnAnnounce`. -/
def onAnnounce (decode : List Byte → Option (List Channel)) (a : AnnouncingRegistry)
    (payload : List Byte) : AnnouncingRegistry :=
  { a with registry := a.registry.onAnnounce .cpp decode payload }

/-- `Accept`. -/
def accept (decode : List Byte → Option (List Channel)) (blob : List Byte)
    (a : AnnouncingRegistry) (msg : Message) : Routed × AnnouncingRegistry :=
  ((a.registry.accept .cpp decode blob msg).1,
    { a with registry := (a.registry.accept .cpp decode blob msg).2 })

/-- `SetMetadata`. -/
def setMetadata (a : AnnouncingRegistry) (equipmentType firmwareVersion hardwareRevision
    serial : String) (bootUnixSeconds : ℕ) : AnnouncingRegistry :=
  { a with
    metadata :=
      { deviceName := a.metadata.deviceName
        equipmentType := equipmentType
        firmwareVersion := firmwareVersion
        hardwareRevision := hardwareRevision
        serial := serial
        bootUnixSeconds := bootUnixSeconds }
    selfInfoCache := none }

/-- `SelfInfoShared`; `none` where it throws. -/
def selfInfoShared (pbEncode : DeviceInfo → Option (List Byte)) (a : AnnouncingRegistry) :
    Option (List Byte) × AnnouncingRegistry :=
  match a.selfInfoCache with
  | some info => (some info, a)
  | none =>
      match encodeDeviceInfo pbEncode a.metadata a.registry.ownChannels with
      | some info => (some info, { a with selfInfoCache := some info })
      | none => (none, a)

/-! ## Calls in sequence -/

inductive Call
  | declare (channel : Channel)
  | learn (channel : Channel)
  | forget (ids : List ℕ)
  | onAnnounce (payload : List Byte)
  | accept (msg : Message)
  | setMetadata (equipmentType firmwareVersion hardwareRevision serial : String)
      (bootUnixSeconds : ℕ)
  | selfInfoShared

section Runs

variable (pbEncode : DeviceInfo → Option (List Byte)) (decode : List Byte → Option (List Channel))
  (blob : List Byte)

def step (a : AnnouncingRegistry) : Call → AnnouncingRegistry
  | .declare channel => (a.declare channel).2
  | .learn channel => a.learnOrWarn channel
  | .forget ids => a.forget ids
  | .onAnnounce payload => a.onAnnounce decode payload
  | .accept msg => (a.accept decode blob msg).2
  | .setMetadata equipmentType firmwareVersion hardwareRevision serial bootUnixSeconds =>
      a.setMetadata equipmentType firmwareVersion hardwareRevision serial bootUnixSeconds
  | .selfInfoShared => (a.selfInfoShared pbEncode).2

/-- The registry after a list of calls. -/
def run (metadata : DeviceMetadata) (calls : List Call) : AnnouncingRegistry :=
  calls.foldl (step pbEncode decode blob) { metadata := metadata }

/-- The channels that are declared and not forgotten, after one more call: `Declare` of a topic
without an id gives out the next one, and takes it from a channel that had it. -/
def keepDeclared (a : AnnouncingRegistry) (declared : List Channel) : Call → List Channel
  | .declare channel =>
      if (a.registry.topicToId channel.topic).isSome then declared
      else declared.filter (fun other => other.id ≠ a.registry.nextId) ++
        [{ channel with id := a.registry.nextId }]
  | .forget ids => declared.filter fun channel => channel.id ∉ ids
  | _ => declared

/-- The channels that a list of calls declares and does not forget. -/
def declaredBy (a : AnnouncingRegistry) (declared : List Channel) : List Call → List Channel
  | [] => declared
  | call :: rest =>
      declaredBy (a.step pbEncode decode blob call) (keepDeclared a declared call) rest

end Runs

/-! ## Coherence -/

/-- What is kept is what `Encode` would produce now. -/
def Coherent (pbEncode : DeviceInfo → Option (List Byte)) (a : AnnouncingRegistry) : Prop :=
  ∀ info, a.selfInfoCache = some info →
    encodeDeviceInfo pbEncode a.metadata a.registry.ownChannels = some info

section Coherent

variable {pbEncode : DeviceInfo → Option (List Byte)} {decode : List Byte → Option (List Channel)}
  {blob : List Byte} {a : AnnouncingRegistry}

/-- A learned channel is no own output. -/
theorem learnOrWarn_cases (r : ChannelRegistry) (channel : Channel) :
    r.learnOrWarn .cpp channel = r ∨
      channel.id ∉ r.ownIds ∧ r.learnOrWarn .cpp channel = r.bind channel := by
  unfold ChannelRegistry.learnOrWarn ChannelRegistry.learn
  by_cases hown : channel.id ∈ r.ownIds
  · refine Or.inl ?_
    cases r.topicToId channel.topic with
    | none => simp [hown]
    | some id => by_cases hsame : id = channel.id <;> simp [hsame, hown]
  · cases r.topicToId channel.topic with
    | none => exact Or.inr ⟨hown, by simp [hown]⟩
    | some id =>
        by_cases hsame : id = channel.id
        · exact Or.inr ⟨hown, by simp [hsame, hown]⟩
        · exact Or.inl (by simp [hsame])

theorem ownChannels_learnOrWarn (r : ChannelRegistry) (channel : Channel) :
    (r.learnOrWarn .cpp channel).ownChannels = r.ownChannels := by
  rcases learnOrWarn_cases r channel with hsame | ⟨hforeign, hbound⟩
  · rw [hsame]
  · rw [hbound]
    refine List.filterMap_congr fun id hid => ?_
    have hother : id ≠ channel.id := fun hsame => hforeign (hsame ▸ hid)
    exact Function.update_of_ne hother _ _

theorem ownChannels_onAnnounce (r : ChannelRegistry) (payload : List Byte) :
    (r.onAnnounce .cpp decode payload).ownChannels = r.ownChannels := by
  unfold ChannelRegistry.onAnnounce
  cases decode payload with
  | none => rfl
  | some channels =>
      dsimp only
      induction channels generalizing r with
      | nil => rfl
      | cons channel rest ih =>
          rw [List.foldl_cons, ih]
          exact ownChannels_learnOrWarn r channel

theorem ownChannels_accept (r : ChannelRegistry) (msg : Message) :
    (r.accept .cpp decode blob msg).2.ownChannels = r.ownChannels := by
  unfold ChannelRegistry.accept
  split
  · exact ownChannels_onAnnounce r msg.payload
  · split
    · rfl
    · split <;> rfl

/-- The channel of a foreign id is forgotten without touching the own outputs. -/
theorem ownChannels_forgetOne {r : ChannelRegistry} {cid : ℕ} (hforeign : cid ∉ r.ownIds) :
    (r.forgetOne cid).ownChannels = r.ownChannels := by
  have hids : r.ownIds.filter (· ≠ cid) = r.ownIds := by
    refine List.filter_eq_self.mpr fun id hid => ?_
    simpa using fun hsame : id = cid => hforeign (hsame ▸ hid)
  unfold ChannelRegistry.forgetOne ChannelRegistry.ownChannels
  cases r.byId cid with
  | none =>
      dsimp only
      rw [hids]
  | some channel =>
      dsimp only
      rw [hids]
      refine List.filterMap_congr fun id hid => ?_
      have hother : id ≠ cid := fun hsame => hforeign (hsame ▸ hid)
      exact Function.update_of_ne hother _ _

/-- Steps that keep the cache and the own outputs. -/
theorem Coherent.of_registry (hcoherent : Coherent pbEncode a) {r : ChannelRegistry}
    (hown : r.ownChannels = a.registry.ownChannels) :
    Coherent pbEncode { a with registry := r } := by
  intro info hinfo
  change encodeDeviceInfo pbEncode a.metadata r.ownChannels = some info
  rw [hown]
  exact hcoherent info hinfo

theorem Coherent.forgetOne (hcoherent : Coherent pbEncode a) (cid : ℕ) :
    Coherent pbEncode (a.forgetOne cid) := by
  unfold AnnouncingRegistry.forgetOne
  split
  · exact fun info hinfo => nomatch hinfo
  next hforeign => exact hcoherent.of_registry (ownChannels_forgetOne hforeign)

theorem Coherent.declare (hcoherent : Coherent pbEncode a) (channel : Channel) :
    Coherent pbEncode (a.declare channel).2 := by
  unfold AnnouncingRegistry.declare
  split
  · exact hcoherent
  · exact fun info hinfo => nomatch hinfo

theorem Coherent.selfInfoShared (hcoherent : Coherent pbEncode a) :
    (a.selfInfoShared pbEncode).1 =
        encodeDeviceInfo pbEncode a.metadata a.registry.ownChannels ∧
      Coherent pbEncode (a.selfInfoShared pbEncode).2 := by
  unfold AnnouncingRegistry.selfInfoShared
  cases hcache : a.selfInfoCache with
  | some info => exact ⟨(hcoherent info hcache).symm, hcoherent⟩
  | none =>
      cases hencoded : encodeDeviceInfo pbEncode a.metadata a.registry.ownChannels with
      | none => exact ⟨rfl, hcoherent⟩
      | some info =>
          refine ⟨rfl, fun kept hkept => ?_⟩
          rw [← hkept]
          exact hencoded

theorem Coherent.step (hcoherent : Coherent pbEncode a) (call : Call) :
    Coherent pbEncode (a.step pbEncode decode blob call) := by
  cases call with
  | declare channel => exact hcoherent.declare channel
  | learn channel => exact hcoherent.of_registry (ownChannels_learnOrWarn a.registry channel)
  | forget ids =>
      change Coherent pbEncode (ids.foldl AnnouncingRegistry.forgetOne a)
      induction ids generalizing a with
      | nil => exact hcoherent
      | cons cid rest ih => exact ih (hcoherent.forgetOne cid)
  | onAnnounce payload => exact hcoherent.of_registry (ownChannels_onAnnounce a.registry payload)
  | accept msg => exact hcoherent.of_registry (ownChannels_accept a.registry msg)
  | setMetadata => exact fun info hinfo => nomatch hinfo
  | selfInfoShared => exact hcoherent.selfInfoShared.2

end Coherent

/-! ## Own outputs -/

/-- The own outputs of the registry are the channels `declared`, each once. -/
structure Owns (r : ChannelRegistry) (declared : List Channel) : Prop where
  keyed : ∀ id channel, r.byId id = some channel → channel.id = id
  ids : r.ownIds.Nodup
  distinct : declared.Nodup
  owned : ∀ channel, channel ∈ declared ↔
    channel.id ∈ r.ownIds ∧ r.byId channel.id = some channel

section Owns

variable {decode : List Byte → Option (List Channel)} {r : ChannelRegistry}
  {declared : List Channel}

theorem Owns.ownChannels (howns : Owns r declared) : r.ownChannels.Perm declared := by
  have hdistinct : r.ownChannels.Nodup := by
    refine howns.ids.filterMap fun first second channel hfirst hsecond => ?_
    exact (howns.keyed first channel hfirst).symm.trans (howns.keyed second channel hsecond)
  refine (List.perm_ext_iff_of_nodup hdistinct howns.distinct).mpr fun channel => ?_
  rw [howns.owned, ChannelRegistry.ownChannels, List.mem_filterMap]
  constructor
  · rintro ⟨id, hid, hfound⟩
    obtain rfl := howns.keyed id channel hfound
    exact ⟨hid, hfound⟩
  · exact fun hown => ⟨channel.id, hown⟩

theorem keyed_bind (hkeyed : ∀ id channel, r.byId id = some channel → channel.id = id)
    (bound : Channel) :
    ∀ id channel, (r.bind bound).byId id = some channel → channel.id = id := by
  intro id channel hfound
  change Function.update r.byId bound.id (some bound) id = some channel at hfound
  by_cases hsame : id = bound.id
  · rw [hsame, Function.update_self] at hfound
    rw [hsame, ← Option.some.inj hfound]
  · rw [Function.update_of_ne hsame] at hfound
    exact hkeyed id channel hfound

theorem Owns.learnOrWarn (howns : Owns r declared) (channel : Channel) :
    Owns (r.learnOrWarn .cpp channel) declared := by
  rcases learnOrWarn_cases r channel with hsame | ⟨hforeign, hbound⟩
  · rwa [hsame]
  · rw [hbound]
    refine ⟨keyed_bind howns.keyed channel, howns.ids, howns.distinct, fun other => ?_⟩
    rw [howns.owned]
    refine and_congr_right fun hown => ?_
    have hother : other.id ≠ channel.id := fun hsame => hforeign (hsame ▸ hown)
    change _ ↔ Function.update r.byId channel.id (some channel) other.id = some other
    rw [Function.update_of_ne hother]

theorem Owns.onAnnounce (howns : Owns r declared) (payload : List Byte) :
    Owns (r.onAnnounce .cpp decode payload) declared := by
  unfold ChannelRegistry.onAnnounce
  cases decode payload with
  | none => exact howns
  | some channels =>
      dsimp only
      induction channels generalizing r with
      | nil => exact howns
      | cons channel rest ih => exact ih (howns.learnOrWarn channel)

theorem Owns.forgetOne (howns : Owns r declared) (cid : ℕ) :
    Owns (r.forgetOne cid) (declared.filter fun channel => channel.id ≠ cid) := by
  have hfound : ∀ id, (r.forgetOne cid).byId id = if id = cid then none else r.byId id := by
    intro id
    unfold ChannelRegistry.forgetOne
    cases hchannel : r.byId cid with
    | none =>
        change r.byId id = _
        by_cases hsame : id = cid
        · rw [if_pos hsame, hsame, hchannel]
        · rw [if_neg hsame]
    | some channel =>
        change Function.update r.byId cid none id = _
        rw [Function.update_apply]
  have hids : (r.forgetOne cid).ownIds = r.ownIds.filter (· ≠ cid) := by
    unfold ChannelRegistry.forgetOne
    cases r.byId cid <;> rfl
  refine ⟨fun id channel hsome => ?_, ?_, howns.distinct.filter _, fun channel => ?_⟩
  · rw [hfound] at hsome
    split at hsome
    · cases hsome
    · exact howns.keyed id channel hsome
  · rw [hids]
    exact howns.ids.filter _
  · rw [hids, hfound, List.mem_filter, List.mem_filter, howns.owned]
    by_cases hsame : channel.id = cid
    · simp [hsame]
    · simp [hsame]

theorem Owns.forget (howns : Owns r declared) (ids : List ℕ) :
    Owns (r.forget ids) (declared.filter fun channel => channel.id ∉ ids) := by
  induction ids generalizing r declared with
  | nil => simpa [ChannelRegistry.forget] using howns
  | cons cid rest ih =>
      have hrest := ih (howns.forgetOne cid)
      rw [List.filter_filter] at hrest
      refine Eq.mp (congrArg (Owns _) (List.filter_congr fun channel _ => ?_)) hrest
      simp [List.mem_cons, Bool.and_comm]

theorem Owns.declare (howns : Owns r declared) {channel : Channel}
    (hfree : r.topicToId channel.topic = none) :
    Owns (r.declare .cpp channel).2
      (declared.filter (fun other => other.id ≠ r.nextId) ++
        [{ channel with id := r.nextId }]) := by
  have hmade : (r.declare .cpp channel).2 =
      { (r.alloc .cpp).2.bind { channel with id := r.nextId } with
        ownIds := r.ownIds.insert r.nextId } := by
    unfold ChannelRegistry.declare
    rw [hfree]
    rfl
  rw [hmade]
  refine ⟨keyed_bind (r := (r.alloc .cpp).2) howns.keyed _, howns.ids.insert, ?_, fun other => ?_⟩
  · refine List.Nodup.append (howns.distinct.filter _) (List.nodup_singleton _) ?_
    intro other hother hnew
    rw [List.mem_singleton] at hnew
    rw [hnew] at hother
    simp at hother
  · change _ ↔ other.id ∈ r.ownIds.insert r.nextId ∧
      Function.update r.byId r.nextId (some { channel with id := r.nextId }) other.id = some other
    rw [List.mem_append, List.mem_filter, List.mem_singleton, howns.owned, List.mem_insert_iff]
    by_cases hsame : other.id = r.nextId
    · rw [hsame, Function.update_self]
      simp [eq_comm]
    · rw [Function.update_of_ne hsame]
      have hnew : other ≠ { channel with id := r.nextId } := by
        rintro rfl
        exact hsame rfl
      simp [hsame, hnew]

end Owns

/-- After every call the own outputs are the channels declared and not forgotten. -/
theorem step_owns {pbEncode : DeviceInfo → Option (List Byte)}
    {decode : List Byte → Option (List Channel)} {blob : List Byte} {a : AnnouncingRegistry}
    {declared : List Channel} (howns : Owns a.registry declared) (call : Call) :
    Owns (a.step pbEncode decode blob call).registry (keepDeclared a declared call) := by
  cases call with
  | declare channel =>
      change Owns (a.declare channel).2.registry (if _ then _ else _)
      unfold AnnouncingRegistry.declare
      cases hmapped : a.registry.topicToId channel.topic with
      | some id =>
          rw [if_pos Option.isSome_some]
          exact howns
      | none =>
          rw [if_neg (by simp)]
          exact howns.declare hmapped
  | learn channel => exact howns.learnOrWarn channel
  | forget ids =>
      have hsame : (a.forget ids).registry = a.registry.forget ids := by
        unfold AnnouncingRegistry.forget ChannelRegistry.forget
        induction ids generalizing a declared with
        | nil => rfl
        | cons cid rest ih => exact ih (howns.forgetOne cid)
      change Owns (a.forget ids).registry _
      rw [hsame]
      exact howns.forget ids
  | onAnnounce payload => exact howns.onAnnounce payload
  | accept msg =>
      change Owns (a.registry.accept .cpp decode blob msg).2 declared
      unfold ChannelRegistry.accept
      split
      · exact howns.onAnnounce msg.payload
      · split
        · exact howns
        · split
          · exact howns
          · exact ⟨howns.keyed, howns.ids, howns.distinct, howns.owned⟩
  | setMetadata => exact howns
  | selfInfoShared =>
      change Owns (a.selfInfoShared pbEncode).2.registry declared
      unfold AnnouncingRegistry.selfInfoShared
      split
      · exact howns
      · split <;> exact howns

theorem run_owns {pbEncode : DeviceInfo → Option (List Byte)}
    {decode : List Byte → Option (List Channel)} {blob : List Byte} {a : AnnouncingRegistry}
    {declared : List Channel} (howns : Owns a.registry declared) (calls : List Call) :
    Owns (calls.foldl (step pbEncode decode blob) a).registry
      (declaredBy pbEncode decode blob a declared calls) := by
  induction calls generalizing a declared with
  | nil => exact howns
  | cons call rest ih => exact ih (step_owns howns call)

/-- After every sequence of calls `SelfInfoShared` gives what `Encode` makes of the current
metadata and the own channels, which are the ones declared and not forgotten, and leaves both as
they are. -/
theorem run_selfInfoShared (pbEncode : DeviceInfo → Option (List Byte))
    (decode : List Byte → Option (List Channel)) (blob : List Byte) (metadata : DeviceMetadata)
    (calls : List Call) :
    let a := run pbEncode decode blob metadata calls
    (a.selfInfoShared pbEncode).1 =
        encodeDeviceInfo pbEncode a.metadata a.registry.ownChannels ∧
      a.registry.ownChannels.Perm
        (declaredBy pbEncode decode blob { metadata := metadata } [] calls) ∧
      (a.selfInfoShared pbEncode).2.registry = a.registry ∧
      (a.selfInfoShared pbEncode).2.metadata = a.metadata := by
  have hcoherent : Coherent pbEncode (run pbEncode decode blob metadata calls) := by
    refine Library.run_invariant (fun a call ha => ha.step call) ?_ calls
    exact fun info hinfo => nomatch hinfo
  have hnew : Owns ({ metadata := metadata } : AnnouncingRegistry).registry [] :=
    { keyed := fun _ _ hfound => (by cases hfound)
      ids := List.nodup_nil
      distinct := List.nodup_nil
      owned := fun channel => by simp }
  refine ⟨hcoherent.selfInfoShared.1, (run_owns hnew calls).ownChannels, ?_⟩
  generalize run pbEncode decode blob metadata calls = a
  unfold selfInfoShared
  split
  · exact ⟨rfl, rfl⟩
  · split <;> exact ⟨rfl, rfl⟩

end AnnouncingRegistry

end VisioSchema.Routing

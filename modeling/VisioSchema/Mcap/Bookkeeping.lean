import VisioSchema.Library.Runs
import VisioSchema.Mcap.Storage

/-!
# Schema and channel records

What a writer gives the MCAP library for a part: a schema record for every new schema name,
a channel record for every new key of a channel, and each message under the id of its
channel record.  The ids kept under names and keys are forgotten with every part, so that
each part stands alone.

The library stores what it is given, and numbers schemas and channels from one.  What each
message was written with is recorded beside it; nothing of the code reads that.
-/

namespace VisioSchema.Mcap

open VisioSchema.Library VisioSchema.Wire VisioSchema.Routing

/-! ## Records -/

structure SchemaRecord where
  name : String
  encoding : String
  data : List Byte
  deriving DecidableEq, Repr

structure ChannelRecord where
  topic : String
  messageEncoding : String
  schemaId : ℕ
  deriving DecidableEq, Repr

/-- The times are unsigned 64-bit numbers. -/
structure MessageRecord where
  channelId : ℕ
  sequence : ℕ
  logTime : ℤ
  publishTime : ℤ
  data : List Byte
  deriving DecidableEq, Repr

/-- A message record, and what it was written from. -/
structure StoredMessage where
  record : MessageRecord
  channel : Channel
  msg : RecordedMessage
  deriving DecidableEq, Repr

/-- What the library is given for one part. -/
structure PartRecords where
  schemas : List SchemaRecord := []
  channels : List ChannelRecord := []
  messages : List StoredMessage := []
  deriving DecidableEq, Repr

/-- The record of an id. -/
def recordAt {α : Type*} (records : List α) : ℕ → Option α
  | 0 => none
  | index + 1 => records[index]?

theorem recordAt_append {α : Type*} {records : List α} {id : ℕ} {record : α} (more : List α)
    (hrecord : recordAt records id = some record) :
    recordAt (records ++ more) id = some record := by
  cases id with
  | zero => cases hrecord
  | succ index =>
      obtain ⟨hindex, hget⟩ := List.getElem?_eq_some_iff.mp hrecord
      change (records ++ more)[index]? = some record
      rw [List.getElem?_append_left hindex]
      exact hrecord

@[simp] theorem recordAt_new {α : Type*} (records : List α) (record : α) :
    recordAt (records ++ [record]) (records.length + 1) = some record := by
  change (records ++ [record])[records.length]? = some record
  simp

/-- `kDefaultEncoding`. -/
def kDefaultEncoding : String := "protobuf"

/-- An encoding that is not set is the default one. -/
def orDefaultEncoding (encoding : String) : String :=
  if encoding = "" then kDefaultEncoding else encoding

/-- The time in a message record. -/
def recordTime (timestamp : Timestamp) : ℤ := timestampNs timestamp % 18446744073709551616

def schemaRecord (channel : Channel) : SchemaRecord where
  name := channel.schemaName
  encoding := orDefaultEncoding channel.schemaEncoding
  data := channel.schema

def channelRecord (channel : Channel) (schemaId : ℕ) : ChannelRecord where
  topic := channel.topic
  messageEncoding := orDefaultEncoding channel.encoding
  schemaId := schemaId

def messageRecord (msg : RecordedMessage) (channelId : ℕ) : MessageRecord where
  channelId := channelId
  sequence := msg.seq
  logTime := recordTime msg.timestamp
  publishTime := recordTime msg.timestamp
  data := msg.payload

/-! ## Writing -/

/-- How a writer tells channels apart, and whether it refuses a channel that comes back with
another schema name. -/
structure Keying (κ : Type*) where
  key : Channel → κ
  checksSchema : Bool

/-- The parts, and the ids of the current one.  Only a writer that checks them keeps the
schema names of its channels. -/
structure Bookkeeping (κ : Type*) where
  part : PartRecords := {}
  closedParts : List PartRecords := []
  schemaIds : String → Option ℕ := fun _ => none
  channelIds : κ → Option ℕ := fun _ => none
  channelSchemas : κ → Option String := fun _ => none

namespace Bookkeeping

variable {κ : Type*} (keying : Keying κ) (b : Bookkeeping κ)

/-- The next part begins. -/
def openPart : Bookkeeping κ where
  closedParts := b.closedParts ++ [b.part]

/-- The id of the channel's schema. -/
def schemaId (channel : Channel) : ℕ :=
  (b.schemaIds channel.schemaName).getD (b.part.schemas.length + 1)

/-- The channel's schema, if its name is new to the part. -/
def addSchema (channel : Channel) : Bookkeeping κ :=
  match b.schemaIds channel.schemaName with
  | some _ => b
  | none =>
      { b with
        part := { b.part with schemas := b.part.schemas ++ [schemaRecord channel] }
        schemaIds :=
          Function.update b.schemaIds channel.schemaName (some (b.part.schemas.length + 1)) }

/-- A channel whose key is new to the part. -/
def addChannel [DecidableEq κ] (channel : Channel) (schemaId : ℕ) : Bookkeeping κ :=
  { b with
    part := { b.part with channels := b.part.channels ++ [channelRecord channel schemaId] }
    channelIds :=
      Function.update b.channelIds (keying.key channel) (some (b.part.channels.length + 1))
    channelSchemas :=
      Function.update b.channelSchemas (keying.key channel) (some channel.schemaName) }

/-- The message, if the library takes it. -/
def addMessage (channel : Channel) (msg : RecordedMessage) (channelId : ℕ) (taken : Bool) :
    Bookkeeping κ :=
  if taken then
    { b with
      part :=
        { b.part with
          messages := b.part.messages ++ [⟨messageRecord msg channelId, channel, msg⟩] } }
  else b

/-- The channel's key is taken by a channel with another schema name. -/
def refuses (channel : Channel) : Bool :=
  keying.checksSchema && (b.channelIds (keying.key channel)).isSome &&
    decide (b.channelSchemas (keying.key channel) ≠ some channel.schemaName)

/-- A message with its channel; `taken` is what the library answers. -/
def write [DecidableEq κ] (channel : Channel) (msg : RecordedMessage) (taken : Bool) :
    Bookkeeping κ :=
  let schemaId := b.schemaId channel
  let b := b.addSchema channel
  match b.channelIds (keying.key channel) with
  | none =>
      (b.addChannel keying channel schemaId).addMessage channel msg (b.part.channels.length + 1)
        taken
  | some channelId =>
      if b.refuses keying channel then b else b.addMessage channel msg channelId taken

end Bookkeeping

/-! ## What is promised -/

/-- The message is on a channel that says of it what its own channel said. -/
structure Described (part : PartRecords) (message : StoredMessage) : Prop where
  channel : ∃ record, recordAt part.channels message.record.channelId = some record ∧
    record.topic = message.channel.topic ∧
    record.messageEncoding = orDefaultEncoding message.channel.encoding ∧
    recordAt part.schemas record.schemaId = some (schemaRecord message.channel)
  message : message.record = messageRecord message.msg message.record.channelId

/-- Every message of the part is described as it was written. -/
def SelfDescribing (part : PartRecords) : Prop := ∀ message ∈ part.messages, Described part message

namespace Bookkeeping

variable {κ : Type*} (keying : Keying κ) (b : Bookkeeping κ)

/-- What the part holds under the names of the channel says the same of it: the schema
under the schema's name, and the channel under the channel's key. -/
structure Agrees (channel : Channel) : Prop where
  schema : ∀ id record, b.schemaIds channel.schemaName = some id →
    recordAt b.part.schemas id = some record → record = schemaRecord channel
  channel : ∀ id record, b.channelIds (keying.key channel) = some id →
    recordAt b.part.channels id = some record →
      record.topic = channel.topic ∧ record.messageEncoding = orDefaultEncoding channel.encoding ∧
        b.channelSchemas (keying.key channel) = some channel.schemaName

/-- No part misdescribes a message. -/
def Faithful : Prop := ∀ part ∈ b.closedParts ++ [b.part], SelfDescribing part

/-! ## What is registered -/

/-- Every id that is kept, or that a message carries, has its record. -/
structure Registered : Prop where
  schema : ∀ name id, b.schemaIds name = some id →
    ∃ record, recordAt b.part.schemas id = some record ∧ record.name = name
  channel : ∀ key id, b.channelIds key = some id →
    ∃ record schema, recordAt b.part.channels id = some record ∧
      recordAt b.part.schemas record.schemaId = some schema ∧
      b.channelSchemas key = some schema.name ∧ b.schemaIds schema.name = some record.schemaId
  message : ∀ message ∈ b.part.messages,
    ∃ record schema, recordAt b.part.channels message.record.channelId = some record ∧
      recordAt b.part.schemas record.schemaId = some schema

variable {keying b}

theorem opened_registered (closedParts : List PartRecords) :
    Registered { closedParts := closedParts : Bookkeeping κ } where
  schema := fun _ _ hid => nomatch hid
  channel := fun _ _ hid => nomatch hid
  message := fun _ hmessage => nomatch hmessage

/-- More records leave a message described as it was. -/
theorem described_extend {part : PartRecords} {message : StoredMessage} {record : ChannelRecord}
    {schema : SchemaRecord}
    (hrecord : recordAt part.channels message.record.channelId = some record)
    (hschema : recordAt part.schemas record.schemaId = some schema) (schemas : List SchemaRecord)
    (channels : List ChannelRecord) (messages : List StoredMessage) :
    Described ⟨part.schemas ++ schemas, part.channels ++ channels, messages⟩ message ↔
      Described part message := by
  have hrecord' := recordAt_append channels hrecord
  have hschema' := recordAt_append schemas hschema
  constructor
  · rintro ⟨⟨other, hother, htopic, hencoding, hdata⟩, hmessage⟩
    obtain rfl : record = other := Option.some.inj (hrecord'.symm.trans hother)
    rw [hschema'] at hdata
    exact ⟨⟨record, hrecord, htopic, hencoding, hschema.trans hdata⟩, hmessage⟩
  · rintro ⟨⟨other, hother, htopic, hencoding, hdata⟩, hmessage⟩
    obtain rfl : record = other := Option.some.inj (hrecord.symm.trans hother)
    rw [hschema] at hdata
    exact ⟨⟨record, hrecord', htopic, hencoding, hschema'.trans hdata⟩, hmessage⟩

theorem Registered.selfDescribing_extend (hregistered : Registered b)
    (schemas : List SchemaRecord) (channels : List ChannelRecord) :
    SelfDescribing ⟨b.part.schemas ++ schemas, b.part.channels ++ channels, b.part.messages⟩ ↔
      SelfDescribing b.part := by
  refine forall₂_congr fun message hmessage => ?_
  obtain ⟨record, schema, hrecord, hschema⟩ := hregistered.message message hmessage
  exact described_extend hrecord hschema schemas channels b.part.messages

/-! ## One write -/

/-- What `addSchema` makes sure of. -/
theorem Registered.addSchema (hregistered : Registered b) (channel : Channel) :
    Registered (b.addSchema channel) ∧
      (b.addSchema channel).schemaIds channel.schemaName = some (b.schemaId channel) ∧
      ∃ schemas, (b.addSchema channel).part =
        ⟨b.part.schemas ++ schemas, b.part.channels, b.part.messages⟩ := by
  unfold Bookkeeping.addSchema schemaId
  cases hname : b.schemaIds channel.schemaName with
  | some id => exact ⟨hregistered, hname, [], by simp⟩
  | none =>
      refine ⟨⟨?_, ?_, ?_⟩, by simp, [schemaRecord channel], rfl⟩
      · intro name id hid
        by_cases hnew : name = channel.schemaName
        · subst hnew
          obtain rfl : b.part.schemas.length + 1 = id := by simpa using hid
          exact ⟨schemaRecord channel, recordAt_new _ _, rfl⟩
        · obtain ⟨record, hrecord, hrname⟩ :=
            hregistered.schema name id (by simpa [Function.update_of_ne hnew] using hid)
          exact ⟨record, recordAt_append _ hrecord, hrname⟩
      · intro key id hid
        obtain ⟨record, schema, hrecord, hschema, hkey, hback⟩ := hregistered.channel key id hid
        refine ⟨record, schema, hrecord, recordAt_append _ hschema, hkey, ?_⟩
        have hold : schema.name ≠ channel.schemaName := by
          intro hsame
          rw [hsame, hname] at hback
          cases hback
        simpa [Function.update_of_ne hold] using hback
      · intro message hmessage
        obtain ⟨record, schema, hrecord, hschema⟩ := hregistered.message message hmessage
        exact ⟨record, schema, hrecord, recordAt_append _ hschema⟩

theorem addSchema_channelIds (channel : Channel) :
    (b.addSchema channel).channelIds = b.channelIds ∧
      (b.addSchema channel).channelSchemas = b.channelSchemas ∧
      (b.addSchema channel).closedParts = b.closedParts := by
  unfold addSchema
  split <;> exact ⟨rfl, rfl, rfl⟩

/-- The schema under the channel's id is the channel's own unless the part held another one
under its name. -/
theorem Registered.schema_own (hregistered : Registered b) (channel : Channel) :
    ∃ schema, recordAt (b.addSchema channel).part.schemas (b.schemaId channel) = some schema ∧
      schema.name = channel.schemaName ∧
      (schema = schemaRecord channel ↔
        ∀ id record, b.schemaIds channel.schemaName = some id →
          recordAt b.part.schemas id = some record → record = schemaRecord channel) := by
  unfold Bookkeeping.addSchema schemaId
  cases hname : b.schemaIds channel.schemaName with
  | none => exact ⟨schemaRecord channel, recordAt_new _ _, rfl, by simp⟩
  | some id =>
      obtain ⟨schema, hschema, hsname⟩ := hregistered.schema channel.schemaName id hname
      refine ⟨schema, hschema, hsname, ?_⟩
      constructor
      · rintro rfl other record hother hrecord
        obtain rfl := Option.some.inj hother
        exact Option.some.inj (hrecord.symm.trans hschema)
      · intro hall
        exact hall id schema rfl hschema

theorem Registered.addChannel [DecidableEq κ] (hregistered : Registered b) {channel : Channel}
    {id : ℕ} (hid : b.schemaIds channel.schemaName = some id) :
    Registered (b.addChannel keying channel id) := by
  refine ⟨hregistered.schema, ?_, ?_⟩
  · intro key other hother
    by_cases hnew : key = keying.key channel
    · subst hnew
      obtain rfl : b.part.channels.length + 1 = other := by
        simpa [Bookkeeping.addChannel] using hother
      obtain ⟨schema, hschema, hsname⟩ := hregistered.schema channel.schemaName id hid
      refine ⟨channelRecord channel id, schema, recordAt_new _ _, hschema, ?_, ?_⟩
      · simp [Bookkeeping.addChannel, hsname]
      · rw [hsname]
        exact hid
    · obtain ⟨record, schema, hrecord, hschema, hkey, hback⟩ := hregistered.channel key other
        (by simpa [Bookkeeping.addChannel, Function.update_of_ne hnew] using hother)
      refine ⟨record, schema, recordAt_append _ hrecord, hschema, ?_, hback⟩
      simpa [Bookkeeping.addChannel, Function.update_of_ne hnew] using hkey
  · intro message hmessage
    obtain ⟨record, schema, hrecord, hschema⟩ := hregistered.message message hmessage
    exact ⟨record, schema, recordAt_append _ hrecord, hschema⟩

theorem Registered.addMessage (hregistered : Registered b) (channel : Channel)
    (msg : RecordedMessage) (taken : Bool) {key : κ} {id : ℕ} (hid : b.channelIds key = some id) :
    Registered (b.addMessage channel msg id taken) := by
  unfold Bookkeeping.addMessage
  cases taken with
  | false => exact hregistered
  | true =>
      refine ⟨hregistered.schema, hregistered.channel, ?_⟩
      intro message hmessage
      rcases List.mem_append.mp hmessage with hold | hnew
      · exact hregistered.message message hold
      · obtain rfl := List.mem_singleton.mp hnew
        obtain ⟨record, schema, hrecord, hschema, -⟩ := hregistered.channel key id hid
        exact ⟨record, schema, hrecord, hschema⟩

theorem Registered.write [DecidableEq κ] (hregistered : Registered b) (channel : Channel)
    (msg : RecordedMessage) (taken : Bool) : Registered (b.write keying channel msg taken) := by
  obtain ⟨hadded, hid, -⟩ := hregistered.addSchema channel
  unfold Bookkeeping.write
  dsimp only
  cases hkey : (b.addSchema channel).channelIds (keying.key channel) with
  | none =>
      have hnew : ((b.addSchema channel).addChannel keying channel (b.schemaId channel)).channelIds
          (keying.key channel) = some ((b.addSchema channel).part.channels.length + 1) := by
        simp [Bookkeeping.addChannel]
      exact (hadded.addChannel hid).addMessage channel msg taken hnew
  | some id =>
      dsimp only
      split
      · exact hadded
      · exact hadded.addMessage channel msg taken hkey

/-- When a new message is described. -/
theorem described_new {part : PartRecords} {channel : Channel} {msg : RecordedMessage} {id : ℕ}
    {record : ChannelRecord} {schema : SchemaRecord}
    (hrecord : recordAt part.channels id = some record)
    (hschema : recordAt part.schemas record.schemaId = some schema) :
    Described part ⟨messageRecord msg id, channel, msg⟩ ↔
      record.topic = channel.topic ∧
        record.messageEncoding = orDefaultEncoding channel.encoding ∧
        schema = schemaRecord channel := by
  constructor
  · rintro ⟨⟨other, hother, htopic, hencoding, hdata⟩, -⟩
    obtain rfl : record = other := Option.some.inj (hrecord.symm.trans hother)
    exact ⟨htopic, hencoding, Option.some.inj (hschema.symm.trans hdata)⟩
  · rintro ⟨htopic, hencoding, rfl⟩
    exact ⟨⟨record, hrecord, htopic, hencoding, hschema⟩, rfl⟩

theorem selfDescribing_append (schemas : List SchemaRecord) (channels : List ChannelRecord)
    (messages : List StoredMessage) (message : StoredMessage) :
    SelfDescribing ⟨schemas, channels, messages ++ [message]⟩ ↔
      SelfDescribing ⟨schemas, channels, messages⟩ ∧
        Described ⟨schemas, channels, messages⟩ message := by
  have hsame : ∀ other, Described ⟨schemas, channels, messages ++ [message]⟩ other ↔
      Described ⟨schemas, channels, messages⟩ other := fun other =>
    ⟨fun h => ⟨h.channel, h.message⟩, fun h => ⟨h.channel, h.message⟩⟩
  simp only [SelfDescribing, List.forall_mem_append, List.forall_mem_singleton, hsame]

theorem faithful_iff :
    Faithful b ↔ (∀ part ∈ b.closedParts, SelfDescribing part) ∧ SelfDescribing b.part := by
  simp only [Faithful, List.forall_mem_append, List.forall_mem_singleton]

/-- A new key: the part has to agree on the schema alone. -/
theorem agrees_of_new {channel : Channel} (hkey : b.channelIds (keying.key channel) = none) :
    Agrees keying b channel ↔
      ∀ id record, b.schemaIds channel.schemaName = some id →
        recordAt b.part.schemas id = some record → record = schemaRecord channel := by
  constructor
  · exact Agrees.schema
  · intro hschema
    refine ⟨hschema, fun id record hid => ?_⟩
    rw [hkey] at hid
    cases hid

/-- A known key: the part has to agree on the record behind it. -/
theorem agrees_of_known {channel : Channel} {id : ℕ} {record : ChannelRecord}
    {schema : SchemaRecord}
    (hkey : b.channelIds (keying.key channel) = some id)
    (hrecord : recordAt b.part.channels id = some record)
    (hschema : recordAt b.part.schemas record.schemaId = some schema)
    (hname : b.channelSchemas (keying.key channel) = some schema.name)
    (hback : b.schemaIds schema.name = some record.schemaId) :
    Agrees keying b channel ↔
      record.topic = channel.topic ∧
        record.messageEncoding = orDefaultEncoding channel.encoding ∧
        schema = schemaRecord channel := by
  constructor
  · intro hagrees
    obtain ⟨htopic, hencoding, hnamed⟩ := hagrees.channel id record hkey hrecord
    have hsame : schema.name = channel.schemaName := Option.some.inj (hname.symm.trans hnamed)
    refine ⟨htopic, hencoding, ?_⟩
    exact hagrees.schema record.schemaId schema (hsame ▸ hback) hschema
  · rintro ⟨htopic, hencoding, rfl⟩
    refine ⟨fun other found hother hfound => ?_, fun other found hother hfound => ?_⟩
    · obtain rfl : record.schemaId = other := Option.some.inj (hback.symm.trans hother)
      exact Option.some.inj (hfound.symm.trans hschema)
    · obtain rfl : id = other := Option.some.inj (hkey.symm.trans hother)
      obtain rfl : record = found := Option.some.inj (hrecord.symm.trans hfound)
      exact ⟨htopic, hencoding, hname⟩

/-- A message that is not refused keeps its part describing exactly when the part agrees
with its channel. -/
theorem Registered.write_faithful [DecidableEq κ] (hregistered : Registered b) (channel : Channel)
    (msg : RecordedMessage) (taken : Bool) :
    Faithful (b.write keying channel msg taken) ↔
      Faithful b ∧ (taken = true → b.refuses keying channel = false →
        Agrees keying b channel) := by
  obtain ⟨-, -, schemas, hpart⟩ := hregistered.addSchema channel
  obtain ⟨schema, hschema, -, hown⟩ := hregistered.schema_own channel
  obtain ⟨hids, hnames, hclosed⟩ := addSchema_channelIds (b := b) channel
  rw [hpart] at hschema
  have hkept : ∀ channels, SelfDescribing
      ⟨b.part.schemas ++ schemas, b.part.channels ++ channels, b.part.messages⟩ ↔
        SelfDescribing b.part := hregistered.selfDescribing_extend schemas
  have hkept' : SelfDescribing
      ⟨b.part.schemas ++ schemas, b.part.channels, b.part.messages⟩ ↔ SelfDescribing b.part := by
    simpa using hkept []
  unfold Bookkeeping.write
  dsimp only
  rw [hids]
  cases hkey : b.channelIds (keying.key channel) with
  | none =>
      -- A channel the part has not seen: it is registered with the schema its name maps to.
      have haccepted : b.refuses keying channel = false := by simp [refuses, hkey]
      rw [agrees_of_new hkey, ← hown]
      cases taken with
      | false =>
          simp [faithful_iff, Bookkeeping.addMessage, Bookkeeping.addChannel, hclosed, hpart,
            hkept]
      | true =>
          have hnew : Described ⟨b.part.schemas ++ schemas,
              b.part.channels ++ [channelRecord channel (b.schemaId channel)], b.part.messages⟩
              ⟨messageRecord msg (b.part.channels.length + 1), channel, msg⟩ ↔
                schema = schemaRecord channel := by
            rw [described_new (recordAt_new _ _) hschema]
            simp [channelRecord]
          simp only [faithful_iff, Bookkeeping.addMessage, Bookkeeping.addChannel, hclosed, hpart,
            if_true, selfDescribing_append, hkept, haccepted, hnew, forall_const, and_assoc]
  | some id =>
      -- A known key: the record of the first channel under it stands for this one too.
      dsimp only
      obtain ⟨record, old, hrecord, hold, hname, hback⟩ := hregistered.channel _ id hkey
      have hsame : (b.addSchema channel).refuses keying channel = b.refuses keying channel := by
        simp [refuses, hids, hnames]
      rw [hsame]
      cases hrefused : b.refuses keying channel with
      | true => simp [faithful_iff, hclosed, hpart, hkept']
      | false =>
          rw [agrees_of_known hkey hrecord hold hname hback]
          cases taken with
          | false => simp [faithful_iff, Bookkeeping.addMessage, hclosed, hpart, hkept']
          | true =>
              have hnew : Described ⟨b.part.schemas ++ schemas, b.part.channels, b.part.messages⟩
                  ⟨messageRecord msg id, channel, msg⟩ ↔ _ :=
                described_new hrecord (recordAt_append schemas hold)
              simp only [faithful_iff, Bookkeeping.addMessage, hclosed, hpart, if_true, if_false,
                Bool.false_eq_true, selfDescribing_append, hkept', hnew, forall_const, and_assoc]

theorem openPart_faithful : Faithful b.openPart ↔ Faithful b := by
  have hempty : SelfDescribing {} := fun _ hmessage => nomatch hmessage
  simp only [Faithful, openPart, List.forall_mem_append, List.forall_mem_singleton, hempty,
    and_true]

end Bookkeeping

end VisioSchema.Mcap

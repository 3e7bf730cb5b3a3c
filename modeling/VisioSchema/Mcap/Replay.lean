import Mathlib.Data.List.Sort
import VisioSchema.Mcap.SelfDescribing
import VisioSchema.Routing.Bijection

/-!
# Replay

`read_mcap` gives the rows of a part back, and `McapReaderEndpoint` hands them on as a live
device would: it declares every recorded topic in a registry of its own, announces it in front
of its first message, and sends the messages under the ids of that registry.

A consumer that resolves what it is handed gets the rows of the file, and at any time as many of
them as messages were sent (`replay_heard`).  The proof goes along the rows with two invariants:
`Declared` says which topics the registry of the replay has and under which ids, namely those of
the rows so far in the order in which they first appear; `Mirrors` says that the consumer has
learned the same table, which each announce keeps, in whatever order it lists the channels.
A part of the Python writer thus comes back as it was written: what was recorded on a topic is
heard on that topic, under the same schema.
-/

namespace VisioSchema.Mcap

open VisioSchema.Library VisioSchema.Wire VisioSchema.Routing

/-! ## Reading -/

/-- The registry of a replay, and the topics that it has announced. -/
structure Replay where
  registry : ChannelRegistry := {}
  seen : List String := []

section Replaying

variable (iterate : List ℕ → List ℕ) (selfInfo : List Channel → List Byte)

/-- `own_channels`; the ids are a set, which is iterated in some order. -/
def ownInOrder (r : ChannelRegistry) : List Channel := (iterate r.ownIds).filterMap r.byId

/-- A topic that is new to the replay is declared and announced; `selfInfo` serializes the
announce. -/
def Replay.introduce (s : Replay) (channel : Channel) : List Message × Replay :=
  if channel.topic ∈ s.seen then ([], s)
  else
    let registry := (s.registry.declare .python channel).2
    ([{ streamId := kDeviceInfo, payload := selfInfo (ownInOrder iterate registry) }],
      { registry := registry, seen := s.seen ++ [channel.topic] })

/-- A message under the id that the replay has for its topic. -/
def relabelled (id : ℕ) (msg : Message) : Message where
  streamId := id
  payload := msg.payload
  seq := msg.seq
  timestamp := msg.timestamp

/-- What `_replay_loop` hands on for one row; a recorded announce is not replayed. -/
def Replay.row (s : Replay) (row : Message × Channel) : List Message × Replay :=
  if row.2.topic = kDeviceInfoTopic then ([], s)
  else
    let introduced := s.introduce iterate selfInfo row.2
    -- a topic that was introduced has an id
    let id := introduced.2.registry.topicToId row.2.topic
    (introduced.1 ++ id.toList.map (relabelled · row.1), introduced.2)

/-- What `_replay_loop` hands on for the rows of a file, if it is not stopped. -/
def Replay.outputs : Replay → List (Message × Channel) → List Message
  | _, [] => []
  | s, row :: rest =>
      (s.row iterate selfInfo row).1 ++ Replay.outputs (s.row iterate selfInfo row).2 rest

end Replaying

/-- `resolved`: the rows of the messages that have a channel. -/
def resolved (decode : List Byte → Option (List Channel)) (blob : List Byte) :
    ChannelRegistry → List Message → List (Option Message × Channel)
  | _, [] => []
  | r, msg :: rest =>
      let answer := r.accept .python decode blob msg
      (answer.1.channel.toList.map fun channel => (answer.1.message, channel)) ++
        resolved decode blob answer.2 rest

/-! ## What is heard -/

/-- The topics of a file in the order in which they first appear. -/
def recordedTopics (rows : List (Message × Channel)) : List String :=
  ((rows.map fun row => row.2.topic).filter fun topic => topic ≠ kDeviceInfoTopic).eraseDups

/-- The id under which a topic is replayed. -/
def replayId (rows : List (Message × Channel)) (topic : String) : ℕ :=
  kFirstDynamic + (recordedTopics rows).idxOf topic

/-- The channel under which a topic is replayed: the first that the file has for it. -/
def replayChannel (rows : List (Message × Channel)) (topic : String) : Channel :=
  { ((rows.map Prod.snd).find? fun channel => channel.topic = topic).getD {} with
    id := replayId rows topic }

/-- A row of a file as a consumer hears it. -/
def heardOf (rows : List (Message × Channel)) (row : Message × Channel) :
    Option Message × Channel :=
  (some (relabelled (replayId rows row.2.topic) row.1), replayChannel rows row.2.topic)

/-- How many messages are not announces. -/
def dataCount (msgs : List Message) : ℕ :=
  msgs.countP fun msg => decide (msg.streamId ≠ kDeviceInfo)

/-- The rows that are replayed. -/
def dataRows (rows : List (Message × Channel)) : List (Message × Channel) :=
  rows.filter fun row => row.2.topic ≠ kDeviceInfoTopic

/-- The announces of a replay come back from the wire as they were. -/
def Carries (selfInfo : List Channel → List Byte) (decode : List Byte → Option (List Channel))
    (rows : List (Message × Channel)) : Prop :=
  ∀ channels : List Channel,
    (∀ channel ∈ channels, ∃ topic ∈ recordedTopics rows, channel = replayChannel rows topic) →
      decode (selfInfo channels) = some channels

/-! ## Topics in order -/

section Topics

variable {done : List (Message × Channel)} {topic : String}

theorem mem_recordedTopics :
    topic ∈ recordedTopics done ↔
      topic ≠ kDeviceInfoTopic ∧ ∃ row ∈ done, row.2.topic = topic := by
  simp only [recordedTopics, List.mem_eraseDups, List.mem_filter, List.mem_map, decide_eq_true_eq]
  rw [and_comm]

/-- The topics of the first rows come first. -/
theorem recordedTopics_append (done rest : List (Message × Channel)) :
    recordedTopics done <+: recordedTopics (done ++ rest) := by
  rw [recordedTopics, recordedTopics, List.map_append, List.filter_append, List.eraseDups_append]
  exact List.prefix_append ..

/-- A row whose topic is known, or is not replayed. -/
theorem recordedTopics_old {row : Message × Channel}
    (hold : row.2.topic = kDeviceInfoTopic ∨ row.2.topic ∈ recordedTopics done) :
    recordedTopics (done ++ [row]) = recordedTopics done := by
  rw [recordedTopics, List.map_append, List.filter_append, List.eraseDups_append]
  rcases hold with hinfo | hmem
  · simp [recordedTopics, hinfo]
  · obtain ⟨hdata, other, hother, htopic⟩ := mem_recordedTopics.mp hmem
    have hgone : List.removeAll [row.2.topic] ((done.map fun row => row.2.topic).filter
        fun topic => topic ≠ kDeviceInfoTopic) = [] := by
      simp only [List.removeAll, List.filter_eq_nil_iff, List.mem_singleton]
      rintro _ rfl
      simp only [List.elem_eq_mem, List.mem_filter, List.mem_map, Bool.not_eq_true',
        decide_eq_false_iff_not, decide_eq_true_eq, not_not]
      exact ⟨⟨other, hother, htopic⟩, hdata⟩
    simp only [List.map_cons, List.map_nil, List.filter_cons, hdata, ne_eq, not_false_eq_true,
      decide_true, if_true, List.filter_nil]
    rw [hgone, List.eraseDups_nil, List.append_nil]
    rfl

/-- A row of a new topic. -/
theorem recordedTopics_new {row : Message × Channel} (hdata : row.2.topic ≠ kDeviceInfoTopic)
    (hnew : row.2.topic ∉ recordedTopics done) :
    recordedTopics (done ++ [row]) = recordedTopics done ++ [row.2.topic] := by
  rw [recordedTopics, List.map_append, List.filter_append, List.eraseDups_append]
  have hkept : List.removeAll [row.2.topic] ((done.map fun row => row.2.topic).filter
      fun topic => topic ≠ kDeviceInfoTopic) = [row.2.topic] := by
    have hfree : row.2.topic ∉ (done.map fun row => row.2.topic).filter
        fun topic => topic ≠ kDeviceInfoTopic := by
      intro hmem
      exact hnew (List.mem_eraseDups.mpr hmem)
    simp only [List.removeAll, List.filter_cons, List.elem_eq_mem, hfree, decide_false,
      Bool.not_false, if_true, List.filter_nil]
  simp only [List.map_cons, List.map_nil, List.filter_cons, hdata, ne_eq, not_false_eq_true,
    decide_true, if_true, List.filter_nil]
  rw [hkept]
  simp [recordedTopics, List.eraseDups_cons]

/-- Rows that come later change no id. -/
theorem replayId_append (hmem : topic ∈ recordedTopics done)
    (rest : List (Message × Channel)) : replayId (done ++ rest) topic = replayId done topic := by
  obtain ⟨more, hmore⟩ := recordedTopics_append done rest
  rw [replayId, replayId, ← hmore, List.idxOf_append_of_mem hmem]

theorem replayChannel_append (hmem : topic ∈ recordedTopics done)
    (rest : List (Message × Channel)) :
    replayChannel (done ++ rest) topic = replayChannel done topic := by
  obtain ⟨-, row, hrow, htopic⟩ := mem_recordedTopics.mp hmem
  have hfound : (done.map Prod.snd).find? (fun channel => channel.topic = topic) ≠ none := by
    intro hnone
    have hmissing := List.find?_eq_none.mp hnone row.2 (List.mem_map_of_mem hrow)
    exact hmissing (by simpa using htopic)
  obtain ⟨channel, hchannel⟩ := Option.ne_none_iff_exists'.mp hfound
  rw [replayChannel, replayChannel, replayId_append hmem, List.map_append, List.find?_append,
    hchannel, Option.some_or]

theorem replayChannel_topic (hmem : topic ∈ recordedTopics done) :
    (replayChannel done topic).topic = topic := by
  obtain ⟨-, row, hrow, htopic⟩ := mem_recordedTopics.mp hmem
  cases hfound : (done.map Prod.snd).find? fun channel => channel.topic = topic with
  | none =>
      have hmissing := List.find?_eq_none.mp hfound row.2 (List.mem_map_of_mem hrow)
      exact absurd (by simpa using htopic) hmissing
  | some channel =>
      have hchannel : channel.topic = topic := by simpa using List.find?_some hfound
      rw [replayChannel, hfound]
      exact hchannel

/-- Ids tell topics apart. -/
theorem replayId_inj {other : String} (hmem : topic ∈ recordedTopics done)
    (hid : replayId done topic = replayId done other) : topic = other := by
  have hindex : (recordedTopics done).idxOf topic = (recordedTopics done).idxOf other :=
    Nat.add_left_cancel hid
  exact (List.idxOf_inj hmem).mp hindex

end Topics

/-! ## The registry of a replay -/

/-- The replay has declared the topics of the rows that are `done`. -/
structure Declared (done : List (Message × Channel)) (s : Replay) : Prop where
  seen : s.seen = recordedTopics done
  topics : ∀ topic, s.registry.topicToId topic =
    if topic ∈ recordedTopics done then some (replayId done topic) else none
  channels : ∀ id channel, s.registry.byId id = some channel ↔
    ∃ topic ∈ recordedTopics done, id = replayId done topic ∧ channel = replayChannel done topic
  own : ∀ id channel, s.registry.byId id = some channel → id ∈ s.registry.ownIds
  next : s.registry.nextId = kFirstDynamic + (recordedTopics done).length

section Declared

variable {iterate : List ℕ → List ℕ} {selfInfo : List Channel → List Byte}
  {done : List (Message × Channel)} {s : Replay}

theorem declared_nil : Declared [] {} where
  seen := rfl
  topics := fun _ => rfl
  channels := by
    intro id channel
    simp [recordedTopics]
  own := by
    intro id channel hchannel
    cases hchannel
  next := rfl

/-- A row that brings no topic. -/
theorem Declared.old (hdeclared : Declared done s) {row : Message × Channel}
    (hold : row.2.topic = kDeviceInfoTopic ∨ row.2.topic ∈ recordedTopics done) :
    Declared (done ++ [row]) s := by
  have hsame := recordedTopics_old hold
  refine ⟨by rw [hsame, hdeclared.seen], ?_, ?_, hdeclared.own, by rw [hsame, hdeclared.next]⟩
  · intro topic
    rw [hdeclared.topics, hsame]
    by_cases hmem : topic ∈ recordedTopics done
    · rw [if_pos hmem, if_pos hmem, replayId_append hmem]
    · rw [if_neg hmem, if_neg hmem]
  · intro id channel
    rw [hdeclared.channels, hsame]
    refine exists_congr fun topic => and_congr_right fun hmem => ?_
    rw [replayId_append hmem, replayChannel_append hmem]

theorem Declared.not_mem (hdeclared : Declared done s) {channel : Channel}
    (hnew : channel.topic ∉ recordedTopics done) : s.registry.topicToId channel.topic = none := by
  rw [hdeclared.topics, if_neg hnew]

/-- A row of a new topic. -/
theorem Declared.new (hdeclared : Declared done s) {row : Message × Channel}
    (hdata : row.2.topic ≠ kDeviceInfoTopic) (hnew : row.2.topic ∉ recordedTopics done) :
    Declared (done ++ [row])
      { registry := (s.registry.declare .python row.2).2, seen := s.seen ++ [row.2.topic] } := by
  have hgrown := recordedTopics_new hdata hnew
  have hfree := hdeclared.not_mem hnew
  -- The topic is the last one so far, so its id is the next free one, and its channel that of this
  -- row.
  have hid : replayId (done ++ [row]) row.2.topic = s.registry.nextId := by
    rw [replayId, hgrown, List.idxOf_append_of_notMem hnew, hdeclared.next]
    simp
  have hfirst : replayChannel (done ++ [row]) row.2.topic =
      { row.2 with id := s.registry.nextId } := by
    have hnone : (done.map Prod.snd).find? (fun channel => channel.topic = row.2.topic) = none := by
      rw [List.find?_eq_none]
      intro channel hchannel
      obtain ⟨other, hother, rfl⟩ := List.mem_map.mp hchannel
      intro htopic
      exact hnew (mem_recordedTopics.mpr ⟨hdata, other, hother, by simpa using htopic⟩)
    rw [replayChannel, hid, List.map_append, List.find?_append, hnone]
    simp
  have hdeclare : (s.registry.declare .python row.2).2 =
      { (({ s.registry with nextId := s.registry.nextId + 1 } : ChannelRegistry).bind
          { row.2 with id := s.registry.nextId }) with
        ownIds := s.registry.ownIds.insert s.registry.nextId } := by
    rw [ChannelRegistry.declare, hfree]
    rfl
  rw [hdeclare]
  refine ⟨?_, ?_, ?_, ?_, ?_⟩
  · rw [hdeclared.seen, hgrown]
  · intro topic
    dsimp only [ChannelRegistry.bind]
    by_cases htopic : topic = row.2.topic
    · subst htopic
      rw [Function.update_self, if_pos (by simp [hgrown]), hid]
    · rw [Function.update_of_ne htopic, hdeclared.topics, hgrown]
      by_cases hmem : topic ∈ recordedTopics done
      · rw [if_pos hmem, if_pos (List.mem_append_left _ hmem), replayId_append hmem]
      · rw [if_neg hmem, if_neg]
        simp [hmem, htopic]
  · intro id channel
    dsimp only [ChannelRegistry.bind]
    rw [Function.update_apply]
    by_cases hlast : id = s.registry.nextId
    · rw [if_pos hlast]
      -- The new id stands for the new topic alone.
      constructor
      · intro hchannel
        refine ⟨row.2.topic, by simp [hgrown], hlast.trans hid.symm, ?_⟩
        rw [hfirst]
        exact (Option.some.inj hchannel).symm
      · rintro ⟨topic, hmem, hsame, rfl⟩
        have htopic : topic = row.2.topic := by
          refine replayId_inj hmem ?_
          rw [← hsame, hid, hlast]
        rw [htopic, hfirst]
    · -- Any other id keeps its channel, since more rows change neither ids nor channels of topics
      -- that were there.
      rw [if_neg hlast, hdeclared.channels]
      constructor
      · rintro ⟨topic, hmem, rfl, rfl⟩
        refine ⟨topic, ?_, (replayId_append hmem _).symm, (replayChannel_append hmem _).symm⟩
        rw [hgrown]
        exact List.mem_append_left _ hmem
      · rintro ⟨topic, hmem, rfl, rfl⟩
        rw [hgrown] at hmem
        rcases List.mem_append.mp hmem with hold | hrow
        · exact ⟨topic, hold, replayId_append hold _, replayChannel_append hold _⟩
        · obtain rfl := List.mem_singleton.mp hrow
          exact absurd hid hlast
  · intro id channel hchannel
    dsimp only [ChannelRegistry.bind] at hchannel ⊢
    rw [Function.update_apply] at hchannel
    by_cases hlast : id = s.registry.nextId
    · rw [hlast]
      exact List.mem_insert_self
    · rw [if_neg hlast] at hchannel
      exact List.mem_insert_of_mem (hdeclared.own id channel hchannel)
  · dsimp only [ChannelRegistry.bind]
    rw [hgrown, hdeclared.next, List.length_append, List.length_singleton, Nat.add_assoc]

/-- A topic that was introduced has its id. -/
theorem Declared.introduce (hdeclared : Declared done s) {row : Message × Channel}
    (hdata : row.2.topic ≠ kDeviceInfoTopic) :
    Declared (done ++ [row]) (s.introduce iterate selfInfo row.2).2 := by
  unfold Replay.introduce
  by_cases hmem : row.2.topic ∈ s.seen
  · rw [if_pos hmem]
    rw [hdeclared.seen] at hmem
    exact hdeclared.old (Or.inr hmem)
  · rw [if_neg hmem]
    rw [hdeclared.seen] at hmem
    exact hdeclared.new hdata hmem

end Declared

/-! ## A consumer that listens -/

/-- What the consumer knows is in the table. -/
structure KnownTo (r table : ChannelRegistry) : Prop where
  channels : ∀ id channel, r.byId id = some channel → table.byId id = some channel
  topics : ∀ topic id, r.topicToId topic = some id → table.topicToId topic = some id

/-- The consumer knows what the replay has declared. -/
structure Mirrors (s : Replay) (r : ChannelRegistry) : Prop where
  channels : r.byId = s.registry.byId
  topics : r.topicToId = s.registry.topicToId

section Listening

variable {iterate : List ℕ → List ℕ} {selfInfo : List Channel → List Byte}
  {decode : List Byte → Option (List Channel)} {blob : List Byte}
  {done : List (Message × Channel)} {s : Replay} {r table : ChannelRegistry}

/-- A channel of the table is learned. -/
theorem KnownTo.learn (hknownTo : KnownTo r table) {channel : Channel}
    (hentry : table.byId channel.id = some channel)
    (htopic : table.topicToId channel.topic = some channel.id) :
    r.learnOrWarn .python channel = r.bind channel ∧ KnownTo (r.bind channel) table := by
  have hok : r.learn .python channel = .ok (r.bind channel) := by
    refine ChannelRegistry.learn_eq_ok.mpr ⟨rfl, ?_, by simp⟩
    intro id hid
    have hsame := hknownTo.topics _ _ hid
    rw [htopic] at hsame
    exact (Option.some.inj hsame).symm
  refine ⟨ChannelRegistry.learnOrWarn_of_ok hok, ?_, ?_⟩
  · intro id other hother
    dsimp only [ChannelRegistry.bind] at hother
    rw [Function.update_apply] at hother
    by_cases hid : id = channel.id
    · rw [if_pos hid] at hother
      rw [hid, hentry]
      exact hother
    · rw [if_neg hid] at hother
      exact hknownTo.channels id other hother
  · intro topic id hid
    dsimp only [ChannelRegistry.bind] at hid
    rw [Function.update_apply] at hid
    by_cases hsame : topic = channel.topic
    · rw [if_pos hsame] at hid
      rw [hsame, htopic]
      exact hid
    · rw [if_neg hsame] at hid
      exact hknownTo.topics topic id hid

/-- After an announce the consumer knows every channel of it. -/
theorem KnownTo.learns {channels : List Channel} (hknownTo : KnownTo r table)
    (hentries : ∀ channel ∈ channels, table.byId channel.id = some channel ∧
      table.topicToId channel.topic = some channel.id) :
    KnownTo (channels.foldl (ChannelRegistry.learnOrWarn .python) r) table ∧
      ∀ channel, channel ∈ channels ∨ r.byId channel.id = some channel ∧
        r.topicToId channel.topic = some channel.id →
        (channels.foldl (ChannelRegistry.learnOrWarn .python) r).byId channel.id = some channel ∧
          (channels.foldl (ChannelRegistry.learnOrWarn .python) r).topicToId channel.topic =
            some channel.id := by
  induction channels generalizing r with
  | nil =>
      refine ⟨hknownTo, ?_⟩
      rintro channel (hmem | hknown)
      · cases hmem
      · exact hknown
  | cons first rest ih =>
      obtain ⟨hfirst, hfirstTopic⟩ := hentries first List.mem_cons_self
      obtain ⟨hlearned, hbound⟩ := hknownTo.learn hfirst hfirstTopic
      rw [List.foldl_cons, hlearned]
      obtain ⟨hafter, hall⟩ := ih hbound fun channel hmem =>
        hentries channel (List.mem_cons_of_mem _ hmem)
      refine ⟨hafter, ?_⟩
      intro channel hchannel
      apply hall channel
      rcases hchannel with hmem | ⟨hknown, htopic⟩
      · rcases List.mem_cons.mp hmem with rfl | hrest
        · exact Or.inr ⟨Function.update_self .., Function.update_self ..⟩
        · exact Or.inl hrest
      · -- what was known is bound again or left alone
        refine Or.inr ⟨?_, ?_⟩
        · dsimp only [ChannelRegistry.bind]
          rw [Function.update_apply]
          by_cases hid : channel.id = first.id
          · have hsame := hknownTo.channels _ _ hknown
            rw [hid, hfirst] at hsame
            rw [if_pos hid]
            exact hsame
          · rw [if_neg hid]
            exact hknown
        · dsimp only [ChannelRegistry.bind]
          rw [Function.update_apply]
          by_cases hsame : channel.topic = first.topic
          · have hid := hknownTo.topics _ _ htopic
            rw [hsame, hfirstTopic] at hid
            rw [if_pos hsame]
            exact hid
          · rw [if_neg hsame]
            exact htopic

/-- The channels of the table lie under their ids and topics. -/
theorem Declared.entry (hdeclared : Declared done s) {id : ℕ} {channel : Channel}
    (hchannel : s.registry.byId id = some channel) :
    channel.id = id ∧ s.registry.topicToId channel.topic = some id := by
  obtain ⟨topic, hmem, rfl, rfl⟩ := (hdeclared.channels _ _).mp hchannel
  refine ⟨rfl, ?_⟩
  rw [replayChannel_topic hmem, hdeclared.topics, if_pos hmem]

/-- The announce of a replay tells a consumer all of its channels. -/
theorem Declared.announce (hdeclared : Declared done s) (hknownTo : KnownTo r s.registry)
    (hiterate : ∀ ids, (iterate ids).Perm ids) :
    Mirrors s ((ownInOrder iterate s.registry).foldl
      (ChannelRegistry.learnOrWarn .python) r) := by
  have hentries : ∀ channel ∈ ownInOrder iterate s.registry,
      s.registry.byId channel.id = some channel ∧
        s.registry.topicToId channel.topic = some channel.id := by
    intro channel hmem
    obtain ⟨id, -, hchannel⟩ := List.mem_filterMap.mp hmem
    obtain ⟨rfl, htopic⟩ := hdeclared.entry hchannel
    exact ⟨hchannel, htopic⟩
  have hall : ∀ id channel, s.registry.byId id = some channel →
      channel ∈ ownInOrder iterate s.registry := by
    intro id channel hchannel
    have hown := (hiterate s.registry.ownIds).mem_iff.mpr (hdeclared.own id channel hchannel)
    exact List.mem_filterMap.mpr ⟨id, hown, hchannel⟩
  obtain ⟨hafter, hknown⟩ := hknownTo.learns hentries
  refine ⟨funext fun id => ?_, funext fun topic => ?_⟩
  · cases hchannel : s.registry.byId id with
    | some channel =>
        obtain ⟨rfl, -⟩ := hdeclared.entry hchannel
        exact (hknown channel (Or.inl (hall _ channel hchannel))).1
    | none =>
        by_contra hsome
        obtain ⟨channel, hextra⟩ := Option.ne_none_iff_exists'.mp hsome
        have hentry := hafter.channels id channel hextra
        rw [hchannel] at hentry
        cases hentry
  · cases hid : s.registry.topicToId topic with
    | some id =>
        have hmem : topic ∈ recordedTopics done := by
          by_contra hmissing
          rw [hdeclared.topics, if_neg hmissing] at hid
          cases hid
        rw [hdeclared.topics, if_pos hmem] at hid
        have hchannel : s.registry.byId id = some (replayChannel done topic) :=
          (hdeclared.channels _ _).mpr ⟨topic, hmem, (Option.some.inj hid).symm, rfl⟩
        have htopic := (hknown _ (Or.inl (hall _ _ hchannel))).2
        rw [replayChannel_topic hmem] at htopic
        rw [htopic]
        exact hid
    | none =>
        by_contra hsome
        obtain ⟨id, hextra⟩ := Option.ne_none_iff_exists'.mp hsome
        have hentry := hafter.topics topic id hextra
        rw [hid] at hentry
        cases hentry

theorem Mirrors.knownTo (hmirrors : Mirrors s r) : KnownTo r s.registry := by
  refine ⟨fun id channel hchannel => ?_, fun topic id hid => ?_⟩
  · rw [← hmirrors.channels]
    exact hchannel
  · rw [← hmirrors.topics]
    exact hid

/-- What is announced is what the rows have for their topics. -/
theorem Declared.announced (hdeclared : Declared done s) (rest : List (Message × Channel)) :
    ∀ channel ∈ ownInOrder iterate s.registry,
      ∃ topic ∈ recordedTopics (done ++ rest), channel = replayChannel (done ++ rest) topic := by
  intro channel hmem
  obtain ⟨id, -, hchannel⟩ := List.mem_filterMap.mp hmem
  obtain ⟨topic, htopic, -, rfl⟩ := (hdeclared.channels _ _).mp hchannel
  exact ⟨topic, (recordedTopics_append done rest).subset htopic,
    (replayChannel_append htopic rest).symm⟩

/-- A new topic only adds to the table. -/
theorem Declared.grows (hdeclared : Declared done s) {row : Message × Channel} {s' : Replay}
    (hafter : Declared (done ++ [row]) s') : KnownTo s.registry s'.registry := by
  obtain ⟨more, hmore⟩ := recordedTopics_append done [row]
  refine ⟨fun id channel hchannel => ?_, fun topic id hid => ?_⟩
  · obtain ⟨topic, hmem, rfl, rfl⟩ := (hdeclared.channels _ _).mp hchannel
    refine (hafter.channels _ _).mpr ⟨topic, ?_, (replayId_append hmem _).symm,
      (replayChannel_append hmem _).symm⟩
    rw [← hmore]
    exact List.mem_append_left _ hmem
  · have hmem : topic ∈ recordedTopics done := by
      by_contra hmissing
      rw [hdeclared.topics, if_neg hmissing] at hid
      cases hid
    rw [hdeclared.topics, if_pos hmem] at hid
    rw [hafter.topics, if_pos, replayId_append hmem]
    · exact hid
    · rw [← hmore]
      exact List.mem_append_left _ hmem

theorem KnownTo.trans {first second third : ChannelRegistry} (hfirst : KnownTo first second)
    (hsecond : KnownTo second third) : KnownTo first third where
  channels := fun id channel hchannel =>
    hsecond.channels id channel (hfirst.channels id channel hchannel)
  topics := fun topic id hid => hsecond.topics topic id (hfirst.topics topic id hid)

/-- A message of a declared topic is resolved. -/
theorem resolved_relabelled (hdeclared : Declared done s) (hmirrors : Mirrors s r)
    {topic : String} (hmem : topic ∈ recordedTopics done) (msg : Message)
    (rest : List Message) :
    resolved decode blob r (relabelled (replayId done topic) msg :: rest) =
      (some (relabelled (replayId done topic) msg), replayChannel done topic) ::
        resolved decode blob r rest := by
  have hchannel : r.byId (relabelled (replayId done topic) msg).streamId =
      some (replayChannel done topic) := by
    rw [hmirrors.channels]
    exact (hdeclared.channels _ _).mpr ⟨topic, hmem, rfl, rfl⟩
  have hdynamic : kFirstDynamic ≤ (relabelled (replayId done topic) msg).streamId :=
    Nat.le_add_right ..
  have hinfo : ¬ (relabelled (replayId done topic) msg).streamId = kDeviceInfo := by
    unfold kFirstDynamic at hdynamic
    unfold kDeviceInfo
    omega
  have haccept : r.accept .python decode blob (relabelled (replayId done topic) msg) =
      ({ message := some (relabelled (replayId done topic) msg)
         channel := some (replayChannel done topic) }, r) := by
    rw [ChannelRegistry.accept, if_neg hinfo, if_neg (Nat.not_lt.mpr hdynamic),
      ChannelRegistry.resolve, if_neg hinfo, hchannel]
  rw [resolved, haccept]
  rfl

/-- Row by row, a consumer hears what is replayed. -/
theorem resolved_outputs (hiterate : ∀ ids, (iterate ids).Perm ids)
    (hdeclared : Declared done s) (hmirrors : Mirrors s r) (rows : List (Message × Channel))
    (hcarries : Carries selfInfo decode (done ++ rows)) :
    resolved decode blob r (s.outputs iterate selfInfo rows) =
      (dataRows rows).map (heardOf (done ++ rows)) := by
  -- Along the rows: what was declared is known of the rows so far, and the consumer has learned the
  -- same.
  induction rows generalizing done s r with
  | nil => rfl
  | cons row rest ih =>
      have hrows : done ++ row :: rest = done ++ [row] ++ rest := by simp
      rw [hrows] at hcarries ⊢
      rw [Replay.outputs, dataRows, List.filter_cons]
      by_cases hinfo : row.2.topic = kDeviceInfoTopic
      · -- a recorded announce is left out
        have hskip : s.row iterate selfInfo row = ([], s) := if_pos hinfo
        rw [hskip, if_neg (by simpa using hinfo)]
        exact ih (hdeclared.old (Or.inl hinfo)) hmirrors hcarries
      rw [if_pos (by simpa using hinfo)]
      have hafter : Declared (done ++ [row]) (s.introduce iterate selfInfo row.2).2 :=
        hdeclared.introduce hinfo
      have hmem : row.2.topic ∈ recordedTopics (done ++ [row]) :=
        mem_recordedTopics.mpr ⟨hinfo, row, by simp, rfl⟩
      have hrow : s.row iterate selfInfo row =
          ((s.introduce iterate selfInfo row.2).1 ++
            [relabelled (replayId (done ++ [row]) row.2.topic) row.1],
            (s.introduce iterate selfInfo row.2).2) := by
        unfold Replay.row
        rw [if_neg hinfo]
        dsimp only
        rw [hafter.topics, if_pos hmem]
        rfl
      rw [hrow]
      dsimp only
      -- Once the topic is introduced, the message is heard under its id, and the rest by the
      -- induction.
      have hlater : ∀ r', Mirrors (s.introduce iterate selfInfo row.2).2 r' →
          resolved decode blob r' (relabelled (replayId (done ++ [row]) row.2.topic) row.1 ::
            (s.introduce iterate selfInfo row.2).2.outputs iterate selfInfo rest) =
          heardOf (done ++ [row] ++ rest) row ::
            (dataRows rest).map (heardOf (done ++ [row] ++ rest)) := by
        intro r' hmirrors'
        rw [resolved_relabelled hafter hmirrors' hmem, ih hafter hmirrors' hcarries,
          heardOf, replayId_append hmem, replayChannel_append hmem]
      rw [List.map_cons, List.append_assoc, List.singleton_append]
      by_cases hseen : row.2.topic ∈ s.seen
      · have hquiet : s.introduce iterate selfInfo row.2 = ([], s) := if_pos hseen
        rw [hquiet] at hlater ⊢
        exact hlater r hmirrors
      · -- the announce comes first
        have hnew : s.introduce iterate selfInfo row.2 =
            ([{ streamId := kDeviceInfo
                payload := selfInfo (ownInOrder iterate
                  (s.introduce iterate selfInfo row.2).2.registry) }],
              (s.introduce iterate selfInfo row.2).2) := by
          unfold Replay.introduce
          rw [if_neg hseen]
        have hknownTo := hmirrors.knownTo.trans (hdeclared.grows hafter)
        have hlearned := hafter.announce hknownTo hiterate
        rw [hnew]
        dsimp only
        rw [List.singleton_append, resolved]
        have haccept : ∀ payload channels, decode payload = some channels →
            r.accept .python decode blob { streamId := kDeviceInfo, payload := payload } =
              ({}, channels.foldl (ChannelRegistry.learnOrWarn .python) r) := by
          intro payload channels hchannels
          unfold ChannelRegistry.accept ChannelRegistry.onAnnounce
          dsimp only
          rw [if_pos rfl, hchannels]
        rw [haccept _ _ (hcarries _ (hafter.announced rest))]
        exact hlater _ hlearned

/-- What a consumer hears of a whole file. -/
theorem resolved_replay (hiterate : ∀ ids, (iterate ids).Perm ids)
    {rows : List (Message × Channel)} (hcarries : Carries selfInfo decode rows) :
    resolved decode blob {} (Replay.outputs iterate selfInfo {} rows) =
      (dataRows rows).map (heardOf rows) :=
  resolved_outputs hiterate declared_nil ⟨rfl, rfl⟩ rows hcarries

/-- The consumer goes on from what it knows. -/
theorem resolved_append (r : ChannelRegistry) (sent more : List Message) : ∃ r',
    resolved decode blob r (sent ++ more) =
      resolved decode blob r sent ++ resolved decode blob r' more := by
  induction sent generalizing r with
  | nil => exact ⟨r, rfl⟩
  | cons msg rest ih =>
      obtain ⟨r', hrest⟩ := ih (r.accept .python decode blob msg).2
      refine ⟨r', ?_⟩
      rw [List.cons_append, resolved, resolved, hrest, List.append_assoc]

/-- An announce is no row, and another message at most one. -/
theorem length_resolved_le (r : ChannelRegistry) (msgs : List Message) :
    (resolved decode blob r msgs).length ≤ dataCount msgs := by
  induction msgs generalizing r with
  | nil => exact Nat.zero_le _
  | cons msg rest ih =>
      have hrest := ih (r.accept .python decode blob msg).2
      rw [resolved, dataCount, List.countP_cons, List.length_append, List.length_map]
      by_cases hinfo : msg.streamId = kDeviceInfo
      · have haccept : (r.accept .python decode blob msg).1.channel = none := by
          unfold ChannelRegistry.accept
          rw [if_pos hinfo]
        rw [haccept, if_neg (by simpa using hinfo)]
        exact (Nat.zero_add _).symm ▸ hrest
      · have hone : (r.accept .python decode blob msg).1.channel.toList.length ≤ 1 := by
          cases (r.accept .python decode blob msg).1.channel <;> simp
        rw [if_pos (by simpa using hinfo)]
        exact (Nat.add_le_add hone hrest).trans_eq (Nat.add_comm ..)

/-- A row is replayed as at most one message. -/
theorem dataCount_outputs_le (s : Replay) (rows : List (Message × Channel)) :
    dataCount (s.outputs iterate selfInfo rows) ≤ (dataRows rows).length := by
  induction rows generalizing s with
  | nil => exact Nat.zero_le _
  | cons row rest ih =>
      have hrest := ih (s.row iterate selfInfo row).2
      rw [Replay.outputs, dataCount, List.countP_append, dataRows, List.filter_cons]
      by_cases hinfo : row.2.topic = kDeviceInfoTopic
      · have hskip : s.row iterate selfInfo row = ([], s) := if_pos hinfo
        rw [hskip] at hrest ⊢
        rw [if_neg (by simpa using hinfo)]
        exact (Nat.zero_add _).symm ▸ hrest
      · have hone : (s.row iterate selfInfo row).1.countP
            (fun msg => decide (msg.streamId ≠ kDeviceInfo)) ≤ 1 := by
          have hannounce : (s.introduce iterate selfInfo row.2).1.countP
              (fun msg => decide (msg.streamId ≠ kDeviceInfo)) = 0 := by
            unfold Replay.introduce
            split <;> rfl
          unfold Replay.row
          rw [if_neg hinfo, List.countP_append, hannounce, Nat.zero_add]
          refine List.countP_le_length.trans ?_
          rw [List.length_map]
          cases (s.introduce iterate selfInfo row.2).2.registry.topicToId row.2.topic <;> simp
        rw [if_pos (by simpa using hinfo), List.length_cons]
        exact (Nat.add_le_add hone hrest).trans_eq (Nat.add_comm ..)

end Listening

/-- A replay in front of a consumer that resolves what it is handed: every row of the file is
heard, in the order of the file, on its topic and under the first channel that the file has for the
topic.  Of a replay that is stopped as many rows have been heard as messages were sent besides the
announces. -/
theorem replay_heard (iterate : List ℕ → List ℕ) (selfInfo : List Channel → List Byte)
    (decode : List Byte → Option (List Channel)) (blob : List Byte)
    (rows : List (Message × Channel)) (hiterate : ∀ ids, (iterate ids).Perm ids)
    (hcarries : Carries selfInfo decode rows) (sent : List Message)
    (hsent : sent <+: Replay.outputs iterate selfInfo {} rows) :
    resolved decode blob {} (Replay.outputs iterate selfInfo {} rows) =
        (dataRows rows).map (heardOf rows) ∧
      resolved decode blob {} sent =
        ((dataRows rows).take (dataCount sent)).map (heardOf rows) := by
  have hall := @resolved_replay _ _ _ blob hiterate rows hcarries
  refine ⟨hall, ?_⟩
  obtain ⟨more, hmore⟩ := hsent
  rw [← hmore] at hall
  obtain ⟨r, happend⟩ := @resolved_append decode blob {} sent more
  have hfirst := @length_resolved_le decode blob {} sent
  have hlast := @length_resolved_le decode blob r more
  have hcount := @dataCount_outputs_le iterate selfInfo {} rows
  rw [← hmore, dataCount, List.countP_append] at hcount
  -- no message can be missing, since the rows of the whole replay are all there
  have hlength := congrArg List.length hall
  rw [happend, List.length_append, List.length_map] at hlength
  have hexact : (resolved decode blob {} sent).length = dataCount sent := by
    unfold dataCount at hfirst hlast ⊢
    omega
  rw [List.map_take, ← hall, happend, ← hexact, List.take_left]

/-- An announce by the ids of its channels, for topics that these tell apart in a byte. -/
theorem carries_ids {rows : List (Message × Channel)} (table : Byte → Channel)
    (htable : ∀ topic ∈ recordedTopics rows,
      table (UInt8.ofNat (replayId rows topic)) = replayChannel rows topic) :
    Carries (fun channels => channels.map fun channel => UInt8.ofNat channel.id)
      (fun bytes => some (bytes.map table)) rows := by
  intro channels hchannels
  dsimp only
  rw [List.map_map]
  congr 1
  refine (List.map_congr_left fun channel hchannel => ?_).trans (List.map_id channels)
  obtain ⟨topic, hmem, rfl⟩ := hchannels channel hchannel
  exact htable topic hmem

/-- A file with an announce and three messages of two topics. -/
def replaySmall : List (Message × Channel) :=
  [({ seq := 1 }, { id := 1, topic := "/a", schemaName := "A" }),
    ({}, { id := 2, topic := kDeviceInfoTopic }),
    ({ seq := 5 }, { id := 3, topic := "/b", schemaName := "B" }),
    ({ seq := 2, payload := [7] }, { id := 1, topic := "/a", schemaName := "A" })]

def replayTable (byte : Byte) : Channel :=
  if byte = 16 then { id := 16, topic := "/a", schemaName := "A" }
  else { id := 17, topic := "/b", schemaName := "B" }

/-- Stopped behind the second announce and its message. -/
theorem replay_heard_small :
    resolved (fun bytes => some (bytes.map replayTable)) [] {}
        ((Replay.outputs List.reverse (fun channels => channels.map fun channel =>
          UInt8.ofNat channel.id) {} replaySmall).take 4) =
      [(some { streamId := 16, seq := 1 }, { id := 16, topic := "/a", schemaName := "A" }),
        (some { streamId := 17, seq := 5 }, { id := 17, topic := "/b", schemaName := "B" })] :=
  (replay_heard List.reverse _ _ [] replaySmall (fun ids => List.reverse_perm ids)
    (carries_ids replayTable (by decide)) _ (List.take_prefix 4 _)).2

end VisioSchema.Mcap

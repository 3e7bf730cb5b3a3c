import VisioSchema.Mcap.Bookkeeping
import VisioSchema.Mcap.Continuation

/-!
# Self-describing parts

Both writers register a schema under its name.  The C++ writer registers a channel under
its id and checks nothing; the Python writer registers it under its topic, so that sources
whose ids overlap can be merged, and refuses a topic that comes back with another schema
name.  Two channels that share a schema name but not the schema, or a topic but not the
message encoding, are bound to whichever came first.
-/

namespace VisioSchema.Mcap

open VisioSchema.Library VisioSchema.Wire VisioSchema.Routing

/-! ## C++ -/

def channelIdKeying : Keying ℕ where
  key := Channel.id
  checksSchema := false

/-- `TryOpenPart` and the end of `WriteRecord`, which the gates and the rolls lead to in any
order; `taken` is the library's answer. -/
inductive RecordStep
  | tryOpenPart
  | writeRecord (channel : Channel) (msg : RecordedMessage) (taken : Bool)
  deriving DecidableEq, Repr

namespace RecordStep

def step (b : Bookkeeping ℕ) : RecordStep → Bookkeeping ℕ
  | .tryOpenPart => b.openPart
  | .writeRecord channel msg taken => b.write channelIdKeying channel msg taken

/-- The part agrees with the channel of a message that is taken. -/
def Clean (b : Bookkeeping ℕ) : RecordStep → Prop
  | .tryOpenPart => True
  | .writeRecord channel _ taken => taken = true → b.Agrees channelIdKeying channel

/-- What an event of a writer is to the library, which takes every message. -/
def ofEvent : Event → Option RecordStep
  | .opened _ _ _ => some .tryOpenPart
  | .record _ channel msg => some (.writeRecord channel msg true)
  | _ => none

end RecordStep

/-! ## Python -/

def topicKeying : Keying String where
  key := Channel.topic
  checksSchema := true

structure PythonWriterConfig where
  maxBytes : Option ℕ := none
  maxDurationNs : Option ℤ := none
  deriving DecidableEq, Repr

/-- The Python `McapWriter`. -/
structure PythonWriter where
  closed : Bool := false
  partIndex : ℕ := 0
  partStartNs : ℤ := 0
  partBytes : ℕ := 0
  book : Bookkeeping String := {}

namespace PythonWriter

/-- The clock answers `now` to `_should_roll` and `openedAt` to `_open_part`; a message that
the library does not take raises. -/
inductive Call
  | write (msg : Message) (channel : Channel) (now openedAt : ℤ) (taken : Bool)
  | close
  deriving DecidableEq, Repr

section Writing

variable (cfg : PythonWriterConfig) (w : PythonWriter)

/-- `_should_roll`. -/
def shouldRoll (now : ℤ) : Bool :=
  if w.partBytes = 0 then false
  else cfg.maxBytes.any (fun most => decide (most ≤ w.partBytes)) ||
    cfg.maxDurationNs.any fun longest => decide (longest ≤ now - w.partStartNs)

/-- `_roll`. -/
def roll (openedAt : ℤ) : PythonWriter :=
  { w with
    partIndex := w.partIndex + 1, partStartNs := openedAt, partBytes := 0
    book := w.book.openPart }

/-- The roll of `write`; without a bound nothing is due. -/
def rollIfDue (now openedAt : ℤ) : PythonWriter :=
  if w.shouldRoll cfg now then w.roll openedAt else w

/-- What is stored of a message. -/
def recorded (msg : Message) : RecordedMessage where
  timestamp := msg.timestamp
  seq := msg.seq
  keyframe := msg.keyframe
  payload := msg.payload
  syncPoint := msg.syncPoint

/-- The end of `write`. -/
def record (msg : Message) (channel : Channel) (taken : Bool) : PythonWriter :=
  { w with
    book := w.book.write topicKeying channel (recorded msg) taken
    partBytes :=
      if taken && !w.book.refuses topicKeying channel then w.partBytes + msg.payload.length
      else w.partBytes }

/-- `write`. -/
def write (msg : Message) (channel : Channel) (now openedAt : ℤ) (taken : Bool) : PythonWriter :=
  if w.closed then w else (w.rollIfDue cfg now openedAt).record msg channel taken

def step : Call → PythonWriter
  | .write msg channel now openedAt taken => w.write cfg msg channel now openedAt taken
  | .close => { w with closed := true }

/-- The part that a message goes to agrees with its channel, unless the message is not
taken. -/
def Clean : Call → Prop
  | .write _ channel now openedAt taken =>
      w.closed = false → taken = true →
        (w.rollIfDue cfg now openedAt).book.refuses topicKeying channel = false →
        (w.rollIfDue cfg now openedAt).book.Agrees topicKeying channel
  | .close => True

end Writing

end PythonWriter

/-! ## Steps -/

open Bookkeeping

theorem RecordStep.step_registered {b : Bookkeeping ℕ} (s : RecordStep)
    (hregistered : Registered b) : Registered (s.step b) := by
  cases s with
  | tryOpenPart => exact opened_registered _
  | writeRecord channel msg taken => exact hregistered.write channel msg taken

theorem RecordStep.step_faithful {b : Bookkeeping ℕ} (s : RecordStep)
    (hregistered : Registered b) : Faithful (s.step b) ↔ Faithful b ∧ s.Clean b := by
  cases s with
  | tryOpenPart => simpa [step, Clean] using openPart_faithful
  | writeRecord channel msg taken =>
      have haccepted : b.refuses channelIdKeying channel = false := rfl
      refine (hregistered.write_faithful channel msg taken).trans (and_congr_right fun _ => ?_)
      exact ⟨fun hall htaken => hall htaken haccepted, fun hclean htaken _ => hclean htaken⟩

namespace PythonWriter

variable {cfg : PythonWriterConfig} {w : PythonWriter}

theorem rollIfDue_registered (hregistered : Registered w.book) (now openedAt : ℤ) :
    Registered (w.rollIfDue cfg now openedAt).book := by
  unfold rollIfDue
  split
  · exact opened_registered _
  · exact hregistered

theorem rollIfDue_faithful (now openedAt : ℤ) :
    Faithful (w.rollIfDue cfg now openedAt).book ↔ Faithful w.book := by
  unfold rollIfDue
  split
  · exact openPart_faithful
  · exact Iff.rfl

theorem step_registered (hregistered : Registered w.book) (call : Call) :
    Registered (w.step cfg call).book := by
  cases call with
  | close => exact hregistered
  | write msg channel now openedAt taken =>
      simp only [step, write]
      split
      · exact hregistered
      · exact (rollIfDue_registered hregistered now openedAt).write channel (recorded msg) taken

theorem step_faithful (hregistered : Registered w.book) (call : Call) :
    Faithful (w.step cfg call).book ↔ Faithful w.book ∧ w.Clean cfg call := by
  cases call with
  | close => exact (and_iff_left trivial).symm
  | write msg channel now openedAt taken =>
      simp only [step, write, Clean]
      split
      next hclosed => simp [hclosed]
      next hopen =>
        rw [Bool.not_eq_true] at hopen
        have hrolled : Registered (w.rollIfDue cfg now openedAt).book :=
          rollIfDue_registered hregistered now openedAt
        refine (hrolled.write_faithful channel (recorded msg) taken).trans ?_
        rw [rollIfDue_faithful]
        exact and_congr_right fun _ => ⟨fun hall _ => hall, fun hall => hall hopen⟩

end PythonWriter

/-! ## Runs -/

theorem empty_faithful {κ : Type*} : Faithful ({} : Bookkeeping κ) := by
  intro part hpart
  obtain rfl := List.mem_singleton.mp hpart
  exact fun message hmessage => nomatch hmessage

theorem RecordStep.run_faithful_iff (steps : List RecordStep) :
    Faithful (steps.foldl step {}) ↔ Along step Clean {} steps := by
  have hiff := run_iff_along (I := Registered) (G := Faithful) (C := Clean)
    (fun b s hb => s.step_registered hb) (fun b s hb => s.step_faithful hb)
    (s := {}) (opened_registered []) steps
  exact hiff.trans (and_iff_right empty_faithful)

theorem PythonWriter.run_faithful_iff (cfg : PythonWriterConfig) (openedAt : ℤ)
    (calls : List Call) :
    Faithful (calls.foldl (step cfg) { partStartNs := openedAt }).book ↔
      Along (step cfg) (Clean cfg) { partStartNs := openedAt } calls := by
  have hiff := run_iff_along (I := fun w : PythonWriter => Registered w.book)
    (G := fun w => Faithful w.book) (C := Clean cfg) (fun w call hw => step_registered hw call)
    (fun w call hw => step_faithful hw call) (s := { partStartNs := openedAt })
    (opened_registered []) calls
  exact hiff.trans (and_iff_right empty_faithful)

/-- In every run of either writer, all parts describe all of their messages exactly when no
message is taken under a schema name, or under an id (C++) or topic (Python), whose record
in its part says something else than its channel.  The steps of a C++ writer are those of
its log. -/
theorem run_selfDescribing_iff (steps : List RecordStep) (cfg : WriterConfig) (env : Env)
    (ops : List McapWriter.Op) (pythonCfg : PythonWriterConfig) (openedAt : ℤ)
    (calls : List PythonWriter.Call) :
    let logged := (McapWriter.run cfg env ops).log.filterMap RecordStep.ofEvent
    (Faithful (steps.foldl RecordStep.step {}) ↔
        Along RecordStep.step RecordStep.Clean {} steps) ∧
      (Faithful (logged.foldl RecordStep.step {}) ↔
        Along RecordStep.step RecordStep.Clean {} logged) ∧
      (Faithful (calls.foldl (PythonWriter.step pythonCfg) { partStartNs := openedAt }).book ↔
        Along (PythonWriter.step pythonCfg) (PythonWriter.Clean pythonCfg)
          { partStartNs := openedAt } calls) :=
  ⟨RecordStep.run_faithful_iff steps, RecordStep.run_faithful_iff _,
    PythonWriter.run_faithful_iff pythonCfg openedAt calls⟩

/-! ## Names that are shared -/

/-- Two sources whose schemas have one name. -/
def firstSource : Channel where
  id := 16
  topic := "/a"
  schemaName := "Sample"
  schema := [1]

def secondSource : Channel where
  id := 17
  topic := "/b"
  schemaName := "Sample"
  schema := [2]

/-- The second message is stored under the first source's schema. -/
theorem not_run_selfDescribing :
    ¬ Faithful ([.writeRecord firstSource {} true, .writeRecord secondSource {} true].foldl
        RecordStep.step {}) ∧
      ¬ Faithful ([.write {} firstSource 0 0 true, .write {} secondSource 0 0 true].foldl
        (PythonWriter.step {}) {}).book := by
  have hwrong : ∀ {part : PartRecords}, part.schemas = [schemaRecord firstSource] →
      part.channels = [channelRecord firstSource 1, channelRecord secondSource 1] →
      part.messages = [⟨messageRecord {} 1, firstSource, {}⟩,
        ⟨messageRecord {} 2, secondSource, {}⟩] → ¬ SelfDescribing part := by
    intro part hschemas hchannels hmessages hall
    obtain ⟨⟨record, hrecord, -, -, hschema⟩, -⟩ :=
      hall ⟨messageRecord {} 2, secondSource, {}⟩ (by simp [hmessages])
    rw [hchannels] at hrecord
    obtain rfl := Option.some.inj hrecord
    rw [hschemas] at hschema
    exact absurd hschema (by decide)
  have hlast : ∀ {κ : Type} {b : Bookkeeping κ}, Faithful b → SelfDescribing b.part :=
    fun hfaithful => hfaithful _ (List.mem_append_right _ (List.mem_singleton_self _))
  constructor
  · intro hfaithful
    exact hwrong (by decide) (by decide) (by decide) (hlast hfaithful)
  · intro hfaithful
    exact hwrong (by decide) (by decide) (by decide) (hlast hfaithful)

end VisioSchema.Mcap

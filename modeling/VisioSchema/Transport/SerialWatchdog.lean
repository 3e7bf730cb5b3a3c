import Mathlib.Data.Int.Order.Basic
import Mathlib.Data.List.Basic
import Mathlib.Data.List.Induction
import Mathlib.Data.List.Pairwise

/-!
# The serial watchdog

`SerialWatchdog` decides when the serial link is reopened.  It sees one tick at a time: what the
gadget says, what is pending, what the descriptor has accepted, and whether a client is open.

The run is followed with the history of all ticks and answers (`Watched`).  `Explains` says what
each field of the watchdog remembers of that history; it is an invariant of every call, and a
reopening for a stall is justified by what it says about the latch and the counter.
-/

namespace VisioSchema.Transport

/-! ## The state machine -/

namespace SerialWatchdog

inductive Action
  | none
  | reopenEdge
  | reopenStalled
  | reopenRetry
  deriving DecidableEq, Repr

/-- The inputs of `tick`. -/
structure Tick where
  usbState : String
  pending : ℕ
  accepted : UInt64
  clientOpen : Bool
  nowMs : Int64
  deriving DecidableEq, Repr

def kReaderProofBytes : UInt64 := 256 * 1024

def kStallTicks : Int32 := 3

def kBaseRetryMs : Int64 := 10000

def kMaxRetryMs : Int64 := 300000

def kBackoffStartAt : Int32 := 3

end SerialWatchdog

open SerialWatchdog

/-- The members of `SerialWatchdog`, as they are initialized. -/
structure SerialWatchdog where
  prevUsbState : String := ""
  lastAccepted : UInt64 := 0
  acceptedAtOpen : UInt64 := 0
  hadReader : Bool := false
  noDrainTicks : Int32 := 0
  lastReopenMs : Int64 := Int64.minValue / 2
  consecRetryFailures : Int32 := 0
  deriving DecidableEq, Repr

namespace SerialWatchdog

/-- The gadget comes into `CONFIGURED`. -/
def edge (s : SerialWatchdog) (t : Tick) : Bool :=
  s.prevUsbState ≠ "" && s.prevUsbState ≠ "CONFIGURED" && t.usbState = "CONFIGURED"

/-- `had_reader_`, behind the test of this tick. -/
def readerProven (s : SerialWatchdog) (t : Tick) : Bool :=
  s.hadReader || (t.clientOpen && kReaderProofBytes ≤ t.accepted - s.acceptedAtOpen)

/-- The descriptor takes nothing although something is pending. -/
def frozen (s : SerialWatchdog) (t : Tick) : Bool :=
  t.clientOpen && 0 < t.pending && t.accepted = s.lastAccepted

/-- `no_drain_ticks_`, behind the test of this tick: it counts only behind the latch. -/
def drainCount (s : SerialWatchdog) (t : Tick) : Int32 :=
  if s.frozen t then
    if s.readerProven t then s.noDrainTicks + 1 else s.noDrainTicks
  else 0

def stalled (s : SerialWatchdog) (t : Tick) : Bool :=
  s.frozen t && s.readerProven t && kStallTicks ≤ s.drainCount t && t.usbState = "CONFIGURED"

/-- What a tick records, whatever it answers. -/
def observe (s : SerialWatchdog) (t : Tick) : SerialWatchdog :=
  { s with
    prevUsbState := if t.usbState ≠ "" then t.usbState else s.prevUsbState
    hadReader := s.readerProven t
    noDrainTicks := s.drainCount t
    lastAccepted := t.accepted }

/-- The shift of the backoff. -/
def backoffShift (failures : Int32) : Int32 :=
  let shift := failures - kBackoffStartAt + 1
  if 5 < shift then 5 else shift

/-- The rate limit; `retryOnly` where neither an edge nor a stall asks for the reopening. -/
def minInterval (retryOnly : Bool) (failures : Int32) : Int64 :=
  if retryOnly && kBackoffStartAt ≤ failures then
    let interval := kBaseRetryMs <<< (backoffShift failures).toInt64
    if kMaxRetryMs < interval then kMaxRetryMs else interval
  else kBaseRetryMs

/-- What a reopening resets. -/
def reopened (s : SerialWatchdog) (t : Tick) : SerialWatchdog :=
  { s with
    lastReopenMs := t.nowMs
    noDrainTicks := 0
    hadReader := false
    acceptedAtOpen := t.accepted }

def tick (s : SerialWatchdog) (t : Tick) : Action × SerialWatchdog :=
  let edge := s.edge t
  let stalled := s.stalled t
  let retry := !t.clientOpen
  let seen := s.observe t
  if !edge && !stalled && !retry then (.none, seen)
  else if t.nowMs - s.lastReopenMs <
      minInterval (retry && !edge && !stalled) s.consecRetryFailures then (.none, seen)
  else
    (if edge then .reopenEdge else if stalled then .reopenStalled else .reopenRetry,
      seen.reopened t)

def onReopenResult (s : SerialWatchdog) (succeeded : Bool) : SerialWatchdog :=
  if succeeded then { s with consecRetryFailures := 0 }
  else { s with consecRetryFailures := s.consecRetryFailures + 1 }

/-! ## Runs with their history -/

inductive Call
  | tick (t : Tick)
  | onReopenResult (succeeded : Bool)
  deriving DecidableEq, Repr

/-- A tick and what was answered to it. -/
structure Report where
  tick : Tick
  action : Action
  deriving DecidableEq, Repr

structure Watched where
  watchdog : SerialWatchdog := {}
  history : List Report := []

def watch (w : Watched) : Call → Watched
  | .tick t =>
      let (action, watchdog) := w.watchdog.tick t
      ⟨watchdog, w.history ++ [⟨t, action⟩]⟩
  | .onReopenResult succeeded => { w with watchdog := w.watchdog.onReopenResult succeeded }

/-- The ticks of a sequence of calls, from the watchdog's start on, with their answers. -/
def history (calls : List Call) : List Report := (calls.foldl watch {}).history

/-- The ticks among the calls. -/
def ticks (calls : List Call) : List Tick :=
  calls.filterMap fun call =>
    match call with
    | .tick t => some t
    | .onReopenResult _ => none

/-- What the descriptor had accepted at the end of a history; nothing at the start. -/
def acceptedBy (history : List Report) : ℕ :=
  match history.getLast? with
  | some report => report.tick.accepted.toNat
  | none => 0

/-- `since` is the history from the last action, or from the start, on. -/
structure SinceAction (history earlier since : List Report) : Prop where
  split : history = earlier ++ since
  quiet : ∀ report ∈ since, report.action = .none
  acted : ∀ report, earlier.getLast? = some report → report.action ≠ .none

/-- A reader was there: with the client open, the descriptor had accepted 256 KiB more than at the
last action. -/
def ReaderSeen (earlier : List Report) (since : List Tick) : Prop :=
  ∃ t ∈ since, t.clientOpen = true ∧ acceptedBy earlier + 256 * 1024 ≤ t.accepted.toNat

/-- The last `count` ticks or more had the client open and something pending, and nothing was
accepted since the tick before them. -/
def Stuck (earlier : List Report) (since : List Report) (last : List Tick) (count : ℤ) : Prop :=
  ∃ draining stuck, since = draining ++ stuck ∧
    count ≤ (stuck.map Report.tick ++ last).length ∧
    ∀ t ∈ stuck.map Report.tick ++ last,
      t.clientOpen = true ∧ 0 < t.pending ∧
        t.accepted.toNat = acceptedBy (earlier ++ draining)

/-- The cause that a reopening for a stall must have. -/
def Justified (history : List Report) (t : Tick) : Prop :=
  ∃ earlier since, SinceAction history earlier since ∧
    ReaderSeen earlier (since.map Report.tick ++ [t]) ∧
    Stuck earlier since [t] 3 ∧
    t.usbState = "CONFIGURED"

/-! ## The arithmetic of the counters -/

/-- A difference that wraps comes out too small, never too large. -/
theorem bmod_le_of_le {n : ℤ} {m : ℕ} (hm : 0 < m) (hn : -(m / 2) ≤ n) : n.bmod m ≤ n := by
  by_cases hwraps : n < (m + 1) / 2
  · exact Int.le_of_eq (Int.bmod_eq_of_le hn hwraps)
  · have hlt := Int.bmod_lt (x := n) hm
    omega

theorem toInt_add_one_le (n : Int32) : (n + 1).toInt ≤ n.toInt + 1 := by
  have hlo := n.le_toInt
  rw [Int32.toInt_add, Int32.toInt_one]
  exact bmod_le_of_le (by omega) (by omega)

/-- The shift is one of five. -/
theorem backoffShift_cases {failures : Int32} (hstart : kBackoffStartAt ≤ failures) :
    backoffShift failures = 1 ∨ backoffShift failures = 2 ∨ backoffShift failures = 3 ∨
      backoffShift failures = 4 ∨ backoffShift failures = 5 := by
  have hhi := failures.toInt_lt
  have hfrom : 3 ≤ failures.toInt := Int32.le_iff_toInt_le.mp hstart
  have hshift : (failures - kBackoffStartAt + 1).toInt = failures.toInt - 2 := by
    rw [Int32.toInt_add, Int32.toInt_sub, Int32.toInt_one,
      show kBackoffStartAt.toInt = 3 by decide, Int.bmod_eq_of_le (n := failures.toInt - 3)]
    · rw [Int.bmod_eq_of_le] <;> omega
    · omega
    · omega
  unfold backoffShift
  by_cases hcap : 5 < failures - kBackoffStartAt + 1
  · simp [hcap]
  · have hle : ¬ 5 < (failures - kBackoffStartAt + 1).toInt := fun h =>
      hcap (Int32.lt_iff_toInt_lt.mpr h)
    simp only [hcap, if_false, ← Int32.toInt_inj, hshift]
    have h1 : (1 : Int32).toInt = 1 := by decide
    have h2 : (2 : Int32).toInt = 2 := by decide
    have h3 : (3 : Int32).toInt = 3 := by decide
    have h4 : (4 : Int32).toInt = 4 := by decide
    have h5 : (5 : Int32).toInt = 5 := by decide
    omega

/-- No interval is shorter than ten seconds. -/
theorem kBaseRetryMs_le_minInterval (retryOnly : Bool) (failures : Int32) :
    10000 ≤ (minInterval retryOnly failures).toInt := by
  unfold minInterval
  split
  · rename_i hbackoff
    simp only [Bool.and_eq_true, decide_eq_true_eq] at hbackoff
    obtain h | h | h | h | h := backoffShift_cases hbackoff.2 <;>
    · rw [h]
      decide
  · decide

/-- Where the clock has not gone back, the difference of two readings is the time between them. -/
theorem spaced_of_not_lt {now last interval : Int64} (hclock : last.toInt ≤ now.toInt)
    (hinterval : 10000 ≤ interval.toInt) (hlong : ¬ now - last < interval) :
    last.toInt + 10000 ≤ now.toInt := by
  rw [Int64.lt_iff_toInt_lt, Int64.toInt_sub] at hlong
  have hnow := now.toInt_lt
  have hlast := last.le_toInt
  have hdiff : (now.toInt - last.toInt).bmod (2 ^ 64) ≤ now.toInt - last.toInt :=
    bmod_le_of_le (by omega) (by omega)
  omega

/-- `accepted` has not gone back, so that the difference is what was accepted in between. -/
theorem proof_of_le_sub {accepted atOpen : UInt64} (hle : atOpen ≤ accepted)
    (hproof : kReaderProofBytes ≤ accepted - atOpen) :
    atOpen.toNat + 256 * 1024 ≤ accepted.toNat := by
  rw [UInt64.le_iff_toNat_le, UInt64.toNat_sub_of_le _ _ hle] at hproof
  rw [UInt64.le_iff_toNat_le] at hle
  have hbytes : kReaderProofBytes.toNat = 256 * 1024 := by decide
  omega

/-! ## One tick -/

/-- A tick records what it saw; it acts only when the interval is over, and then starts the link
afresh. -/
theorem tick_cases (s : SerialWatchdog) (t : Tick) :
    s.tick t = (.none, s.observe t) ∨
      ∃ action retryOnly, s.tick t = (action, (s.observe t).reopened t) ∧ action ≠ .none ∧
        (action = .reopenStalled → s.stalled t = true) ∧
        ¬ t.nowMs - s.lastReopenMs < minInterval retryOnly s.consecRetryFailures := by
  simp only [tick]
  by_cases hnothing : (!s.edge t && !s.stalled t && !!t.clientOpen) = true
  · exact .inl (if_pos hnothing)
  · rw [if_neg hnothing]
    split
    · exact .inl rfl
    · rename_i hrate
      refine .inr ⟨_, _, rfl, ?_, ?_, hrate⟩
      · split_ifs <;> simp
      · intro haction
        split_ifs at haction with hedge hstalled
        exact hstalled

/-! ## What the watchdog remembers -/

@[simp] theorem acceptedBy_snoc (history : List Report) (report : Report) :
    acceptedBy (history ++ [report]) = report.tick.accepted.toNat := by
  simp [acceptedBy]

/-- Nothing was accepted while the ticks were stuck. -/
theorem acceptedBy_append_stuck {before stuck : List Report}
    (hstuck : ∀ report ∈ stuck, report.tick.accepted.toNat = acceptedBy before) :
    acceptedBy (before ++ stuck) = acceptedBy before := by
  induction stuck using List.reverseRecOn with
  | nil => simp
  | append_singleton stuck report _ =>
      rw [← List.append_assoc, acceptedBy_snoc]
      exact hstuck report (by simp)

theorem Stuck.none (earlier since : List Report) : Stuck earlier since [] 0 := by
  refine ⟨since, [], by simp, by simp, ?_⟩
  intro t ht
  simp at ht

theorem Stuck.mono {earlier since : List Report} {last : List Tick} {count fewer : ℤ}
    (hstuck : Stuck earlier since last count) (hfewer : fewer ≤ count) :
    Stuck earlier since last fewer := by
  obtain ⟨draining, stuck, hsince, hcount, hall⟩ := hstuck
  exact ⟨draining, stuck, hsince, le_trans hfewer hcount, hall⟩

/-- One more tick at which the descriptor takes nothing. -/
theorem Stuck.frozen {earlier since : List Report} {count : ℤ} {t : Tick}
    (hstuck : Stuck earlier since [] count) (hopen : t.clientOpen = true) (hpending : 0 < t.pending)
    (haccepted : t.accepted.toNat = acceptedBy (earlier ++ since)) :
    Stuck earlier since [t] (count + 1) := by
  obtain ⟨draining, stuck, hsince, hcount, hall⟩ := hstuck
  simp only [List.append_nil, List.length_map] at hcount hall
  have hlast : acceptedBy (earlier ++ since) = acceptedBy (earlier ++ draining) := by
    rw [hsince, ← List.append_assoc]
    apply acceptedBy_append_stuck
    intro report hreport
    exact (hall report.tick (List.mem_map_of_mem hreport)).2.2
  refine ⟨draining, stuck, hsince, ?_, ?_⟩
  · simp only [List.length_append, List.length_map, List.length_singleton]
    omega
  · intro u hu
    rcases List.mem_append.mp hu with hu | hu
    · exact hall u hu
    · obtain rfl := List.mem_singleton.mp hu
      exact ⟨hopen, hpending, haccepted.trans hlast⟩

/-- The tick joins the history. -/
theorem Stuck.snoc {earlier since : List Report} {count : ℤ} {report : Report}
    (hstuck : Stuck earlier since [report.tick] count) :
    Stuck earlier (since ++ [report]) [] count := by
  obtain ⟨draining, stuck, hsince, hcount, hall⟩ := hstuck
  refine ⟨draining, stuck ++ [report], by rw [hsince, List.append_assoc], ?_, ?_⟩
  · simpa using hcount
  · simpa using hall

/-- What the members of the watchdog remember of its history. -/
structure Explains (s : SerialWatchdog) (history earlier since : List Report) : Prop where
  sinceAction : SinceAction history earlier since
  lastAccepted : s.lastAccepted.toNat = acceptedBy history
  acceptedAtOpen : s.acceptedAtOpen.toNat = acceptedBy earlier
  reader : s.hadReader = true → ReaderSeen earlier (since.map Report.tick)
  stuck : Stuck earlier since [] s.noDrainTicks.toInt

/-- The actions of a history. -/
def actions (history : List Report) : List Report :=
  history.filter fun report => report.action ≠ .none

/-- Ten seconds lie between any two actions, and the last is where `last_reopen_ms_` says. -/
structure Spaced (s : SerialWatchdog) (history : List Report) : Prop where
  pairwise : (actions history).Pairwise fun a b =>
    a.tick.nowMs.toInt + 10000 ≤ b.tick.nowMs.toInt
  last : ∀ report ∈ actions history, report.tick.nowMs.toInt ≤ s.lastReopenMs.toInt
  now : ∀ report ∈ actions history, ∃ later ∈ history, s.lastReopenMs = later.tick.nowMs

/-! ## The steps -/

theorem acceptedBy_le {history : List Report} {n : ℕ}
    (hall : ∀ report ∈ history, report.tick.accepted.toNat ≤ n) : acceptedBy history ≤ n := by
  induction history using List.reverseRecOn with
  | nil => simp [acceptedBy]
  | append_singleton history report _ =>
      rw [acceptedBy_snoc]
      exact hall report (by simp)

section Step

variable {s : SerialWatchdog} {history earlier since : List Report} {t : Tick}

/-- The latch, behind the test of this tick. -/
theorem Explains.readerProven (hexplains : Explains s history earlier since)
    (hmono : acceptedBy earlier ≤ t.accepted.toNat)
    (hproven : s.readerProven t = true) : ReaderSeen earlier (since.map Report.tick ++ [t]) := by
  unfold SerialWatchdog.readerProven at hproven
  rcases Bool.or_eq_true_iff.mp hproven with hreader | hproof
  · obtain ⟨u, hu, hseen⟩ := hexplains.reader hreader
    exact ⟨u, List.mem_append_left _ hu, hseen⟩
  · simp only [Bool.and_eq_true, decide_eq_true_eq] at hproof
    refine ⟨t, by simp, hproof.1, ?_⟩
    rw [← hexplains.acceptedAtOpen]
    apply proof_of_le_sub _ hproof.2
    rw [UInt64.le_iff_toNat_le, hexplains.acceptedAtOpen]
    exact hmono

/-- The counter counts no tick that was not stuck. -/
theorem Explains.drainCount (hexplains : Explains s history earlier since)
    (hfrozen : s.frozen t = true) : Stuck earlier since [t] (s.drainCount t).toInt := by
  have hstuck : Stuck earlier since [t] (s.noDrainTicks.toInt + 1) := by
    simp only [SerialWatchdog.frozen, Bool.and_eq_true, decide_eq_true_eq] at hfrozen
    obtain ⟨⟨hopen, hpending⟩, hunchanged⟩ := hfrozen
    apply hexplains.stuck.frozen hopen hpending
    rw [hunchanged, hexplains.lastAccepted, hexplains.sinceAction.split]
  unfold SerialWatchdog.drainCount
  rw [if_pos hfrozen]
  split
  · exact hstuck.mono (toInt_add_one_le _)
  · exact hstuck.mono (by omega)

theorem Explains.quiet (hexplains : Explains s history earlier since)
    (hmono : acceptedBy earlier ≤ t.accepted.toNat) :
    Explains (s.observe t) (history ++ [⟨t, .none⟩]) earlier (since ++ [⟨t, .none⟩]) where
  sinceAction := {
    split := by rw [hexplains.sinceAction.split, List.append_assoc]
    quiet := by
      intro report hreport
      rcases List.mem_append.mp hreport with hreport | hreport
      · exact hexplains.sinceAction.quiet report hreport
      · rw [List.mem_singleton.mp hreport]
    acted := hexplains.sinceAction.acted }
  lastAccepted := by rw [acceptedBy_snoc]; rfl
  acceptedAtOpen := hexplains.acceptedAtOpen
  reader := by
    intro hreader
    rw [List.map_append]
    exact hexplains.readerProven hmono hreader
  stuck := by
    change Stuck earlier _ [] (s.drainCount t).toInt
    by_cases hfrozen : s.frozen t = true
    · have hlast : Stuck earlier since [(Report.mk t .none).tick] (s.drainCount t).toInt :=
        hexplains.drainCount hfrozen
      exact hlast.snoc
    · rw [show s.drainCount t = 0 from if_neg hfrozen]
      exact Stuck.none _ _

theorem Explains.acts {action : Action} (hacts : action ≠ .none) :
    Explains ((s.observe t).reopened t) (history ++ [⟨t, action⟩]) (history ++ [⟨t, action⟩])
      [] where
  sinceAction := {
    split := by rw [List.append_nil]
    quiet := by
      intro report hreport
      cases hreport
    acted := by
      intro report hreport
      rw [List.getLast?_concat, Option.some.injEq] at hreport
      rw [← hreport]
      exact hacts }
  lastAccepted := by rw [acceptedBy_snoc]; rfl
  acceptedAtOpen := by rw [acceptedBy_snoc]; rfl
  reader := by
    intro hreader
    cases hreader
  stuck := Stuck.none _ _

theorem actions_snoc_none (history : List Report) (t : Tick) :
    actions (history ++ [⟨t, .none⟩]) = actions history := by
  simp [actions]

theorem actions_snoc {action : Action} (hacts : action ≠ .none) (history : List Report) (t : Tick) :
    actions (history ++ [⟨t, action⟩]) = actions history ++ [⟨t, action⟩] := by
  simp [actions, hacts]

theorem Spaced.quiet (hspaced : Spaced s history) :
    Spaced (s.observe t) (history ++ [⟨t, .none⟩]) where
  pairwise := by
    rw [actions_snoc_none]
    exact hspaced.pairwise
  last := by
    rw [actions_snoc_none]
    exact hspaced.last
  now := by
    rw [actions_snoc_none]
    intro report hreport
    obtain ⟨later, hlater, hnow⟩ := hspaced.now report hreport
    exact ⟨later, List.mem_append_left _ hlater, hnow⟩

theorem Spaced.acts {action : Action} {retryOnly : Bool} (hspaced : Spaced s history)
    (hacts : action ≠ .none)
    (hclock : ∀ report ∈ history, report.tick.nowMs.toInt ≤ t.nowMs.toInt)
    (hrate : ¬ t.nowMs - s.lastReopenMs < minInterval retryOnly s.consecRetryFailures) :
    Spaced ((s.observe t).reopened t) (history ++ [⟨t, action⟩]) := by
  have hlong : ∀ report ∈ actions history,
      report.tick.nowMs.toInt + 10000 ≤ t.nowMs.toInt := by
    intro report hreport
    obtain ⟨later, hlater, hnow⟩ := hspaced.now report hreport
    have hlast := hspaced.last report hreport
    have hback : s.lastReopenMs.toInt ≤ t.nowMs.toInt := by
      rw [hnow]
      exact hclock later hlater
    have hspan := spaced_of_not_lt hback (kBaseRetryMs_le_minInterval _ _) hrate
    omega
  refine ⟨?_, ?_, ?_⟩
  · rw [actions_snoc hacts, List.pairwise_append]
    refine ⟨hspaced.pairwise, List.pairwise_singleton _ _, ?_⟩
    intro a ha b hb
    rw [List.mem_singleton.mp hb]
    exact hlong a ha
  · rw [actions_snoc hacts]
    intro report hreport
    change report.tick.nowMs.toInt ≤ t.nowMs.toInt
    rcases List.mem_append.mp hreport with hreport | hreport
    · have := hlong report hreport
      omega
    · rw [List.mem_singleton.mp hreport]
  · intro report _
    exact ⟨⟨t, action⟩, by simp, rfl⟩

end Step

/-! ## Runs -/

/-- What holds of every watchdog that is followed from its start on. -/
structure Watchful (w : Watched) : Prop where
  explains : ∃ earlier since, Explains w.watchdog w.history earlier since
  spaced : Spaced w.watchdog w.history
  justified : ∀ before report after, w.history = before ++ report :: after →
    report.action = .reopenStalled → Justified before report.tick

theorem initial_watchful : Watchful {} where
  explains := by
    refine ⟨[], [], ⟨rfl, ?_, ?_⟩, rfl, rfl, ?_, Stuck.none _ _⟩
    · intro report hreport
      cases hreport
    · intro report hreport
      cases hreport
    · intro hreader
      cases hreader
  spaced := by
    refine ⟨List.Pairwise.nil, ?_, ?_⟩ <;>
    · intro report hreport
      cases hreport
  justified := by
    intro before report after hsplit
    simp at hsplit

/-- A reopening for a stall is justified by the history before it. -/
theorem justified_of_stalled {s : SerialWatchdog} {history earlier since : List Report} {t : Tick}
    (hexplains : Explains s history earlier since) (hmono : acceptedBy earlier ≤ t.accepted.toNat)
    (hstalled : s.stalled t = true) : Justified history t := by
  simp only [stalled, Bool.and_eq_true, decide_eq_true_eq] at hstalled
  obtain ⟨⟨⟨hfrozen, hproven⟩, hcount⟩, husb⟩ := hstalled
  have hthree : (3 : ℤ) ≤ (s.drainCount t).toInt := Int32.le_iff_toInt_le.mp hcount
  exact ⟨earlier, since, hexplains.sinceAction, hexplains.readerProven hmono hproven,
    (hexplains.drainCount hfrozen).mono hthree, husb⟩

/-- The history grows at its end only. -/
theorem split_snoc {history before after : List Report} {report last : Report}
    (hsplit : history ++ [last] = before ++ report :: after) :
    (before = history ∧ report = last) ∨ ∃ rest, history = before ++ report :: rest := by
  rcases List.eq_nil_or_concat after with rfl | ⟨rest, final, rfl⟩
  · obtain ⟨hbefore, hlast⟩ := List.append_inj' hsplit rfl
    exact .inl ⟨hbefore.symm, (List.singleton_inj.mp hlast).symm⟩
  · right
    refine ⟨rest, ?_⟩
    have hsplit' : history ++ [last] = (before ++ report :: rest) ++ [final] := by
      simpa using hsplit
    exact (List.append_inj' hsplit' rfl).1

theorem step_watchful {w : Watched} {t : Tick} (hwatchful : Watchful w)
    (hclock : ∀ report ∈ w.history, report.tick.nowMs.toInt ≤ t.nowMs.toInt)
    (haccepted : ∀ report ∈ w.history, report.tick.accepted.toNat ≤ t.accepted.toNat) :
    Watchful (watch w (.tick t)) := by
  obtain ⟨earlier, since, hexplains⟩ := hwatchful.explains
  have hmono : acceptedBy earlier ≤ t.accepted.toNat := by
    apply acceptedBy_le
    intro report hreport
    apply haccepted
    rw [hexplains.sinceAction.split]
    exact List.mem_append_left _ hreport
  obtain hquiet | ⟨action, retryOnly, htick, hacts, hcause, hrate⟩ := tick_cases w.watchdog t
  · have hwatch : watch w (.tick t) = ⟨w.watchdog.observe t, w.history ++ [⟨t, .none⟩]⟩ := by
      simp only [watch, hquiet]
    rw [hwatch]
    refine ⟨⟨earlier, _, hexplains.quiet hmono⟩, hwatchful.spaced.quiet, ?_⟩
    intro before report after hsplit hstalled
    rcases split_snoc hsplit with ⟨_, rfl⟩ | ⟨rest, hrest⟩
    · cases hstalled
    · exact hwatchful.justified before report rest hrest hstalled
  · have hwatch : watch w (.tick t) =
        ⟨(w.watchdog.observe t).reopened t, w.history ++ [⟨t, action⟩]⟩ := by
      simp only [watch, htick]
    rw [hwatch]
    refine ⟨⟨_, _, Explains.acts hacts⟩, hwatchful.spaced.acts hacts hclock hrate, ?_⟩
    intro before report after hsplit hstalled
    rcases split_snoc hsplit with ⟨rfl, rfl⟩ | ⟨rest, hrest⟩
    · exact justified_of_stalled hexplains hmono (hcause hstalled)
    · exact hwatchful.justified before report rest hrest hstalled

theorem onReopenResult_watchful {w : Watched} (hwatchful : Watchful w) (succeeded : Bool) :
    Watchful (watch w (.onReopenResult succeeded)) := by
  obtain ⟨earlier, since, hexplains⟩ := hwatchful.explains
  obtain ⟨hpairwise, hlast, hnow⟩ := hwatchful.spaced
  cases succeeded with
  | false =>
      exact ⟨⟨earlier, since, ⟨hexplains.sinceAction, hexplains.lastAccepted,
        hexplains.acceptedAtOpen, hexplains.reader, hexplains.stuck⟩⟩, ⟨hpairwise, hlast, hnow⟩,
        hwatchful.justified⟩
  | true =>
      exact ⟨⟨earlier, since, ⟨hexplains.sinceAction, hexplains.lastAccepted,
        hexplains.acceptedAtOpen, hexplains.reader, hexplains.stuck⟩⟩, ⟨hpairwise, hlast, hnow⟩,
        hwatchful.justified⟩

/-- The reports are those of the ticks. -/
theorem history_map_tick (calls : List Call) : (history calls).map Report.tick = ticks calls := by
  unfold history
  induction calls using List.reverseRecOn with
  | nil => rfl
  | append_singleton calls call ih =>
      rw [List.foldl_append, ticks, List.filterMap_append, ← ticks, ← ih]
      cases call with
      | tick t => simp [watch]
      | onReopenResult succeeded => simp [watch]

/-- The clock and the count of accepted bytes never go back. -/
def Advancing (calls : List Call) : Prop :=
  (ticks calls).Pairwise fun a b => a.nowMs ≤ b.nowMs ∧ a.accepted ≤ b.accepted

theorem run_watchful {calls : List Call} (hadvancing : Advancing calls) :
    Watchful (calls.foldl watch {}) := by
  induction calls using List.reverseRecOn with
  | nil => exact initial_watchful
  | append_singleton calls call ih =>
      unfold Advancing at hadvancing ih
      rw [ticks, List.filterMap_append, ← ticks, List.pairwise_append] at hadvancing
      obtain ⟨hbefore, _, hlast⟩ := hadvancing
      rw [List.foldl_append]
      cases call with
      | tick t =>
          have hticks : ∀ report ∈ (calls.foldl watch {}).history,
              report.tick.nowMs ≤ t.nowMs ∧ report.tick.accepted ≤ t.accepted := by
            intro report hreport
            apply hlast _ _ t (by simp)
            rw [← history_map_tick]
            exact List.mem_map_of_mem hreport
          apply step_watchful (ih hbefore)
          · intro report hreport
            exact Int64.le_iff_toInt_le.mp (hticks report hreport).1
          · intro report hreport
            exact UInt64.le_iff_toNat_le.mp (hticks report hreport).2
      | onReopenResult succeeded => exact onReopenResult_watchful (ih hbefore) succeeded

/-- However the gadget, the descriptor and the client behave, a reopening for a stall has its cause
in what happened since the last action, and actions are ten seconds apart. -/
theorem reopenStalled_justified_and_spaced {calls : List Call} (hadvancing : Advancing calls) :
    (∀ before report after, history calls = before ++ report :: after →
        report.action = .reopenStalled → Justified before report.tick) ∧
      (actions (history calls)).Pairwise fun a b =>
        a.tick.nowMs.toInt + 10000 ≤ b.tick.nowMs.toInt :=
  ⟨(run_watchful hadvancing).justified, (run_watchful hadvancing).spaced.pairwise⟩

/-- A reader that stops: the link is reopened at the third tick without progress. -/
theorem reopenStalled_justified_and_spaced_stalling :
    let calls := [Call.tick ⟨"CONFIGURED", 20, 262144, true, 1000⟩,
      .tick ⟨"CONFIGURED", 100, 262144, true, 2000⟩,
      .tick ⟨"CONFIGURED", 100, 262144, true, 3000⟩,
      .tick ⟨"CONFIGURED", 100, 262144, true, 4000⟩]
    (history calls).map Report.action = [.none, .none, .none, .reopenStalled] ∧
      Justified ((history calls).take 3) ⟨"CONFIGURED", 100, 262144, true, 4000⟩ := by
  intro calls
  have hrun : history calls = (history calls).take 3 ++
      [⟨⟨"CONFIGURED", 100, 262144, true, 4000⟩, .reopenStalled⟩] := by
    decide +kernel
  have hadvancing : Advancing calls := by
    unfold Advancing
    decide
  refine ⟨by decide +kernel, ?_⟩
  exact (reopenStalled_justified_and_spaced hadvancing).1 _ _ [] hrun rfl

end SerialWatchdog

end VisioSchema.Transport

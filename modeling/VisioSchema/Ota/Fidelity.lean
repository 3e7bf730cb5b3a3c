import VisioSchema.Ota.CommitSafety

/-!
# A relay and a conforming device

The relay is connected to a device over a link that loses, delays and repeats
what it carries, in either direction (and may reorder it as well).  Whatever was
sent once can arrive any number of times, at any later moment, or never.

The invariant does not mention the cursor.  A chunk is a piece of the image at
its own offset, so the device holds a front of the image whatever arrives; every
count ever reported is at most what it holds by now; and the watermark is such a
count.  A commit therefore finds the whole image.
-/

namespace VisioSchema.Ota

open VisioSchema.Library

/-! ## The device -/

structure Device where
  opened : Bool := false
  received : List Wire.Byte := []
  committed : Bool := false
  deriving DecidableEq, Repr

/-- A begin opens the one session; a chunk is appended exactly when it starts
where the received bytes end. -/
def Device.handle (dev : Device) (body : OtaBody) : Device :=
  match body with
  | .begin .. => if dev.opened then dev else { opened := true }
  | .chunk offset data =>
      if dev.opened && offset == dev.received.length then
        { dev with received := dev.received ++ data }
      else dev
  | .commit => { dev with committed := true }
  | .abort _ | .query => dev

/-- The status the device sends where `status` says what it does not decide
itself: the count is its own, and SUCCESS waits for a commit. -/
def Device.report (dev : Device) (status : OtaStatus) : Option OtaStatus :=
  if status.state = .success ∧ dev.committed = false then none
  else some { status with bytesReceived := UInt64.ofNat dev.received.length }

/-! ## The system -/

section System

variable {T : Type*} [Zero T]

/-- The relay, the device, and every status the device ever sent.  The messages
of the relay are in its own log. -/
structure World (T : Type*) [Zero T] where
  relay : Config T := {}
  device : Device := {}
  reports : List OtaStatus := []
  deriving DecidableEq, Repr

inductive Event (T : Type*)
  /-- The relay takes a turn; `pick` is the report its `recv` finds, if any. -/
  | turn (a : Answer T) (pick : Option ℕ)
  /-- One of the messages sent so far arrives. -/
  | deliver (k : ℕ)
  /-- The device sends a status. -/
  | report (status : OtaStatus)

def World.recv (w : World T) (pick : Option ℕ) : Recv :=
  match pick.bind (w.reports[·]?) with
  | some status => .status status
  | none => .nothing

variable [Add T] [Sub T] [LT T] [DecidableLT T] [Min T]
variable (d : Driver) (opts : Options T) (image : List Wire.Byte)

def World.next (w : World T) (event : Event T) : World T :=
  match event with
  | .turn a pick => { w with relay := step d opts image w.relay { a with recv := w.recv pick } }
  | .deliver k =>
      match w.relay.sent[k]? with
      | some msg => { w with device := w.device.handle msg.body }
      | none => w
  | .report status => { w with reports := w.reports ++ (w.device.report status).toList }

end System

/-! ## The invariant -/

section Invariant

variable {T : Type*} [Zero T]

/-- An OtaCommit has been sent. -/
def Config.CommitSent (c : Config T) : Prop := ∃ msg ∈ c.sent, msg.body = .commit

instance (c : Config T) : Decidable c.CommitSent :=
  inferInstanceAs (Decidable (∃ msg ∈ c.sent, msg.body = .commit))

structure Faithful (image : List Wire.Byte) (w : World T) : Prop where
  /-- A chunk is a piece of the image at its offset. -/
  sliced : ∀ msg ∈ w.relay.sent, ∀ offset data, msg.body = .chunk offset data →
    data <+: image.drop offset
  /-- The device holds a front of the image, and nothing before the begin. -/
  held : w.device.received <+: image
  closed : w.device.opened = false → w.device.received = []
  /-- Counts never run ahead of the device. -/
  reported : ∀ status ∈ w.reports, status.bytesReceived.toNat ≤ w.device.received.length
  acked : w.relay.st.acked ≤ w.device.received.length
  /-- SUCCESS follows a commit. -/
  honest : ∀ status ∈ w.reports, status.state = .success → w.relay.CommitSent
  handed : w.device.committed = true → w.relay.CommitSent
  succeeded : w.relay.st.succeeded = true → w.relay.CommitSent
  /-- A commit follows the last byte. -/
  pending : w.relay.pc = .commitSend → image.length ≤ w.device.received.length
  whole : w.relay.CommitSent → image.length ≤ w.device.received.length

variable {image : List Wire.Byte} {w : World T}

theorem faithful_init : Faithful image ({} : World T) where
  sliced := by simp [Config.sent]
  held := List.nil_prefix
  closed := fun _ => rfl
  reported := by simp
  acked := Nat.le_refl _
  honest := by simp
  handed := by simp
  succeeded := by simp
  pending := by simp
  whole := by simp [Config.CommitSent, Config.sent]

/-! ### The device's side -/

theorem front_append {received data : List Wire.Byte} (hheld : received <+: image)
    (hdata : data <+: image.drop received.length) : received ++ data <+: image := by
  obtain ⟨rest, rfl⟩ := hheld
  rw [List.drop_left] at hdata
  exact (List.prefix_append_right_inj received).mpr hdata

theorem Faithful.deliver (hfaithful : Faithful image w) {msg : OtaMessage}
    (hmsg : msg ∈ w.relay.sent) :
    Faithful image { w with device := w.device.handle msg.body } := by
  cases hbody : msg.body with
  | begin totalBytes chunkBytes fwVersion board =>
      simp only [Device.handle]
      cases hopened : w.device.opened with
      | true => simpa using hfaithful
      | false =>
          -- nothing was received yet, so a fresh session holds as much
          have hempty : w.device.received = [] := hfaithful.closed hopened
          have hreported := hfaithful.reported
          have hacked := hfaithful.acked
          have hpending := hfaithful.pending
          have hwhole := hfaithful.whole
          rw [hempty] at hreported hacked hpending hwhole
          exact ⟨hfaithful.sliced, List.nil_prefix, fun _ => rfl, hreported, hacked,
            hfaithful.honest, by simp, hfaithful.succeeded, hpending, hwhole⟩
  | chunk offset data =>
      simp only [Device.handle]
      split
      next happend =>
        simp only [Bool.and_eq_true, beq_iff_eq] at happend
        obtain ⟨hopened, rfl⟩ := happend
        have hfront := front_append hfaithful.held (hfaithful.sliced msg hmsg _ data hbody)
        have hlonger : w.device.received.length ≤ (w.device.received ++ data).length := by
          rw [List.length_append]
          omega
        exact ⟨hfaithful.sliced, hfront, by simp [hopened],
          fun status hstatus => le_trans (hfaithful.reported status hstatus) hlonger,
          le_trans hfaithful.acked hlonger, hfaithful.honest, hfaithful.handed,
          hfaithful.succeeded, fun hpc => le_trans (hfaithful.pending hpc) hlonger,
          fun hsent => le_trans (hfaithful.whole hsent) hlonger⟩
      · exact hfaithful
  | commit => exact { hfaithful with handed := fun _ => ⟨msg, hmsg, hbody⟩ }
  | abort reason => exact hfaithful
  | query => exact hfaithful

theorem Faithful.report (hfaithful : Faithful image w) (status : OtaStatus) :
    Faithful image { w with reports := w.reports ++ (w.device.report status).toList } := by
  unfold Device.report
  split
  · simpa using hfaithful
  next hallowed =>
    refine { hfaithful with reported := ?_, honest := ?_ }
    · intro sent hsent
      simp only [Option.toList_some, List.mem_append, List.mem_singleton] at hsent
      rcases hsent with hbefore | rfl
      · exact hfaithful.reported sent hbefore
      · exact Nat.mod_le _ _
    · intro sent hsent hsuccess
      simp only [Option.toList_some, List.mem_append, List.mem_singleton] at hsent
      rcases hsent with hbefore | rfl
      · exact hfaithful.honest sent hbefore hsuccess
      · have hstate : status.state = .success := hsuccess
        exact hfaithful.handed (by simpa [hstate] using hallowed)

/-! ### The relay's side -/

theorem chunkData_front (d : Driver) (data : List Wire.Byte) : chunkData d data <+: data := by
  cases d
  · exact List.take_prefix _ _
  all_goals exact List.prefix_refl _

/-- A call that is due keeps chunks pieces of the image. -/
theorem Faithful.sliced_call (hfaithful : Faithful image w) {d : Driver} {next : Config T}
    {made : Call} (hdue : Due d image w.relay made)
    (hcalls : next.calls = w.relay.calls ++ [made]) :
    ∀ msg ∈ next.sent, ∀ offset data, msg.body = .chunk offset data →
      data <+: image.drop offset := by
  intro msg hmsg offset data hbody
  rcases (Config.mem_sent_call hcalls).mp hmsg with hbefore | rfl
  · exact hfaithful.sliced msg hbefore offset data hbody
  · simp only [Due, hbody] at hdue
    obtain ⟨n, rfl⟩ := hdue
    exact (chunkData_front d _).trans <| List.take_prefix _ _

theorem Config.CommitSent.mono {c c' : Config T} {rest : List Call}
    (hcalls : c'.calls = c.calls ++ rest) (hsent : c.CommitSent) : c'.CommitSent := by
  obtain ⟨msg, hmsg, hbody⟩ := hsent
  refine ⟨msg, ?_, hbody⟩
  simp only [Config.sent, hcalls, List.filterMap_append, List.mem_append]
  exact Or.inl hmsg

/-- A turn that folds nothing: only what is sent can change. -/
theorem Faithful.quiet (hfaithful : Faithful image w) {opts : Options T} {next : Config T}
    {rest : List Call} (hquiet : Quiet opts w.relay next)
    (hcalls : next.calls = w.relay.calls ++ rest)
    (hsliced : ∀ msg ∈ next.sent, ∀ offset data, msg.body = .chunk offset data →
      data <+: image.drop offset)
    (hwhole : next.CommitSent → image.length ≤ w.device.received.length) :
    Faithful image { w with relay := next } where
  sliced := hsliced
  held := hfaithful.held
  closed := hfaithful.closed
  reported := hfaithful.reported
  acked := by
    rw [hquiet.acked]
    exact hfaithful.acked
  honest := fun status hstatus hsuccess =>
    (hfaithful.honest status hstatus hsuccess).mono hcalls
  handed := fun hcommitted => (hfaithful.handed hcommitted).mono hcalls
  succeeded := fun hsucceeded => by
    rw [hquiet.succeeded] at hsucceeded
    exact (hfaithful.succeeded hsucceeded).mono hcalls
  pending := fun hpc => absurd hpc hquiet.pc
  whole := hwhole

theorem Faithful.hears (hfaithful : Faithful image w) {d : Driver} {session : UInt64}
    {back : Back T} {status : OtaStatus} (hpc : w.relay.pc = .pump back)
    (hstatus : status ∈ w.reports) :
    Faithful image
      { w with
        relay := { w.relay with
          st := fold d session w.relay.st status, heard := status :: w.relay.heard } } where
  sliced := hfaithful.sliced
  held := hfaithful.held
  closed := hfaithful.closed
  reported := hfaithful.reported
  acked := by
    have hacked := hfaithful.acked
    have hreported := hfaithful.reported status hstatus
    have hfold : (fold d session w.relay.st status).acked ≤
        max w.relay.st.acked status.bytesReceived.toNat := by
      unfold fold
      split
      · omega
      · rcases foldOwn_acked d w.relay.st status with hsame | hmax <;> omega
    show (fold d session w.relay.st status).acked ≤ w.device.received.length
    omega
  honest := hfaithful.honest
  handed := hfaithful.handed
  succeeded := fun hsucceeded => by
    by_cases hsuccess : status.state = .success
    · exact hfaithful.honest status hstatus hsuccess
    · refine hfaithful.succeeded ?_
      have hsame : (fold d session w.relay.st status).succeeded = w.relay.st.succeeded := by
        unfold fold
        split
        · rfl
        · exact foldOwn_succeeded d _ status hsuccess
      exact hsame ▸ hsucceeded
  pending := fun hcommit => by
    rw [show w.relay.pc = .commitSend from hcommit] at hpc
    cases hpc
  whole := hfaithful.whole

/-- The status that `recv` finds was reported. -/
theorem World.mem_reports_of_recv {pick : Option ℕ} {status : OtaStatus}
    (hrecv : w.recv pick = .status status) : status ∈ w.reports := by
  unfold World.recv at hrecv
  split at hrecv
  next found hfound =>
    obtain ⟨k, rfl, hk⟩ := Option.bind_eq_some_iff.mp hfound
    cases hrecv
    exact List.mem_of_getElem? hk
  · cases hrecv

end Invariant

section Runs

variable {T : Type*} [Zero T] [Add T] [Sub T] [LT T] [DecidableLT T] [Min T]

theorem Faithful.turn (d : Driver) (opts : Options T) {image : List Wire.Byte} {w : World T}
    (hfaithful : Faithful image w) (a : Answer T) (pick : Option ℕ) :
    Faithful image
      { w with relay := step d opts image w.relay { a with recv := w.recv pick } } := by
  have hturn := step_turn d opts image w.relay { a with recv := w.recv pick }
  generalize step d opts image w.relay { a with recv := w.recv pick } = next at hturn ⊢
  cases hturn with
  | silent hquiet hcalls =>
      refine hfaithful.quiet hquiet (hcalls.trans (List.append_nil _).symm) ?_ ?_
      · rw [Config.sent_congr hcalls]
        exact hfaithful.sliced
      · rw [Config.CommitSent, Config.sent_congr hcalls]
        exact hfaithful.whole
  | calls made hdue hquiet hcalls =>
      refine hfaithful.quiet hquiet hcalls (hfaithful.sliced_call hdue hcalls) ?_
      rintro ⟨msg, hmsg, hbody⟩
      rcases (Config.mem_sent_call hcalls).mp hmsg with hbefore | rfl
      · exact hfaithful.whole ⟨msg, hbefore, hbody⟩
      · -- a commit is due only at its own place
        simp only [Due, hbody] at hdue
        exact hfaithful.pending hdue
  | hears back status hpc hrecv =>
      exact hfaithful.hears hpc (World.mem_reports_of_recv hrecv)
  | leaves hpc hfailure hstaged hcommit hall =>
      refine { hfaithful with pending := fun _ => ?_ }
      rcases hall with hsucceeded | hacked
      · -- SUCCESS comes after a commit, and a commit after the last byte
        exact hfaithful.whole (hfaithful.succeeded hsucceeded)
      · exact le_trans hacked hfaithful.acked

theorem next_faithful (d : Driver) (opts : Options T) (image : List Wire.Byte) (w : World T)
    (event : Event T) (hfaithful : Faithful image w) :
    Faithful image (w.next d opts image event) := by
  cases event with
  | turn a pick => exact hfaithful.turn d opts a pick
  | deliver k =>
      simp only [World.next]
      split
      next msg hmsg => exact hfaithful.deliver (List.mem_of_getElem? hmsg)
      · exact hfaithful
  | report status => exact hfaithful.report status

/-- Whenever the relay has sent a commit, the device holds exactly the image. -/
theorem run_commit_faithful (d : Driver) (opts : Options T) (image : List Wire.Byte)
    (events : List (Event T)) :
    ∀ w ∈ visited (World.next d opts image) {} events,
      w.relay.CommitSent → w.device.received = image := by
  intro w hw hsent
  obtain ⟨front, hfront, rfl⟩ := mem_visited_iff.mp hw
  have hfaithful := run_invariant (next_faithful d opts image) faithful_init front
  exact hfaithful.held.eq_of_length_le (hfaithful.whole hsent)

end Runs

/-- `n` turns of the relay in which nothing arrives. -/
def quietTurns (n : ℕ) : List (Event ℤ) := List.replicate n (.turn { clock := 0 } none)

/-- Three bytes in chunks of two; the first chunk is lost, the device asks for it,
and the chunk that had run ahead is sent again. -/
def lossyTransfer : List (Event ℤ) :=
  quietTurns 2 ++ [.deliver 0] ++ quietTurns 7 ++
    [.deliver 2, .report { state := .needsResume }, .turn { clock := 0 } (some 0)] ++
    quietTurns 9 ++
    [.deliver 3, .deliver 4, .deliver 3, .report { state := .receiving },
      .turn { clock := 0 } (some 1)] ++
    quietTurns 4

/-- The lossy transfer commits, and the device holds the three bytes. -/
theorem run_commit_faithful_lossy :
    (lossyTransfer.foldl (World.next .cpp { plainOptions with chunk := 2, window := 4 } [1, 2, 3])
      {}).device.received = [1, 2, 3] :=
  run_commit_faithful _ _ _ _ _ (mem_visited_last _ lossyTransfer) (by decide +kernel)

end VisioSchema.Ota

import VisioSchema.Ota.Relay

/-!
# Statuses of other sessions

A device that reboots in the middle of an update publishes its verdict under a session that the
sender never minted.  Two runs of a relay are compared, of which the second hears statuses of
other sessions wherever the first one drains what it has received, while it negotiates, while it
sends and while it waits for the commit.  They make the same calls and end alike (`run_foreign`).

The runs differ in the history of what was heard, which no turn reads: a turn commutes with
putting more into it (`step_hearing`).  A turn that hears a foreign status comes to the same
configuration but for that history (`step_drained`, `step_asked`), and the comparison is an
induction over the insertions (`Inserted.run`).
-/

namespace VisioSchema.Ota

variable {T : Type*} [Zero T] {d : Driver} {opts : Options T} {image : List Wire.Byte}
variable {c c' : Config T}

/-! ## What was heard is never read -/

namespace Config

/-- The same configuration with another history. -/
def hearing (c : Config T) (heard : List OtaStatus) : Config T := { c with heard := heard }

variable (heard : List OtaStatus)

@[simp] theorem hearing_pc : (c.hearing heard).pc = c.pc := rfl
@[simp] theorem hearing_st : (c.hearing heard).st = c.st := rfl
@[simp] theorem hearing_sent : (c.hearing heard).sent = c.sent := rfl
@[simp] theorem hearing_outcome : (c.hearing heard).outcome = c.outcome := rfl

end Config

/-- A choice between two ways to go on. -/
theorem ite_hearing {heard : List OtaStatus} {p : Prop} {here there : Decidable p}
    {x x' y y' : Config T} (hx : x' = x.hearing heard) (hy : y' = y.hearing heard) :
    @ite _ p here x' y' = (@ite _ p there x y).hearing heard := by
  by_cases h : p
  · rw [if_pos h, if_pos h, hx]
  · rw [if_neg h, if_neg h, hy]

theorem linkRaised_hearing (heard : List OtaStatus) :
    linkRaised image (c.hearing heard) = (linkRaised image c).hearing heard :=
  ite_hearing rfl rfl

theorem undecodable_hearing (heard : List OtaStatus) :
    undecodable d image (c.hearing heard) = (undecodable d image c).hearing heard := by
  cases d with
  | cpp => rfl
  | python => rfl
  | ts => exact linkRaised_hearing heard

theorem afterLoop_hearing (heard : List OtaStatus) :
    afterLoop d opts image (c.hearing heard) = (afterLoop d opts image c).hearing heard :=
  ite_hearing rfl (ite_hearing rfl (ite_hearing rfl rfl))

theorem verdict_hearing (heard : List OtaStatus) :
    verdict image (c.hearing heard) = (verdict image c).hearing heard :=
  ite_hearing rfl (ite_hearing rfl (ite_hearing rfl rfl))

theorem rewind_hearing (heard : List OtaStatus) (target : ℕ) :
    rewind d opts image (c.hearing heard) target =
      (rewind d opts image c target).hearing heard :=
  ite_hearing rfl rfl

theorem afterQuiesce_hearing (heard : List OtaStatus) :
    afterQuiesce opts (c.hearing heard) = (afterQuiesce opts c).hearing heard := by
  unfold afterQuiesce
  split <;> rfl

theorem quiesceOn_hearing (heard : List OtaStatus) (a : Answer T) :
    quiesceOn d opts image (c.hearing heard) a = (quiesceOn d opts image c a).hearing heard := by
  unfold quiesceOn
  split
  · exact afterQuiesce_hearing heard
  split
  · exact @linkRaised_hearing T _ image (call c (.quiesce true)) heard
  · exact @afterQuiesce_hearing T _ opts { call c (.quiesce true) with quieted := a.quiesce } heard

theorem pump_hearing (heard : List OtaStatus) (back : Back T) (a : Answer T) :
    ∃ heard', pump d opts image (c.hearing heard) back a =
      (pump d opts image c back a).hearing heard' := by
  unfold pump
  split
  · exact ⟨heard, linkRaised_hearing heard⟩
  cases a.recv with
  | nothing => exact ⟨heard, rfl⟩
  | undecodable => exact ⟨heard, undecodable_hearing heard⟩
  | status status => exact ⟨status :: heard, rfl⟩

theorem chunkSend_hearing (heard : List OtaStatus) (n : ℕ) (a : Answer T) :
    chunkSend d opts image (c.hearing heard) n a =
      (chunkSend d opts image c n a).hearing heard := by
  refine ite_hearing (ite_hearing (linkRaised_hearing heard) rfl) ?_
  dsimp only
  cases a.sendResult d with
  | ok => rfl
  | gone => rfl
  | raised =>
      exact @linkRaised_hearing T _ image
        (call c (.sent (chunkMessage d opts c.cursor (slice image c.cursor n)))) heard

theorem queryRecv_hearing (heard : List OtaStatus) (deadline : T) (smallest : ℕ) (a : Answer T) :
    queryRecv d opts image (c.hearing heard) deadline smallest a =
      (queryRecv d opts image c deadline smallest a).hearing heard := by
  refine ite_hearing (linkRaised_hearing heard) ?_
  cases a.recv with
  | nothing => exact ite_hearing rfl rfl
  | undecodable =>
      exact @undecodable_hearing T _ d image { c with pc := .queryHead deadline smallest } heard
  | status status => rfl

section Clock

variable [LT T] [DecidableLT T]

theorem commitHead_hearing (heard : List OtaStatus) (deadline : T) (a : Answer T) :
    commitHead image (c.hearing heard) deadline a =
      (commitHead image c deadline a).hearing heard :=
  ite_hearing (verdict_hearing heard) (ite_hearing rfl (verdict_hearing heard))

section Loop

variable [Sub T]

theorem head_hearing (heard : List OtaStatus) (a : Answer T) :
    head d opts image (c.hearing heard) a = (head d opts image c a).hearing heard := by
  refine ite_hearing (afterLoop_hearing heard) (ite_hearing rfl ?_)
  rw [Config.hearing_st]
  cases c.st.resumeTo with
  | some target => exact rewind_hearing heard target
  | none => exact ite_hearing rfl (ite_hearing (afterLoop_hearing heard) rfl)

theorem tail_hearing (heard : List OtaStatus) (a : Answer T) :
    tail d opts image (c.hearing heard) a = (tail d opts image c a).hearing heard :=
  ite_hearing rfl (ite_hearing rfl (ite_hearing rfl rfl))

end Loop

end Clock

section Turns

variable [Add T] [Sub T] [LT T] [DecidableLT T] [Min T]

/-- A turn does the same whatever was heard before it. -/
theorem step_hearing (heard : List OtaStatus) (a : Answer T) :
    ∃ heard', step d opts image (c.hearing heard) a = (step d opts image c a).hearing heard' := by
  unfold step
  rw [Config.hearing_pc]
  cases c.pc with
  | quiesceOn => exact ⟨heard, quiesceOn_hearing heard a⟩
  | querySend =>
      refine ⟨heard, ?_⟩
      show querySend d opts image (c.hearing heard) a = _
      unfold querySend
      dsimp only
      cases a.sendResult d with
      | ok => rfl
      | gone => rfl
      | raised => exact @linkRaised_hearing T _ image (call c (.sent (queryMessage d opts))) heard
  | queryHead deadline smallest =>
      exact ⟨heard, ite_hearing rfl rfl⟩
  | queryRecv deadline smallest => exact ⟨heard, queryRecv_hearing heard deadline smallest a⟩
  | beginSend =>
      refine ⟨heard, ?_⟩
      show beginSend d opts image (c.hearing heard) a = _
      unfold beginSend
      dsimp only
      cases a.sendResult d with
      | ok => rfl
      | gone => rfl
      | raised =>
          exact @linkRaised_hearing T _ image
            (call c (.sent (beginMessage d opts image.length c.chunk))) heard
  | pump back => exact pump_hearing heard back a
  | head => exact ⟨heard, head_hearing heard a⟩
  | chunkSend n => exact ⟨heard, chunkSend_hearing heard n a⟩
  | tail => exact ⟨heard, tail_hearing heard a⟩
  | commitSend =>
      refine ⟨heard, ?_⟩
      show commitSend d opts image (c.hearing heard) a = _
      unfold commitSend
      dsimp only
      cases a.sendResult d with
      | ok => rfl
      | gone => rfl
      | raised => exact @linkRaised_hearing T _ image (call c (.sent (commitMessage d opts))) heard
  | commitHead deadline => exact ⟨heard, commitHead_hearing heard deadline a⟩
  | restore outcome => exact ⟨heard, rfl⟩
  | done outcome => exact ⟨heard, rfl⟩

/-! ## Statuses put in -/

/-- An answer in which `recv` hands over a status of another session. -/
def Answer.Foreign (d : Driver) (opts : Options T) (a : Answer T) : Prop :=
  a.throws d = false ∧ ∃ status, a.recv = .status status ∧ foreign opts.sessionId status = true

/-- The second script is the first one with statuses of other sessions put in where the driver
drains: in a drain of the relay, and in a turn of the negotiation's loop, which reads the same
clock once more. -/
inductive Inserted (d : Driver) (opts : Options T) (image : List Wire.Byte) :
    Config T → List (Answer T) → List (Answer T) → Prop
  | done (c : Config T) : Inserted d opts image c [] []
  | same {c : Config T} {as as' : List (Answer T)} (a : Answer T)
      (hrest : Inserted d opts image (step d opts image c a) as as') :
      Inserted d opts image c (a :: as) (a :: as')
  | drained {c : Config T} {as as' : List (Answer T)} (back : Back T) (hpc : c.pc = .pump back)
      (a : Answer T) (ha : a.Foreign d opts) (hrest : Inserted d opts image c as as') :
      Inserted d opts image c as (a :: as')
  | asked {c : Config T} {next : Answer T} {as as' : List (Answer T)} (deadline : T) (smallest : ℕ)
      (hpc : c.pc = .queryHead deadline smallest) (hwaits : waiting d deadline next = true)
      (a : Answer T) (ha : a.Foreign d opts)
      (hrest : Inserted d opts image c (next :: as) as') :
      Inserted d opts image c (next :: as) ({ clock := next.clock } :: a :: as')

theorem Inserted.refl (c : Config T) (as : List (Answer T)) : Inserted d opts image c as as := by
  induction as generalizing c with
  | nil => exact .done c
  | cons a rest ih => exact .same a (ih _)

/-- A drain goes on as if a foreign status had not been there. -/
theorem step_drained {back : Back T} (hpc : c.pc = .pump back) {a : Answer T}
    (ha : a.Foreign d opts) :
    ∃ heard, step d opts image c a = c.hearing heard := by
  obtain ⟨hthrows, status, hrecv, hforeign⟩ := ha
  refine ⟨status :: c.heard, ?_⟩
  have hpump : step d opts image c a =
      { c with st := fold d opts.sessionId c.st status, heard := status :: c.heard } := by
    simp only [step, hpc, pump, hthrows, hrecv]
    rfl
  rw [hpump, fold_of_foreign hforeign]
  rfl

/-- So does the negotiation. -/
theorem step_asked {deadline : T} {smallest : ℕ} (hpc : c.pc = .queryHead deadline smallest)
    {first a : Answer T} (hwaits : waiting d deadline first = true) (ha : a.Foreign d opts) :
    step d opts image (step d opts image c first) a = c := by
  obtain ⟨hthrows, status, hrecv, hforeign⟩ := ha
  have hfirst : step d opts image c first = { c with pc := .queryRecv deadline smallest } := by
    simp only [step, hpc, queryHead, hwaits]
    rfl
  rw [hfirst]
  simp only [step, queryRecv, hthrows, hrecv, hforeign]
  show ({ c with pc := .queryHead deadline smallest } : Config T) = c
  rw [← hpc]

/-- From configurations that differ in their history alone, the two scripts lead to such. -/
theorem Inserted.run {as as' : List (Answer T)} (hinserted : Inserted d opts image c as as')
    (heard : List OtaStatus) :
    ∃ heard', as'.foldl (step d opts image) (c.hearing heard) =
      (as.foldl (step d opts image) c).hearing heard' := by
  induction hinserted generalizing heard with
  | done c => exact ⟨heard, rfl⟩
  | same a _ ih =>
      obtain ⟨heard', hstep⟩ := step_hearing heard a
      rw [List.foldl_cons, List.foldl_cons, hstep]
      exact ih heard'
  | @drained c as as' back hpc a ha _ ih =>
      have hdraining : (c.hearing heard).pc = .pump back := hpc
      obtain ⟨heard', hstep⟩ :
          ∃ heard', step d opts image (c.hearing heard) a = (c.hearing heard).hearing heard' :=
        step_drained hdraining ha
      rw [List.foldl_cons, hstep]
      exact ih heard'
  | @asked c next as as' deadline smallest hpc hwaits a ha _ ih =>
      have hsame : waiting d deadline ({ clock := next.clock } : Answer T) = true := hwaits
      have hasking : (c.hearing heard).pc = .queryHead deadline smallest := hpc
      have htwo : step d opts image
          (step d opts image (c.hearing heard) { clock := next.clock }) a = c.hearing heard :=
        step_asked hasking hsame ha
      rw [List.foldl_cons, List.foldl_cons, htwo]
      exact ih heard

/-- Statuses of other sessions change neither the messages sent nor the outcome. -/
theorem run_foreign (d : Driver) (opts : Options T) (image : List Wire.Byte)
    {as as' : List (Answer T)} (hinserted : Inserted d opts image {} as as') :
    (relay d opts image as').sent = (relay d opts image as).sent ∧
      (relay d opts image as').outcome = (relay d opts image as).outcome := by
  obtain ⟨heard', hrun⟩ := hinserted.run []
  have hsame : relay d opts image as' = (relay d opts image as).hearing heard' := hrun
  rw [hsame]
  exact ⟨rfl, rfl⟩

end Turns

/-! ## A verdict of another session -/

/-- The verdict on a rig, which a head publishes under a session of its own. -/
def rigVerdict : Answer ℤ :=
  { clock := 0
    recv := .status
      { sessionId := 0xB1D, state := .failed, bytesReceived := 9, maxChunkBytes := 16 } }

/-- The query is sent, and its answer is waited for. -/
def asking : List (Answer ℤ) := List.replicate 2 { clock := 0 }

/-- The query is answered by nothing until the time is up, and the begin is sent. -/
def beginning : List (Answer ℤ) :=
  [{ clock := 0 }, { clock := 0 }, { clock := 2000 }, { clock := 2000 }]

/-- The chunk is sent and acknowledged, the commit is sent, and the device reports SUCCESS. -/
def pushing : List (Answer ℤ) :=
  List.replicate 3 { clock := 2000 } ++
    [{ clock := 2000, recv := .status { state := .receiving, bytesReceived := 1 } }] ++
    List.replicate 5 { clock := 2000 } ++
    [{ clock := 2000, recv := .status { state := .success } }] ++
    List.replicate 2 { clock := 2000 }

/-- It may arrive while the relay negotiates and again in the drain after the begin. -/
theorem run_foreign_verdict :
    (relay .cpp defaultOptions [7]
        (asking ++ { clock := 0 } :: rigVerdict :: (beginning ++ rigVerdict :: pushing))).sent =
      (relay .cpp defaultOptions [7] (asking ++ (beginning ++ pushing))).sent ∧
    (relay .cpp defaultOptions [7]
        (asking ++ { clock := 0 } :: rigVerdict :: (beginning ++ rigVerdict :: pushing))).outcome =
      (relay .cpp defaultOptions [7] (asking ++ (beginning ++ pushing))).outcome := by
  refine run_foreign .cpp defaultOptions [7] ?_
  have hforeign : rigVerdict.Foreign .cpp defaultOptions := ⟨rfl, _, rfl, rfl⟩
  refine .same _ (.same _ (.asked 1500 0 rfl rfl _ hforeign ?_))
  refine .same _ (.same _ (.same _ (.same _ (.drained .start rfl _ hforeign ?_))))
  exact .refl _ pushing

/-- That run ends in SUCCESS. -/
example : (relay .cpp defaultOptions [7] (asking ++ (beginning ++ pushing))).outcome =
    some ⟨true, .okSuccess, 1, 1, 0⟩ := by decide +kernel

end VisioSchema.Ota

import VisioSchema.Recordings.Pull

/-!
# What a pull joins

A pull sends what it pinned of the last open with every further one, so that a device
grants it only files that agree with that open in every pinned field that was not zero.
-/

namespace VisioSchema.Recordings

open VisioSchema.Wire

/-! ## Receiving -/

/-- All that `Receive` hands to the sink comes from its open. -/
theorem receive_opened (opened : RecordingFileOpen) (received : ℕ) (reads : List SocketRead) :
    ∀ delivery ∈ (receive opened received reads).1, delivery.opened = opened := by
  induction reads generalizing received with
  | nil => simp [receive]
  | cons read reads ih =>
      intro delivery hmem
      by_cases hfull : opened.length ≤ received
      · simp [receive, if_pos hfull] at hmem
      · cases read with
        | interrupted =>
            rw [receive, if_neg hfull] at hmem
            exact ih received delivery hmem
        | failed errno => simp [receive, if_neg hfull] at hmem
        | data bytes sinkTakes =>
            simp only [receive, if_neg hfull] at hmem
            split at hmem
            next => simp at hmem
            next =>
              split at hmem
              next => rw [List.mem_singleton.mp hmem]
              next =>
                rcases List.mem_cons.mp hmem with rfl | hlater
                · rfl
                · exact ih _ delivery hlater

/-! ## One open -/

variable {client : Client} {request : PullRequest}

/-- What an open that delivers or goes on has shown. -/
structure Granted (client : Client) (before after : Progress) (file : Identity)
    (ending : Option Ending) : Prop where
  unchanged : changed before.expect file = false
  delivers : ∃ deliveries, after.sunk = before.sunk ++ deliveries ∧
    ∀ delivery ∈ deliveries, delivery.opened.file = file
  pins : after.expect = client.carries file
  nonempty : ending = none → file.size ≠ 0

/-- A device grants only a file that the request does not tell from the expected one. -/
theorem granted_of_fileOpen {device : Device} {cmd : OpenRecordingFile}
    {opened : RecordingFileOpen} (hopen : device.openRecordingFile cmd = .fileOpen opened) :
    opened.file = device.file ∧ changed cmd.expect device.file = false := by
  unfold Device.openRecordingFile at hopen
  split at hopen
  · cases hopen
  · split at hopen
    · cases hopen
    · split at hopen
      · cases hopen
      next hsame =>
        split at hopen
        · cases hopen
        · cases hopen
          exact ⟨rfl, by simpa using hsame⟩

theorem afterOpen_granted {progress : Progress} {opened : RecordingFileOpen}
    (hunchanged : changed progress.expect opened.file = false)
    (hrange : Client.describesRange opened progress.offset = true) (reads : List SocketRead) :
    Granted client progress (client.afterOpen request progress opened reads).1 opened.file
      (client.afterOpen request progress opened reads).2 := by
  have hfrom := receive_opened opened 0 reads
  have hsize : opened.length ≠ 0 → opened.file.size ≠ 0 := by
    simp only [Client.describesRange, Bool.and_eq_true, beq_iff_eq] at hrange
    omega
  unfold Client.afterOpen
  by_cases hempty : opened.length = 0
  · rw [if_pos hempty]
    exact ⟨hunchanged, ⟨[], (List.append_nil _).symm, by simp⟩, rfl, fun hgoes => by cases hgoes⟩
  · rw [if_neg hempty]
    have hdelivers : ∀ delivery ∈ (receive opened 0 reads).1, delivery.opened.file = opened.file :=
      fun delivery hmem => by rw [hfrom delivery hmem]
    simp only
    split_ifs <;>
      exact ⟨hunchanged, ⟨_, rfl, hdelivers⟩, rfl, fun _ => hsize hempty⟩

/-- One pass of the loop: either nothing reaches the sink and the pull ends, or the
device has granted the file of this turn. -/
theorem attempt_cases (client : Client) (request : PullRequest) (progress : Progress)
    (turn : Turn) :
    ((client.attempt request progress turn).1 = progress ∧
        (client.attempt request progress turn).2 ≠ none) ∨
      Granted client progress (client.attempt request progress turn).1 turn.device.file
        (client.attempt request progress turn).2 := by
  unfold Client.attempt
  simp only
  split
  · exact Or.inl ⟨rfl, by simp⟩
  · split
    · exact Or.inl ⟨rfl, by simp⟩
    · exact Or.inl ⟨rfl, by simp⟩
    · exact Or.inl ⟨rfl, by simp⟩
    next opened hopen =>
      split
      · exact Or.inl ⟨rfl, by simp⟩
      next hrange =>
        obtain ⟨hfile, hunchanged⟩ := granted_of_fileOpen hopen
        rw [← hfile] at hunchanged ⊢
        exact Or.inr (afterOpen_granted hunchanged (by simpa using hrange) turn.reads)

/-! ## Whole pulls -/

/-- Between two opens: the deliveries agree pairwise, and each of them with the pinned
file. -/
structure Joined (client : Client) (agrees : Identity → Identity → Prop)
    (progress : Progress) : Prop where
  pairwise : progress.sunk.Pairwise fun a b => agrees a.opened.file b.opened.file
  pinned : progress.sunk ≠ [] → ∃ file : Identity, file.size ≠ 0 ∧
    progress.expect = client.carries file ∧
      ∀ delivery ∈ progress.sunk, agrees delivery.opened.file file

variable {agrees : Identity → Identity → Prop}

/-- A granted file agrees with all that was delivered before. -/
theorem granted_joins (hrefl : ∀ file, agrees file file)
    (htrans : ∀ {a b c}, agrees a b → agrees b c → agrees a c)
    (hpins : ∀ {a b : Identity}, a.size ≠ 0 → changed (client.carries a) b = false → agrees a b)
    {before after : Progress} {file : Identity} {ending : Option Ending}
    (hjoined : Joined client agrees before)
    (hgranted : Granted client before after file ending) :
    after.sunk.Pairwise (fun a b => agrees a.opened.file b.opened.file) ∧
      ∀ delivery ∈ after.sunk, agrees delivery.opened.file file := by
  obtain ⟨deliveries, hsunk, hfrom⟩ := hgranted.delivers
  have hold : ∀ delivery ∈ before.sunk, agrees delivery.opened.file file := by
    intro delivery hmem
    obtain ⟨pin, hsize, hexpect, hagree⟩ := hjoined.pinned (List.ne_nil_of_mem hmem)
    have hunchanged := hgranted.unchanged
    rw [hexpect] at hunchanged
    exact htrans (hagree delivery hmem) (hpins hsize hunchanged)
  have hnew : ∀ delivery ∈ deliveries, agrees delivery.opened.file file := by
    intro delivery hmem
    rw [hfrom delivery hmem]
    exact hrefl file
  rw [hsunk]
  refine ⟨List.pairwise_append.mpr ⟨hjoined.pairwise, ?_, ?_⟩, ?_⟩
  · refine List.pairwise_of_forall_mem_list fun a ha b hb => ?_
    rw [hfrom a ha, hfrom b hb]
    exact hrefl file
  · intro a ha b hb
    rw [hfrom b hb]
    exact hold a ha
  · intro delivery hmem
    rcases List.mem_append.mp hmem with hmem | hmem
    · exact hold delivery hmem
    · exact hnew delivery hmem

/-- In any pull, a delivery agrees with every later one. -/
theorem pullFile_pairwise (hrefl : ∀ file, agrees file file)
    (htrans : ∀ {a b c}, agrees a b → agrees b c → agrees a c)
    (hpins : ∀ {a b : Identity}, a.size ≠ 0 → changed (client.carries a) b = false → agrees a b)
    (turns : List Turn) :
    (client.pullFile request turns).1.sunk.Pairwise
      fun a b => agrees a.opened.file b.opened.file := by
  suffices hrun : ∀ progress, Joined client agrees progress →
      (client.pullFrom request progress turns).1.sunk.Pairwise
        fun a b => agrees a.opened.file b.opened.file from
    hrun _ ⟨List.Pairwise.nil, fun hsome => absurd rfl hsome⟩
  intro progress hjoined
  induction turns generalizing progress with
  | nil => exact hjoined.pairwise
  | cons turn turns ih =>
      have hcases := attempt_cases client request progress turn
      rw [Client.pullFrom]
      generalize client.attempt request progress turn = result at hcases ⊢
      obtain ⟨after, ending⟩ := result
      rcases hcases with ⟨hsame, hends⟩ | hgranted
      · cases ending with
        | none => exact absurd rfl hends
        | some ending =>
            rw [show after = progress from hsame]
            exact hjoined.pairwise
      · obtain ⟨hpairwise, hagree⟩ := granted_joins hrefl htrans hpins hjoined hgranted
        cases ending with
        | some ending => exact hpairwise
        | none =>
            exact ih after ⟨hpairwise, fun _ =>
              ⟨turn.device.file, hgranted.nonempty rfl, hgranted.pins, hagree⟩⟩

/-- The first file is the second, as far as size and time tell. -/
def SameFile (first second : Identity) : Prop :=
  first.size = second.size ∧ first.mtimeNs = second.mtimeNs

/-- The versions of the first file, where it has any, are those of the second. -/
def SameVersion (first second : Identity) : Prop :=
  (first.objectVersion = 0 ∨ first.objectVersion = second.objectVersion) ∧
    (first.catalogueGeneration = 0 ∨
      first.catalogueGeneration = second.catalogueGeneration)

/-- Both. -/
def SameManaged (first second : Identity) : Prop :=
  SameFile first second ∧ SameVersion first second

theorem sameFile_of_unchanged {first second : Identity} (hsize : first.size ≠ 0)
    (hunchanged : changed first second = false) : SameFile first second := by
  simp only [changed, Bool.or_eq_false_iff, Bool.and_eq_false_iff] at hunchanged
  rcases hunchanged.1.1 with hzero | hsame
  · simp [hsize] at hzero
  · simpa [SameFile] using hsame

theorem sameVersion_of_unchanged {first second : Identity}
    (hunchanged : changed first second = false) : SameVersion first second := by
  simp only [changed, Bool.or_eq_false_iff, Bool.and_eq_false_iff] at hunchanged
  simpa [SameVersion] using And.intro hunchanged.1.2 hunchanged.2

theorem SameVersion.trans {a b c : Identity} (hab : SameVersion a b) (hbc : SameVersion b c) :
    SameVersion a c := by
  unfold SameVersion at *
  omega

/-- The three clients join opens of one size and modification time only, and the Python
client also of one object version and catalogue generation, where the earlier open had
them. -/
theorem pullFile_joins (request : PullRequest) (turns : List Turn) :
    ((Cpp.pullFile request turns).1.sunk.Pairwise fun a b =>
        SameFile a.opened.file b.opened.file) ∧
      ((Typescript.pullFile request turns).1.sunk.Pairwise fun a b =>
        SameFile a.opened.file b.opened.file) ∧
        ((Python.pullFile request turns).1.sunk.Pairwise fun a b =>
          SameManaged a.opened.file b.opened.file) := by
  have hrefl (file : Identity) : SameFile file file := ⟨rfl, rfl⟩
  have htrans {a b c : Identity} (hab : SameFile a b) (hbc : SameFile b c) : SameFile a c :=
    ⟨hab.1.trans hbc.1, hab.2.trans hbc.2⟩
  have hpins {a b : Identity} (hsize : a.size ≠ 0)
      (hunchanged : changed { size := a.size, mtimeNs := a.mtimeNs } b = false) : SameFile a b :=
    @sameFile_of_unchanged { size := a.size, mtimeNs := a.mtimeNs } b hsize hunchanged
  have hpython : (Python.pullFile request turns).1.sunk.Pairwise fun a b =>
      SameManaged a.opened.file b.opened.file := by
    refine pullFile_pairwise ?_ ?_ ?_ turns
    · exact fun file => ⟨hrefl file, Or.inr rfl, Or.inr rfl⟩
    · exact fun hab hbc => ⟨htrans hab.1 hbc.1, hab.2.trans hbc.2⟩
    · exact fun hsize hunchanged =>
        ⟨sameFile_of_unchanged hsize hunchanged, sameVersion_of_unchanged hunchanged⟩
  exact ⟨pullFile_pairwise hrefl htrans hpins turns, pullFile_pairwise hrefl htrans hpins turns,
    hpython⟩

/-- No pull joins opens of two identities. -/
def NeverSplices (pull : PullRequest → List Turn → Progress × Ending) : Prop :=
  ∀ request turns, (pull request turns).1.sunk.Pairwise fun a b => a.opened.file = b.opened.file

/-- Two opens of a file of three bytes, at two object versions. -/
def versionsOf (first second : ℕ) : List Turn :=
  [{ device := { file := { size := 3, mtimeNs := 7, objectVersion := first } }
     reads := [.data [1] true] },
    { device := { file := { size := 3, mtimeNs := 7, objectVersion := second } }
      reads := [.data [2, 3] true] }]

/-- Two clients send no version, and the third one's zero is not checked: it joins what
was served before and after the device gave the file a version. -/
theorem not_neverSplices :
    ¬NeverSplices Cpp.pullFile ∧ ¬NeverSplices Typescript.pullFile ∧
      ¬NeverSplices Python.pullFile := by
  refine ⟨fun hall => ?_, fun hall => ?_, fun hall => ?_⟩
  · exact absurd (hall { sessionName := [115], fileName := [102] } (versionsOf 4 5))
      (by decide +kernel)
  · exact absurd (hall { sessionName := [115], fileName := [102] } (versionsOf 4 5))
      (by decide +kernel)
  · exact absurd (hall { sessionName := [115], fileName := [102] } (versionsOf 0 5))
      (by decide +kernel)

end VisioSchema.Recordings

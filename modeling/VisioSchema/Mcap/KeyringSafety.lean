import VisioSchema.Mcap.KeyringFiles

/-!
# The keyring loses no key

What holds in every state of a run (`World.Ok`) is kept by every step: only the lock's holder
writes, and an inode that a reader has opened is written no more.  With it every step keeps what
is in the ring (`Step.kept`), and so does a run (`Run.kept`).

## Strategy

A process stands in a phase of its call, and `World.Ok` says of each phase what it has in hand:
the content that a reader has read is one that the ring has held, and the file that a holder of
the lock writes is not the ring's yet.  Steps outside the lock only move one process on
(`World.Ok.go`, `World.Ok.unlock`), as long as the next phase has what it needs
(`World.Admits`).  The steps under the lock replace the ring, and a power loss takes back what
was not synced; the inode of the ring is `Settled` before it takes the name, so that the loss
leaves the ring what it was.
-/

namespace VisioSchema.Mcap.Keyring

open VisioSchema.Library VisioSchema.Wire VisioSchema.Crypto

section Safety

variable {F : Type*} {floats : Floats F} {fingerprint : Key → List Byte} {inUse : Key → Prop}
  {P : Type*}

/-! ## What holds in a run -/

/-- An inode that is written no more, and was the ring's. -/
structure World.Settled (w : World P) (i : ℕ) : Prop where
  lt : i < w.files.next
  tmp_ne : w.files.tmp ≠ some i
  synced : (w.files.inodes i).synced = true
  version : (w.files.inodes i).content ∈ w.versions

/-- An answer of `find_key` stood in the ring, under the fingerprint that was asked for. -/
def Stored (floats : Floats F) (content : List Byte) (keyFp : Text) (key : Key) : Prop :=
  ∃ entries text, loadRing floats content = some entries ∧
    entries.get keyFp = some (.string text) ∧ parseHexKey text = some key

/-- What holds in every state of a run. -/
structure World.Ok (floats : Floats F) (fingerprint : Key → List Byte) (inUse : Key → Prop)
    (w : World P) : Prop where
  files : w.files.Ok
  holder : ∀ p call, w.phase p = .inside call →
    w.lock = some p ∧ call.Ok floats fingerprint w.files
  keys : ∀ p, ∀ key ∈ (w.phase p).keys, inUse key
  reader : ∀ p keyFp i, w.phase p = .reads keyFp i → w.Settled i
  current : ∀ i, w.files.ring = some i → (w.files.inodes i).content ∈ w.versions
  returned : ∀ key ∈ w.returned, inUse key ∧ w.files.Has floats fingerprint key
  answers : ∀ keyFp key, (keyFp, some key) ∈ w.answers →
    ∃ content ∈ w.versions, Stored floats content keyFp key

variable {w w' : World P}

/-- The ring's inode is settled. -/
theorem World.Ok.settled (hw : w.Ok floats fingerprint inUse) {i : ℕ}
    (hring : w.files.ring = some i) : w.Settled i where
  lt := hw.files.ring_lt i hring
  tmp_ne := hw.files.tmp_ne i hring
  synced := hw.files.ring_synced i hring
  version := hw.current i hring

theorem World.Settled.mono {i : ℕ} (hsettled : w.Settled i) (hleaves : w.files.Leaves w'.files)
    (hversions : ∀ content ∈ w.versions, content ∈ w'.versions) : w'.Settled i := by
  obtain ⟨hlt, hne, hsame⟩ := hleaves i hsettled.lt hsettled.tmp_ne
  refine ⟨hlt, hne, ?_, ?_⟩
  · rw [hsame]
    exact hsettled.synced
  · rw [hsame]
    exact hversions _ hsettled.version

theorem Files.Leaves.refl (files : Files) : files.Leaves files := fun _ hi hne => ⟨hi, hne, rfl⟩

/-- What a process needs to go on to a phase outside the lock. -/
def World.Admits (w : World P) (inUse : Key → Prop) : Phase → Prop
  | .waiting key => inUse key
  | .inside _ => False
  | .reads _ i => w.Settled i
  | _ => True

theorem World.Admits.keys {phase : Phase} (hphase : w.Admits inUse phase) :
    ∀ key ∈ phase.keys, inUse key := by
  intro key hkey
  cases phase with
  | waiting other =>
      rw [List.mem_singleton.mp hkey]
      exact hphase
  | inside call => exact hphase.elim
  | _ => exact absurd hkey List.not_mem_nil

/-- An answer more, of a key that stands in what the ring has held. -/
theorem World.Ok.answer (hw : w.Ok floats fingerprint inUse) {keyFp : Text} {found : Option Key}
    (hfound : ∀ key, found = some key → ∃ content ∈ w.versions, Stored floats content keyFp key) :
    ({ w with answers := (keyFp, found) :: w.answers } : World P).Ok floats fingerprint inUse where
  files := hw.files
  holder := hw.holder
  keys := hw.keys
  reader q fp i hq := (hw.reader q fp i hq).mono (.refl _) fun _ h => h
  current := hw.current
  returned := hw.returned
  answers fp key hmem := by
    rcases List.mem_cons.mp hmem with heq | hmem
    · obtain ⟨rfl, rfl⟩ := Prod.mk.inj heq
      exact hfound key rfl
    · exact hw.answers fp key hmem

variable [DecidableEq P]

theorem World.phase_go (w : World P) (p q : P) (phase : Phase) :
    q = p ∧ (w.go p phase).phase q = phase ∨
      q ≠ p ∧ (w.go p phase).phase q = w.phase q := by
  by_cases hqp : q = p
  · rw [hqp]
    exact Or.inl ⟨rfl, Function.update_self ..⟩
  · exact Or.inr ⟨hqp, Function.update_of_ne hqp ..⟩

/-- A process goes on outside the lock. -/
theorem World.Ok.go (hw : w.Ok floats fingerprint inUse) (p : P) {phase : Phase}
    (hphase : w.Admits inUse phase) : (w.go p phase).Ok floats fingerprint inUse where
  files := hw.files
  holder q call hq := by
    rcases w.phase_go p q phase with ⟨-, hgo⟩ | ⟨-, hgo⟩
    · obtain rfl := hgo.symm.trans hq
      exact hphase.elim
    · exact hw.holder q call (hgo.symm.trans hq)
  keys q key hkey := by
    rcases w.phase_go p q phase with ⟨-, hgo⟩ | ⟨-, hgo⟩
    · exact hphase.keys key (by rwa [hgo] at hkey)
    · exact hw.keys q key (by rwa [hgo] at hkey)
  reader q keyFp i hq := by
    rcases w.phase_go p q phase with ⟨-, hgo⟩ | ⟨-, hgo⟩
    · obtain rfl := hgo.symm.trans hq
      exact World.Settled.mono hphase (.refl _) fun _ h => h
    · exact (hw.reader q keyFp i (hgo.symm.trans hq)).mono (.refl _) fun _ h => h
  current := hw.current
  returned := hw.returned
  answers := hw.answers

theorem World.Ok.idle (hw : w.Ok floats fingerprint inUse) (p : P) :
    (w.go p .idle).Ok floats fingerprint inUse :=
  hw.go p (show w.Admits inUse .idle from trivial)

/-- A process goes on outside the lock, and gives it up if it had it. -/
theorem World.Ok.unlock (hw : w.Ok floats fingerprint inUse) (p : P) {phase : Phase}
    (hphase : w.Admits inUse phase) :
    ({ w.go p phase with lock := w.unlocked p } : World P).Ok floats fingerprint inUse := by
  have hgone := hw.go p hphase
  refine ⟨hgone.files, fun q call hq => ?_, hgone.keys, ?_, hgone.current, hgone.returned,
    hgone.answers⟩
  · rcases w.phase_go p q phase with ⟨-, hgo⟩ | ⟨hne, hgo⟩
    · obtain rfl := hgo.symm.trans hq
      exact hphase.elim
    · obtain ⟨hlock, hcall⟩ := hw.holder q call (hgo.symm.trans hq)
      refine ⟨?_, hcall⟩
      -- the lock is another's
      rw [World.unlocked, if_neg, hlock]
      rw [hlock]
      exact fun heq => hne (Option.some.inj heq)
  · intro q keyFp i hq
    exact (hgone.reader q keyFp i hq).mono (.refl _) fun _ h => h

/-! ## Steps -/

theorem World.Ok.acquire (hw : w.Ok floats fingerprint inUse) {p : P} {key : Key}
    (hphase : w.phase p = .waiting key) (hlock : w.lock = none) :
    ({ w.go p (.inside (.reading key)) with lock := some p } : World P).Ok
      floats fingerprint inUse where
  files := hw.files
  holder q call hq := by
    rcases w.phase_go p q (.inside (.reading key)) with ⟨rfl, hgo⟩ | ⟨-, hgo⟩
    · obtain rfl : Call.reading key = call := Phase.inside.inj (hgo.symm.trans hq)
      exact ⟨rfl, trivial⟩
    · -- nobody had the lock
      have hheld := (hw.holder q call (hgo.symm.trans hq)).1
      rw [hlock] at hheld
      cases hheld
  keys q other hother := by
    rcases w.phase_go p q (.inside (.reading key)) with ⟨-, hgo⟩ | ⟨-, hgo⟩
    · change other ∈ ((w.go p _).phase q).keys at hother
      rw [hgo] at hother
      exact hw.keys p other (by rwa [hphase])
    · exact hw.keys q other (hgo ▸ hother)
  reader q keyFp i hq := by
    rcases w.phase_go p q (.inside (.reading key)) with ⟨-, hgo⟩ | ⟨-, hgo⟩
    · cases hgo.symm.trans hq
    · exact (hw.reader q keyFp i (hgo.symm.trans hq)).mono (.refl _) fun _ h => h
  current := hw.current
  returned := hw.returned
  answers := hw.answers

theorem World.Ok.advance (hfloats : ∀ x, Json.ReadsBack floats x)
    (hdistinct : Distinct fingerprint inUse) (hw : w.Ok floats fingerprint inUse) {p : P}
    {call next : Call} {files : Files} (hphase : w.phase p = .inside call)
    (hinside : Inside floats fingerprint w.files call files next) :
    ({ w.go p (.inside next) with
        files := files, versions := w.versions ++ files.ringContent.toList } : World P).Ok
      floats fingerprint inUse := by
  obtain ⟨hlock, hcall⟩ := hw.holder p call hphase
  have hkeys : ∀ key ∈ call.keys, inUse key := fun key hkey => hw.keys p key (by rwa [hphase])
  have hkept := hinside.kept hfloats hdistinct hw.files hcall hkeys
  obtain ⟨hfiles, hnext⟩ := hinside.ok hfloats hw.files hcall
  refine ⟨hfiles, ?_, ?_, ?_, ?_, ?_, ?_⟩
  · intro q other hq
    rcases w.phase_go p q (.inside next) with ⟨rfl, hgo⟩ | ⟨hne, hgo⟩
    · obtain rfl : next = other := Phase.inside.inj (hgo.symm.trans hq)
      exact ⟨hlock, hnext⟩
    · -- the lock has one holder
      have hheld := (hw.holder q other (hgo.symm.trans hq)).1
      rw [hlock] at hheld
      exact absurd (Option.some.inj hheld).symm hne
  · intro q key hkey
    rcases w.phase_go p q (.inside next) with ⟨-, hgo⟩ | ⟨-, hgo⟩
    · change key ∈ ((w.go p _).phase q).keys at hkey
      rw [hgo] at hkey
      exact hkeys key (hinside.keys key hkey)
    · exact hw.keys q key (hgo ▸ hkey)
  · intro q keyFp i hq
    rcases w.phase_go p q (.inside next) with ⟨-, hgo⟩ | ⟨-, hgo⟩
    · cases hgo.symm.trans hq
    · exact (hw.reader q keyFp i (hgo.symm.trans hq)).mono (hinside.leaves hcall)
        fun _ h => List.mem_append_left _ h
  · intro i hring
    refine List.mem_append_right _ ?_
    rw [Files.ringContent_eq hring]
    exact List.mem_singleton_self _
  · intro key hkey
    obtain ⟨hused, hhas⟩ := hw.returned key hkey
    exact ⟨hused, hkept.has key hused hhas⟩
  · intro keyFp key hanswer
    obtain ⟨content, hcontent, hstored⟩ := hw.answers keyFp key hanswer
    exact ⟨content, List.mem_append_left _ hcontent, hstored⟩

theorem Phase.afterLoss_cases (phase : Phase) :
    phase.afterLoss = .idle ∨ phase.afterLoss = .dead := by
  cases phase with
  | idle => exact Or.inl rfl
  | _ => exact Or.inr rfl

/-- The ring's inode was synced, and is what it was. -/
theorem Files.Ok.ringContent_loss {files : Files} (hfiles : files.Ok) {inodes : ℕ → Inode}
    (hsynced : ∀ i, (files.inodes i).synced = true → inodes i = files.inodes i) :
    ({ files with inodes := inodes } : Files).ringContent = files.ringContent :=
  have hinode : ∀ i, files.ring = some i →
      ({ files with inodes := inodes } : Files).inodes i = files.inodes i :=
    fun i hi => hsynced i (hfiles.ring_synced i hi)
  Files.ringContent_congr hinode rfl

omit [DecidableEq P] in
theorem World.Ok.powerLoss (hw : w.Ok floats fingerprint inUse) {inodes : ℕ → Inode}
    (hsynced : ∀ i, (w.files.inodes i).synced = true → inodes i = w.files.inodes i) :
    ({ w with
        files := { w.files with inodes := inodes }, lock := none,
        phase := fun p => (w.phase p).afterLoss } : World P).Ok floats fingerprint inUse := by
  have hsame : ∀ i, w.files.ring = some i → inodes i = w.files.inodes i :=
    fun i hi => hsynced i (hw.files.ring_synced i hi)
  refine ⟨⟨hw.files.ring_lt, ?_, hw.files.tmp_lt, hw.files.tmp_ne⟩, ?_, ?_, ?_, ?_, ?_, hw.answers⟩
  · intro i hi
    change (inodes i).synced = true
    rw [hsame i hi]
    exact hw.files.ring_synced i hi
  · intro p call hp
    rcases (w.phase p).afterLoss_cases with hafter | hafter <;> cases hafter.symm.trans hp
  · intro p key hkey
    change key ∈ (w.phase p).afterLoss.keys at hkey
    rcases (w.phase p).afterLoss_cases with hafter | hafter
    · rw [hafter] at hkey
      exact absurd hkey List.not_mem_nil
    · rw [hafter] at hkey
      exact absurd hkey List.not_mem_nil
  · intro p keyFp i hp
    rcases (w.phase p).afterLoss_cases with hafter | hafter <;> cases hafter.symm.trans hp
  · intro i hi
    change (inodes i).content ∈ w.versions
    rw [hsame i hi]
    exact hw.current i hi
  · intro key hkey
    obtain ⟨hused, entries, hload, hrow⟩ := hw.returned key hkey
    have hsame := hw.files.ringContent_loss hsynced
    exact ⟨hused, entries, (Files.entries_congr hsame).trans hload, hrow⟩

/-- The key of a call that returns is in the ring. -/
theorem World.Ok.release (hw : w.Ok floats fingerprint inUse) {p : P} {result : Option Key}
    (hphase : w.phase p = .inside (.leaving result)) :
    ({ w.go p .idle with
        lock := w.unlocked p, returned := result.toList ++ w.returned } : World P).Ok
      floats fingerprint inUse := by
  have hidle : w.Admits inUse .idle := trivial
  have hout := hw.unlock p hidle
  refine ⟨hout.files, hout.holder, hout.keys, ?_, hout.current, ?_, hout.answers⟩
  · intro q keyFp i hq
    exact (hout.reader q keyFp i hq).mono (.refl _) fun _ h => h
  · intro key hkey
    rcases List.mem_append.mp hkey with hkey | hkey
    · obtain rfl : result = some key := Option.mem_toList.mp hkey
      exact ⟨hw.keys p key (by rw [hphase]; exact List.mem_singleton_self key),
        (hw.holder p _ hphase).2⟩
    · exact hout.returned key hkey

/-- Every step keeps what holds in a run. -/
theorem Step.ok (hfloats : ∀ x, Json.ReadsBack floats x) (hdistinct : Distinct fingerprint inUse)
    (hw : w.Ok floats fingerprint inUse) (hstep : Step floats fingerprint inUse w w') :
    w'.Ok floats fingerprint inUse := by
  cases hstep with
  | @call p key hphase hkey => exact hw.go p (show w.Admits inUse (.waiting key) from hkey)
  | @lockFails p key hphase => exact hw.idle p
  | acquire hphase hlock => exact hw.acquire hphase hlock
  | advance hphase hinside => exact hw.advance hfloats hdistinct hphase hinside
  | release hphase => exact hw.release hphase
  | die p => exact hw.unlock p (show w.Admits inUse .dead from trivial)
  | powerLoss hsynced => exact hw.powerLoss hsynced
  | @find p hphase keyFp =>
      exact hw.go p (show w.Admits inUse (.finding keyFp) from trivial)
  | @noRing p keyFp hphase hring => exact (hw.idle p).answer fun _ hkey => by cases hkey
  | @sight p keyFp i hphase hring =>
      exact hw.go p (show w.Admits inUse (.sighted keyFp) from trivial)
  | @openRing p keyFp i hphase hring =>
      exact hw.go p (show w.Admits inUse (.reads keyFp i) from hw.settled hring)
  | openFails hphase => exact hw.idle _
  | readFails hphase => exact hw.idle _
  | findNone hphase hload hget => exact (hw.idle _).answer fun _ hkey => by cases hkey
  | @findKey p keyFp text i entries key hphase hload hget hkey =>
      refine (hw.idle p).answer fun found hfound => ?_
      obtain rfl : key = found := Option.some.inj hfound
      -- the reader's inode has held since it was opened what the ring held then
      exact ⟨_, (hw.reader p keyFp i hphase).version, entries, text, hload, hget, hkey⟩

/-- Every step keeps what is in the ring. -/
theorem Step.kept (hfloats : ∀ x, Json.ReadsBack floats x) (hdistinct : Distinct fingerprint inUse)
    (hw : w.Ok floats fingerprint inUse) (hstep : Step floats fingerprint inUse w w') :
    Files.Kept floats fingerprint inUse w.files w'.files := by
  cases hstep with
  | @advance p call next files hphase hinside =>
      exact hinside.kept hfloats hdistinct hw.files (hw.holder p call hphase).2
        fun key hkey => hw.keys p key (by rwa [hphase])
  | powerLoss hsynced => exact .of_ringContent rfl (hw.files.ringContent_loss hsynced)
  | _ => exact .refl _

/-- Where the ring is a mapping, every step leaves what it has held mappings. -/
theorem Step.loads (hkept : Files.Kept floats fingerprint inUse w.files w'.files)
    (hstep : Step floats fingerprint inUse w w') (hload : w.files.entries floats ≠ none)
    (hversions : ∀ content ∈ w.versions, loadRing floats content ≠ none) :
    ∀ content ∈ w'.versions, loadRing floats content ≠ none := by
  cases hstep with
  | @advance p call next files hphase hinside =>
      intro content hcontent
      rcases List.mem_append.mp hcontent with hcontent | hcontent
      · exact hversions content hcontent
      · have hring : files.ringContent = some content := Option.mem_toList.mp hcontent
        have hnext := hkept.loads hload
        change files.entries floats ≠ none at hnext
        rwa [Files.entries, hring, Option.elim_some] at hnext
  | _ => exact hversions

/-! ## Runs -/

variable {start : World P}

theorem Run.ok (hfloats : ∀ x, Json.ReadsBack floats x) (hdistinct : Distinct fingerprint inUse)
    (hstart : start.Ok floats fingerprint inUse) (hrun : Run floats fingerprint inUse start w) :
    w.Ok floats fingerprint inUse := by
  induction hrun with
  | refl => exact hstart
  | step hrun hstep ih => exact hstep.ok hfloats hdistinct ih

/-- A run keeps what was in the ring. -/
theorem Run.kept (hfloats : ∀ x, Json.ReadsBack floats x) (hdistinct : Distinct fingerprint inUse)
    (hstart : start.Ok floats fingerprint inUse) (hrun : Run floats fingerprint inUse start w) :
    Files.Kept floats fingerprint inUse start.files w.files := by
  induction hrun with
  | refl => exact .refl _
  | step hrun hstep ih =>
      have hw := hrun.ok hfloats hdistinct hstart
      exact ih.trans (hstep.kept hfloats hdistinct hw)

/-- Where the ring was a mapping, so is all it has held. -/
theorem Run.loads (hfloats : ∀ x, Json.ReadsBack floats x) (hdistinct : Distinct fingerprint inUse)
    (hstart : start.Ok floats fingerprint inUse) (hload : start.files.entries floats ≠ none)
    (hversions : ∀ content ∈ start.versions, loadRing floats content ≠ none)
    (hrun : Run floats fingerprint inUse start w) :
    ∀ content ∈ w.versions, loadRing floats content ≠ none := by
  induction hrun with
  | refl => exact hversions
  | step hrun hstep ih =>
      have hw := hrun.ok hfloats hdistinct hstart
      have hkept := hrun.kept hfloats hdistinct hstart
      exact hstep.loads (hstep.kept hfloats hdistinct hw) (hkept.loads hload) ih

/-- Before the first call: the ring, if there is one, is on the disk. -/
structure World.Start (start : World P) : Prop where
  files : start.files.Ok
  idle : ∀ p, start.phase p = .idle
  returned : start.returned = []
  answers : start.answers = []
  versions : start.versions = start.files.ringContent.toList

omit [DecidableEq P] in
theorem World.Start.ok (hstart : start.Start) : start.Ok floats fingerprint inUse where
  files := hstart.files
  holder p call hp := by cases (hstart.idle p).symm.trans hp
  keys p key hkey := by
    rw [hstart.idle p] at hkey
    exact absurd hkey List.not_mem_nil
  reader p keyFp i hp := by cases (hstart.idle p).symm.trans hp
  current i hring := by
    rw [hstart.versions, Files.ringContent_eq hring]
    exact List.mem_singleton_self _
  returned key hkey := by
    rw [hstart.returned] at hkey
    exact absurd hkey List.not_mem_nil
  answers keyFp key hanswer := by
    rw [hstart.answers] at hanswer
    exact absurd hanswer List.not_mem_nil

/-- After any steps of any processes, a ring that was a mapping, or was not there, is a mapping with
every key that was in it and every key that was remembered, and so was all that a reader can have
read; a ring that was no mapping is as it was; and an answer stood under its fingerprint. -/
theorem keyring_safe {F : Type*} (floats : Floats F) (hfloats : ∀ x, Json.ReadsBack floats x)
    {P : Type*} [DecidableEq P] (fingerprint : Key → List Byte) (inUse : Key → Prop)
    (hdistinct : Distinct fingerprint inUse) {start w : World P} (hstart : start.Start)
    (hrun : Run floats fingerprint inUse start w) :
    (start.files.entries floats ≠ none →
      (∃ entries, w.files.entries floats = some entries ∧
        ∀ key, key ∈ w.returned ∨ inUse key ∧ start.files.Has floats fingerprint key →
          Row entries (keyFpHex fingerprint key) key) ∧
      ∀ content ∈ w.versions, loadRing floats content ≠ none) ∧
    (start.files.entries floats = none →
      w.files.ring = start.files.ring ∧ w.files.ringContent = start.files.ringContent ∧
        w.returned = []) ∧
    (∀ p keyFp i, w.phase p = .reads keyFp i → (w.files.inodes i).content ∈ w.versions) ∧
    ∀ keyFp key, (keyFp, some key) ∈ w.answers →
      ∃ content ∈ w.versions, Stored floats content keyFp key := by
  have hw := hrun.ok hfloats hdistinct hstart.ok
  have hkept := hrun.kept hfloats hdistinct hstart.ok
  refine ⟨fun hload => ⟨?_, ?_⟩, fun htorn => ?_,
    fun p keyFp i hp => (hw.reader p keyFp i hp).version, hw.answers⟩
  · obtain ⟨entries, hentries⟩ := Option.ne_none_iff_exists'.mp (hkept.loads hload)
    refine ⟨entries, hentries, fun key hkey => ?_⟩
    have hhas : w.files.Has floats fingerprint key := by
      rcases hkey with hkey | ⟨hused, hhas⟩
      · exact (hw.returned key hkey).2
      · exact hkept.has key hused hhas
    obtain ⟨found, hfound, hrow⟩ := hhas
    obtain rfl : entries = found := Option.some.inj (hentries.symm.trans hfound)
    exact hrow
  · refine hrun.loads hfloats hdistinct hstart.ok hload fun content hcontent => ?_
    rw [hstart.versions] at hcontent
    rwa [Files.entries, Option.mem_toList.mp hcontent] at hload
  · obtain ⟨hring, hcontent⟩ := hkept.torn htorn
    refine ⟨hring, hcontent, List.eq_nil_iff_forall_not_mem.mpr fun key hkey => ?_⟩
    -- a key that was remembered would be in a mapping
    obtain ⟨-, entries, hentries, -⟩ := hw.returned key hkey
    rw [Files.entries, hcontent] at hentries
    exact absurd (htorn.symm.trans hentries) (Option.some_ne_none entries).symm

end Safety

/-! ## A first key -/

/-- The one float that is no number. -/
def notANumber : Floats Unit := ⟨fun _ => ['N', 'a', 'N'], fun _ => ()⟩

theorem readsBack_notANumber (x : Unit) : Json.ReadsBack notANumber x where
  scan _ _ := rfl
  head := ⟨'N', ['a', 'N'], rfl, by decide, by decide⟩

def zeroKey : Key := List.replicate 32 0

/-- The fingerprint of `zeroKey`. -/
def zeroFp : List Byte := [0x66, 0x68, 0x7A, 0xAD, 0xF8, 0x62, 0xBD, 0x77]

/-- Two processes, and no ring yet. -/
def noKeys : World Bool where
  files := ⟨fun _ => ⟨[], false⟩, 0, none, none⟩
  lock := none
  phase _ := .idle
  returned := []
  answers := []
  versions := []

theorem noKeys_start : noKeys.Start := by
  have hnone : ∀ i, (none : Option ℕ) ≠ some i := fun i => (Option.some_ne_none i).symm
  exact
    { files :=
        { ring_lt := fun i hi => absurd hi (hnone i)
          ring_synced := fun i hi => absurd hi (hnone i)
          tmp_lt := fun i hi => absurd hi (hnone i)
          tmp_ne := fun i hi => absurd hi (hnone i) }
      idle := fun _ => rfl
      returned := rfl
      answers := rfl
      versions := rfl }

/-- `zeroKey` is remembered, and then the power is lost. -/
theorem noKeys_run : ∃ w, Run notANumber (fun _ => zeroFp) (· = zeroKey) noKeys w ∧
    w.returned = [zeroKey] := by
  have hcall : Run notANumber (fun _ => zeroFp) (· = zeroKey) noKeys
      (noKeys.go true (.waiting zeroKey)) := Run.refl.step (.call rfl rfl)
  have hread := hcall.step (.acquire (p := true) rfl rfl)
  have hupdate := hread.step (.advance (p := true) rfl (.absent rfl))
  have hcreate := hupdate.step (.advance (p := true) rfl (.create rfl))
  have hflush := hcreate.step (.advance (p := true) rfl .flush)
  have hsync := hflush.step (.advance (p := true) rfl .fsync)
  have hreplace := hsync.step (.advance (p := true) rfl (.replace rfl))
  have hleave := hreplace.step (.advance (p := true) rfl .fsyncDir)
  have hreturn := hleave.step (.release (p := true) rfl)
  exact ⟨_, hreturn.step (.powerLoss fun _ _ => rfl), rfl⟩

theorem keyring_safe_zeroKey : ∃ w, Run notANumber (fun _ => zeroFp) (· = zeroKey) noKeys w ∧
    ∃ entries, w.files.entries notANumber = some entries ∧
      Row entries (Envelope.hex zeroFp) zeroKey := by
  obtain ⟨w, hrun, hreturned⟩ := noKeys_run
  have hdistinct : Distinct (fun _ => zeroFp) (· = zeroKey) :=
    fun _ _ hfirst hsecond _ => hfirst.trans hsecond.symm
  have hload : noKeys.files.entries notANumber ≠ none := Option.some_ne_none _
  obtain ⟨⟨entries, hentries, hrows⟩, -⟩ := (keyring_safe notANumber readsBack_notANumber _ _
    hdistinct noKeys_start hrun).1 hload
  refine ⟨w, hrun, entries, hentries, hrows zeroKey (Or.inl ?_)⟩
  rw [hreturned]
  exact List.mem_singleton_self _

end VisioSchema.Mcap.Keyring

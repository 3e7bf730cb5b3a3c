import VisioSchema.Mcap.KeyringRuns

/-!
# The keyring behind the lock

The lock's holder writes to the inode that the temporary name names; the ring's inode is another,
and synced.  What the holder is about to rename has the ring's entries and its own (`Call.Ok`),
so that every step leaves in the ring what was in it (`Inside.kept`).

A step behind the lock (`Inside`) is described from outside: what it leaves alone
(`Inside.leaves`), what it sees to (`Inside.ok`), and what it does to the ring (`Inside.ring`),
which is nothing but for the one step that renames.
-/

namespace VisioSchema.Mcap.Keyring

open VisioSchema.Library VisioSchema.Wire VisioSchema.Crypto

/-! ## The files -/

/-- The ring's inode is synced, and not the temporary file's. -/
structure Files.Ok (files : Files) : Prop where
  ring_lt : ∀ i, files.ring = some i → i < files.next
  ring_synced : ∀ i, files.ring = some i → (files.inodes i).synced = true
  tmp_lt : ∀ i, files.tmp = some i → i < files.next
  tmp_ne : ∀ i, files.ring = some i → files.tmp ≠ some i

/-- Inodes that no name of the writers' names are left as they are. -/
def Files.Leaves (files next : Files) : Prop :=
  ∀ i < files.next, files.tmp ≠ some i →
    i < next.next ∧ next.tmp ≠ some i ∧ next.inodes i = files.inodes i

section Holder

variable {F : Type*} (floats : Floats F) (fingerprint : Key → List Byte)

/-- The entries of the ring: none yet where there is no ring. -/
def Files.entries (files : Files) : Option (Entries F) :=
  files.ringContent.elim (some Dict.empty) (loadRing floats)

/-- The ring has a key, under its own fingerprint. -/
def Files.Has (files : Files) (key : Key) : Prop :=
  ∃ entries, files.entries floats = some entries ∧ Row entries (keyFpHex fingerprint key) key

/-- A text is the ring's with one more key. -/
def Files.Adds (files : Files) (key : Key) (text : List Byte) : Prop :=
  ∃ entries, files.entries floats = some entries ∧ text = added floats fingerprint entries key

/-- What a call that stands somewhere has seen to. -/
def Call.Ok (files : Files) : Call → Prop
  | .reading _ => True
  | .opened _ i => files.ring = some i
  | .updating key text => files.Adds floats fingerprint key text
  | .filling key text i => files.tmp = some i ∧ files.Adds floats fingerprint key text
  | .flushed key i =>
      files.tmp = some i ∧ files.Adds floats fingerprint key (files.inodes i).content
  | .synced key i => files.tmp = some i ∧ (files.inodes i).synced = true ∧
      files.Adds floats fingerprint key (files.inodes i).content
  | .failed _ => True
  | .replaced key => files.Has floats fingerprint key
  | .leaving none => True
  | .leaving (some key) => files.Has floats fingerprint key

variable {floats fingerprint} {files next : Files} {call call' : Call}

theorem Files.Ok.write (hfiles : files.Ok) {i : ℕ} (htmp : files.tmp = some i) (inode : Inode) :
    (files.write i inode).Ok where
  ring_lt := hfiles.ring_lt
  ring_synced j hj := by
    have hne : j ≠ i := fun heq => hfiles.tmp_ne j hj (by rw [htmp, heq])
    change (Function.update files.inodes i inode j).synced = true
    rw [Function.update_of_ne hne]
    exact hfiles.ring_synced j hj
  tmp_lt := hfiles.tmp_lt
  tmp_ne := hfiles.tmp_ne

theorem Files.Ok.create (hfiles : files.Ok) : files.create.Ok where
  ring_lt j hj := Nat.lt_succ_of_lt (hfiles.ring_lt j hj)
  ring_synced j hj := by
    have hne : j ≠ files.next := Nat.ne_of_lt (hfiles.ring_lt j hj)
    change (Function.update files.inodes files.next ⟨[], false⟩ j).synced = true
    rw [Function.update_of_ne hne]
    exact hfiles.ring_synced j hj
  tmp_lt j hj := by
    cases hj
    exact Nat.lt_succ_self _
  tmp_ne j hj htmp := by
    cases htmp
    exact Nat.lt_irrefl _ (hfiles.ring_lt _ hj)

theorem Files.ringContent_eq {i : ℕ} (hring : files.ring = some i) :
    files.ringContent = some (files.inodes i).content := by
  rw [ringContent, hring, Option.map_some]

theorem Files.entries_none (hring : files.ring = none) :
    files.entries floats = some Dict.empty := by
  rw [entries, ringContent, hring, Option.map_none, Option.elim_none]

theorem Files.entries_some {i : ℕ} (hring : files.ring = some i) :
    files.entries floats = loadRing floats (files.inodes i).content := by
  rw [entries, ringContent_eq hring, Option.elim_some]

/-- The ring is as it was where its inode is. -/
theorem Files.ringContent_congr
    (hinode : ∀ i, files.ring = some i → next.inodes i = files.inodes i)
    (hring : next.ring = files.ring) : next.ringContent = files.ringContent := by
  rw [ringContent, ringContent, hring]
  exact Option.map_congr fun i hi => by rw [hinode i hi]

theorem Files.entries_congr (hcontent : next.ringContent = files.ringContent) :
    next.entries floats = files.entries floats := by
  rw [entries, entries, hcontent]

/-- Writes to the temporary file leave the ring's entries. -/
theorem Files.Ok.entries_write (hfiles : files.Ok) {i : ℕ} (htmp : files.tmp = some i)
    (inode : Inode) : (files.write i inode).entries floats = files.entries floats := by
  have hinode : ∀ j, files.ring = some j → (files.write i inode).inodes j = files.inodes j := by
    intro j hring
    refine Function.update_of_ne (fun heq => ?_) ..
    exact hfiles.tmp_ne j hring (by rw [htmp, heq])
  exact Files.entries_congr (Files.ringContent_congr hinode rfl)

theorem Files.Ok.entries_create (hfiles : files.Ok) :
    files.create.entries floats = files.entries floats := by
  have hinode : ∀ j, files.ring = some j → files.create.inodes j = files.inodes j :=
    fun j hring => Function.update_of_ne (Nat.ne_of_lt (hfiles.ring_lt j hring)) ..
  exact Files.entries_congr (Files.ringContent_congr hinode rfl)

/-- What is written at the temporary file is read from it. -/
theorem Files.inodes_write (files : Files) (i : ℕ) (inode : Inode) :
    (files.write i inode).inodes i = inode := Function.update_self ..

/-- What a step behind the lock leaves alone. -/
theorem Inside.leaves (hcall : call.Ok floats fingerprint files)
    (hstep : Inside floats fingerprint files call next call') : files.Leaves next := by
  have hwrite : ∀ {i : ℕ} (inode : Inode), files.tmp = some i →
      files.Leaves (files.write i inode) := by
    intro i inode htmp j hj hne
    have hji : j ≠ i := fun heq => hne (by rw [htmp, heq])
    exact ⟨hj, hne, Function.update_of_ne hji _ _⟩
  have hsame : files.Leaves files := fun j hj hne => ⟨hj, hne, rfl⟩
  cases hstep with
  | create htmp =>
      intro j hj hne
      refine ⟨Nat.lt_succ_of_lt hj, ?_, Function.update_of_ne (Nat.ne_of_lt hj) _ _⟩
      rintro ⟨⟩
      exact Nat.lt_irrefl _ hj
  | truncate htmp => exact hwrite _ htmp
  | write n => exact hwrite _ hcall.1
  | flush => exact hwrite _ hcall.1
  | fsync => exact hwrite _ hcall.1
  | unlink => exact fun j hj _ => ⟨hj, (Option.some_ne_none j).symm, rfl⟩
  | replace htmp => exact fun j hj _ => ⟨hj, (Option.some_ne_none j).symm, rfl⟩
  | _ => exact hsame

/-- Renaming the temporary file makes its text the ring's. -/
theorem Files.Adds.load (hfloats : ∀ x, Json.ReadsBack floats x) {key : Key} {text : List Byte}
    (hadds : files.Adds floats fingerprint key text) :
    ∃ found, loadRing floats text = some found ∧ Row found (keyFpHex fingerprint key) key ∧
      ∀ other, (keyFpHex fingerprint other = keyFpHex fingerprint key → other = key) →
        files.Has floats fingerprint other → Row found (keyFpHex fingerprint other) other := by
  obtain ⟨entries, hentries, rfl⟩ := hadds
  have hdumpable : Dumpable floats entries := by
    cases hring : files.ring with
    | none =>
        rw [Files.entries_none hring] at hentries
        cases hentries
        exact dumpable_empty
    | some i =>
        rw [Files.entries_some hring] at hentries
        exact dumpable_of_loadRing hfloats hentries
  obtain ⟨found, hload, hrows⟩ := row_dumpRing (hdumpable.set (keyFpHex fingerprint key)
    (Envelope.hex key))
  refine ⟨found, hload, hrows _ _ (row_set entries _ key), fun other hdistinct hother => ?_⟩
  obtain ⟨had, hhad, hrow⟩ := hother
  rw [hentries] at hhad
  cases hhad
  by_cases hfp : keyFpHex fingerprint other = keyFpHex fingerprint key
  · rw [hdistinct hfp]
    exact hrows _ _ (row_set entries _ key)
  · exact hrows _ _ (hrow.set hfp _)

/-- What a step behind the lock sees to. -/
theorem Inside.ok (hfloats : ∀ x, Json.ReadsBack floats x) (hfiles : files.Ok)
    (hcall : call.Ok floats fingerprint files)
    (hstep : Inside floats fingerprint files call next call') :
    next.Ok ∧ call'.Ok floats fingerprint next := by
  cases hstep with
  | absent hring =>
      exact ⟨hfiles, Dict.empty, Files.entries_none hring, rfl⟩
  | openRing hring => exact ⟨hfiles, hring⟩
  | @known key i entries hload hget =>
      exact ⟨hfiles, entries, (Files.entries_some hcall).trans hload, Envelope.hex key, hget,
        keyOf_hex key⟩
  | @add key i entries hload hget =>
      exact ⟨hfiles, entries, (Files.entries_some hcall).trans hload, rfl⟩
  | create htmp =>
      obtain ⟨entries, hentries, htext⟩ := hcall
      exact ⟨hfiles.create, rfl, entries, by rw [hfiles.entries_create, hentries], htext⟩
  | truncate htmp =>
      obtain ⟨entries, hentries, htext⟩ := hcall
      exact ⟨hfiles.write htmp _, htmp, entries, by rw [hfiles.entries_write htmp, hentries], htext⟩
  | write n =>
      obtain ⟨htmp, entries, hentries, htext⟩ := hcall
      exact ⟨hfiles.write htmp _, htmp, entries, by rw [hfiles.entries_write htmp, hentries], htext⟩
  | flush =>
      obtain ⟨htmp, entries, hentries, htext⟩ := hcall
      refine ⟨hfiles.write htmp _, htmp, entries, by rw [hfiles.entries_write htmp, hentries], ?_⟩
      rw [Files.inodes_write, htext]
  | fsync =>
      obtain ⟨htmp, entries, hentries, htext⟩ := hcall
      refine ⟨hfiles.write htmp _, htmp, ?_, entries,
        by rw [hfiles.entries_write htmp, hentries], ?_⟩
      · rw [Files.inodes_write]
      · rw [Files.inodes_write, htext]
  | unlink =>
      exact ⟨⟨hfiles.ring_lt, hfiles.ring_synced,
        fun _ hj => absurd hj.symm (Option.some_ne_none _),
        fun _ _ hj => absurd hj.symm (Option.some_ne_none _)⟩, trivial⟩
  | @replace key i j htmp =>
      obtain ⟨hi, hsynced, hadds⟩ := hcall
      obtain rfl : i = j := Option.some.inj (hi.symm.trans htmp)
      obtain ⟨found, hload, hrow, -⟩ := hadds.load hfloats
      refine ⟨⟨?_, ?_, fun _ hj => absurd hj.symm (Option.some_ne_none _),
        fun _ _ hj => absurd hj.symm (Option.some_ne_none _)⟩, found, hload, hrow⟩
      · rintro j ⟨⟩
        exact hfiles.tmp_lt i hi
      · rintro j ⟨⟩
        exact hsynced
  | fsyncDir => exact ⟨hfiles, hcall⟩
  | _ => exact ⟨hfiles, trivial⟩

/-- What a step behind the lock does to the ring: nothing, or the holder's text is the ring's. -/
theorem Inside.ring (hcall : call.Ok floats fingerprint files)
    (hstep : Inside floats fingerprint files call next call') :
    next.ring = files.ring ∨ ∃ key i, call = .synced key i ∧ next.ring = some i ∧
      files.Adds floats fingerprint key (next.inodes i).content := by
  cases hstep with
  | @replace key i j htmp =>
      obtain ⟨hi, -, hadds⟩ := hcall
      obtain rfl : i = j := Option.some.inj (hi.symm.trans htmp)
      exact Or.inr ⟨key, i, rfl, rfl, hadds⟩
  | _ => exact Or.inl rfl

theorem Files.Leaves.ringContent (hleaves : files.Leaves next) (hfiles : files.Ok)
    (hring : next.ring = files.ring) : next.ringContent = files.ringContent :=
  Files.ringContent_congr
    (fun i hi => (hleaves i (hfiles.ring_lt i hi) (hfiles.tmp_ne i hi)).2.2) hring

/-- The keys of a call. -/
def Call.keys : Call → List Key
  | .reading key => [key]
  | .opened key _ => [key]
  | .updating key _ => [key]
  | .filling key _ _ => [key]
  | .flushed key _ => [key]
  | .synced key _ => [key]
  | .failed key => [key]
  | .replaced key => [key]
  | .leaving result => result.toList

def Phase.keys : Phase → List Key
  | .waiting key => [key]
  | .inside call => call.keys
  | _ => []

theorem Inside.keys (hstep : Inside floats fingerprint files call next call') :
    ∀ key ∈ call'.keys, key ∈ call.keys := by
  intro key hkey
  cases hstep with
  | openFails => exact absurd hkey List.not_mem_nil
  | readFails => exact absurd hkey List.not_mem_nil
  | createFails => exact absurd hkey List.not_mem_nil
  | unlink => exact absurd hkey List.not_mem_nil
  | unlinkFails => exact absurd hkey List.not_mem_nil
  | replaceFails => exact absurd hkey List.not_mem_nil
  | fsyncDirFails => exact absurd hkey List.not_mem_nil
  | _ => exact hkey

variable {inUse : Key → Prop}

/-! ## What stays in the ring -/

/-- The keys in use have distinct fingerprints. -/
def Distinct (fingerprint : Key → List Byte) (inUse : Key → Prop) : Prop :=
  ∀ first second, inUse first → inUse second → fingerprint first = fingerprint second →
    first = second

/-- The keys of the ring stay in it; a mapping stays a mapping, and what is none stays as it is. -/
structure Files.Kept (floats : Floats F) (fingerprint : Key → List Byte) (inUse : Key → Prop)
    (files next : Files) : Prop where
  has : ∀ key, inUse key → files.Has floats fingerprint key → next.Has floats fingerprint key
  loads : files.entries floats ≠ none → next.entries floats ≠ none
  torn : files.entries floats = none →
    next.ring = files.ring ∧ next.ringContent = files.ringContent

theorem Files.Kept.of_ringContent (hring : next.ring = files.ring)
    (hcontent : next.ringContent = files.ringContent) :
    Files.Kept floats fingerprint inUse files next where
  has key _ hhas := by
    obtain ⟨entries, hload, hrow⟩ := hhas
    exact ⟨entries, (Files.entries_congr hcontent).trans hload, hrow⟩
  loads hload := by rwa [Files.entries_congr hcontent]
  torn _ := ⟨hring, hcontent⟩

theorem Files.Kept.refl (files : Files) : Files.Kept floats fingerprint inUse files files :=
  .of_ringContent rfl rfl

theorem Files.Kept.trans {last : Files} (hfirst : Files.Kept floats fingerprint inUse files next)
    (hsecond : Files.Kept floats fingerprint inUse next last) :
    Files.Kept floats fingerprint inUse files last where
  has key hkey hhas := hsecond.has key hkey (hfirst.has key hkey hhas)
  loads hload := hsecond.loads (hfirst.loads hload)
  torn hnone := by
    obtain ⟨hring, hcontent⟩ := hfirst.torn hnone
    obtain ⟨hring', hcontent'⟩ := hsecond.torn (by rw [Files.entries, hcontent]; exact hnone)
    exact ⟨hring'.trans hring, hcontent'.trans hcontent⟩

/-- A step behind the lock keeps every key in the ring. -/
theorem Inside.kept (hfloats : ∀ x, Json.ReadsBack floats x)
    (hdistinct : Distinct fingerprint inUse) (hfiles : files.Ok)
    (hcall : call.Ok floats fingerprint files) (hkeys : ∀ key ∈ call.keys, inUse key)
    (hstep : Inside floats fingerprint files call next call') :
    Files.Kept floats fingerprint inUse files next := by
  rcases hstep.ring hcall with hring | ⟨key, i, rfl, hring, hadds⟩
  · exact .of_ringContent hring ((hstep.leaves hcall).ringContent hfiles hring)
  · -- the temporary file has become the ring
    obtain ⟨found, hload, -, hrows⟩ := hadds.load hfloats
    have hfound : next.entries floats = some found := (Files.entries_some hring).trans hload
    refine ⟨fun other hother hhas => ?_, fun _ => ?_, fun hnone => ?_⟩
    · refine ⟨found, hfound, hrows other (fun hfp => ?_) hhas⟩
      exact hdistinct other key hother (hkeys key (List.mem_singleton_self key)) (hex_injective hfp)
    · rw [hfound]
      exact Option.some_ne_none found
    · obtain ⟨entries, hentries, -⟩ := hadds
      exact absurd (hnone.symm.trans hentries) (Option.some_ne_none entries).symm

end Holder

end VisioSchema.Mcap.Keyring

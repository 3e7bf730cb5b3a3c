import Mathlib.Logic.Function.Basic
import VisioSchema.Mcap.Keyring

/-!
# The keyring among processes

Any number of processes call `remember_key` and `find_key`.  The names of the ring and the writers'
temporary file are entries of a directory, and what they name are inodes: a write changes an inode,
`os.replace` changes the entry, and a loss of power leaves of an inode what was synced.  A writer
holds the lock of the side file from before it reads the ring until it returns or dies.

Only the holder of the lock changes a file (`Inside`); a process that dies, alone or with all others
when the power is lost, gives up the lock.
-/

namespace VisioSchema.Mcap.Keyring

open VisioSchema.Library VisioSchema.Wire VisioSchema.Crypto

/-! ## Files -/

/-- What a file holds, and whether all of it is on the disk. -/
structure Inode where
  content : List Byte
  synced : Bool
  deriving DecidableEq, Repr

/-- The directory's entries for the ring and the temporary file, and the inodes that were made. -/
structure Files where
  inodes : ℕ → Inode
  next : ℕ
  ring : Option ℕ
  tmp : Option ℕ

def Files.write (files : Files) (i : ℕ) (inode : Inode) : Files :=
  { files with inodes := Function.update files.inodes i inode }

/-- `os.open(tmp, O_CREAT)` of a name that is not there. -/
def Files.create (files : Files) : Files where
  inodes := Function.update files.inodes files.next ⟨[], false⟩
  next := files.next + 1
  ring := files.ring
  tmp := some files.next

/-- What is read of the ring. -/
def Files.ringContent (files : Files) : Option (List Byte) :=
  files.ring.map fun i => (files.inodes i).content

/-! ## Calls and processes -/

/-- Where `remember_key` stands behind the lock. -/
inductive Call
  | reading (key : Key)
  | opened (key : Key) (inode : ℕ)
  | updating (key : Key) (text : List Byte)
  | filling (key : Key) (text : List Byte) (inode : ℕ)
  | flushed (key : Key) (inode : ℕ)
  | synced (key : Key) (inode : ℕ)
  | failed (key : Key)
  | replaced (key : Key)
  /-- Before the lock's file is closed, with the key if the call returns and does not raise. -/
  | leaving (result : Option Key)

/-- What a process does. -/
inductive Phase
  | idle
  | dead
  | waiting (key : Key)
  | inside (call : Call)
  | finding (keyFp : Text)
  | sighted (keyFp : Text)
  | reads (keyFp : Text) (inode : ℕ)

/-- What a process does when the power is back: nothing, if it had not begun. -/
def Phase.afterLoss : Phase → Phase
  | .idle => .idle
  | _ => .dead

/-- The files, the holder of the lock and what every process does; and of the run so far the keys
that `remember_key` returned for, the answers of `find_key`, and what the ring has held. -/
structure World (P : Type*) where
  files : Files
  lock : Option P
  phase : P → Phase
  returned : List Key
  answers : List (Text × Option Key)
  versions : List (List Byte)

section Steps

variable {F : Type*} (floats : Floats F) (fingerprint : Key → List Byte)

/-- `fingerprint(key).hex()`. -/
def keyFpHex (key : Key) : Text := Envelope.hex (fingerprint key)

/-- The ring's text with one more key. -/
def added (entries : Entries F) (key : Key) : List Byte :=
  dumpRing floats (entries.set (keyFpHex fingerprint key) (.string (Envelope.hex key)))

/-- A step of `remember_key` behind the lock.  Where a call may fail it raises, through the `except`
clause from the writes to the `close`. -/
inductive Inside : Files → Call → Files → Call → Prop
  | absent {files : Files} {key : Key} (hring : files.ring = none) :
      Inside files (.reading key) files (.updating key (added floats fingerprint Dict.empty key))
  | openRing {files : Files} {key : Key} {i : ℕ} (hring : files.ring = some i) :
      Inside files (.reading key) files (.opened key i)
  | openFails {files : Files} {key : Key} : Inside files (.reading key) files (.leaving none)
  | known {files : Files} {key : Key} {i : ℕ} {entries : Entries F}
      (hload : loadRing floats (files.inodes i).content = some entries)
      (hget : entries.get (keyFpHex fingerprint key) = some (.string (Envelope.hex key))) :
      Inside files (.opened key i) files (.leaving (some key))
  | add {files : Files} {key : Key} {i : ℕ} {entries : Entries F}
      (hload : loadRing floats (files.inodes i).content = some entries)
      (hget : entries.get (keyFpHex fingerprint key) ≠ some (.string (Envelope.hex key))) :
      Inside files (.opened key i) files (.updating key (added floats fingerprint entries key))
  | readFails {files : Files} {key : Key} {i : ℕ} :
      Inside files (.opened key i) files (.leaving none)
  | create {files : Files} {key : Key} {text : List Byte} (htmp : files.tmp = none) :
      Inside files (.updating key text) files.create (.filling key text files.next)
  | truncate {files : Files} {key : Key} {text : List Byte} {i : ℕ} (htmp : files.tmp = some i) :
      Inside files (.updating key text) (files.write i ⟨[], false⟩) (.filling key text i)
  | createFails {files : Files} {key : Key} {text : List Byte} :
      Inside files (.updating key text) files (.leaving none)
  | write {files : Files} {key : Key} {text : List Byte} {i : ℕ} (n : ℕ) :
      Inside files (.filling key text i) (files.write i ⟨text.take n, false⟩) (.filling key text i)
  | flush {files : Files} {key : Key} {text : List Byte} {i : ℕ} :
      Inside files (.filling key text i) (files.write i ⟨text, false⟩) (.flushed key i)
  | writeFails {files : Files} {key : Key} {text : List Byte} {i : ℕ} :
      Inside files (.filling key text i) files (.failed key)
  | fsync {files : Files} {key : Key} {i : ℕ} :
      Inside files (.flushed key i) (files.write i ⟨(files.inodes i).content, true⟩) (.synced key i)
  | fsyncFails {files : Files} {key : Key} {i : ℕ} :
      Inside files (.flushed key i) files (.failed key)
  | closeFails {files : Files} {key : Key} {i : ℕ} :
      Inside files (.synced key i) files (.failed key)
  | unlink {files : Files} {key : Key} :
      Inside files (.failed key) { files with tmp := none } (.leaving none)
  | unlinkFails {files : Files} {key : Key} : Inside files (.failed key) files (.leaving none)
  | replace {files : Files} {key : Key} {i j : ℕ} (htmp : files.tmp = some j) :
      Inside files (.synced key i) { files with ring := some j, tmp := none } (.replaced key)
  | replaceFails {files : Files} {key : Key} {i : ℕ} :
      Inside files (.synced key i) files (.leaving none)
  | fsyncDir {files : Files} {key : Key} :
      Inside files (.replaced key) files (.leaving (some key))
  | fsyncDirFails {files : Files} {key : Key} :
      Inside files (.replaced key) files (.leaving none)

variable {P : Type*} [DecidableEq P]

/-- The process goes on to another phase. -/
def World.go (w : World P) (p : P) (phase : Phase) : World P :=
  { w with phase := Function.update w.phase p phase }

/-- The lock when a process gives up its hold of it, if it has one. -/
def World.unlocked (w : World P) (p : P) : Option P := if w.lock = some p then none else w.lock

/-- A step of the processes, for calls with the keys in use. -/
inductive Step (inUse : Key → Prop) : World P → World P → Prop
  | call {w : World P} {p : P} {key : Key} (hphase : w.phase p = .idle) (hkey : inUse key) :
      Step inUse w (w.go p (.waiting key))
  | lockFails {w : World P} {p : P} {key : Key} (hphase : w.phase p = .waiting key) :
      Step inUse w (w.go p .idle)
  | acquire {w : World P} {p : P} {key : Key} (hphase : w.phase p = .waiting key)
      (hlock : w.lock = none) :
      Step inUse w { w.go p (.inside (.reading key)) with lock := some p }
  | advance {w : World P} {p : P} {call next : Call} {files : Files}
      (hphase : w.phase p = .inside call)
      (hinside : Inside floats fingerprint w.files call files next) :
      Step inUse w { w.go p (.inside next) with
        files := files, versions := w.versions ++ files.ringContent.toList }
  | release {w : World P} {p : P} {result : Option Key}
      (hphase : w.phase p = .inside (.leaving result)) :
      Step inUse w { w.go p .idle with
        lock := w.unlocked p, returned := result.toList ++ w.returned }
  | die {w : World P} (p : P) : Step inUse w { w.go p .dead with lock := w.unlocked p }
  | powerLoss {w : World P} {inodes : ℕ → Inode}
      (hsynced : ∀ i, (w.files.inodes i).synced = true → inodes i = w.files.inodes i) :
      Step inUse w { w with
        files := { w.files with inodes := inodes }, lock := none,
        phase := fun p => (w.phase p).afterLoss }
  | find {w : World P} {p : P} (hphase : w.phase p = .idle) (keyFp : Text) :
      Step inUse w (w.go p (.finding keyFp))
  | noRing {w : World P} {p : P} {keyFp : Text} (hphase : w.phase p = .finding keyFp)
      (hring : w.files.ring = none) :
      Step inUse w { w.go p .idle with answers := (keyFp, none) :: w.answers }
  | sight {w : World P} {p : P} {keyFp : Text} {i : ℕ} (hphase : w.phase p = .finding keyFp)
      (hring : w.files.ring = some i) : Step inUse w (w.go p (.sighted keyFp))
  | openRing {w : World P} {p : P} {keyFp : Text} {i : ℕ} (hphase : w.phase p = .sighted keyFp)
      (hring : w.files.ring = some i) : Step inUse w (w.go p (.reads keyFp i))
  | openFails {w : World P} {p : P} {keyFp : Text} (hphase : w.phase p = .sighted keyFp) :
      Step inUse w (w.go p .idle)
  | readFails {w : World P} {p : P} {keyFp : Text} {i : ℕ} (hphase : w.phase p = .reads keyFp i) :
      Step inUse w (w.go p .idle)
  | findNone {w : World P} {p : P} {keyFp : Text} {i : ℕ} {entries : Entries F}
      (hphase : w.phase p = .reads keyFp i)
      (hload : loadRing floats (w.files.inodes i).content = some entries)
      (hget : entries.get keyFp = none ∨ entries.get keyFp = some .null) :
      Step inUse w { w.go p .idle with answers := (keyFp, none) :: w.answers }
  | findKey {w : World P} {p : P} {keyFp text : Text} {i : ℕ} {entries : Entries F} {key : Key}
      (hphase : w.phase p = .reads keyFp i)
      (hload : loadRing floats (w.files.inodes i).content = some entries)
      (hget : entries.get keyFp = some (.string text)) (hkey : parseHexKey text = some key) :
      Step inUse w { w.go p .idle with answers := (keyFp, some key) :: w.answers }

/-- Any steps, of any processes. -/
inductive Run (inUse : Key → Prop) (start : World P) : World P → Prop
  | refl : Run inUse start start
  | step {w next : World P} (hrun : Run inUse start w)
      (hstep : Step floats fingerprint inUse w next) : Run inUse start next

end Steps

end VisioSchema.Mcap.Keyring

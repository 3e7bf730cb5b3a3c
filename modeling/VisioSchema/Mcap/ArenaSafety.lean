import Mathlib.Data.List.Perm.Subperm
import Mathlib.Tactic.SplitIfs
import VisioSchema.Library.Runs
import VisioSchema.Mcap.PayloadArena

/-!
# What the arena represents

In every run of an arena's owner the live records lie apart, each within one chunk, and read back
what was put (`run_represents`).  The invariant behind it (`Sound`) says in addition where the
current chunk is still free, and that a claimed chunk is empty and claimed once.

## Strategy

A record is a block of bytes in a chunk, and two blocks in different chunks lie apart
(`Within.apart`).  So an operation has to be looked at in its own chunk only.

* `Put` takes the first free byte of the current chunk, or of the lowest free chunk
  (`chooseChunk_some`): behind every live record there, by the invariant (`Sound.fits`).
* `Free` is three steps (`release_some`): the record is forgotten, and where it was the last of
  its chunk, the current chunk starts again and any other chunk is claimed.  Each step keeps the
  invariant (`Sound.forget`, `Sound.rewind`, `Sound.claim`).
* `Run` blanks a claimed chunk, and `CompleteReclaim` gives it back.  No live record lies in it
  (`Sound.none_of_live`).
-/

namespace VisioSchema.Mcap

open VisioSchema.Wire VisioSchema.Library

/-! ## Chunks -/

/-- The block lies in chunk `c`. -/
def Within (chunkBytes c : ℕ) (block : Block) : Prop :=
  c * chunkBytes ≤ block.offset ∧ block.offset + block.size ≤ (c + 1) * chunkBytes

variable {chunkBytes c d : ℕ} {a b : Block}

theorem Within.apart (ha : Within chunkBytes c a) (hb : Within chunkBytes d b) (hne : c ≠ d) :
    a.Apart b := by
  rcases Nat.lt_or_gt_of_ne hne with hlt | hgt
  · have hle : (c + 1) * chunkBytes ≤ d * chunkBytes := Nat.mul_le_mul_right _ hlt
    exact Or.inl (Nat.le_trans ha.2 (Nat.le_trans hle hb.1))
  · have hle : (d + 1) * chunkBytes ≤ c * chunkBytes := Nat.mul_le_mul_right _ hgt
    exact Or.inr (Nat.le_trans hb.2 (Nat.le_trans hle ha.1))

theorem within_whole (chunkBytes c : ℕ) : Within chunkBytes c ⟨c * chunkBytes, chunkBytes⟩ :=
  ⟨Nat.le_refl _, by rw [Nat.succ_mul]⟩

/-- Blocks apart from each other do not crowd a chunk. -/
theorem length_le_of_apart {blocks : List Block} (hapart : blocks.Pairwise Block.Apart)
    (hwithin : ∀ block ∈ blocks, 0 < block.size ∧ Within chunkBytes c block) :
    blocks.length ≤ chunkBytes := by
  have hnodup : (blocks.map Block.offset).Nodup := by
    refine List.pairwise_map.mpr (hapart.imp_of_mem fun ha hb hab heq => ?_)
    have hsize := (hwithin _ ha).1
    have hsize' := (hwithin _ hb).1
    unfold Block.Apart at hab
    omega
  have hsubset : blocks.map Block.offset ⊆ List.range' (c * chunkBytes) chunkBytes := by
    intro offset hmem
    obtain ⟨block, hblock, rfl⟩ := List.mem_map.mp hmem
    obtain ⟨hsize, hlow, hhigh⟩ := hwithin block hblock
    rw [Nat.succ_mul] at hhigh
    exact List.mem_range'_1.mpr ⟨hlow, by omega⟩
  simpa using (hnodup.subperm hsubset).length_le

/-! ## The invariant -/

namespace ArenaUse

/-- The chunk of a record. -/
def chunkOf (u : ArenaUse) (record : Record) : ℕ := record.offset / u.arena.chunkBytes

structure Sound (u : ArenaUse) : Prop where
  placed : ∀ r ∈ u.records, 0 < r.1.size ∧ u.chunkOf r.1 < u.arena.chunks ∧
    Within u.arena.chunkBytes (u.chunkOf r.1) r.1
  apart : u.records.Pairwise fun r q => r.1.Apart q.1
  contents : ∀ r ∈ u.records, u.arena.bytes r.1 = r.2
  counted : ∀ c, u.arena.live c = u.records.countP fun r => decide (u.chunkOf r.1 = c)
  below : ∀ r ∈ u.records, u.arena.current = some (u.chunkOf r.1) →
    r.1.offset + r.1.size ≤ u.chunkOf r.1 * u.arena.chunkBytes + u.arena.fill
  currentOpen : ∀ c, u.arena.current = some c →
    c < u.arena.chunks ∧ u.arena.residency c ≠ .reclaiming
  usedTouched : ∀ r ∈ u.records, u.arena.residency (u.chunkOf r.1) = .touched
  marked : ∀ c, u.written c = true ↔ u.arena.residency c ≠ .untouched
  claimed : ∀ reclaim ∈ u.reclaims, u.arena.residency reclaim.chunk = .reclaiming
  claimedOnce : (u.reclaims.map Reclaim.chunk).Nodup

variable {u : ArenaUse}

theorem sound_start (capacity chunkBytes residentChunks : ℕ) (reserves : Bool) :
    Sound { arena := .make capacity chunkBytes residentChunks reserves } where
  placed := by simp
  apart := List.Pairwise.nil
  contents := by simp
  counted _ := rfl
  below := by simp
  currentOpen := by simp [PayloadArena.make]
  usedTouched := by simp
  marked := by simp [PayloadArena.make]
  claimed := by simp
  claimedOnce := List.nodup_nil

/-- No live record lies in a chunk that is not touched. -/
theorem Sound.none_in (hsound : u.Sound) {c : ℕ} (huntouched : u.arena.residency c ≠ .touched) :
    ∀ r ∈ u.records, u.chunkOf r.1 ≠ c := by
  rintro r hmem rfl
  exact huntouched (hsound.usedTouched r hmem)

/-- A chunk without live records, by its count. -/
theorem Sound.none_of_live (hsound : u.Sound) {c : ℕ} (hzero : u.arena.live c = 0) :
    ∀ r ∈ u.records, u.chunkOf r.1 ≠ c := by
  intro r hmem
  have hnone := hsound.counted c
  rw [hzero] at hnone
  simpa using List.countP_eq_zero.mp hnone.symm r hmem

/-! ## Put -/

/-- Where the next record goes. -/
theorem chooseChunk_some {arena : PayloadArena} {size next : ℕ}
    (hchosen : arena.chooseChunk size = some next) :
    0 < size ∧ size ≤ arena.chunkBytes ∧
      ((arena.current = some next ∧ size ≤ arena.chunkBytes - arena.fill) ∨
        (arena.current ≠ some next ∧ next < arena.chunks ∧ arena.live next = 0 ∧
          arena.residency next ≠ .reclaiming)) := by
  unfold PayloadArena.chooseChunk at hchosen
  split_ifs at hchosen with hrefused hfits
  · exact ⟨by omega, by omega, Or.inl ⟨hchosen, hfits.2⟩⟩
  · have hfound := List.find?_some hchosen
    have hmem := List.mem_range.mp (List.mem_of_find?_eq_some hchosen)
    simp only [Bool.and_eq_true, decide_eq_true_eq] at hfound
    exact ⟨by omega, by omega,
      Or.inr ⟨fun heq => hfound.1.1 heq.symm, hmem, hfound.1.2, hfound.2⟩⟩

/-- The record that `Put` hands out: in its chunk, at the first free byte. -/
structure Fits (u : ArenaUse) (next : ℕ) (record : Record) : Prop where
  nonempty : 0 < record.size
  within : Within u.arena.chunkBytes next record
  inChunk : u.chunkOf record = next
  behind : ∀ r ∈ u.records, u.chunkOf r.1 = next → r.1.offset + r.1.size ≤ record.offset
  apart : ∀ r ∈ u.records, r.1.Apart record

theorem Sound.fits (hsound : u.Sound) {bytes : List Byte} {next : ℕ}
    (hchosen : u.arena.chooseChunk bytes.length = some next) :
    u.Fits next (u.arena.putIn next bytes).2 ∧ next < u.arena.chunks ∧
      u.arena.residency next ≠ .reclaiming := by
  obtain ⟨hsome, hsize, hwhere⟩ := chooseChunk_some hchosen
  -- The offset in the chunk: behind the records of the current one, zero in an empty one.
  obtain ⟨fill, hfill, hroom, hchunk, hopen, hbehind⟩ : ∃ fill,
      (u.arena.putIn next bytes).2 = ⟨next * u.arena.chunkBytes + fill, bytes.length⟩ ∧
        fill + bytes.length ≤ u.arena.chunkBytes ∧ next < u.arena.chunks ∧
          u.arena.residency next ≠ .reclaiming ∧
            ∀ r ∈ u.records, u.chunkOf r.1 = next →
              r.1.offset + r.1.size ≤ next * u.arena.chunkBytes + fill := by
    rcases hwhere with ⟨hcurrent, hfits⟩ | ⟨hother, hchunk, hempty, hopen⟩
    · obtain ⟨hchunk, hopen⟩ := hsound.currentOpen next hcurrent
      refine ⟨u.arena.fill, ?_, by omega, hchunk, hopen, fun r hmem hin => ?_⟩
      · rw [PayloadArena.putIn, if_neg fun hne => hne hcurrent.symm]
      · have hbelow := hsound.below r hmem (by rw [hin, hcurrent])
        rwa [hin] at hbelow
    · refine ⟨0, ?_, by omega, hchunk, hopen, fun r hmem hin => ?_⟩
      · rw [PayloadArena.putIn, if_pos fun heq => hother heq.symm]
      · exact absurd hin (hsound.none_of_live hempty r hmem)
  have hin : (next * u.arena.chunkBytes + fill) / u.arena.chunkBytes = next := by
    rw [Nat.mul_comm, Nat.mul_add_div (by omega), Nat.div_eq_of_lt (by omega), Nat.add_zero]
  have hwithin : Within u.arena.chunkBytes next
      ⟨next * u.arena.chunkBytes + fill, bytes.length⟩ := by
    refine ⟨Nat.le_add_right .., ?_⟩
    rw [Nat.succ_mul]
    change next * u.arena.chunkBytes + fill + bytes.length ≤ _
    omega
  rw [hfill]
  refine ⟨⟨hsome, hwithin, hin, hbehind, fun r hmem => ?_⟩, hchunk, hopen⟩
  by_cases hsame : u.chunkOf r.1 = next
  · exact Or.inl (hbehind r hmem hsame)
  · exact (hsound.placed r hmem).2.2.apart hwithin hsame

theorem put_none {bytes : List Byte} (hchosen : u.arena.chooseChunk bytes.length = none) :
    u.put bytes = u := by
  rw [put, PayloadArena.put, hchosen]

theorem put_some {bytes : List Byte} {next : ℕ}
    (hchosen : u.arena.chooseChunk bytes.length = some next) :
    u.put bytes =
      { u with
        arena := (u.arena.putIn next bytes).1
        records := u.records ++ [((u.arena.putIn next bytes).2, bytes)]
        written := Function.update u.written (u.chunkOf (u.arena.putIn next bytes).2) true } := by
  rw [put, PayloadArena.put, hchosen]
  rfl

/-- The current chunk is full up to the end of the new record. -/
theorem putIn_top (arena : PayloadArena) (next : ℕ) (bytes : List Byte) :
    next * arena.chunkBytes + (arena.putIn next bytes).1.fill =
      (arena.putIn next bytes).2.offset + (arena.putIn next bytes).2.size := by
  simp only [PayloadArena.putIn]
  rw [Nat.add_assoc]

theorem Sound.put (hsound : u.Sound) (bytes : List Byte) : (u.put bytes).Sound := by
  cases hchosen : u.arena.chooseChunk bytes.length with
  | none => rwa [put_none hchosen]
  | some next =>
      obtain ⟨hfits, hchunk, hopen⟩ := hsound.fits hchosen
      -- The record and its chunk are named first; what `Put` does is then an update of that chunk.
      have htop := putIn_top u.arena next bytes
      rw [put_some hchosen, hfits.inChunk]
      generalize hrecord : (u.arena.putIn next bytes).2 = record at hfits htop ⊢
      have hmemory : (u.arena.putIn next bytes).1.memory =
          Block.store u.arena.memory record.offset bytes := by
        rw [← hrecord]
        rfl
      have hsize : record.size = bytes.length := by
        rw [← hrecord]
        rfl
      have hblock : (⟨record.offset, bytes.length⟩ : Block) = record := by rw [← hsize]
      constructor
      case placed =>
        intro r hmem
        rcases List.mem_append.mp hmem with hold | hnew
        · exact hsound.placed r hold
        · rw [List.mem_singleton.mp hnew]
          refine ⟨hfits.nonempty, ?_, ?_⟩
          · change u.chunkOf record < u.arena.chunks
            rwa [hfits.inChunk]
          · change Within u.arena.chunkBytes (u.chunkOf record) record
            rw [hfits.inChunk]
            exact hfits.within
      case apart =>
        refine List.pairwise_append.mpr ⟨hsound.apart, List.pairwise_singleton .., ?_⟩
        intro r hold q hnew
        rw [List.mem_singleton.mp hnew]
        exact hfits.apart r hold
      case contents =>
        -- The bytes are stored apart from every live record, and read back where they were stored.
        intro r hmem
        change Block.load (u.arena.putIn next bytes).1.memory r.1 = r.2
        rw [hmemory]
        rcases List.mem_append.mp hmem with hold | hnew
        · rw [Block.load_store_apart (by rw [hblock]; exact hfits.apart r hold)]
          exact hsound.contents r hold
        · rw [List.mem_singleton.mp hnew]
          change Block.load _ record = bytes
          rw [← hblock]
          exact Block.load_store_self
      case counted =>
        intro c
        change Function.update u.arena.live next (u.arena.live next + 1) c =
          (u.records ++ [(record, bytes)]).countP fun r => decide (u.chunkOf r.1 = c)
        rw [List.countP_append, List.countP_singleton]
        by_cases hsame : c = next
        · subst hsame
          rw [Function.update_self, ← hsound.counted, if_pos (by simpa using hfits.inChunk)]
        · rw [Function.update_of_ne hsame, ← hsound.counted, if_neg, Nat.add_zero]
          rw [decide_eq_true_eq, hfits.inChunk]
          exact fun heq => hsame heq.symm
      case below =>
        -- The new record ends at the new fill, and the others of the chunk before it.
        intro r hmem hcurrent
        have hin : u.chunkOf r.1 = next := (Option.some.inj hcurrent).symm
        change r.1.offset + r.1.size ≤
          u.chunkOf r.1 * u.arena.chunkBytes + (u.arena.putIn next bytes).1.fill
        rw [hin, htop]
        rcases List.mem_append.mp hmem with hold | hnew
        · exact Nat.le_trans (hfits.behind r hold hin) (Nat.le_add_right ..)
        · rw [List.mem_singleton.mp hnew]
      case currentOpen =>
        intro c hcurrent
        have heq : next = c := Option.some.inj hcurrent
        subst heq
        refine ⟨hchunk, ?_⟩
        change Function.update u.arena.residency next .touched next ≠ .reclaiming
        rw [Function.update_self]
        decide
      case usedTouched =>
        intro r hmem
        change Function.update u.arena.residency next .touched (u.chunkOf r.1) = .touched
        by_cases hsame : u.chunkOf r.1 = next
        · rw [hsame, Function.update_self]
        · rw [Function.update_of_ne hsame]
          rcases List.mem_append.mp hmem with hold | hnew
          · exact hsound.usedTouched r hold
          · rw [List.mem_singleton.mp hnew] at hsame
            exact absurd hfits.inChunk hsame
      case marked =>
        intro c
        change Function.update u.written next true c = true ↔
          Function.update u.arena.residency next .touched c ≠ .untouched
        by_cases hsame : c = next
        · subst hsame
          simp
        · rw [Function.update_of_ne hsame, Function.update_of_ne hsame]
          exact hsound.marked c
      case claimed =>
        -- A chunk that is open to `Put` is not a claimed one.
        intro reclaim hmem
        change Function.update u.arena.residency next .touched reclaim.chunk = .reclaiming
        have hclaimed := hsound.claimed reclaim hmem
        rw [Function.update_of_ne fun heq => hopen (by rw [← heq, hclaimed])]
        exact hclaimed
      case claimedOnce => exact hsound.claimedOnce

/-! ## Release -/

/-- Without record `i`. -/
def forget (u : ArenaUse) (i chunk : ℕ) : ArenaUse :=
  { u with
    arena := { u.arena with live := Function.update u.arena.live chunk (u.arena.live chunk - 1) }
    records := u.records.eraseIdx i }

/-- The current chunk starts again, or is given up. -/
def rewind (u : ArenaUse) (current : Option ℕ) : ArenaUse :=
  { u with arena := { u.arena with fill := 0, current := current } }

def claim (u : ArenaUse) (chunk : ℕ) : ArenaUse :=
  { u with
    arena :=
      { u.arena with residency := Function.update u.arena.residency chunk .reclaiming }
    reclaims := u.reclaims ++ [{ chunk := chunk }] }

theorem Sound.forget (hsound : u.Sound) {i : ℕ} {record : Record} {bytes : List Byte}
    (hrecord : u.records[i]? = some (record, bytes)) :
    (u.forget i (u.chunkOf record)).Sound := by
  obtain ⟨hi, hget⟩ := List.getElem?_eq_some_iff.mp hrecord
  have hsub {r : Record × List Byte} (hmem : r ∈ u.records.eraseIdx i) : r ∈ u.records :=
    List.mem_of_mem_eraseIdx hmem
  constructor
  case placed => exact fun r hmem => hsound.placed r (hsub hmem)
  case apart => exact hsound.apart.sublist (List.eraseIdx_sublist ..)
  case contents => exact fun r hmem => hsound.contents r (hsub hmem)
  case counted =>
    intro c
    have hperm := (List.getElem_cons_eraseIdx_perm hi).countP_eq
      fun r => decide (u.chunkOf r.1 = c)
    rw [hget, List.countP_cons, ← hsound.counted] at hperm
    change Function.update u.arena.live (u.chunkOf record)
      (u.arena.live (u.chunkOf record) - 1) c =
        (u.records.eraseIdx i).countP fun r => decide (u.chunkOf r.1 = c)
    by_cases hsame : c = u.chunkOf record
    · subst hsame
      rw [if_pos (by simp)] at hperm
      rw [Function.update_self]
      omega
    · rw [if_neg (by simpa using fun heq => hsame heq.symm)] at hperm
      rw [Function.update_of_ne hsame]
      omega
  case below => exact fun r hmem => hsound.below r (hsub hmem)
  case currentOpen => exact hsound.currentOpen
  case usedTouched => exact fun r hmem => hsound.usedTouched r (hsub hmem)
  case marked => exact hsound.marked
  case claimed => exact hsound.claimed
  case claimedOnce => exact hsound.claimedOnce

theorem Sound.rewind (hsound : u.Sound) {current : Option ℕ}
    (hempty : ∀ c, current = some c → u.arena.current = some c ∧
      ∀ r ∈ u.records, u.chunkOf r.1 ≠ c) :
    (u.rewind current).Sound where
  placed := hsound.placed
  apart := hsound.apart
  contents := hsound.contents
  counted := hsound.counted
  below r hmem hcurrent := absurd rfl ((hempty _ hcurrent).2 r hmem)
  currentOpen c hcurrent := hsound.currentOpen c (hempty c hcurrent).1
  usedTouched := hsound.usedTouched
  marked := hsound.marked
  claimed := hsound.claimed
  claimedOnce := hsound.claimedOnce

theorem Sound.claim (hsound : u.Sound) {chunk : ℕ}
    (htouched : u.arena.residency chunk = .touched) (hother : u.arena.current ≠ some chunk)
    (hempty : ∀ r ∈ u.records, u.chunkOf r.1 ≠ chunk) : (u.claim chunk).Sound := by
  have hkept {c : ℕ} (hne : c ≠ chunk) :
      (u.claim chunk).arena.residency c = u.arena.residency c := Function.update_of_ne hne ..
  have hself : (u.claim chunk).arena.residency chunk = .reclaiming := Function.update_self ..
  -- A chunk that was claimed before would not be touched now.
  have hfresh : ∀ reclaim ∈ u.reclaims, reclaim.chunk ≠ chunk := by
    intro reclaim hmem heq
    have hclaimed := hsound.claimed reclaim hmem
    rw [heq, htouched] at hclaimed
    cases hclaimed
  constructor
  case placed => exact hsound.placed
  case apart => exact hsound.apart
  case contents => exact hsound.contents
  case counted => exact hsound.counted
  case below => exact hsound.below
  case currentOpen =>
    intro c hcurrent
    have hne : c ≠ chunk := fun heq => hother (by rw [← heq]; exact hcurrent)
    rw [hkept hne]
    exact hsound.currentOpen c hcurrent
  case usedTouched =>
    intro r hmem
    change (u.claim chunk).arena.residency (u.chunkOf r.1) = .touched
    rw [hkept (hempty r hmem)]
    exact hsound.usedTouched r hmem
  case marked =>
    intro c
    by_cases hsame : c = chunk
    · have hwritten : u.written chunk = true := (hsound.marked chunk).mpr (by simp [htouched])
      rw [hsame, hself]
      exact iff_of_true hwritten (by simp)
    · rw [hkept hsame]
      exact hsound.marked c
  case claimed =>
    intro reclaim hmem
    rcases List.mem_append.mp hmem with hold | hnew
    · rw [hkept (hfresh reclaim hold)]
      exact hsound.claimed reclaim hold
    · rw [List.mem_singleton.mp hnew]
      exact hself
  case claimedOnce =>
    change ((u.reclaims ++ [({ chunk := chunk } : Reclaim)]).map Reclaim.chunk).Nodup
    rw [List.map_append]
    refine List.nodup_append.mpr ⟨hsound.claimedOnce, by simp, ?_⟩
    intro c hold d hnew heq
    obtain ⟨reclaim, hmem, rfl⟩ := List.mem_map.mp hold
    exact hfresh reclaim hmem (heq.trans (List.mem_singleton.mp hnew))

theorem release_none {i : ℕ} (hrecord : u.records[i]? = none) : u.release i = u := by
  rw [release, hrecord]

/-- `Free`, step by step. -/
theorem release_some {i : ℕ} {record : Record} {bytes : List Byte}
    (hrecord : u.records[i]? = some (record, bytes)) :
    u.release i =
      if (u.forget i (u.chunkOf record)).arena.live (u.chunkOf record) ≠ 0 then
        u.forget i (u.chunkOf record)
      else if some (u.chunkOf record) = u.arena.current then
        if u.chunkOf record < u.arena.residentChunks then
          (u.forget i (u.chunkOf record)).rewind u.arena.current
        else ((u.forget i (u.chunkOf record)).rewind none).claim (u.chunkOf record)
      else if u.chunkOf record < u.arena.residentChunks then u.forget i (u.chunkOf record)
      else (u.forget i (u.chunkOf record)).claim (u.chunkOf record) := by
  unfold release
  rw [hrecord]
  dsimp only [PayloadArena.free]
  change _ = if Function.update u.arena.live (record.offset / u.arena.chunkBytes)
    (u.arena.live (record.offset / u.arena.chunkBytes) - 1)
    (record.offset / u.arena.chunkBytes) ≠ 0 then _ else _
  by_cases hmore : Function.update u.arena.live (record.offset / u.arena.chunkBytes)
    (u.arena.live (record.offset / u.arena.chunkBytes) - 1)
    (record.offset / u.arena.chunkBytes) ≠ 0
  · rw [if_pos hmore, if_pos hmore]
    simp [ArenaUse.forget, chunkOf]
  · rw [if_neg hmore, if_neg hmore]
    by_cases hcurrent : some (record.offset / u.arena.chunkBytes) = u.arena.current
    · rw [if_pos hcurrent, if_pos (show some (u.chunkOf record) = u.arena.current from hcurrent)]
      by_cases hresident : record.offset / u.arena.chunkBytes < u.arena.residentChunks
      · rw [if_pos hresident, if_pos (show u.chunkOf record < _ from hresident)]
        simp [ArenaUse.forget, ArenaUse.rewind, chunkOf, hresident]
      · rw [if_neg hresident, if_neg (show ¬u.chunkOf record < _ from hresident)]
        simp [ArenaUse.forget, ArenaUse.rewind, ArenaUse.claim, chunkOf, hresident]
    · rw [if_neg hcurrent, if_neg (show ¬some (u.chunkOf record) = u.arena.current from hcurrent)]
      by_cases hresident : record.offset / u.arena.chunkBytes < u.arena.residentChunks
      · rw [if_pos hresident, if_pos (show u.chunkOf record < _ from hresident)]
        simp [ArenaUse.forget, chunkOf]
      · rw [if_neg hresident, if_neg (show ¬u.chunkOf record < _ from hresident)]
        simp [ArenaUse.forget, ArenaUse.claim, chunkOf]

theorem Sound.release (hsound : u.Sound) (i : ℕ) : (u.release i).Sound := by
  cases hrecord : u.records[i]? with
  | none => rwa [release_none hrecord]
  | some entry =>
      obtain ⟨record, bytes⟩ := entry
      have hleft := hsound.forget hrecord
      have htouched := hsound.usedTouched _ (List.mem_of_getElem? hrecord)
      rw [release_some hrecord]
      simp only at htouched
      generalize u.chunkOf record = chunk at hleft htouched ⊢
      by_cases hmore : (u.forget i chunk).arena.live chunk ≠ 0
      · rwa [if_pos hmore]
      rw [if_neg hmore]
      have hempty := hleft.none_of_live (not_not.mp hmore)
      by_cases hcurrent : some chunk = u.arena.current
      · rw [if_pos hcurrent]
        have hrewound : ((u.forget i chunk).rewind none).Sound :=
          hleft.rewind fun c hnone => by cases hnone
        split_ifs
        · refine hleft.rewind fun c hc => ⟨hc, ?_⟩
          have heq : chunk = c := Option.some.inj (hcurrent.trans hc)
          rwa [← heq]
        · exact hrewound.claim htouched (by simp [ArenaUse.rewind]) hempty
      · rw [if_neg hcurrent]
        split_ifs
        · exact hleft
        · exact hleft.claim htouched (fun heq => hcurrent heq.symm) hempty

/-! ## Reclaims -/

/-- A `Run` blanks a chunk that holds no live record. -/
theorem Sound.run (hsound : u.Sound) (i error : ℕ) : (u.run i error).Sound := by
  cases hreclaim : u.reclaims[i]? with
  | none =>
      have hsame : u.run i error = u := by rw [ArenaUse.run, hreclaim]
      rwa [hsame]
  | some reclaim =>
      obtain ⟨hi, hget⟩ := List.getElem?_eq_some_iff.mp hreclaim
      have hclaimed := hsound.claimed reclaim (List.mem_of_getElem? hreclaim)
      have hran : u.run i error =
          { u with
            arena := u.arena.runReclaim reclaim.chunk error
            reclaims := u.reclaims.set i { reclaim with ran := some error } } := by
        rw [ArenaUse.run, hreclaim]
      have hchunks : (u.reclaims.set i { reclaim with ran := some error }).map Reclaim.chunk =
          u.reclaims.map Reclaim.chunk := by
        rw [List.map_set]
        refine List.ext_getElem (by simp) fun j hj hj' => ?_
        rw [List.getElem_set]
        split
        next heq =>
          subst heq
          rw [List.getElem_map, hget]
        next => rfl
      rw [hran]
      -- Blanking changes memory only, and only in a chunk in which no live record lies.
      have hframe : ∀ arena : PayloadArena, arena = u.arena.runReclaim reclaim.chunk error →
          arena.chunkBytes = u.arena.chunkBytes ∧ arena.chunks = u.arena.chunks ∧
            arena.live = u.arena.live ∧ arena.residency = u.arena.residency ∧
              arena.current = u.arena.current ∧ arena.fill = u.arena.fill ∧
                ∀ r ∈ u.records, arena.bytes r.1 = u.arena.bytes r.1 := by
        rintro arena rfl
        unfold PayloadArena.runReclaim
        by_cases hdone : error = 0
        · rw [if_pos hdone]
          refine ⟨rfl, rfl, rfl, rfl, rfl, rfl, fun r hmem => Block.load_erase_apart ?_⟩
          exact (hsound.placed r hmem).2.2.apart (within_whole ..)
            (hsound.none_in (by simp [hclaimed]) r hmem)
        · rw [if_neg hdone]
          exact ⟨rfl, rfl, rfl, rfl, rfl, rfl, fun _ _ => rfl⟩
      generalize harena : u.arena.runReclaim reclaim.chunk error = arena
      obtain ⟨hbytes, hcount, hlive, hresidency, hcurrent, hfill, hcontents⟩ :=
        hframe arena harena.symm
      constructor
      case placed => simpa only [chunkOf, hbytes, hcount] using hsound.placed
      case apart => exact hsound.apart
      case contents => exact fun r hmem => (hcontents r hmem).trans (hsound.contents r hmem)
      case counted =>
        intro c
        change arena.live c =
          u.records.countP fun r => decide (r.1.offset / arena.chunkBytes = c)
        rw [hlive, hbytes]
        exact hsound.counted c
      case below => simpa only [chunkOf, hbytes, hcurrent, hfill] using hsound.below
      case currentOpen =>
        simpa only [hcurrent, hcount, hresidency] using hsound.currentOpen
      case usedTouched => simpa only [chunkOf, hbytes, hresidency] using hsound.usedTouched
      case marked => simpa only [hresidency] using hsound.marked
      case claimed =>
        intro other hmem
        simp only [hresidency]
        rcases List.mem_or_eq_of_mem_set hmem with hold | hnew
        · exact hsound.claimed other hold
        · rw [hnew]
          exact hclaimed
      case claimedOnce =>
        change ((u.reclaims.set i { reclaim with ran := some error }).map Reclaim.chunk).Nodup
        rw [hchunks]
        exact hsound.claimedOnce

/-- Of the claimed chunks, completion frees the one that was run. -/
theorem Sound.completeReclaim (hsound : u.Sound) (i : ℕ) : (u.completeReclaim i).Sound := by
  unfold ArenaUse.completeReclaim
  split
  next chunk error hreclaim =>
    obtain ⟨hi, hget⟩ := List.getElem?_eq_some_iff.mp hreclaim
    have hclaimed := hsound.claimed _ (List.mem_of_getElem? hreclaim)
    simp only at hclaimed
    have hempty := hsound.none_in (c := chunk) (by simp [hclaimed])
    have hkept {c : ℕ} (hne : c ≠ chunk) :
        (u.arena.completeReclaim chunk error).residency c = u.arena.residency c :=
      Function.update_of_ne hne ..
    -- A chunk is claimed once, so what is left to reclaim are other chunks.
    have hothers : ∀ reclaim ∈ u.reclaims.eraseIdx i, reclaim.chunk ≠ chunk := by
      have hperm := (List.getElem_cons_eraseIdx_perm hi).map Reclaim.chunk
      rw [hget] at hperm
      have hnodup := (hperm.nodup_iff).mpr hsound.claimedOnce
      intro reclaim hmem heq
      exact (List.nodup_cons.mp hnodup).1 (List.mem_map.mpr ⟨reclaim, hmem, heq⟩)
    constructor
    case placed => exact hsound.placed
    case apart => exact hsound.apart
    case contents => exact hsound.contents
    case counted => exact hsound.counted
    case below => exact hsound.below
    case currentOpen =>
      intro c hcurrent
      obtain ⟨hchunk, hopen⟩ := hsound.currentOpen c hcurrent
      refine ⟨hchunk, ?_⟩
      simp only
      rw [hkept fun heq => hopen (by rw [heq, hclaimed])]
      exact hopen
    case usedTouched =>
      intro r hmem
      change (u.arena.completeReclaim chunk error).residency (u.chunkOf r.1) = .touched
      rw [hkept (hempty r hmem)]
      exact hsound.usedTouched r hmem
    case marked =>
      -- A reclaim that failed leaves the chunk written.
      intro c
      by_cases hsame : c = chunk
      · subst hsame
        have hwritten : u.written c = true := (hsound.marked c).mpr (by simp [hclaimed])
        by_cases hdone : error = 0 <;>
          simp [PayloadArena.completeReclaim, hdone, hwritten]
      · simp only
        rw [hkept hsame, ← hsound.marked c]
        split
        · rw [Function.update_of_ne hsame]
        · rfl
    case claimed =>
      intro reclaim hmem
      simp only
      rw [hkept (hothers reclaim hmem)]
      exact hsound.claimed reclaim (List.mem_of_mem_eraseIdx hmem)
    case claimedOnce =>
      exact hsound.claimedOnce.sublist ((List.eraseIdx_sublist ..).map _)
  next => exact hsound

theorem Sound.step (hsound : u.Sound) (call : ArenaCall) : (u.step call).Sound := by
  cases call with
  | put bytes => exact hsound.put bytes
  | release i => exact hsound.release i
  | run i error => exact hsound.run i error
  | completeReclaim i => exact hsound.completeReclaim i
  | reset i error =>
      change (u.reset i error).Sound
      unfold reset
      simp only
      split
      · exact ((hsound.release i).run _ error).completeReclaim _
      · exact hsound.release i

/-! ## Whole runs -/

/-- What an arena represents, whatever its owner has called. -/
structure Represents (u : ArenaUse) : Prop where
  /-- A live record lies in one chunk. -/
  placed : ∀ r ∈ u.records, ∃ c, c < u.arena.chunks ∧ Within u.arena.chunkBytes c r.1
  apart : u.records.Pairwise fun r q => r.1.Apart q.1
  /-- It reads back what was put. -/
  contents : ∀ r ∈ u.records, u.arena.bytes r.1 = r.2
  counted : ∀ c, u.arena.live c =
    u.records.countP fun r => decide (r.1.offset / u.arena.chunkBytes = c)
  /-- No counter outgrows its chunk. -/
  bounded : ∀ c, u.arena.live c ≤ u.arena.chunkBytes
  /-- `Put` writes its record only, and into no claimed chunk. -/
  writes : ∀ bytes record, (u.arena.put bytes).2 = some record →
    (∃ c, Within u.arena.chunkBytes c record ∧ u.arena.residency c ≠ .reclaiming) ∧
      ∀ address, ¬record.Holds address →
        (u.arena.put bytes).1.memory address = u.arena.memory address
  resident : u.arena.residentBytes =
    ((List.range u.arena.chunks).countP u.written) * u.arena.chunkBytes

theorem Sound.represents (hsound : u.Sound) : u.Represents where
  placed r hmem := ⟨_, (hsound.placed r hmem).2⟩
  apart := hsound.apart
  contents := hsound.contents
  counted := hsound.counted
  bounded c := by
    rw [hsound.counted c, List.countP_eq_length_filter, ← List.length_map Prod.fst]
    refine length_le_of_apart (c := c)
      (List.pairwise_map.mpr (hsound.apart.filter _)) fun block hmem => ?_
    obtain ⟨r, hr, rfl⟩ := List.mem_map.mp hmem
    obtain ⟨hrecord, hin⟩ := List.mem_filter.mp hr
    obtain ⟨hsize, -, hwithin⟩ := hsound.placed r hrecord
    rw [of_decide_eq_true hin] at hwithin
    exact ⟨hsize, hwithin⟩
  writes bytes record hput := by
    unfold PayloadArena.put at hput ⊢
    cases hchosen : u.arena.chooseChunk bytes.length with
    | none =>
        rw [hchosen] at hput
        cases hput
    | some next =>
        rw [hchosen] at hput
        obtain ⟨hfits, -, hopen⟩ := hsound.fits hchosen
        obtain rfl : (u.arena.putIn next bytes).2 = record := Option.some.inj hput
        exact ⟨⟨next, hfits.within, hopen⟩, fun address houtside =>
          Block.store_outside houtside⟩
  resident := by
    rw [PayloadArena.residentBytes]
    congr 1
    refine List.countP_congr fun c _ => ?_
    rw [hsound.marked c, decide_eq_true_eq]

/-- The representation holds in every run. -/
theorem run_represents (capacity chunkBytes residentChunks : ℕ) (reserves : Bool)
    (calls : List ArenaCall) :
    Represents (calls.foldl step
      { arena := .make capacity chunkBytes residentChunks reserves }) := by
  have hsound := run_invariant (I := Sound) (fun _ call hsound => Sound.step hsound call)
    (sound_start capacity chunkBytes residentChunks reserves) calls
  exact hsound.represents

end ArenaUse

end VisioSchema.Mcap

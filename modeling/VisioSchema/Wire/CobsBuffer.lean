import VisioSchema.Wire.Codec

/-!
# The encoder's buffer

`CobsEncode` writes through raw pointers into a vector that it sizes beforehand.  Here a write
outside the vector has no result (`store`), and the encoder is shown never to make one: after `m`
bytes with `full` full blocks it stands at `1 + m + full`, and `254 * full` is at most `m`.  What it
returns is `cobsEncode`.
-/

namespace VisioSchema.Wire

/-! ## Pointers -/

/-- `*ptr = b`, for a place of the vector. -/
def store (buffer : List Byte) (place : ℕ) (b : Byte) : Option (List Byte) :=
  if place < buffer.length then some (buffer.set place b) else none

/-- `out` as it was sized, and the places of `p` and `code_ptr` in it. -/
structure CobsPointers where
  buffer : List Byte
  p : ℕ
  codePtr : ℕ
  code : Byte
  blockOpen : Bool

namespace CobsPointers

/-- Before the first of `n` bytes; the vector is zeros. -/
def start (n : ℕ) : CobsPointers where
  buffer := List.replicate (n + n / 254 + 2) 0
  p := 1
  codePtr := 0
  code := 1
  blockOpen := true

/-- `*code_ptr = code; code_ptr = p++; code = 1`. -/
def flush (s : CobsPointers) (blockOpen : Bool) : Option CobsPointers := do
  let buffer ← store s.buffer s.codePtr s.code
  return { buffer := buffer, p := s.p + 1, codePtr := s.p, code := 1, blockOpen := blockOpen }

/-- One byte of the input. -/
def step (s : CobsPointers) (byte : Byte) : Option CobsPointers :=
  if byte = 0 then s.flush true
  else do
    let buffer ← store s.buffer s.p byte
    let s := { s with buffer := buffer, p := s.p + 1, code := s.code + 1, blockOpen := true }
    if s.code = 0xFF then s.flush false else return s

/-- The loop over the input. -/
def fill (s : CobsPointers) (data : List Byte) : Option CobsPointers := data.foldlM step s

end CobsPointers

/-- `out.resize(size)`. -/
def resize (buffer : List Byte) (size : ℕ) : List Byte :=
  buffer.take size ++ List.replicate (size - buffer.length) 0

/-- `CobsEncode`, write by write. -/
def cobsEncodeBuffer (data : List Byte) : Option (List Byte) := do
  let s ← (CobsPointers.start data.length).fill data
  if s.blockOpen then return resize (← store s.buffer s.codePtr s.code) s.p
  else return resize s.buffer (s.p - 1)

/-! ## Where the pointers are -/

/-- The encoder after `m` bytes: behind them and the code bytes of its blocks, of which the full
ones hold 254 of the bytes each. -/
structure CobsState.Placed (m : ℕ) (t : CobsState) : Prop where
  code_pos : 1 ≤ t.code.toNat
  code_lt : t.code.toNat < 255
  codePtr_lt : t.codePtr < t.out.length
  length_eq : ∃ full, t.out.length = 1 + m + full ∧ 254 * full + (t.code.toNat - 1) ≤ m

theorem CobsState.length_flush (t : CobsState) (blockOpen : Bool) :
    (t.flush blockOpen).out.length = t.out.length + 1 := by
  rw [flush, List.length_append, List.length_set, List.length_singleton]

theorem one_lt_full : (1 : Byte).toNat < 255 := by decide

theorem CobsState.placed_start : Placed 0 ⟨[0], 0, 1, true⟩ where
  code_pos := Nat.le_refl 1
  code_lt := one_lt_full
  codePtr_lt := Nat.one_pos
  length_eq := ⟨0, rfl, Nat.le_refl 0⟩

theorem CobsState.placed_flush {t : CobsState} {m full : ℕ} (hlength : t.out.length = m + full)
    (hfull : 254 * full ≤ m) (blockOpen : Bool) : (t.flush blockOpen).Placed m where
  code_pos := Nat.le_refl 1
  code_lt := one_lt_full
  codePtr_lt := by
    rw [length_flush]
    exact Nat.lt_succ_self _
  length_eq := ⟨full, by rw [length_flush, hlength]; omega, hfull⟩

theorem CobsState.Placed.step {m : ℕ} {t : CobsState} (ht : t.Placed m) (byte : Byte) :
    (cobsStep t byte).Placed (m + 1) := by
  obtain ⟨hpos, hlt, hptr, full, hlength, hfull⟩ := ht
  have hcode : (t.code + 1).toNat = t.code.toNat + 1 := by
    rw [UInt8.toNat_add]
    change (t.code.toNat + 1) % 256 = t.code.toNat + 1
    omega
  have hout : (t.out ++ [byte]).length = 1 + (m + 1) + full := by
    rw [List.length_append, List.length_singleton]
    omega
  rw [cobsStep]
  split
  next => exact @placed_flush t (m + 1) full (by omega) (by omega) true
  next =>
    dsimp only
    split
    next h255 =>
      -- the byte fills its block, which takes a code byte beside it
      have hlast : t.code.toNat + 1 = 255 := by
        rw [← hcode, h255]
        rfl
      exact @placed_flush _ (m + 1) (full + 1) (by dsimp only; omega) (by omega) false
    next h255 =>
      have hne : t.code.toNat + 1 ≠ 255 := by
        intro hnat
        refine h255 (UInt8.toNat_inj.mp ?_)
        rw [hcode, hnat]
        rfl
      refine ⟨by rw [hcode]; omega, by rw [hcode]; omega, ?_, full, hout, by rw [hcode]; omega⟩
      rw [List.length_append]
      exact Nat.lt_add_right _ hptr

theorem CobsState.placed_fill (data : List Byte) {m : ℕ} {t : CobsState} (ht : t.Placed m) :
    (data.foldl cobsStep t).Placed (m + data.length) := by
  induction data generalizing m t with
  | nil => exact ht
  | cons byte data ih =>
      have hrest := ih (ht.step byte)
      rwa [Nat.add_right_comm, Nat.add_assoc] at hrest

theorem CobsState.Placed.length_le {m : ℕ} {t : CobsState} (ht : t.Placed m) :
    t.out.length ≤ m + m / 254 + 1 := by
  obtain ⟨full, hlength, hfull⟩ := ht.length_eq
  omega

/-! ## Nothing is written outside -/

/-- The vector holds what was written, and zeros behind it. -/
structure CobsPointers.Mirrors (size : ℕ) (s : CobsPointers) (t : CobsState) : Prop where
  buffer : s.buffer = t.out ++ List.replicate (size - t.out.length) 0
  p : s.p = t.out.length
  codePtr : s.codePtr = t.codePtr
  code : s.code = t.code
  blockOpen : s.blockOpen = t.blockOpen

theorem store_written {out : List Byte} {place : ℕ} (hplace : place < out.length)
    (rest : List Byte) (b : Byte) :
    store (out ++ rest) place b = some (out.set place b ++ rest) := by
  rw [store, if_pos (by rw [List.length_append]; omega), List.set_append, if_pos hplace]

theorem store_next {out : List Byte} {size : ℕ} (hroom : out.length < size) (b : Byte) :
    store (out ++ List.replicate (size - out.length) 0) out.length b =
      some (out ++ [b] ++ List.replicate (size - (out ++ [b]).length) 0) := by
  obtain ⟨more, hmore⟩ : ∃ more, size - out.length = more + 1 :=
    ⟨size - out.length - 1, by omega⟩
  have hlater : size - (out ++ [b]).length = more := by
    rw [List.length_append, List.length_singleton]
    omega
  have hlength : out.length < (out ++ List.replicate (more + 1) (0 : Byte)).length := by
    rw [List.length_append, List.length_replicate]
    omega
  rw [hlater, hmore, store, if_pos hlength, List.set_append_right _ _ (Nat.le_refl _), Nat.sub_self,
    List.replicate_succ, List.set_cons_zero, List.append_assoc, List.singleton_append]

namespace CobsPointers

variable {size : ℕ} {s : CobsPointers} {t : CobsState}

theorem Mirrors.flush (hs : s.Mirrors size t) (hptr : t.codePtr < t.out.length)
    (hroom : t.out.length < size) (blockOpen : Bool) :
    ∃ s', s.flush blockOpen = some s' ∧ s'.Mirrors size (t.flush blockOpen) := by
  obtain ⟨more, hmore⟩ : ∃ more, size - t.out.length = more + 1 :=
    ⟨size - t.out.length - 1, by omega⟩
  have hlater : size - (t.flush blockOpen).out.length = more := by
    rw [CobsState.length_flush]
    omega
  have hstore : store s.buffer s.codePtr s.code =
      some ((t.flush blockOpen).out ++ List.replicate more 0) := by
    rw [hs.buffer, hs.codePtr, hs.code, store_written hptr, hmore, CobsState.flush,
      List.replicate_succ, List.append_assoc, List.singleton_append]
  rw [CobsPointers.flush, hstore]
  exact ⟨_, rfl, by rw [hlater], by rw [hs.p, CobsState.length_flush], hs.p, rfl, rfl⟩

theorem Mirrors.step (hs : s.Mirrors size t) {m : ℕ} (ht : t.Placed m) {byte : Byte}
    (hroom : (cobsStep t byte).out.length ≤ size) :
    ∃ s', s.step byte = some s' ∧ s'.Mirrors size (cobsStep t byte) := by
  have hptr := ht.codePtr_lt
  rw [CobsPointers.step]
  rw [cobsStep] at hroom ⊢
  by_cases hzero : byte = 0
  · rw [if_pos hzero, CobsState.length_flush] at hroom
    rw [if_pos hzero, if_pos hzero]
    exact hs.flush hptr hroom true
  · rw [if_neg hzero] at hroom ⊢
    rw [if_neg hzero]
    dsimp only at hroom ⊢
    have hlength : (t.out ++ [byte]).length = t.out.length + 1 := by
      rw [List.length_append, List.length_singleton]
    have hnext : t.out.length < size := by
      split at hroom
      next =>
        rw [CobsState.length_flush] at hroom
        dsimp only at hroom
        omega
      next =>
        dsimp only at hroom
        omega
    have hstore : store s.buffer s.p byte =
        some (t.out ++ [byte] ++ List.replicate (size - (t.out ++ [byte]).length) 0) := by
      rw [hs.buffer, hs.p, store_next hnext]
    have hput : Mirrors size
        { s with
          buffer := t.out ++ [byte] ++ List.replicate (size - (t.out ++ [byte]).length) 0
          p := s.p + 1, code := s.code + 1, blockOpen := true }
        { t with out := t.out ++ [byte], code := t.code + 1, blockOpen := true } :=
      ⟨rfl, by rw [hlength, hs.p], hs.codePtr, by rw [hs.code], rfl⟩
    rw [hstore]
    simp only [bind, Option.bind]
    rw [hs.code]
    rw [hs.code] at hput
    by_cases hfull : t.code + 1 = 0xFF
    · rw [if_pos hfull, CobsState.length_flush] at hroom
      rw [if_pos hfull, if_pos hfull]
      exact hput.flush (by dsimp only; omega) hroom false
    · rw [if_neg hfull, if_neg hfull]
      exact ⟨_, rfl, hput⟩

/-- The pointers follow the encoder, as long as it fits. -/
theorem Mirrors.fill (data : List Byte) {m : ℕ} {s : CobsPointers} {t : CobsState}
    (hs : s.Mirrors size t) (ht : t.Placed m)
    (hroom : m + data.length + (m + data.length) / 254 + 1 ≤ size) :
    ∃ s', s.fill data = some s' ∧ s'.Mirrors size (data.foldl cobsStep t) := by
  induction data generalizing m s t with
  | nil => exact ⟨s, rfl, hs⟩
  | cons byte data ih =>
      have hplaced := ht.step byte
      have hlength := hplaced.length_le
      rw [List.length_cons] at hroom
      have hsum : m + 1 + data.length = m + (data.length + 1) := by omega
      obtain ⟨next, hnext, hmirrors⟩ := @hs.step _ _ _ _ ht byte (by omega)
      obtain ⟨s', hs', hlast⟩ := ih hmirrors hplaced (by rwa [hsum])
      exact ⟨s', by rw [CobsPointers.fill, List.foldlM_cons, hnext]; exact hs', hlast⟩

theorem mirrors_start (n : ℕ) : (start n).Mirrors (n + n / 254 + 2) ⟨[0], 0, 1, true⟩ where
  buffer := rfl
  p := rfl
  codePtr := rfl
  code := rfl
  blockOpen := rfl

/-- After some bytes of the input the pointers are within the vector. -/
theorem fill_start (data : List Byte) (taken : ℕ) :
    ∃ s, (start data.length).fill (data.take taken) = some s ∧
      s.Mirrors (data.length + data.length / 254 + 2)
        ((data.take taken).foldl cobsStep ⟨[0], 0, 1, true⟩) := by
  have hle := List.length_take_le' taken data
  exact (mirrors_start _).fill _ CobsState.placed_start (by omega)

end CobsPointers

theorem resize_written {out : List Byte} (rest : List Byte) :
    resize (out ++ rest) out.length = out := by
  have hnone : out.length - (out ++ rest).length = 0 := by
    rw [List.length_append]
    omega
  rw [resize, List.take_left, hnone, List.replicate_zero, List.append_nil]

/-- `CobsEncode` writes only within its vector, the place it takes for the code byte of the next
block included, and what it returns is not longer than its bound. -/
theorem cobsEncodeBuffer_within (data : List Byte) :
    (∃ encoded, cobsEncodeBuffer data = some encoded ∧
      encoded.length ≤ data.length + data.length / 254 + 1 ∧ encoded = cobsEncode data) ∧
    ∀ taken, ∃ s, (CobsPointers.start data.length).fill (data.take taken) = some s ∧
      s.codePtr ≤ data.length + data.length / 254 + 1 ∧
      s.p ≤ data.length + data.length / 254 + 2 := by
  constructor
  · obtain ⟨s, hfill, hs⟩ := CobsPointers.fill_start data data.length
    rw [List.take_length] at hfill hs
    have hplaced := CobsState.placed_fill data CobsState.placed_start
    rw [Nat.zero_add] at hplaced
    have hlength := hplaced.length_le
    rw [cobsEncodeBuffer, cobsEncode, hfill]
    simp only [bind, Option.bind]
    generalize data.foldl cobsStep ⟨[0], 0, 1, true⟩ = t at hs hplaced hlength ⊢
    rw [hs.blockOpen]
    by_cases hopen : t.blockOpen = true
    · have hstore : store s.buffer s.codePtr s.code =
          some (t.out.set t.codePtr t.code ++ List.replicate
            (data.length + data.length / 254 + 2 - t.out.length) 0) := by
        rw [hs.buffer, hs.codePtr, hs.code, store_written hplaced.codePtr_lt]
      have hp : s.p = (t.out.set t.codePtr t.code).length := by rw [hs.p, List.length_set]
      rw [if_pos hopen, if_pos hopen, hstore, hp]
      refine ⟨_, congrArg some (resize_written _), ?_, rfl⟩
      rwa [List.length_set]
    · -- the last place was taken for a block that stays empty, and is given back
      have hne : t.out ≠ [] := List.ne_nil_of_length_pos (Nat.zero_lt_of_lt hplaced.codePtr_lt)
      have hlast : t.out = t.out.dropLast ++ [t.out.getLast hne] :=
        (List.dropLast_concat_getLast hne).symm
      obtain ⟨rest, hbuffer⟩ : ∃ rest, s.buffer = t.out.dropLast ++ rest :=
        ⟨_, by rw [hs.buffer, ← List.append_assoc, ← hlast]⟩
      have hp : s.p - 1 = t.out.dropLast.length := by rw [hs.p, List.length_dropLast]
      rw [if_neg hopen, if_neg hopen, hbuffer, hp]
      refine ⟨_, congrArg some (resize_written rest), ?_, rfl⟩
      rw [List.length_dropLast]
      omega
  · intro taken
    obtain ⟨s, hfill, hs⟩ := CobsPointers.fill_start data taken
    have hplaced := CobsState.placed_fill (data.take taken) CobsState.placed_start
    rw [Nat.zero_add] at hplaced
    have hlength := hplaced.length_le
    have hptr := hplaced.codePtr_lt
    have hle := List.length_take_le' taken data
    refine ⟨s, hfill, ?_, ?_⟩
    · rw [hs.codePtr]
      omega
    · rw [hs.p]
      omega

end VisioSchema.Wire

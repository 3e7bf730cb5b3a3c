import VisioSchema.Wire.Codec

/-!
# COBS

`CobsDecode`, and what `cobsEncode` and it do to blocks: an encoded run is a list of blocks, each
a code byte and the nonzero bytes it announces.  `Block` carries the bounds, `Block.join` is what
the blocks say, and the encoder emits exactly the canonical lists of blocks.

## Strategy

* **Decoding** is reading blocks: the decoder joins what the blocks say (`cobsDecode_encoded`),
  and whatever it accepts is a list of blocks (`exists_blocks`).
* **Canonical lists** are told apart by what they say (`Canonical.join_injective`), since the
  first block can be read off it (`run_eq_take`).
* **Encoding** emits a canonical list that says its input (`cobsEncode_blocks`).  Between two
  bytes the encoder stands behind closed blocks and an open one (`CobsState.Encodes`), and each
  byte keeps that form: it goes into the open block, or closes it.

The bijection and its exception follow from the three.
-/

namespace VisioSchema.Wire

/-! ## The decoder -/

/-- The loop of `CobsDecode` over what is left, `encoded[i..]`. -/
def cobsDecodeLoop : List Byte → List Byte → Option (List Byte)
  | [], out => some out
  | code :: more, out =>
      let run := more.take (code.toNat - 1)
      let rest := more.drop (code.toNat - 1)
      if code = 0 then none
      else if more.length < code.toNat - 1 then none
      else if 0 ∈ run then none
      -- An implicit zero, unless this was the last block or a full one.
      else cobsDecodeLoop rest (out ++ run ++ if rest ≠ [] ∧ code ≠ 0xFF then [0] else [])
  termination_by encoded => encoded.length
  decreasing_by exact Nat.lt_succ_of_le (List.drop_sublist _ _).length_le

/-- `CobsDecode` into an empty vector; `none` is its `false`. -/
def cobsDecode (encoded : List Byte) : Option (List Byte) := cobsDecodeLoop encoded []

/-! ## Blocks -/

/-- A code byte announces at most 254 nonzero bytes. -/
structure Block where
  run : List Byte
  nonzero : 0 ∉ run
  short : run.length ≤ 254

namespace Block

def code (b : Block) : Byte := UInt8.ofNat (b.run.length + 1)

def full (b : Block) : Prop := b.run.length = 254

instance (b : Block) : Decidable b.full := inferInstanceAs (Decidable (b.run.length = 254))

def bytes (b : Block) : List Byte := b.code :: b.run

def empty : Block := ⟨[], by simp, by simp⟩

/-- What a list of blocks says: a zero between two blocks unless the first is full. -/
def join : List Block → List Byte
  | [] => []
  | [b] => b.run
  | b :: c :: rest => b.run ++ (if b.full then [] else [0]) ++ join (c :: rest)

/-- The blocks that the encoder emits: at least one, and no empty one at the end
behind a full one. -/
structure Canonical (blocks : List Block) : Prop where
  ne_nil : blocks ≠ []
  last_ne : ∀ front b, b.full → blocks ≠ front ++ [b, empty]

/-- The encoded run. -/
def encoded (blocks : List Block) : List Byte := blocks.flatMap bytes

theorem ext_run {b c : Block} (hrun : b.run = c.run) : b = c := by
  cases b
  cases c
  cases hrun
  rfl

theorem code_toNat (b : Block) : b.code.toNat = b.run.length + 1 := by
  have hshort := b.short
  rw [code, UInt8.toNat_ofNat']
  omega

theorem code_ne_zero (b : Block) : b.code ≠ 0 := by
  intro hzero
  have htoNat := b.code_toNat
  rw [hzero] at htoNat
  exact absurd htoNat (by simp)

theorem code_eq_iff (b : Block) : b.code = 0xFF ↔ b.full := by
  rw [← UInt8.toNat_inj, code_toNat]
  change b.run.length + 1 = 255 ↔ b.run.length = 254
  omega

theorem encoded_cons (b : Block) (rest : List Block) :
    encoded (b :: rest) = b.code :: (b.run ++ encoded rest) := List.flatMap_cons ..

theorem encoded_append (first second : List Block) :
    encoded (first ++ second) = encoded first ++ encoded second := List.flatMap_append

theorem encoded_eq_nil_iff {blocks : List Block} : encoded blocks = [] ↔ blocks = [] := by
  cases blocks with
  | nil => simp [encoded]
  | cons b rest => simp [encoded_cons]

theorem zero_not_mem_encoded (blocks : List Block) : 0 ∉ encoded blocks := by
  induction blocks with
  | nil => simp [encoded]
  | cons b rest ih =>
      rw [encoded_cons, List.mem_cons, List.mem_append, not_or, not_or]
      exact ⟨b.code_ne_zero.symm, b.nonzero, ih⟩

/-! ### Decoding blocks -/

/-- One turn of the decoder's loop on a block. -/
theorem cobsDecodeLoop_block (b : Block) (rest out : List Byte) :
    cobsDecodeLoop (b.code :: (b.run ++ rest)) out =
      cobsDecodeLoop rest (out ++ b.run ++ if rest ≠ [] ∧ ¬b.full then [0] else []) := by
  have hlength : b.code.toNat - 1 = b.run.length := by rw [code_toNat]; rfl
  rw [cobsDecodeLoop]
  simp only [hlength, List.take_left, List.drop_left, b.code_ne_zero, b.nonzero, ne_eq,
    b.code_eq_iff, List.length_append, if_false]
  rw [if_neg (by omega)]

theorem cobsDecodeLoop_encoded (blocks : List Block) (out : List Byte) :
    cobsDecodeLoop (encoded blocks) out = some (out ++ join blocks) := by
  induction blocks generalizing out with
  | nil => simp [encoded, cobsDecodeLoop, join]
  | cons b rest ih =>
      rw [encoded_cons, cobsDecodeLoop_block, ih]
      cases rest with
      | nil => simp [join, encoded]
      | cons c rest =>
          have hmore : encoded (c :: rest) ≠ [] := by simp [encoded_cons]
          by_cases hfull : b.full <;> simp [join, hmore, hfull]

theorem cobsDecode_encoded (blocks : List Block) :
    cobsDecode (encoded blocks) = some (join blocks) := by
  rw [cobsDecode, cobsDecodeLoop_encoded, List.nil_append]

/-- Whatever the decoder accepts is a list of blocks. -/
theorem exists_blocks {bytes out decoded : List Byte}
    (hdecoded : cobsDecodeLoop bytes out = some decoded) : ∃ blocks, bytes = encoded blocks := by
  induction bytes, out using cobsDecodeLoop.induct with
  | case1 out => exact ⟨[], rfl⟩
  | case2 more out => simp [cobsDecodeLoop] at hdecoded
  | case3 code more out hcode hlong =>
      rw [cobsDecodeLoop, if_neg hcode, if_pos hlong] at hdecoded
      cases hdecoded
  | case4 code more out run hcode hfits hzero =>
      rw [cobsDecodeLoop, if_neg hcode, if_neg hfits, if_pos hzero] at hdecoded
      cases hdecoded
  | case5 code more out run rest hcode hfits hnonzero ih =>
      rw [cobsDecodeLoop, if_neg hcode, if_neg hfits, if_neg hnonzero] at hdecoded
      obtain ⟨blocks, hblocks⟩ := ih hdecoded
      have hlt := code.toNat_lt
      have hpos : code.toNat ≠ 0 := fun hnone => hcode (UInt8.toNat_inj.mp hnone)
      have hlength : run.length = code.toNat - 1 := by
        simp only [run, List.length_take]
        omega
      let b : Block := ⟨run, hnonzero, by omega⟩
      have hcode' : b.code = code := by
        rw [← UInt8.toNat_inj, code_toNat]
        change run.length + 1 = code.toNat
        omega
      refine ⟨b :: blocks, ?_⟩
      rw [encoded_cons, hcode', ← hblocks]
      simp only [b, run, rest, List.take_append_drop]

/-! ### Canonical lists -/

theorem encoded_injective {first second : List Block} (heq : encoded first = encoded second) :
    first = second := by
  induction first generalizing second with
  | nil => exact (encoded_eq_nil_iff.mp heq.symm).symm
  | cons b rest ih =>
      cases second with
      | nil => exact absurd (encoded_eq_nil_iff.mp heq) (by simp)
      | cons c others =>
          rw [encoded_cons, encoded_cons, List.cons.injEq] at heq
          obtain ⟨hcode, hbytes⟩ := heq
          have hlength : b.run.length = c.run.length := by
            have htoNat := congrArg UInt8.toNat hcode
            rw [code_toNat, code_toNat] at htoNat
            omega
          obtain ⟨hrun, hrest⟩ := List.append_inj hbytes hlength
          rw [ext_run hrun, ih hrest]

theorem Canonical.tail {b c : Block} {rest : List Block} (h : Canonical (b :: c :: rest)) :
    Canonical (c :: rest) where
  ne_nil := List.cons_ne_nil c rest
  last_ne front d hfull heq := h.last_ne (b :: front) d hfull (by rw [heq, List.cons_append])

/-- Something is said after a full block that is not the last. -/
theorem Canonical.join_ne_nil {b c : Block} {rest : List Block} (h : Canonical (b :: c :: rest))
    (hfull : b.full) : join (c :: rest) ≠ [] := by
  cases rest with
  | nil =>
      intro hnone
      exact h.last_ne [] b hfull (by rw [ext_run (b := c) (c := empty) hnone]; rfl)
  | cons d others =>
      by_cases hc : c.full
      · have hlong : c.run ≠ [] := by
          intro hnone
          rw [full, hnone] at hc
          cases hc
        simp [join, hlong]
      · simp [join, hc]

theorem takeWhile_run (b : Block) (rest : List Byte) :
    (b.run ++ rest).takeWhile (· ≠ 0) = b.run ++ rest.takeWhile (· ≠ 0) := by
  refine List.takeWhile_append_of_pos fun x hx => decide_eq_true ?_
  rintro rfl
  exact b.nonzero hx

/-- The first block can be read off what the blocks say. -/
theorem run_eq_take (b : Block) (rest : List Block) :
    b.run = ((join (b :: rest)).takeWhile (· ≠ 0)).take 254 := by
  cases rest with
  | nil =>
      have hself := b.takeWhile_run []
      rw [List.append_nil, List.takeWhile_nil, List.append_nil] at hself
      rw [join, hself, List.take_of_length_le b.short]
  | cons c rest =>
      rw [join, List.append_assoc, takeWhile_run]
      by_cases hfull : b.full
      · rw [List.take_left' hfull]
      · rw [if_neg hfull]
        simp [List.take_of_length_le b.short]

/-- A list of blocks is determined by what it says. -/
theorem Canonical.join_injective {first second : List Block} (hfirst : Canonical first)
    (hsecond : Canonical second) (heq : join first = join second) : first = second := by
  induction first generalizing second with
  | nil => exact absurd rfl hfirst.ne_nil
  | cons b rest ih =>
      cases second with
      | nil => exact absurd rfl hsecond.ne_nil
      | cons c others =>
          obtain rfl : b = c := by
            refine ext_run ?_
            rw [run_eq_take b rest, run_eq_take c others, heq]
          cases rest with
          | nil =>
              cases others with
              | nil => rfl
              | cons d others =>
                  by_cases hfull : b.full
                  · exact absurd (by simpa [join, hfull] using heq) (hsecond.join_ne_nil hfull)
                  · simp [join, hfull] at heq
          | cons c rest =>
              cases others with
              | nil =>
                  by_cases hfull : b.full
                  · exact absurd (by simpa [join, hfull] using heq) (hfirst.join_ne_nil hfull)
                  · simp [join, hfull] at heq
              | cons d others =>
                  rw [join, join] at heq
                  rw [ih hfirst.tail hsecond.tail (List.append_cancel_left heq)]

/-- The exception in terms of bytes. -/
theorem canonical_iff (blocks : List Block) :
    Canonical blocks ↔ encoded blocks ≠ [] ∧
      ¬∃ front run, encoded blocks = front ++ 0xFF :: run ++ [1] ∧ run.length = 254 ∧
        (cobsDecode front).isSome := by
  constructor
  · rintro ⟨hne, hlast⟩
    refine ⟨fun hnone => hne (encoded_eq_nil_iff.mp hnone), ?_⟩
    rintro ⟨front, run, heq, hlength, haccepted⟩
    obtain ⟨decoded, hdecoded⟩ := Option.isSome_iff_exists.mp haccepted
    obtain ⟨blocks', rfl⟩ := exists_blocks hdecoded
    have hnonzero : 0 ∉ run := by
      intro hzero
      exact zero_not_mem_encoded blocks (heq ▸ by simp [hzero])
    let b : Block := ⟨run, hnonzero, Nat.le_of_eq hlength⟩
    have hcode : b.code = 0xFF := b.code_eq_iff.mpr hlength
    refine hlast blocks' b hlength (encoded_injective ?_)
    rw [heq, encoded_append, encoded_cons, hcode]
    simp only [b, List.append_assoc, List.cons_append]
    rfl
  · rintro ⟨hne, hlast⟩
    refine ⟨fun hnone => hne (hnone ▸ rfl), fun front b hfull heq => hlast ?_⟩
    refine ⟨encoded front, b.run, ?_, hfull, by rw [cobsDecode_encoded]; rfl⟩
    rw [heq, encoded_append, encoded_cons, b.code_eq_iff.mpr hfull, List.append_assoc,
      List.cons_append]
    rfl

end Block

/-! ## The encoder -/

open Block

/-- What closed blocks say when another block follows. -/
def said (closed : List Block) : List Byte :=
  closed.flatMap fun b => b.run ++ if b.full then [] else [0]

theorem said_append (first second : List Block) :
    said (first ++ second) = said first ++ said second := List.flatMap_append

theorem said_singleton (b : Block) : said [b] = b.run ++ if b.full then [] else [0] :=
  List.flatMap_singleton _ _

theorem join_append_singleton (closed : List Block) (b : Block) :
    join (closed ++ [b]) = said closed ++ b.run := by
  induction closed with
  | nil => rfl
  | cons c rest ih =>
      cases rest with
      | nil => simp [join, said]
      | cons d rest =>
          rw [List.cons_append, List.cons_append, join, ← List.cons_append, ih]
          simp [said]

/-- The last closed block is full: the open one was opened speculatively. -/
def EndsFull (closed : List Block) : Prop := ∃ b ∈ closed.getLast?, b.full

theorem endsFull_append_singleton (closed : List Block) (b : Block) :
    EndsFull (closed ++ [b]) ↔ b.full := by
  simp [EndsFull]

theorem canonical_append_singleton {closed : List Block} {b : Block}
    (hlast : ¬(b.run = [] ∧ EndsFull closed)) : Canonical (closed ++ [b]) where
  ne_nil := by simp
  last_ne front c hfull heq := by
    have hsplit : closed ++ [b] = front ++ [c] ++ [empty] := by rw [heq, List.append_assoc]; rfl
    obtain ⟨rfl, hb⟩ := List.append_inj' hsplit rfl
    rw [List.singleton_inj] at hb
    exact hlast ⟨hb ▸ rfl, (endsFull_append_singleton front c).mpr hfull⟩

/-- The encoder between two bytes: closed blocks, then an open one whose code byte
is still a placeholder. -/
structure CobsState.Encodes (s : CobsState) (data : List Byte) (closed : List Block)
    (run : List Byte) : Prop where
  out : s.out = encoded closed ++ 0 :: run
  codePtr : s.codePtr = (encoded closed).length
  code : s.code.toNat = run.length + 1
  nonzero : 0 ∉ run
  short : run.length < 254
  data : data = said closed ++ run
  blockOpen : s.blockOpen = false ↔ run = [] ∧ EndsFull closed

namespace CobsState.Encodes

variable {s : CobsState} {data : List Byte} {closed : List Block} {run : List Byte}

/-- `*code_ptr = code` closes the open block. -/
theorem set_code (b : Block) (hout : s.out = encoded closed ++ 0 :: b.run)
    (hptr : s.codePtr = (encoded closed).length) (hcode : s.code = b.code) :
    s.out.set s.codePtr s.code = encoded (closed ++ [b]) := by
  rw [hout, hptr, hcode, List.set_append_right _ _ (Nat.le_refl _), Nat.sub_self,
    List.set_cons_zero, encoded_append]
  simp [encoded, bytes]

/-- A flushed block is followed by an empty open one. -/
theorem flush (b : Block) (flag : Bool) (hout : s.out = encoded closed ++ 0 :: b.run)
    (hptr : s.codePtr = (encoded closed).length) (hcode : s.code = b.code)
    (hdata : data = said (closed ++ [b])) (hflag : flag = false ↔ b.full) :
    (s.flush flag).Encodes data (closed ++ [b]) [] where
  out := by rw [CobsState.flush, set_code b hout hptr hcode]
  codePtr := by
    rw [CobsState.flush, ← set_code b hout hptr hcode, List.length_set]
  code := rfl
  nonzero := List.not_mem_nil
  short := Nat.succ_pos _
  data := by rw [hdata, List.append_nil]
  blockOpen := by
    rw [endsFull_append_singleton, ← hflag]
    simp [CobsState.flush]

/-- One byte: a zero closes the block, and so does the 254th byte of a run. -/
theorem step (h : s.Encodes data closed run) (byte : Byte) :
    ∃ closed' run', (cobsStep s byte).Encodes (data ++ [byte]) closed' run' := by
  by_cases hzero : byte = 0
  · let b : Block := ⟨run, h.nonzero, Nat.le_of_lt h.short⟩
    have hcode : s.code = b.code := by rw [← UInt8.toNat_inj, h.code, code_toNat]
    have hshort : ¬b.full := Nat.ne_of_lt h.short
    refine ⟨closed ++ [b], [], ?_⟩
    rw [cobsStep, if_pos hzero]
    refine flush b true h.out h.codePtr hcode ?_ (by simp [hshort])
    rw [said_append, said_singleton, if_neg hshort, h.data, hzero, List.append_assoc]
  · have hnonzero : 0 ∉ run ++ [byte] := by simp [h.nonzero, Ne.symm hzero]
    have hshort := h.short
    have hcode : (s.code + 1).toNat = (run ++ [byte]).length + 1 := by
      rw [UInt8.toNat_add, h.code, List.length_append]
      change (run.length + 1 + 1) % 256 = run.length + 1 + 1
      omega
    have hout : s.out ++ [byte] = encoded closed ++ 0 :: (run ++ [byte]) := by
      rw [h.out, List.append_assoc, List.cons_append]
    rw [cobsStep, if_neg hzero]
    by_cases hfull : s.code + 1 = 0xFF
    · -- The 254th byte: a fresh block is opened speculatively.
      have hlength : (run ++ [byte]).length = 254 := by
        rw [hfull] at hcode
        exact Nat.succ.inj hcode.symm
      let b : Block := ⟨run ++ [byte], hnonzero, Nat.le_of_eq hlength⟩
      refine ⟨closed ++ [b], [], ?_⟩
      dsimp only
      rw [if_pos hfull]
      refine flush b false hout h.codePtr ?_ ?_ (by simp [full, b, hlength])
      · rw [← UInt8.toNat_inj, hcode, code_toNat]
      · have hb : b.full := hlength
        rw [said_append, said_singleton, if_pos hb, h.data, List.append_nil, List.append_assoc]
    · refine ⟨closed, run ++ [byte], ?_⟩
      dsimp only
      rw [if_neg hfull]
      exact
        { out := hout
          codePtr := h.codePtr
          code := hcode
          nonzero := hnonzero
          short := by
            have hne : (s.code + 1).toNat ≠ 255 := fun h255 =>
              hfull (UInt8.toNat_inj.mp h255)
            rw [List.length_append] at hcode ⊢
            change _ = run.length + 1 + 1 at hcode
            change run.length + 1 < 254
            omega
          data := by rw [h.data, List.append_assoc]
          blockOpen := by simp }

theorem foldl (h : s.Encodes data closed run) (bytes : List Byte) :
    ∃ closed' run', (bytes.foldl cobsStep s).Encodes (data ++ bytes) closed' run' := by
  induction bytes generalizing s data closed run with
  | nil => exact ⟨closed, run, by rwa [List.append_nil]⟩
  | cons byte bytes ih =>
      obtain ⟨closed', run', hstep⟩ := h.step byte
      obtain ⟨closed'', run'', hrun⟩ := ih hstep
      exact ⟨closed'', run'', by rwa [List.append_assoc] at hrun⟩

end CobsState.Encodes

/-- The encoder emits a canonical list of blocks that says its input. -/
theorem cobsEncode_blocks (data : List Byte) :
    ∃ blocks, Canonical blocks ∧ cobsEncode data = encoded blocks ∧ join blocks = data := by
  have hinit : CobsState.Encodes ⟨[0], 0, 1, true⟩ [] [] [] :=
    ⟨rfl, rfl, rfl, List.not_mem_nil, Nat.succ_pos _, rfl, by simp [EndsFull]⟩
  obtain ⟨closed, run, hs⟩ := hinit.foldl data
  rw [cobsEncode]
  generalize data.foldl cobsStep ⟨[0], 0, 1, true⟩ = s at hs
  cases hopen : s.blockOpen with
  | true =>
      let b : Block := ⟨run, hs.nonzero, Nat.le_of_lt hs.short⟩
      have hcode : s.code = b.code := by rw [← UInt8.toNat_inj, hs.code, code_toNat]
      refine ⟨closed ++ [b], canonical_append_singleton fun hlast => ?_, ?_, ?_⟩
      · rw [hs.blockOpen.mpr hlast] at hopen
        cases hopen
      · exact CobsState.Encodes.set_code b hs.out hs.codePtr hcode
      · rw [join_append_singleton, ← hs.data, List.nil_append]
  | false =>
      -- The input ends behind a full block.
      obtain ⟨rfl, b, hb, hfull⟩ := hs.blockOpen.mp hopen
      obtain ⟨front, rfl⟩ := List.getLast?_eq_some_iff.mp hb
      refine ⟨front ++ [b], canonical_append_singleton fun hlast => ?_, ?_, ?_⟩
      · rw [full, hlast.1] at hfull
        cases hfull
      · simp only [hs.out, List.dropLast_concat, Bool.false_eq_true, if_false]
      · have hdata := hs.data
        rw [said_append, said_singleton, if_pos hfull] at hdata
        rw [join_append_singleton, ← List.nil_append data, hdata]
        simp

/-! ## The codec -/

theorem zero_not_mem_cobsEncode (data : List Byte) : 0 ∉ cobsEncode data := by
  obtain ⟨blocks, -, hencoded, -⟩ := cobsEncode_blocks data
  rw [hencoded]
  exact zero_not_mem_encoded blocks

theorem cobsEncode_ne_nil (data : List Byte) : cobsEncode data ≠ [] := by
  obtain ⟨blocks, hcanonical, hencoded, -⟩ := cobsEncode_blocks data
  rw [hencoded]
  exact fun hnone => hcanonical.ne_nil (encoded_eq_nil_iff.mp hnone)

theorem cobsDecode_cobsEncode (data : List Byte) : cobsDecode (cobsEncode data) = some data := by
  obtain ⟨blocks, -, hencoded, hjoin⟩ := cobsEncode_blocks data
  rw [hencoded, cobsDecode_encoded, hjoin]

/-- Among the runs that decode to `data`, the encoder's is the canonical one. -/
theorem cobsEncode_eq_iff {run data : List Byte} (hdecoded : cobsDecode run = some data) :
    cobsEncode data = run ↔ run ≠ [] ∧
      ¬∃ front full, run = front ++ 0xFF :: full ++ [1] ∧ full.length = 254 ∧
        (cobsDecode front).isSome := by
  obtain ⟨blocks, rfl⟩ := exists_blocks hdecoded
  obtain ⟨emitted, hcanonical, hencoded, hjoin⟩ := cobsEncode_blocks data
  rw [← canonical_iff, hencoded]
  constructor
  · intro heq
    rwa [← encoded_injective heq]
  · intro hblocks
    rw [cobsDecode_encoded, Option.some_inj] at hdecoded
    rw [hcanonical.join_injective hblocks (hjoin.trans hdecoded.symm)]

/-- The codec is a bijection onto the canonical encodings. -/
theorem cobs_bijection :
    (∀ data, 0 ∉ cobsEncode data ∧ cobsDecode (cobsEncode data) = some data) ∧
      ∀ run data, cobsDecode run = some data →
        (cobsEncode data = run ↔ run ≠ [] ∧
          ¬∃ front full, run = front ++ 0xFF :: full ++ [1] ∧ full.length = 254 ∧
            (cobsDecode front).isSome) :=
  ⟨fun data => ⟨zero_not_mem_cobsEncode data, cobsDecode_cobsEncode data⟩,
    fun _ _ hdecoded => cobsEncode_eq_iff hdecoded⟩

/-- A run of two blocks is what the encoder emits for its data; a full block in front of an empty
one is accepted, but not emitted. -/
theorem cobs_bijection_blocks :
    cobsEncode [7, 9, 0, 4] = [3, 7, 9, 2, 4] ∧
      cobsEncode (List.replicate 254 1) ≠ 0xFF :: List.replicate 254 1 ++ [1] := by
  constructor
  · refine (cobs_bijection.2 [3, 7, 9, 2, 4] [7, 9, 0, 4] (by decide +kernel)).mpr ⟨by simp, ?_⟩
    rintro ⟨front, full, hrun, hfull, -⟩
    have hlength := congrArg List.length hrun
    simp only [List.length_append, List.length_cons, List.length_nil, hfull] at hlength
    omega
  · intro hemitted
    refine ((cobs_bijection.2 _ (List.replicate 254 1) (by decide +kernel)).mp hemitted).2 ?_
    exact ⟨[], List.replicate 254 1, rfl, List.length_replicate, by decide +kernel⟩

end VisioSchema.Wire

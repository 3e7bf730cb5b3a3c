import VisioSchema.Wire.Image

/-!
# Expanding an image

`encode` and `decode_stream` of `wire/image.py`.  The source may cut its reads short, and zlib
may give the output of a block in pieces and leave input for the next call; what arrives in
`dest` is checked against the length, the digest and the magic of the image only at the end, so a
caller does not use it before `decode_stream` returns.

SHA-256, AES-CTR and zlib are the libraries'.

## Strategy

* **Whatever arrives** (`decodeStream_safe`).  `Consistent` ties the variables of the loop to
  what was written, and `emit` keeps it; so do the loops around it, and the checks at the end
  then speak of what was written (`verify_ok`).
* **However it is cut.**  The header is collected from any reads (`readHeader_eq`), and the
  blocks are the rest of the source (`Source.blocks_flatten`).  A raw image is thus judged by its
  plaintext as a whole (`decodeStream_raw`).  Of zlib it is only asked that it inverts one stream
  piece by piece (`Inflater.Inverts`), and the loop calls it until a block is used up
  (`inflate_ready`).
* **The round trip** (`decodeStream_encode`) puts the two together behind the header that
  `encode` writes (`encode_ok`).
-/

namespace VisioSchema.Wire.Image

open VisioSchema.Library

/-! ## The libraries -/

/-- `hashlib`, the `cryptography` package and `gzip.compress(…, 6, mtime=0)`; AES-CTR as the byte
that it has at a place of the stream under a key and an IV. -/
structure Libraries where
  sha256 : List Byte → { digest : List Byte // digest.length = 32 }
  aesCtr : List Byte → List Byte → ℕ → Byte
  gzipCompress : List Byte → List Byte

/-- `zlib.decompressobj(16 + zlib.MAX_WBITS)`, in its state after the calls so far.  A call with
input before the end of the stream takes some of it or gives output. -/
structure Inflater (σ : Type*) where
  init : σ
  eof : σ → Bool
  unconsumedTail : σ → List Byte
  unusedData : σ → List Byte
  decompress : σ → List Byte → ℕ → Except String (List Byte × σ)
  progress : ∀ s block bytes next, eof s = false → block ≠ [] →
    decompress s block 65536 = .ok (bytes, next) →
      (unconsumedTail next).length ≤ block.length ∧
        (bytes = [] → (unconsumedTail next).length < block.length)

/-! ## Encoding -/

/-- `RKFW`. -/
def rkfw : List Byte := [82, 75, 70, 87]

/-- The key stream: the counter starts at zero behind the nonce. -/
def keyStream (lib : Libraries) (key nonce : List Byte) : ℕ → Byte :=
  lib.aesCtr key (nonce ++ List.replicate 8 0)

/-- `Cipher.update` at a place of the stream. -/
def mixed (stream : ℕ → Byte) (place : ℕ) (bytes : List Byte) : List Byte :=
  mixFrom (· ^^^ ·) stream place bytes

/-- The OS byte of a gzip stream is set to 255. -/
def normalizeOs (body : List Byte) : List Byte := body.take 9 ++ [255] ++ body.drop 10

/-- `encode`; `random` is what `os.urandom(8)` gives. -/
def encode (lib : Libraries) (plain key : List Byte) (compression : String)
    (nonce : Option (List Byte)) (random : List Byte) : Except String (List Byte) :=
  if key.length ≠ 32 then .error "bundle key must be 32 bytes"
  else if compression ≠ "none" ∧ compression ≠ "gzip" then
    .error ("unsupported compression " ++ compression)
  else if compression = "gzip" ∧ plain.length > maxImageBytes then
    .error "expanded image exceeds size limit"
  else
    let nonce := nonce.getD random
    if nonce.length ≠ 8 then .error "nonce must be 8 bytes"
    else if plain.length ≥ 18446744073709551616 then
      .error "int too large to convert"
    else
      let fmt := if compression = "gzip" then gzip else raw
      let header := magic ++ [fmt, 0, 0, 0] ++ nonce ++ packLe 8 plain.length ++
        (lib.sha256 plain).val
      let body := if fmt = gzip then normalizeOs (lib.gzipCompress plain) else plain
      .ok (header ++ mixed (keyStream lib key nonce) 0 body)

/-! ## The source -/

/-- A byte source: what is left of it, and how much the next reads give at most. -/
structure Source where
  rest : List Byte
  sizes : List ℕ
  deriving Repr

/-- `source.read(n)`: nothing only at the end. -/
def Source.read (source : Source) (n : ℕ) : List Byte × Source :=
  let size := max 1 (min n (source.sizes.headD n))
  (source.rest.take size, ⟨source.rest.drop size, source.sizes.tail⟩)

/-- The loop that collects the header; each turn reads a byte at least. -/
def readHeader : ℕ → List Byte → Source → Except String (List Byte × Source)
  | 0, got, source => .ok (got, source)
  | turns + 1, got, source =>
      if got.length < headerBytes then
        match source.read (headerBytes - got.length) with
        | ([], _) => .error "truncated VENC header"
        | (block, source) => readHeader turns (got ++ block) source
      else .ok (got, source)

/-- `iter(lambda: source.read(BLOCK_BYTES), b"")`. -/
def Source.blocks : ℕ → Source → List (List Byte)
  | 0, _ => []
  | turns + 1, source =>
      match source.read 65536 with
      | ([], _) => []
      | (block, source) => block :: Source.blocks turns source

/-! ## Decoding -/

/-- The variables of `decode_stream`, with what was written to `dest`. -/
structure Output where
  digest : List Byte := []
  produced : ℕ := 0
  magic : List Byte := []
  dest : List Byte := []
  deriving DecidableEq, Repr

/-- `emit`. -/
def emit (header : Header) (out : Output) (block : List Byte) : Except String Output :=
  if out.produced + block.length > header.rawBytes then
    .error "expanded image exceeds declared length"
  else .ok
    { digest := out.digest ++ block
      produced := out.produced + block.length
      magic := if out.magic.length < 4 then out.magic ++ block.take (4 - out.magic.length)
        else out.magic
      dest := out.dest ++ block }

theorem emit_produced {header : Header} {out out' : Output} {block : List Byte}
    (hemit : emit header out block = .ok out') :
    out'.produced = out.produced + block.length ∧ out'.produced ≤ header.rawBytes := by
  unfold emit at hemit
  by_cases hlong : out.produced + block.length > header.rawBytes
  · rw [if_pos hlong] at hemit
    cases hemit
  · rw [if_neg hlong] at hemit
    obtain rfl := Except.ok.inj hemit
    exact ⟨rfl, Nat.le_of_not_lt hlong⟩

variable {σ : Type*}

set_option linter.unusedVariables false in
/-- The `while` loop of `consume`; an error comes with what was written before it. -/
def inflate (z : Inflater σ) (header : Header) (s : σ) (out : Output) (block : List Byte) :
    Except (String × Output) (σ × Output) :=
  if hblock : block = [] then .ok (s, out)
  else if heof : z.eof s = true then .error ("trailing data after gzip image", out)
  else
    match hinflated : z.decompress s block 65536 with
    | .error exc => .error ("invalid gzip image: " ++ exc, out)
    | .ok (bytes, next) =>
        match hemit : emit header out bytes with
        | .error exc => .error (exc, out)
        | .ok out' =>
            if z.unusedData next ≠ [] then .error ("trailing data after gzip image", out')
            else inflate z header next out' (z.unconsumedTail next)
  termination_by (header.rawBytes - out.produced) + block.length
  decreasing_by
    obtain ⟨hproduced, hbound⟩ := emit_produced hemit
    obtain ⟨hle, hlt⟩ := z.progress s block bytes next (by simpa using heof) hblock hinflated
    cases bytes with
    | nil =>
        have hshorter := hlt rfl
        rw [List.length_nil] at hproduced
        omega
    | cons byte rest =>
        rw [List.length_cons] at hproduced
        omega

/-- `consume`. -/
def consume (z : Inflater σ) (header : Header) (state : σ × Output) (block : List Byte) :
    Except (String × Output) (σ × Output) :=
  if header.format = gzip then inflate z header state.1 state.2 block
  else match emit header state.2 block with
    | .error exc => .error (exc, state.2)
    | .ok out => .ok (state.1, out)

/-- The loop over the blocks, each decrypted at its place. -/
def consumeAll (z : Inflater σ) (header : Header) (stream : ℕ → Byte) :
    ℕ → σ × Output → List (List Byte) → Except (String × Output) (σ × Output)
  | _, state, [] => .ok state
  | place, state, block :: rest =>
      match consume z header state (mixed stream place block) with
      | .error failed => .error failed
      | .ok state => consumeAll z header stream (place + block.length) state rest

/-- The checks behind the loop. -/
def verify (lib : Libraries) (z : Inflater σ) (header : Header) (state : σ × Output) :
    Except String Header :=
  if header.format = gzip ∧ z.eof state.1 = false then .error "truncated gzip image"
  else if state.2.produced ≠ header.rawBytes then .error "plaintext length mismatch"
  else if lib.sha256 state.2.digest ≠ header.rawSha256 then
    .error "sha256 mismatch — wrong key or corrupt image"
  else if state.2.magic ≠ rkfw then .error "decrypted bytes are not an RKFW update.img"
  else .ok header

/-- `decode_stream`, with what was written to `dest` also where it raises. -/
def decodeStream (lib : Libraries) (z : Inflater σ) (source : Source) (key : List Byte)
    (allowGzip : Bool) (maxBytes : ℕ) : Except String Header × List Byte :=
  if key.length ≠ 32 then (.error "bundle key must be 32 bytes", [])
  else match readHeader headerBytes [] source with
    | .error exc => (.error exc, [])
    | .ok (head, source) =>
        match parseHeader maxBytes head with
        | .error exc => (.error exc, [])
        | .ok header =>
            if header.format = gzip ∧ allowGzip = false then
              (.error "compressed images are not supported by this device", [])
            else
              -- `finalize` of a counter mode has nothing left to give
              let blocks := source.blocks (source.rest.length + 1) ++ [[]]
              match consumeAll z header (keyStream lib key header.nonce.val) 0 (z.init, {})
                  blocks with
              | .error (exc, out) => (.error exc, out.dest)
              | .ok state => (verify lib z header state, state.2.dest)

/-! ## What is kept on the way -/

/-- The variables describe what was written, which never exceeds the declared length. -/
structure Consistent (header : Header) (out : Output) : Prop where
  digest : out.digest = out.dest
  produced : out.produced = out.dest.length
  magic : out.magic = out.dest.take 4
  bound : out.dest.length ≤ header.rawBytes

theorem consistent_init (header : Header) : Consistent header {} :=
  ⟨rfl, rfl, rfl, Nat.zero_le _⟩

/-- The first four bytes, collected piece by piece. -/
theorem collect_take {α : Type*} (n : ℕ) (before block : List α) :
    (if (before.take n).length < n then
      before.take n ++ block.take (n - (before.take n).length) else before.take n) =
      (before ++ block).take n := by
  rw [List.take_append]
  by_cases hshort : before.length < n
  · have htake : before.take n = before := List.take_of_length_le (Nat.le_of_lt hshort)
    rw [htake, if_pos hshort]
  · have hlength : (before.take n).length = n := by
      rw [List.length_take]
      omega
    rw [hlength, if_neg (Nat.lt_irrefl n), Nat.sub_eq_zero_of_le (Nat.le_of_not_lt hshort),
      List.take_zero, List.append_nil]

theorem Consistent.emit {header : Header} {out out' : Output} {block : List Byte}
    (hout : Consistent header out) (hemit : emit header out block = .ok out') :
    Consistent header out' ∧ out'.dest = out.dest ++ block := by
  obtain ⟨hproduced, hbound⟩ := emit_produced hemit
  unfold Image.emit at hemit
  by_cases hlong : out.produced + block.length > header.rawBytes
  · rw [if_pos hlong] at hemit
    cases hemit
  · rw [if_neg hlong] at hemit
    obtain rfl := Except.ok.inj hemit
    refine ⟨⟨?_, ?_, ?_, ?_⟩, rfl⟩
    · exact congrArg (· ++ block) hout.digest
    · exact (congrArg (· + block.length) hout.produced).trans List.length_append.symm
    · dsimp only
      rw [hout.magic]
      exact collect_take 4 out.dest block
    · dsimp only
      rw [List.length_append, ← hout.produced]
      exact Nat.le_of_not_lt hlong

/-- A block that fits is written. -/
theorem Consistent.emit_eq {header : Header} {out : Output} (hout : Consistent header out)
    (block : List Byte) :
    (out.dest.length + block.length ≤ header.rawBytes →
      ∃ out', Image.emit header out block = .ok out') ∧
    (header.rawBytes < out.dest.length + block.length →
      Image.emit header out block = .error "expanded image exceeds declared length") := by
  unfold Image.emit
  rw [hout.produced]
  constructor
  · intro hfits
    rw [if_neg (Nat.not_lt.mpr hfits)]
    exact ⟨_, rfl⟩
  · intro hlong
    exact if_pos hlong

/-- What was written when a stage ended, either way. -/
def writtenBy : Except (String × Output) (σ × Output) → Output
  | .error failed => failed.2
  | .ok state => state.2

theorem Consistent.inflate {header : Header} (z : Inflater σ) (s : σ) {out : Output}
    (hout : Consistent header out) (block : List Byte) :
    Consistent header (writtenBy (inflate z header s out block)) := by
  fun_induction Image.inflate z header s out block with
  | case1 => exact hout
  | case2 => exact hout
  | case3 => exact hout
  | case4 => exact hout
  | case5 s out block _ _ bytes next hinflated out' hemit => exact (hout.emit hemit).1
  | case6 s out block _ _ bytes next hinflated out' hemit _ ih => exact ih (hout.emit hemit).1

theorem Consistent.consume {header : Header} (z : Inflater σ) (s : σ) {out : Output}
    (hout : Consistent header out) (block : List Byte) :
    Consistent header (writtenBy (consume z header (s, out) block)) := by
  unfold Image.consume
  by_cases hgzip : header.format = gzip
  · rw [if_pos hgzip]
    exact hout.inflate z s block
  · rw [if_neg hgzip]
    dsimp only
    cases hemit : Image.emit header out block with
    | error exc => exact hout
    | ok out => exact (hout.emit hemit).1

theorem Consistent.consumeAll {header : Header} (z : Inflater σ) (stream : ℕ → Byte)
    (blocks : List (List Byte)) (s : σ) {out : Output} (hout : Consistent header out)
    (place : ℕ) :
    Consistent header (writtenBy (consumeAll z header stream place (s, out) blocks)) := by
  induction blocks generalizing s out place with
  | nil => exact hout
  | cons block rest ih =>
      have hnext := hout.consume z s (mixed stream place block)
      unfold Image.consumeAll
      cases hconsume : Image.consume z header (s, out) (mixed stream place block) with
      | error failed =>
          rw [hconsume] at hnext
          exact hnext
      | ok state =>
          rw [hconsume] at hnext
          exact ih state.1 hnext _

/-! ## Reading -/

theorem Source.read_spec (source : Source) {n : ℕ} (hn : 0 < n) :
    (source.read n).1 ++ (source.read n).2.rest = source.rest ∧
      (source.read n).1.length ≤ n ∧
      ((source.read n).1 = [] ↔ source.rest = []) := by
  unfold Source.read
  refine ⟨List.take_append_drop _ _, ?_, ?_⟩
  · rw [List.length_take]
    omega
  · have hsize : max 1 (min n (source.sizes.headD n)) ≠ 0 := by omega
    simp only [List.take_eq_nil_iff, hsize, false_or]

/-- The header is collected from whatever the reads give. -/
theorem readHeader_eq (turns : ℕ) (got : List Byte) (source : Source)
    (hturns : 56 ≤ got.length + turns) (hgot : got.length ≤ 56) :
    (got.length + source.rest.length < 56 →
      readHeader turns got source = .error "truncated VENC header") ∧
    (56 ≤ got.length + source.rest.length →
      ∃ left, readHeader turns got source = .ok ((got ++ source.rest).take 56, left) ∧
        left.rest = (got ++ source.rest).drop 56) := by
  induction turns generalizing got source with
  | zero =>
      have hlength : got.length = 56 := by omega
      refine ⟨fun hshort => by omega, fun _ => ⟨source, ?_, ?_⟩⟩
      · rw [readHeader, ← hlength, List.take_left]
      · rw [← hlength, List.drop_left]
  | succ turns ih =>
      by_cases hmore : got.length < 56
      · obtain ⟨hcut, hsize, hempty⟩ := source.read_spec (Nat.sub_pos_of_lt hmore)
        have hif : got.length < headerBytes := hmore
        cases hread : source.read (56 - got.length) with
        | mk block left =>
            rw [hread] at hcut hsize hempty
            dsimp only at hcut hsize hempty
            have hturn : readHeader (turns + 1) got source =
                match source.read (56 - got.length) with
                | ([], _) => .error "truncated VENC header"
                | (block, source) => readHeader turns (got ++ block) source := if_pos hif
            rw [hturn, hread]
            cases block with
            | nil =>
                have hrest : source.rest = [] := hempty.mp rfl
                rw [hrest]
                exact ⟨fun _ => rfl, fun hlong => absurd hlong (by simp; omega)⟩
            | cons byte block =>
                rw [← hcut, ← List.append_assoc]
                rw [List.length_cons] at hsize
                have hnext := ih (got ++ byte :: block) left
                  (by simp only [List.length_append, List.length_cons]; omega)
                  (by simp only [List.length_append, List.length_cons]; omega)
                simp only [List.length_append, Nat.add_assoc] at hnext ⊢
                exact hnext
      · have hlength : got.length = 56 := by omega
        have hif : ¬ got.length < headerBytes := hmore
        refine ⟨fun hshort => by omega, fun _ => ⟨source, ?_, ?_⟩⟩
        · rw [readHeader, if_neg hif, ← hlength, List.take_left]
        · rw [← hlength, List.drop_left]

/-- The blocks are the rest of the source. -/
theorem Source.blocks_flatten (turns : ℕ) (source : Source) (hturns : source.rest.length < turns) :
    (source.blocks turns).flatten = source.rest := by
  induction turns generalizing source with
  | zero => omega
  | succ turns ih =>
      obtain ⟨hcut, -, hempty⟩ := source.read_spec (n := 65536) (by decide)
      cases hread : source.read 65536 with
      | mk block left =>
          rw [hread] at hcut hempty
          dsimp only at hcut hempty
          rw [Source.blocks, hread]
          cases block with
          | nil => exact (hempty.mp rfl).symm
          | cons byte block =>
              have hless : left.rest.length < turns := by
                rw [← hcut, List.length_append, List.length_cons] at hturns
                omega
              dsimp only
              rw [List.flatten_cons, ih left hless]
              exact hcut

section Decode

variable {source : Source} {key : List Byte} {maxBytes : ℕ} {header : Header}

/-- Behind an accepted header the rest of the source is decrypted in blocks, however it is cut. -/
theorem decodeStream_of_header (lib : Libraries) (z : Inflater σ) (allowGzip : Bool)
    (hkey : key.length = 32)
    (hparse : parseHeader maxBytes (source.rest.take 56) = .ok header) :
    ∃ blocks : List (List Byte), blocks.flatten = source.rest.drop 56 ∧
      decodeStream lib z source key allowGzip maxBytes =
        if header.format = gzip ∧ allowGzip = false then
          (.error "compressed images are not supported by this device", [])
        else
          match consumeAll z header (keyStream lib key header.nonce.val) 0 (z.init, {}) blocks with
          | .error (exc, out) => (.error exc, out.dest)
          | .ok state => (verify lib z header state, state.2.dest) := by
  obtain ⟨hlong, -, -⟩ := parseHeader_ok_iff.mp hparse
  rw [List.length_take] at hlong
  obtain ⟨left, hread, hleft⟩ := (readHeader_eq 56 [] source (Nat.le_refl _) (by simp)).2
    (by rw [List.length_nil]; omega)
  rw [List.nil_append] at hread hleft
  have hread : readHeader headerBytes [] source = .ok (source.rest.take 56, left) := hread
  refine ⟨left.blocks (left.rest.length + 1) ++ [[]], ?_, ?_⟩
  · rw [List.flatten_append, Source.blocks_flatten _ _ (Nat.lt_succ_self _), hleft]
    simp
  · rw [decodeStream, if_neg (not_not.mpr hkey), hread]
    dsimp only
    rw [hparse]

/-- A source whose header is refused leaves nothing written. -/
theorem decodeStream_refused (lib : Libraries) (z : Inflater σ) (key : List Byte)
    (allowGzip : Bool) {exc : String}
    (hparse : parseHeader maxBytes (source.rest.take 56) = .error exc) :
    (∃ exc', (decodeStream lib z source key allowGzip maxBytes).1 = .error exc') ∧
      (decodeStream lib z source key allowGzip maxBytes).2 = [] := by
  unfold decodeStream
  by_cases hkey : key.length = 32
  · rw [if_neg (not_not.mpr hkey)]
    obtain ⟨hshort, hlong⟩ := readHeader_eq 56 [] source (Nat.le_refl _) (by simp)
    rw [List.length_nil, Nat.zero_add] at hshort hlong
    by_cases hlength : source.rest.length < 56
    · have hread : readHeader headerBytes [] source = .error "truncated VENC header" :=
        hshort hlength
      rw [hread]
      exact ⟨⟨_, rfl⟩, rfl⟩
    · obtain ⟨left, hread, -⟩ := hlong (Nat.le_of_not_lt hlength)
      have hread : readHeader headerBytes [] source = .ok (source.rest.take 56, left) := hread
      rw [hread]
      dsimp only
      rw [hparse]
      exact ⟨⟨_, rfl⟩, rfl⟩
  · rw [if_pos hkey]
    exact ⟨⟨_, rfl⟩, rfl⟩

/-- The checks say what was written. -/
theorem verify_ok {lib : Libraries} {z : Inflater σ} {state : σ × Output} {accepted : Header}
    (hstate : Consistent header state.2)
    (hverify : verify lib z header state = .ok accepted) :
    accepted = header ∧ state.2.dest.length = header.rawBytes ∧
      lib.sha256 state.2.dest = header.rawSha256 ∧ state.2.dest.take 4 = rkfw := by
  unfold verify at hverify
  split_ifs at hverify with htruncated hlength hdigest hmagic
  refine ⟨(Except.ok.inj hverify).symm, ?_, ?_, ?_⟩
  · rw [← hstate.produced]
    exact not_not.mp hlength
  · rw [← hstate.digest]
    exact not_not.mp hdigest
  · rw [← hstate.magic]
    exact not_not.mp hmagic

end Decode

/-- However the source is cut and whatever zlib gives: an image that `decode_stream` returns has
the length, the digest and the magic of its header, and what is in `dest` when it raises is never
longer than an accepted header declares; of a compressed image that is at most the limit. -/
theorem decodeStream_safe (lib : Libraries) (z : Inflater σ) (source : Source) (key : List Byte)
    (allowGzip : Bool) (maxBytes : ℕ) :
    let r := decodeStream lib z source key allowGzip maxBytes
    (∀ header, r.1 = .ok header →
      parseHeader maxBytes (source.rest.take 56) = .ok header ∧ r.2.length = header.rawBytes ∧
        lib.sha256 r.2 = header.rawSha256 ∧ r.2.take 4 = rkfw) ∧
    (r.2 ≠ [] → ∃ header, parseHeader maxBytes (source.rest.take 56) = .ok header ∧
      r.2.length ≤ header.rawBytes ∧
        (header.format = gzip → allowGzip = true ∧ header.rawBytes ≤ maxBytes)) := by
  intro r
  cases hparse : parseHeader maxBytes (source.rest.take 56) with
  | error exc =>
      obtain ⟨⟨exc', herror⟩, hempty⟩ := decodeStream_refused lib z key allowGzip hparse
      refine ⟨fun header hok => ?_, fun hne => absurd hempty hne⟩
      rw [show r.1 = .error exc' from herror] at hok
      cases hok
  | ok header =>
      obtain ⟨hlong, haccepted, hfields⟩ := parseHeader_ok_iff.mp hparse
      have hlimit : header.format = gzip → header.rawBytes ≤ maxBytes := by
        rw [← hfields]
        exact haccepted.size
      by_cases hkey : key.length = 32
      · -- Past the header, what is written stays consistent with it block by block, and the verdict
        -- is read off the last state.
        obtain ⟨blocks, -, hdecode⟩ := decodeStream_of_header lib z allowGzip hkey hparse
        have hr : r = _ := hdecode
        by_cases hbarred : header.format = gzip ∧ allowGzip = false
        · rw [hr, if_pos hbarred]
          refine ⟨fun accepted hok => ?_, fun hne => absurd rfl hne⟩
          cases hok
        · have hallow : header.format = gzip → allowGzip = true ∧ header.rawBytes ≤ maxBytes := by
            intro hgzip
            refine ⟨?_, hlimit hgzip⟩
            by_contra hfalse
            exact hbarred ⟨hgzip, by simpa using hfalse⟩
          rw [if_neg hbarred] at hr
          have hrun := (consistent_init header).consumeAll z
            (keyStream lib key header.nonce.val) blocks z.init 0
          cases hall : consumeAll z header (keyStream lib key header.nonce.val) 0 (z.init, {})
              blocks with
          | error failed =>
              rw [hall] at hr hrun
              rw [hr]
              refine ⟨fun accepted hok => ?_, fun _ => ⟨header, rfl, hrun.bound, hallow⟩⟩
              cases hok
          | ok state =>
              rw [hall] at hr hrun
              rw [hr]
              refine ⟨fun accepted hok => ?_, fun _ => ⟨header, rfl, hrun.bound, hallow⟩⟩
              obtain ⟨rfl, hlength, hdigest, hmagic⟩ := verify_ok hrun hok
              exact ⟨rfl, hlength, hdigest, hmagic⟩
      · have hr : r = (.error "bundle key must be 32 bytes", []) := if_pos hkey
        rw [hr]
        refine ⟨fun accepted hok => ?_, fun hne => absurd rfl hne⟩
        cases hok

/-! ## Raw images -/

/-- The blocks of a raw image, decrypted and written, as long as they fit. -/
theorem consumeAll_raw {header : Header} (z : Inflater σ) (hraw : header.format ≠ gzip)
    (stream : ℕ → Byte) (blocks : List (List Byte)) (s : σ) {out : Output}
    (hout : Consistent header out) (place : ℕ) :
    (out.dest.length + blocks.flatten.length ≤ header.rawBytes →
      ∃ out', consumeAll z header stream place (s, out) blocks = .ok (s, out') ∧
        Consistent header out' ∧ out'.dest = out.dest ++ mixed stream place blocks.flatten) ∧
    (header.rawBytes < out.dest.length + blocks.flatten.length →
      ∃ out', consumeAll z header stream place (s, out) blocks =
        .error ("expanded image exceeds declared length", out')) := by
  induction blocks generalizing out place with
  | nil =>
      rw [List.flatten_nil]
      refine ⟨fun _ => ⟨out, rfl, hout, (List.append_nil _).symm⟩, fun hlong => ?_⟩
      exact absurd hout.bound (Nat.not_le.mpr hlong)
  | cons block rest ih =>
      rw [List.flatten_cons, List.length_append]
      obtain ⟨hfits, hlong⟩ := hout.emit_eq (mixed stream place block)
      have hlength : (mixed stream place block).length = block.length := mixFrom_length ..
      rw [hlength] at hfits hlong
      have hconsume : consume z header (s, out) (mixed stream place block) =
          match emit header out (mixed stream place block) with
          | .error exc => .error (exc, out)
          | .ok out => .ok (s, out) := if_neg hraw
      by_cases hblock : out.dest.length + block.length ≤ header.rawBytes
      · obtain ⟨out', hemit⟩ := hfits hblock
        obtain ⟨hout', hdest⟩ := hout.emit hemit
        have hstep : consumeAll z header stream place (s, out) (block :: rest) =
            consumeAll z header stream (place + block.length) (s, out') rest := by
          rw [consumeAll, hconsume, hemit]
        have hwritten : out'.dest.length = out.dest.length + block.length := by
          rw [hdest, List.length_append, hlength]
        obtain ⟨hall, hover⟩ := ih hout' (place + block.length)
        rw [hwritten] at hall hover
        rw [hstep, ← Nat.add_assoc]
        refine ⟨fun htotal => ?_, hover⟩
        obtain ⟨out₂, hrun, hout₂, hdest₂⟩ := hall htotal
        refine ⟨out₂, hrun, hout₂, ?_⟩
        rw [hdest₂, hdest, List.append_assoc, mixed, mixed, mixed, mixFrom_append]
      · have hover : header.rawBytes < out.dest.length + block.length := Nat.lt_of_not_le hblock
        refine ⟨fun htotal => absurd htotal (by omega), fun _ => ⟨out, ?_⟩⟩
        rw [consumeAll, hconsume, hlong hover]

/-- What the checks say of the whole plaintext of a raw image. -/
def rawVerdict (lib : Libraries) (header : Header) (plain : List Byte) : Except String Header :=
  if plain.length > header.rawBytes then .error "expanded image exceeds declared length"
  else if plain.length ≠ header.rawBytes then .error "plaintext length mismatch"
  else if lib.sha256 plain ≠ header.rawSha256 then
    .error "sha256 mismatch — wrong key or corrupt image"
  else if plain.take 4 ≠ rkfw then .error "decrypted bytes are not an RKFW update.img"
  else .ok header

/-- The verdict on a raw image is that on its plaintext as a whole, however it was read. -/
theorem decodeStream_raw (lib : Libraries) (z : Inflater σ) {source : Source} {key : List Byte}
    (allowGzip : Bool) {maxBytes : ℕ} {header : Header} (hkey : key.length = 32)
    (hparse : parseHeader maxBytes (source.rest.take 56) = .ok header)
    (hraw : header.format ≠ gzip) :
    let plain := mixed (keyStream lib key header.nonce.val) 0 (source.rest.drop 56)
    (decodeStream lib z source key allowGzip maxBytes).1 = rawVerdict lib header plain ∧
      (plain.length ≤ header.rawBytes →
        (decodeStream lib z source key allowGzip maxBytes).2 = plain) := by
  intro plain
  obtain ⟨blocks, hblocks, hdecode⟩ := decodeStream_of_header lib z allowGzip hkey hparse
  have hplain : plain.length = blocks.flatten.length := by
    rw [hblocks]
    exact mixFrom_length ..
  obtain ⟨hfits, hlong⟩ := consumeAll_raw z hraw (keyStream lib key header.nonce.val) blocks
    z.init (consistent_init header) 0
  rw [List.length_nil, Nat.zero_add, ← hplain] at hfits hlong
  rw [hdecode, if_neg fun hbarred => hraw hbarred.1]
  unfold rawVerdict
  by_cases hover : plain.length > header.rawBytes
  · obtain ⟨out, hrun⟩ := hlong hover
    rw [hrun, if_pos hover]
    exact ⟨rfl, fun hle => absurd hle (Nat.not_le.mpr hover)⟩
  · obtain ⟨out, hrun, hout, hdest⟩ := hfits (Nat.le_of_not_lt hover)
    rw [List.nil_append, hblocks] at hdest
    rw [hrun, if_neg hover]
    refine ⟨?_, fun _ => hdest⟩
    have hended : ¬ (header.format = gzip ∧ z.eof z.init = false) := fun h => hraw h.1
    unfold verify
    dsimp only
    rw [if_neg hended, hout.produced, hout.digest, hout.magic, hdest]

/-! ## Compressed images -/

/-- How zlib reads one gzip stream: `Ready rest more s` says that in state `s` the input `rest` and
the output `more` are still to come. -/
structure Inflater.Inverts (z : Inflater σ) (compressed plain : List Byte)
    (Ready : List Byte → List Byte → σ → Prop) : Prop where
  start : Ready compressed plain z.init
  going : ∀ rest more s, Ready rest more s → rest ≠ [] → z.eof s = false
  ended : ∀ more s, Ready [] more s → z.eof s = true ∧ more = []
  step : ∀ block later more s, block ≠ [] → Ready (block ++ later) more s →
    ∃ bytes next more', z.decompress s block 65536 = .ok (bytes, next) ∧
      z.unusedData next = [] ∧ more = bytes ++ more' ∧
        Ready (z.unconsumedTail next ++ later) more' next

/-- A block of the gzip stream: its output is written, in as many calls as it takes. -/
theorem inflate_ready {header : Header} {z : Inflater σ} {compressed plain : List Byte}
    {Ready : List Byte → List Byte → σ → Prop} (hinverts : z.Inverts compressed plain Ready)
    (hplain : plain.length ≤ header.rawBytes) (later : List Byte) (s : σ) {out : Output}
    (block more : List Byte) (hout : Consistent header out) (hmore : out.dest ++ more = plain)
    (hready : Ready (block ++ later) more s) :
    ∃ s' out' more', inflate z header s out block = .ok (s', out') ∧ Consistent header out' ∧
      out'.dest ++ more' = plain ∧ Ready later more' s' := by
  -- what the next call gives, where there is input left
  have hcall : ∀ s out block more, block ≠ [] → Consistent header out → out.dest ++ more = plain →
      Ready (block ++ later) more s → z.eof s = false ∧
        ∃ bytes next out' more', z.decompress s block 65536 = .ok (bytes, next) ∧
          emit header out bytes = .ok out' ∧ z.unusedData next = [] ∧ Consistent header out' ∧
            out'.dest ++ more' = plain ∧ Ready (z.unconsumedTail next ++ later) more' next := by
    intro s out block more hblock hout hmore hready
    refine ⟨hinverts.going _ _ _ hready (by simp [hblock]), ?_⟩
    obtain ⟨bytes, next, more', hinflated, hunused, rfl, hnext⟩ :=
      hinverts.step block later more s hblock hready
    have hfits : out.dest.length + bytes.length ≤ header.rawBytes := by
      calc out.dest.length + bytes.length
          ≤ (out.dest ++ (bytes ++ more')).length := by
            rw [List.length_append, List.length_append]
            omega
        _ = plain.length := by rw [hmore]
        _ ≤ header.rawBytes := hplain
    obtain ⟨out', hemit⟩ := (hout.emit_eq bytes).1 hfits
    obtain ⟨hout', hdest⟩ := hout.emit hemit
    refine ⟨bytes, next, out', more', hinflated, hemit, hunused, hout', ?_, hnext⟩
    rw [hdest, List.append_assoc]
    exact hmore
  fun_induction inflate z header s out block generalizing more with
  | case1 => exact ⟨_, _, more, rfl, hout, hmore, hready⟩
  | case2 s out block hblock heof =>
      obtain ⟨hgoing, -⟩ := hcall s out block more hblock hout hmore hready
      rw [heof] at hgoing
      cases hgoing
  | case3 s out block hblock _ exc hinflated =>
      obtain ⟨-, bytes, next, -, -, hok, -⟩ := hcall s out block more hblock hout hmore hready
      rw [hinflated] at hok
      cases hok
  | case4 s out block hblock _ bytes next hinflated exc hemit =>
      obtain ⟨-, bytes', next', out', -, hok, hemit', -⟩ :=
        hcall s out block more hblock hout hmore hready
      rw [hinflated] at hok
      obtain ⟨rfl, rfl⟩ := Prod.mk.inj (Except.ok.inj hok)
      rw [hemit] at hemit'
      cases hemit'
  | case5 s out block hblock _ bytes next hinflated out' hemit hunused =>
      obtain ⟨-, bytes', next', -, -, hok, -, hnone, -⟩ :=
        hcall s out block more hblock hout hmore hready
      rw [hinflated] at hok
      obtain ⟨rfl, rfl⟩ := Prod.mk.inj (Except.ok.inj hok)
      exact absurd hnone hunused
  | case6 s out block hblock _ bytes next hinflated out' hemit _ ih =>
      obtain ⟨-, bytes', next', out'', more', hok, hemit', -, hout', hmore', hnext⟩ :=
        hcall s out block more hblock hout hmore hready
      rw [hinflated] at hok
      obtain ⟨rfl, rfl⟩ := Prod.mk.inj (Except.ok.inj hok)
      rw [hemit] at hemit'
      obtain rfl := Except.ok.inj hemit'
      exact ih more' hout' hmore' hnext

/-- The blocks of a whole gzip stream. -/
theorem consumeAll_gzip {header : Header} {z : Inflater σ} {compressed plain : List Byte}
    {Ready : List Byte → List Byte → σ → Prop} (hinverts : z.Inverts compressed plain Ready)
    (hgzip : header.format = gzip) (hplain : plain.length ≤ header.rawBytes)
    (stream : ℕ → Byte) (blocks : List (List Byte)) (s : σ) {out : Output} (more : List Byte)
    (hout : Consistent header out) (hmore : out.dest ++ more = plain) (place : ℕ)
    (hready : Ready (mixed stream place blocks.flatten) more s) :
    ∃ s' out', consumeAll z header stream place (s, out) blocks = .ok (s', out') ∧
      Consistent header out' ∧ out'.dest = plain ∧ z.eof s' = true := by
  induction blocks generalizing s out more place with
  | nil =>
      obtain ⟨heof, rfl⟩ := hinverts.ended more s hready
      rw [List.append_nil] at hmore
      exact ⟨s, out, rfl, hout, hmore, heof⟩
  | cons block rest ih =>
      have hsplit : mixed stream place (block :: rest).flatten =
          mixed stream place block ++ mixed stream (place + block.length) rest.flatten := by
        rw [List.flatten_cons, mixed, mixFrom_append]
        rfl
      rw [hsplit] at hready
      obtain ⟨s', out', more', hinflate, hout', hmore', hready'⟩ :=
        inflate_ready hinverts hplain _ s _ more hout hmore hready
      have hconsume : consume z header (s, out) (mixed stream place block) = .ok (s', out') := by
        rw [consume, if_pos hgzip]
        exact hinflate
      rw [consumeAll, hconsume]
      exact ih s' more' hout' hmore' _ hready'

/-! ## Round trip -/

theorem mixed_mixed (stream : ℕ → Byte) (place : ℕ) (bytes : List Byte) :
    mixed stream place (mixed stream place bytes) = bytes := by
  refine mixFrom_mixFrom (fun a k => ?_) place bytes
  rw [UInt8.xor_assoc, UInt8.xor_self, UInt8.xor_zero]

/-- What `encode` writes: a header that both parsers read, and the body under the key stream. -/
theorem encode_ok {lib : Libraries} {plain key : List Byte} {compression : String}
    {nonce : Option (List Byte)} {random blob : List Byte}
    (hencode : encode lib plain key compression nonce random = .ok blob) :
    key.length = 32 ∧ ∃ header : Header,
      header.rawBytes = plain.length ∧ header.rawSha256 = lib.sha256 plain ∧
        (header.format = raw ∨ header.format = gzip ∧ plain.length ≤ maxImageBytes) ∧
        (header.format = gzip ↔ compression = "gzip") ∧
        blob = Cpp.encodeHeader header ++ mixed (keyStream lib key header.nonce.val) 0
          (if header.format = gzip then normalizeOs (lib.gzipCompress plain) else plain) := by
  unfold encode at hencode
  dsimp only at hencode
  by_cases hkey : key.length = 32
  swap
  · rw [if_pos hkey] at hencode
    cases hencode
  rw [if_neg (not_not.mpr hkey)] at hencode
  by_cases hknown : compression ≠ "none" ∧ compression ≠ "gzip"
  · rw [if_pos hknown] at hencode
    cases hencode
  rw [if_neg hknown] at hencode
  by_cases hlimit : compression = "gzip" ∧ plain.length > maxImageBytes
  · rw [if_pos hlimit] at hencode
    cases hencode
  rw [if_neg hlimit] at hencode
  by_cases hnonce : (nonce.getD random).length = 8
  swap
  · rw [if_pos hnonce] at hencode
    cases hencode
  rw [if_neg (not_not.mpr hnonce)] at hencode
  by_cases hlength : plain.length ≥ 18446744073709551616
  · rw [if_pos hlength] at hencode
    cases hencode
  rw [if_neg hlength] at hencode
  refine ⟨hkey, ⟨if compression = "gzip" then gzip else raw, ⟨nonce.getD random, hnonce⟩,
    plain.length, lib.sha256 plain, Nat.lt_of_not_le hlength⟩, rfl, rfl, ?_, ?_, ?_⟩
  · dsimp only
    by_cases hgzip : compression = "gzip"
    · rw [if_pos hgzip]
      exact Or.inr ⟨rfl, Nat.le_of_not_lt fun hlarge => hlimit ⟨hgzip, hlarge⟩⟩
    · rw [if_neg hgzip]
      exact Or.inl rfl
  · dsimp only
    by_cases hgzip : compression = "gzip"
    · simp [hgzip]
    · simp [hgzip, raw, gzip]
  · rw [encodeHeader_eq]
    exact (Except.ok.inj hencode).symm

/-- What `encode` writes is expanded again, raw or compressed, from a source that cuts its reads
anywhere and from a zlib that cuts its output anywhere; the device reads the same header.  Of an
image that is no `RKFW` image, which `encode` writes as well, the bytes are expanded but not the
image accepted. -/
theorem decodeStream_encode (lib : Libraries) (z : Inflater σ) (plain key : List Byte)
    (compression : String) (nonce : Option (List Byte)) (random blob : List Byte)
    (hencode : encode lib plain key compression nonce random = .ok blob)
    (hzlib : compression = "gzip" →
      ∃ Ready, z.Inverts (normalizeOs (lib.gzipCompress plain)) plain Ready)
    (source : Source) (hsource : source.rest = blob) :
    ∃ header, decodeStream lib z source key true maxImageBytes =
        (if plain.take 4 = rkfw then .ok header
          else .error "decrypted bytes are not an RKFW update.img", plain) ∧
      Cpp.parseHeader blob = .ok header ∧ header.rawBytes = plain.length := by
  obtain ⟨hkey, header, hbytes, hdigest, hformat, hgzip, hblob⟩ := encode_ok hencode
  have haccepted : header.format = raw ∨
      header.format = gzip ∧ header.rawBytes ≤ maxImageBytes := by
    rw [hbytes]
    exact hformat
  have htake : source.rest.take 56 = Cpp.encodeHeader header ++ [] := by
    rw [hsource, hblob, ← encodeHeader_length header, List.take_left, List.append_nil]
  have hdrop : source.rest.drop 56 = mixed (keyStream lib key header.nonce.val) 0
      (if header.format = gzip then normalizeOs (lib.gzipCompress plain) else plain) := by
    rw [hsource, hblob, ← encodeHeader_length header, List.drop_left]
  have hparse : parseHeader maxImageBytes (source.rest.take 56) = .ok header := by
    rw [htake]
    exact parseHeader_encode header haccepted []
  refine ⟨header, ?_, ?_, hbytes⟩
  · by_cases hzip : header.format = gzip
    · -- gzip: the decoder takes the cipher off block by block and feeds the inflater.
      obtain ⟨Ready, hinverts⟩ := hzlib (hgzip.mp hzip)
      obtain ⟨blocks, hblocks, hdecode⟩ := decodeStream_of_header lib z true hkey hparse
      have hready : Ready (mixed (keyStream lib key header.nonce.val) 0 blocks.flatten) plain
          z.init := by
        rw [hblocks, hdrop, if_pos hzip, mixed_mixed]
        exact hinverts.start
      obtain ⟨s, out, hall, hout, hdest, heof⟩ := consumeAll_gzip hinverts hzip
        (Nat.le_of_eq hbytes.symm) _ blocks z.init plain (consistent_init header) rfl 0 hready
      have hverify : verify lib z header (s, out) = if plain.take 4 = rkfw then .ok header
          else .error "decrypted bytes are not an RKFW update.img" := by
        unfold verify
        dsimp only
        rw [hout.produced, hout.digest, hout.magic, hdest, hbytes, hdigest]
        simp [heof]
      rw [hdecode, if_neg (by simp), hall]
      dsimp only
      rw [hverify, hdest]
    · -- raw: the bytes behind the header are the plain ones once unmixed.
      obtain ⟨hverdict, hwritten⟩ := decodeStream_raw lib z true hkey hparse hzip
      have hplain : mixed (keyStream lib key header.nonce.val) 0 (source.rest.drop 56) = plain := by
        rw [hdrop, if_neg hzip, mixed_mixed]
      rw [hplain] at hverdict hwritten
      refine Prod.ext ?_ (hwritten (Nat.le_of_eq hbytes.symm))
      rw [hverdict]
      unfold rawVerdict
      rw [hbytes, hdigest]
      simp
  · rw [cpp_parseHeader_iff, hblob]
    exact parseHeader_encode header haccepted _

/-! ## A small image -/

/-- The gzip stream of an image of four bytes, as Python writes it. -/
def smallGzip : List Byte :=
  [31, 139, 8, 0, 0, 0, 0, 0, 0, 3, 11, 242, 118, 11, 7, 0, 192, 86, 163, 111, 4, 0, 0, 0]

/-- The libraries on this image: its digest, the key stream of the golden vectors and its gzip
stream. -/
def smallLibraries : Libraries where
  sha256 := fun _ =>
    ⟨[42, 225, 21, 134, 80, 36, 140, 2, 5, 14, 3, 141, 114, 222, 28, 24, 83, 104, 126, 68, 181,
       59, 227, 117, 43, 208, 235, 229, 236, 234, 244, 65], rfl⟩
  aesCtr := fun _ _ i =>
    [242, 144, 0, 182, 42, 73, 159, 208, 169, 243, 154, 106, 221, 46, 119, 128, 240, 93, 118,
      174, 74, 185, 159, 229].getD i 0
  gzipCompress := fun _ => smallGzip

/-- zlib on this stream, given at once or in pieces. -/
def smallInflater : Inflater (List Byte) where
  init := normalizeOs smallGzip
  eof := List.isEmpty
  unconsumedTail := fun _ => []
  unusedData := fun _ => []
  decompress := fun s block _ =>
    if block = s then .ok (rkfw, [])
    else if block <+: s then .ok ([], s.drop block.length)
    else .error "Error -3 while decompressing data"
  progress := fun _ _ _ _ _ hblock _ =>
    ⟨Nat.zero_le _, fun _ => List.length_pos_of_ne_nil hblock⟩

theorem smallInflater_inverts :
    smallInflater.Inverts (normalizeOs smallGzip) rkfw
      fun rest more s => s = rest ∧ more = if rest = [] then [] else rkfw where
  start := ⟨rfl, rfl⟩
  going := by
    rintro rest more s ⟨rfl, -⟩ hrest
    simpa [smallInflater] using hrest
  ended := by
    rintro more s ⟨rfl, rfl⟩
    exact ⟨rfl, rfl⟩
  step := by
    rintro block later more s hblock ⟨rfl, rfl⟩
    have hne : block ++ later ≠ [] := by simp [hblock]
    rw [if_neg hne]
    cases later with
    | nil => exact ⟨rkfw, [], [], if_pos (List.append_nil _).symm, rfl, rfl, rfl, rfl⟩
    | cons byte later =>
        refine ⟨[], byte :: later, rkfw, ?_, rfl, rfl, rfl, rfl⟩
        have hother : block ≠ block ++ byte :: later := by simp
        have hfirst : block <+: block ++ byte :: later := List.prefix_append _ _
        simp only [smallInflater]
        rw [if_neg hother, if_pos hfirst, List.drop_left]

/-- The compressed image, its header read seven bytes at a time. -/
theorem decodeStream_encode_small :
    ∃ header, decodeStream smallLibraries smallInflater
        ⟨[86, 69, 78, 67, 3, 0, 0, 0, 0, 0, 0, 0, 0, 0, 0, 0, 4, 0, 0, 0, 0, 0, 0, 0, 42, 225,
           21, 134, 80, 36, 140, 2, 5, 14, 3, 141, 114, 222, 28, 24, 83, 104, 126, 68, 181, 59,
           227, 117, 43, 208, 235, 229, 236, 234, 244, 65, 237, 27, 8, 182, 42, 73, 159, 208,
           169, 12, 145, 152, 171, 37, 112, 128, 48, 11, 213, 193, 78, 185, 159, 229],
          List.replicate 8 7⟩
        (List.range 32 |>.map UInt8.ofNat) true maxImageBytes = (.ok header, rkfw) ∧
      header.rawBytes = 4 := by
  obtain ⟨header, hdecode, -, hbytes⟩ := decodeStream_encode smallLibraries smallInflater rkfw
    (List.range 32 |>.map UInt8.ofNat) "gzip" (some (List.replicate 8 0)) [] _ rfl
    (fun _ => ⟨_, smallInflater_inverts⟩) ⟨_, List.replicate 8 7⟩ rfl
  exact ⟨header, hdecode, hbytes⟩

end VisioSchema.Wire.Image

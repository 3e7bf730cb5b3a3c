import VisioSchema.Ingest.Signing
import VisioSchema.Library.Delimited
import VisioSchema.Library.Json
import VisioSchema.Library.Sorting

/-!
# What a signed request says

The seven fields of a string to sign are joined by newlines, and only the method and the query
are checked.  A request is told from every other one of the same string exactly when the newlines
in its fields leave no second reading (`request_unambiguous_iff`): its date, key id and method
are single lines, no line in its path could be a method, and its query is the only one that the
string can end in.

## Strategy

* **Queries.**  The query says which parameters it was made of (`same_of_canonicalQuery`).  That
  a text is one can be decided by its form (`IsQuery`, `isQuery_iff`): pieces between the `&`s
  with one `=` each, whose keys increase.
* **One reading.**  The digest is a single line, and stands last; the header is three single
  lines, and stands first.  What is left are the path and the query, and under `SingleReading`
  they can be cut apart in one place only (`SingleReading.lines_eq`).
* **Two readings.**  Each newline that `SingleReading` excludes gives another request of the same
  string, which `Unambiguous.reading` forbids (`Unambiguous.singleReading`).
-/

namespace VisioSchema.Ingest

open VisioSchema.Library

/-! ## Queries -/

theorem codePoints_injective : Function.Injective codePoints :=
  List.map_injective_iff.mpr fun _ _ heq => Char.toNat_inj.mp heq

/-- The parameters in the order in which they are signed. -/
def sortedKeys (params : Dict Text Text) : List Text :=
  params.keys.insertionSort fun k l => codePoints k ≤ codePoints l

/-- The parameter of a key, and its text. -/
def signedPair (params : Dict Text Text) (k : Text) : Text :=
  queryPair (k, (params.get k).getD [])

theorem mem_sortedKeys {params : Dict Text Text} {k : Text} :
    k ∈ sortedKeys params ↔ k ∈ params.keys := List.mem_insertionSort _

/-- The parameters that can be signed: no key and no value holds `&` or `=`. -/
def Signable (params : Dict Text Text) : Prop :=
  ∀ k v, params.get k = some v → k.any queryReserved = false ∧ v.any queryReserved = false

theorem canonicalQuery_eq_some_iff {params : Dict Text Text} {query : Text} :
    canonicalQuery params = some query ↔
      Signable params ∧
        query = ['&'].intercalate ((sortedKeys params).map (signedPair params)) := by
  have hany : (params.entries.any fun entry =>
      entry.1.any queryReserved || entry.2.any queryReserved) = false ↔ Signable params := by
    rw [List.any_eq_false]
    constructor
    · intro hnone k v hget
      have hentry := hnone (k, v) (Dict.get_eq_some_iff.mp hget)
      rw [Bool.not_eq_true, Bool.or_eq_false_iff] at hentry
      exact hentry
    · rintro hsign ⟨k, v⟩ hmem
      rw [Bool.not_eq_true, Bool.or_eq_false_iff]
      exact hsign k v (Dict.get_eq_some_iff.mpr hmem)
  rw [← hany, canonicalQuery]
  cases params.entries.any fun entry => entry.1.any queryReserved || entry.2.any queryReserved with
  | true => simp
  | false =>
      simp only [Bool.false_eq_true, if_false, Option.some.injEq, true_and]
      exact eq_comm

theorem sortedKeys_eq_of_same {params other : Dict Text Text} (hsame : params.Same other) :
    sortedKeys params = sortedKeys other := by
  refine sorted_eq_of_perm (fun a _ b _ heq => codePoints_injective heq) ?_
  refine (List.perm_ext_iff_of_nodup params.nodup other.nodup).mpr fun k => ?_
  calc k ∈ params.keys
      ↔ ∃ v, params.get k = some v := Dict.mem_keys_iff
    _ ↔ ∃ v, other.get k = some v := by rw [hsame k]
    _ ↔ k ∈ other.keys := Dict.mem_keys_iff.symm

/-- The query does not depend on the order in which the parameters were inserted. -/
theorem canonicalQuery_eq_of_same {params other : Dict Text Text} (hsame : params.Same other) :
    canonicalQuery params = canonicalQuery other := by
  have hsign : Signable params ↔ Signable other := by
    rw [Signable, Signable]
    simp only [hsame _]
  have hpair : signedPair params = signedPair other := by
    funext k
    rw [signedPair, signedPair, hsame k]
  apply Option.ext
  intro query
  rw [canonicalQuery_eq_some_iff, canonicalQuery_eq_some_iff, hsign, sortedKeys_eq_of_same hsame,
    hpair]

theorem not_mem_of_any {text : Text} (hfree : text.any queryReserved = false) :
    '&' ∉ text ∧ '=' ∉ text := by
  rw [List.any_eq_false] at hfree
  exact ⟨fun hmem => hfree _ hmem rfl, fun hmem => hfree _ hmem rfl⟩

/-- A pair is cut at its only `=`. -/
theorem queryPair_inj {k v l w : Text} (hk : '=' ∉ k) (hl : '=' ∉ l)
    (heq : queryPair (k, v) = queryPair (l, w)) : k = l ∧ v = w := by
  have hsplit := congrArg (Delimited.split '=') heq
  rw [queryPair, queryPair, Delimited.split_run hk, Delimited.split_run hl] at hsplit
  have hkey : k = l := (List.cons.inj (Prod.mk.inj hsplit).1).1
  rw [queryPair, queryPair, hkey] at heq
  exact ⟨hkey, (List.cons.inj (List.append_cancel_left heq)).2⟩

theorem signedPair_free {params : Dict Text Text} (hsign : Signable params) {k : Text}
    (hk : k ∈ sortedKeys params) :
    ∃ v, params.get k = some v ∧ signedPair params k = queryPair (k, v) ∧
      '&' ∉ queryPair (k, v) ∧ '=' ∉ k := by
  obtain ⟨v, hget⟩ := Dict.mem_keys_iff.mp (mem_sortedKeys.mp hk)
  obtain ⟨hkey, hvalue⟩ := hsign k v hget
  refine ⟨v, hget, by rw [signedPair, hget, Option.getD_some], ?_, (not_mem_of_any hkey).2⟩
  rw [queryPair, List.mem_append, List.mem_cons, not_or, not_or]
  exact ⟨(not_mem_of_any hkey).1, by decide, (not_mem_of_any hvalue).1⟩

theorem intercalate_signedPairs_eq_nil_iff {params : Dict Text Text} :
    ['&'].intercalate ((sortedKeys params).map (signedPair params)) = [] ↔
      sortedKeys params = [] := by
  cases sortedKeys params with
  | nil => simp
  | cons k keys =>
      cases keys <;> simp [signedPair, queryPair]

/-- The pairs that a query was made of. -/
theorem signedPairs_inj {params other : Dict Text Text} {query : Text}
    (hparams : canonicalQuery params = some query) (hother : canonicalQuery other = some query) :
    (sortedKeys params).map (signedPair params) = (sortedKeys other).map (signedPair other) := by
  obtain ⟨hsign, hquery⟩ := canonicalQuery_eq_some_iff.mp hparams
  obtain ⟨hsign', hquery'⟩ := canonicalQuery_eq_some_iff.mp hother
  have hfree {d : Dict Text Text} (hd : Signable d) :
      ∀ piece ∈ (sortedKeys d).map (signedPair d), '&' ∉ piece := by
    intro piece hmem
    obtain ⟨k, hk, rfl⟩ := List.mem_map.mp hmem
    obtain ⟨v, -, heq, hpiece, -⟩ := signedPair_free hd hk
    rw [heq]
    exact hpiece
  by_cases hnil : sortedKeys params = []
  · rw [intercalate_signedPairs_eq_nil_iff.mpr hnil] at hquery
    rw [hquery, eq_comm, intercalate_signedPairs_eq_nil_iff] at hquery'
    rw [hnil, hquery']
    rfl
  · have hnil' : sortedKeys other ≠ [] := by
      intro heq
      rw [intercalate_signedPairs_eq_nil_iff.mpr heq] at hquery'
      rw [hquery', eq_comm, intercalate_signedPairs_eq_nil_iff] at hquery
      exact hnil hquery
    exact Delimited.intercalate_inj (hfree hsign) (hfree hsign')
      (fun heq => hnil (List.map_eq_nil_iff.mp heq)) (fun heq => hnil' (List.map_eq_nil_iff.mp heq))
      (hquery.symm.trans hquery')

/-- A parameter of one mapping is one of the other. -/
theorem get_of_signedPairs {params other : Dict Text Text} (hsign : Signable params)
    (hsign' : Signable other)
    (hpairs : (sortedKeys params).map (signedPair params) =
      (sortedKeys other).map (signedPair other)) {k v : Text} (hget : params.get k = some v) :
    other.get k = some v := by
  have hk : k ∈ sortedKeys params := mem_sortedKeys.mpr (Dict.mem_keys_iff.mpr ⟨v, hget⟩)
  obtain ⟨w, hw, hpair, -, hfree⟩ := signedPair_free hsign hk
  have hmem : signedPair params k ∈ (sortedKeys other).map (signedPair other) := by
    rw [← hpairs]
    exact List.mem_map_of_mem hk
  obtain ⟨l, hl, heq⟩ := List.mem_map.mp hmem
  obtain ⟨u, hu, hpair', -, hfree'⟩ := signedPair_free hsign' hl
  rw [hpair, hpair'] at heq
  obtain ⟨rfl, rfl⟩ := queryPair_inj hfree' hfree heq
  rw [← hget, hw]
  exact hu

/-- A query says which parameters it was made of. -/
theorem same_of_canonicalQuery {params other : Dict Text Text} {query : Text}
    (hparams : canonicalQuery params = some query) (hother : canonicalQuery other = some query) :
    params.Same other := by
  have hsign := (canonicalQuery_eq_some_iff.mp hparams).1
  have hsign' := (canonicalQuery_eq_some_iff.mp hother).1
  have hpairs := signedPairs_inj hparams hother
  intro k
  apply Option.ext
  intro v
  exact ⟨get_of_signedPairs hsign hsign' hpairs, get_of_signedPairs hsign' hsign hpairs.symm⟩

/-! ## The form of a query -/

/-- What stands before the first `=` of a piece, and behind it. -/
def pairOf (piece : Text) : Text × Text :=
  (piece.takeWhile (· ≠ '='), (piece.dropWhile (· ≠ '=')).tail)

/-- The form of a canonical query: nothing, or pieces between the `&`s that hold one `=` each, and
whose keys increase. -/
def IsQuery (text : Text) : Prop :=
  text = [] ∨
    (∀ piece ∈ text.splitOn '&', piece.count '=' = 1) ∧
      (text.splitOn '&').Pairwise fun a b => codePoints (pairOf a).1 < codePoints (pairOf b).1

instance decidableIsQuery (text : Text) : Decidable (IsQuery text) := by
  unfold IsQuery
  infer_instance

/-- A piece with one `=` is a pair of a key and a value without any. -/
theorem pairOf_of_count {piece : Text} (hone : piece.count '=' = 1) :
    queryPair (pairOf piece) = piece ∧ '=' ∉ (pairOf piece).1 ∧ '=' ∉ (pairOf piece).2 := by
  have hkey : '=' ∉ (pairOf piece).1 := fun hmem => by
    simpa using List.mem_takeWhile_imp hmem
  have hin : '=' ∈ piece := List.count_pos_iff.mp (by omega)
  have hsplit := List.takeWhile_append_dropWhile (p := (· ≠ '=')) (l := piece)
  cases hrest : piece.dropWhile (· ≠ '=') with
  | nil =>
      rw [hrest, List.append_nil] at hsplit
      rw [← hsplit] at hin
      exact absurd hin hkey
  | cons c value =>
      have hc : c = '=' := by
        have hsome : piece.dropWhile (· ≠ '=') ≠ [] := hrest ▸ List.cons_ne_nil c value
        have hhead := List.head_dropWhile_not (fun c : Char => decide (c ≠ '=')) hsome
        simp only [hrest, List.head_cons] at hhead
        simpa using hhead
      have hpair : queryPair (pairOf piece) = piece := by
        calc queryPair (pairOf piece)
            = piece.takeWhile (· ≠ '=') ++ '=' :: value := by rw [queryPair, pairOf, hrest]; rfl
          _ = piece.takeWhile (· ≠ '=') ++ piece.dropWhile (· ≠ '=') := by rw [hrest, hc]
          _ = piece := hsplit
      refine ⟨hpair, hkey, fun hmem => ?_⟩
      have hcount := congrArg (List.count '=') hpair
      rw [queryPair, List.count_append, List.count_cons_self, hone] at hcount
      have := List.count_pos_iff.mpr hmem
      omega

theorem pairOf_queryPair {k v : Text} (hk : '=' ∉ k) : pairOf (queryPair (k, v)) = (k, v) := by
  have hstops : ∀ c ∈ k, decide (c ≠ '=') = true := fun c hc =>
    decide_eq_true fun heq => hk (heq ▸ hc)
  rw [pairOf, queryPair, List.takeWhile_append_of_pos hstops, List.dropWhile_append_of_pos hstops]
  simp

theorem not_any_of_not_mem {text : Text} (hand : '&' ∉ text) (hequals : '=' ∉ text) :
    text.any queryReserved = false := by
  rw [List.any_eq_false]
  intro c hc
  rw [queryReserved, Bool.or_eq_true, decide_eq_true_iff, decide_eq_true_iff]
  rintro (rfl | rfl)
  · exact hand hc
  · exact hequals hc

/-- A text of this form is the query of the parameters in its pieces. -/
theorem exists_canonicalQuery {text : Text}
    (hone : ∀ piece ∈ text.splitOn '&', piece.count '=' = 1)
    (hincreasing : (text.splitOn '&').Pairwise fun a b =>
      codePoints (pairOf a).1 < codePoints (pairOf b).1) :
    ∃ params : Dict Text Text, canonicalQuery params = some text := by
  have hkeys : (((text.splitOn '&').map pairOf).map Prod.fst).Pairwise fun k l =>
      codePoints k < codePoints l := by
    rw [List.map_map]
    exact List.pairwise_map.mpr hincreasing
  let params : Dict Text Text :=
    { entries := (text.splitOn '&').map pairOf
      nodup := hkeys.imp fun hlt heq => hlt.ne (congrArg codePoints heq) }
  have hsorted : sortedKeys params = ((text.splitOn '&').map pairOf).map Prod.fst :=
    (hkeys.imp fun hlt => le_of_lt hlt).insertionSort_eq
  refine ⟨params, canonicalQuery_eq_some_iff.mpr ⟨fun k v hget => ?_, ?_⟩⟩
  · obtain ⟨piece, hpiece, heq⟩ := List.mem_map.mp (Dict.get_eq_some_iff.mp hget)
    obtain ⟨hpair, hkey, hvalue⟩ := pairOf_of_count (hone piece hpiece)
    have hfree := Delimited.not_mem_splitOn hpiece
    rw [← hpair, heq, queryPair, List.mem_append, List.mem_cons, not_or, not_or] at hfree
    rw [heq] at hkey hvalue
    exact ⟨not_any_of_not_mem hfree.1 hkey, not_any_of_not_mem hfree.2.2 hvalue⟩
  · have hpieces : (sortedKeys params).map (signedPair params) = text.splitOn '&' := by
      rw [hsorted, List.map_map, List.map_map]
      refine (List.map_congr_left fun piece hpiece => ?_).trans (List.map_id _)
      have hget : params.get (pairOf piece).1 = some (pairOf piece).2 :=
        Dict.get_eq_some_iff.mpr (List.mem_map_of_mem hpiece)
      change signedPair params (pairOf piece).1 = piece
      rw [signedPair, hget, Option.getD_some]
      exact (pairOf_of_count (hone piece hpiece)).1
    rw [hpieces, List.intercalate_splitOn]

/-- The texts that `canonical_query` returns are the ones of this form. -/
theorem isQuery_iff {text : Text} :
    IsQuery text ↔ ∃ params : Dict Text Text, canonicalQuery params = some text := by
  constructor
  · rintro (rfl | ⟨hone, hincreasing⟩)
    · exact ⟨Dict.empty, rfl⟩
    · exact exists_canonicalQuery hone hincreasing
  · rintro ⟨params, hquery⟩
    obtain ⟨hsign, rfl⟩ := canonicalQuery_eq_some_iff.mp hquery
    by_cases hnil : sortedKeys params = []
    · exact Or.inl (intercalate_signedPairs_eq_nil_iff.mpr hnil)
    · refine Or.inr ?_
      have hfree : ∀ piece ∈ (sortedKeys params).map (signedPair params), '&' ∉ piece := by
        intro piece hmem
        obtain ⟨k, hk, rfl⟩ := List.mem_map.mp hmem
        obtain ⟨v, -, heq, hpiece, -⟩ := signedPair_free hsign hk
        rw [heq]
        exact hpiece
      rw [List.splitOn_intercalate '&' hfree fun heq => hnil (List.map_eq_nil_iff.mp heq)]
      constructor
      · intro piece hmem
        obtain ⟨k, hk, rfl⟩ := List.mem_map.mp hmem
        obtain ⟨v, hget, heq, -, -⟩ := signedPair_free hsign hk
        obtain ⟨hkey, hvalue⟩ := hsign k v hget
        rw [heq, queryPair, List.count_append, List.count_cons_self,
          List.count_eq_zero.mpr (not_mem_of_any hkey).2,
          List.count_eq_zero.mpr (not_mem_of_any hvalue).2]
      · have hkeyOf : ∀ k ∈ sortedKeys params, (pairOf (signedPair params k)).1 = k := by
          intro k hk
          obtain ⟨v, -, heq, -, hkey⟩ := signedPair_free hsign hk
          rw [heq, pairOf_queryPair hkey]
        have hdistinct : (sortedKeys params).Nodup :=
          (List.perm_insertionSort _ _).nodup_iff.mpr params.nodup
        rw [List.pairwise_map]
        refine ((pairwise_sorted params.keys).and hdistinct).imp_of_mem fun ha hb hab => ?_
        rw [hkeyOf _ ha, hkeyOf _ hb]
        exact lt_of_le_of_ne hab.1 fun heq => hab.2 (codePoints_injective heq)

/-! ## Requests -/

/-- What a request signs. -/
structure Request where
  date : Text
  keyId : Text
  method : Text
  path : Text
  params : Dict Text Text
  bodySha256 : Text

/-- 64 hex digits. -/
def isBodyDigest (text : Text) : Bool :=
  text.length = 64 && text.all fun c => (Json.hexValue c).isSome

/-- The string to sign of a request, `none` where it is refused. -/
def Request.stringToSign (upper : Upper) (request : Request) : Option Text :=
  match canonicalQuery request.params with
  | some query =>
      requestStringToSign upper request.date request.keyId request.method request.path query
        request.bodySha256
  | none => none

/-- Two requests say the same. -/
structure Request.Same (request other : Request) : Prop where
  date : request.date = other.date
  keyId : request.keyId = other.keyId
  method : request.method = other.method
  path : request.path = other.path
  params : request.params.Same other.params
  bodySha256 : request.bodySha256 = other.bodySha256

/-- Every request that signs the same string says the same. -/
def Unambiguous (upper : Upper) (request : Request) : Prop :=
  ∀ other text, isBodyDigest other.bodySha256 = true → request.stringToSign upper = some text →
    other.stringToSign upper = some text → request.Same other

/-- The lines of a request leave no second reading: the date, the key id and the method are single
lines, no complete line of the path is in upper case, and behind no newline of the path and the
query, other than the one between them, stands a text of the form of a query. -/
structure SingleReading (upper : Upper) (request : Request) (query : Text) : Prop where
  date : '\n' ∉ request.date
  keyId : '\n' ∉ request.keyId
  method : '\n' ∉ request.method
  lines : ∀ line ∈ (Delimited.split '\n' request.path).1, upper.text line ≠ line
  query : ∀ front back, request.path ++ '\n' :: query = front ++ '\n' :: back →
    IsQuery back → front = request.path

/-- The lines of a string to sign behind the algorithm, without the digest. -/
def signedLines (date keyId method path query : Text) : Text :=
  date ++ '\n' :: (keyId ++ '\n' :: (method ++ '\n' :: (path ++ '\n' :: query)))

theorem stringToSign_eq_some_iff {upper : Upper} {request : Request} {text : Text} :
    request.stringToSign upper = some text ↔
      ∃ query, canonicalQuery request.params = some query ∧
        upper.text request.method = request.method ∧
        text = algorithm ++ '\n' :: (signedLines request.date request.keyId request.method
          request.path query ++ '\n' :: request.bodySha256) := by
  have hjoin (query : Text) : ['\n'].intercalate [algorithm, request.date, request.keyId,
        request.method, request.path, query, request.bodySha256] =
      algorithm ++ '\n' :: (signedLines request.date request.keyId request.method
        request.path query ++ '\n' :: request.bodySha256) := by
    simp [signedLines]
  rw [Request.stringToSign]
  cases hquery : canonicalQuery request.params with
  | none => simp
  | some query =>
      simp only [requestStringToSign, hjoin, Option.some.injEq, exists_eq_left']
      by_cases hmethod : upper.text request.method = request.method
      · rw [if_neg (not_not.mpr hmethod.symm), Option.some.injEq]
        exact ⟨fun heq => ⟨hmethod, heq.symm⟩, fun h => h.2.symm⟩
      · rw [if_pos (Ne.symm hmethod)]
        simp [hmethod]

/-! ## Upper case -/

theorem Upper.text_append (upper : Upper) (first second : Text) :
    upper.text (first ++ second) = upper.text first ++ upper.text second := List.flatMap_append

theorem Upper.newline_mem_text_iff (upper : Upper) (text : Text) :
    '\n' ∈ upper.text text ↔ '\n' ∈ text := by
  rw [Upper.text, List.mem_flatMap]
  constructor
  · rintro ⟨c, hc, hmem⟩
    by_cases hnewline : c = '\n'
    · exact hnewline ▸ hc
    · exact absurd hmem (upper.other c hnewline)
  · intro hmem
    exact ⟨'\n', hmem, by rw [upper.newline]; exact List.mem_singleton_self _⟩

theorem Upper.text_cons_newline (upper : Upper) (text : Text) :
    upper.text ('\n' :: text) = '\n' :: upper.text text := by
  rw [Upper.text, List.flatMap_cons, upper.newline]
  rfl

/-- The lines of a text in upper case are in upper case. -/
theorem Upper.text_lines {upper : Upper} {line rest : Text} (hfree : '\n' ∉ line)
    (hupper : upper.text (line ++ '\n' :: rest) = line ++ '\n' :: rest) :
    upper.text line = line ∧ upper.text rest = rest := by
  have hfree' : '\n' ∉ upper.text line := fun hmem =>
    hfree ((upper.newline_mem_text_iff line).mp hmem)
  rw [Upper.text_append, Upper.text_cons_newline] at hupper
  have hsplit := congrArg (Delimited.split '\n') hupper
  rw [Delimited.split_run hfree, Delimited.split_run hfree'] at hsplit
  have hline : upper.text line = line := (List.cons.inj (Prod.mk.inj hsplit).1).1
  rw [hline] at hupper
  exact ⟨hline, (List.cons.inj (List.append_cancel_left hupper)).2⟩

/-- The last line of a text in upper case is in upper case. -/
theorem Upper.text_lastLine (upper : Upper) (text : Text) (hupper : upper.text text = text) :
    upper.text (Delimited.split '\n' text).2 = (Delimited.split '\n' text).2 := by
  by_cases hmem : '\n' ∈ text
  · obtain ⟨hfree, heq⟩ := Delimited.take_idxOf hmem
    have hshort : (text.drop (text.idxOf '\n' + 1)).length < text.length := by
      have := List.length_pos_of_mem hmem
      rw [List.length_drop]
      omega
    rw [heq] at hupper
    have hrest := (Upper.text_lines hfree hupper).2
    rw [heq, Delimited.split_run hfree]
    exact Upper.text_lastLine upper _ hrest
  · rw [Delimited.split_of_not_mem hmem]
    exact hupper
termination_by text.length

/-! ## One reading -/

/-- The date, the key id and the method. -/
def header (date keyId method : Text) : Text := date ++ '\n' :: (keyId ++ '\n' :: method)

theorem signedLines_eq (date keyId method path query : Text) :
    signedLines date keyId method path query =
      header date keyId method ++ '\n' :: (path ++ '\n' :: query) := by
  simp [signedLines, header]

theorem split_header (date keyId method : Text) :
    Delimited.split '\n' (header date keyId method) =
      ((Delimited.split '\n' date).1 ++ (Delimited.split '\n' date).2 ::
          ((Delimited.split '\n' keyId).1 ++ (Delimited.split '\n' keyId).2 ::
            (Delimited.split '\n' method).1),
        (Delimited.split '\n' method).2) := by
  rw [header, Delimited.split_delimiter, Delimited.split_delimiter]

/-- Three single lines are told from each other. -/
theorem header_inj {date keyId method date' keyId' method' : Text} (hdate : '\n' ∉ date)
    (hkeyId : '\n' ∉ keyId) (hmethod : '\n' ∉ method)
    (heq : header date keyId method = header date' keyId' method') :
    date = date' ∧ keyId = keyId' ∧ method = method' := by
  have hsplit := congrArg (fun text => (Delimited.split '\n' text).1.length) heq
  simp only [split_header, Delimited.split_of_not_mem hdate, Delimited.split_of_not_mem hkeyId,
    Delimited.split_of_not_mem hmethod, List.length_append, List.length_cons, List.length_nil]
    at hsplit
  have hnil {text : Text} (hlength : (Delimited.split '\n' text).1.length = 0) : '\n' ∉ text :=
    Delimited.split_fst_eq_nil_iff.mp (List.eq_nil_of_length_eq_zero hlength)
  have hdate' : '\n' ∉ date' := hnil (by omega)
  have hkeyId' : '\n' ∉ keyId' := hnil (by omega)
  rw [header, header] at heq
  have hcut {front back front' back' : Text} (hfront : '\n' ∉ front) (hfront' : '\n' ∉ front')
      (h : front ++ '\n' :: back = front' ++ '\n' :: back') : front = front' ∧ back = back' := by
    rcases Delimited.cut_cases h with hsame | ⟨between, hlater, -⟩ | ⟨between, hlater, -⟩
    · exact hsame
    · exact absurd (hlater ▸ List.mem_append_right _ (List.mem_cons_self ..)) hfront'
    · exact absurd (hlater ▸ List.mem_append_right _ (List.mem_cons_self ..)) hfront
  obtain ⟨rfl, hrest⟩ := hcut hdate hdate' heq
  obtain ⟨rfl, rfl⟩ := hcut hkeyId hkeyId' hrest
  exact ⟨rfl, rfl, rfl⟩

/-- The lines behind the header are read in one way. -/
theorem SingleReading.lines_eq {upper : Upper} {request : Request} {query : Text}
    (hreading : SingleReading upper request query) {date keyId method path back : Text}
    {params : Dict Text Text} (hmethod : upper.text method = method)
    (hback : canonicalQuery params = some back)
    (heq : signedLines request.date request.keyId request.method request.path query =
      signedLines date keyId method path back) :
    header request.date request.keyId request.method = header date keyId method ∧
      request.path = path ∧ query = back := by
  rw [signedLines_eq, signedLines_eq] at heq
  rcases Delimited.cut_cases heq with ⟨hheader, hrest⟩ | ⟨between, hheader, hrest⟩ |
      ⟨between, hheader, hrest⟩
  · have hpath := hreading.query path back hrest (isQuery_iff.mpr ⟨params, hback⟩)
    rw [hpath] at hrest
    exact ⟨hheader, hpath.symm, (List.cons.inj (List.append_cancel_left hrest)).2⟩
  · -- the other method ends in a line of the path
    have hpath := hreading.query (between ++ '\n' :: path) back
      (by rw [hrest, List.append_assoc, List.cons_append]) (isQuery_iff.mpr ⟨params, hback⟩)
    have hmem : (Delimited.split '\n' between).2 ∈ (Delimited.split '\n' request.path).1 := by
      rw [← hpath, Delimited.split_delimiter]
      exact List.mem_append_right _ (List.mem_cons_self ..)
    have hlast := congrArg (fun text => (Delimited.split '\n' text).2) hheader
    simp only [split_header, Delimited.split_delimiter] at hlast
    have hupper := Upper.text_lastLine upper method hmethod
    rw [hlast] at hupper
    exact absurd hupper (hreading.lines _ hmem)
  · -- the other header would have fewer lines
    have hlines := congrArg (fun text => (Delimited.split '\n' text).1.length) hheader
    simp only [split_header, Delimited.split_delimiter,
      Delimited.split_of_not_mem hreading.date, Delimited.split_of_not_mem hreading.keyId,
      Delimited.split_of_not_mem hreading.method, List.length_append, List.length_cons,
      List.length_nil] at hlines
    omega

/-- A request with one reading is unambiguous. -/
theorem SingleReading.unambiguous {upper : Upper} {request : Request} {query : Text}
    (hquery : canonicalQuery request.params = some query)
    (hdigest : isBodyDigest request.bodySha256 = true)
    (hreading : SingleReading upper request query) : Unambiguous upper request := by
  intro other text hdigest' htext hother
  obtain ⟨query₁, hquery₁, -, rfl⟩ := stringToSign_eq_some_iff.mp htext
  obtain ⟨back, hback, hmethod, heq⟩ := stringToSign_eq_some_iff.mp hother
  obtain rfl : query = query₁ := Option.some.inj (hquery.symm.trans hquery₁)
  have hlength : ('\n' :: request.bodySha256).length = ('\n' :: other.bodySha256).length := by
    rw [isBodyDigest, Bool.and_eq_true, decide_eq_true_iff] at hdigest hdigest'
    rw [List.length_cons, List.length_cons, hdigest.1, hdigest'.1]
  obtain ⟨hlines, hbody⟩ :=
    List.append_inj' (List.cons.inj (List.append_cancel_left heq)).2 hlength
  obtain ⟨hheader, hpath, rfl⟩ := hreading.lines_eq hmethod hback hlines
  obtain ⟨hdate, hkeyId, hmethod'⟩ :=
    header_inj hreading.date hreading.keyId hreading.method hheader
  exact
    { date := hdate
      keyId := hkeyId
      method := hmethod'
      path := hpath
      params := same_of_canonicalQuery hquery hback
      bodySha256 := (List.cons.inj hbody).2 }

/-! ## Two readings -/

/-- Another reading of the lines of an unambiguous request says the same. -/
theorem Unambiguous.reading {upper : Upper} {request : Request} {query : Text}
    (hquery : canonicalQuery request.params = some query)
    (hmethod : upper.text request.method = request.method)
    (hdigest : isBodyDigest request.bodySha256 = true) (hun : Unambiguous upper request)
    {date keyId method path back : Text} {params : Dict Text Text}
    (hmethod' : upper.text method = method) (hback : canonicalQuery params = some back)
    (heq : signedLines request.date request.keyId request.method request.path query =
      signedLines date keyId method path back) :
    request.Same ⟨date, keyId, method, path, params, request.bodySha256⟩ := by
  refine hun ⟨date, keyId, method, path, params, request.bodySha256⟩ _ hdigest
    (stringToSign_eq_some_iff.mpr ⟨query, hquery, hmethod, rfl⟩)
    (stringToSign_eq_some_iff.mpr ⟨back, hback, hmethod', ?_⟩)
  rw [heq]

/-- An unambiguous request has one reading: each newline too many gives another. -/
theorem Unambiguous.singleReading {upper : Upper} {request : Request} {query : Text}
    (hquery : canonicalQuery request.params = some query)
    (hmethod : upper.text request.method = request.method)
    (hdigest : isBodyDigest request.bodySha256 = true) (hun : Unambiguous upper request) :
    SingleReading upper request query := by
  have hreading (date keyId method path back : Text) (params : Dict Text Text)
      (hmethod' : upper.text method = method) (hback : canonicalQuery params = some back)
      (heq : signedLines request.date request.keyId request.method request.path query =
        signedLines date keyId method path back) :=
    hun.reading hquery hmethod hdigest hmethod' hback heq
  have hlonger {front back : Text} (heq : front = front ++ '\n' :: back) : False := by
    have hlength := congrArg List.length heq
    rw [List.length_append, List.length_cons] at hlength
    omega
  refine ⟨?_, ?_, ?_, ?_, ?_⟩
  · -- the rest of the date goes to the key id
    intro hmem
    obtain ⟨front, rest, hdate⟩ := List.append_of_mem hmem
    have hsame := hreading front (rest ++ '\n' :: request.keyId) request.method request.path query
      request.params hmethod hquery (by simp [signedLines, hdate])
    exact hlonger (hsame.date.symm.trans hdate)
  · -- the front of the key id goes to the date
    intro hmem
    obtain ⟨front, rest, hkeyId⟩ := List.append_of_mem hmem
    have hsame := hreading (request.date ++ '\n' :: front) rest request.method request.path query
      request.params hmethod hquery (by simp [signedLines, hkeyId])
    exact hlonger hsame.date
  · -- the first line of the method goes to the key id
    intro hmem
    obtain ⟨hfree, heq⟩ := Delimited.take_idxOf hmem
    generalize request.method.take (request.method.idxOf '\n') = front at hfree heq
    generalize request.method.drop (request.method.idxOf '\n' + 1) = rest at heq
    have hupper : upper.text (front ++ '\n' :: rest) = front ++ '\n' :: rest := by
      rw [← heq]
      exact hmethod
    have hsame := hreading request.date (request.keyId ++ '\n' :: front) rest request.path query
      request.params (Upper.text_lines hfree hupper).2 hquery (by simp [signedLines, heq])
    exact hlonger hsame.keyId
  · -- a line of the path serves as the method, and what stands before it goes to the key id
    intro line hmem hline
    obtain ⟨front, rest, hpath, rfl | ⟨before, rfl⟩⟩ := Delimited.exists_of_mem_split hmem
    · have hsame := hreading request.date (request.keyId ++ '\n' :: request.method) line rest query
        request.params hline hquery (by simp [signedLines, hpath])
      exact hlonger hsame.keyId
    · have hsame := hreading request.date
        (request.keyId ++ '\n' :: (request.method ++ '\n' :: before)) line rest query
        request.params hline hquery (by simp [signedLines, hpath])
      exact hlonger hsame.keyId
  · -- the query of another cut is signed as well
    intro front back heq hform
    obtain ⟨params, hback⟩ := isQuery_iff.mp hform
    have hsame := hreading request.date request.keyId request.method front back params hmethod hback
      (by simp [signedLines, heq])
    exact hsame.path.symm

/-- A request that is accepted is unambiguous exactly when its lines leave no second reading, and
its query does not depend on the order of the parameters. -/
theorem request_unambiguous_iff {upper : Upper} {request : Request} {query : Text}
    (hquery : canonicalQuery request.params = some query)
    (hmethod : upper.text request.method = request.method)
    (hdigest : isBodyDigest request.bodySha256 = true) :
    (∀ params : Dict Text Text, params.Same request.params → canonicalQuery params = some query) ∧
      (Unambiguous upper request ↔ SingleReading upper request query) := by
  refine ⟨fun params hsame => (canonicalQuery_eq_of_same hsame).trans hquery, ?_, ?_⟩
  · exact Unambiguous.singleReading hquery hmethod hdigest
  · exact SingleReading.unambiguous hquery hdigest

/-! ## A newline in the date -/

theorem toUpper_ne_newline (c : Char) (hc : c ≠ '\n') : '\n' ∉ [c.toUpper] := by
  rw [List.mem_singleton]
  delta Char.toUpper
  split
  case isTrue hlower =>
    intro heq
    have hval := congrArg (fun d : Char => d.val) heq
    simp only [UInt32.le_iff_toNat_le] at hlower
    have hnat := congrArg UInt32.toNat hval
    simp only [UInt32.toNat_add] at hnat
    have ha : 'a'.val.toNat = 97 := rfl
    have hz : 'z'.val.toNat = 122 := rfl
    have hshift : ('A'.val - 'a'.val).toNat = 4294967264 := rfl
    have hnewline : '\n'.val.toNat = 10 := rfl
    omega
  case isFalse => exact Ne.symm hc

/-- `str.upper` on ASCII. -/
def asciiUpper : Upper where
  char := fun c => [c.toUpper]
  newline := rfl
  other := toUpper_ne_newline

/-- `GET /s?u=1`, signed by the key `k` on the day `d`. -/
def plainRequest : Request where
  date := ['d']
  keyId := ['k']
  method := ['G', 'E', 'T']
  path := ['/', 's']
  params := ⟨[(['u'], ['1'])], by decide⟩
  bodySha256 := List.replicate 64 '0'

/-- The key id begins in the date. -/
def datedRequest : Request := { plainRequest with date := ['d', '\n', 'k'], keyId := ['l'] }

/-- The date ends in the key id. -/
def keyedRequest : Request := { plainRequest with keyId := ['k', '\n', 'l'] }

theorem request_unambiguous_iff_plain :
    (∀ params : Dict Text Text, params.Same plainRequest.params →
        canonicalQuery params = some ['u', '=', '1']) ∧
      (Unambiguous asciiUpper plainRequest ↔
        SingleReading asciiUpper plainRequest ['u', '=', '1']) :=
  request_unambiguous_iff rfl rfl rfl

/-- Two requests of different dates and keys sign the same string. -/
theorem stringToSign_clash :
    isBodyDigest datedRequest.bodySha256 = true ∧ isBodyDigest keyedRequest.bodySha256 = true ∧
      (datedRequest.stringToSign asciiUpper).isSome = true ∧
      datedRequest.stringToSign asciiUpper = keyedRequest.stringToSign asciiUpper ∧
      datedRequest.date ≠ keyedRequest.date ∧ datedRequest.keyId ≠ keyedRequest.keyId :=
  ⟨rfl, rfl, rfl, rfl, by decide, by decide⟩

end VisioSchema.Ingest

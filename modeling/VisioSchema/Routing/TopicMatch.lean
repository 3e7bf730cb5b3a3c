import Mathlib.Data.List.TakeWhile
import VisioSchema.Library.Glob
import VisioSchema.Wire.Message

/-!
# Matching a topic against a pattern

`TopicMatches`: the patterns of a stream policy over a topic's path segments.  The scan is greedy
and remembers the last `**` only; it is shown to decide the declarative reading of the pattern
language (`Covers`), and to end.

A greedy scan may forget the earlier `**`s, since up to the last one nothing is left to choose:
if the topic matches at all, it matches with the earlier stretches as short as they were found.
That is the invariant of the scan (`ScanOk`), and each kind of turn keeps it: at a `**`, at a
segment that matches, and back to the last `**`, whose stretch then takes one segment more.
-/

namespace VisioSchema.Routing

open VisioSchema.Library VisioSchema.Wire

/-- A path segment, as its bytes. -/
abbrev PathSegment := List Byte

/-- `'/'`. -/
def slash : Byte := 47

/-- `"*"`: exactly one segment. -/
def oneSegment : PathSegment := [42]

/-- `"**"`: zero or more segments. -/
def anySegments : PathSegment := [42, 42]

/-- `kMaxSegments`. -/
def maxSegments : ℕ := 12

/-! ## Splitting a path -/

/-- The loop of `Split`, with so much room left in the buffer. -/
def splitLoop : ℕ → List Byte → Option (List PathSegment)
  | 0, _ => none
  | room + 1, s =>
      match s.dropWhile (· != slash) with
      | [] => some [s]
      | _ :: rest => (splitLoop room rest).map (s.takeWhile (· != slash) :: ·)

/-- One leading `'/'` is dropped. -/
def stripSlash : List Byte → List Byte
  | [] => []
  | b :: rest => if b == slash then rest else b :: rest

/-- `Split`: the segments of a path, if they fit the buffer. -/
def split (s : List Byte) : Option (List PathSegment) := splitLoop maxSegments (stripSlash s)

/-! ## The scan -/

/-- The positions of `TopicMatches`: in the pattern, in the topic, of the last `**` (the
pattern's length, if there was none) and of the topic where its stretch ends. -/
structure Scan where
  i : ℕ
  j : ℕ
  star : ℕ
  starJ : ℕ
  deriving DecidableEq, Repr

variable (p t : List PathSegment)

/-- One turn of the loop; none if it returns false. -/
def Scan.step (s : Scan) : Option Scan :=
  if p[s.i]? = some anySegments then
    some { i := s.i + 1, j := s.j, star := s.i, starJ := s.j }
  else if (p[s.i]?).any (fun seg => seg == oneSegment || some seg == t[s.j]?) then
    some { s with i := s.i + 1, j := s.j + 1 }
  else if s.star ≠ p.length then
    some { s with i := s.star + 1, j := s.starJ + 1, starJ := s.starJ + 1 }
  else none

/-- The loop, for so many turns at most: where it ends, or that it returns false. -/
def scanLoop : ℕ → Scan → Option (Option Scan)
  | 0, _ => none
  | fuel + 1, s =>
      if s.j < t.length then
        match s.step p t with
        | some s => scanLoop fuel s
        | none => some none
      else some (some s)

/-- The pattern is exhausted, modulo a trailing `**`. -/
def exhausted (i : ℕ) : Bool := ((p.drop i).dropWhile (· == anySegments)).isEmpty

/-- More turns than the loop takes. -/
def scanBound : ℕ := (t.length + 2) * (p.length + 1)

/-- The loop over the segments, and what is left of the pattern. -/
def segmentsMatch : Option Bool :=
  (scanLoop p t (scanBound p t) { i := 0, j := 0, star := p.length, starJ := 0 }).map fun last =>
    match last with
    | none => false
    | some s => exhausted p s.i

/-- `TopicMatches`; none if the loop did not end within its bound. -/
def topicMatches (pattern topic : List Byte) : Option Bool :=
  match split pattern, split topic with
  | some p, some t =>
      if p.head? = some [] ∨ t.head? = some [] then some false else segmentsMatch p t
  | _, _ => some false

/-! ## What the pattern means -/

/-- `"**"` stands for any stretch of segments. -/
def isStar (seg : PathSegment) : Bool := seg == anySegments

/-- Any other pattern segment stands for one segment: `"*"` for any, the rest for an equal one. -/
def accepts (seg x : PathSegment) : Bool := seg == oneSegment || seg == x

/-- The topic's segments can be cut into pieces that the pattern's segments match one by one. -/
def GlobMatches : Prop := Covers isStar accepts p t

/-- A path, with or without a leading `'/'`, and its segments. -/
structure Splits (s : List Byte) (segments : List PathSegment) : Prop where
  joined : [slash].intercalate segments = stripSlash s
  nonempty : segments ≠ []
  no_slash : ∀ seg ∈ segments, slash ∉ seg

/-! ## The scan decides the meaning -/

variable {p t}

/-- Between two positions of the pattern and two of the topic, segment matches segment. -/
def Front (p t : List PathSegment) (b c i j : ℕ) : Prop :=
  ∃ lits items, p.drop b = lits ++ p.drop i ∧ t.drop c = items ++ t.drop j ∧
    Fits isStar accepts lits items

theorem Front.refl (b c : ℕ) : Front p t b c b c := ⟨[], [], rfl, rfl, List.Forall₂.nil⟩

theorem Front.succ {b c i j : ℕ} (hfront : Front p t b c i j) {seg x : PathSegment}
    (hseg : p[i]? = some seg) (hx : t[j]? = some x) (hstar : isStar seg = false)
    (haccepts : accepts seg x = true) : Front p t b c (i + 1) (j + 1) := by
  obtain ⟨lits, items, hlits, hitems, hfits⟩ := hfront
  obtain ⟨hi, rfl⟩ := List.getElem?_eq_some_iff.mp hseg
  obtain ⟨hj, rfl⟩ := List.getElem?_eq_some_iff.mp hx
  refine ⟨lits ++ [p[i]], items ++ [t[j]], ?_, ?_, hfits.snoc hstar haccepts⟩
  · rw [hlits, List.drop_eq_getElem_cons hi]
    simp
  · rw [hitems, List.drop_eq_getElem_cons hj]
    simp

theorem Front.covers_iff {b c i j : ℕ} (hfront : Front p t b c i j) :
    GlobMatches (p.drop b) (t.drop c) ↔ GlobMatches (p.drop i) (t.drop j) := by
  obtain ⟨lits, items, hlits, hitems, hfits⟩ := hfront
  rw [GlobMatches, hlits, hitems, covers_fits_append hfits]
  rfl

/-- What the scan knows of a state: up to the last `**` nothing is left to choose, and behind it
segment matches segment. -/
structure ScanOk (p t : List PathSegment) (s : Scan) : Prop where
  i_le : s.i ≤ p.length
  j_le : s.j ≤ t.length
  fresh : s.star = p.length → Front p t 0 0 s.i s.j
  star_lt : s.star ≠ p.length → s.star < s.i ∧ s.starJ ≤ s.j
  choice : s.star ≠ p.length →
    (GlobMatches p t ↔ ∃ k, GlobMatches (p.drop (s.star + 1)) (t.drop (s.starJ + k)))
  front : s.star ≠ p.length → Front p t (s.star + 1) s.starJ s.i s.j

theorem scanOk_start : ScanOk p t { i := 0, j := 0, star := p.length, starJ := 0 } where
  i_le := Nat.zero_le _
  j_le := Nat.zero_le _
  fresh := fun _ => Front.refl 0 0
  star_lt := fun hne => absurd rfl hne
  choice := fun hne => absurd rfl hne
  front := fun hne => absurd rfl hne

/-- A turn at a `**`: its stretch may end anywhere from here on. -/
theorem ScanOk.star {s : Scan} (hs : ScanOk p t s) (hseg : p[s.i]? = some anySegments) :
    ScanOk p t { i := s.i + 1, j := s.j, star := s.i, starJ := s.j } := by
  obtain ⟨hi, hget⟩ := List.getElem?_eq_some_iff.mp hseg
  have hdrop : p.drop s.i = anySegments :: p.drop (s.i + 1) := by
    rw [List.drop_eq_getElem_cons hi, hget]
  have hhere : GlobMatches (p.drop s.i) (t.drop s.j) ↔
      ∃ k, GlobMatches (p.drop (s.i + 1)) (t.drop (s.j + k)) := by
    rw [GlobMatches, hdrop, covers_cons_star (show isStar anySegments = true by rfl)]
    simp only [List.drop_drop, GlobMatches]
  refine ⟨hi, hs.j_le, fun heq => absurd heq (Nat.ne_of_lt hi),
    fun _ => ⟨Nat.lt_succ_self _, Nat.le_refl _⟩, fun _ => ?_, fun _ => Front.refl _ _⟩
  show GlobMatches p t ↔ ∃ k, GlobMatches (p.drop (s.i + 1)) (t.drop (s.j + k))
  by_cases hfresh : s.star = p.length
  · rw [← hhere, ← (hs.fresh hfresh).covers_iff]
    rfl
  · constructor
    · intro hmatches
      obtain ⟨k, hk⟩ := (hs.choice hfresh).mp hmatches
      obtain ⟨lits, items, hlits, hitems, hfits⟩ := hs.front hfresh
      have hlen : s.starJ + lits.length = s.j := by
        have hdrops := congrArg List.length hitems
        simp only [List.length_append, List.length_drop] at hdrops
        have hj := hs.j_le
        have hstar := (hs.star_lt hfresh).2
        have hequal := hfits.length_eq
        omega
      rw [GlobMatches, hlits, hdrop] at hk
      obtain ⟨-, hrest⟩ := covers_front hfits.no_star hk
      rw [covers_cons_star (show isStar anySegments = true by rfl)] at hrest
      obtain ⟨more, hrest⟩ := hrest
      rw [List.drop_drop, List.drop_drop] at hrest
      have hplace : s.starJ + k + (lits.length + more) = s.j + (k + more) := by omega
      rw [hplace] at hrest
      exact ⟨k + more, hrest⟩
    · rintro ⟨k, hk⟩
      have hcovers := (hs.front hfresh).covers_iff.mpr (hhere.mpr ⟨k, hk⟩)
      exact (hs.choice hfresh).mpr ⟨0, hcovers⟩

/-- A turn at a segment that matches. -/
theorem ScanOk.literal {s : Scan} (hs : ScanOk p t s) {seg x : PathSegment}
    (hseg : p[s.i]? = some seg) (hx : t[s.j]? = some x) (hstar : isStar seg = false)
    (haccepts : accepts seg x = true) : ScanOk p t { s with i := s.i + 1, j := s.j + 1 } where
  i_le := (List.getElem?_eq_some_iff.mp hseg).1
  j_le := (List.getElem?_eq_some_iff.mp hx).1
  fresh := fun hfresh => (hs.fresh hfresh).succ hseg hx hstar haccepts
  star_lt := fun hne => by
    have hlt := hs.star_lt hne
    exact ⟨Nat.lt_succ_of_lt hlt.1, Nat.le_succ_of_le hlt.2⟩
  choice := hs.choice
  front := fun hne => (hs.front hne).succ hseg hx hstar haccepts

/-- Where no segment matches, the rest of the pattern does not match the rest of the topic. -/
theorem not_globMatches_rest {i j : ℕ} (hj : j < t.length) (hseg : p[i]? ≠ some anySegments)
    (hno : (p[i]?).any (fun seg => seg == oneSegment || some seg == t[j]?) = false) :
    ¬GlobMatches (p.drop i) (t.drop j) := by
  intro hmatches
  have hget : t[j]? = some t[j] := List.getElem?_eq_getElem hj
  cases hp : p[i]? with
  | none =>
      have hdrop : p.drop i = [] := List.drop_eq_nil_of_le (List.getElem?_eq_none_iff.mp hp)
      rw [GlobMatches, hdrop, covers_nil, List.drop_eq_nil_iff] at hmatches
      omega
  | some seg =>
      obtain ⟨hi, hget'⟩ := List.getElem?_eq_some_iff.mp hp
      have hstar : isStar seg = false := by
        rw [hp] at hseg
        simpa [isStar] using fun h => hseg (congrArg some h)
      rw [GlobMatches, List.drop_eq_getElem_cons hi, hget', covers_cons_one hstar,
        List.drop_eq_getElem_cons hj] at hmatches
      obtain ⟨x, rest, heq, haccepts, -⟩ := hmatches
      obtain ⟨rfl, -⟩ := List.cons.inj heq
      rw [hp, hget] at hno
      simp only [Option.any_some, Bool.or_eq_false_iff] at hno
      simp only [accepts, Bool.or_eq_true] at haccepts
      rcases haccepts with hone | hequal
      · rw [hno.1] at hone
        cases hone
      · have hfalse := hno.2
        simp only [beq_eq_false_iff_ne, ne_eq, Option.some.injEq] at hfalse
        exact hfalse (by simpa using hequal)

/-- A turn back: the stretch of the last `**` takes one segment more. -/
theorem ScanOk.back {s : Scan} (hs : ScanOk p t s) (hj : s.j < t.length)
    (hstar : s.star ≠ p.length) (hlt : s.star < p.length)
    (hno : ¬GlobMatches (p.drop s.i) (t.drop s.j)) :
    ScanOk p t { s with i := s.star + 1, j := s.starJ + 1, starJ := s.starJ + 1 } := by
  obtain ⟨hbefore, hstarJ⟩ := hs.star_lt hstar
  refine ⟨hlt, by show s.starJ + 1 ≤ t.length; omega, fun heq => absurd heq hstar,
    fun _ => ⟨Nat.lt_succ_self _, Nat.le_refl _⟩, fun _ => ?_, fun _ => Front.refl _ _⟩
  refine (hs.choice hstar).trans ⟨?_, ?_⟩
  · rintro ⟨k, hk⟩
    cases k with
    | zero => exact absurd ((hs.front hstar).covers_iff.mp hk) hno
    | succ k => exact ⟨k, by rwa [show s.starJ + 1 + k = s.starJ + (k + 1) by omega]⟩
  · rintro ⟨k, hk⟩
    exact ⟨k + 1, by rwa [show s.starJ + (k + 1) = s.starJ + 1 + k by omega]⟩

/-- A turn keeps the invariant; where it returns false, the topic does not match. -/
theorem scanOk_step {s : Scan} (hs : ScanOk p t s) (hlt : s.star ≤ p.length)
    (hj : s.j < t.length) :
    match s.step p t with
    | some s' => ScanOk p t s' ∧ s'.star ≤ p.length
    | none => ¬GlobMatches p t := by
  by_cases hany : p[s.i]? = some anySegments
  · rw [Scan.step, if_pos hany]
    exact ⟨hs.star hany, Nat.le_of_lt (List.getElem?_eq_some_iff.mp hany).1⟩
  · rw [Scan.step, if_neg hany]
    cases hone : (p[s.i]?).any (fun seg => seg == oneSegment || some seg == t[s.j]?) with
    | true =>
        rw [if_pos rfl]
        refine ⟨?_, hlt⟩
        have hget : t[s.j]? = some t[s.j] := List.getElem?_eq_getElem hj
        cases hseg : p[s.i]? with
        | none =>
            rw [hseg] at hone
            cases hone
        | some seg =>
            rw [hseg, hget] at hone
            refine hs.literal hseg hget ?_ (by simpa [accepts] using hone)
            rw [hseg] at hany
            simpa [isStar] using fun h => hany (congrArg some h)
    | false =>
        rw [if_neg (by simp)]
        have hno := not_globMatches_rest hj hany hone
        by_cases hstar : s.star = p.length
        · rw [if_neg (not_not.mpr hstar)]
          exact fun hmatches => hno ((hs.fresh hstar).covers_iff.mp hmatches)
        · rw [if_pos hstar]
          exact ⟨hs.back hj hstar (by omega) hno, hlt⟩

/-- At the end of the topic, what is left of the pattern decides. -/
theorem ScanOk.matches_iff {s : Scan} (hs : ScanOk p t s) (hj : ¬s.j < t.length) :
    GlobMatches p t ↔ exhausted p s.i = true := by
  have hend : t.drop s.j = [] := List.drop_eq_nil_of_le (by omega)
  have hrest : GlobMatches (p.drop s.i) (t.drop s.j) ↔ exhausted p s.i = true := by
    rw [hend, GlobMatches, covers_empty, exhausted, List.isEmpty_iff, List.dropWhile_eq_nil_iff]
    rfl
  rw [← hrest]
  by_cases hstar : s.star = p.length
  · exact (hs.fresh hstar).covers_iff
  · refine (hs.choice hstar).trans
      ⟨?_, fun hmatches => ⟨0, (hs.front hstar).covers_iff.mpr hmatches⟩⟩
    rintro ⟨k, hk⟩
    refine (hs.front hstar).covers_iff.mp ?_
    -- the segments behind the `**` are as many as the rest of the pattern needs at least
    obtain ⟨lits, items, hlits, hitems, hfits⟩ := hs.front hstar
    have hk' := hk
    rw [GlobMatches, hlits] at hk'
    obtain ⟨hlen, -⟩ := covers_front hfits.no_star hk'
    rw [hend, List.append_nil] at hitems
    have hequal := hfits.length_eq
    have hdrop : t.drop (s.starJ + k) = items.drop k := by rw [← hitems, List.drop_drop]
    rw [hdrop, List.length_drop] at hlen
    have hsame : items.drop k = items := by
      cases k with
      | zero => rfl
      | succ k =>
          have hnone : items = [] := List.eq_nil_of_length_eq_zero (by omega)
          rw [hnone, List.drop_nil]
    rw [hdrop, hsame] at hk
    rwa [hitems]

/-! ## The loop ends -/

/-- The turns left: each moves the end of the last stretch on, or the place in the pattern. -/
def turnsLeft (p t : List PathSegment) (s : Scan) : ℕ :=
  (if s.star = p.length then t.length + 1 else t.length - s.starJ) * (p.length + 1) +
    (p.length - s.i)

theorem step_turnsLeft {s s' : Scan} (hs : ScanOk p t s) (hlt : s.star ≤ p.length)
    (hj : s.j < t.length) (hstep : s.step p t = some s') :
    turnsLeft p t s' < turnsLeft p t s := by
  by_cases hany : p[s.i]? = some anySegments
  · have hi := (List.getElem?_eq_some_iff.mp hany).1
    rw [Scan.step, if_pos hany] at hstep
    obtain rfl := Option.some_inj.mp hstep
    have hbound : (t.length - s.j) * (p.length + 1) ≤
        (if s.star = p.length then t.length + 1 else t.length - s.starJ) * (p.length + 1) := by
      refine Nat.mul_le_mul_right _ ?_
      split
      · omega
      · rename_i hstar
        have hstarJ := (hs.star_lt hstar).2
        omega
    show (if s.i = p.length then _ else t.length - s.j) * _ + (p.length - (s.i + 1)) < _
    rw [if_neg (Nat.ne_of_lt hi), turnsLeft]
    omega
  · rw [Scan.step, if_neg hany] at hstep
    cases hone : (p[s.i]?).any (fun seg => seg == oneSegment || some seg == t[s.j]?) with
    | true =>
        rw [hone, if_pos rfl] at hstep
        obtain rfl := Option.some_inj.mp hstep
        have hi : s.i < p.length := by
          by_contra hge
          rw [List.getElem?_eq_none (Nat.le_of_not_lt hge)] at hone
          cases hone
        show _ * _ + (p.length - (s.i + 1)) < _ * _ + (p.length - s.i)
        exact Nat.add_lt_add_left (by omega) _
    | false =>
        rw [hone, if_neg (by simp)] at hstep
        by_cases hstar : s.star = p.length
        · rw [if_neg (not_not.mpr hstar)] at hstep
          cases hstep
        · rw [if_pos hstar] at hstep
          obtain rfl := Option.some_inj.mp hstep
          have hstarJ := (hs.star_lt hstar).2
          have hmore : t.length - s.starJ = t.length - (s.starJ + 1) + 1 := by omega
          show (if s.star = p.length then _ else t.length - (s.starJ + 1)) * _ + _ < _
          rw [if_neg hstar, turnsLeft, if_neg hstar, hmore, Nat.succ_mul]
          omega

/-- With turns enough the loop ends, and answers whether the topic matches. -/
theorem scanLoop_spec {s : Scan} (hs : ScanOk p t s) (hlt : s.star ≤ p.length) {fuel : ℕ}
    (hfuel : turnsLeft p t s < fuel) :
    ∃ last, scanLoop p t fuel s = some last ∧
      (GlobMatches p t ↔ ∃ s', last = some s' ∧ exhausted p s'.i = true) := by
  induction fuel generalizing s with
  | zero => cases hfuel
  | succ fuel ih =>
      by_cases hj : s.j < t.length
      · have hkeeps := scanOk_step hs hlt hj
        cases hstep : s.step p t with
        | none =>
            rw [hstep] at hkeeps
            refine ⟨none, by simp only [scanLoop, if_pos hj, hstep], ?_⟩
            exact ⟨fun hmatches => absurd hmatches hkeeps, fun ⟨_, hnone, _⟩ => nomatch hnone⟩
        | some s' =>
            rw [hstep] at hkeeps
            have hless := step_turnsLeft hs hlt hj hstep
            obtain ⟨last, hlast, hiff⟩ := ih hkeeps.1 hkeeps.2 (by omega)
            exact ⟨last, by simp only [scanLoop, if_pos hj, hstep, hlast], hiff⟩
      · refine ⟨some s, by simp only [scanLoop, if_neg hj], ?_⟩
        rw [hs.matches_iff hj]
        simp

theorem segmentsMatch_spec (p t : List PathSegment) :
    ∃ answer, segmentsMatch p t = some answer ∧ (answer = true ↔ GlobMatches p t) := by
  have hfuel : turnsLeft p t { i := 0, j := 0, star := p.length, starJ := 0 } < scanBound p t := by
    simp only [turnsLeft, scanBound, if_true]
    have hmul : (t.length + 2) * (p.length + 1) =
        (t.length + 1) * (p.length + 1) + (p.length + 1) := Nat.succ_mul _ _
    omega
  obtain ⟨last, hlast, hiff⟩ := scanLoop_spec (scanOk_start (p := p) (t := t)) (Nat.le_refl _) hfuel
  refine ⟨_, by rw [segmentsMatch, hlast]; rfl, ?_⟩
  rw [hiff]
  cases last with
  | none => simp
  | some s => simp

/-! ## Paths -/

theorem dropWhile_no_slash {seg : PathSegment} (hseg : slash ∉ seg) (rest : List Byte) :
    (seg ++ rest).dropWhile (· != slash) = rest.dropWhile (· != slash) ∧
      (seg ++ rest).takeWhile (· != slash) = seg ++ rest.takeWhile (· != slash) := by
  have hall : ∀ b ∈ seg, (b != slash) = true := by
    intro b hb
    have hne : b ≠ slash := fun heq => hseg (heq ▸ hb)
    simpa using hne
  exact ⟨List.dropWhile_append_of_pos hall, List.takeWhile_append_of_pos hall⟩

theorem splitLoop_intercalate {segments : List PathSegment} (hne : segments ≠ [])
    (hno : ∀ seg ∈ segments, slash ∉ seg) {room : ℕ} (hroom : segments.length ≤ room) :
    splitLoop room ([slash].intercalate segments) = some segments := by
  induction segments generalizing room with
  | nil => exact absurd rfl hne
  | cons seg rest ih =>
      obtain ⟨room, rfl⟩ : ∃ more, room = more + 1 := ⟨room - 1, by simp at hroom; omega⟩
      have hseg := hno seg (List.mem_cons_self ..)
      cases rest with
      | nil =>
          obtain ⟨hdrop, -⟩ := dropWhile_no_slash hseg []
          rw [List.append_nil] at hdrop
          simp [splitLoop, hdrop]
      | cons next rest =>
          have hmore : splitLoop room ([slash].intercalate (next :: rest)) = some (next :: rest) :=
            ih (by simp) (fun s hs => hno s (List.mem_cons_of_mem _ hs)) (by simpa using hroom)
          obtain ⟨hdrop, htake⟩ := dropWhile_no_slash hseg
            (slash :: [slash].intercalate (next :: rest))
          have hjoin : [slash].intercalate (seg :: next :: rest) =
              seg ++ slash :: [slash].intercalate (next :: rest) := by
            rw [List.intercalate_cons_cons]
            simp
          have hstop : (slash :: [slash].intercalate (next :: rest)).dropWhile (· != slash) =
              slash :: [slash].intercalate (next :: rest) := by simp
          have hnone :
              (slash :: [slash].intercalate (next :: rest)).takeWhile (· != slash) = [] := by
            simp
          rw [hjoin, splitLoop, hdrop, htake, hstop, hnone]
          simp [hmore]

theorem splits_of_splitLoop {room : ℕ} {s : List Byte} {segments : List PathSegment}
    (hsplit : splitLoop room s = some segments) :
    [slash].intercalate segments = s ∧ segments ≠ [] ∧ (∀ seg ∈ segments, slash ∉ seg) ∧
      segments.length ≤ room := by
  induction room generalizing s segments with
  | zero => cases hsplit
  | succ room ih =>
      have hparts : s.takeWhile (· != slash) ++ s.dropWhile (· != slash) = s :=
        List.takeWhile_append_dropWhile
      have hfirst : slash ∉ s.takeWhile (· != slash) := by
        intro hmem
        simpa using List.mem_takeWhile_imp hmem
      unfold splitLoop at hsplit
      cases hrest : s.dropWhile (· != slash) with
      | nil =>
          rw [hrest] at hsplit
          obtain rfl := Option.some_inj.mp hsplit
          rw [hrest, List.append_nil] at hparts
          rw [hparts] at hfirst
          exact ⟨List.intercalate_singleton, by simp, by simpa using hfirst, by simp⟩
      | cons b rest =>
          rw [hrest] at hsplit
          obtain ⟨more, hmore, rfl⟩ := Option.map_eq_some_iff.mp hsplit
          obtain ⟨hjoin, hne, hno, hlen⟩ := ih hmore
          have hb : b = slash := by
            have hhead := List.head?_dropWhile_not (· != slash) s
            rw [hrest] at hhead
            simpa using hhead
          refine ⟨?_, by simp, ?_, by simpa using hlen⟩
          · rw [List.intercalate_cons_of_ne_nil hne, hjoin, List.append_assoc]
            rw [hrest, hb] at hparts
            simpa using hparts
          · intro seg hseg
            rcases List.mem_cons.mp hseg with rfl | hseg
            · exact hfirst
            · exact hno seg hseg

/-- `Split` finds a path's segments, if they are no more than the buffer holds. -/
theorem split_eq_some_iff {s : List Byte} {segments : List PathSegment} :
    split s = some segments ↔ Splits s segments ∧ segments.length ≤ maxSegments := by
  constructor
  · intro hsplit
    obtain ⟨hjoin, hne, hno, hlen⟩ := splits_of_splitLoop hsplit
    exact ⟨⟨hjoin, hne, hno⟩, hlen⟩
  · rintro ⟨⟨hjoin, hne, hno⟩, hlen⟩
    rw [split, ← hjoin]
    exact splitLoop_intercalate hne hno hlen

/-! ## The result -/

/-- The scan ends, and holds exactly if the topic's segments can be cut into pieces that the
pattern's segments match one by one. -/
theorem topicMatches_iff {pattern topic : List Byte} {p t : List PathSegment}
    (hp : Splits pattern p) (ht : Splits topic t) (hplen : p.length ≤ maxSegments)
    (htlen : t.length ≤ maxSegments) (hpfirst : p.head? ≠ some []) (htfirst : t.head? ≠ some []) :
    ∃ answer, topicMatches pattern topic = some answer ∧ (answer = true ↔ GlobMatches p t) := by
  have hsplitp : split pattern = some p := split_eq_some_iff.mpr ⟨hp, hplen⟩
  have hsplitt : split topic = some t := split_eq_some_iff.mpr ⟨ht, htlen⟩
  obtain ⟨answer, hanswer, hiff⟩ := segmentsMatch_spec p t
  refine ⟨answer, ?_, hiff⟩
  have hfirst : ¬(p.head? = some [] ∨ t.head? = some []) := by
    rintro (hempty | hempty)
    · exact hpfirst hempty
    · exact htfirst hempty
  simp only [topicMatches, hsplitp, hsplitt, if_neg hfirst, hanswer]

/-- `"**/cam/*"` and `"/e/cam/1"`. -/
theorem topicMatches_iff_camera :
    ∃ answer, topicMatches [42, 42, 47, 99, 97, 109, 47, 42] [47, 101, 47, 99, 97, 109, 47, 49] =
      some answer ∧ (answer = true ↔
        GlobMatches [[42, 42], [99, 97, 109], [42]] [[101], [99, 97, 109], [49]]) :=
  topicMatches_iff ⟨rfl, by simp, by decide⟩ ⟨rfl, by simp, by decide⟩ (by decide) (by decide)
    (by decide) (by decide)

end VisioSchema.Routing

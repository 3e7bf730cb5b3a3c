import Mathlib.Data.Nat.Notation
import Mathlib.Data.List.Basic

/-!
# Delimited streams

A stream is cut at each delimiter into runs, and what follows the last delimiter
waits for more (`split`).  What is waiting is all that later elements need
(`split_append`), so a reader that keeps only that may be fed in pieces of any size.
-/

namespace VisioSchema.Library.Delimited

variable {α : Type*} [DecidableEq α]

/-- The complete runs of a stream, and the elements behind the last delimiter;
`waiting` was read before. -/
def splitFrom (d : α) : List α → List α → List (List α) × List α
  | waiting, [] => ([], waiting)
  | waiting, x :: rest =>
      if x = d then (waiting :: (splitFrom d [] rest).1, (splitFrom d [] rest).2)
      else splitFrom d (waiting ++ [x]) rest

def split (d : α) (stream : List α) : List (List α) × List α := splitFrom d [] stream

variable {d : α}

theorem splitFrom_append (waiting first second : List α) :
    splitFrom d waiting (first ++ second) =
      ((splitFrom d waiting first).1 ++ (splitFrom d (splitFrom d waiting first).2 second).1,
        (splitFrom d (splitFrom d waiting first).2 second).2) := by
  induction first generalizing waiting with
  | nil => rfl
  | cons x first ih =>
      rw [List.cons_append, splitFrom, splitFrom]
      by_cases hx : x = d
      · rw [if_pos hx, if_pos hx, ih]
        rfl
      · rw [if_neg hx, if_neg hx, ih]

theorem splitFrom_of_not_mem {run : List α} (hfree : d ∉ run) (waiting : List α) :
    splitFrom d waiting run = ([], waiting ++ run) := by
  induction run generalizing waiting with
  | nil => rw [List.append_nil]; rfl
  | cons x run ih =>
      rw [List.mem_cons, not_or] at hfree
      rw [splitFrom, if_neg (Ne.symm hfree.1), ih hfree.2, List.append_assoc]
      rfl

/-- What waits holds no delimiter. -/
theorem not_mem_waiting {waiting : List α} (hfree : d ∉ waiting) (stream : List α) :
    d ∉ (splitFrom d waiting stream).2 := by
  induction stream generalizing waiting with
  | nil => exact hfree
  | cons x stream ih =>
      rw [splitFrom]
      by_cases hx : x = d
      · rw [if_pos hx]
        exact ih List.not_mem_nil
      · rw [if_neg hx]
        exact ih (by simp [hfree, Ne.symm hx])

/-- A stream is read on from what waits. -/
theorem split_append (first second : List α) :
    split d (first ++ second) =
      ((split d first).1 ++ (split d ((split d first).2 ++ second)).1,
        (split d ((split d first).2 ++ second)).2) := by
  have hfree : d ∉ (split d first).2 := not_mem_waiting List.not_mem_nil first
  have hwaiting : split d ((split d first).2 ++ second) =
      splitFrom d (split d first).2 second := by
    rw [split, splitFrom_append, splitFrom_of_not_mem hfree]
    rfl
  rw [hwaiting]
  exact splitFrom_append [] first second

/-- A delimited run is one of the runs. -/
theorem split_run {run : List α} (hfree : d ∉ run) (rest : List α) :
    split d (run ++ d :: rest) = (run :: (split d rest).1, (split d rest).2) := by
  rw [split, splitFrom_append, splitFrom_of_not_mem hfree, splitFrom, if_pos rfl]
  rfl

theorem split_of_not_mem {run : List α} (hfree : d ∉ run) : split d run = ([], run) :=
  splitFrom_of_not_mem hfree []

/-- Everything before a delimiter is complete. -/
theorem split_delimiter (garbage rest : List α) :
    split d (garbage ++ d :: rest) =
      ((split d garbage).1 ++ (split d garbage).2 :: (split d rest).1, (split d rest).2) := by
  have hfree : d ∉ (split d garbage).2 := not_mem_waiting List.not_mem_nil garbage
  rw [split_append, split_run hfree]

/-! ## Finding the delimiter -/

/-- A list cut at its first delimiter. -/
theorem take_idxOf {stream : List α} (hmem : d ∈ stream) :
    d ∉ stream.take (stream.idxOf d) ∧
      stream = stream.take (stream.idxOf d) ++ d :: stream.drop (stream.idxOf d + 1) := by
  induction stream with
  | nil => cases hmem
  | cons x stream ih =>
      by_cases hx : x = d
      · simp [hx]
      · have htail := ih ((List.mem_cons.mp hmem).resolve_left (Ne.symm hx))
        rw [List.idxOf_cons_ne _ hx, List.take_succ_cons, List.drop_succ_cons, List.mem_cons,
          List.cons_append]
        exact ⟨not_or.mpr ⟨Ne.symm hx, htail.1⟩, congrArg (x :: ·) htail.2⟩

/-- A stream without a complete run holds no delimiter. -/
theorem split_fst_eq_nil_iff {stream : List α} : (split d stream).1 = [] ↔ d ∉ stream := by
  constructor
  · intro hnil hmem
    obtain ⟨front, rest, rfl⟩ := List.append_of_mem hmem
    rw [split_delimiter] at hnil
    exact List.append_ne_nil_of_right_ne_nil _ (List.cons_ne_nil _ _) hnil
  · intro hfree
    rw [split_of_not_mem hfree]

/-- A complete run stands between delimiters, or at the front. -/
theorem exists_of_mem_split {run stream : List α} (hmem : run ∈ (split d stream).1) :
    ∃ front rest, stream = front ++ (run ++ d :: rest) ∧
      (front = [] ∨ ∃ before, front = before ++ [d]) := by
  by_cases hin : d ∈ stream
  · obtain ⟨hfree, heq⟩ := take_idxOf hin
    rw [heq, split_run hfree, List.mem_cons] at hmem
    rcases hmem with rfl | hmem
    · exact ⟨[], _, heq, .inl rfl⟩
    · have hshort : (stream.drop (stream.idxOf d + 1)).length < stream.length := by
        have := List.length_pos_of_mem hin
        rw [List.length_drop]
        omega
      obtain ⟨front, rest, hrest, hfront⟩ := exists_of_mem_split hmem
      refine ⟨stream.take (stream.idxOf d) ++ d :: front, rest, ?_, .inr ?_⟩
      · rw [List.append_assoc, List.cons_append, ← hrest]
        exact heq
      · rcases hfront with rfl | ⟨before, rfl⟩
        · exact ⟨_, rfl⟩
        · exact ⟨stream.take (stream.idxOf d) ++ d :: before, by simp⟩
  · rw [split_of_not_mem hin] at hmem
    cases hmem
termination_by stream.length

/-! ## Cuts -/

omit [DecidableEq α] in
/-- Two cuts of one stream: they are the same, or one lies behind the other. -/
theorem cut_cases {front back front' back' : List α}
    (heq : front ++ d :: back = front' ++ d :: back') :
    (front = front' ∧ back = back') ∨
      (∃ between, front' = front ++ d :: between ∧ back = between ++ d :: back') ∨
      ∃ between, front = front' ++ d :: between ∧ back' = between ++ d :: back := by
  rcases List.append_eq_append_iff.mp heq with ⟨more, hfront, hback⟩ | ⟨more, hfront, hback⟩
  · cases more with
    | nil =>
        rw [List.append_nil] at hfront
        exact .inl ⟨hfront.symm, (List.cons.inj hback).2⟩
    | cons x between =>
        obtain ⟨rfl, hbetween⟩ := List.cons.inj hback
        exact .inr (.inl ⟨between, hfront, hbetween⟩)
  · cases more with
    | nil =>
        rw [List.append_nil] at hfront
        exact .inl ⟨hfront, (List.cons.inj hback).2.symm⟩
    | cons x between =>
        obtain ⟨rfl, hbetween⟩ := List.cons.inj hback
        exact .inr (.inr ⟨between, hfront, hbetween⟩)

/-! ## Joined pieces -/

/-- A stream is cut into pieces without the delimiter. -/
theorem not_mem_splitOn {stream piece : List α} (hpiece : piece ∈ stream.splitOn d) :
    d ∉ piece := by
  induction stream generalizing piece with
  | nil =>
      rw [List.splitOn_nil, List.mem_singleton] at hpiece
      rw [hpiece]
      exact List.not_mem_nil
  | cons x rest ih =>
      rw [List.splitOn_cons_eq_if_modifyHead] at hpiece
      by_cases hx : x = d
      · rw [if_pos (beq_iff_eq.mpr hx), List.mem_cons] at hpiece
        rcases hpiece with rfl | hpiece
        · exact List.not_mem_nil
        · exact ih hpiece
      · rw [if_neg (by simpa using hx)] at hpiece
        cases hsplit : rest.splitOn d with
        | nil => exact absurd hsplit (List.splitOn_ne_nil d rest)
        | cons first pieces =>
            rw [hsplit] at hpiece ih
            rcases List.mem_cons.mp hpiece with rfl | hlater
            · exact List.not_mem_cons_of_ne_of_not_mem (Ne.symm hx) (ih (List.mem_cons_self ..))
            · exact ih (List.mem_cons_of_mem _ hlater)

/-- Pieces without the delimiter are what was joined. -/
theorem intercalate_inj {first second : List (List α)} (hfirst : ∀ piece ∈ first, d ∉ piece)
    (hsecond : ∀ piece ∈ second, d ∉ piece) (hne : first ≠ []) (hne' : second ≠ [])
    (heq : [d].intercalate first = [d].intercalate second) : first = second := by
  rw [← List.splitOn_intercalate d hfirst hne, ← List.splitOn_intercalate d hsecond hne', heq]

end VisioSchema.Library.Delimited

import Mathlib.Data.Char
import Mathlib.Data.List.Lex
import VisioSchema.Reader.Parts

/-!
# The chains of a stream

`_window_members` groups the files of a stream into chains.  Where no part of a recording comes
twice, a file continues at most the one just before it, so that files of different chains do not
continue each other (`chains_apart`), whichever of those between them are skipped.
-/

namespace VisioSchema.Reader

open VisioSchema.Library VisioSchema.Wire

variable {D : Type*}

/-! ## Keys in order -/

theorem FileKey.le_total (a b : FileKey) : a.le b = true ∨ b.le a = true := by
  unfold FileKey.le
  rcases lt_trichotomy a.start b.start with hlt | heq | hgt
  · simp [hlt.ne, hlt]
  · rcases lt_trichotomy a.identity b.identity with hlt' | heq' | hgt'
    · simp [heq, hlt'.ne, hlt']
    · simpa [heq, heq'] using Nat.le_total a.part b.part
    · simp [heq, hgt'.ne, hgt']
  · simp [hgt.ne, hgt]

theorem FileKey.le_iff {a b : FileKey} : a.le b = true ↔
    a.start < b.start ∨ a.start = b.start ∧
      (a.identity < b.identity ∨ a.identity = b.identity ∧ a.part ≤ b.part) := by
  unfold FileKey.le
  by_cases hstart : a.start = b.start
  · by_cases hidentity : a.identity = b.identity
    · simp [hstart, hidentity]
    · simp [hstart, hidentity]
  · simp [hstart]

theorem FileKey.le_trans {a b c : FileKey} (hab : a.le b = true) (hbc : b.le c = true) :
    a.le c = true := by
  rw [FileKey.le_iff] at hab hbc ⊢
  rcases hab with hab | ⟨hab, hab'⟩
  · rcases hbc with hbc | ⟨hbc, -⟩
    · exact Or.inl (hab.trans hbc)
    · exact Or.inl (hbc ▸ hab)
  · rcases hbc with hbc | ⟨hbc, hbc'⟩
    · exact Or.inl (hab ▸ hbc)
    · refine Or.inr ⟨hab.trans hbc, ?_⟩
      rcases hab' with hab' | ⟨hab', hpart⟩
      · rcases hbc' with hbc' | ⟨hbc', -⟩
        · exact Or.inl (hab'.trans hbc')
        · exact Or.inl (hbc' ▸ hab')
      · rcases hbc' with hbc' | ⟨hbc', hpart'⟩
        · exact Or.inl (hab' ▸ hbc')
        · exact Or.inr ⟨hab'.trans hbc', hpart.trans hpart'⟩

theorem fileOrder_pairwise (files : List (File D)) :
    (fileOrder files).Pairwise fun a b => (fileKey files a).le (fileKey files b) = true := by
  have : Std.Total fun a b : File D => (fileKey files a).le (fileKey files b) = true :=
    ⟨fun a b => FileKey.le_total _ _⟩
  have : IsTrans (File D) fun a b => (fileKey files a).le (fileKey files b) = true :=
    ⟨fun a b c => FileKey.le_trans⟩
  exact List.pairwise_insertionSort _ files

/-! ## No part comes twice -/

/-- Parts of one recording have different numbers, and the recording has a name. -/
structure Unrepeated (files : List (File D)) : Prop where
  named : ∀ file ∈ files, ∀ rotation, file.rotation = some rotation → rotation.identity ≠ []
  distinct : files.Pairwise fun a b => ∀ rotation other, a.rotation = some rotation →
    b.rotation = some other → rotation.identity = other.identity → rotation.part ≠ other.part

/-- Files of one recording start together. -/
theorem chainStart_same {files : List (File D)} {identity : Text} {a b : File D} (ha : a ∈ files)
    (hb : b ∈ files) (haIdentity : a.rotation.map Rotation.identity = some identity)
    (hbIdentity : b.rotation.map Rotation.identity = some identity) :
    chainStart files identity a.start = chainStart files identity b.start := by
  have hfilter : ∀ start, chainStart files identity start =
      chainStart (files.filter fun file => file.rotation.map Rotation.identity = some identity)
        identity start := by
    intro start
    unfold chainStart
    rw [List.foldl_filter]
    refine congrArg (fun f => files.foldl f start) (funext fun earliest => funext fun file => ?_)
    by_cases hidentity : file.rotation.map Rotation.identity = some identity
    · simp [hidentity]
    · simp [hidentity]
  rw [hfilter, hfilter]
  have hmem : ∀ {file : File D}, file ∈ files →
      file.rotation.map Rotation.identity = some identity →
      file ∈ files.filter fun file => file.rotation.map Rotation.identity = some identity :=
    fun hfile hidentity => List.mem_filter.mpr ⟨hfile, by simpa using hidentity⟩
  refine chainStart_eq (fun file hfile => ?_) (hmem ha haIdentity) (hmem hb hbIdentity)
  simpa using (List.mem_filter.mp hfile).2

theorem continues_cases {previous rotation : Option Rotation}
    (hcontinues : continues previous rotation = true) :
    ∃ before here, previous = some before ∧ rotation = some here ∧
      before.identity = here.identity ∧ here.part = before.part + 1 := by
  unfold continues nextPart at hcontinues
  split at hcontinues
  next before here =>
    simp only [Bool.and_eq_true, decide_eq_true_eq] at hcontinues
    exact ⟨before, here, rfl, rfl, hcontinues.1⟩
  next => simp at hcontinues

/-- A file continues none but the one just before it. -/
theorem not_continues_of_between {files : List (File D)} (hfiles : Unrepeated files)
    {a c b : File D} (horder : [a, c, b].Sublist (fileOrder files)) :
    continues a.rotation b.rotation = false := by
  have hperm : (fileOrder files).Perm files := List.perm_insertionSort _ files
  have hmem : ∀ file ∈ [a, c, b], file ∈ files := fun file hfile =>
    hperm.mem_iff.mp (horder.subset hfile)
  have hkeys := (fileOrder_pairwise files).sublist horder
  have hdistinct : [a, c, b].Pairwise fun a b => ∀ rotation other, a.rotation = some rotation →
      b.rotation = some other → rotation.identity = other.identity →
        rotation.part ≠ other.part := by
    refine ((List.Perm.pairwise_iff ?_ hperm).mpr hfiles.distinct).sublist horder
    exact fun h rotation other hrotation hother hidentity heq =>
      h other rotation hother hrotation hidentity.symm heq.symm
  by_contra hcontinues
  rw [Bool.not_eq_false] at hcontinues
  obtain ⟨before, here, hbefore, hhere, hidentity, hpart⟩ := continues_cases hcontinues
  obtain ⟨haRest, hcRest, -⟩ := List.pairwise_cons.mp hkeys |>.imp_right List.pairwise_cons.mp
  have hac := FileKey.le_iff.mp (haRest c (by simp))
  have hcb := FileKey.le_iff.mp (hcRest b (by simp))
  have hstart : (fileKey files a).start = (fileKey files b).start := by
    simp only [fileKey, hbefore, hhere, hidentity]
    refine chainStart_same (hmem a (by simp)) (hmem b (by simp)) ?_ ?_
    · rw [hbefore, Option.map_some, hidentity]
    · rw [hhere, Option.map_some]
  -- the file between is of the same recording, and has no number left
  have hbetween : (fileKey files c).identity = here.identity ∧
      before.part ≤ (fileKey files c).part ∧ (fileKey files c).part ≤ here.part := by
    have haKey : (fileKey files a).identity = here.identity ∧
        (fileKey files a).part = before.part := by simp [fileKey, hbefore, hidentity]
    have hbKey : (fileKey files b).identity = here.identity ∧
        (fileKey files b).part = here.part := by simp [fileKey, hhere]
    rw [haKey.1, haKey.2] at hac
    rw [hbKey.1, hbKey.2, ← hstart] at hcb
    rcases hac with hlt | ⟨heq, hac⟩
    · rcases hcb with hlt' | ⟨heq', -⟩
      · exact absurd (hlt.trans hlt') (lt_irrefl _)
      · exact absurd (heq' ▸ hlt) (lt_irrefl _)
    · rw [heq] at hcb
      have hcb := (hcb.resolve_left (lt_irrefl _)).2
      rcases hac with hlt | ⟨heq, hle⟩
      · rcases hcb with hlt' | ⟨heq', -⟩
        · exact absurd (hlt.trans hlt') (lt_irrefl _)
        · exact absurd (heq' ▸ hlt) (lt_irrefl _)
      · rw [heq] at hcb
        exact ⟨heq.symm, hle, (hcb.resolve_left (lt_irrefl _)).2⟩
  obtain ⟨hcIdentity, hlow, hhigh⟩ := hbetween
  obtain ⟨haDistinct, hcDistinct, -⟩ :=
    List.pairwise_cons.mp hdistinct |>.imp_right List.pairwise_cons.mp
  cases hc : c.rotation with
  | none =>
      rw [fileKey, hc] at hcIdentity
      exact hfiles.named b (hmem b (by simp)) here hhere hcIdentity.symm
  | some rotation =>
      rw [fileKey, hc] at hcIdentity hlow hhigh
      have hfirst := haDistinct c (by simp) before rotation hbefore hc
        (hidentity.trans hcIdentity.symm)
      have hsecond := hcDistinct b (by simp) rotation here hc hhere hcIdentity
      dsimp only at hlow hhigh
      omega

/-! ## Chains -/

/-- `_window_members`' chains. -/
def chainsOf (members : List (File D)) : List (List (File D)) :=
  members.splitBy fun a b => continues a.rotation b.rotation

/-- Files of different chains do not continue each other. -/
theorem chains_apart {files : List (File D)} (hfiles : Unrepeated files) :
    (chainsOf (fileOrder files)).Pairwise fun chain later =>
      ∀ a ∈ chain, ∀ b ∈ later, continues a.rotation b.rotation = false := by
  have hflatten : (chainsOf (fileOrder files)).flatten.Sublist (fileOrder files) := by
    rw [chainsOf, List.flatten_splitBy]
  have hsome : [] ∉ chainsOf (fileOrder files) := List.nil_notMem_splitBy _ _
  have hseams := List.isChain_getLast_head_splitBy
    (fun a b : File D => continues a.rotation b.rotation) (fileOrder files)
  change (chainsOf (fileOrder files)).IsChain _ at hseams
  generalize chainsOf (fileOrder files) = chains at hflatten hsome hseams
  induction chains with
  | nil => exact List.Pairwise.nil
  | cons chain rest ih =>
      have hrest := ih ((List.sublist_append_right _ _).trans hflatten)
        (fun hnil => hsome (List.mem_cons_of_mem chain hnil)) hseams.tail
      refine List.pairwise_cons.mpr ⟨fun later hlater a ha b hb => ?_, hrest⟩
      obtain ⟨next, others, rfl⟩ := List.exists_cons_of_ne_nil (List.ne_nil_of_mem hlater)
      have hnil : chain ≠ [] := fun heq => hsome (heq ▸ List.mem_cons_self ..)
      obtain ⟨head, tail, rfl⟩ := List.exists_cons_of_ne_nil
        (fun heq => hsome (by simp [heq]) : next ≠ [])
      have hbRest : b ∈ head :: (tail ++ others.flatten) := by
        have hin := List.mem_flatten_of_mem hlater hb
        rwa [List.flatten_cons, List.cons_append] at hin
      have hsplit : (chain.dropLast ++ [chain.getLast hnil]) ++ head :: (tail ++ others.flatten) =
          (chain :: (head :: tail) :: others).flatten := by
        rw [List.dropLast_append_getLast, List.flatten_cons, List.flatten_cons, List.cons_append]
      rw [← List.dropLast_append_getLast hnil] at ha
      rcases List.mem_append.mp ha with ha | ha
      · -- the last file of the chain is between
        have horder : [a, chain.getLast hnil, b].Sublist
            ((chain.dropLast ++ [chain.getLast hnil]) ++ head :: (tail ++ others.flatten)) :=
          ((List.singleton_sublist.mpr ha).append (List.Sublist.refl [_])).append
            (List.singleton_sublist.mpr hbRest)
        exact not_continues_of_between hfiles (horder.trans (hsplit ▸ hflatten))
      · obtain rfl := List.mem_singleton.mp ha
        rcases List.mem_cons.mp hbRest with rfl | hb
        · obtain ⟨_, _, hseam⟩ := (List.isChain_cons_cons.mp hseams).1
          exact hseam
        · -- the first file behind the chain is between
          have horder : [chain.getLast hnil, head, b].Sublist
              ((chain.dropLast ++ [chain.getLast hnil]) ++ head :: (tail ++ others.flatten)) :=
            (List.sublist_append_right chain.dropLast [chain.getLast hnil]).append
              ((List.singleton_sublist.mpr hb).cons_cons head)
          exact not_continues_of_between hfiles (horder.trans (hsplit ▸ hflatten))

end VisioSchema.Reader

import VisioSchema.Library.Interleave
import VisioSchema.Reader.Session

/-!
# Keyframes of overlapping files

`keyframe_records`: the compressed keyframes of some cameras, one source for every file, merged
by time.  Files overlap at a seam, so that a keyframe may come from several of them: it is
yielded once, and copies that differ raise.

The merge remembers the last record of each topic alone.  That is enough, because the records of
one topic and time follow each other among those of the topic: a record that has a twin among all
that were read has it in the one that is remembered (`Remembers.filter_eq_some`).  A turn of the
loop thus finds a conflict, a repetition or a new record (`mergeRound_cases`), and the loop is
described record by record (`Merged`).
-/

namespace VisioSchema.Reader

open VisioSchema.Library VisioSchema.Wire

variable {D Ctx Img V ε : Type*}

/-- A `Record` of a keyframe. -/
structure KeyframeRecord (D : Type*) where
  topic : Topic
  tNs : ℤ
  data : D
  deriving DecidableEq, Repr

/-- What tells records apart: the topic and the time. -/
def KeyframeRecord.key (record : KeyframeRecord D) : Topic × ℤ := (record.topic, record.tNs)

/-- What `keyframe_records` raises. -/
inductive KeyframeError (ε : Type*)
  | unsupportedFormat (format : Text) (topic : Topic)
  | parse (error : ε)
  | conflicting (topic : Topic) (tNs : ℤ)
  deriving DecidableEq, Repr

/-! ## The merge -/

section Merge

variable [DecidableEq D]

/-- A turn of the loop of `_merge_keyframe_records`; `previous` holds the last record of every
topic. -/
def mergeRound (previous : Topic → Option (KeyframeRecord D)) (record : KeyframeRecord D) :
    Gen (KeyframeRecord D) (KeyframeError ε) (Topic → Option (KeyframeRecord D)) :=
  match (previous record.topic).filter fun last => last.tNs = record.tNs with
  | some last =>
      if last.data ≠ record.data then .raise (.conflicting record.topic record.tNs)
      else .done previous
  | none => .yield [record] (Function.update previous record.topic (some record))

/-- `_merge_keyframe_records`. -/
def mergeKeyframeRecords (sources : List (Gen (KeyframeRecord D) (KeyframeError ε) Unit)) :
    Gen (KeyframeRecord D) (KeyframeError ε) Unit :=
  let merged := Gen.merge KeyframeRecord.tNs sources
  (Gen.each mergeRound (fun _ => none) merged.items).andThen fun _ => ⟨[], merged.result⟩

end Merge

/-! ## What the loop remembers -/

/-- Records of one topic and time carry the same data. -/
def Agree (records : List (KeyframeRecord D)) : Prop :=
  ∀ a ∈ records, ∀ b ∈ records, a.key = b.key → a.data = b.data

theorem Agree.subset {records fewer : List (KeyframeRecord D)} (hagree : Agree records)
    (hfewer : fewer ⊆ records) : Agree fewer :=
  fun a ha b hb => hagree a (hfewer ha) b (hfewer hb)

/-- Records that agree are told apart by topic and time. -/
theorem Agree.eq_of_key {records : List (KeyframeRecord D)} (hagree : Agree records)
    {a b : KeyframeRecord D} (ha : a ∈ records) (hb : b ∈ records) (hkey : a.key = b.key) :
    a = b := by
  have hdata := hagree a ha b hb hkey
  obtain ⟨htopic, htime⟩ := Prod.mk.inj hkey
  cases a
  cases b
  cases htopic
  cases htime
  cases hdata
  rfl

/-- Of every topic the loop remembers a record of its latest time. -/
structure Remembers (front : List (KeyframeRecord D))
    (previous : Topic → Option (KeyframeRecord D)) : Prop where
  seen : ∀ topic last, previous topic = some last → last ∈ front ∧ last.topic = topic
  latest : ∀ a ∈ front, ∃ last, previous a.topic = some last ∧ a.tNs ≤ last.tNs

theorem remembers_nil : Remembers ([] : List (KeyframeRecord D)) fun _ => none where
  seen := by simp
  latest := by simp

/-- The last record of a topic has the key of a record to come exactly if an earlier record has. -/
theorem Remembers.filter_eq_some {front : List (KeyframeRecord D)}
    {previous : Topic → Option (KeyframeRecord D)} (hremembers : Remembers front previous)
    {record last : KeyframeRecord D}
    (hlast : (previous record.topic).filter (fun last => last.tNs = record.tNs) = some last) :
    last ∈ front ∧ last.key = record.key := by
  obtain ⟨hprevious, htime⟩ := Option.filter_eq_some_iff.mp hlast
  obtain ⟨hfront, htopic⟩ := hremembers.seen _ last hprevious
  rw [decide_eq_true_eq] at htime
  exact ⟨hfront, Prod.ext htopic htime⟩

theorem Remembers.filter_eq_none {front : List (KeyframeRecord D)}
    {previous : Topic → Option (KeyframeRecord D)} (hremembers : Remembers front previous)
    {record : KeyframeRecord D} (hordered : ∀ a ∈ front, a.tNs ≤ record.tNs)
    (hnone : (previous record.topic).filter (fun last => last.tNs = record.tNs) = none) :
    ∀ a ∈ front, a.key ≠ record.key := by
  intro a ha hkey
  obtain ⟨htopic, htime⟩ := Prod.mk.inj hkey
  obtain ⟨last, hlast, hle⟩ := hremembers.latest a ha
  rw [htopic] at hlast
  have hge : last.tNs ≤ record.tNs := hordered last (hremembers.seen _ last hlast).1
  have hne : last.tNs ≠ record.tNs := by
    have hfilter := Option.filter_eq_none_iff.mp hnone last hlast
    simpa using hfilter
  omega

/-! ## Sources of records -/

/-- The records of some sources, which are read to their ends. -/
def readAll (sources : List (List (KeyframeRecord D))) :
    List (Gen (KeyframeRecord D) (KeyframeError ε) Unit) :=
  sources.map fun records => .yield records ()

/-- The merged records, in order of time. -/
def byTime (sources : List (List (KeyframeRecord D))) : List (KeyframeRecord D) :=
  interleaveAll (fun a b => decide (a.tNs ≤ b.tNs)) sources

theorem mem_byTime {sources : List (List (KeyframeRecord D))} {record : KeyframeRecord D} :
    record ∈ byTime sources ↔ record ∈ sources.flatten :=
  (interleaveAll_perm sources).mem_iff

theorem byTime_ordered {sources : List (List (KeyframeRecord D))}
    (hordered : ∀ records ∈ sources, records.Pairwise fun a b => a.tNs ≤ b.tNs) :
    (byTime sources).Pairwise fun a b => a.tNs ≤ b.tNs := by
  refine pairwise_interleaveAll ?_ ?_ ?_ hordered
  · intro a b hab
    simp only [decide_eq_false_iff_not, decide_eq_true_eq] at hab ⊢
    omega
  · intro a b hab
    simpa using hab
  · intro a b c hab hbc
    simp only [decide_eq_true_eq] at hab
    omega

theorem agree_byTime {sources : List (List (KeyframeRecord D))} :
    Agree (byTime sources) ↔ Agree sources.flatten :=
  ⟨fun hagree => hagree.subset fun _ => mem_byTime.mpr,
    fun hagree => hagree.subset fun _ => mem_byTime.mp⟩

/-! ## A turn of the loop -/

theorem agree_append_singleton {front : List (KeyframeRecord D)} (hagree : Agree front)
    {record : KeyframeRecord D}
    (hsame : ∀ a ∈ front, a.key = record.key → a.data = record.data) :
    Agree (front ++ [record]) := by
  intro a ha b hb hkey
  rcases List.mem_append.mp ha with hfront | hlast
  · rcases List.mem_append.mp hb with hfront' | hlast'
    · exact hagree a hfront b hfront' hkey
    · rw [List.mem_singleton.mp hlast'] at hkey ⊢
      exact hsame a hfront hkey
  · rw [List.mem_singleton.mp hlast] at hkey ⊢
    rcases List.mem_append.mp hb with hfront' | hlast'
    · exact (hsame b hfront' hkey.symm).symm
    · rw [List.mem_singleton.mp hlast']

/-- What is remembered stays if a record repeats it. -/
theorem Remembers.repeated {front : List (KeyframeRecord D)}
    {previous : Topic → Option (KeyframeRecord D)} (hremembers : Remembers front previous)
    {record last : KeyframeRecord D} (hlast : previous record.topic = some last)
    (htime : last.tNs = record.tNs) : Remembers (front ++ [record]) previous where
  seen := fun topic last hlast =>
    ⟨List.mem_append_left _ (hremembers.seen topic last hlast).1,
      (hremembers.seen topic last hlast).2⟩
  latest := by
    intro a ha
    rcases List.mem_append.mp ha with ha | ha
    · exact hremembers.latest a ha
    · obtain rfl := List.mem_singleton.mp ha
      exact ⟨last, hlast, htime.ge⟩

theorem Remembers.yielded {front : List (KeyframeRecord D)}
    {previous : Topic → Option (KeyframeRecord D)} (hremembers : Remembers front previous)
    {record : KeyframeRecord D} (hordered : ∀ a ∈ front, a.tNs ≤ record.tNs) :
    Remembers (front ++ [record]) (Function.update previous record.topic (some record)) where
  seen := by
    intro topic last hlast
    by_cases hsame : topic = record.topic
    · subst hsame
      rw [Function.update_self] at hlast
      cases hlast
      exact ⟨List.mem_append_right _ (List.mem_singleton_self _), rfl⟩
    · rw [Function.update_of_ne hsame] at hlast
      obtain ⟨hfront, htopic⟩ := hremembers.seen topic last hlast
      exact ⟨List.mem_append_left _ hfront, htopic⟩
  latest := by
    intro a ha
    by_cases hsame : a.topic = record.topic
    · rw [hsame, Function.update_self]
      refine ⟨record, rfl, ?_⟩
      rcases List.mem_append.mp ha with ha | ha
      · exact hordered a ha
      · rw [List.mem_singleton.mp ha]
    · rw [Function.update_of_ne hsame]
      rcases List.mem_append.mp ha with ha | ha
      · exact hremembers.latest a ha
      · exact absurd (congrArg KeyframeRecord.topic (List.mem_singleton.mp ha)) hsame

variable [DecidableEq D]

/-- A record conflicts with an earlier one, or repeats one, or is new and yielded. -/
theorem mergeRound_cases (ε : Type*) {front : List (KeyframeRecord D)}
    {previous : Topic → Option (KeyframeRecord D)} (hremembers : Remembers front previous)
    (hagree : Agree front) {record : KeyframeRecord D}
    (hordered : ∀ a ∈ front, a.tNs ≤ record.tNs) :
    (¬Agree (front ++ [record]) ∧ mergeRound previous record =
        (.raise (.conflicting record.topic record.tNs) : Gen _ (KeyframeError ε) _)) ∨
      (Agree (front ++ [record]) ∧ Remembers (front ++ [record]) previous ∧
        record.key ∈ front.map KeyframeRecord.key ∧
        mergeRound previous record = (.done previous : Gen _ (KeyframeError ε) _)) ∨
      ∃ next, Agree (front ++ [record]) ∧ Remembers (front ++ [record]) next ∧
        record.key ∉ front.map KeyframeRecord.key ∧
        mergeRound previous record = (.yield [record] next : Gen _ (KeyframeError ε) _) := by
  unfold mergeRound
  cases hlast : (previous record.topic).filter fun last => last.tNs = record.tNs with
  | some last =>
      obtain ⟨hfront, hkey⟩ := hremembers.filter_eq_some hlast
      obtain ⟨hprevious, htime⟩ := Option.filter_eq_some_iff.mp hlast
      rw [decide_eq_true_eq] at htime
      by_cases hdata : last.data = record.data
      · refine Or.inr (Or.inl ⟨?_, hremembers.repeated hprevious htime, ?_, ?_⟩)
        · refine agree_append_singleton hagree fun a ha hsame => ?_
          calc a.data
              _ = last.data := hagree a ha last hfront (hsame.trans hkey.symm)
              _ = record.data := hdata
        · exact List.mem_map.mpr ⟨last, hfront, hkey⟩
        · exact if_neg (not_not.mpr hdata)
      · refine Or.inl ⟨fun hall => hdata ?_, if_pos hdata⟩
        exact hall last (List.mem_append_left _ hfront) record
          (List.mem_append_right _ (List.mem_singleton_self _)) hkey
  | none =>
      have hnew := hremembers.filter_eq_none hordered hlast
      refine Or.inr (Or.inr ⟨_, ?_, hremembers.yielded hordered, ?_, rfl⟩)
      · exact agree_append_singleton hagree fun a ha hsame => absurd hsame (hnew a ha)
      · intro hin
        obtain ⟨a, ha, hsame⟩ := List.mem_map.mp hin
        exact hnew a ha hsame

/-! ## The whole loop -/

/-- What the loop makes of the records behind `front`: it yields every key that is new once, or
raises before anything behind a conflict. -/
structure Merged (front rest : List (KeyframeRecord D))
    (g : Gen (KeyframeRecord D) (KeyframeError ε) (Topic → Option (KeyframeRecord D))) : Prop where
  sublist : g.items.Sublist rest
  nodup : (g.items.map KeyframeRecord.key).Nodup
  fresh : ∀ a ∈ g.items, a.key ∉ front.map KeyframeRecord.key
  returns : Agree (front ++ rest) → ∃ next, g.Returns next
  covers : Agree (front ++ rest) → ∀ a ∈ rest, a.key ∈ (front ++ g.items).map KeyframeRecord.key
  raises : ¬Agree (front ++ rest) → ∃ topic tNs, g.result = .error (.conflicting topic tNs)
  before : ∀ a ∈ front ++ rest, ∀ b ∈ front ++ rest, a.key = b.key → a.data ≠ b.data →
    ∀ c ∈ g.items, c.tNs ≤ a.tNs

/-- What comes behind an earlier record that agrees is at least as old as none of the conflicts. -/
theorem le_conflict {front rest : List (KeyframeRecord D)} {record : KeyframeRecord D}
    (hagree : Agree front) (hordered : ∀ a ∈ rest, record.tNs ≤ a.tNs) {a b : KeyframeRecord D}
    (ha : a ∈ front ++ record :: rest) (hb : b ∈ front ++ record :: rest) (hkey : a.key = b.key)
    (hdata : a.data ≠ b.data) : record.tNs ≤ a.tNs := by
  by_contra hlate
  have htime : a.tNs = b.tNs := congrArg Prod.snd hkey
  have hfront : ∀ c ∈ front ++ record :: rest, c.tNs = a.tNs → c ∈ front := by
    intro c hc hsame
    rcases List.mem_append.mp hc with hc | hc
    · exact hc
    · rcases List.mem_cons.mp hc with rfl | hc
      · omega
      · have hlater := hordered c hc
        omega
  exact hdata (hagree a (hfront a ha rfl) b (hfront b hb htime.symm) hkey)

theorem each_merged (ε : Type*) {front : List (KeyframeRecord D)}
    {previous : Topic → Option (KeyframeRecord D)} {rest : List (KeyframeRecord D)}
    (hremembers : Remembers front previous) (hagree : Agree front)
    (hordered : (front ++ rest).Pairwise fun a b => a.tNs ≤ b.tNs) :
    Merged front rest (.each mergeRound previous rest : Gen _ (KeyframeError ε) _) := by
  induction rest generalizing front previous with
  | nil =>
      exact
        { sublist := List.nil_sublist _
          nodup := List.nodup_nil
          fresh := by simp
          returns := fun _ => ⟨previous, rfl⟩
          covers := by simp
          raises := fun hconflict => absurd hagree (by simpa using hconflict)
          before := by simp }
  | cons record rest ih =>
      obtain ⟨-, hrest, hfront⟩ := List.pairwise_append.mp hordered
      have hearlier : ∀ a ∈ front, a.tNs ≤ record.tNs :=
        fun a ha => hfront a ha record (List.mem_cons_self ..)
      have hlater := (List.pairwise_cons.mp hrest).1
      have hsplit : front ++ record :: rest = (front ++ [record]) ++ rest := by simp
      have hordered' : ((front ++ [record]) ++ rest).Pairwise fun a b => a.tNs ≤ b.tNs :=
        hsplit ▸ hordered
      have hone : front ++ [record] ⊆ front ++ record :: rest := by
        rw [hsplit]
        exact List.subset_append_left ..
      rw [Gen.each_cons]
      -- a record conflicts, or is skipped, or is yielded before those of the rest
      rcases mergeRound_cases ε hremembers hagree hearlier with
        ⟨hconflict, hround⟩ | ⟨hagree', hremembers', hseen, hround⟩ |
          ⟨next, hagree', hremembers', hnew, hround⟩
      · rw [hround]
        exact
          { sublist := List.nil_sublist _
            nodup := List.nodup_nil
            fresh := fun a ha => absurd ha List.not_mem_nil
            returns := fun hall => absurd (hall.subset hone) hconflict
            covers := fun hall => absurd (hall.subset hone) hconflict
            raises := fun _ => ⟨record.topic, record.tNs, rfl⟩
            before := fun _ _ _ _ _ _ c hc => absurd hc List.not_mem_nil }
      · have hmerged := ih hremembers' hagree' hordered'
        rw [hround, Gen.done_andThen]
        refine
          { sublist := hmerged.sublist.cons record
            nodup := hmerged.nodup
            fresh := fun a ha hin => ?_
            returns := fun hall => hmerged.returns (hsplit ▸ hall)
            covers := fun hall a ha => ?_
            raises := fun hconflict => hmerged.raises (hsplit ▸ hconflict)
            before := hsplit ▸ hmerged.before }
        · refine hmerged.fresh a ha ?_
          rw [List.map_append]
          exact List.mem_append_left _ hin
        · rw [List.map_append]
          rcases List.mem_cons.mp ha with rfl | ha
          · exact List.mem_append_left _ hseen
          · have hcovered := hmerged.covers (hsplit ▸ hall) a ha
            simp only [List.map_append, List.mem_append, List.map_cons, List.map_nil,
              List.mem_singleton] at hcovered ⊢
            rcases hcovered with (hin | heq) | hin
            · exact Or.inl hin
            · exact Or.inl (heq ▸ hseen)
            · exact Or.inr hin
      · have hmerged := ih hremembers' hagree' hordered'
        have hstep : ∀ later : Gen (KeyframeRecord D) (KeyframeError ε)
            (Topic → Option (KeyframeRecord D)),
            (Gen.yield [record] next).andThen (fun _ => later) =
              ⟨record :: later.items, later.result⟩ := fun _ => rfl
        have hloop : (Gen.yield [record] next : Gen _ (KeyframeError ε) _).andThen
            (fun previous => .each mergeRound previous rest) =
              (Gen.yield [record] next).andThen fun _ => .each mergeRound next rest := rfl
        rw [hround, hloop, hstep]
        refine
          { sublist := hmerged.sublist.cons_cons record
            nodup := List.nodup_cons.mpr ⟨fun hin => ?_, hmerged.nodup⟩
            fresh := fun a ha => ?_
            returns := fun hall => hmerged.returns (hsplit ▸ hall)
            covers := fun hall a ha => ?_
            raises := fun hconflict => hmerged.raises (hsplit ▸ hconflict)
            before := fun a ha b hb hkey hdata c hc => ?_ }
        · obtain ⟨a, ha, hsame⟩ := List.mem_map.mp hin
          refine hmerged.fresh a ha ?_
          rw [hsame]
          exact List.mem_map_of_mem (List.mem_append_right _ (List.mem_singleton_self _))
        · rcases List.mem_cons.mp ha with rfl | ha
          · exact hnew
          · intro hin
            refine hmerged.fresh a ha ?_
            rw [List.map_append]
            exact List.mem_append_left _ hin
        · rcases List.mem_cons.mp ha with rfl | ha
          · exact List.mem_map_of_mem (List.mem_append_right _ (List.mem_cons_self ..))
          · have hcovered := hmerged.covers (hsplit ▸ hall) a ha
            rwa [List.append_assoc] at hcovered
        · rcases List.mem_cons.mp hc with rfl | hc
          · exact le_conflict hagree hlater ha hb hkey hdata
          · exact hmerged.before a (hsplit ▸ ha) b (hsplit ▸ hb) hkey hdata c hc

/-! ## The merge of the sources -/

theorem mergeKeyframeRecords_readAll (sources : List (List (KeyframeRecord D))) :
    (mergeKeyframeRecords (readAll sources) : Gen _ (KeyframeError ε) Unit) =
      (Gen.each mergeRound (fun _ => none) (byTime sources)).andThen fun _ => .done () := by
  have hreturns : ∀ g : Gen (KeyframeRecord D) (KeyframeError ε) Unit,
      g ∈ readAll sources → g.Returns () := by
    intro g hg
    obtain ⟨records, -, rfl⟩ := List.mem_map.mp hg
    rfl
  have hitems : (readAll sources : List (Gen _ (KeyframeError ε) Unit)).map Gen.items =
      sources := by
    rw [readAll, List.map_map]
    exact List.map_id sources
  rw [mergeKeyframeRecords, Gen.merge_of_returns hreturns, hitems]
  rfl

theorem merged_byTime (ε : Type*) {sources : List (List (KeyframeRecord D))}
    (hordered : ∀ records ∈ sources, records.Pairwise fun a b => a.tNs ≤ b.tNs) :
    Merged [] (byTime sources)
      (.each mergeRound (fun _ => none) (byTime sources) : Gen _ (KeyframeError ε) _) :=
  each_merged ε remembers_nil (by simp [Agree]) (byTime_ordered hordered)

/-- Sources that agree are read to their ends. -/
theorem mergeKeyframeRecords_returns_iff (ε : Type*) {sources : List (List (KeyframeRecord D))}
    (hordered : ∀ records ∈ sources, records.Pairwise fun a b => a.tNs ≤ b.tNs) :
    (mergeKeyframeRecords (readAll sources) : Gen _ (KeyframeError ε) Unit).Returns () ↔
      Agree sources.flatten := by
  have hmerged := merged_byTime ε hordered
  rw [mergeKeyframeRecords_readAll, Gen.returns_andThen, ← agree_byTime]
  constructor
  · rintro ⟨next, hnext, -⟩
    by_contra hconflict
    obtain ⟨topic, tNs, hraised⟩ := hmerged.raises hconflict
    cases hraised.symm.trans hnext
  · intro hagree
    obtain ⟨next, hnext⟩ := hmerged.returns hagree
    exact ⟨next, hnext, rfl⟩

theorem mergeKeyframeRecords_items (ε : Type*) (sources : List (List (KeyframeRecord D))) :
    (mergeKeyframeRecords (readAll sources) : Gen _ (KeyframeError ε) Unit).items =
      (.each mergeRound (fun _ => none) (byTime sources) : Gen _ (KeyframeError ε) _).items := by
  rw [mergeKeyframeRecords_readAll, Gen.items_andThen_done]

/-- Sources that agree yield their records. -/
theorem mem_mergeKeyframeRecords (ε : Type*) {sources : List (List (KeyframeRecord D))}
    (hordered : ∀ records ∈ sources, records.Pairwise fun a b => a.tNs ≤ b.tNs)
    (hagree : Agree sources.flatten) {record : KeyframeRecord D} :
    record ∈ (mergeKeyframeRecords (readAll sources) : Gen _ (KeyframeError ε) Unit).items ↔
      record ∈ sources.flatten := by
  have hmerged := merged_byTime ε hordered
  rw [mergeKeyframeRecords_items]
  constructor
  · exact fun hin => mem_byTime.mp (hmerged.sublist.subset hin)
  · intro hin
    have hcovered := hmerged.covers (agree_byTime.mpr hagree) record (mem_byTime.mpr hin)
    obtain ⟨other, hother, hkey⟩ := List.mem_map.mp hcovered
    have hyielded := hmerged.sublist.subset hother
    rwa [← hagree.eq_of_key (mem_byTime.mp hyielded) hin hkey]

/-- Sources in order of time are merged in order of time, with every topic and time once, unless
they conflict: then nothing is yielded that is later than a conflict.  How the records are spread
over the sources makes no difference. -/
theorem mergeKeyframeRecords_spread (ε : Type*) (sources : List (List (KeyframeRecord D)))
    (hordered : ∀ records ∈ sources, records.Pairwise fun a b => a.tNs ≤ b.tNs) :
    let g : Gen (KeyframeRecord D) (KeyframeError ε) Unit := mergeKeyframeRecords (readAll sources)
    (Agree sources.flatten →
      g.Returns () ∧ (g.items.Pairwise fun a b => a.tNs ≤ b.tNs) ∧
        (g.items.map KeyframeRecord.key).Nodup ∧
        ∀ key, key ∈ g.items.map KeyframeRecord.key ↔
          key ∈ sources.flatten.map KeyframeRecord.key) ∧
      (¬Agree sources.flatten →
        (∃ topic tNs, g.result = .error (.conflicting topic tNs)) ∧
          ∀ a ∈ sources.flatten, ∀ b ∈ sources.flatten, a.key = b.key → a.data ≠ b.data →
            ∀ c ∈ g.items, c.tNs ≤ a.tNs) ∧
      ∀ others : List (List (KeyframeRecord D)),
        (∀ records ∈ others, records.Pairwise fun a b => a.tNs ≤ b.tNs) →
        (∀ record, record ∈ others.flatten ↔ record ∈ sources.flatten) →
        let g' : Gen (KeyframeRecord D) (KeyframeError ε) Unit :=
          mergeKeyframeRecords (readAll others)
        (g'.Returns () ↔ g.Returns ()) ∧
          (g.Returns () → ∀ record, record ∈ g'.items ↔ record ∈ g.items) := by
  intro g
  have hmerged := merged_byTime ε hordered
  have hitems : g.items = _ := mergeKeyframeRecords_items ε sources
  refine ⟨fun hagree => ⟨?_, ?_, ?_, fun key => ?_⟩, fun hconflict => ⟨?_, ?_⟩, ?_⟩
  · exact (mergeKeyframeRecords_returns_iff ε hordered).mpr hagree
  · rw [hitems]
    exact (byTime_ordered hordered).sublist hmerged.sublist
  · rw [hitems]
    exact hmerged.nodup
  · simp only [List.mem_map]
    exact exists_congr fun record =>
      and_congr_left fun _ => mem_mergeKeyframeRecords ε hordered hagree
  · obtain ⟨topic, tNs, hraised⟩ := hmerged.raises fun hall => hconflict (agree_byTime.mp hall)
    refine ⟨topic, tNs, ?_⟩
    change (mergeKeyframeRecords (readAll sources)).result = _
    rw [mergeKeyframeRecords_readAll, Gen.andThen, hraised]
  · rw [hitems]
    exact fun a ha b hb => hmerged.before a (mem_byTime.mpr ha) b (mem_byTime.mpr hb)
  · intro others hothers hsame g'
    have hagrees : Agree others.flatten ↔ Agree sources.flatten :=
      ⟨fun hagree => hagree.subset fun a => (hsame a).mpr,
        fun hagree => hagree.subset fun a => (hsame a).mp⟩
    have hreturns : g.Returns () ↔ Agree sources.flatten :=
      mergeKeyframeRecords_returns_iff ε hordered
    have hreturns' : g'.Returns () ↔ Agree others.flatten :=
      mergeKeyframeRecords_returns_iff ε hothers
    refine ⟨hreturns'.trans (hagrees.trans hreturns.symm), fun hreads record => ?_⟩
    have hagree := hreturns.mp hreads
    calc record ∈ g'.items
        ↔ record ∈ others.flatten := mem_mergeKeyframeRecords ε hothers (hagrees.mpr hagree)
      _ ↔ record ∈ sources.flatten := hsame record
      _ ↔ record ∈ g.items := (mem_mergeKeyframeRecords ε hordered hagree).symm

/-- A keyframe at a seam, in both files; the other one comes between them. -/
def seamSources : List (List (KeyframeRecord ℕ)) :=
  [[⟨['a'], 0, 1⟩, ⟨['a'], 5, 2⟩], [⟨['a'], 5, 2⟩, ⟨['a'], 9, 4⟩], [⟨['b'], 5, 3⟩]]

theorem mergeKeyframeRecords_spread_seam :
    let g : Gen (KeyframeRecord ℕ) (KeyframeError Unit) Unit :=
      mergeKeyframeRecords (readAll seamSources)
    g.Returns () ∧ (g.items.Pairwise fun a b => a.tNs ≤ b.tNs) ∧
      (g.items.map KeyframeRecord.key).Nodup ∧
      ∀ key, key ∈ g.items.map KeyframeRecord.key ↔
        key ∈ seamSources.flatten.map KeyframeRecord.key :=
  (mergeKeyframeRecords_spread Unit seamSources (by decide)).1 (by unfold Agree; decide)

end VisioSchema.Reader

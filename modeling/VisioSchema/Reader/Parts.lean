import VisioSchema.Library.Sorting
import VisioSchema.Reader.Splitting

/-!
# Recordings in parts

Parts of one recording are read by number, and each continues the decoders of the one before it.
A camera's access units therefore reach one decoder in the order in which they were recorded,
wherever the recording was cut (`runsCamera_parts`).

Three facts make this up.  The parts are read in their order, since files of one recording have
one start (`fileOrder_parts`).  The access units that are read of a part are those that it was
cut with (`PartOf.units`), and a file runs its cameras over them from what was carried to it
(`runsCamera_iterFile`).  And what a stream keeps between two parts is what the next one needs
(`Awaits`, `Awaits.next`).
-/

namespace VisioSchema.Reader

open VisioSchema.Library VisioSchema.Wire

variable {D Ctx Img V ε : Type*}

/-! ## Parts -/

/-- A part of a recording, which holds some of the recording's messages.  The reader yields them in
order of time, and the index lists the topics of video. -/
structure PartOf (identity : Text) (part : ℕ) (cut : List (Message D)) (file : File D) : Prop where
  marked : ∃ continuation, file.rotation = some ⟨identity, part, continuation⟩ ∧
    (part ≠ 0 → continuation = true)
  holds : file.messages.Perm cut
  ordered : file.messages.Pairwise fun a b => a.logTime ≤ b.logTime
  indexed : ∀ m ∈ cut, m.schema = some .video →
    ∃ entry ∈ file.index.topics, entry.topic = m.topic ∧ entry.schema = some .video

/-- The messages of a recording from a part on, cut into consecutive parts. -/
inductive CutInto (identity : Text) : ℕ → List (Message D) → List (File D) → Prop
  | nil (part : ℕ) : CutInto identity part [] []
  | cons {part : ℕ} {cut rest : List (Message D)} {file : File D} {files : List (File D)}
      (hpart : PartOf identity part cut file) (hrest : CutInto identity (part + 1) rest files) :
      CutInto identity part (cut ++ rest) (file :: files)

/-- The number of a part. -/
def File.partNumber (file : File D) : ℕ := (file.rotation.map Rotation.part).getD 0

section Parts

variable {identity : Text} {part : ℕ} {cut messages : List (Message D)} {file : File D}
  {parts : List (File D)}

theorem PartOf.rotation_identity (hpart : PartOf identity part cut file) :
    file.rotation.map Rotation.identity = some identity := by
  obtain ⟨continuation, hrotation, -⟩ := hpart.marked
  rw [hrotation]
  rfl

theorem PartOf.partNumber (hpart : PartOf identity part cut file) : file.partNumber = part := by
  obtain ⟨continuation, hrotation, -⟩ := hpart.marked
  rw [File.partNumber, hrotation]
  rfl

/-- The parts are of one recording, and follow each other by number. -/
theorem CutInto.numbered (hcut : CutInto identity part messages parts) :
    (∀ file ∈ parts, file.rotation.map Rotation.identity = some identity ∧
        part ≤ file.partNumber) ∧
      parts.Pairwise fun a b => a.partNumber < b.partNumber := by
  induction hcut with
  | nil part => exact ⟨by simp, List.Pairwise.nil⟩
  | @cons part cut rest file files hpart _ ih =>
      obtain ⟨hall, hordered⟩ := ih
      have hfirst : file.partNumber = part := hpart.partNumber
      refine ⟨fun other hother => ?_, List.pairwise_cons.mpr ⟨fun other hother => ?_, hordered⟩⟩
      · rcases List.mem_cons.mp hother with rfl | hother
        · exact ⟨hpart.rotation_identity, hfirst.ge⟩
        · obtain ⟨hidentity, hnumber⟩ := hall other hother
          exact ⟨hidentity, by omega⟩
      · have hnumber := (hall other hother).2
        omega

/-! ### The order of the parts -/

/-- Files of one recording have one start. -/
theorem chainStart_eq {files : List (File D)}
    (hsame : ∀ file ∈ files, file.rotation.map Rotation.identity = some identity) {a b : File D}
    (ha : a ∈ files) (hb : b ∈ files) :
    chainStart files identity a.start = chainStart files identity b.start := by
  have hmin : ∀ (files : List (File D)) (start : ℤ),
      (∀ file ∈ files, file.rotation.map Rotation.identity = some identity) →
      (chainStart files identity start ≤ start ∧
        ∀ file ∈ files, chainStart files identity start ≤ file.start) ∧
      (chainStart files identity start = start ∨
        ∃ file ∈ files, chainStart files identity start = file.start) := by
    intro files
    induction files with
    | nil => exact fun start _ => ⟨⟨Int.le_refl _, by simp⟩, Or.inl rfl⟩
    | cons file rest ih =>
        intro start hfiles
        have hstep : chainStart (file :: rest) identity start =
            chainStart rest identity (min start file.start) := by
          unfold chainStart
          rw [List.foldl_cons, if_pos (hfiles file (List.mem_cons_self ..))]
        obtain ⟨⟨hlow, hall⟩, hreached⟩ := ih (min start file.start) fun other hother =>
          hfiles other (List.mem_cons_of_mem file hother)
        rw [hstep]
        refine ⟨⟨by omega, fun other hother => ?_⟩, ?_⟩
        · rcases List.mem_cons.mp hother with rfl | hother
          · omega
          · exact hall other hother
        · rcases hreached with hstart | ⟨other, hother, hstart⟩
          · rcases min_choice start file.start with hmin | hmin
            · exact Or.inl (hstart.trans hmin)
            · exact Or.inr ⟨file, List.mem_cons_self .., hstart.trans hmin⟩
          · exact Or.inr ⟨other, List.mem_cons_of_mem file hother, hstart⟩
  -- the start is that of a file, and no file starts earlier
  have hle : ∀ a ∈ files, ∀ b ∈ files,
      chainStart files identity a.start ≤ chainStart files identity b.start := by
    intro a ha b hb
    obtain ⟨⟨-, hall⟩, -⟩ := hmin files a.start hsame
    rcases (hmin files b.start hsame).2 with hstart | ⟨other, hother, hstart⟩
    · exact (hall b hb).trans hstart.ge
    · exact (hall other hother).trans hstart.ge
  exact le_antisymm (hle a ha b hb) (hle b hb a ha)

/-- The parts of a recording are read by number. -/
theorem fileOrder_parts {group : List (File D)} (hcut : CutInto identity part messages parts)
    (hgroup : group.Perm parts) : fileOrder group = parts := by
  obtain ⟨hall, hnumbers⟩ := hcut.numbered
  have hsame : ∀ file ∈ group, file.rotation.map Rotation.identity = some identity :=
    fun file hfile => (hall file (hgroup.mem_iff.mp hfile)).1
  have hkeys : ∀ a ∈ group, ∀ b ∈ group,
      ((fileKey group a).le (fileKey group b) = true ↔ a.partNumber ≤ b.partNumber) := by
    intro a ha b hb
    have hstart := chainStart_eq hsame ha hb
    obtain ⟨rotationA, hrotationA, hidentityA⟩ := Option.map_eq_some_iff.mp (hsame a ha)
    obtain ⟨rotationB, hrotationB, hidentityB⟩ := Option.map_eq_some_iff.mp (hsame b hb)
    simp [fileKey, File.partNumber, hrotationA, hrotationB, hidentityA, hidentityB, hstart,
      FileKey.le]
  calc fileOrder group
      = group.insertionSort fun a b => a.partNumber ≤ b.partNumber := insertionSort_congr hkeys
    _ = parts := eq_of_perm_of_increasing ((List.perm_insertionSort _ group).trans hgroup)
        (pairwise_sorted group) hnumbers

end Parts

namespace Session

variable {s : Session D} {backend : Backend D Ctx Img V ε} {topic : Topic} {q : Query}

/-! ## What is read of a part -/

/-- The access units of a camera that a pass decodes. -/
def isSelected (s : Session D) (q : Query) (topic : Topic) (m : Message D) : Bool :=
  s.isUnitOf q.rawSet topic m && q.want.all fun topics => topic ∈ topics

/-- An access unit of an indexed topic is read if its camera is selected. -/
theorem mem_wantedPrefixed_iff {index : FileIndex} {m : Message D}
    (hunit : s.isUnitOf q.rawSet topic m = true)
    (hindexed : ∃ entry ∈ index.topics, entry.topic = m.topic ∧ entry.schema = some .video) :
    m.topic ∈ s.wantedPrefixed index q.want false ↔
      (q.want.all fun topics => decide (topic ∈ topics)) = true := by
  have hstrip : stripDevice s.device m.topic = some topic := by
    simp only [isUnitOf, Bool.and_eq_true, decide_eq_true_eq] at hunit
    exact hunit.1.2
  unfold wantedPrefixed
  constructor
  · intro hin
    obtain ⟨entry, hentry, htopic⟩ := List.mem_map.mp hin
    obtain ⟨-, hselected⟩ := List.mem_filter.mp hentry
    rw [htopic, hstrip] at hselected
    cases hwant : q.want with
    | none => rfl
    | some topics => simpa [hwant] using hselected
  · intro hselected
    obtain ⟨entry, hentry, htopic, hschema⟩ := hindexed
    refine List.mem_map.mpr ⟨entry, List.mem_filter.mpr ⟨hentry, ?_⟩, htopic⟩
    rw [htopic, hstrip]
    cases hwant : q.want with
    | none => simp [hschema]
    | some topics => simpa [hwant] using hselected

/-- The index lists the topics of video. -/
def ListsVideo (file : File D) : Prop :=
  ∀ m ∈ file.messages, m.schema = some .video →
    ∃ entry ∈ file.index.topics, entry.topic = m.topic ∧ entry.schema = some .video

/-- The access units of a camera that a pass decodes of a file. -/
def unitsOf (s : Session D) (q : Query) (topic : Topic) (file : File D) : List (Message D) :=
  (file.messages.filter (s.isSelected q topic)).filter fun m =>
    q.endNs.all fun stop => m.logTime < stop

theorem readMessages_units {file : File D} (hlists : ListsVideo file) :
    (readMessages file (s.wantedPrefixed file.index q.want false) q.endNs).filter
        (s.isUnitOf q.rawSet topic) = s.unitsOf q topic file := by
  unfold readMessages unitsOf
  rw [List.filter_filter, List.filter_filter]
  refine List.filter_congr fun m hm => ?_
  unfold isSelected
  cases hunit : s.isUnitOf q.rawSet topic m with
  | false => simp
  | true =>
      have hschema : m.schema = some .video := by
        simp only [isUnitOf, Bool.and_eq_true, decide_eq_true_eq] at hunit
        exact hunit.1.1
      have hread := mem_wantedPrefixed_iff hunit (hlists m hm hschema)
      cases hwant : q.want.all fun topics => decide (topic ∈ topics) with
      | true => simp [hread.mpr hwant]
      | false =>
          have hnot : m.topic ∉ s.wantedPrefixed file.index q.want false := by
            intro hin
            cases hwant.symm.trans (hread.mp hin)
          simp [hnot]

theorem unitsOf_unbounded (hend : q.endNs = none) (file : File D) :
    s.unitsOf q topic file = file.messages.filter (s.isSelected q topic) := by
  rw [unitsOf, hend]
  exact List.filter_eq_self.mpr fun m _ => rfl

theorem PartOf.listsVideo {identity : Text} {part : ℕ} {cut : List (Message D)} {file : File D}
    (hpart : PartOf identity part cut file) : ListsVideo file :=
  fun m hm hschema => hpart.indexed m (hpart.holds.mem_iff.mp hm) hschema

/-- The access units of a part are those that it was cut with. -/
theorem PartOf.units {identity : Text} {part : ℕ} {cut : List (Message D)} {file : File D}
    (hpart : PartOf identity part cut file) {test : Message D → Bool}
    (hincreasing : (cut.filter test).Pairwise fun a b => a.logTime < b.logTime) :
    file.messages.filter test = cut.filter test :=
  eq_of_perm_of_increasing (hpart.holds.filter test)
    (hpart.ordered.sublist (List.filter_sublist ..)) hincreasing

/-! ## A file -/

/-- What is kept of a camera behind a file. -/
def carriedCamera (topic : Topic) (carried : Option (Carried Ctx)) : Camera Ctx :=
  (carried.getD {}).camera topic

theorem runsCamera_flush (pass : Pass Ctx D) (built : List Schema) :
    RunsCamera backend topic (pass.carried.camera topic) (fun pass => pass.carried.camera topic)
      [] (.each (flushAdapter backend) pass built) := by
  induction built generalizing pass with
  | nil => exact runsCamera_nil (fun pass' hpass' => by cases hpass'; rfl) rfl
  | cons schema rest ih =>
      have hfirst : RunsCamera backend topic (pass.carried.camera topic)
          (fun pass => pass.carried.camera topic) [] (flushAdapter backend pass schema) := by
        unfold flushAdapter
        split
        next => exact runsCamera_nil (fun pass' hpass' => by cases hpass'; rfl) rfl
        next =>
          refine runsCamera_nil (fun pass' hpass' => ?_) (adapted_frames _ _)
          rw [returns_adapted hpass']
      rw [Gen.each_cons]
      exact hfirst.andThen fun pass' _ => ih pass'

theorem runsCamera_messages (hbuiltin : backend.custom .video = false) {built : List Schema}
    (hbuilt : Schema.video ∈ built) (rawSet : List Topic) (pass : Pass Ctx D)
    (messages : List (Message D)) :
    RunsCamera backend topic (pass.carried.camera topic) (fun pass => pass.carried.camera topic)
      (messages.filter (s.isUnitOf rawSet topic))
      (.each (s.iterMessage backend built rawSet true) pass messages) :=
  runsCamera_each (fun pass m => runsCamera_message hbuiltin hbuilt rawSet pass m) pass messages

/-- A part runs its cameras from what was carried to it. -/
theorem runsCamera_iterFile (hbuiltin : backend.custom .video = false) (hraw : q.rawAll = false)
    {file : File D} (hlists : ListsVideo file) (carried : Carried Ctx) :
    RunsCamera backend topic (carried.camera topic) (carriedCamera topic)
      (s.unitsOf q topic file) (s.iterFile backend q file q.want (some carried)) := by
  have hunits := @readMessages_units _ s topic q file hlists
  unfold iterFile
  dsimp only
  rw [hraw]
  split
  next hnothing =>
    rw [hnothing] at hunits
    have hnone : s.unitsOf q topic file = [] := by
      rw [← hunits]
      simp [readMessages]
    rw [hnone]
    exact runsCamera_nil (fun next hnext => by cases hnext; rfl) rfl
  next =>
    simp only [hbuiltin, Option.isSome_some, Bool.not_false, Bool.and_true, Bool.false_eq_true,
      if_false, if_true, Option.getD_some]
    rw [← hunits, ← List.append_nil (List.filter _ _)]
    have hvideo : ∀ decoded, Schema.video ∈ adapterSchemas file.index decoded := fun decoded =>
      List.mem_append_left _ (List.mem_cons_self ..)
    refine (runsCamera_messages hbuiltin (hvideo _) _ _ _).andThen fun pass _ => ?_
    exact (runsCamera_flush pass _).andThen fun pass' _ =>
      runsCamera_nil (fun next hnext => by cases hnext; rfl) rfl

/-- A file leaves decoders to the next one if there were any before it. -/
theorem isSome_of_iterFile {file : File D} {want : Want} {carried next : Option (Carried Ctx)}
    (hcarried : carried.isSome = true)
    (hreturns : (s.iterFile backend q file want carried).Returns next) : next.isSome = true := by
  unfold iterFile at hreturns
  dsimp only at hreturns
  split at hreturns
  next =>
    cases hreturns
    exact hcarried
  next =>
    split at hreturns
    next =>
      cases hreturns
      exact hcarried
    next =>
      obtain ⟨pass, -, hrest⟩ := Gen.returns_andThen.mp hreturns
      obtain ⟨pass', -, hlast⟩ := Gen.returns_andThen.mp hrest
      cases hlast
      split
      · rfl
      · exact hcarried

/-! ## A chain of parts -/

/-- What a stream that is about to read a part has kept. -/
structure Awaits (identity : Text) (part : ℕ) (state : StreamState Ctx) : Prop where
  first : part = 0 → state.previous = none ∧ state.carried = none
  later : part ≠ 0 → (∃ continuation, state.previous = some ⟨identity, part - 1, continuation⟩) ∧
    state.carried.isSome = true

variable {identity : Text} {part : ℕ} {cut messages : List (Message D)} {file : File D}
  {parts : List (File D)}

/-- A part continues the decoders that were kept. -/
theorem Awaits.streamFile_eq {state : StreamState Ctx} (hstate : Awaits identity part state)
    (hpart : PartOf identity part cut file) (hraw : q.rawAll = false) (want : Want) :
    s.streamFile backend q state (file, want) =
      (s.iterFile backend q file want (some (state.carried.getD {}))).andThen fun carried =>
        .done { carried := carried, previous := file.rotation } := by
  obtain ⟨continuation, hrotation, hmarked⟩ := hpart.marked
  unfold streamFile
  dsimp only
  by_cases hfirst : part = 0
  · obtain ⟨hprevious, hcarried⟩ := hstate.first hfirst
    rw [hprevious, hcarried, hrotation, hraw]
    rfl
  · obtain ⟨⟨before, hprevious⟩, hcarried⟩ := hstate.later hfirst
    obtain ⟨carried, hcarried⟩ := Option.isSome_iff_exists.mp hcarried
    have hnumber : part = part - 1 + 1 := by omega
    have hcontinues : continues state.previous file.rotation = true := by
      rw [hprevious, hrotation]
      simp [continues, nextPart, hmarked hfirst, ← hnumber]
    rw [if_pos hcontinues, hcarried]
    rfl

theorem Awaits.next {state next : StreamState Ctx} (hstate : Awaits identity part state)
    (hpart : PartOf identity part cut file) (hraw : q.rawAll = false) {want : Want}
    (hreturns : (s.streamFile backend q state (file, want)).Returns next) :
    Awaits identity (part + 1) next := by
  obtain ⟨continuation, hrotation, -⟩ := hpart.marked
  rw [hstate.streamFile_eq hpart hraw] at hreturns
  obtain ⟨carried, hfile, hdone⟩ := Gen.returns_andThen.mp hreturns
  cases hdone
  exact ⟨fun hzero => absurd hzero (Nat.succ_ne_zero part),
    fun _ => ⟨⟨continuation, hrotation⟩, isSome_of_iterFile rfl hfile⟩⟩

/-- The parts of a recording run each camera over its access units. -/
theorem runsCamera_parts (hbuiltin : backend.custom .video = false) (hraw : q.rawAll = false)
    (hend : q.endNs = none) (hcut : CutInto identity part messages parts)
    (hincreasing : (messages.filter (s.isSelected q topic)).Pairwise fun a b =>
      a.logTime < b.logTime) {state : StreamState Ctx} (hstate : Awaits identity part state) :
    RunsCamera backend topic (carriedCamera topic state.carried)
      (fun state => carriedCamera topic state.carried) (messages.filter (s.isSelected q topic))
      (.each (s.streamFile backend q) state (parts.map (·, q.want))) := by
  induction hcut generalizing state with
  | nil part =>
      refine runsCamera_nil (fun next hnext => ?_) rfl
      cases hnext
      rfl
  | @cons part cut rest file files hpart _ ih =>
      rw [List.filter_append] at hincreasing ⊢
      obtain ⟨hfirst, hlater, -⟩ := List.pairwise_append.mp hincreasing
      rw [List.map_cons, Gen.each_cons]
      refine RunsCamera.andThen ?_ fun next hnext => ih hlater (hstate.next hpart hraw hnext)
      rw [hstate.streamFile_eq hpart hraw, ← PartOf.units hpart hfirst, ← unitsOf_unbounded hend,
        ← List.append_nil (s.unitsOf q topic file)]
      refine (runsCamera_iterFile hbuiltin hraw (PartOf.listsVideo hpart) _).andThen
        fun carried _ => ?_
      exact runsCamera_nil (fun next hnext => by cases hnext; rfl) rfl

end Session

end VisioSchema.Reader

import VisioSchema.Reader.WindowFrames

/-!
# The items of a window

Frames aside, what a file yields does not depend on the files before it: it is a scan of its
messages (`otherScan`), in which an adapter knows what it was fed of the file.  A file that ends
before the window is read for its samples only, which may lie behind the messages they came in;
the rest of it lies outside the window (`timed_scanOf_skipped`).

## Strategy

The pass with its decoders is first replaced by the scan (`streamFile_others`).  Of the scan
there are two facts.

* Anything but a sample has the time of its message (`otherStep_times`), so that a message
  outside the window puts nothing else into it (`timed_otherScan_outside`).
* An adapter of samples is fed by messages with samples only (`SameSamples.skip`), so that a scan
  of these alone yields the same samples (`timed_otherScan_samples`).

A file that the window meets is read in full up to its end (`timed_scanOf_read`); one that ends
before the window is covered by the second fact (`timed_scanOf_early`); one behind it has nothing
to put there.
-/

namespace VisioSchema.Reader

open VisioSchema.Library VisioSchema.Wire

variable {D Ctx Img V ε : Type*}

/-- The camera whose frame an element is. -/
def frameTopic (element : Element Topic (Value Img D V)) : Option Topic :=
  match element.value with
  | .frame _ _ => some element.topic
  | _ => none

theorem isFrameOf_iff {topic : Topic} {element : Element Topic (Value Img D V)} :
    isFrameOf topic element = true ↔ frameTopic element = some topic := by
  unfold isFrameOf frameTopic
  cases element.value with
  | frame image frameId => simp
  | raw data => simp
  | other value => simp

/-- The items that are no frames. -/
def otherItems (items : List (Triple Topic (Value Img D V))) :
    List (Triple Topic (Value Img D V)) :=
  items.filter fun triple => (frameTopic triple.element).isNone

theorem otherItems_append (l r : List (Triple Topic (Value Img D V))) :
    otherItems (l ++ r) = otherItems l ++ otherItems r := List.filter_append ..

theorem otherItems_of_forall {items : List (Triple Topic (Value Img D V))}
    (hother : ∀ triple ∈ items, frameTopic triple.element = none) : otherItems items = items :=
  List.filter_eq_self.mpr fun triple htriple => by rw [hother triple htriple]; rfl

/-- The adapters are the package's own: they keep to `Prompt`, and put anything but a sample of an
IMU at the time of its message. -/
structure Backend.Builtin (backend : Backend D Ctx Img V ε) : Prop where
  builtin : ∀ schema, backend.custom schema = false
  prompt : backend.Prompt
  stamped : ∀ schema fed m, schema ≠ .imuRaw → schema ≠ .imuQuat →
    ∀ triple ∈ (backend.emit schema fed m).items, triple.element.tNs = m.tNs

namespace Session

variable (s : Session D) (backend : Backend D Ctx Img V ε)

/-! ## A scan of a file -/

/-- What a message yields besides frames, and what the adapters were fed behind it. -/
def otherStep (built : List Schema) (rawSet : List Topic) (fed : Schema → List (Fed D))
    (m : Message D) : List (Triple Topic (Value Img D V)) × (Schema → List (Fed D)) :=
  match m.schema, stripDevice s.device m.topic with
  | some schema, some topic =>
      if topic ∈ rawSet then ([rawTriple topic m], fed)
      else if schema ∉ built then ([], fed)
      else if schema = .video ∧ backend.custom .video = false then ([], fed)
      else
        ((adapted () (backend.emit schema (fed schema) ⟨topic, m.logTime, m.data⟩)).items,
          Function.update fed schema (fed schema ++ [⟨topic, m.logTime, m.data⟩]))
  | _, _ => ([], fed)

def otherScan (built : List Schema) (rawSet : List Topic) (fed : Schema → List (Fed D)) :
    List (Message D) → List (Triple Topic (Value Img D V))
  | [] => []
  | m :: rest =>
      (s.otherStep backend built rawSet fed m).1 ++
        otherScan built rawSet (s.otherStep backend built rawSet fed m).2 rest

/-- The adapters that are built for a file. -/
def builtFor (rawSet : List Topic) (index : FileIndex) (want : Want) : List Schema :=
  adapterSchemas index ((s.wantedPrefixed index want false).filter fun topic =>
    (stripDevice s.device topic).all fun canon => canon ∉ rawSet)

/-- What a file yields besides frames. -/
def scanOf (q : Query) (file : File D) (want : Want) : List (Triple Topic (Value Img D V)) :=
  if q.rawAll then s.iterFileRaw file (s.wantedPrefixed file.index want true) q.endNs
  else
    s.otherScan backend (s.builtFor q.rawSet file.index want) q.rawSet (fun _ => [])
      (readMessages file (s.wantedPrefixed file.index want false) q.endNs)

variable {s} {backend} {topic : Topic} {q : Query} {built : List Schema} {rawSet : List Topic}

theorem adapted_others {σ : Type*} (next : σ) (g : Gen (Triple Topic V) ε Unit) :
    otherItems (adapted next g : Gen (Triple Topic (Value Img D V)) _ _).items =
      (adapted () g : Gen (Triple Topic (Value Img D V)) _ _).items := by
  refine otherItems_of_forall fun triple htriple => ?_
  obtain ⟨source, -, rfl⟩ := List.mem_map.mp htriple
  rfl

/-- A message yields what the scan says, whatever the decoders hold. -/
theorem iterMessage_others {carry : Bool} {pass next : Pass Ctx D} {m : Message D}
    (hreturns : (s.iterMessage backend built rawSet carry pass m).Returns next) :
    otherItems (s.iterMessage backend built rawSet carry pass m).items =
        (s.otherStep backend built rawSet pass.fed m).1 ∧
      next.fed = (s.otherStep backend built rawSet pass.fed m).2 := by
  unfold iterMessage at hreturns ⊢
  unfold otherStep
  cases hschema : m.schema with
  | none =>
      simp only [hschema] at hreturns ⊢
      cases hreturns
      exact ⟨rfl, rfl⟩
  | some schema =>
      cases hstrip : stripDevice s.device m.topic with
      | none =>
          simp only [hschema, hstrip] at hreturns ⊢
          cases hreturns
          exact ⟨rfl, rfl⟩
      | some topic =>
          simp only [hschema, hstrip] at hreturns ⊢
          by_cases hraw : topic ∈ rawSet
          · rw [if_pos hraw] at hreturns
            rw [if_pos hraw, if_pos hraw]
            cases hreturns
            exact ⟨rfl, rfl⟩
          rw [if_neg hraw] at hreturns
          rw [if_neg hraw, if_neg hraw]
          by_cases hbuilt : schema ∉ built
          · rw [if_pos hbuilt] at hreturns
            rw [if_pos hbuilt, if_pos hbuilt]
            cases hreturns
            exact ⟨rfl, rfl⟩
          rw [if_neg hbuilt] at hreturns
          rw [if_neg hbuilt, if_neg hbuilt]
          by_cases hvideo : schema = .video ∧ backend.custom .video = false
          · rw [if_pos hvideo] at hreturns
            rw [if_pos hvideo, if_pos hvideo]
            unfold videoMessage at hreturns ⊢
            split at hreturns
            next => cases hreturns
            next items decoder hdecoded =>
              cases hreturns
              refine ⟨List.filter_eq_nil_iff.mpr fun triple htriple => ?_, rfl⟩
              obtain ⟨image, frameId, rfl⟩ := decodeUnit_items hdecoded triple htriple
              exact Bool.false_ne_true
          · rw [if_neg hvideo] at hreturns
            rw [if_neg hvideo, if_neg hvideo]
            refine ⟨adapted_others _ _, ?_⟩
            rw [returns_adapted hreturns]

theorem each_others {carry : Bool} {pass next : Pass Ctx D} {messages : List (Message D)}
    (hreturns : (Gen.each (s.iterMessage backend built rawSet carry) pass messages).Returns next) :
    otherItems (Gen.each (s.iterMessage backend built rawSet carry) pass messages).items =
      s.otherScan backend built rawSet pass.fed messages := by
  induction messages generalizing pass with
  | nil => rfl
  | cons m rest ih =>
      rw [Gen.each_cons] at hreturns ⊢
      obtain ⟨between, hfirst, hrest⟩ := Gen.returns_andThen.mp hreturns
      obtain ⟨hitems, hfed⟩ := iterMessage_others hfirst
      rw [hfirst.andThen_eq, otherItems_append, hitems, ih hrest, hfed]
      rfl

/-- A file that is not passed through yields what its messages yield. -/
theorem iterFile_returns (hprompt : backend.Prompt) (hraw : q.rawAll = false) {file : File D}
    {want : Want} {carried next : Option (Carried Ctx)}
    (hreturns : (s.iterFile backend q file want carried).Returns next) :
    ∃ (carry : Bool) (pass final : Pass Ctx D), pass.fed = (fun _ => []) ∧
      (carried = none → carry = false ∧ pass = {}) ∧
      (Gen.each (s.iterMessage backend (s.builtFor q.rawSet file.index want) q.rawSet carry) pass
        (readMessages file (s.wantedPrefixed file.index want false) q.endNs)).Returns final ∧
      (s.iterFile backend q file want carried).items =
        (Gen.each (s.iterMessage backend (s.builtFor q.rawSet file.index want) q.rawSet carry) pass
          (readMessages file (s.wantedPrefixed file.index want false) q.endNs)).items := by
  unfold iterFile at hreturns ⊢
  dsimp only at hreturns ⊢
  rw [hraw] at hreturns ⊢
  split at hreturns
  next hnothing =>
    have hread : readMessages file (s.wantedPrefixed file.index want false) q.endNs = [] := by
      rw [hnothing]
      simp [readMessages]
    rw [if_pos hnothing, hread]
    exact ⟨false, {}, {}, rfl, fun _ => ⟨rfl, rfl⟩, rfl, rfl⟩
  next hsome =>
    rw [if_neg hsome]
    simp only [Bool.false_eq_true, if_false] at hreturns ⊢
    obtain ⟨final, hmessages, hflush⟩ := Gen.returns_andThen.mp hreturns
    obtain ⟨flushed, hflush, -⟩ := Gen.returns_andThen.mp hflush
    refine ⟨_, _, final, rfl, fun hnone => ?_, hmessages, ?_⟩
    · rw [hnone]
      exact ⟨rfl, rfl⟩
    · -- the adapters hold nothing back
      have hnothing : ∀ (built : List Schema) (pass : Pass Ctx D),
          ((Gen.each (flushAdapter backend) pass built :
            Gen (Triple Topic (Value Img D V)) (ReadError ε) (Pass Ctx D))).items = [] := by
        intro built pass
        refine List.eq_nil_iff_forall_not_mem.mpr fun triple htriple => ?_
        have hnone : ∀ (pass : Pass Ctx D), ∀ schema ∈ built,
            ∀ triple ∈ (flushAdapter backend pass schema).items, False := by
          intro pass schema _ triple htriple
          rw [flushAdapter_items hprompt] at htriple
          cases htriple
        exact Gen.each_forall hnone pass triple htriple
      rw [hmessages.andThen_eq, Gen.items_andThen_done, hnothing]
      exact List.append_nil _

theorem iterFileRaw_mem {file : File D} {wanted : List Topic} {endNs : Option ℤ}
    {triple : Triple Topic (Value Img D V)} (htriple : triple ∈ s.iterFileRaw file wanted endNs) :
    ∃ m ∈ readMessages file wanted endNs, ∃ topic, triple = rawTriple topic m := by
  obtain ⟨m, hm, hmap⟩ := List.mem_filterMap.mp htriple
  split at hmap
  next =>
    obtain ⟨topic, -, rfl⟩ := Option.map_eq_some_iff.mp hmap
    exact ⟨m, hm, topic, rfl⟩
  next => cases hmap

/-- The files of a pass are scanned one by one. -/
theorem streamFile_others (hprompt : backend.Prompt) {state next : StreamState Ctx}
    {file : File D} {want : Want}
    (hreturns : (s.streamFile backend q state (file, want)).Returns next) :
    otherItems (s.streamFile backend q state (file, want)).items =
      s.scanOf backend q file want := by
  rw [streamFile_eq] at hreturns ⊢
  obtain ⟨after, hfile, -⟩ := Gen.returns_andThen.mp hreturns
  rw [Gen.items_andThen_done, scanOf]
  cases hraw : q.rawAll with
  | false =>
      obtain ⟨carry, pass, final, hfed, -, hmessages, hitems⟩ :=
        iterFile_returns hprompt hraw hfile
      rw [hitems, each_others hmessages, hfed]
      rfl
  | true =>
      have hall : (s.iterFile backend q file want (carriedInto q state file)).items =
          s.iterFileRaw file (s.wantedPrefixed file.index want true) q.endNs := by
        unfold iterFile
        dsimp only
        rw [hraw]
        split
        next hnothing =>
          rw [hnothing]
          simp [iterFileRaw, readMessages]
        next => rfl
      rw [hall]
      refine otherItems_of_forall fun triple htriple => ?_
      obtain ⟨m, -, topic, rfl⟩ := iterFileRaw_mem htriple
      rfl

theorem each_streamFile_others (hprompt : backend.Prompt) {state next : StreamState Ctx}
    {members : List (File D × Want)}
    (hreturns : (Gen.each (s.streamFile backend q) state members).Returns next) :
    otherItems (Gen.each (s.streamFile backend q) state members).items =
      members.flatMap fun member => s.scanOf backend q member.1 member.2 := by
  induction members generalizing state with
  | nil => rfl
  | cons member rest ih =>
      rw [Gen.each_cons] at hreturns ⊢
      obtain ⟨between, hfirst, hrest⟩ := Gen.returns_andThen.mp hreturns
      rw [hfirst.andThen_eq, otherItems_append, streamFile_others hprompt hfirst, ih hrest]
      rfl

/-! ## What a scan puts outside a window -/

variable {inside : ℤ → Bool}

/-- What a message yields is not older than it, and has its time unless it is a sample. -/
theorem otherStep_times (hbuiltin : backend.Builtin) (fed : Schema → List (Fed D))
    (m : Message D) : ∀ triple ∈ (s.otherStep backend built rawSet fed m).1,
      m.logTime ≤ triple.element.tNs ∧
        (m.schema ≠ some .imuRaw → m.schema ≠ some .imuQuat → triple.element.tNs = m.logTime) := by
  intro triple htriple
  unfold otherStep at htriple
  split at htriple
  next schema topic hschema hstrip =>
    split at htriple
    next =>
      rw [List.mem_singleton.mp htriple]
      exact ⟨Int.le_refl _, fun _ _ => rfl⟩
    next =>
      split at htriple
      next => cases htriple
      next =>
        split at htriple
        next => cases htriple
        next =>
          obtain ⟨source, hsource, rfl⟩ := List.mem_map.mp htriple
          obtain ⟨-, hlater, hsort⟩ := hbuiltin.prompt.emits _ _ _ source hsource
          refine ⟨hsort ▸ hlater, fun hraw hquat => ?_⟩
          rw [hschema] at hraw hquat
          exact hbuiltin.stamped schema _ _ (fun heq => hraw (congrArg some heq))
            (fun heq => hquat (congrArg some heq)) source hsource
  next => cases htriple

/-- A raw message has its time. -/
theorem otherStep_raw {fed : Schema → List (Fed D)} {m : Message D} {schema : Schema}
    (hschema : m.schema = some schema) (hstrip : stripDevice s.device m.topic = some topic)
    (hraw : topic ∈ rawSet) :
    s.otherStep backend built rawSet fed m = ([rawTriple topic m], fed) := by
  unfold otherStep
  rw [hschema, hstrip]
  exact if_pos hraw

theorem timed_otherScan_outside (fed : Schema → List (Fed D)) {messages : List (Message D)}
    (houtside : ∀ m ∈ messages, ∀ fed, ∀ triple ∈ (s.otherStep backend built rawSet fed m).1,
      inside triple.element.tNs = false) :
    timed inside (s.otherScan backend built rawSet fed messages) = [] := by
  induction messages generalizing fed with
  | nil => rfl
  | cons m rest ih =>
      have hfirst : timed inside (s.otherStep backend built rawSet fed m).1 = [] := by
        refine List.filter_eq_nil_iff.mpr fun triple htriple => ?_
        rw [houtside m (List.mem_cons_self ..) fed triple htriple]
        exact Bool.false_ne_true
      rw [otherScan, timed_append, hfirst, List.nil_append]
      exact ih _ fun n hn => houtside n (List.mem_cons_of_mem m hn)

/-- What comes behind the last message of interest does not tell. -/
theorem timed_otherScan_append (fed : Schema → List (Fed D)) (messages : List (Message D))
    {late : List (Message D)}
    (houtside : ∀ m ∈ late, ∀ fed, ∀ triple ∈ (s.otherStep backend built rawSet fed m).1,
      inside triple.element.tNs = false) :
    timed inside (s.otherScan backend built rawSet fed (messages ++ late)) =
      timed inside (s.otherScan backend built rawSet fed messages) := by
  induction messages generalizing fed with
  | nil => exact timed_otherScan_outside fed houtside
  | cons m rest ih => rw [List.cons_append, otherScan, otherScan, timed_append, timed_append, ih]

/-- A message whose samples are decoded. -/
def isSampleUnit (s : Session D) (rawSet : List Topic) (m : Message D) : Bool :=
  (m.schema = some .imuRaw || m.schema = some .imuQuat) &&
    (stripDevice s.device m.topic).any fun topic => topic ∉ rawSet

theorem isSampleUnit_iff {m : Message D} : s.isSampleUnit rawSet m = true ↔
    (m.schema = some .imuRaw ∨ m.schema = some .imuQuat) ∧
      ∃ topic, stripDevice s.device m.topic = some topic ∧ topic ∉ rawSet := by
  simp [isSampleUnit, Option.any_eq_true]

/-- What the adapters of samples were fed. -/
structure SameSamples (fed fed' : Schema → List (Fed D)) : Prop where
  raw : fed .imuRaw = fed' .imuRaw
  quat : fed .imuQuat = fed' .imuQuat

/-- A message without samples feeds no adapter of samples. -/
theorem SameSamples.skip {fed fed' : Schema → List (Fed D)} (hsame : SameSamples fed fed')
    {m : Message D} (hnot : s.isSampleUnit rawSet m = false) :
    SameSamples (s.otherStep backend built rawSet fed m).2 fed' := by
  unfold otherStep
  split
  next schema topic hschema hstrip =>
    split
    next => exact hsame
    next hraw =>
      split
      next => exact hsame
      next =>
        split
        next => exact hsame
        next =>
          have hother : schema ≠ .imuRaw ∧ schema ≠ .imuQuat := by
            constructor
            · rintro rfl
              simp [isSampleUnit, hschema, hstrip, hraw] at hnot
            · rintro rfl
              simp [isSampleUnit, hschema, hstrip, hraw] at hnot
          constructor
          · dsimp only
            rw [Function.update_of_ne (Ne.symm hother.1)]
            exact hsame.raw
          · dsimp only
            rw [Function.update_of_ne (Ne.symm hother.2)]
            exact hsame.quat
  next => exact hsame

theorem SameSamples.update {fed fed' : Schema → List (Fed D)} (hsame : SameSamples fed fed')
    (schema : Schema) (now : List (Fed D)) :
    SameSamples (Function.update fed schema now) (Function.update fed' schema now) where
  raw := by rw [Function.update_apply, Function.update_apply, hsame.raw]
  quat := by rw [Function.update_apply, Function.update_apply, hsame.quat]

/-- A message with samples yields the same where their adapters are built and were fed the same. -/
theorem SameSamples.step {fed fed' : Schema → List (Fed D)} (hsame : SameSamples fed fed')
    {built' : List Schema} {m : Message D} (hunit : s.isSampleUnit rawSet m = true)
    (hbuilt : ∀ schema, m.schema = some schema → schema ∈ built ∧ schema ∈ built') :
    (s.otherStep backend built rawSet fed m).1 = (s.otherStep backend built' rawSet fed' m).1 ∧
      SameSamples (s.otherStep backend built rawSet fed m).2
        (s.otherStep backend built' rawSet fed' m).2 := by
  obtain ⟨hschema, topic, hstrip, hraw⟩ := isSampleUnit_iff.mp hunit
  have hstep : ∀ schema, m.schema = some schema → schema ≠ .video → ∀ built fed, schema ∈ built →
      s.otherStep backend built rawSet fed m =
        ((adapted () (backend.emit schema (fed schema) ⟨topic, m.logTime, m.data⟩)).items,
          Function.update fed schema (fed schema ++ [⟨topic, m.logTime, m.data⟩])) := by
    intro schema hschema hvideo built fed hin
    unfold otherStep
    rw [hschema, hstrip]
    dsimp only
    rw [if_neg hraw, if_neg (not_not_intro hin), if_neg fun hboth => hvideo hboth.1]
  rcases hschema with hschema | hschema
  · obtain ⟨hin, hin'⟩ := hbuilt _ hschema
    rw [hstep _ hschema Schema.noConfusion _ _ hin, hstep _ hschema Schema.noConfusion _ _ hin',
      hsame.raw]
    exact ⟨rfl, hsame.update _ _⟩
  · obtain ⟨hin, hin'⟩ := hbuilt _ hschema
    rw [hstep _ hschema Schema.noConfusion _ _ hin, hstep _ hschema Schema.noConfusion _ _ hin',
      hsame.quat]
    exact ⟨rfl, hsame.update _ _⟩

/-- A scan puts into a window what a scan of the messages with samples puts there, if the others
lie outside. -/
theorem timed_otherScan_samples (hbuiltin : backend.Builtin) {fed fed' : Schema → List (Fed D)}
    (hsame : SameSamples fed fed') {built' : List Schema} {messages : List (Message D)}
    (houtside : ∀ m ∈ messages, inside m.logTime = false)
    (hbuilt : ∀ m ∈ messages, s.isSampleUnit rawSet m = true →
      ∀ schema, m.schema = some schema → schema ∈ built ∧ schema ∈ built') :
    timed inside (s.otherScan backend built rawSet fed messages) =
      timed inside (s.otherScan backend built' rawSet fed'
        (messages.filter (s.isSampleUnit rawSet))) := by
  induction messages generalizing fed fed' with
  | nil => rfl
  | cons m rest ih =>
      have hrest : ∀ n ∈ rest, inside n.logTime = false := fun n hn =>
        houtside n (List.mem_cons_of_mem m hn)
      have hbuiltRest := fun n hn => hbuilt n (List.mem_cons_of_mem m hn)
      cases hunit : s.isSampleUnit rawSet m with
      | true =>
          obtain ⟨hitems, hnext⟩ := @SameSamples.step _ _ _ _ _ s backend built rawSet fed fed'
            hsame built' m hunit (hbuilt m (List.mem_cons_self ..) hunit)
          rw [List.filter_cons_of_pos hunit, otherScan, otherScan, timed_append, timed_append,
            hitems, ih hnext hrest hbuiltRest]
      | false =>
          -- it has its own time
          have hnone : timed inside (s.otherStep backend built rawSet fed m).1 = [] := by
            refine List.filter_eq_nil_iff.mpr fun triple htriple => ?_
            have htime : triple.element.tNs = m.logTime := by
              by_cases hsample : m.schema = some .imuRaw ∨ m.schema = some .imuQuat
              · have hraw : ∃ topic schema, m.schema = some schema ∧
                    stripDevice s.device m.topic = some topic ∧ topic ∈ rawSet := by
                  cases hstrip : stripDevice s.device m.topic with
                  | none =>
                      rcases hsample with hschema | hschema
                      · simp [otherStep, hschema, hstrip] at htriple
                      · simp [otherStep, hschema, hstrip] at htriple
                  | some topic =>
                      by_cases hin : topic ∈ rawSet
                      · rcases hsample with hschema | hschema
                        · exact ⟨topic, _, hschema, rfl, hin⟩
                        · exact ⟨topic, _, hschema, rfl, hin⟩
                      · cases hunit.symm.trans (isSampleUnit_iff.mpr ⟨hsample, topic, hstrip, hin⟩)
                obtain ⟨topic, schema, hschema, hstrip, hin⟩ := hraw
                rw [otherStep_raw hschema hstrip hin] at htriple
                rw [List.mem_singleton.mp htriple]
                rfl
              · rw [not_or] at hsample
                exact (otherStep_times hbuiltin fed m triple htriple).2 hsample.1 hsample.2
            rw [htime, houtside m (List.mem_cons_self ..)]
            exact Bool.false_ne_true
          rw [List.filter_cons_of_neg (by simp [hunit]), otherScan, timed_append, hnone,
            List.nil_append]
          exact ih (hsame.skip hunit) hrest hbuiltRest

/-! ## A file and a window -/

/-- Behind the end of a window there is nothing of it. -/
theorem inWindow_late {startNs endNs : Option ℤ} {a t : ℤ} (hlate : inWindow none endNs a = false)
    (hle : a ≤ t) : inWindow startNs endNs t = false := by
  cases hend : endNs with
  | none =>
      rw [hend] at hlate
      cases hlate
  | some stop =>
      rw [hend] at hlate
      simp only [inWindow, Option.all_none, Option.all_some, Bool.true_and,
        decide_eq_false_iff_not] at hlate
      rw [inWindow, Option.all_some, decide_eq_false (by omega), Bool.and_false]

theorem readMessages_cut {file : File D}
    (hordered : file.messages.Pairwise fun a b => a.logTime ≤ b.logTime) (topics : List Topic)
    (endNs : Option ℤ) : ∃ late, (∀ m ∈ late, inWindow none endNs m.logTime = false) ∧
      readMessages file topics none = readMessages file topics endNs ++ late := by
  have hread : readMessages file topics endNs =
      (readMessages file topics none).filter fun m => endNs.all fun stop => m.logTime < stop := by
    unfold readMessages
    rw [List.filter_filter]
    refine List.filter_congr fun m _ => ?_
    rw [Option.all_none, Bool.and_true, Bool.and_comm]
  obtain ⟨late, hlate, hcut⟩ := @cut_at_end _ none (readMessages file topics none)
    (hordered.sublist (List.filter_sublist ..)) endNs
  exact ⟨late, hlate, hread ▸ hcut⟩

theorem iterFileRaw_times {file : File D} {wanted : List Topic} {endNs : Option ℤ} :
    ∀ triple ∈ (s.iterFileRaw file wanted endNs : List (Triple Topic (Value Img D V))),
      ∃ m ∈ file.messages, triple.element.tNs = m.logTime := by
  intro triple htriple
  obtain ⟨m, hm, topic, rfl⟩ := iterFileRaw_mem htriple
  exact ⟨m, (List.mem_filter.mp hm).1, rfl⟩

variable (hbuiltin : backend.Builtin)
  (hinside : ∀ t, inside t = true → inWindow q.startNs q.endNs t = true)

include hinside in
theorem outside_of_not_inWindow {t : ℤ} (ht : inWindow q.startNs q.endNs t = false) :
    inside t = false := by
  by_contra hin
  rw [Bool.not_eq_false] at hin
  cases ht.symm.trans (hinside t hin)

include hbuiltin hinside in
/-- A file that is read in full puts into the window what it puts there unbounded. -/
theorem timed_scanOf_read {file : File D}
    (hordered : file.messages.Pairwise fun a b => a.logTime ≤ b.logTime) (want : Want) :
    timed inside (s.scanOf backend q.unbounded file want) =
      timed inside (s.scanOf backend q file want) := by
  unfold scanOf
  change timed inside (if q.rawAll then _ else _) = _
  cases hraw : q.rawAll with
  | true =>
      simp only [if_true]
      obtain ⟨late, hlate, hcut⟩ := readMessages_cut hordered
        (s.wantedPrefixed file.index want true) q.endNs
      unfold iterFileRaw
      rw [show q.unbounded.endNs = none from rfl, hcut, List.filterMap_append, timed_append]
      refine (congrArg _ (List.filter_eq_nil_iff.mpr fun triple htriple => ?_)).trans
        (List.append_nil _)
      obtain ⟨m, hm, hmap⟩ := List.mem_filterMap.mp htriple
      have htime : triple.element.tNs = m.logTime := by
        split at hmap
        next =>
          obtain ⟨topic, -, rfl⟩ := Option.map_eq_some_iff.mp hmap
          rfl
        next => cases hmap
      rw [htime, outside_of_not_inWindow hinside (inWindow_late (hlate m hm) (Int.le_refl _))]
      exact Bool.false_ne_true
  | false =>
      simp only [Bool.false_eq_true, if_false]
      obtain ⟨late, hlate, hcut⟩ := readMessages_cut hordered
        (s.wantedPrefixed file.index want false) q.endNs
      rw [show q.unbounded.endNs = none from rfl, hcut]
      refine timed_otherScan_append _ _ fun m hm fed triple htriple => ?_
      exact outside_of_not_inWindow hinside (inWindow_late (hlate m hm)
        (otherStep_times hbuiltin fed m triple htriple).1)

/-- The adapters of the topics that are decoded are built. -/
theorem mem_builtFor {index : FileIndex} {want : Want} {entry : TopicEntry} {schema : Schema}
    (hentry : entry ∈ index.topics) (hwanted : entry.topic ∈ s.wantedPrefixed index want false)
    (hschema : entry.schema = some schema) (hstrip : stripDevice s.device entry.topic = some topic)
    (hraw : topic ∉ rawSet) : schema ∈ s.builtFor rawSet index want := by
  unfold builtFor adapterSchemas
  by_cases hbuilt : schema ∈ [Schema.video, .image, .imuRaw]
  · exact List.mem_append_left _ hbuilt
  · refine List.mem_append_right _ (List.mem_eraseDups.mpr (List.mem_filter.mpr ⟨?_, ?_⟩))
    · refine List.mem_filterMap.mpr ⟨entry, hentry, ?_⟩
      rw [if_pos, hschema]
      refine List.mem_filter.mpr ⟨hwanted, ?_⟩
      rw [hstrip]
      simpa using hraw
    · simpa using hbuilt

/-- A topic of samples that is selected is one of those that are read before the window. -/
theorem mem_wantedPrefixed_early (hcustom : ∀ schema, backend.custom schema = false)
    (hlead : q.infoLeadNs = 0) {file : File D} (hfile : file.Indexed s.device)
    (hspans : spansWindow file.index q.startNs none = false) {m : Message D}
    (hm : m ∈ file.messages) :
    m.topic ∈ s.wantedPrefixed file.index (some (s.earlyTopics backend q file.index)) false ↔
      m.topic ∈ s.wantedPrefixed file.index q.want false ∧ s.isSampleUnit q.rawSet m = true := by
  obtain ⟨own, hown, hownTopic, hownSchema, hownCount⟩ := hfile.listed m hm
  constructor
  · intro hin
    obtain ⟨entry, hentry, htopic⟩ := List.mem_map.mp hin
    obtain ⟨hlisted, hselected⟩ := List.mem_filter.mp hentry
    cases hstrip : stripDevice s.device m.topic with
    | none =>
        rw [htopic, hstrip] at hselected
        cases hselected
    | some topic =>
        rw [htopic, hstrip] at hselected
        obtain ⟨early, hearly, hname⟩ := List.mem_filterMap.mp (of_decide_eq_true hselected)
        split at hname
        next hcounted =>
          obtain ⟨hearlyStrip, hraw⟩ := Option.filter_eq_some_iff.mp hname
          obtain ⟨hsameTopic, hsame⟩ := hfile.named early hearly own hown topic hearlyStrip
            (hownTopic ▸ hstrip)
          obtain ⟨-, hwanted, htest⟩ := hcounted
          rw [infoStart_of_lead hlead] at htest
          have hsample : early.schema = some .imuRaw ∨ early.schema = some .imuQuat := by
            cases hschema : early.schema with
            | none => simp [hschema, hspans] at htest
            | some schema => simpa [hschema, hspans, hcustom] using htest
          rw [hsame, hownSchema] at hsample
          rw [hsameTopic, hownTopic] at hwanted
          exact ⟨hwanted, isSampleUnit_iff.mpr ⟨hsample, topic, hstrip, by simpa using hraw⟩⟩
        next => cases hname
  · rintro ⟨hwanted, hunit⟩
    obtain ⟨hsample, topic, hstrip, hraw⟩ := isSampleUnit_iff.mp hunit
    have hearly : topic ∈ s.earlyTopics backend q file.index := by
      refine List.mem_filterMap.mpr ⟨own, hown, ?_⟩
      rw [hownTopic, if_pos, hstrip]
      · simpa using hraw
      · refine ⟨hownCount, hwanted, ?_⟩
        rcases hsample with hschema | hschema
        · simp [hownSchema, hschema]
        · simp [hownSchema, hschema]
    refine List.mem_map.mpr ⟨own, List.mem_filter.mpr ⟨hown, ?_⟩, hownTopic⟩
    rw [hownTopic, hstrip]
    exact decide_eq_true hearly

/-- A file that neither meets a window nor ends before it begins behind it. -/
theorem behind_of_not_before {file : File D} (hfile : file.Indexed s.device)
    {startNs endNs : Option ℤ} (houtside : spansWindow file.index startNs endNs = false)
    (hnot : (startNs.any fun start => file.index.endNs.any fun stop => stop < start) = false) :
    ∀ m ∈ file.messages, inWindow none endNs m.logTime = false := by
  unfold spansWindow at houtside
  cases hlo : file.index.startNs with
  | none =>
      rw [hlo] at houtside
      cases houtside
  | some lo =>
      cases hhi : file.index.endNs with
      | none =>
          rw [hlo, hhi] at houtside
          cases houtside
      | some hi =>
          rw [hlo, hhi] at houtside
          rw [hhi] at hnot
          intro m hm
          have hlow := (hfile.bounded lo hi hlo hhi m hm).1
          have hmeets : (startNs.all fun start => decide (start ≤ hi)) = true := by
            cases hstart : startNs with
            | none => rfl
            | some start =>
                rw [hstart] at hnot
                simp only [Option.any_some, decide_eq_false_iff_not] at hnot
                exact decide_eq_true (by omega)
          dsimp only at houtside
          rw [hmeets, Bool.and_true] at houtside
          cases hend : endNs with
          | none =>
              rw [hend] at houtside
              cases houtside
          | some stop =>
              rw [hend, Option.all_some, decide_eq_false_iff_not] at houtside
              rw [inWindow, Option.all_none, Option.all_some, Bool.true_and]
              exact decide_eq_false (by omega)

include hbuiltin hinside in
/-- A file that ends before the window puts into it what its samples put there. -/
theorem timed_scanOf_early (hlead : q.infoLeadNs = 0) {file : File D}
    (hfile : file.Indexed s.device)
    (houtside : ∀ m ∈ file.messages, inside m.logTime = false) (hraw : q.rawAll = false)
    (hspans : spansWindow file.index q.startNs none = false) :
    timed inside (s.scanOf backend q.unbounded file q.want) =
      timed inside (s.scanOf backend q file (some (s.earlyTopics backend q file.index))) := by
  have hread : ∀ want : Want, s.scanOf backend q.unbounded file want =
      s.otherScan backend (s.builtFor q.rawSet file.index want) q.rawSet (fun _ => [])
        (readMessages file (s.wantedPrefixed file.index want false) none) := by
    intro want
    unfold scanOf
    change (if q.rawAll then _ else _) = _
    rw [hraw]
    rfl
  have hsamples : (readMessages file (s.wantedPrefixed file.index q.want false) none).filter
      (s.isSampleUnit q.rawSet) = readMessages file (s.wantedPrefixed file.index
        (some (s.earlyTopics backend q file.index)) false) none := by
    unfold readMessages
    rw [List.filter_filter]
    refine List.filter_congr fun m hm => ?_
    have hiff := mem_wantedPrefixed_early hbuiltin.builtin hlead hfile hspans hm
    rw [Bool.eq_iff_iff, Option.all_none, Bool.and_true, Bool.and_true, Bool.and_eq_true,
      decide_eq_true_eq, decide_eq_true_eq]
    exact ⟨fun hboth => hiff.mpr ⟨hboth.2, hboth.1⟩, fun hin => (hiff.mp hin).symm⟩
  rw [← timed_scanOf_read hbuiltin hinside hfile.ordered, hread, hread, ← hsamples]
  refine timed_otherScan_samples hbuiltin ⟨rfl, rfl⟩ (fun m hm => ?_)
    fun m hm hunit schema hsame => ?_
  · exact houtside m (List.mem_filter.mp hm).1
  · -- the adapters of samples are built in both
    obtain ⟨hmem, htopic⟩ := List.mem_filter.mp hm
    rw [Option.all_none, Bool.and_true, decide_eq_true_eq] at htopic
    obtain ⟨own, hown, hownTopic, hownSchema, -⟩ := hfile.listed m hmem
    obtain ⟨-, topic, hstrip, hnotRaw⟩ := isSampleUnit_iff.mp hunit
    have hearly := (mem_wantedPrefixed_early hbuiltin.builtin hlead hfile hspans hmem).mpr
      ⟨htopic, hunit⟩
    rw [← hownTopic] at htopic hearly hstrip
    rw [← hownSchema] at hsame
    exact ⟨mem_builtFor hown htopic hsame hstrip hnotRaw,
      mem_builtFor hown hearly hsame hstrip hnotRaw⟩

include hbuiltin hinside in
/-- A file that the window does not meet puts into it what is read of its samples. -/
theorem timed_scanOf_skipped (hlead : q.infoLeadNs = 0) {file : File D}
    (hfile : file.Indexed s.device)
    (houtside : spansWindow file.index q.startNs q.endNs = false) :
    timed inside (s.scanOf backend q.unbounded file q.want) =
      timed inside ((s.earlyMembers backend q [file]).flatMap fun member =>
        s.scanOf backend q member.1 member.2) := by
  have hout : ∀ m ∈ file.messages, inside m.logTime = false := fun m hm =>
    outside_of_not_inWindow hinside (hfile.outside houtside hm)
  cases hraw : q.rawAll with
  | true =>
      have hnone : s.earlyMembers backend q [file] = [] := by
        simp [earlyMembers, earlySelection, hraw]
      rw [hnone, scanOf, if_pos (show q.unbounded.rawAll = true from hraw)]
      refine List.filter_eq_nil_iff.mpr fun triple htriple => ?_
      obtain ⟨m, hm, htime⟩ := iterFileRaw_times triple htriple
      rw [htime, hout m hm]
      exact Bool.false_ne_true
  | false =>
      cases hbefore : q.startNs.any fun start => file.index.endNs.any fun stop =>
          decide (stop < start) with
      | true =>
          rw [timed_scanOf_early hbuiltin hinside hlead hfile hout hraw
            (spansWindow_before houtside hbefore)]
          cases htopics : s.earlyTopics backend q file.index with
          | nil =>
              have hnone : s.earlyMembers backend q [file] = [] := by
                simp [earlyMembers, earlySelection, hraw, houtside, hbefore, htopics]
              have hnothing : readMessages file
                  (s.wantedPrefixed file.index (some []) false) q.endNs = [] := by
                refine List.filter_eq_nil_iff.mpr fun m _ => ?_
                have hunwanted : s.wantedPrefixed file.index (some []) false = [] := by
                  refine List.map_eq_nil_iff.mpr (List.filter_eq_nil_iff.mpr fun entry _ => ?_)
                  split <;> simp
                simp [hunwanted]
              rw [hnone, scanOf, hraw, hnothing]
              rfl
          | cons first others =>
              have hone : s.earlyMembers backend q [file] =
                  [(file, some (s.earlyTopics backend q file.index))] := by
                simp [earlyMembers, earlySelection, hraw, houtside, hbefore, htopics]
              rw [hone, ← htopics, List.flatMap_singleton]
      | false =>
          have hnone : s.earlyMembers backend q [file] = [] := by
            simp [earlyMembers, earlySelection, hraw, houtside, hbefore]
          have hlate := behind_of_not_before hfile houtside hbefore
          rw [hnone, scanOf, if_neg (show ¬q.unbounded.rawAll = true from ne_true_of_eq_false hraw)]
          refine timed_otherScan_outside _ fun m hm fed triple htriple => ?_
          exact outside_of_not_inWindow hinside (inWindow_late
            (hlate m (List.mem_filter.mp hm).1) (otherStep_times hbuiltin fed m triple htriple).1)

end Session

end VisioSchema.Reader

import VisioSchema.Library.Runs
import VisioSchema.Routing.Registry

/-!
# Topics and ids

The class comment promises that a topic maps to exactly one id and that `Forget`
frees it for a reconnect.  The index from topics is exact as long as no channel is
bound to an id that is live under another topic.  Two calls can do that: a
`Learn` (also inside an announce) of such an id, and a `Declare` whose `Alloc`
hands out an id that was learned.  Neither is checked, and the old topic then
keeps pointing at the id for good.
-/

namespace VisioSchema.Routing

open VisioSchema.Library VisioSchema.Wire

namespace ChannelRegistry

/-- The two maps invert each other, and own outputs are in the table. -/
structure Sound (r : ChannelRegistry) : Prop where
  inverse : MutuallyInverse r.topicToId r.byId Channel.topic
  own : ∀ id ∈ r.ownIds, (r.byId id).isSome = true

/-- After any `Forget`, a topic that no live channel carries can be learned
under an id of which the registry has no own output. -/
def Relearnable (b : Binding) (r : ChannelRegistry) : Prop :=
  ∀ (ids : List ℕ) (ch : Channel),
    (∀ id live, (r.forget ids).byId id = some live → live.topic ≠ ch.topic) →
      ch.id ∉ (r.forget ids).ownIds → ∃ r', (r.forget ids).learn b ch = .ok r'

/-! ## The condition -/

/-- A `Learn` that goes through finds its id free or under its own topic. -/
def CleanLearn (b : Binding) (r : ChannelRegistry) (ch : Channel) : Prop :=
  ∀ r', r.learn b ch = .ok r' → ∀ old, r.byId ch.id = some old → old.topic = ch.topic

def CleanAnnounce (b : Binding) (decode : List Byte → Option (List Channel))
    (r : ChannelRegistry) (payload : List Byte) : Prop :=
  ∀ channels, decode payload = some channels →
    Along (learnOrWarn b) (CleanLearn b) r channels

/-- The call binds no id that is live under another topic. -/
def Clean (b : Binding) (decode : List Byte → Option (List Channel)) (r : ChannelRegistry) :
    Call → Prop
  | .declare channel => r.topicToId channel.topic = none → r.byId r.nextId = none
  | .learn channel => CleanLearn b r channel
  | .forget _ => True
  | .onAnnounce payload => CleanAnnounce b decode r payload
  | .accept msg => msg.streamId = kDeviceInfo → CleanAnnounce b decode r msg.payload

/-! ## Learning -/

variable {b : Binding} {r : ChannelRegistry}

theorem learn_eq_ok {ch : Channel} {r' : ChannelRegistry} :
    r.learn b ch = .ok r' ↔
      r' = r.bind ch ∧ (∀ id, r.topicToId ch.topic = some id → id = ch.id) ∧
        ¬ (b = .cpp ∧ ch.id ∈ r.ownIds) := by
  unfold learn
  cases htopic : r.topicToId ch.topic with
  | none =>
      simp only
      split
      next hown => simp [hown]
      next hown => simp [hown, eq_comm]
  | some id =>
      simp only
      split
      next hother =>
        simp only [reduceCtorEq, Option.some.injEq, false_iff]
        rintro ⟨-, hsame, -⟩
        exact hother (hsame id rfl)
      next hsame =>
        split
        next hown => simp [hown]
        next hown => simpa [hown, eq_comm] using fun _ => (not_not.mp hsame).symm

theorem learnOrWarn_of_ok {ch : Channel} {r' : ChannelRegistry} (hok : r.learn b ch = .ok r') :
    r.learnOrWarn b ch = r.bind ch := by
  rw [learnOrWarn, hok]
  exact (learn_eq_ok.mp hok).1

theorem learnOrWarn_of_error {ch : Channel} {e : DuplicateTopicError}
    (herror : r.learn b ch = .error e) : r.learnOrWarn b ch = r := by
  rw [learnOrWarn, herror]

theorem bind_sound (hsound : Sound r) {ch : Channel}
    (hname : ∀ id, r.topicToId ch.topic = some id → id = ch.id)
    (hkey : ∀ old, r.byId ch.id = some old → old.topic = ch.topic) : Sound (r.bind ch) where
  inverse := hsound.inverse.insert hkey hname
  own := by
    intro id hid
    simp only [bind, Function.update_apply]
    split
    · rfl
    · exact hsound.own id hid

/-- Two topics point at one id. -/
def Shared (r : ChannelRegistry) : Prop :=
  ∃ s t id, s ≠ t ∧ r.topicToId s = some id ∧ r.topicToId t = some id

theorem not_sound_of_shared (hshared : Shared r) : ¬ Sound r := by
  rintro hsound
  obtain ⟨s, t, id, hne, hs, ht⟩ := hshared
  exact hne (hsound.inverse.name_unique hs ht)

/-- Binding a live id to another topic leaves the old topic behind. -/
theorem bind_shared (hsound : Sound r) (ch : Channel) {old : Channel}
    (hold : r.byId ch.id = some old) (hother : old.topic ≠ ch.topic) : Shared (r.bind ch) := by
  refine ⟨old.topic, ch.topic, ch.id, hother, ?_, by simp [bind]⟩
  have hmapped : r.topicToId old.topic = some ch.id :=
    (hsound.inverse _ _).mpr ⟨old, hold, rfl⟩
  simpa [bind, Function.update_of_ne hother] using hmapped

/-- Learning never takes an entry out of the index. -/
theorem learnOrWarn_topicToId {topic : String} {id : ℕ} (ch : Channel)
    (hmapped : r.topicToId topic = some id) : (r.learnOrWarn b ch).topicToId topic = some id := by
  cases hlearn : r.learn b ch with
  | error e => rwa [learnOrWarn_of_error hlearn]
  | ok r' =>
      rw [learnOrWarn_of_ok hlearn]
      by_cases htopic : topic = ch.topic
      · subst htopic
        have hsame : id = ch.id := (learn_eq_ok.mp hlearn).2.1 id hmapped
        simp [bind, hsame]
      · simpa [bind, Function.update_of_ne htopic] using hmapped

theorem learnOrWarn_shared (ch : Channel) (hshared : Shared r) : Shared (r.learnOrWarn b ch) := by
  obtain ⟨s, t, id, hne, hs, ht⟩ := hshared
  exact ⟨s, t, id, hne, learnOrWarn_topicToId ch hs, learnOrWarn_topicToId ch ht⟩

theorem learnOrWarn_sound (hsound : Sound r) {ch : Channel} (hclean : CleanLearn b r ch) :
    Sound (r.learnOrWarn b ch) := by
  cases hlearn : r.learn b ch with
  | error e => rwa [learnOrWarn_of_error hlearn]
  | ok r' =>
      rw [learnOrWarn_of_ok hlearn]
      exact bind_sound hsound (learn_eq_ok.mp hlearn).2.1 (hclean r' hlearn)

theorem learnOrWarn_shared_of_not_clean (hsound : Sound r) {ch : Channel}
    (hunclean : ¬ CleanLearn b r ch) : Shared (r.learnOrWarn b ch) := by
  simp only [CleanLearn, not_forall] at hunclean
  obtain ⟨r', hlearn, old, hold, hother⟩ := hunclean
  rw [learnOrWarn_of_ok hlearn]
  exact bind_shared hsound ch hold hother

/-- A whole announce keeps the registry sound exactly when each of its channels
is clean when its turn comes: what one of them breaks, no later one repairs. -/
theorem learns_sound_iff (hsound : Sound r) (channels : List Channel) :
    Sound (channels.foldl (learnOrWarn b) r) ↔
      Along (learnOrWarn b) (CleanLearn b) r channels := by
  induction channels generalizing r with
  | nil => simpa using hsound
  | cons ch rest ih =>
      by_cases hclean : CleanLearn b r ch
      · simpa [hclean] using ih (learnOrWarn_sound hsound hclean)
      · have hshared : Shared (rest.foldl (learnOrWarn b) (r.learnOrWarn b ch)) :=
          run_invariant (fun _ _ => learnOrWarn_shared _)
            (learnOrWarn_shared_of_not_clean hsound hclean) rest
        simp [hclean, not_sound_of_shared hshared]

theorem onAnnounce_sound_iff (hsound : Sound r) (decode : List Byte → Option (List Channel))
    (payload : List Byte) :
    Sound (r.onAnnounce b decode payload) ↔ CleanAnnounce b decode r payload := by
  unfold onAnnounce CleanAnnounce
  cases hdecode : decode payload with
  | none => simpa using hsound
  | some channels => simpa using learns_sound_iff hsound channels

/-! ## Declaring and forgetting -/

theorem declare_sound_iff (hsound : Sound r) (channel : Channel) :
    Sound (r.declare b channel).2 ↔
      (r.topicToId channel.topic = none → r.byId r.nextId = none) := by
  unfold declare
  cases htopic : r.topicToId channel.topic with
  | some id => simpa using hsound
  | none =>
      simp only [alloc, forall_const]
      constructor
      · intro hafter
        by_contra hlive
        obtain ⟨old, hold⟩ := Option.ne_none_iff_exists'.mp hlive
        -- the old topic is mapped, so it is not the one being declared
        have hmapped : r.topicToId old.topic = some r.nextId :=
          (hsound.inverse _ _).mpr ⟨old, hold, rfl⟩
        have hother : old.topic ≠ channel.topic := by
          rintro heq
          rw [heq, htopic] at hmapped
          cases hmapped
        obtain ⟨s, t, id, hne, hs, ht⟩ :=
          bind_shared hsound { channel with id := r.nextId } hold hother
        exact hne (hafter.inverse.name_unique hs ht)
      · intro hfree
        have hbound : Sound (r.bind { channel with id := r.nextId }) := by
          refine bind_sound hsound ?_ ?_
          · intro id hid
            rw [htopic] at hid
            cases hid
          · intro old hold
            rw [hfree] at hold
            cases hold
        refine ⟨hbound.inverse, ?_⟩
        intro id hid
        rcases List.mem_insert_iff.mp hid with rfl | hown
        · simp [bind]
        · exact hbound.own id hown

theorem forgetOne_sound (hsound : Sound r) (cid : ℕ) : Sound (r.forgetOne cid) := by
  unfold forgetOne
  cases hentry : r.byId cid with
  | none =>
      refine ⟨hsound.inverse, ?_⟩
      intro id hid
      exact hsound.own id (List.mem_of_mem_filter hid)
  | some ch =>
      have hmapped : r.topicToId ch.topic = some cid :=
        (hsound.inverse _ _).mpr ⟨ch, hentry, rfl⟩
      refine ⟨?_, ?_⟩
      · simpa [hmapped] using hsound.inverse.erase hentry
      · intro id hid
        simp only [List.mem_filter, decide_eq_true_eq] at hid
        simpa [Function.update_of_ne hid.2] using hsound.own id hid.1

theorem forget_sound (hsound : Sound r) (ids : List ℕ) : Sound (r.forget ids) := by
  induction ids generalizing r with
  | nil => exact hsound
  | cons cid rest ih => exact ih (forgetOne_sound hsound cid)

theorem Sound.relearnable (hsound : Sound r) : Relearnable b r := by
  intro ids ch habsent hforeign
  have hunnamed : (r.forget ids).topicToId ch.topic = none :=
    (forget_sound hsound ids).inverse.unnamed habsent
  refine ⟨(r.forget ids).bind ch, learn_eq_ok.mpr ⟨rfl, ?_, fun hown => hforeign hown.2⟩⟩
  intro id hid
  rw [hunnamed] at hid
  cases hid

/-! ## Entries under their ids -/

/-- Every entry is under its own id. -/
def Keyed (r : ChannelRegistry) : Prop :=
  ∀ id channel, r.byId id = some channel → channel.id = id

theorem Keyed.bind (hkeyed : Keyed r) (ch : Channel) : Keyed (r.bind ch) := by
  intro id channel hchannel
  by_cases hid : id = ch.id
  · subst hid
    have hsame : ch = channel := by simpa [ChannelRegistry.bind] using hchannel
    rw [hsame]
  · refine hkeyed id channel ?_
    simpa [ChannelRegistry.bind, Function.update_of_ne hid] using hchannel

theorem Keyed.learnOrWarn (hkeyed : Keyed r) (ch : Channel) : Keyed (r.learnOrWarn b ch) := by
  cases hlearn : r.learn b ch with
  | error e => rwa [learnOrWarn_of_error hlearn]
  | ok r' =>
      rw [learnOrWarn_of_ok hlearn]
      exact hkeyed.bind ch

theorem Keyed.declare (hkeyed : Keyed r) (channel : Channel) : Keyed (r.declare b channel).2 := by
  unfold ChannelRegistry.declare
  cases r.topicToId channel.topic with
  | some id => exact hkeyed
  | none => exact Keyed.bind (r := (r.alloc b).2) hkeyed { channel with id := r.nextId }

theorem forgetOne_byId {cid id : ℕ} {channel : Channel}
    (hchannel : (r.forgetOne cid).byId id = some channel) : r.byId id = some channel := by
  unfold forgetOne at hchannel
  cases hentry : r.byId cid with
  | none => simpa [hentry] using hchannel
  | some old =>
      by_cases hid : id = cid
      · simp [hentry, hid] at hchannel
      · simpa [hentry, Function.update_of_ne hid] using hchannel

/-- What is resolved after a `Forget` was resolved before. -/
theorem forget_byId {ids : List ℕ} {id : ℕ} {channel : Channel}
    (hchannel : (r.forget ids).byId id = some channel) : r.byId id = some channel := by
  induction ids generalizing r with
  | nil => exact hchannel
  | cons cid rest ih => exact forgetOne_byId (ih hchannel)

theorem Keyed.onAnnounce (hkeyed : Keyed r) (decode : List Byte → Option (List Channel))
    (payload : List Byte) : Keyed (r.onAnnounce b decode payload) := by
  unfold ChannelRegistry.onAnnounce
  cases decode payload with
  | none => exact hkeyed
  | some channels =>
      exact run_invariant (I := Keyed) (fun _ ch hr => hr.learnOrWarn ch) hkeyed channels

theorem Keyed.step (hkeyed : Keyed r) (decode : List Byte → Option (List Channel))
    (blob : List Byte) (call : Call) : Keyed (r.step b decode blob call) := by
  cases call with
  | declare channel => exact hkeyed.declare channel
  | learn channel => exact hkeyed.learnOrWarn channel
  | forget ids => exact fun id channel hchannel => hkeyed id channel (forget_byId hchannel)
  | onAnnounce payload => exact hkeyed.onAnnounce decode payload
  | accept msg =>
      simp only [ChannelRegistry.step, accept]
      split
      · exact hkeyed.onAnnounce decode msg.payload
      · split
        · exact hkeyed
        · split <;> exact hkeyed

/-! ## Runs -/

variable (b) (decode : List Byte → Option (List Channel)) (blob : List Byte)

theorem init_sound : Sound {} := ⟨MutuallyInverse.empty, by simp⟩

theorem step_sound_iff (hsound : Sound r) (call : Call) :
    Sound (r.step b decode blob call) ↔ Clean b decode r call := by
  cases call with
  | declare channel => exact declare_sound_iff hsound channel
  | learn channel => simpa [step, Clean] using learns_sound_iff hsound [channel]
  | forget ids => exact iff_of_true (forget_sound hsound ids) trivial
  | onAnnounce payload => exact onAnnounce_sound_iff hsound decode payload
  | accept msg =>
      simp only [step, accept, Clean]
      split
      next hinfo => simpa [hinfo] using onAnnounce_sound_iff hsound decode msg.payload
      next hdata =>
        refine iff_of_true ?_ (fun hinfo => absurd hinfo hdata)
        split
        · exact hsound
        · split
          · exact hsound
          · exact ⟨hsound.inverse, hsound.own⟩

/-- In a run, the maps are exact and every forgotten topic can be learned again
in every state exactly when every call is clean. -/
theorem run_sound_iff (calls : List Call) :
    (∀ r ∈ visited (step b decode blob) {} calls, Sound r ∧ Relearnable b r) ↔
      Along (step b decode blob) (Clean b decode) {} calls := by
  constructor
  · intro hall
    refine along_of_visited (I := Sound) ?_ (fun r hr => (hall r hr).1)
    intro r call hsound hafter
    exact (step_sound_iff b decode blob hsound call).mp hafter
  · intro halong r hr
    have hsound : Sound r := by
      refine visited_invariant_along ?_ init_sound halong r hr
      intro r call hsound hclean
      exact (step_sound_iff b decode blob hsound call).mpr hclean
    exact ⟨hsound, hsound.relearnable⟩

theorem run_keyed (calls : List Call) : Keyed (calls.foldl (step b decode blob) {}) :=
  run_invariant (I := Keyed) (fun _ call hr => hr.step decode blob call) (by simp [Keyed]) calls

/-! ## A topic that never comes free -/

/-- An announce moves id 20 to another topic, and the id is forgotten. -/
def reusedId : List Call :=
  [.learn { id := 20, topic := "a" }, .learn { id := 20, topic := "b" }]

/-- A peer's id is the next one that `Alloc` hands out. -/
def learnedBeforeDeclare : List Call :=
  [.learn { id := 16, topic := "a" }, .declare { topic := "b" }]

/-- Both leave two topics on one id; after a `Forget` of the reused id, its first
topic is refused although no channel carries it. -/
theorem not_run_sound :
    ¬ Sound (reusedId.foldl (step .cpp (fun _ => none) []) {}) ∧
      ¬ Sound (reusedId.foldl (step .python (fun _ => none) []) {}) ∧
      ¬ Sound (learnedBeforeDeclare.foldl (step .cpp (fun _ => none) []) {}) ∧
      ¬ Relearnable .cpp (reusedId.foldl (step .cpp (fun _ => none) []) {}) := by
  refine ⟨?_, ?_, ?_, ?_⟩
  · exact not_sound_of_shared ⟨"a", "b", 20, by decide, by decide +kernel, by decide +kernel⟩
  · exact not_sound_of_shared ⟨"a", "b", 20, by decide, by decide +kernel, by decide +kernel⟩
  · exact not_sound_of_shared ⟨"a", "b", 16, by decide, by decide +kernel, by decide +kernel⟩
  · intro hrelearn
    have habsent : ∀ id live,
        (forget (reusedId.foldl (step .cpp (fun _ => none) []) {}) [20]).byId id = some live →
          live.topic ≠ "a" := by
      intro id live hlive
      simp [reusedId, step, learnOrWarn, learn, bind, forget, forgetOne] at hlive
    have hmapped : (forget (reusedId.foldl (step .cpp (fun _ => none) []) {}) [20]).topicToId
        "a" = some 20 := by decide +kernel
    obtain ⟨r', hlearn⟩ :=
      hrelearn [20] { id := 21, topic := "a" } habsent (by decide +kernel)
    exact absurd ((learn_eq_ok.mp hlearn).2.1 20 hmapped) (by decide)

end ChannelRegistry

end VisioSchema.Routing

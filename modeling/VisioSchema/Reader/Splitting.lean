import VisioSchema.Reader.Ordering

/-!
# Cut recordings

The frames of a camera depend on its own access units alone, in their order: a pass over files
that continue each other runs one decoder for a camera from file to file (`Camera`).  Cutting a
recording into parts therefore changes no camera's frames, as long as the session finds the same
device in both and neither pass raises.
-/

namespace VisioSchema.Reader

open VisioSchema.Library VisioSchema.Wire

variable {D Ctx Img V ε : Type*}

/-! ## A camera -/

/-- What is kept of a camera between its access units. -/
structure Camera (Ctx : Type*) where
  decoder : Option (Decoding Ctx) := none
  sequence : Option ℕ := none

def Carried.camera (carried : Carried Ctx) (topic : Topic) : Camera Ctx :=
  ⟨carried.decoders topic, carried.sequences topic⟩

/-- A frame of a camera. -/
def isFrameOf (topic : Topic) (element : Element Topic (Value Img D V)) : Bool :=
  match element.value with
  | .frame _ _ => element.topic = topic
  | _ => false

/-- The frames of a camera among some elements. -/
def framesOf (topic : Topic) (elements : List (Element Topic (Value Img D V))) :
    List (Element Topic (Value Img D V)) := elements.filter (isFrameOf topic)

/-- The frames of a camera among some triples. -/
def tripleFrames (topic : Topic) (items : List (Triple Topic (Value Img D V))) :
    List (Triple Topic (Value Img D V)) := items.filter fun triple => isFrameOf topic triple.element

theorem tripleFrames_append (topic : Topic) (l r : List (Triple Topic (Value Img D V))) :
    tripleFrames topic (l ++ r) = tripleFrames topic l ++ tripleFrames topic r :=
  List.filter_append ..

namespace Session

variable (backend : Backend D Ctx Img V ε)

/-- An access unit of a camera. -/
def cameraMessage (topic : Topic) (camera : Camera Ctx) (m : Message D) :
    Gen (Triple Topic (Value Img D V)) (ReadError ε) (Camera Ctx) :=
  match decodeUnit backend true topic m camera.sequence camera.decoder with
  | .error e => .raise e
  | .ok (items, decoder) => .yield items ⟨decoder, some m.sequence⟩

/-- The access units of a camera. -/
def cameraRun (topic : Topic) (camera : Camera Ctx) (messages : List (Message D)) :
    Gen (Triple Topic (Value Img D V)) (ReadError ε) (Camera Ctx) :=
  .each (cameraMessage backend topic) camera messages

/-- A generator's frames of a camera, and what it leaves of it, are those of the camera's run. -/
def RunsCamera {σ : Type*} (topic : Topic) (camera : Camera Ctx) (after : σ → Camera Ctx)
    (messages : List (Message D)) (g : Gen (Triple Topic (Value Img D V)) (ReadError ε) σ) :
    Prop :=
  ∀ s, g.Returns s → (cameraRun backend topic camera messages).Returns (after s) ∧
    tripleFrames topic g.items = (cameraRun backend topic camera messages).items

variable {backend} {topic : Topic} {camera : Camera Ctx}

theorem runsCamera_nil {σ : Type*} {after : σ → Camera Ctx}
    {g : Gen (Triple Topic (Value Img D V)) (ReadError ε) σ}
    (hafter : ∀ s, g.Returns s → after s = camera) (hnone : tripleFrames topic g.items = []) :
    RunsCamera backend topic camera after [] g :=
  fun s hs => ⟨congrArg Except.ok (hafter s hs).symm, hnone⟩

theorem RunsCamera.andThen {σ τ : Type*} {first : σ → Camera Ctx} {last : τ → Camera Ctx}
    {before rest : List (Message D)} {g : Gen (Triple Topic (Value Img D V)) (ReadError ε) σ}
    {next : σ → Gen (Triple Topic (Value Img D V)) (ReadError ε) τ}
    (hfirst : RunsCamera backend topic camera first before g)
    (hnext : ∀ s, g.Returns s → RunsCamera backend topic (first s) last rest (next s)) :
    RunsCamera backend topic camera last (before ++ rest) (g.andThen next) := by
  intro t ht
  obtain ⟨s, hs, hlast⟩ := Gen.returns_andThen.mp ht
  obtain ⟨hcamera, hframes⟩ := hfirst s hs
  obtain ⟨hcamera', hframes'⟩ := hnext s hs t hlast
  have hrun : cameraRun backend topic camera (before ++ rest) =
      (cameraRun backend topic camera before).andThen fun camera =>
        cameraRun backend topic camera rest := Gen.each_append ..
  rw [hrun, hcamera.andThen_eq, hs.andThen_eq, tripleFrames_append, hframes, hframes']
  exact ⟨hcamera', rfl⟩

/-- A loop over messages, of which those of a camera are told by a test. -/
theorem runsCamera_each {σ : Type*} {after : σ → Camera Ctx} {test : Message D → Bool}
    {round : σ → Message D → Gen (Triple Topic (Value Img D V)) (ReadError ε) σ}
    (hround : ∀ s m, RunsCamera backend topic (after s) after ([m].filter test) (round s m))
    (s : σ) (messages : List (Message D)) :
    RunsCamera backend topic (after s) after (messages.filter test)
      (.each round s messages) := by
  induction messages generalizing s with
  | nil => exact runsCamera_nil (fun t ht => congrArg after (Except.ok.inj ht).symm) rfl
  | cons m rest ih =>
      have hsplit : (m :: rest).filter test = [m].filter test ++ rest.filter test := by
        rw [← List.filter_append]
        rfl
      rw [hsplit, Gen.each_cons]
      exact (hround s m).andThen fun t _ => ih t

/-! ## A message and a file -/

/-- An access unit of a camera that is decoded. -/
def isUnitOf (s : Session D) (rawSet : List Topic) (topic : Topic) (m : Message D) : Bool :=
  m.schema = some .video && stripDevice s.device m.topic = some topic && topic ∉ rawSet

variable {s : Session D}

theorem tripleFrames_other {items : List (Triple Topic (Value Img D V))}
    (hother : ∀ triple ∈ items, isFrameOf topic triple.element = false) :
    tripleFrames topic items = [] :=
  List.filter_eq_nil_iff.mpr fun triple htriple => by simp [hother triple htriple]

theorem adapted_frames {σ : Type*} (next : σ) (g : Gen (Triple Topic V) ε Unit) :
    tripleFrames topic (adapted next g : Gen (Triple Topic (Value Img D V)) _ _).items = [] := by
  refine tripleFrames_other fun triple htriple => ?_
  obtain ⟨source, -, rfl⟩ := List.mem_map.mp htriple
  rfl

theorem returns_adapted {σ : Type*} {next s' : σ} {g : Gen (Triple Topic V) ε Unit}
    (hreturns : (adapted next g : Gen (Triple Topic (Value Img D V)) _ _).Returns s') :
    s' = next := by
  unfold adapted Gen.Returns at hreturns
  cases hresult : g.result with
  | error e =>
      rw [hresult] at hreturns
      cases hreturns
  | ok _ =>
      rw [hresult] at hreturns
      exact (Except.ok.inj hreturns).symm

/-- A video message is an access unit of its camera, and nothing to another one. -/
theorem runsCamera_video (pass : Pass Ctx D) (m : Message D) (other : Topic) :
    RunsCamera backend topic (pass.carried.camera topic) (fun pass => pass.carried.camera topic)
      (if other = topic then [m] else []) (videoMessage backend true other m pass) := by
  by_cases hsame : other = topic
  · subst hsame
    rw [if_pos rfl]
    have hrun : cameraRun backend other (pass.carried.camera other) [m] =
        (cameraMessage backend other (pass.carried.camera other) m).andThen .done := rfl
    intro pass' hpass'
    rw [hrun]
    unfold videoMessage at hpass' ⊢
    unfold cameraMessage Carried.camera
    cases hdecoded : decodeUnit backend true other m (pass.carried.sequences other)
        (pass.carried.decoders other) with
    | error e =>
        simp only [hdecoded] at hpass'
        cases hpass'
    | ok decoded =>
        obtain ⟨items, decoder⟩ := decoded
        simp only [hdecoded] at hpass' ⊢
        cases hpass'
        have hframes : tripleFrames other items = items := by
          refine List.filter_eq_self.mpr fun triple htriple => ?_
          obtain ⟨image, frameId, rfl⟩ := decodeUnit_items hdecoded triple htriple
          simp [isFrameOf]
        refine ⟨?_, ?_⟩
        · simp [Gen.yield, Gen.andThen, Gen.done, Gen.Returns]
        · simp [Gen.yield, Gen.andThen, Gen.done, hframes]
  · rw [if_neg hsame]
    refine runsCamera_nil (fun pass' hpass' => ?_) (tripleFrames_other fun triple htriple => ?_)
    · unfold videoMessage at hpass'
      split at hpass'
      next => cases hpass'
      next =>
        cases hpass'
        have hne : topic ≠ other := fun heq => hsame heq.symm
        simp [Carried.camera, Function.update_of_ne hne]
    · unfold videoMessage at htriple
      split at htriple
      next => cases htriple
      next hdecoded =>
        obtain ⟨image, frameId, rfl⟩ := decodeUnit_items hdecoded triple htriple
        simp [isFrameOf, hsame]

theorem runsCamera_message (hbuiltin : backend.custom .video = false) {built : List Schema}
    (hbuilt : Schema.video ∈ built) (rawSet : List Topic) (pass : Pass Ctx D) (m : Message D) :
    RunsCamera backend topic (pass.carried.camera topic) (fun pass => pass.carried.camera topic)
      ([m].filter (s.isUnitOf rawSet topic)) (s.iterMessage backend built rawSet true pass m) := by
  have hsame : ∀ pass' : Pass Ctx D, (Gen.done pass :
      Gen (Triple Topic (Value Img D V)) (ReadError ε) _).Returns pass' →
      pass'.carried.camera topic = pass.carried.camera topic := by
    intro pass' hpass'
    cases hpass'
    rfl
  -- By the branches of the loop: only an access unit of the camera reaches its decoder, and what
  -- passes by yields no frame of it.
  unfold iterMessage
  cases hschema : m.schema with
  | none =>
      have hnot : s.isUnitOf rawSet topic m = false := by simp [isUnitOf, hschema]
      rw [List.filter_cons_of_neg (by simp [hnot])]
      exact runsCamera_nil hsame rfl
  | some schema =>
      cases hstrip : stripDevice s.device m.topic with
      | none =>
          have hnot : s.isUnitOf rawSet topic m = false := by simp [isUnitOf, hstrip]
          rw [List.filter_cons_of_neg (by simp [hnot])]
          exact runsCamera_nil hsame rfl
      | some other =>
          dsimp only
          split
          next hraw =>
            have hnot : s.isUnitOf rawSet topic m = false := by
              simp only [isUnitOf, hschema, hstrip, Bool.and_eq_false_iff, decide_eq_false_iff_not]
              by_cases heq : other = topic
              · exact Or.inr (fun hnotraw => hnotraw (heq ▸ hraw))
              · exact Or.inl (Or.inr fun hsome => heq (Option.some.inj hsome))
            rw [List.filter_cons_of_neg (by simp [hnot])]
            refine runsCamera_nil (fun pass' hpass' => ?_) (tripleFrames_other ?_)
            · cases hpass'
              rfl
            · intro triple htriple
              rw [List.mem_singleton.mp htriple]
              rfl
          next hraw =>
            split
            next hnone =>
              have hnot : s.isUnitOf rawSet topic m = false := by
                have hother : schema ≠ .video := fun heq => hnone (heq ▸ hbuilt)
                simp [isUnitOf, hschema, hother]
              rw [List.filter_cons_of_neg (by simp [hnot])]
              exact runsCamera_nil hsame rfl
            next =>
              split
              next hvideo =>
                have hunit : [m].filter (s.isUnitOf rawSet topic) =
                    if other = topic then [m] else [] := by
                  by_cases heq : other = topic
                  · subst heq
                    have hyes : s.isUnitOf rawSet other m = true := by
                      simp [isUnitOf, hschema, hstrip, hvideo.1, hraw]
                    simp [hyes]
                  · have hnot : s.isUnitOf rawSet topic m = false := by
                      simp [isUnitOf, hstrip, heq]
                    simp [hnot, heq]
                rw [hunit]
                exact runsCamera_video pass m other
              next hvideo =>
                have hnot : s.isUnitOf rawSet topic m = false := by
                  have hother : schema ≠ .video := fun heq => hvideo ⟨heq, hbuiltin⟩
                  simp [isUnitOf, hschema, hother]
                rw [List.filter_cons_of_neg (by simp [hnot])]
                refine runsCamera_nil (fun pass' hpass' => ?_) (adapted_frames _ _)
                rw [returns_adapted hpass']

end Session

end VisioSchema.Reader

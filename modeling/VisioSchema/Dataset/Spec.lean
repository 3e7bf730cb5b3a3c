import VisioSchema.Library.Delimited
import VisioSchema.Library.Dict
import VisioSchema.Library.Text

/-!
# The dataset spec

`dataset/spec`: the channels that an episode dataset carries, the spec that names its end-effectors
and cameras, and the identity keys that it is rebuilt from.  What `__post_init__` requires of a spec
are fields of the structure.
-/

namespace VisioSchema.Dataset

open VisioSchema.Library

/-! ## Channels -/

/-- `COLLAR`. -/
def collar : Text :=
  ['o', 'b', 's', 'e', 'r', 'v', 'a', 't', 'i', 'o', 'n', '.', 'c', 'o', 'l', 'l', 'a', 'r', '.',
    'p', 'o', 's', 'e']

/-- `"observation."`. -/
def observation : Text := ['o', 'b', 's', 'e', 'r', 'v', 'a', 't', 'i', 'o', 'n', '.']

/-- `"action."`. -/
def action : Text := ['a', 'c', 't', 'i', 'o', 'n', '.']

/-- `".pose"`. -/
def pose : Text := ['.', 'p', 'o', 's', 'e']

/-- `".gripper_width"`. -/
def gripperWidth : Text :=
  ['.', 'g', 'r', 'i', 'p', 'p', 'e', 'r', '_', 'w', 'i', 'd', 't', 'h']

/-- `"images"`. -/
def images : Text := ['i', 'm', 'a', 'g', 'e', 's']

def eePose (ee : Text) : Text := observation ++ (ee ++ pose)

def eeGripperWidth (ee : Text) : Text := observation ++ (ee ++ gripperWidth)

def actionEePose (ee : Text) : Text := action ++ (ee ++ pose)

def actionEeGripperWidth (ee : Text) : Text := action ++ (ee ++ gripperWidth)

def image (slot : Text) : Text := observation ++ (images ++ '.' :: slot)

/-- `slot_of`. -/
def slotOf (channel : Text) : Option Text :=
  if channel.take (image []).length = image [] then some (channel.drop (image []).length) else none

/-- `table_channels_for`. -/
def tableChannelsFor (eeNames : List Text) : List Text :=
  collar :: (eeNames.map eePose ++ (eeNames.map actionEePose ++
    (eeNames.map eeGripperWidth ++ eeNames.map actionEeGripperWidth)))

/-! ## Specs -/

/-- The field of a spec that has to be free of duplicates. -/
inductive NameField
  | eeNames
  | imageSlots
  deriving DecidableEq, Repr

/-- Why a dataset does not conform to the spec. -/
inductive DatasetError
  | noEe
  | duplicates (field : NameField) (values : List Text)
  | fpsNotPositive
  | gridSlotNotRecorded (gridSlot : Text)
  | noVersion
  | newerVersion (version : ℕ)
  | noEeNames
  | noGridSlot
  | noFps
  | missingChannels (channels : List Text)
  | noShape (slots : List Text)
  | noFeatures
  | widthMismatch (channels : List Text)
  deriving DecidableEq, Repr

/-- The tests of a rate: `fps <= 0` and `not fps`.  The type stands for `float`, of which nothing
else is used. -/
structure Rates (φ : Type) where
  nonPositive : φ → Bool
  falsy : φ → Bool
  nonPositive_of_falsy : ∀ fps, falsy fps = true → nonPositive fps = true

variable {φ : Type}

/-- `DatasetSpec`. -/
@[ext]
structure DatasetSpec (rates : Rates φ) where
  eeNames : List Text
  imageSlots : List Text
  gridSlot : Text
  fps : φ
  eeNames_ne_nil : eeNames ≠ []
  eeNames_nodup : eeNames.Nodup
  imageSlots_nodup : imageSlots.Nodup
  fps_positive : rates.nonPositive fps = false
  gridSlot_mem : gridSlot ∈ imageSlots

namespace DatasetSpec

variable {rates : Rates φ}

/-- `DatasetSpec(…)`, with the checks of `__post_init__`. -/
def make (rates : Rates φ) (eeNames imageSlots : List Text) (gridSlot : Text) (fps : φ) :
    Except DatasetError (DatasetSpec rates) :=
  if hnames : eeNames ≠ [] then
    if hees : eeNames.Nodup then
      if hslots : imageSlots.Nodup then
        if hfps : rates.nonPositive fps = false then
          if hgrid : gridSlot ∈ imageSlots then
            .ok
              { eeNames, imageSlots, gridSlot, fps
                eeNames_ne_nil := hnames
                eeNames_nodup := hees
                imageSlots_nodup := hslots
                fps_positive := hfps
                gridSlot_mem := hgrid }
          else .error (.gridSlotNotRecorded gridSlot)
        else .error .fpsNotPositive
      else .error (.duplicates .imageSlots imageSlots)
    else .error (.duplicates .eeNames eeNames)
  else .error .noEe

def poseChannels (spec : DatasetSpec rates) : List Text :=
  collar :: (spec.eeNames.map eePose ++ spec.eeNames.map actionEePose)

def scalarChannels (spec : DatasetSpec rates) : List Text :=
  spec.eeNames.map eeGripperWidth ++ spec.eeNames.map actionEeGripperWidth

def imageChannels (spec : DatasetSpec rates) : List Text := spec.imageSlots.map image

def tableChannels (spec : DatasetSpec rates) : List Text := tableChannelsFor spec.eeNames

def requiredChannels (spec : DatasetSpec rates) : List Text :=
  spec.tableChannels ++ spec.imageChannels

end DatasetSpec

/-! ## Identity keys -/

/-- `DATASET_VERSION`. -/
def datasetVersion : ℕ := 1

/-- The identity keys of a dataset's meta, where they are there. -/
structure Stamp (φ : Type) where
  version : Option ℕ
  eeNames : Option (List Text)
  gridSlot : Option Text
  fps : Option φ

variable {rates : Rates φ}

/-- `stamp`. -/
def DatasetSpec.stamp (spec : DatasetSpec rates) : Stamp φ where
  version := some datasetVersion
  eeNames := some spec.eeNames
  gridSlot := some spec.gridSlot
  fps := some spec.fps

/-- `from_stamp`. -/
def DatasetSpec.fromStamp (rates : Rates φ) (stamp : Stamp φ) (imageSlots : List Text) :
    Except DatasetError (DatasetSpec rates) :=
  match stamp.version with
  | none => .error .noVersion
  | some version =>
      if datasetVersion < version then .error (.newerVersion version)
      else if stamp.eeNames.getD [] = [] then .error .noEeNames
      else if stamp.gridSlot.getD [] = [] then .error .noGridSlot
      else
        match stamp.fps with
        | none => .error .noFps
        | some fps =>
            if rates.falsy fps then .error .noFps
            else
              DatasetSpec.make rates (stamp.eeNames.getD []) imageSlots (stamp.gridSlot.getD []) fps

/-- `verify_channels`. -/
def DatasetSpec.verifyChannels (spec : DatasetSpec rates) (present : List Text) :
    Except DatasetError Unit :=
  let missing := spec.requiredChannels.filter fun channel => channel ∉ present
  if missing = [] then .ok () else .error (.missingChannels missing)

/-! ## Rebuilding a spec -/

theorem DatasetSpec.make_eq (spec : DatasetSpec rates) :
    DatasetSpec.make rates spec.eeNames spec.imageSlots spec.gridSlot spec.fps = .ok spec := by
  rw [DatasetSpec.make, dif_pos spec.eeNames_ne_nil, dif_pos spec.eeNames_nodup,
    dif_pos spec.imageSlots_nodup, dif_pos spec.fps_positive, dif_pos spec.gridSlot_mem]

/-- A spec that is made has the slots that it is made of. -/
theorem DatasetSpec.imageSlots_of_make {eeNames imageSlots : List Text} {gridSlot : Text} {fps : φ}
    {spec : DatasetSpec rates}
    (hmake : DatasetSpec.make rates eeNames imageSlots gridSlot fps = .ok spec) :
    spec.imageSlots = imageSlots := by
  rw [DatasetSpec.make] at hmake
  split_ifs at hmake
  cases hmake
  rfl

/-- A spec is rebuilt from its stamp and its slots. -/
theorem DatasetSpec.fromStamp_stamp {spec : DatasetSpec rates} (hgrid : spec.gridSlot ≠ []) :
    DatasetSpec.fromStamp rates spec.stamp spec.imageSlots = .ok spec := by
  have hfps : rates.falsy spec.fps = false := by
    by_contra htrue
    have hpositive := rates.nonPositive_of_falsy spec.fps (Bool.not_eq_false _ ▸ htrue)
    rw [spec.fps_positive] at hpositive
    cases hpositive
  have hversion : ¬ datasetVersion < datasetVersion := Nat.lt_irrefl _
  simp only [DatasetSpec.fromStamp, DatasetSpec.stamp, Option.getD_some, if_neg hversion,
    if_neg spec.eeNames_ne_nil, if_neg hgrid, hfps, Bool.false_eq_true, if_false]
  exact spec.make_eq

/-- A spec that is rebuilt has the slots that were found. -/
theorem DatasetSpec.imageSlots_of_fromStamp {stamp : Stamp φ} {imageSlots : List Text}
    {spec : DatasetSpec rates}
    (hspec : DatasetSpec.fromStamp rates stamp imageSlots = .ok spec) :
    spec.imageSlots = imageSlots := by
  rw [DatasetSpec.fromStamp] at hspec
  cases hversion : stamp.version with
  | none => simp [hversion] at hspec
  | some version =>
      cases hfps : stamp.fps with
      | none =>
          simp only [hversion, hfps] at hspec
          split_ifs at hspec
      | some fps =>
          simp only [hversion, hfps] at hspec
          split_ifs at hspec
          exact DatasetSpec.imageSlots_of_make hspec

theorem DatasetSpec.verifyChannels_eq_ok {spec : DatasetSpec rates} {present : List Text}
    (hpresent : ∀ channel ∈ spec.requiredChannels, channel ∈ present) :
    spec.verifyChannels present = .ok () := by
  have hnone : spec.requiredChannels.filter (fun channel => channel ∉ present) = [] := by
    rw [List.filter_eq_nil_iff]
    intro channel hmem
    simpa using hpresent channel hmem
  simp only [DatasetSpec.verifyChannels, hnone, if_true]

/-! ## Slots -/

theorem slotOf_image (slot : Text) : slotOf (image slot) = some slot := by
  have himage : image slot = image [] ++ slot := by simp [image]
  rw [slotOf, himage, List.take_left, List.drop_left, if_pos rfl]

theorem slotOf_eq_some_iff {channel slot : Text} :
    slotOf channel = some slot ↔ channel = image slot := by
  constructor
  · intro hslot
    rw [slotOf] at hslot
    split at hslot
    case isTrue htake =>
      calc channel
          = channel.take (image []).length ++ channel.drop (image []).length :=
            (List.take_append_drop _ _).symm
        _ = image [] ++ slot := by rw [htake, Option.some.inj hslot]
        _ = image slot := by simp [image]
    case isFalse => cases hslot
  · rintro rfl
    exact slotOf_image slot

/-- The name begins as the channel of a camera does: it is `images`, or it goes on with a dot. -/
def imagesLike (ee : Text) : Bool := ee = images || (images ++ ['.']).isPrefixOf ee

theorem imagesLike_iff {ee : Text} :
    imagesLike ee = true ↔ ee = images ∨ ∃ rest, ee = images ++ '.' :: rest := by
  have hdot (rest : Text) : images ++ '.' :: rest = images ++ ['.'] ++ rest := by simp
  rw [imagesLike, Bool.or_eq_true, decide_eq_true_iff, List.isPrefixOf_iff_prefix]
  refine or_congr_right ⟨?_, ?_⟩
  · rintro ⟨rest, rfl⟩
    exact ⟨rest, (hdot rest).symm⟩
  · rintro ⟨rest, rfl⟩
    exact ⟨rest, (hdot rest).symm⟩

/-- An end-effector's channel reads as a camera's when its name does. -/
theorem exists_image_iff {ee ending : Text} :
    (∃ slot, observation ++ (ee ++ '.' :: ending) = image slot) ↔ imagesLike ee = true := by
  rw [imagesLike_iff]
  constructor
  · rintro ⟨slot, heq⟩
    rcases Delimited.cut_cases (List.append_cancel_left heq) with ⟨hsame, -⟩ |
        ⟨between, himages, -⟩ | ⟨between, hee, -⟩
    · exact .inl hsame
    · -- the name would end before the first dot of `images`
      have hdot : '.' ∈ images := by
        rw [himages]
        exact List.mem_append_right _ (List.mem_cons_self ..)
      exact absurd hdot (by decide)
    · exact .inr ⟨between, hee⟩
  · rintro (rfl | ⟨rest, rfl⟩)
    · exact ⟨ending, rfl⟩
    · exact ⟨rest ++ '.' :: ending, by simp [image]⟩

end VisioSchema.Dataset

import Mathlib.Data.Int.Notation
import VisioSchema.Dataset.Spec
import VisioSchema.Ingest.Signing

/-!
# The spec in LeRobot's meta

`features`, `spec_from_info` and `verify_widths` of `dataset/lerobot`: a spec is written as one
entry a channel, and rebuilt from the camera channels among them and from its stamp.

The camera slots are found by the names of the channels alone.  An end-effector named `images`, or
`images.` and more, has channels that read as a camera's, and its spec does not come back; every
other spec does (`rebuilt_eq_self_iff`).
-/

namespace VisioSchema.Dataset

open VisioSchema.Library

/-! ## Features -/

/-- An entry of `features`; its shape may be missing from a file. -/
structure Feature where
  dtype : Text
  shape : Option (List ℤ)
  names : Option (List Text)
  deriving DecidableEq, Repr

def float32 : Text := ['f', 'l', 'o', 'a', 't', '3', '2']

def int64 : Text := ['i', 'n', 't', '6', '4']

def video : Text := ['v', 'i', 'd', 'e', 'o']

/-- `BOOKKEEPING`. -/
def bookkeeping : List (Text × Text × ℤ) :=
  [(['t', 'i', 'm', 'e', 's', 't', 'a', 'm', 'p'], float32, 1),
    (['i', 'n', 'd', 'e', 'x'], int64, 1),
    (['e', 'p', 'i', 's', 'o', 'd', 'e', '_', 'i', 'n', 'd', 'e', 'x'], int64, 1),
    (['f', 'r', 'a', 'm', 'e', '_', 'i', 'n', 'd', 'e', 'x'], int64, 1),
    (['t', 'a', 's', 'k', '_', 'i', 'n', 'd', 'e', 'x'], int64, 1)]

/-- `POSE_DIM`. -/
def poseDim : ℤ := 7

/-- `POSE_NAMES`. -/
def poseNames : List Text := [['x'], ['y'], ['z'], ['q', 'x'], ['q', 'y'], ['q', 'z'], ['q', 'w']]

/-- `GRIPPER_NAMES`. -/
def gripperNames : List Text := [['w', 'i', 'd', 't', 'h', '_', 'm']]

/-- `["channels", "height", "width"]`. -/
def videoNames : List Text :=
  [['c', 'h', 'a', 'n', 'n', 'e', 'l', 's'], ['h', 'e', 'i', 'g', 'h', 't'],
    ['w', 'i', 'd', 't', 'h']]

def poseFeature : Feature := ⟨float32, some [poseDim], some poseNames⟩

def scalarFeature : Feature := ⟨float32, some [1], some gripperNames⟩

/-- The encoded `(C, H, W)` of a camera. -/
structure VideoShape where
  channels : ℤ
  height : ℤ
  width : ℤ
  deriving DecidableEq, Repr

def videoFeature (shape : VideoShape) : Feature :=
  ⟨video, some [shape.channels, shape.height, shape.width], some videoNames⟩

variable {φ : Type} {rates : Rates φ}

/-- The entries that stand in the parquet, in the order in which they are set. -/
def tableEntries (spec : DatasetSpec rates) : List (Text × Feature) :=
  bookkeeping.map (fun entry => (entry.1, ⟨entry.2.1, some [entry.2.2], none⟩)) ++
    (spec.poseChannels.map (fun channel => (channel, poseFeature)) ++
      spec.scalarChannels.map fun channel => (channel, scalarFeature))

/-- The entries of the cameras, `video_shapes[slot]`. -/
def imageEntries (spec : DatasetSpec rates) (videoShapes : Dict Text VideoShape) :
    List (Text × Feature) :=
  spec.imageSlots.filterMap fun slot =>
    (videoShapes.get slot).map fun shape => (image slot, videoFeature shape)

/-- `features`. -/
def features (spec : DatasetSpec rates) (videoShapes : Dict Text VideoShape) :
    Except DatasetError (Dict Text Feature) :=
  let missing := spec.imageSlots.filter fun slot => slot ∉ videoShapes.keys
  if missing ≠ [] then
    .error (.noShape (missing.insertionSort fun a b => Ingest.codePoints a ≤ Ingest.codePoints b))
  else .ok ((Dict.empty.setAll (tableEntries spec)).setAll (imageEntries spec videoShapes))

/-! ## Reading a dataset back -/

/-- What is read of an `info.json`. -/
structure Info (φ : Type) where
  stamp : Stamp φ
  features : Option (Dict Text Feature)

/-- The widths that a spec implies. -/
def expectedWidths (spec : DatasetSpec rates) : Dict Text ℤ :=
  Dict.empty.setAll (spec.poseChannels.map (fun channel => (channel, poseDim)) ++
    spec.scalarChannels.map fun channel => (channel, 1))

/-- `verify_widths`, of channels that are declared. -/
def verifyWidths (spec : DatasetSpec rates) (declared : Dict Text Feature) :
    Except DatasetError Unit :=
  let wrong := (expectedWidths spec).entries.filter fun entry =>
    (declared.get entry.1).bind Feature.shape ≠ some [entry.2]
  if wrong = [] then .ok () else .error (.widthMismatch (wrong.map Prod.fst))

/-- The camera slots that are declared. -/
def slotsOf (declared : Dict Text Feature) : List Text := declared.keys.filterMap slotOf

/-- `spec_from_info`. -/
def specFromInfo (rates : Rates φ) (info : Info φ) : Except DatasetError (DatasetSpec rates) :=
  match info.features with
  | none => .error .noFeatures
  | some declared =>
      if declared.entries.isEmpty then .error .noFeatures
      else
        match DatasetSpec.fromStamp rates info.stamp (slotsOf declared) with
        | .error error => .error error
        | .ok spec =>
            match spec.verifyChannels declared.keys with
            | .error error => .error error
            | .ok () =>
                match verifyWidths spec declared with
                | .error error => .error error
                | .ok () => .ok spec

/-- A spec that is written and read back. -/
def rebuilt (spec : DatasetSpec rates) (videoShapes : Dict Text VideoShape) :
    Except DatasetError (DatasetSpec rates) :=
  match features spec videoShapes with
  | .error error => .error error
  | .ok declared => specFromInfo rates ⟨spec.stamp, some declared⟩

/-! ## What is written -/

theorem mem_tableEntries {spec : DatasetSpec rates} {entry : Text × Feature} :
    entry ∈ tableEntries spec ↔
      (∃ held ∈ bookkeeping, entry = (held.1, ⟨held.2.1, some [held.2.2], none⟩)) ∨
        (∃ channel ∈ spec.poseChannels, entry = (channel, poseFeature)) ∨
        ∃ channel ∈ spec.scalarChannels, entry = (channel, scalarFeature) := by
  simp only [tableEntries, List.mem_append, List.mem_map, eq_comm]

theorem mem_poseChannels {spec : DatasetSpec rates} {channel : Text} :
    channel ∈ spec.poseChannels ↔
      channel = collar ∨ ∃ ee ∈ spec.eeNames, channel = eePose ee ∨ channel = actionEePose ee := by
  simp only [DatasetSpec.poseChannels, List.mem_cons, List.mem_append, List.mem_map]
  grind

theorem mem_scalarChannels {spec : DatasetSpec rates} {channel : Text} :
    channel ∈ spec.scalarChannels ↔ ∃ ee ∈ spec.eeNames,
      channel = eeGripperWidth ee ∨ channel = actionEeGripperWidth ee := by
  simp only [DatasetSpec.scalarChannels, List.mem_append, List.mem_map]
  grind

theorem mem_requiredChannels {spec : DatasetSpec rates} {channel : Text} :
    channel ∈ spec.requiredChannels ↔ channel ∈ spec.poseChannels ∨
      channel ∈ spec.scalarChannels ∨ ∃ slot ∈ spec.imageSlots, channel = image slot := by
  simp only [DatasetSpec.requiredChannels, DatasetSpec.tableChannels, tableChannelsFor,
    DatasetSpec.poseChannels, DatasetSpec.scalarChannels, DatasetSpec.imageChannels, List.mem_cons,
    List.mem_append, List.mem_map]
  grind

theorem mem_imageEntries {spec : DatasetSpec rates} {videoShapes : Dict Text VideoShape}
    {entry : Text × Feature} :
    entry ∈ imageEntries spec videoShapes ↔ ∃ slot ∈ spec.imageSlots, ∃ shape,
      videoShapes.get slot = some shape ∧ entry = (image slot, videoFeature shape) := by
  simp only [imageEntries, List.mem_filterMap, Option.map_eq_some_iff]
  constructor
  · rintro ⟨slot, hslot, shape, hshape, rfl⟩
    exact ⟨slot, hslot, shape, hshape, rfl⟩
  · rintro ⟨slot, hslot, shape, hshape, rfl⟩
    exact ⟨slot, hslot, shape, hshape, rfl⟩

/-- A camera's channel for every slot, in order. -/
theorem map_fst_imageEntries {spec : DatasetSpec rates} {videoShapes : Dict Text VideoShape}
    (hcover : ∀ slot ∈ spec.imageSlots, slot ∈ videoShapes.keys) :
    (imageEntries spec videoShapes).map Prod.fst = spec.imageChannels := by
  rw [imageEntries, DatasetSpec.imageChannels]
  generalize spec.imageSlots = slots at hcover
  induction slots with
  | nil => rfl
  | cons slot slots ih =>
      obtain ⟨shape, hshape⟩ := Dict.mem_keys_iff.mp (hcover slot (List.mem_cons_self ..))
      rw [List.filterMap_cons, hshape, Option.map_some, List.map_cons, List.map_cons,
        ih fun other hmem => hcover other (List.mem_cons_of_mem _ hmem)]

/-- The features of a spec whose slots have shapes. -/
theorem features_eq_ok {spec : DatasetSpec rates} {videoShapes : Dict Text VideoShape}
    (hcover : ∀ slot ∈ spec.imageSlots, slot ∈ videoShapes.keys) :
    features spec videoShapes =
      .ok ((Dict.empty.setAll (tableEntries spec)).setAll (imageEntries spec videoShapes)) := by
  have hnone : spec.imageSlots.filter (fun slot => slot ∉ videoShapes.keys) = [] := by
    rw [List.filter_eq_nil_iff]
    intro slot hmem
    simpa using hcover slot hmem
  simp only [features, hnone, ne_eq, not_true_eq_false, if_false]

/-! ## Names that do not clash -/

theorem image_injective : Function.Injective image := by
  intro slot other heq
  have hslot := slotOf_image slot
  rw [heq, slotOf_image] at hslot
  exact (Option.some.inj hslot).symm

theorem slotOf_eq_none_of_head {channel : Text} (hhead : channel.head? ≠ some 'o') :
    slotOf channel = none := by
  rw [Option.eq_none_iff_forall_ne_some]
  intro slot hslot
  rw [slotOf_eq_some_iff.mp hslot] at hhead
  exact hhead rfl

/-- The channels of an end-effector are no camera's, unless its name is like one. -/
theorem slotOf_observation {ee ending : Text} (hee : imagesLike ee = false) :
    slotOf (observation ++ (ee ++ '.' :: ending)) = none := by
  rw [Option.eq_none_iff_forall_ne_some]
  intro slot hslot
  have htrue := exists_image_iff.mp ⟨slot, slotOf_eq_some_iff.mp hslot⟩
  rw [hee] at htrue
  cases htrue

theorem head_poseChannels {spec : DatasetSpec rates} {channel : Text}
    (hmem : channel ∈ spec.poseChannels) :
    (channel.head? = some 'o' ∨ channel.head? = some 'a') ∧ channel.getLast? = some 'e' := by
  rcases mem_poseChannels.mp hmem with rfl | ⟨ee, -, rfl | rfl⟩
  · exact ⟨.inl rfl, rfl⟩
  · exact ⟨.inl rfl, by simp [eePose, pose, List.getLast?_append]⟩
  · exact ⟨.inr rfl, by simp [actionEePose, pose, List.getLast?_append]⟩

theorem head_scalarChannels {spec : DatasetSpec rates} {channel : Text}
    (hmem : channel ∈ spec.scalarChannels) :
    (channel.head? = some 'o' ∨ channel.head? = some 'a') ∧ channel.getLast? = some 'h' := by
  obtain ⟨ee, -, rfl | rfl⟩ := mem_scalarChannels.mp hmem
  · exact ⟨.inl rfl, by simp [eeGripperWidth, gripperWidth, List.getLast?_append]⟩
  · exact ⟨.inr rfl, by simp [actionEeGripperWidth, gripperWidth, List.getLast?_append]⟩

theorem head_bookkeeping : ∀ held ∈ bookkeeping,
    held.1.head? ≠ some 'o' ∧ held.1.head? ≠ some 'a' := by decide

/-- No channel in the parquet reads as a camera's. -/
theorem slotOf_tableEntries {spec : DatasetSpec rates}
    (hplain : ∀ ee ∈ spec.eeNames, imagesLike ee = false) {entry : Text × Feature}
    (hmem : entry ∈ tableEntries spec) : slotOf entry.1 = none := by
  rcases mem_tableEntries.mp hmem with ⟨held, hheld, rfl⟩ | ⟨channel, hchannel, rfl⟩ |
      ⟨channel, hchannel, rfl⟩
  · exact slotOf_eq_none_of_head (head_bookkeeping held hheld).1
  · rcases mem_poseChannels.mp hchannel with rfl | ⟨ee, hee, rfl | rfl⟩
    · decide
    · exact slotOf_observation (hplain ee hee)
    · exact slotOf_eq_none_of_head (by simp [actionEePose, action])
  · obtain ⟨ee, hee, rfl | rfl⟩ := mem_scalarChannels.mp hchannel
    · exact slotOf_observation (hplain ee hee)
    · exact slotOf_eq_none_of_head (by simp [actionEeGripperWidth, action])

/-- A table channel is written with one feature, whichever family it is written in. -/
theorem feature_unique {spec : DatasetSpec rates} {channel : Text} {feature : Feature}
    (hchannel : (channel ∈ spec.poseChannels ∧ feature = poseFeature) ∨
      (channel ∈ spec.scalarChannels ∧ feature = scalarFeature))
    {entry : Text × Feature} (hmem : entry ∈ tableEntries spec) (hkey : entry.1 = channel) :
    entry.2 = feature := by
  have hhead : (channel.head? = some 'o' ∨ channel.head? = some 'a') := by
    rcases hchannel with ⟨hpose, -⟩ | ⟨hscalar, -⟩
    · exact (head_poseChannels hpose).1
    · exact (head_scalarChannels hscalar).1
  rcases mem_tableEntries.mp hmem with ⟨held, hheld, rfl⟩ | ⟨other, hother, rfl⟩ |
      ⟨other, hother, rfl⟩
  · have hne := head_bookkeeping held hheld
    have hkey' : held.1 = channel := hkey
    rw [hkey'] at hne
    exact (hhead.elim hne.1 hne.2).elim
  · obtain rfl : other = channel := hkey
    rcases hchannel with ⟨-, rfl⟩ | ⟨hscalar, -⟩
    · rfl
    · have hlast := (head_poseChannels hother).2
      rw [(head_scalarChannels hscalar).2] at hlast
      exact absurd hlast (by decide)
  · obtain rfl : other = channel := hkey
    rcases hchannel with ⟨hpose, -⟩ | ⟨-, rfl⟩
    · have hlast := (head_poseChannels hpose).2
      rw [(head_scalarChannels hother).2] at hlast
      exact absurd hlast (by decide)
    · rfl

/-! ## Rebuilding -/

/-- Every expected width is that of a channel's feature. -/
theorem exists_feature_of_expected {spec : DatasetSpec rates} {entry : Text × ℤ}
    (hmem : entry ∈ (expectedWidths spec).entries) :
    ∃ feature, ((entry.1 ∈ spec.poseChannels ∧ feature = poseFeature) ∨
      (entry.1 ∈ spec.scalarChannels ∧ feature = scalarFeature)) ∧
      feature.shape = some [entry.2] := by
  rcases Dict.mem_of_mem_entries_setAll hmem with hnone | hentry
  · cases hnone
  · rcases List.mem_append.mp hentry with hpose | hscalar
    · obtain ⟨channel, hchannel, rfl⟩ := List.mem_map.mp hpose
      exact ⟨poseFeature, .inl ⟨hchannel, rfl⟩, rfl⟩
    · obtain ⟨channel, hchannel, rfl⟩ := List.mem_map.mp hscalar
      exact ⟨scalarFeature, .inr ⟨hchannel, rfl⟩, rfl⟩

theorem mem_map_tableEntries {spec : DatasetSpec rates} {channel : Text}
    (hmem : channel ∈ spec.poseChannels ∨ channel ∈ spec.scalarChannels) :
    channel ∈ (tableEntries spec).map Prod.fst := by
  rcases hmem with hpose | hscalar
  · exact List.mem_map_of_mem (mem_tableEntries.mpr (.inr (.inl ⟨channel, hpose, rfl⟩)))
  · exact List.mem_map_of_mem (mem_tableEntries.mpr (.inr (.inr ⟨channel, hscalar, rfl⟩)))

/-- The features that are written. -/
def declaredOf (spec : DatasetSpec rates) (videoShapes : Dict Text VideoShape) :
    Dict Text Feature :=
  (Dict.empty.setAll (tableEntries spec)).setAll (imageEntries spec videoShapes)

theorem mem_keys_declaredOf {spec : DatasetSpec rates} {videoShapes : Dict Text VideoShape}
    (hcover : ∀ slot ∈ spec.imageSlots, slot ∈ videoShapes.keys) {channel : Text} :
    channel ∈ (declaredOf spec videoShapes).keys ↔
      channel ∈ (tableEntries spec).map Prod.fst ∨ channel ∈ spec.imageChannels := by
  rw [declaredOf, Dict.mem_keys_setAll, Dict.mem_keys_setAll, map_fst_imageEntries hcover]
  exact or_congr_left (or_iff_right List.not_mem_nil)

/-- The slots are read back, in order, where no table channel reads as a camera's. -/
theorem slotsOf_declaredOf {spec : DatasetSpec rates} {videoShapes : Dict Text VideoShape}
    (hcover : ∀ slot ∈ spec.imageSlots, slot ∈ videoShapes.keys)
    (hplain : ∀ ee ∈ spec.eeNames, imagesLike ee = false) :
    slotsOf (declaredOf spec videoShapes) = spec.imageSlots := by
  have htable : ∀ key ∈ ((Dict.empty : Dict Text Feature).setAll (tableEntries spec)).keys,
      slotOf key = none := by
    intro key hkey
    rcases Dict.mem_keys_setAll.mp hkey with hnone | hmem
    · cases hnone
    · obtain ⟨entry, hentry, rfl⟩ := List.mem_map.mp hmem
      exact slotOf_tableEntries hplain hentry
  have hnodup : (((Dict.empty : Dict Text Feature).setAll (tableEntries spec)).keys ++
      (imageEntries spec videoShapes).map Prod.fst).Nodup := by
    rw [map_fst_imageEntries hcover]
    refine List.nodup_append.mpr ⟨Dict.nodup _, ?_, ?_⟩
    · exact spec.imageSlots_nodup.map image_injective
    · rintro key hkey other hother rfl
      obtain ⟨slot, -, rfl⟩ := List.mem_map.mp hother
      have hnone := htable _ hkey
      rw [slotOf_image] at hnone
      cases hnone
  have hkeys : (declaredOf spec videoShapes).keys =
      ((Dict.empty : Dict Text Feature).setAll (tableEntries spec)).keys ++ spec.imageChannels := by
    rw [declaredOf, Dict.keys, Dict.entries_setAll hnodup, List.map_append,
      map_fst_imageEntries hcover]
    rfl
  rw [slotsOf, hkeys, List.filterMap_append, List.filterMap_eq_nil_iff.mpr htable, List.nil_append,
    DatasetSpec.imageChannels, List.filterMap_map]
  have hslot : slotOf ∘ image = some := funext slotOf_image
  rw [hslot, List.filterMap_some]

/-- The widths of what is written are those that are expected. -/
theorem verifyWidths_declaredOf {spec : DatasetSpec rates} {videoShapes : Dict Text VideoShape}
    (hplain : ∀ ee ∈ spec.eeNames, imagesLike ee = false) :
    verifyWidths spec (declaredOf spec videoShapes) = .ok () := by
  have hnone : (expectedWidths spec).entries.filter (fun entry =>
      ((declaredOf spec videoShapes).get entry.1).bind Feature.shape ≠ some [entry.2]) = [] := by
    rw [List.filter_eq_nil_iff]
    intro entry hmem
    obtain ⟨feature, hfeature, hshape⟩ := exists_feature_of_expected hmem
    have hkey : entry.1 ∈ (tableEntries spec).map Prod.fst :=
      mem_map_tableEntries (hfeature.imp And.left And.left)
    have hslot : slotOf entry.1 = none := by
      obtain ⟨other, hother, heq⟩ := List.mem_map.mp hkey
      rw [← heq]
      exact slotOf_tableEntries hplain hother
    have hall : ∀ other ∈ tableEntries spec ++ imageEntries spec videoShapes,
        other.1 = entry.1 → other.2 = feature := by
      intro other hother heq
      rcases List.mem_append.mp hother with htable | himage
      · exact feature_unique hfeature htable heq
      · obtain ⟨slot, -, shape, -, rfl⟩ := mem_imageEntries.mp himage
        rw [← heq, slotOf_image] at hslot
        cases hslot
    have hread : ∃ v, ((Dict.empty : Dict Text Feature).setAll
        (tableEntries spec ++ imageEntries spec videoShapes)).get entry.1 = some v ∧
          v = feature := by
      refine Dict.exists_get_setAll hall (.inl ?_)
      rw [List.map_append]
      exact List.mem_append_left _ hkey
    obtain ⟨held, hget, rfl⟩ := hread
    rw [Dict.setAll_append] at hget
    rw [declaredOf, hget, Option.bind_some, hshape]
    simp
  simp only [verifyWidths, hnone, if_true]

/-- A spec whose end-effectors are not named like the cameras comes back. -/
theorem rebuilt_eq_ok {spec : DatasetSpec rates} {videoShapes : Dict Text VideoShape}
    (hcover : ∀ slot ∈ spec.imageSlots, slot ∈ videoShapes.keys) (hgrid : spec.gridSlot ≠ [])
    (hplain : ∀ ee ∈ spec.eeNames, imagesLike ee = false) :
    rebuilt spec videoShapes = .ok spec := by
  have hkeys (channel : Text) (hmem : channel ∈ spec.requiredChannels) :
      channel ∈ (declaredOf spec videoShapes).keys := by
    rw [mem_keys_declaredOf hcover]
    rcases mem_requiredChannels.mp hmem with hpose | hscalar | ⟨slot, hslot, rfl⟩
    · exact .inl (mem_map_tableEntries (.inl hpose))
    · exact .inl (mem_map_tableEntries (.inr hscalar))
    · exact .inr (List.mem_map_of_mem hslot)
  have hne : (declaredOf spec videoShapes).entries.isEmpty = false := by
    have hcollar : collar ∈ (declaredOf spec videoShapes).keys :=
      hkeys collar (mem_requiredChannels.mpr (.inl (mem_poseChannels.mpr (.inl rfl))))
    obtain ⟨entry, hentry, -⟩ := List.mem_map.mp hcollar
    exact List.isEmpty_eq_false_iff.mpr (List.ne_nil_of_mem hentry)
  rw [rebuilt, features_eq_ok hcover, ← declaredOf]
  simp only [specFromInfo, hne, Bool.false_eq_true, if_false, slotsOf_declaredOf hcover hplain,
    DatasetSpec.fromStamp_stamp hgrid, DatasetSpec.verifyChannels_eq_ok hkeys,
    verifyWidths_declaredOf hplain]

/-- What a dataset that is read back has passed. -/
theorem specFromInfo_eq_ok {info : Info φ} {spec : DatasetSpec rates}
    (hok : specFromInfo rates info = .ok spec) :
    ∃ declared, info.features = some declared ∧ spec.imageSlots = slotsOf declared ∧
      verifyWidths spec declared = .ok () := by
  rw [specFromInfo] at hok
  cases hfeatures : info.features with
  | none => simp [hfeatures] at hok
  | some declared =>
      simp only [hfeatures] at hok
      split at hok
      case isTrue => cases hok
      case isFalse =>
        cases hstamp : DatasetSpec.fromStamp rates info.stamp (slotsOf declared) with
        | error error => simp [hstamp] at hok
        | ok made =>
            simp only [hstamp] at hok
            cases hchannels : made.verifyChannels declared.keys with
            | error error => simp [hchannels] at hok
            | ok done =>
                simp only [hchannels] at hok
                cases hwidths : verifyWidths made declared with
                | error error => simp [hwidths] at hok
                | ok done =>
                    simp only [hwidths] at hok
                    cases hok
                    exact ⟨declared, rfl, DatasetSpec.imageSlots_of_fromStamp hstamp, hwidths⟩

/-- A table channel that reads as one of the slots has no width any more: the camera's entry is
written over it. -/
theorem verifyWidths_ne_ok {spec : DatasetSpec rates} {videoShapes : Dict Text VideoShape}
    (hcover : ∀ slot ∈ spec.imageSlots, slot ∈ videoShapes.keys) {slot : Text}
    (hslot : slot ∈ spec.imageSlots)
    (hchannel : image slot ∈ spec.poseChannels ∨ image slot ∈ spec.scalarChannels) :
    verifyWidths spec (declaredOf spec videoShapes) ≠ .ok () := by
  have hkey : image slot ∈ (expectedWidths spec).keys := by
    rw [expectedWidths, Dict.mem_keys_setAll, List.map_append, List.mem_append]
    refine .inr (hchannel.imp (fun hpose => ?_) fun hscalar => ?_)
    · exact List.mem_map_of_mem (List.mem_map_of_mem (f := fun c => (c, poseDim)) hpose)
    · exact List.mem_map_of_mem (List.mem_map_of_mem (f := fun c => (c, (1 : ℤ))) hscalar)
  obtain ⟨entry, hentry, heq⟩ := List.mem_map.mp hkey
  have hall : ∀ other ∈ imageEntries spec videoShapes, other.1 = image slot →
      ∃ shape, other.2 = videoFeature shape := by
    intro other hother _
    obtain ⟨-, -, shape, -, rfl⟩ := mem_imageEntries.mp hother
    exact ⟨shape, rfl⟩
  have hread : ∃ v, (declaredOf spec videoShapes).get (image slot) = some v ∧
      ∃ shape, v = videoFeature shape := by
    refine Dict.exists_get_setAll hall (.inl ?_)
    rw [map_fst_imageEntries hcover]
    exact List.mem_map_of_mem hslot
  obtain ⟨held, hget, shape, rfl⟩ := hread
  intro hok
  rw [verifyWidths] at hok
  split at hok
  case isFalse => cases hok
  case isTrue hnone =>
    have hwidth := List.filter_eq_nil_iff.mp hnone entry hentry
    rw [heq, hget, Option.bind_some, videoFeature] at hwidth
    simp at hwidth

/-- The spec that was written comes back exactly when no end-effector is named like the cameras. -/
theorem rebuilt_eq_self_iff (spec : DatasetSpec rates) (videoShapes : Dict Text VideoShape)
    (hslots : ∀ slot ∈ spec.imageSlots, slot ≠ [])
    (hcover : ∀ slot ∈ spec.imageSlots, slot ∈ videoShapes.keys) :
    rebuilt spec videoShapes = .ok spec ↔ ∀ ee ∈ spec.eeNames, imagesLike ee = false := by
  constructor
  · intro hok ee hee
    by_contra htrue
    rw [rebuilt, features_eq_ok hcover, ← declaredOf] at hok
    obtain ⟨declared, hdeclared, hfound, hwidths⟩ := specFromInfo_eq_ok hok
    obtain rfl : declaredOf spec videoShapes = declared := Option.some.inj hdeclared
    -- the pose of the end-effector is found as a slot
    obtain ⟨slot, hslot⟩ : ∃ slot, eePose ee = image slot :=
      exists_image_iff.mpr (Bool.not_eq_false _ ▸ htrue)
    have hpose : image slot ∈ spec.poseChannels :=
      mem_poseChannels.mpr (.inr ⟨ee, hee, .inl hslot.symm⟩)
    have hmem : slot ∈ spec.imageSlots := by
      rw [hfound, slotsOf, List.mem_filterMap]
      have hkey := (mem_keys_declaredOf hcover).mpr (.inl (mem_map_tableEntries (.inl hpose)))
      exact ⟨image slot, hkey, slotOf_image slot⟩
    exact verifyWidths_ne_ok hcover hmem (.inl hpose) hwidths
  · exact rebuilt_eq_ok hcover (hslots _ spec.gridSlot_mem)

/-! ## An end-effector named `images` -/

/-- Whole rates. -/
def wholeRates : Rates ℤ where
  nonPositive := fun fps => fps ≤ 0
  falsy := fun fps => fps = 0
  nonPositive_of_falsy := by
    intro fps hfps
    rw [decide_eq_true_iff] at hfps ⊢
    exact le_of_eq hfps

/-- One camera. -/
def topShape : Dict Text VideoShape := ⟨[(['t', 'o', 'p'], ⟨3, 480, 640⟩)], by decide⟩

/-- One end-effector and one camera. -/
def smallSpec (ee : Text) : DatasetSpec wholeRates where
  eeNames := [ee]
  imageSlots := [['t', 'o', 'p']]
  gridSlot := ['t', 'o', 'p']
  fps := 30
  eeNames_ne_nil := List.cons_ne_nil _ _
  eeNames_nodup := List.nodup_singleton _
  imageSlots_nodup := List.nodup_singleton _
  fps_positive := rfl
  gridSlot_mem := List.mem_singleton_self _

theorem rebuilt_eq_self_iff_left :
    rebuilt (smallSpec ['l', 'e', 'f', 't']) topShape = .ok (smallSpec ['l', 'e', 'f', 't']) ↔
      ∀ ee ∈ [['l', 'e', 'f', 't']], imagesLike ee = false :=
  rebuilt_eq_self_iff (smallSpec ['l', 'e', 'f', 't']) topShape (by decide) (by decide)

/-- The channels of an end-effector named `images` come back as two more cameras. -/
theorem rebuilt_images :
    ∃ spec, rebuilt (smallSpec images) topShape = .ok spec ∧
      (smallSpec images).imageSlots = [['t', 'o', 'p']] ∧
      spec.imageSlots = [['p', 'o', 's', 'e'], gripperWidth.tail, ['t', 'o', 'p']] :=
  ⟨_, rfl, rfl, rfl⟩

end VisioSchema.Dataset

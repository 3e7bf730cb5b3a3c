import VisioSchema.Reader.ExposedStream
import VisioSchema.Reader.Passes

/-!
# Merged streams in order of time

`_seam_slack` widens the reorder window by the largest overlap of two neighbours of a stream.  The
elements come out in order of time exactly if none is read behind a later one that has left the
window (`stream_inTimeOrder_iff`); they do if no file reaches back over an earlier one, neighbour
or not, further than the window (`SeamsCovered`).  In a chain, whose files are ordered by their
part numbers, a part may reach back over more than its neighbour.

The argument has three layers.  A file is read in the order of its log times, so that what a stream
of files yields arrives no further out of order than its files reach back (`oneStream_arrives`),
and the merge of the streams keeps that bound.  The library's `Holdback` turns the bound into the
order of what is released.  The join of exposures keeps that order (`streamElements_stamps`); what
is read for the join alone counts as an arrival, and not as an element that could be late.
-/

namespace VisioSchema.Reader

open VisioSchema.Library VisioSchema.Wire

variable {D Ctx Img V φ ε : Type*}

/-- The bounds in the index are the times of the first and the last message. -/
structure File.Bounds (file : File D) (lo hi : ℤ) : Prop where
  start : file.index.startNs = some lo
  stop : file.index.endNs = some hi
  first : ∃ m ∈ file.messages, m.logTime = lo
  last : ∃ m ∈ file.messages, m.logTime = hi
  within : ∀ m ∈ file.messages, lo ≤ m.logTime ∧ m.logTime ≤ hi

/-- Every file is read in the order of its log times, which are not negative, and its bounds are
known and exact. -/
structure Session.WellIndexed (s : Session D) : Prop where
  ordered : ∀ members ∈ s.streams, ∀ file ∈ members,
    file.messages.Pairwise fun a b => a.logTime ≤ b.logTime
  nonneg : ∀ members ∈ s.streams, ∀ file ∈ members, ∀ m ∈ file.messages, 0 ≤ m.logTime
  bounds : ∀ members ∈ s.streams, ∀ file ∈ members, ∃ lo hi, file.Bounds lo hi

/-- `a.end_ns - b.start_ns`. -/
def handsBack (a b : File D) : ℤ := a.index.endNs.getD 0 - b.index.startNs.getD 0

/-- No file reaches back over an earlier one of its stream further than the reorder window. -/
def Session.SeamsCovered (s : Session D) : Prop :=
  ∀ members ∈ s.streams, members.Pairwise fun a b => handsBack a b ≤ s.reorderNs

theorem File.Bounds.handsBack_le {a b : File D} {aLo aHi bLo bHi w : ℤ} (ha : a.Bounds aLo aHi)
    (hb : b.Bounds bLo bHi) (hcovered : handsBack a b ≤ w) {x y : Message D}
    (hx : x ∈ a.messages) (hy : y ∈ b.messages) : x.logTime - w ≤ y.logTime := by
  have hlast := (ha.within x hx).2
  have hfirst := (hb.within y hy).1
  rw [handsBack, ha.stop, hb.start] at hcovered
  simp only [Option.getD_some] at hcovered
  omega

namespace Session

variable {s : Session D} {backend : Backend D Ctx Img V ε} {q : Query}

theorem streamFile_items (state : StreamState Ctx) (member : File D × Want) :
    ∃ carried, (s.streamFile backend q state member).items =
      (s.iterFile backend q member.1 member.2 carried).items :=
  ⟨_, Gen.items_andThen_done _ _⟩

/-- A stream yields what comes from its messages. -/
theorem oneStream_from (hwell : s.WellIndexed) (hprompt : backend.Prompt)
    (hstart : q.startNs = none) (hend : q.endNs = none) {members : List (File D)}
    (hmembers : members ∈ s.streams) :
    ∀ triple ∈ (s.oneStream backend q members).items,
      ∃ file ∈ members, ∃ m ∈ file.messages, FromMessage m triple := by
  rw [oneStream_unbounded hstart hend, Gen.items_andThen_done]
  refine Gen.each_forall (fun state member hmember triple htriple => ?_) _
  obtain ⟨file, hfile, rfl⟩ := List.mem_map.mp hmember
  obtain ⟨carried, hitems⟩ := @streamFile_items _ _ _ _ _ s backend q state (file, q.want)
  rw [hitems] at htriple
  obtain ⟨m, hm, hfrom⟩ := (iterFile_from hprompt (hwell.ordered _ hmembers _ hfile)).1 _ htriple
  exact ⟨file, hfile, m, hm, hfrom⟩

/-- What a stream yields arrives no further out of order than its files reach back. -/
theorem oneStream_arrives (hwell : s.WellIndexed) (hprompt : backend.Prompt)
    (hstart : q.startNs = none) (hend : q.endNs = none) {w : ℤ} (hw : 0 ≤ w)
    {members : List (File D)} (hmembers : members ∈ s.streams)
    (hcovered : members.Pairwise fun a b => handsBack a b ≤ w) :
    (s.oneStream backend q members).items.Pairwise fun a b =>
      a.arrivalNs - w ≤ b.arrivalNs := by
  rw [oneStream_unbounded hstart hend, Gen.items_andThen_done]
  refine Gen.each_pairwise
    (P := fun member triple => ∃ m ∈ member.1.messages, FromMessage m triple) ?_ ?_ _
  · intro state member hmember
    obtain ⟨file, hfile, rfl⟩ := List.mem_map.mp hmember
    obtain ⟨carried, hitems⟩ := @streamFile_items _ _ _ _ _ s backend q state (file, q.want)
    rw [hitems]
    obtain ⟨hfrom, harrives⟩ := @iterFile_from _ _ _ _ _ s backend q hprompt file q.want carried
      (hwell.ordered _ hmembers _ hfile)
    exact ⟨harrives.imp fun hab => by omega, hfrom⟩
  · have hpairs := List.Pairwise.and_mem.mp hcovered
    refine List.pairwise_map.mpr (hpairs.imp ?_)
    rintro a b ⟨ha, hb, hback⟩ x y ⟨m, hm, hx⟩ ⟨n, hn, hy⟩
    obtain ⟨aLo, aHi, haBounds⟩ := hwell.bounds _ hmembers a ha
    obtain ⟨bLo, bHi, hbBounds⟩ := hwell.bounds _ hmembers b hb
    rw [hx.arrives, hy.arrives]
    exact haBounds.handsBack_le hbBounds hback hm hn

/-- Everything that is read comes from a message. -/
theorem rawItems_from (hwell : s.WellIndexed) (hprompt : backend.Prompt)
    (hstart : q.startNs = none) (hend : q.endNs = none) :
    ∀ triple ∈ (s.rawItems backend q).items,
      ∃ m : Message D, 0 ≤ m.logTime ∧ FromMessage m triple := by
  intro triple htriple
  obtain ⟨g, hg, hin⟩ := Gen.mem_of_mem_merge htriple
  obtain ⟨members, hmembers, rfl⟩ := List.mem_map.mp hg
  obtain ⟨file, hfile, m, hm, hfrom⟩ :=
    oneStream_from hwell hprompt hstart hend hmembers triple hin
  exact ⟨m, hwell.nonneg _ hmembers _ hfile _ hm, hfrom⟩

/-- A window that covers the seams lets nothing go before an earlier element is read. -/
theorem noneLate_of_seamsCovered (hwell : s.WellIndexed) (hprompt : backend.Prompt)
    (hstart : q.startNs = none) (hend : q.endNs = none) (hreorder : 0 ≤ s.reorderNs)
    (hcovered : s.SeamsCovered) (keep : Element Topic (Value Img D V) → Bool) :
    NoneLate keep s.reorderNs (s.rawItems backend q).items := by
  have hfrom := @rawItems_from _ _ _ _ _ s backend q hwell hprompt hstart hend
  have hpairs : (s.rawItems backend q).items.Pairwise fun a b =>
      a.arrivalNs - s.reorderNs ≤ b.arrivalNs := by
    refine Gen.pairwise_merge (fun a b hab => by omega) (fun a b c hab hbc => by omega) ?_
    intro g hg
    obtain ⟨members, hmembers, rfl⟩ := List.mem_map.mp hg
    exact oneStream_arrives hwell hprompt hstart hend hreorder hmembers (hcovered _ hmembers)
  have harrives : ∀ x ∈ (s.rawItems backend q).items, 0 ≤ x.arrivalNs := by
    intro x hx
    obtain ⟨m, hm, hm'⟩ := hfrom x hx
    exact hm'.arrives ▸ hm
  refine (timely_iff_noneLate harrives).mp (Holdback.timely_of_pairwise _ ?_ ?_)
  · intro x hx
    obtain ⟨m, hm, hm'⟩ := hfrom x hx
    have hlater := hm'.later
    change 0 - s.reorderNs ≤ x.sortNs
    omega
  · refine (List.Pairwise.and_mem.mp hpairs).imp ?_
    rintro a b ⟨-, hb, hab⟩
    obtain ⟨m, -, hm'⟩ := hfrom b hb
    have hlater := hm'.later
    have harrived := hm'.arrives
    omega

theorem stream_unbounded (hstart : q.startNs = none) (hend : q.endNs = none) :
    s.stream backend q = reorder s.reorderNs (s.rawItems backend q) := by
  have hread : s.readQuery q = q := by
    unfold readQuery
    rw [hstart, hend]
    cases q
    simp_all
  have hall : ∀ elements : List (Element Topic (Value Img D V)),
      elements.filter (fun element => inWindow none none element.tNs) = elements :=
    fun elements => List.filter_eq_self.mpr fun element _ => rfl
  unfold stream
  dsimp only
  rw [hread, hstart, hend, hall]

end Session

/-! ## The window of a session -/

theorem worstSeam_le_foldl {streams : List (List (File D))} {members : List (File D)}
    (hmembers : members ∈ streams) (worst : ℤ) :
    worst ≤ streams.foldl (fun worst files => max worst (worstSeam files)) worst ∧
      worstSeam members ≤ streams.foldl (fun worst files => max worst (worstSeam files)) worst := by
  have hgrows : ∀ (streams : List (List (File D))) (worst : ℤ),
      worst ≤ streams.foldl (fun worst files => max worst (worstSeam files)) worst := by
    intro streams
    induction streams with
    | nil => exact fun worst => Int.le_refl worst
    | cons files rest ih => exact fun worst => (Int.le_max_left _ _).trans (ih _)
  refine ⟨hgrows streams worst, ?_⟩
  induction streams generalizing worst with
  | nil => cases hmembers
  | cons files rest ih =>
      rcases List.mem_cons.mp hmembers with rfl | hrest
      · exact (Int.le_max_right _ _).trans (hgrows rest _)
      · exact ih hrest _

theorem seamSlack_nonneg (streams : List (List (File D))) : 0 ≤ seamSlack streams := by
  unfold seamSlack
  refine le_min ?_ (by decide)
  cases streams with
  | nil => exact Int.le_refl 0
  | cons files rest => exact (worstSeam_le_foldl (List.mem_cons_self ..) 0).1

/-- No element that is to be yielded is read behind a later one that the window has let go. -/
def Session.NoneReadLate (s : Session D) (backend : Backend D Ctx Img V ε)
    (exposing : Exposing D Img V φ ε) (q : Query) : Prop :=
  ∀ cameras, s.exposureCameras exposing q = .ok cameras →
    NoneLate (s.emits exposing q cameras) s.reorderNs
      (s.rawItems backend (s.reading q cameras)).items

theorem inTimeOrder_iff_stamps {K V : Type*} {els : List (Element K V)} :
    InTimeOrder els ↔ (stamps els).Pairwise (· ≤ ·) := List.pairwise_map.symm

/-- The elements of a session without a window come in order of time if none is read behind a
later one that has left the window, and only then, unless the join of exposures gives up before the
end.  No element is read late if no file reaches back over an earlier one of its stream further
than the window. -/
theorem stream_inTimeOrder_iff (groups : List (List (File D))) (mode : DeviceMode)
    (reorderNs : ℤ) (backend : Backend D Ctx Img V ε) (exposing : Exposing D Img V φ ε)
    (want : Want) (rawAll : Bool) (rawSet : List Topic) (hreorder : 0 ≤ reorderNs)
    (hwell : (openSession groups mode reorderNs).WellIndexed) (hprompt : backend.Prompt) :
    let s := openSession groups mode reorderNs
    let q : Query := { want := want, rawAll := rawAll, rawSet := rawSet }
    (s.NoneReadLate backend exposing q →
        InTimeOrder (s.streamElements backend exposing q).items) ∧
      ((s.streamElements backend exposing q).Returns () ∨
          s.exposureCameras exposing q = .ok [] →
        (InTimeOrder (s.streamElements backend exposing q).items ↔
          s.NoneReadLate backend exposing q)) ∧
      (s.SeamsCovered → s.NoneReadLate backend exposing q) := by
  intro s q
  have hwindow : 0 ≤ s.reorderNs := by
    have hslack := seamSlack_nonneg ((groups.filter (· ≠ [])).map fileOrder)
    change 0 ≤ reorderNs + seamSlack _
    omega
  have hcovers : s.SeamsCovered → s.NoneReadLate backend exposing q := by
    intro hcovered cameras _
    obtain ⟨hstart, hend⟩ := @Session.reading_unbounded _ s q rfl rfl cameras
    exact Session.noneLate_of_seamsCovered hwell hprompt hstart hend hwindow hcovered _
  cases hcameras : s.exposureCameras exposing q with
  | error e =>
      -- the call raises
      have hnothing : (s.streamElements backend exposing q).items = [] := by
        rw [Session.streamElements, hcameras]
        rfl
      have hordered : InTimeOrder (s.streamElements backend exposing q).items := by
        rw [hnothing]
        exact List.Pairwise.nil
      have hnone : s.NoneReadLate backend exposing q := by
        intro cameras hok
        rw [hcameras] at hok
        cases hok
      exact ⟨fun _ => hordered, fun _ => ⟨fun _ => hnone, fun _ => hordered⟩, hcovers⟩
  | ok cameras =>
      obtain ⟨hstart, hend⟩ := @Session.reading_unbounded _ s q rfl rfl cameras
      have hfrom := @Session.rawItems_from _ _ _ _ _ s backend (s.reading q cameras) hwell hprompt
        hstart hend
      have hreordered : InTimeOrder ((reorder s.reorderNs
          (s.rawItems backend (s.reading q cameras))).items.filter (s.emits exposing q cameras)) ↔
            NoneLate (s.emits exposing q cameras) s.reorderNs
              (s.rawItems backend (s.reading q cameras)).items := by
        refine reorder_chronological_iff (fun x hx => ?_) fun x hx => ?_
        · obtain ⟨m, hm, hm'⟩ := hfrom x hx
          exact hm'.arrives ▸ hm
        · obtain ⟨m, -, hm'⟩ := hfrom x hx
          exact hm'.stamped
      have hlate : s.NoneReadLate backend exposing q ↔ NoneLate (s.emits exposing q cameras)
          s.reorderNs (s.rawItems backend (s.reading q cameras)).items := by
        constructor
        · exact fun hnone => hnone cameras hcameras
        · intro hnone others hothers
          obtain rfl : cameras = others := Except.ok.inj (hcameras.symm.trans hothers)
          exact hnone
      obtain ⟨hfront, hall⟩ := @Session.streamElements_stamps _ _ _ _ _ _ s backend exposing q rfl
        rfl cameras hcameras
      rw [hlate, ← hreordered, inTimeOrder_iff_stamps, inTimeOrder_iff_stamps]
      refine ⟨fun hordered => hordered.sublist hfront.sublist, fun hends => ?_, ?_⟩
      · rw [hall (hends.imp_right Except.ok.inj)]
      · rw [← inTimeOrder_iff_stamps, hreordered, ← hlate]
        exact hcovers

/-! ## Files that start in their order -/

/-- A file that reaches back over an earlier one reaches no further than the next file does, if
they start in their order. -/
theorem handsBack_le_worstSeam {members : List (File D)}
    (hknown : ∀ file ∈ members, file.index.startNs.isSome ∧ file.index.endNs.isSome)
    (hstarts : members.Pairwise fun a b => a.start ≤ b.start)
    (hrefused : members.IsChain fun a b => refused a b = false) :
    members.Pairwise fun a b => handsBack a b ≤ worstSeam members := by
  induction members with
  | nil => exact List.Pairwise.nil
  | cons a rest ih =>
      obtain ⟨hfirst, hstarts'⟩ := List.pairwise_cons.mp hstarts
      have hrest := ih (fun file hfile => hknown file (List.mem_cons_of_mem a hfile)) hstarts'
        hrefused.tail
      cases rest with
      | nil => exact List.pairwise_singleton ..
      | cons b rest =>
          have hmore : worstSeam (a :: b :: rest) = max (seamOverlap a b) (worstSeam (b :: rest)) :=
            rfl
          have hseam : handsBack a b ≤ seamOverlap a b := by
            obtain ⟨hsome, hsome'⟩ := hknown a (List.mem_cons_self ..)
            obtain ⟨hother, hother'⟩ := hknown b (by simp)
            obtain ⟨aLo, haLo⟩ := Option.isSome_iff_exists.mp hsome
            obtain ⟨aHi, haHi⟩ := Option.isSome_iff_exists.mp hsome'
            obtain ⟨bLo, hbLo⟩ := Option.isSome_iff_exists.mp hother
            obtain ⟨bHi, hbHi⟩ := Option.isSome_iff_exists.mp hother'
            have hpair : refused a b = false := (List.isChain_cons_cons.mp hrefused).1
            simp only [handsBack, seamOverlap, haLo, haHi, hbLo, hbHi, hpair, Option.getD_some]
            exact Int.le_max_right 0 _
          rw [hmore]
          refine List.pairwise_cons.mpr ⟨fun c hc => ?_, hrest.imp fun hle =>
            hle.trans (Int.le_max_right _ _)⟩
          have hstart : b.start ≤ c.start := by
            rcases List.mem_cons.mp hc with rfl | hc
            · exact Int.le_refl _
            · exact (List.pairwise_cons.mp hstarts').1 c hc
          have hback : handsBack a c ≤ handsBack a b := by
            simp only [handsBack, File.start] at hstart ⊢
            omega
          calc handsBack a c
              _ ≤ handsBack a b := hback
              _ ≤ seamOverlap a b := hseam
              _ ≤ max (seamOverlap a b) (worstSeam (b :: rest)) := Int.le_max_left _ _

/-- The window covers the seams of files that start in their order, as those without a rotation
record do, if it covers those of neighbours. -/
theorem seamsCovered_of_starts {s : Session D} (hwell : s.WellIndexed)
    (hstarts : ∀ members ∈ s.streams, members.Pairwise fun a b => a.start ≤ b.start)
    (hrefused : ∀ members ∈ s.streams, members.IsChain fun a b => refused a b = false)
    (hworst : ∀ members ∈ s.streams, worstSeam members ≤ s.reorderNs) : s.SeamsCovered := by
  intro members hmembers
  have hknown : ∀ file ∈ members, file.index.startNs.isSome ∧ file.index.endNs.isSome := by
    intro file hfile
    obtain ⟨lo, hi, hbounds⟩ := hwell.bounds _ hmembers file hfile
    rw [hbounds.start, hbounds.stop]
    exact ⟨rfl, rfl⟩
  exact (handsBack_le_worstSeam hknown (hstarts _ hmembers) (hrefused _ hmembers)).imp fun hle =>
    hle.trans (hworst _ hmembers)

/-! ## A part that reaches back over more than its neighbour -/

/-- What `_seam_slack` expects of the files of a stream: no neighbours are refused, and no seam is
past the ceiling. -/
structure Session.Sequential (s : Session D) : Prop where
  accepted : ∀ members ∈ s.streams, members.IsChain fun a b => refused a b = false
  limited : ∀ members ∈ s.streams, members.Pairwise fun a b => handsBack a b ≤ maxSeamSlackNs

/-- A decoder of JPEG pictures, each of them an access unit. -/
def jpegBackend : Backend Video Unit (List Byte) Unit Unit where
  av := { create := fun _ => (), decode := fun _ accessUnit => (some accessUnit, ()) }
  parseVideo := .ok
  emit := fun _ _ _ => .done ()
  flush := fun _ _ => .done ()

theorem jpegBackend_prompt : jpegBackend.Prompt where
  emits := by
    intro schema fed m triple htriple
    cases htriple
  flushes := fun _ _ => rfl

def jpegTopic : Topic := ['/', 'c']

def jpegMessage (sequence : ℕ) (t : ℤ) : Message Video :=
  ⟨jpegTopic, some .video, sequence, t, ⟨['j', 'p', 'e', 'g'], [], [7]⟩⟩

def jpegPart (part : ℕ) (lo hi : ℤ) (messages : List (Message Video)) : File Video :=
  { index := ⟨[⟨jpegTopic, some .video, messages.length⟩], some lo, some hi⟩
    rotation := some ⟨['r'], part, true⟩
    messages := messages }

/-- The last part reaches back 15 over its neighbour and 20 over the first part. -/
def reachingChain : List (File Video) :=
  [jpegPart 0 0 100 [jpegMessage 0 0, jpegMessage 1 82, jpegMessage 2 100],
    jpegPart 1 90 95 [jpegMessage 3 90, jpegMessage 4 95],
    jpegPart 2 80 200 [jpegMessage 5 80, jpegMessage 6 200]]

theorem reachingChain_streams :
    (openSession [reachingChain] .auto 0).streams = [reachingChain] := by decide +kernel

theorem reachingChain_wellIndexed : (openSession [reachingChain] .auto 0).WellIndexed where
  ordered := by
    rw [reachingChain_streams]
    decide +kernel
  nonneg := by
    rw [reachingChain_streams]
    decide +kernel
  bounds := by
    rw [reachingChain_streams]
    intro members hmembers file hfile
    rw [List.mem_singleton.mp hmembers] at hfile
    simp only [reachingChain, List.mem_cons, List.not_mem_nil, or_false] at hfile
    rcases hfile with rfl | rfl | rfl
    · exact ⟨0, 100, rfl, rfl, by decide +kernel, by decide +kernel, by decide +kernel⟩
    · exact ⟨90, 95, rfl, rfl, by decide +kernel, by decide +kernel, by decide +kernel⟩
    · exact ⟨80, 200, rfl, rfl, by decide +kernel, by decide +kernel, by decide +kernel⟩

/-- A message of video bytes is taken for a `CameraFrameInfo` of one microsecond. -/
def jpegExposing : Exposing Video (List Byte) Unit Unit Unit where
  current := fun _ => true
  parse := fun _ => .ok ⟨1, 0, (), 0, 0⟩
  kind := fun _ => .record (some ⟨1, 0, (), 0, 0⟩)
  nbytes := fun _ => 0
  floating :=
    { ofInt := fun _ => ()
      add := fun _ _ => ()
      sub := fun _ _ => ()
      mul := fun _ _ => ()
      div := fun _ _ => ()
      atLeastHalf := fun _ => false
      round := fun _ => 1 }

/-- The frame at 80 comes after that at 82. -/
theorem not_stream_inTimeOrder :
    ¬∀ (groups : List (List (File Video))) (mode : DeviceMode) (reorderNs : ℤ)
      (backend : Backend Video Unit (List Byte) Unit Unit)
      (exposing : Exposing Video (List Byte) Unit Unit Unit) (want : Want) (rawAll : Bool)
      (rawSet : List Topic), 0 ≤ reorderNs → (openSession groups mode reorderNs).WellIndexed →
      (openSession groups mode reorderNs).Sequential → backend.Prompt →
      InTimeOrder ((openSession groups mode reorderNs).streamElements backend exposing
        { want := want, rawAll := rawAll, rawSet := rawSet }).items := by
  intro hclaim
  have hsequential : (openSession [reachingChain] .auto 0).Sequential := by
    constructor
    · rw [reachingChain_streams]
      decide +kernel
    · rw [reachingChain_streams]
      decide +kernel
  have hordered := hclaim [reachingChain] .auto 0 jpegBackend jpegExposing none false []
    (by decide) reachingChain_wellIndexed hsequential jpegBackend_prompt
  exact absurd hordered (by
    unfold InTimeOrder
    decide +kernel)

def jpegInfoTopic : Topic := infoTopic jpegTopic

def infoMessage (sequence : ℕ) (t : ℤ) : Message Video :=
  { jpegMessage sequence t with topic := jpegInfoTopic, schema := some frameInfoSchema }

/-- The same parts with `frame_info` in the first one. -/
def exposedChain : List (File Video) :=
  [{ jpegPart 0 0 100 [jpegMessage 0 0, infoMessage 0 0, jpegMessage 1 82, infoMessage 1 82,
        infoMessage 2 100] with
      index := ⟨[⟨jpegTopic, some .video, 2⟩, ⟨jpegInfoTopic, some frameInfoSchema, 3⟩], some 0,
        some 100⟩ },
    jpegPart 1 90 95 [jpegMessage 3 90, jpegMessage 4 95],
    jpegPart 2 80 200 [jpegMessage 5 80, jpegMessage 6 200]]

/-- Every message but video is a record. -/
def recordBackend : Backend Video Unit (List Byte) Unit Unit :=
  { jpegBackend with
    emit := fun _ _ fed => .yield [⟨fed.tNs, fed.tNs, ⟨fed.topic, fed.tNs, ()⟩⟩] () }

theorem recordBackend_prompt : recordBackend.Prompt where
  emits := by
    intro schema fed m triple htriple
    rw [List.mem_singleton.mp htriple]
    exact ⟨rfl, Int.le_refl _, rfl⟩
  flushes := fun _ _ => rfl

theorem exposedChain_streams :
    (openSession [exposedChain] .auto 0).streams = [exposedChain] := by decide +kernel

theorem exposedChain_wellIndexed : (openSession [exposedChain] .auto 0).WellIndexed where
  ordered := by
    rw [exposedChain_streams]
    decide +kernel
  nonneg := by
    rw [exposedChain_streams]
    decide +kernel
  bounds := by
    rw [exposedChain_streams]
    intro members hmembers file hfile
    rw [List.mem_singleton.mp hmembers] at hfile
    simp only [exposedChain, List.mem_cons, List.not_mem_nil, or_false] at hfile
    rcases hfile with rfl | rfl | rfl
    · exact ⟨0, 100, rfl, rfl, by decide +kernel, by decide +kernel, by decide +kernel⟩
    · exact ⟨90, 95, rfl, rfl, by decide +kernel, by decide +kernel, by decide +kernel⟩
    · exact ⟨80, 200, rfl, rfl, by decide +kernel, by decide +kernel, by decide +kernel⟩

/-- The entry at 100 lets the frame at 82 out before the frame at 80 is read, although it is not
yielded itself. -/
theorem stream_inTimeOrder_iff_exposed :
    ¬(openSession [exposedChain] .auto 0).NoneReadLate recordBackend jpegExposing {} := by
  intro hnone
  have hordered := (stream_inTimeOrder_iff [exposedChain] .auto 0 recordBackend jpegExposing none
    false [] (by decide) exposedChain_wellIndexed recordBackend_prompt).1 hnone
  exact absurd hordered (by
    unfold InTimeOrder
    decide +kernel)

end VisioSchema.Reader

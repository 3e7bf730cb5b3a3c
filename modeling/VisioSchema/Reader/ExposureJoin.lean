import Mathlib.Data.List.Forall2
import VisioSchema.Reader.Exposure
import VisioSchema.Reader.Matching

/-!
# The streamed exposures are the indexed ones

`join_exposure` answers from what has arrived so far, of which it has pruned the front.  Its
tracks are windows of the tracks of the whole recording: what was pruned lies before every frame
that is still to come, and what has not arrived lies behind every entry that has (`Windows`).  So
wherever it answers, the lookup in the whole track answers the same.

## Strategy

A lookup looks at the entries on both sides of a stamp, and a window that reaches over both of
them answers as the track does (`lookup_at`).  A frame waits until its camera's window reaches
past it, or until the stream has ended; so a drain gives every frame that it yields what the
whole track gives it (`drainPending_carries`).

`Joining` is the invariant of the loop.  A round takes an element in, which makes the window of
one camera longer and leaves the others (`absorb_joining`), tells the matcher, drains, and prunes
before the frontier (`Windows.prune`).  The matcher is only trusted to join frames and records of
one stamp (`markReady_sound`).
-/

namespace VisioSchema.Reader

open VisioSchema.Library

variable {Img D φ : Type*}

/-! ## The indexed tracks -/

/-- The entry of a camera that an element is. -/
def entryOf (cam : Topic) (el : Element Topic (Payload Img D φ)) :
    Option (Except ExposureError (ExposureEntry φ)) :=
  match el.value with
  | .record msg _ =>
      if el.topic = infoTopic cam then some (parseFrameInfo cam el.tNs msg) else none
  | .frame _ _ => none
  | .other _ => none

/-- The entries of a camera in a whole recording. -/
def indexedTrack (cam : Topic) :
    List (Element Topic (Payload Img D φ)) → Except ExposureError (Track φ)
  | [] => .ok []
  | el :: rest =>
      match entryOf cam el with
      | none => indexedTrack cam rest
      | some (.error e) => .error e
      | some (.ok entry) => (indexedTrack cam rest).map fun track => (el.tNs, entry) :: track

/-- The stamps of a camera's entries. -/
def infoStamps (cam : Topic) (stream : List (Element Topic (Payload Img D φ))) : List ℤ :=
  (stream.filter fun el => (entryOf cam el).isSome).map Element.tNs

theorem indexedTrack_cons_none {cam : Topic} {el : Element Topic (Payload Img D φ)}
    (hnone : entryOf cam el = none) (rest : List (Element Topic (Payload Img D φ))) :
    indexedTrack cam (el :: rest) = indexedTrack cam rest := by
  simp only [indexedTrack, hnone]

theorem indexedTrack_cons_some {cam : Topic} {el : Element Topic (Payload Img D φ)}
    {entry : ExposureEntry φ} (hsome : entryOf cam el = some (.ok entry))
    {rest : List (Element Topic (Payload Img D φ))} {track : Track φ}
    (hrest : indexedTrack cam rest = .ok track) :
    indexedTrack cam (el :: rest) = .ok ((el.tNs, entry) :: track) := by
  simp only [indexedTrack, hsome, hrest]
  rfl

theorem indexedTrack_stamps {cam : Topic} {stream : List (Element Topic (Payload Img D φ))}
    {track : Track φ} (htrack : indexedTrack cam stream = .ok track) :
    track.map Prod.fst = infoStamps cam stream := by
  induction stream generalizing track with
  | nil =>
      obtain rfl := Except.ok.inj htrack
      rfl
  | cons el rest ih =>
      unfold infoStamps at ih ⊢
      cases hentry : entryOf cam el with
      | none =>
          rw [indexedTrack_cons_none hentry] at htrack
          simpa [hentry] using ih htrack
      | some parsed =>
          cases parsed with
          | error e => simp [indexedTrack, hentry] at htrack
          | ok entry =>
              cases hrest : indexedTrack cam rest with
              | error e =>
                  simp only [indexedTrack, hentry, hrest] at htrack
                  cases htrack
              | ok others =>
                  rw [indexedTrack_cons_some hentry hrest] at htrack
                  obtain rfl := Except.ok.inj htrack
                  simpa [hentry] using ih hrest

/-- The track of a recording is in order. -/
theorem indexedTrack_inOrder {cam : Topic} {stream : List (Element Topic (Payload Img D φ))}
    {track : Track φ} (hordered : stream.Pairwise fun a b => a.tNs ≤ b.tNs)
    (hdistinct : (infoStamps cam stream).Nodup) (htrack : indexedTrack cam stream = .ok track) :
    InOrder Prod.fst track := by
  have hstamps := indexedTrack_stamps htrack
  have hle : (infoStamps cam stream).Pairwise (· ≤ ·) :=
    List.pairwise_map.mpr (hordered.sublist List.filter_sublist)
  have hlt : (track.map Prod.fst).Pairwise (· < ·) := by
    rw [hstamps]
    exact hle.imp₂ (fun a b hab hne => lt_of_le_of_ne hab hne) hdistinct
  exact List.pairwise_map.mp hlt

/-! ## The lookup -/

/-- A lookup in a window of a track answers as the track does. -/
theorem lookup_at {cfg : JoinConfig Img φ} {lost track future : Track φ} {cam : Topic} {t : ℤ}
    {final : Bool} {exp : FrameExposure φ} (hlost : ∀ entry ∈ lost, entry.1 < t)
    (hhead : lost ≠ [] → track.before t ≠ []) (hfuture : final = true → future = [])
    (hlookup : cfg.lookup track cam t final = .ok (some exp)) :
    (lost ++ track ++ future).at? cfg.floating t = some exp := by
  have hlost' : ∀ entry ∈ lost, decide (entry.1 < t) = true := by
    intro entry hentry
    exact decide_eq_true (hlost entry hentry)
  -- The entry before the stamp is in the window, unless nothing was pruned.
  have hlast : (lost ++ track.before t).getLast? = (track.before t).getLast? := by
    cases hbefore : track.before t with
    | nil =>
        have hnil : lost = [] := by
          by_contra hne
          exact hhead hne hbefore
        rw [hnil]
        rfl
    | cons first rest => exact List.getLast?_append_cons ..
  unfold JoinConfig.lookup at hlookup
  unfold Track.at?
  cases hbehind : track.behind t with
  | cons hi others =>
      -- An entry at or behind the stamp has arrived, so those to come do not matter.
      have hstops : track.dropWhile (fun entry => decide (entry.1 < t)) ≠ [] := by
        change track.behind t ≠ []
        rw [hbehind]
        exact List.cons_ne_nil _ _
      obtain ⟨hbeforeAll, hbehindAll⟩ := @split_window _ _ _ _ future hlost' (.inl hstops)
      change (lost ++ track ++ future).before t = lost ++ track.before t at hbeforeAll
      change (lost ++ track ++ future).behind t = track.behind t ++ future at hbehindAll
      rw [hbeforeAll, hbehindAll, hlast, hbehind]
      rw [hbehind] at hlookup
      dsimp only [List.cons_append] at hlookup ⊢
      by_cases hexact : hi.1 = t
      · rw [if_pos hexact] at hlookup
        obtain rfl := Option.some.inj (Except.ok.inj hlookup)
        cases (track.before t).getLast? with
        | none => simp [hexact]
        | some lo => simp [hexact]
      · rw [if_neg hexact] at hlookup
        cases hlo : (track.before t).getLast? with
        | none =>
            rw [hlo] at hlookup
            dsimp only at hlookup ⊢
            split at hlookup
            · cases hlookup
            · exact Except.ok.inj hlookup
        | some lo =>
            rw [hlo] at hlookup
            dsimp only at hlookup ⊢
            rw [if_neg hexact]
            split at hlookup
            · cases hlookup
            · exact Except.ok.inj hlookup
  | nil =>
      rw [hbehind] at hlookup
      cases hlo : (track.before t).getLast? with
      | none =>
          rw [hlo] at hlookup
          cases hlookup
      | some last =>
          rw [hlo] at hlookup
          dsimp only at hlookup
          cases final with
          | false => cases hlookup
          | true =>
              -- The answer is held at the last entry, which is given only behind the end of the
              -- stream.
              obtain rfl := hfuture rfl
              obtain ⟨hbeforeAll, hbehindAll⟩ := @split_window _ _ _ _ [] hlost' (.inr rfl)
              change (lost ++ track ++ []).before t = lost ++ track.before t at hbeforeAll
              change (lost ++ track ++ []).behind t = track.behind t ++ [] at hbehindAll
              rw [hbeforeAll, hbehindAll, hlast, hbehind, hlo]
              change some (bindEntry last.2 t true) = some exp
              rw [if_pos rfl] at hlookup
              split at hlookup
              · cases hlookup
              · exact Except.ok.inj hlookup

/-- An entry with a stamp is found there. -/
theorem at_of_mem {flo : Floating φ} {track : Track φ} (htrack : InOrder Prod.fst track) {t : ℤ}
    {entry : ExposureEntry φ} (hmem : (t, entry) ∈ track) :
    track.at? flo t = some (bindEntry entry t false) := by
  obtain ⟨lost, others, rfl⟩ := List.append_of_mem hmem
  obtain ⟨-, hothers, hcross⟩ := List.pairwise_append.mp htrack
  have hlost : ∀ a ∈ lost, decide (a.1 < t) = true := by
    intro a ha
    exact decide_eq_true (hcross a ha _ (List.mem_cons_self ..))
  have hbehind : Track.behind (lost ++ (t, entry) :: others) t = (t, entry) :: others := by
    unfold Track.behind
    rw [List.dropWhile_append_of_pos hlost, List.dropWhile_cons_of_neg (by simp)]
  unfold Track.at?
  rw [hbehind]
  cases (Track.before (lost ++ (t, entry) :: others) t).getLast? with
  | none => simp
  | some lo => simp

/-! ## Draining the pending elements -/

/-- What becomes of an element: a camera's frame gets the exposure that its track gives it. -/
def Carries (cfg : JoinConfig Img φ) (full : Topic → Track φ)
    (el out : Element Topic (Payload Img D φ)) : Prop :=
  if cfg.isCameraFrame el then
    ∃ exp, (full el.topic).at? cfg.floating el.tNs = some exp ∧ out = JoinConfig.withExposure exp el
  else out = el

/-- What is ready was joined with an entry of the track. -/
def ReadySound (full : Topic → Track φ) (ready : Ready φ) : Prop :=
  ∀ cam t exp, ready (cam, t) = some exp →
    ∃ entry, (t, entry) ∈ full cam ∧ exp = bindEntry entry t false

/-- A window of a track that the elements do not need the front of. -/
def Windows (track full future : Track φ) (els : List (Element Topic (Payload Img D φ))) : Prop :=
  ∃ lost, full = lost ++ track ++ future ∧
    (lost ≠ [] → ∃ first others, track = first :: others ∧ ∀ el ∈ els, first.1 < el.tNs)

theorem Windows.mono {track full future : Track φ}
    {els els' : List (Element Topic (Payload Img D φ))}
    (hwindows : Windows track full future els) (hsubset : els' ⊆ els) :
    Windows track full future els' := by
  obtain ⟨lost, hfull, hhead⟩ := hwindows
  refine ⟨lost, hfull, ?_⟩
  intro hlost
  obtain ⟨first, others, htrack, hfirst⟩ := hhead hlost
  exact ⟨first, others, htrack, fun el hel => hfirst el (hsubset hel)⟩

theorem isCameraFrame_mem {cfg : JoinConfig Img φ} {el : Element Topic (Payload Img D φ)}
    (hframe : cfg.isCameraFrame el = true) : el.topic ∈ cfg.cameras := by
  unfold JoinConfig.isCameraFrame at hframe
  cases hvalue : el.value with
  | frame image exposure =>
      rw [hvalue] at hframe
      exact of_decide_eq_true hframe
  | record msg data =>
      rw [hvalue] at hframe
      cases hframe
  | other data =>
      rw [hvalue] at hframe
      cases hframe

/-- A lookup in a window of a camera's track. -/
theorem Windows.lookup {cfg : JoinConfig Img φ} {track full future : Track φ}
    {els : List (Element Topic (Payload Img D φ))} {el : Element Topic (Payload Img D φ)}
    {final : Bool} {exp : FrameExposure φ} (hfull : InOrder Prod.fst full)
    (hwindows : Windows track full future els) (hel : el ∈ els)
    (hfuture : final = true → future = [])
    (hlookup : cfg.lookup track el.topic el.tNs final = .ok (some exp)) :
    full.at? cfg.floating el.tNs = some exp := by
  obtain ⟨lost, rfl, hhead⟩ := hwindows
  apply lookup_at _ _ hfuture hlookup
  · intro entry hentry
    obtain ⟨first, others, htrack, hfirst⟩ := hhead (List.ne_nil_of_mem hentry)
    obtain ⟨hpast, -, -⟩ := List.pairwise_append.mp hfull
    obtain ⟨-, -, hcross⟩ := List.pairwise_append.mp hpast
    have hlt : entry.1 < first.1 := by
      apply hcross entry hentry
      rw [htrack]
      exact List.mem_cons_self ..
    have hbound := hfirst el hel
    omega
  · intro hlost
    obtain ⟨first, others, htrack, hfirst⟩ := hhead hlost
    unfold Track.before
    simp [htrack, hfirst el hel]

section Drain

variable {cfg : JoinConfig Img φ} {full future : Topic → Track φ} {entries : Topic → Track φ}
  {ready : Ready φ} {final : Bool}

/-- What `exposure` finds is what the whole track gives. -/
theorem exposure_at {els : List (Element Topic (Payload Img D φ))}
    {el : Element Topic (Payload Img D φ)} {found : Option (FrameExposure φ)} {left : Ready φ}
    (hfull : InOrder Prod.fst (full el.topic))
    (hwindows : Windows (entries el.topic) (full el.topic) (future el.topic) els) (hel : el ∈ els)
    (hfuture : final = true → future el.topic = []) (hready : ReadySound full ready)
    (hexposure : cfg.exposure entries ready el.topic el.tNs final = .ok (found, left)) :
    ReadySound full left ∧
      ∀ exp, found = some exp → (full el.topic).at? cfg.floating el.tNs = some exp := by
  unfold JoinConfig.exposure at hexposure
  cases hjoined : ready (el.topic, el.tNs) with
  | some joined =>
      rw [hjoined] at hexposure
      obtain ⟨rfl, rfl⟩ := Prod.mk.inj (Except.ok.inj hexposure)
      constructor
      · intro cam t exp hexp
        by_cases hkey : (cam, t) = (el.topic, el.tNs)
        · rw [hkey, Function.update_self] at hexp
          cases hexp
        · rw [Function.update_of_ne hkey] at hexp
          exact hready cam t exp hexp
      · intro exp hexp
        obtain rfl := Option.some.inj hexp
        obtain ⟨entry, hentry, rfl⟩ := hready _ _ _ hjoined
        exact at_of_mem hfull hentry
  | none =>
      rw [hjoined] at hexposure
      cases hlookup : cfg.lookup (entries el.topic) el.topic el.tNs final with
      | error e =>
          rw [hlookup] at hexposure
          cases hexposure
      | ok answer =>
          rw [hlookup] at hexposure
          obtain ⟨rfl, rfl⟩ := Prod.mk.inj (Except.ok.inj hexposure)
          refine ⟨hready, ?_⟩
          intro exp hexp
          rw [hexp] at hlookup
          exact hwindows.lookup hfull hel hfuture hlookup

theorem drainPending_carries {watermark imageBytes : ℤ}
    {pending : List (Element Topic (Payload Img D φ))} {drained : JoinConfig.Drained Img D φ}
    (hfull : ∀ cam ∈ cfg.cameras, InOrder Prod.fst (full cam))
    (hwindows : ∀ cam ∈ cfg.cameras, Windows (entries cam) (full cam) (future cam) pending)
    (hfuture : final = true → ∀ cam ∈ cfg.cameras, future cam = [])
    (hready : ReadySound full ready)
    (hreturns : (cfg.drainPending entries watermark final ready imageBytes pending).Returns
      drained) :
    ∃ done, pending = done ++ drained.pending ∧
      List.Forall₂ (Carries cfg full) done
        (cfg.drainPending entries watermark final ready imageBytes pending).items ∧
      ReadySound full drained.ready ∧ (final = true → drained.pending = []) := by
  -- The drain stops at the first frame without an answer; what it yields in front of it has its
  -- exposure.
  induction pending generalizing ready imageBytes with
  | nil =>
      obtain rfl := Except.ok.inj hreturns
      exact ⟨[], rfl, .nil, hready, fun _ => rfl⟩
  | cons el rest ih =>
      have hrest : ∀ cam ∈ cfg.cameras, Windows (entries cam) (full cam) (future cam) rest :=
        fun cam hcam => (hwindows cam hcam).mono (List.subset_cons_self el rest)
      unfold JoinConfig.drainPending at hreturns ⊢
      by_cases hframe : cfg.isCameraFrame el = true
      · rw [if_pos hframe] at hreturns ⊢
        have hcam := isCameraFrame_mem hframe
        cases hexposure : cfg.exposure entries ready el.topic el.tNs final with
        | error e =>
            rw [hexposure] at hreturns
            cases hreturns
        | ok answer =>
            obtain ⟨found, left⟩ := answer
            obtain ⟨hleft, hat⟩ := exposure_at (hfull _ hcam) (hwindows _ hcam)
              (List.mem_cons_self ..) (fun hfinal => hfuture hfinal _ hcam) hready hexposure
            rw [hexposure] at hreturns
            cases found with
            | none =>
                dsimp only at hreturns ⊢
                split at hreturns
                · cases hreturns
                · rename_i hwaits
                  rw [if_neg hwaits]
                  obtain rfl := Except.ok.inj hreturns
                  refine ⟨[], rfl, .nil, hleft, ?_⟩
                  intro hfinal
                  simp [hfinal] at hwaits
            | some exp =>
                dsimp only at hreturns ⊢
                split at hreturns
                · rename_i hwaits
                  rw [if_pos hwaits]
                  obtain rfl := Except.ok.inj hreturns
                  refine ⟨[], rfl, .nil, hleft, ?_⟩
                  intro hfinal
                  simp [hfinal] at hwaits
                · rename_i hgoes
                  rw [if_neg hgoes]
                  obtain ⟨done, hdone, hcarries, hsound, hall⟩ := ih hrest hleft hreturns
                  refine ⟨el :: done, by rw [hdone, List.cons_append], .cons ?_ hcarries, hsound,
                    hall⟩
                  unfold Carries
                  rw [if_pos hframe]
                  exact ⟨exp, hat exp rfl, rfl⟩
      · rw [if_neg hframe] at hreturns ⊢
        obtain ⟨done, hdone, hcarries, hsound, hall⟩ := ih hrest hready hreturns
        refine ⟨el :: done, by rw [hdone, List.cons_append], .cons ?_ hcarries, hsound, hall⟩
        unfold Carries
        rw [if_neg hframe]

end Drain

/-! ## Pruning -/

/-- What is pruned lies behind an entry before the frontier. -/
theorem prune_spec (frontier : ℤ) (track : Track φ) :
    ∃ lost, track = lost ++ JoinConfig.prune frontier track ∧
      (lost ≠ [] → ∃ first others, JoinConfig.prune frontier track = first :: others ∧
        first.1 < frontier) := by
  induction track with
  | nil => exact ⟨[], rfl, fun hlost => absurd rfl hlost⟩
  | cons first rest ih =>
      match rest, ih with
      | [], _ => exact ⟨[], rfl, fun hlost => absurd rfl hlost⟩
      | [second], _ => exact ⟨[], rfl, fun hlost => absurd rfl hlost⟩
      | second :: third :: others, ih =>
          unfold JoinConfig.prune
          split
          · rename_i hbefore
            obtain ⟨lost, hsplit, hhead⟩ := ih
            refine ⟨first :: lost, by rw [List.cons_append, ← hsplit], fun _ => ?_⟩
            cases lost with
            | nil => exact ⟨second, third :: others, hsplit.symm, hbefore⟩
            | cons a lost => exact hhead (List.cons_ne_nil _ _)
          · exact ⟨[], rfl, fun hlost => absurd rfl hlost⟩

/-- A window stays one when it is pruned before everything that is still needed. -/
theorem Windows.prune {track full future : Track φ} {els : List (Element Topic (Payload Img D φ))}
    (hwindows : Windows track full future els) {frontier : ℤ}
    (hfrontier : ∀ el ∈ els, frontier ≤ el.tNs) :
    Windows (JoinConfig.prune frontier track) full future els := by
  obtain ⟨lost, hfull, hhead⟩ := hwindows
  obtain ⟨more, hsplit, hpruned⟩ := prune_spec frontier track
  refine ⟨lost ++ more, ?_, ?_⟩
  · rw [hfull, List.append_assoc lost more, ← hsplit]
  · intro hlost
    by_cases hmore : more = []
    · rw [hmore] at hsplit hlost
      rw [List.nil_append] at hsplit
      rw [← hsplit]
      exact hhead (by simpa using hlost)
    · obtain ⟨first, others, htrack, hbefore⟩ := hpruned hmore
      refine ⟨first, others, htrack, ?_⟩
      intro el hel
      have hbound := hfrontier el hel
      omega

/-! ## The rounds -/

/-- What a matcher holds of a camera's records has its entry in the track. -/
def Recorded (full : Topic → Track φ) (cam key : Topic) (el : Element Topic (Payload Img D φ)) :
    Prop :=
  key = infoTopic cam → ∃ msg data entry, el.value = .record msg data ∧
    parseFrameInfo cam el.tNs msg = .ok entry ∧ (el.tNs, entry) ∈ full cam

/-- The invariant of the loop, where `rest` is still to come. -/
structure Joining (cfg : JoinConfig Img φ) (full future : Topic → Track φ) (s : JoinState Img D φ)
    (rest : List (Element Topic (Payload Img D φ))) : Prop where
  windows : ∀ cam ∈ cfg.cameras,
    Windows (s.entries cam) (full cam) (future cam) (s.pending ++ rest)
  coming : ∀ cam ∈ cfg.cameras, indexedTrack cam rest = .ok (future cam)
  ready : ReadySound full s.ready
  matchers : ∀ cam ∈ cfg.cameras, ∀ key, ∀ el ∈ s.matchers cam key, Recorded full cam key el
  ordered : (s.pending ++ rest).Pairwise fun a b => a.tNs ≤ b.tNs

section Rounds

variable {cfg : JoinConfig Img φ} {full future : Topic → Track φ} {s s' : JoinState Img D φ}
  {rest : List (Element Topic (Payload Img D φ))} {el : Element Topic (Payload Img D φ)}

/-- A drain, and what it leaves. -/
theorem drain_joining {watermark : ℤ} {final : Bool}
    (hfull : ∀ cam ∈ cfg.cameras, InOrder Prod.fst (full cam))
    (hjoining : Joining cfg full future s rest) (hwatermark : ∀ el ∈ rest, watermark ≤ el.tNs)
    (hfinal : final = true → rest = [])
    (hreturns : (cfg.drain s watermark final).Returns s') :
    Joining cfg full future s' rest ∧
      ∃ done, s.pending = done ++ s'.pending ∧
        List.Forall₂ (Carries cfg full) done (cfg.drain s watermark final).items ∧
        (final = true → s'.pending = []) := by
  unfold JoinConfig.drain at hreturns ⊢
  obtain ⟨drained, hdrained, hlast⟩ := Gen.returns_andThen.mp hreturns
  obtain rfl := Except.ok.inj hlast
  have hfuture : final = true → ∀ cam ∈ cfg.cameras, future cam = [] := by
    intro hends cam hcam
    have hcoming := hjoining.coming cam hcam
    rw [hfinal hends] at hcoming
    exact (Except.ok.inj hcoming).symm
  have hpending : ∀ cam ∈ cfg.cameras,
      Windows (s.entries cam) (full cam) (future cam) s.pending := fun cam hcam =>
    (hjoining.windows cam hcam).mono (List.subset_append_left _ _)
  obtain ⟨done, hdone, hcarries, hready, hall⟩ :=
    drainPending_carries hfull hpending hfuture hjoining.ready hdrained
  have hordered := hjoining.ordered
  rw [hdone, List.append_assoc] at hordered
  have hleft := (List.pairwise_append.mp hordered).2.1
  refine ⟨⟨?_, hjoining.coming, hready, hjoining.matchers, hleft⟩, done, hdone, ?_, hall⟩
  · intro cam hcam
    have hwindows : Windows (s.entries cam) (full cam) (future cam) (drained.pending ++ rest) := by
      apply (hjoining.windows cam hcam).mono
      rw [hdone, List.append_assoc]
      exact List.subset_append_right _ _
    apply hwindows.prune
    intro el hel
    cases hfront : drained.pending with
    | nil =>
        rw [hfront] at hel
        exact hwatermark el hel
    | cons first others =>
        rw [hfront] at hel hleft
        rcases List.mem_cons.mp hel with rfl | hel
        · exact le_rfl
        · exact (List.pairwise_cons.mp hleft).1 el hel
  · rw [hdrained.andThen_eq]
    simpa using hcarries

theorem infoCamera_eq_some {topic cam : Topic} (hcamera : cfg.infoCamera topic = some cam) :
    cam ∈ cfg.cameras ∧ infoTopic cam = topic := by
  unfold JoinConfig.infoCamera at hcamera
  exact ⟨List.mem_of_find?_eq_some hcamera, by simpa using List.find?_some hcamera⟩

theorem infoCamera_eq_none {topic : Topic} (hcamera : cfg.infoCamera topic = none) :
    ∀ cam ∈ cfg.cameras, infoTopic cam ≠ topic := by
  intro cam hcam htopic
  unfold JoinConfig.infoCamera at hcamera
  simpa [htopic] using List.find?_eq_none.mp hcamera cam hcam

theorem infoTopic_injective {cam other : Topic} (heq : infoTopic cam = infoTopic other) :
    cam = other := List.append_cancel_right heq

theorem infoTopic_ne (cam : Topic) : cam ≠ infoTopic cam := by
  intro heq
  have hlengths := congrArg List.length heq
  simp [infoTopic, frameInfoSuffix] at hlengths

/-- The matcher's sets join frames and records of one stamp. -/
theorem markReady_sound {cam : Topic} {outcomes : List (Outcome Topic (Payload Img D φ))}
    {ready left : Ready φ} (hready : ReadySound full ready)
    (hsets : ∀ set, .matched set ∈ outcomes →
      (∀ a ∈ set.byTopic, Recorded full cam a.1 a.2.element) ∧
        ∀ a ∈ set.byTopic, ∀ b ∈ set.byTopic, a.2.element.tNs - b.2.element.tNs ≤ 0)
    (hmarked : JoinConfig.markReady cam outcomes ready = .ok left) : ReadySound full left := by
  induction outcomes generalizing ready with
  | nil =>
      obtain rfl := Except.ok.inj hmarked
      exact hready
  | cons outcome rest ih =>
      have hrest : ∀ set, .matched set ∈ rest →
          (∀ a ∈ set.byTopic, Recorded full cam a.1 a.2.element) ∧
            ∀ a ∈ set.byTopic, ∀ b ∈ set.byTopic, a.2.element.tNs - b.2.element.tNs ≤ 0 :=
        fun set hset => hsets set (List.mem_cons_of_mem _ hset)
      cases outcome with
      | dropped el => exact ih hready hrest hmarked
      | matched set =>
          obtain ⟨hrecorded, hclose⟩ := hsets set (List.mem_cons_self ..)
          unfold JoinConfig.markReady at hmarked
          cases hframe : JoinConfig.memberAt set cam with
          | none =>
              rw [hframe] at hmarked
              exact ih hready hrest hmarked
          | some frame =>
              cases hrecord : JoinConfig.memberAt set (infoTopic cam) with
              | none =>
                  rw [hframe, hrecord] at hmarked
                  exact ih hready hrest hmarked
              | some record =>
                  rw [hframe, hrecord] at hmarked
                  obtain ⟨a, ha, rfl⟩ := Option.map_eq_some_iff.mp hframe
                  obtain ⟨b, hb, rfl⟩ := Option.map_eq_some_iff.mp hrecord
                  have hamem := List.mem_of_find?_eq_some ha
                  have hbmem := List.mem_of_find?_eq_some hb
                  have hbkey : b.1 = infoTopic cam := by simpa using List.find?_some hb
                  obtain ⟨msg, data, entry, hvalue, hparse, hentry⟩ := hrecorded b hbmem hbkey
                  simp only [hvalue, hparse] at hmarked
                  refine ih ?_ hrest hmarked
                  have hstamp : b.2.element.tNs = a.2.element.tNs := by
                    have hfirst := hclose a hamem b hbmem
                    have hsecond := hclose b hbmem a hamem
                    omega
                  intro other t exp hexp
                  by_cases hkey : (other, t) = (cam, a.2.element.tNs)
                  · rw [hkey, Function.update_self] at hexp
                    obtain rfl := Option.some.inj hexp
                    obtain ⟨rfl, rfl⟩ := Prod.mk.inj hkey
                    exact ⟨entry, hstamp ▸ hentry, rfl⟩
                  · rw [Function.update_of_ne hkey] at hexp
                    exact hready other t exp hexp

/-- What the matcher is told. -/
theorem tell_joining {cam : Topic} {identity : Element Topic (Payload Img D φ)}
    (htold : JoinConfig.tell s cam identity = .ok s') (hready : ReadySound full s.ready)
    (hmatchers : ∀ cam ∈ cfg.cameras, ∀ key, ∀ el ∈ s.matchers cam key, Recorded full cam key el)
    (hcam : cam ∈ cfg.cameras) (hidentity : Recorded full cam identity.topic identity) :
    ReadySound full s'.ready ∧
      (∀ cam ∈ cfg.cameras, ∀ key, ∀ el ∈ s'.matchers cam key, Recorded full cam key el) ∧
      s'.entries = s.entries ∧ s'.pending = s.pending ∧ s'.imageBytes = s.imageBytes := by
  unfold JoinConfig.tell at htold
  obtain ⟨hheld, hsets⟩ :=
    StreamMatcher.push_members (matcherConfig cam) (hmatchers cam hcam) hidentity
  dsimp only at htold
  cases hmarked : JoinConfig.markReady cam
      (StreamMatcher.push (matcherConfig cam) (s.matchers cam) identity).1 s.ready with
  | error e =>
      rw [hmarked] at htold
      cases htold
  | ok left =>
      rw [hmarked] at htold
      obtain rfl := Except.ok.inj htold
      refine ⟨markReady_sound hready hsets hmarked, ?_, rfl, rfl, rfl⟩
      intro other hother key el hel
      by_cases hsame : other = cam
      · subst hsame
        dsimp only at hel
        rw [Function.update_self] at hel
        exact hheld key el hel
      · dsimp only at hel
        rw [Function.update_of_ne hsame] at hel
        exact hmatchers other hother key el hel

/-- A record that is not of a camera is not in any track. -/
theorem entryOf_eq_none {cam : Topic} (hother : infoTopic cam ≠ el.topic) :
    entryOf cam el = none := by
  unfold entryOf
  cases el.value with
  | frame image exposure => rfl
  | record msg data => exact if_neg (Ne.symm hother)
  | other data => rfl

/-- The track grows at its end. -/
theorem insertEntry_eq {track grown : Track φ} {cam : Topic} {tNs : ℤ}
    {msg : Option (CameraFrameInfo φ)} (hlast : ∀ entry ∈ track, entry.1 < tNs)
    (hinserted : JoinConfig.insertEntry track cam tNs msg = .ok grown) :
    ∃ entry, parseFrameInfo cam tNs msg = .ok entry ∧ grown = track ++ [(tNs, entry)] := by
  have hall : ∀ entry ∈ track, decide (entry.1 < tNs) = true := by
    intro entry hentry
    exact decide_eq_true (hlast entry hentry)
  have hbehind : track.behind tNs = [] := List.dropWhile_eq_nil_iff.mpr hall
  have hbefore : track.before tNs = track := List.takeWhile_eq_self_iff.mpr hall
  unfold JoinConfig.insertEntry at hinserted
  rw [hbehind, hbefore] at hinserted
  cases hparse : parseFrameInfo cam tNs msg with
  | error e =>
      rw [hparse] at hinserted
      cases hinserted
  | ok entry =>
      rw [hparse] at hinserted
      exact ⟨entry, rfl, (Except.ok.inj hinserted).symm⟩

/-- Whatever an element is, the windows of the other cameras' tracks stay as they are. -/
theorem Joining.skip {cam : Topic} (hjoining : Joining cfg full future s (el :: rest))
    (hcam : cam ∈ cfg.cameras) (hother : entryOf cam el = none)
    {pending : List (Element Topic (Payload Img D φ))} (hpending : pending ⊆ s.pending ++ [el]) :
    Windows (s.entries cam) (full cam) (future cam) (pending ++ rest) ∧
      indexedTrack cam rest = .ok (future cam) := by
  constructor
  · apply (hjoining.windows cam hcam).mono
    intro x hx
    rcases List.mem_append.mp hx with hx | hx
    · have hin := hpending hx
      simp only [List.mem_append, List.mem_singleton] at hin
      rcases hin with hin | rfl
      · exact List.mem_append_left _ hin
      · exact List.mem_append_right _ (List.mem_cons_self ..)
    · exact List.mem_append_right _ (List.mem_cons_of_mem _ hx)
  · rw [← indexedTrack_cons_none hother rest]
    exact hjoining.coming cam hcam

/-- An element is taken in: the window of its camera's track gets one entry longer. -/
theorem absorb_joining (hfull : ∀ cam ∈ cfg.cameras, InOrder Prod.fst (full cam))
    (hjoining : Joining cfg full future s (el :: rest)) (habsorbed : cfg.absorb s el = .ok s') :
    s'.pending = s.pending ∧ s'.imageBytes = s.imageBytes ∧
      ∃ future', ∀ pending imageBytes, pending.Sublist (s.pending ++ [el]) →
        Joining cfg full future' { s' with pending := pending, imageBytes := imageBytes } rest := by
  have hordered : ∀ pending : List (Element Topic (Payload Img D φ)),
      pending.Sublist (s.pending ++ [el]) →
        (pending ++ rest).Pairwise fun a b => a.tNs ≤ b.tNs := by
    intro pending hpending
    have hsublist : (pending ++ rest).Sublist (s.pending ++ el :: rest) := by
      rw [show s.pending ++ el :: rest = (s.pending ++ [el]) ++ rest by simp]
      exact hpending.append (List.Sublist.refl _)
    exact List.Pairwise.sublist hsublist hjoining.ordered
  unfold JoinConfig.absorb at habsorbed
  split at habsorbed
  · rename_i cam msg data hcamera hvalue
    obtain ⟨hcam, htopic⟩ := infoCamera_eq_some hcamera
    cases hinserted : JoinConfig.insertEntry (s.entries cam) cam el.tNs msg with
    | error e =>
        rw [hinserted] at habsorbed
        cases habsorbed
    | ok grown =>
        rw [hinserted] at habsorbed
        dsimp only at habsorbed
        have hentry : entryOf cam el = some (parseFrameInfo cam el.tNs msg) := by
          unfold entryOf
          rw [hvalue]
          exact if_pos htopic.symm
        -- the next entry of the recording's track is this one
        have hnext : ∃ entry others, parseFrameInfo cam el.tNs msg = .ok entry ∧
            future cam = (el.tNs, entry) :: others ∧ indexedTrack cam rest = .ok others := by
          have hcoming := hjoining.coming cam hcam
          cases hparse : parseFrameInfo cam el.tNs msg with
          | error e => simp [indexedTrack, hentry, hparse] at hcoming
          | ok entry =>
              cases hrest : indexedTrack cam rest with
              | error e =>
                  simp only [indexedTrack, hentry, hparse, hrest] at hcoming
                  cases hcoming
              | ok others =>
                  rw [hparse] at hentry
                  rw [indexedTrack_cons_some hentry hrest] at hcoming
                  exact ⟨entry, others, rfl, (Except.ok.inj hcoming).symm, rfl⟩
        obtain ⟨entry, others, hparse, hfuture, hothers⟩ := hnext
        obtain ⟨lost, hsplit, hhead⟩ := hjoining.windows cam hcam
        rw [hfuture] at hsplit
        have hlast : ∀ old ∈ s.entries cam, old.1 < el.tNs := by
          intro old hold
          have horder := hfull cam hcam
          rw [hsplit] at horder
          exact (List.pairwise_append.mp horder).2.2 old (List.mem_append_right _ hold) _
            (List.mem_cons_self ..)
        obtain ⟨entry', hparse', rfl⟩ := insertEntry_eq hlast hinserted
        obtain rfl : entry = entry' := Except.ok.inj (hparse.symm.trans hparse')
        have hmember : (el.tNs, entry) ∈ full cam := by
          rw [hsplit]
          exact List.mem_append_right _ (List.mem_cons_self ..)
        obtain ⟨hready, hmatchers, hentries, hpending, hbytes⟩ :=
          tell_joining habsorbed hjoining.ready hjoining.matchers hcam
            fun _ => ⟨msg, data, entry, hvalue, hparse, hmember⟩
        refine ⟨hpending, hbytes, Function.update future cam others, ?_⟩
        intro pending imageBytes hsublist
        refine ⟨?_, ?_, hready, hmatchers, hordered pending hsublist⟩
        · intro camera hcamera'
          dsimp only
          rw [hentries]
          dsimp only
          by_cases hsame : camera = cam
          · subst hsame
            rw [Function.update_self, Function.update_self]
            refine ⟨lost, by rw [hsplit]; simp, ?_⟩
            intro hlost
            obtain ⟨first, older, htrack, hfirst⟩ := hhead hlost
            refine ⟨first, older ++ [(el.tNs, entry)], by rw [htrack]; rfl, ?_⟩
            intro x hx
            apply hfirst
            rcases List.mem_append.mp hx with hx | hx
            · have hin := hsublist.subset hx
              simp only [List.mem_append, List.mem_singleton] at hin
              rcases hin with hin | rfl
              · exact List.mem_append_left _ hin
              · exact List.mem_append_right _ (List.mem_cons_self ..)
            · exact List.mem_append_right _ (List.mem_cons_of_mem _ hx)
          · rw [Function.update_of_ne hsame, Function.update_of_ne hsame]
            have hother : entryOf camera el = none := by
              apply entryOf_eq_none
              rw [← htopic]
              exact fun heq => hsame (infoTopic_injective heq)
            exact (hjoining.skip hcamera' hother hsublist.subset).1
        · intro camera hcamera'
          by_cases hsame : camera = cam
          · subst hsame
            rw [Function.update_self]
            exact hothers
          · rw [Function.update_of_ne hsame]
            have hother : entryOf camera el = none := by
              apply entryOf_eq_none
              rw [← htopic]
              exact fun heq => hsame (infoTopic_injective heq)
            exact (hjoining.skip hcamera' hother hsublist.subset).2
  · rename_i hnoRecord
    have hother : ∀ cam ∈ cfg.cameras, entryOf cam el = none := by
      intro cam hcam
      cases hvalue : el.value with
      | frame image exposure => simp only [entryOf, hvalue]
      | other data => simp only [entryOf, hvalue]
      | record msg data =>
          cases hcamera : cfg.infoCamera el.topic with
          | some other => exact absurd hvalue (hnoRecord other msg data hcamera)
          | none => exact entryOf_eq_none (infoCamera_eq_none hcamera cam hcam)
    have hskips : ∀ (s' : JoinState Img D φ), s'.entries = s.entries → ReadySound full s'.ready →
        (∀ cam ∈ cfg.cameras, ∀ key, ∀ el ∈ s'.matchers cam key, Recorded full cam key el) →
        ∀ pending imageBytes, pending.Sublist (s.pending ++ [el]) →
          Joining cfg full future { s' with pending := pending, imageBytes := imageBytes }
            rest := by
      intro s' hentries hready hmatchers pending imageBytes hsublist
      refine ⟨?_, ?_, hready, hmatchers, hordered pending hsublist⟩
      · intro cam hcam
        dsimp only
        rw [hentries]
        exact (hjoining.skip hcam (hother cam hcam) hsublist.subset).1
      · intro cam hcam
        exact (hjoining.skip hcam (hother cam hcam) (List.Sublist.refl _).subset).2
    split at habsorbed
    · rename_i hframe
      have hidentity : Recorded full el.topic el.topic
          { el with value := (.record none none : Payload Img D φ) } := by
        intro heq
        exact absurd heq (infoTopic_ne el.topic)
      obtain ⟨hready, hmatchers, hentries, hpending, hbytes⟩ :=
        tell_joining habsorbed hjoining.ready hjoining.matchers (isCameraFrame_mem hframe)
          hidentity
      exact ⟨hpending, hbytes, future, hskips s' hentries hready hmatchers⟩
    · obtain rfl := Except.ok.inj habsorbed
      exact ⟨rfl, rfl, future, hskips s rfl hjoining.ready hjoining.matchers⟩

/-- One round: what it yields is what leaves the pending elements. -/
theorem round_joining (hfull : ∀ cam ∈ cfg.cameras, InOrder Prod.fst (full cam))
    (hjoining : Joining cfg full future s (el :: rest)) (hreturns : (cfg.round s el).Returns s') :
    (∃ future', Joining cfg full future' s' rest) ∧
      ∃ done, s.pending ++ (if cfg.emitted el then [el] else []) = done ++ s'.pending ∧
        List.Forall₂ (Carries cfg full) done (cfg.round s el).items := by
  have hwatermark : ∀ x ∈ rest, el.tNs ≤ x.tNs :=
    (List.pairwise_cons.mp (List.pairwise_append.mp hjoining.ordered).2.1).1
  unfold JoinConfig.round at hreturns ⊢
  cases habsorbed : cfg.absorb s el with
  | error e =>
      rw [habsorbed] at hreturns
      cases hreturns
  | ok taken =>
      obtain ⟨hpending, -, future', hjoins⟩ := absorb_joining hfull hjoining habsorbed
      rw [habsorbed] at hreturns
      dsimp only at hreturns ⊢
      have hround : ∀ (t : JoinState Img D φ), Joining cfg full future' t rest →
          ((cfg.drain t el.tNs false).andThen fun s =>
            if cfg.maxFrameBytes < s.imageBytes then .raise .pendingImageBytes
            else .done s).Returns s' →
          Joining cfg full future' s' rest ∧ ∃ done, t.pending = done ++ s'.pending ∧
            List.Forall₂ (Carries cfg full) done
              ((cfg.drain t el.tNs false).andThen fun s =>
                if cfg.maxFrameBytes < s.imageBytes then .raise .pendingImageBytes
                else (.done s : Gen (Element Topic (Payload Img D φ)) _ _)).items := by
        intro t hjoin hreturned
        obtain ⟨drained, hdrained, hlast⟩ := Gen.returns_andThen.mp hreturned
        split at hlast
        · cases hlast
        · rename_i hbytes
          obtain rfl := Except.ok.inj hlast
          obtain ⟨hjoined, done, hdone, hcarries, -⟩ :=
            drain_joining hfull hjoin hwatermark (fun hfinal => by cases hfinal) hdrained
          refine ⟨hjoined, done, hdone, ?_⟩
          rw [hdrained.andThen_eq, if_neg hbytes]
          simpa using hcarries
      by_cases hemitted : cfg.emitted el = true
      · rw [if_pos hemitted] at hreturns ⊢
        have hjoin := hjoins (taken.pending ++ [el]) (taken.imageBytes + cfg.imageBytesOf el)
          (by rw [hpending])
        obtain ⟨hjoined, done, hdone, hcarries⟩ := hround _ hjoin hreturns
        refine ⟨⟨future', hjoined⟩, done, ?_, ?_⟩
        · rw [← hdone, ← hpending]
        · rw [if_pos hemitted]
          exact hcarries
      · rw [if_neg hemitted] at hreturns ⊢
        have hjoin := hjoins taken.pending taken.imageBytes
          (by rw [hpending]; exact List.sublist_append_left _ _)
        obtain ⟨hjoined, done, hdone, hcarries⟩ := hround _ hjoin hreturns
        refine ⟨⟨future', hjoined⟩, done, ?_, ?_⟩
        · rw [List.append_nil, ← hdone, hpending]
        · rw [if_neg hemitted]
          exact hcarries

/-- The rounds of a whole stream. -/
theorem each_joining {stream : List (Element Topic (Payload Img D φ))}
    (hfull : ∀ cam ∈ cfg.cameras, InOrder Prod.fst (full cam))
    (hjoining : Joining cfg full future s stream)
    (hreturns : (Gen.each cfg.round s stream).Returns s') :
    (∃ future', Joining cfg full future' s' []) ∧
      ∃ done, s.pending ++ stream.filter cfg.emitted = done ++ s'.pending ∧
        List.Forall₂ (Carries cfg full) done (Gen.each cfg.round s stream).items := by
  induction stream generalizing s future with
  | nil =>
      obtain rfl := Except.ok.inj hreturns
      exact ⟨⟨future, hjoining⟩, [], by simp, .nil⟩
  | cons el rest ih =>
      rw [Gen.each_cons] at hreturns ⊢
      obtain ⟨next, hnext, hrest⟩ := Gen.returns_andThen.mp hreturns
      obtain ⟨⟨future', hjoined⟩, done, hdone, hcarries⟩ := round_joining hfull hjoining hnext
      obtain ⟨hlast, more, hmore, hothers⟩ := ih hjoined hrest
      refine ⟨hlast, done ++ more, ?_, ?_⟩
      · calc s.pending ++ (el :: rest).filter cfg.emitted
            = s.pending ++ (if cfg.emitted el then [el] else []) ++ rest.filter cfg.emitted := by
              rw [List.filter_cons, List.append_assoc]
              split <;> rfl
          _ = done ++ (next.pending ++ rest.filter cfg.emitted) := by
              rw [hdone, List.append_assoc]
          _ = done ++ more ++ s'.pending := by
              rw [hmore, List.append_assoc]
      · rw [hnext.andThen_eq]
        exact List.rel_append hcarries hothers

/-- A stream that is joined to its end has an entry for every record of a camera. -/
theorem indexedTrack_of_returns {stream : List (Element Topic (Payload Img D φ))}
    (hreturns : (Gen.each cfg.round s stream).Returns s') {cam : Topic} (hcam : cam ∈ cfg.cameras) :
    ∃ track, indexedTrack cam stream = .ok track := by
  induction stream generalizing s with
  | nil => exact ⟨[], rfl⟩
  | cons el rest ih =>
      rw [Gen.each_cons] at hreturns
      obtain ⟨next, hnext, hrest⟩ := Gen.returns_andThen.mp hreturns
      obtain ⟨track, htrack⟩ := ih hrest
      cases hentry : entryOf cam el with
      | none => exact ⟨track, by rw [indexedTrack_cons_none hentry, htrack]⟩
      | some parsed =>
          cases parsed with
          | ok entry => exact ⟨_, indexedTrack_cons_some hentry htrack⟩
          | error e =>
              exfalso
              unfold entryOf at hentry
              cases hvalue : el.value with
              | frame image exposure => simp [hvalue] at hentry
              | other data => simp [hvalue] at hentry
              | record msg data =>
                  rw [hvalue] at hentry
                  dsimp only at hentry
                  split at hentry
                  · rename_i htopic
                    have hparse : parseFrameInfo cam el.tNs msg = .error e := Option.some.inj hentry
                    have hcamera : cfg.infoCamera el.topic = some cam := by
                      cases hfound : cfg.infoCamera el.topic with
                      | none => exact absurd htopic.symm (infoCamera_eq_none hfound cam hcam)
                      | some other =>
                          have hsame := (infoCamera_eq_some hfound).2.trans htopic
                          rw [infoTopic_injective hsame]
                    unfold JoinConfig.round at hnext
                    cases habsorbed : cfg.absorb s el with
                    | error e =>
                        rw [habsorbed] at hnext
                        cases hnext
                    | ok taken =>
                        unfold JoinConfig.absorb JoinConfig.insertEntry at habsorbed
                        rw [hcamera, hvalue] at habsorbed
                        dsimp only at habsorbed
                        rw [hparse] at habsorbed
                        cases hbehind : (s.entries cam).behind el.tNs with
                        | nil =>
                            rw [hbehind] at habsorbed
                            cases habsorbed
                        | cons hi others =>
                            rw [hbehind] at habsorbed
                            dsimp only at habsorbed
                            split at habsorbed
                            · cases habsorbed
                            · rename_i hinserted
                              split at hinserted
                              · cases hinserted
                              · cases hinserted
                  · cases hentry

end Rounds

/-- If the join of a stream in order of time, in which no camera has two entries of one stamp, goes
through, then it yields the stream in its order but for the `frame_info` topics that are not asked
for, and every frame of a camera carries what the camera's whole track gives it. -/
theorem joinExposure_indexed {cfg : JoinConfig Img φ}
    {stream : List (Element Topic (Payload Img D φ))} {s : JoinState Img D φ}
    (hordered : stream.Pairwise fun a b => a.tNs ≤ b.tNs)
    (hdistinct : ∀ cam ∈ cfg.cameras, (infoStamps cam stream).Nodup)
    (hreturns : (cfg.joinExposure stream).Returns s) :
    ∃ full : Topic → Track φ,
      (∀ cam ∈ cfg.cameras, indexedTrack cam stream = .ok (full cam)) ∧
        List.Forall₂ (Carries cfg full) (stream.filter cfg.emitted)
          (cfg.joinExposure stream).items := by
  unfold JoinConfig.joinExposure at hreturns ⊢
  obtain ⟨joined, heach, hlast⟩ := Gen.returns_andThen.mp hreturns
  have hindexed : ∀ cam, ∃ track, cam ∈ cfg.cameras → indexedTrack cam stream = .ok track := by
    intro cam
    by_cases hcam : cam ∈ cfg.cameras
    · obtain ⟨track, htrack⟩ := indexedTrack_of_returns heach hcam
      exact ⟨track, fun _ => htrack⟩
    · exact ⟨[], fun hmem => absurd hmem hcam⟩
  choose full hfullTrack using hindexed
  have hfull : ∀ cam ∈ cfg.cameras, InOrder Prod.fst (full cam) := by
    intro cam hcam
    exact indexedTrack_inOrder hordered (hdistinct cam hcam) (hfullTrack cam hcam)
  have hinitial : Joining cfg full full JoinConfig.initial stream := by
    refine ⟨?_, hfullTrack, ?_, ?_, hordered⟩
    · intro cam hcam
      exact ⟨[], rfl, fun hlost => absurd rfl hlost⟩
    · intro cam t exp hexp
      cases hexp
    · intro cam hcam key el hel
      cases hel
  obtain ⟨⟨future, hjoined⟩, done, hdone, hcarries⟩ := each_joining hfull hinitial heach
  obtain ⟨-, more, hmore, hothers, hend⟩ :=
    drain_joining hfull hjoined (fun el hel => by cases hel) (fun _ => rfl) hlast
  refine ⟨full, hfullTrack, ?_⟩
  have hall : stream.filter cfg.emitted = done ++ more := by
    calc stream.filter cfg.emitted = done ++ joined.pending := hdone
      _ = done ++ more := by rw [hmore, hend rfl, List.append_nil]
  rw [hall, heach.andThen_eq]
  exact List.rel_append hcarries hothers

/-- Exact arithmetic, as floats do it on halves of small integers. -/
def exactFloats : Floating Rat where
  ofInt := Rat.ofInt
  add := Rat.add
  sub := Rat.sub
  mul := Rat.mul
  div := Rat.div
  atLeastHalf w := !w.blt (mkRat 1 2)
  round w := w.num / w.den

def oneCamera : JoinConfig Unit Rat where
  cameras := [['c']]
  emitTopics := []
  maxGapNs := 1000
  maxFrameBytes := 1000
  nbytes := fun _ => 10
  floating := exactFloats

/-- A frame before the first entry, one at an entry that comes later, one between two entries, and
one behind the last. -/
def fourFrames : List (Element Topic (Payload Unit Unit Rat)) :=
  [⟨['c'], 0, .frame () none⟩, ⟨['c'], 10, .frame () none⟩,
    ⟨infoTopic ['c'], 10, .record (some ⟨4, -2, 1, 0, 0⟩) none⟩, ⟨['c'], 20, .frame () none⟩,
    ⟨['i', 'm', 'u'], 20, .other ()⟩,
    ⟨infoTopic ['c'], 30, .record (some ⟨8, -4, 2, 0, 0⟩) none⟩, ⟨['c'], 40, .frame () none⟩]

/-- The exposures of the frames that are yielded. -/
def exposuresOf (els : List (Element Topic (Payload Unit Unit Rat))) :
    List (ℤ × Option (FrameExposure Rat)) :=
  els.filterMap fun el =>
    match el.value with
    | .frame _ exposure => some (el.tNs, exposure)
    | .record _ _ => none
    | .other _ => none

theorem joinExposure_indexed_four :
    exposuresOf (oneCamera.joinExposure fourFrames).items =
        [(0, some ⟨4000, -2000, 1, 0, .unspecified, true⟩),
          (10, some ⟨4000, -1990, 1, 0, .unspecified, false⟩),
          (20, some ⟨6000, -2980, mkRat 3 2, 0, .unspecified, true⟩),
          (40, some ⟨8000, -3960, 2, 0, .unspecified, true⟩)] ∧
      ∃ full : Topic → Track Rat,
        (∀ cam ∈ oneCamera.cameras, indexedTrack cam fourFrames = .ok (full cam)) ∧
          List.Forall₂ (Carries oneCamera full) (fourFrames.filter oneCamera.emitted)
            (oneCamera.joinExposure fourFrames).items := by
  refine ⟨by decide +kernel, ?_⟩
  have hreturns : (oneCamera.joinExposure fourFrames).result.isOk = true := by decide +kernel
  cases hresult : (oneCamera.joinExposure fourFrames).result with
  | error e =>
      rw [hresult] at hreturns
      cases hreturns
  | ok s =>
      exact joinExposure_indexed (by unfold fourFrames; decide) (by decide) hresult

end VisioSchema.Reader

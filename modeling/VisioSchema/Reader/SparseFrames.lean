import VisioSchema.Reader.KeyframeStream
import VisioSchema.Reader.Windows

/-!
# Sparse keyframes are frames of the stream

Whatever access units came before, the decoder of a pass makes of a keyframe what one of its own
would (`iterMessage_keys`).  A pass reads every file that its window meets in full, so that the
frames of `keyframe_stream` are among those of `stream` over the same window
(`keyframeStream_subperm`).

## Strategy

Both sides are compared with the pictures that fresh decoders make of the keyframes of a window.

* **The stream.**  Message by message, then file by file and chain by chain, what a pass yields
  contains those pictures, in order (`each_keys`, `iterFile_keys`, `oneStream_keys`).  The
  invariant is about decoders: each was made for its camera and can begin anew (`CarriedMade`).
* **`keyframe_stream`** yields some of them, in order (`keyframeStream_sublist`).

The stream merges its files by arrival and reorders, while `Session._files` is ordered by time,
so the two sides meet up to order only (`filePictures_subperm`).
-/

namespace VisioSchema.Reader

open VisioSchema.Library VisioSchema.Wire

variable {D Ctx Img V φ ε : Type*}

namespace Session

variable {s : Session D} {backend : Backend D Ctx Img V ε} {topic : Topic} {q : Query}

/-! ## A message -/

/-- The pictures of the keyframes among some messages that a pass decodes. -/
def keysOf (s : Session D) (backend : Backend D Ctx Img V ε) (rawSet : List Topic) (topic : Topic)
    (messages : List (Message D)) : List (Message D) :=
  messages.filter fun m => s.isUnitOf rawSet topic m && keyOf backend m = some true

/-- The decoder of a camera was made for it, whichever message of whichever camera comes. -/
theorem videoMessage_keys (hrestarts : backend.av.Restarts) {carry : Bool} {other : Topic}
    {m : Message D} {pass next : Pass Ctx D}
    (hmade : (pass.carried.camera topic).Made backend.av)
    (hreturns : (videoMessage backend carry other m pass).Returns next) :
    (next.carried.camera topic).Made backend.av ∧
      (other = topic → keyOf backend m = some true →
        (videoMessage backend carry other m pass).items.map Triple.element =
          keyPicture backend topic m) := by
  unfold videoMessage at hreturns ⊢
  cases hdecoded : decodeUnit backend carry other m (pass.carried.sequences other)
      (pass.carried.decoders other) with
  | error e =>
      simp only [hdecoded] at hreturns
      cases hreturns
  | ok decoded =>
      obtain ⟨items, decoder⟩ := decoded
      simp only [hdecoded] at hreturns ⊢
      cases hreturns
      by_cases hsame : other = topic
      · subst hsame
        unfold decodeUnit at hdecoded
        cases hparse : backend.parseVideo m.data with
        | error e =>
            simp only [hparse] at hdecoded
            cases hdecoded
        | ok video =>
            simp only [hparse] at hdecoded
            generalize hfound : (if carry && sequenceGap (pass.carried.sequences other) m.sequence
              then none else pass.carried.decoders other) = found at hdecoded
            have hfoundMade : ∀ dec, found = some dec → dec.Made backend.av := by
              intro dec hdec
              rw [← hfound] at hdec
              split at hdec
              next => cases hdec
              next => exact hmade dec hdec
            cases hemit : (emitVideo backend.av carry video found :
                Except (ReadError ε) (Option Img × Option (Decoding Ctx))) with
            | error e =>
                simp only [hemit] at hdecoded
                cases hdecoded
            | ok emitted =>
                obtain ⟨image, after⟩ := emitted
                simp only [hemit] at hdecoded
                cases hdecoded
                refine ⟨?_, fun _ hkey => ?_⟩
                · intro dec hdec
                  simp only [Carried.camera, Function.update_self] at hdec
                  exact emitVideo_made hfoundMade hemit dec hdec
                · have hkeyframe : isKeyframe video.format video.data = some true := by
                    simpa only [keyOf, hparse] using hkey
                  obtain ⟨codec, hcodec, rfl⟩ :=
                    emitVideo_fresh hrestarts hfoundMade hkeyframe hemit
                  simp only [keyPicture, hparse, hcodec, Gen.items_yield, List.map_map]
                  rfl
      · refine ⟨?_, fun heq => absurd heq hsame⟩
        have hne : topic ≠ other := fun heq => hsame heq.symm
        intro dec hdec
        simp only [Carried.camera, Function.update_of_ne hne] at hdec
        exact hmade dec hdec

/-- A turn of a pass keeps the decoder of a camera one that was made for it, and yields of a
keyframe what a decoder of its own would. -/
theorem iterMessage_keys (hrestarts : backend.av.Restarts)
    (hbuiltin : backend.custom .video = false)
    {built : List Schema} (hbuilt : .video ∈ built) {rawSet : List Topic} {carry : Bool}
    {pass next : Pass Ctx D} {m : Message D} (hmade : (pass.carried.camera topic).Made backend.av)
    (hreturns : (s.iterMessage backend built rawSet carry pass m).Returns next) :
    (next.carried.camera topic).Made backend.av ∧
      ((s.keysOf backend rawSet topic [m]).flatMap (keyPicture backend topic)).Sublist
        ((s.iterMessage backend built rawSet carry pass m).items.map Triple.element) := by
  -- A message that is no access unit of the camera gives no keyframe, and the branches that pass it
  -- by leave the decoder.
  have hother : s.isUnitOf rawSet topic m = false →
      (s.keysOf backend rawSet topic [m]).flatMap (keyPicture backend topic) = [] := by
    intro hnot
    simp [keysOf, hnot]
  unfold iterMessage at hreturns ⊢
  cases hschema : m.schema with
  | none =>
      have hnot : s.isUnitOf rawSet topic m = false := by simp [isUnitOf, hschema]
      simp only [hschema] at hreturns ⊢
      cases hreturns
      rw [hother hnot]
      exact ⟨hmade, List.nil_sublist _⟩
  | some schema =>
      cases hstrip : stripDevice s.device m.topic with
      | none =>
          have hnot : s.isUnitOf rawSet topic m = false := by simp [isUnitOf, hstrip]
          simp only [hschema, hstrip] at hreturns ⊢
          cases hreturns
          rw [hother hnot]
          exact ⟨hmade, List.nil_sublist _⟩
      | some name =>
          simp only [hschema, hstrip] at hreturns ⊢
          by_cases hraw : name ∈ rawSet
          · have hnot : s.isUnitOf rawSet topic m = false := by
              simp only [isUnitOf, hschema, hstrip, Bool.and_eq_false_iff, decide_eq_false_iff_not]
              by_cases hsame : name = topic
              · exact Or.inr (by simpa [hsame] using hsame ▸ hraw)
              · exact Or.inl (Or.inr fun heq => hsame (Option.some.inj heq))
            rw [if_pos hraw] at hreturns ⊢
            cases hreturns
            rw [hother hnot]
            exact ⟨hmade, List.nil_sublist _⟩
          · rw [if_neg hraw] at hreturns ⊢
            by_cases hnotBuilt : schema ∉ built
            · have hnot : s.isUnitOf rawSet topic m = false := by
                have hne : schema ≠ .video := fun heq => hnotBuilt (heq ▸ hbuilt)
                simp [isUnitOf, hschema, hne]
              rw [if_pos hnotBuilt] at hreturns ⊢
              cases hreturns
              rw [hother hnot]
              exact ⟨hmade, List.nil_sublist _⟩
            · rw [if_neg hnotBuilt] at hreturns ⊢
              by_cases hvideo : schema = .video ∧ backend.custom .video = false
              · rw [if_pos hvideo] at hreturns ⊢
                obtain ⟨hnext, hitems⟩ := videoMessage_keys hrestarts hmade hreturns
                refine ⟨hnext, ?_⟩
                -- An access unit: it is a keyframe of this camera, or it gives no picture that is
                -- asked for.
                by_cases hkey : name = topic ∧ keyOf backend m = some true
                · have hone : s.keysOf backend rawSet topic [m] = [m] := by
                    rw [hkey.1] at hraw hstrip
                    simp [keysOf, isUnitOf, hschema, hstrip, hvideo.1, hraw, hkey.2]
                  rw [hone, List.flatMap_singleton, hitems hkey.1 hkey.2]
                · have hnone : s.keysOf backend rawSet topic [m] = [] := by
                    refine List.filter_eq_nil_iff.mpr fun n hn hin => hkey ?_
                    rw [List.mem_singleton.mp hn] at hin
                    simp only [isUnitOf, hstrip, Bool.and_eq_true, decide_eq_true_eq,
                      Option.some.injEq] at hin
                    exact ⟨hin.1.1.2, hin.2⟩
                  rw [hnone]
                  exact List.nil_sublist _
              · have hnot : s.isUnitOf rawSet topic m = false := by
                  have hne : schema ≠ .video := fun heq => hvideo ⟨heq, hbuiltin⟩
                  simp [isUnitOf, hschema, hne]
                rw [if_neg hvideo] at hreturns ⊢
                have hsame := returns_adapted hreturns
                rw [hsame, hother hnot]
                exact ⟨hmade, List.nil_sublist _⟩

/-! ## Files -/

theorem keysOf_cons (rawSet : List Topic) (m : Message D) (rest : List (Message D)) :
    s.keysOf backend rawSet topic (m :: rest) =
      s.keysOf backend rawSet topic [m] ++ s.keysOf backend rawSet topic rest := by
  unfold keysOf
  rw [← List.filter_append]
  rfl

/-- The messages of a file. -/
theorem each_keys (hrestarts : backend.av.Restarts) (hbuiltin : backend.custom .video = false)
    {built : List Schema} (hbuilt : .video ∈ built) {rawSet : List Topic} {carry : Bool}
    {messages : List (Message D)} {pass final : Pass Ctx D}
    (hmade : (pass.carried.camera topic).Made backend.av)
    (hreturns : (Gen.each (s.iterMessage backend built rawSet carry) pass messages).Returns final) :
    (final.carried.camera topic).Made backend.av ∧
      ((s.keysOf backend rawSet topic messages).flatMap (keyPicture backend topic)).Sublist
        ((Gen.each (s.iterMessage backend built rawSet carry) pass messages).items.map
          Triple.element) := by
  induction messages generalizing pass with
  | nil =>
      cases hreturns
      exact ⟨hmade, List.Sublist.refl _⟩
  | cons m rest ih =>
      rw [Gen.each_cons] at hreturns ⊢
      obtain ⟨next, hfirst, hrest⟩ := Gen.returns_andThen.mp hreturns
      obtain ⟨hnext, hitems⟩ := iterMessage_keys hrestarts hbuiltin hbuilt hmade hfirst
      obtain ⟨hfinal, hothers⟩ := ih hnext hrest
      rw [hfirst.andThen_eq, keysOf_cons, List.flatMap_append, List.map_append]
      exact ⟨hfinal, hitems.append hothers⟩

/-- The flush of the adapters leaves the decoders. -/
theorem each_flush_carried {built : List Schema} {pass final : Pass Ctx D}
    (hreturns : (Gen.each (flushAdapter backend) pass built :
      Gen (Triple Topic (Value Img D V)) (ReadError ε) (Pass Ctx D)).Returns final) :
    final.carried = pass.carried := by
  induction built generalizing pass with
  | nil =>
      cases hreturns
      rfl
  | cons schema rest ih =>
      rw [Gen.each_cons] at hreturns
      obtain ⟨next, hfirst, hrest⟩ := Gen.returns_andThen.mp hreturns
      rw [ih hrest]
      unfold flushAdapter at hfirst
      split at hfirst
      next =>
        cases hfirst
        rfl
      next => rw [returns_adapted hfirst]

/-- The decoders that are carried into a file were made for their camera. -/
def CarriedMade (backend : Backend D Ctx Img V ε) (topic : Topic)
    (carried : Option (Carried Ctx)) : Prop :=
  ∀ decoders, carried = some decoders → (decoders.camera topic).Made backend.av

theorem iterFile_keys (hrestarts : backend.av.Restarts) (hbuiltin : backend.custom .video = false)
    (hraw : q.rawAll = false) {file : File D} {want : Want} {carried next : Option (Carried Ctx)}
    (hmade : CarriedMade backend topic carried)
    (hreturns : (s.iterFile backend q file want carried).Returns next) :
    CarriedMade backend topic next ∧
      ((s.keysOf backend q.rawSet topic
          (readMessages file (s.wantedPrefixed file.index want false) q.endNs)).flatMap
            (keyPicture backend topic)).Sublist
        ((s.iterFile backend q file want carried).items.map Triple.element) := by
  unfold iterFile at hreturns ⊢
  dsimp only at hreturns ⊢
  rw [hraw] at hreturns ⊢
  split at hreturns
  next hnothing =>
    have hread : readMessages file (s.wantedPrefixed file.index want false) q.endNs = [] := by
      rw [hnothing]
      simp [readMessages]
    rw [if_pos hnothing, hread]
    cases hreturns
    exact ⟨hmade, List.nil_sublist _⟩
  next hsome =>
    rw [if_neg hsome]
    simp only [Bool.false_eq_true, if_false] at hreturns ⊢
    generalize (carried.isSome && !backend.custom .video) = carry at hreturns ⊢
    have hpass : (({ carried := if carry = true then carried.getD {} else {} } :
        Pass Ctx D).carried.camera topic).Made backend.av := by
      dsimp only
      split
      next =>
        cases hcarried : carried with
        | none => exact Camera.made_empty _
        | some decoders => exact hmade decoders hcarried
      next => exact Camera.made_empty _
    obtain ⟨final, hmessages, hrest⟩ := Gen.returns_andThen.mp hreturns
    obtain ⟨flushed, hflush, hdone⟩ := Gen.returns_andThen.mp hrest
    obtain ⟨hfinal, hitems⟩ := each_keys hrestarts hbuiltin (List.mem_cons_self ..) hpass hmessages
    refine ⟨?_, ?_⟩
    · intro decoders hdecoders
      cases hdone
      split at hdecoders
      next =>
        cases hdecoders
        rw [each_flush_carried hflush]
        exact hfinal
      next => exact hmade decoders hdecoders
    · rw [hmessages.andThen_eq, List.map_append]
      exact hitems.trans (List.sublist_append_left _ _)

theorem streamFile_keys (hrestarts : backend.av.Restarts)
    (hbuiltin : backend.custom .video = false) (hraw : q.rawAll = false)
    {member : File D × Want} {state next : StreamState Ctx}
    (hmade : CarriedMade backend topic state.carried)
    (hreturns : (s.streamFile backend q state member).Returns next) :
    CarriedMade backend topic next.carried ∧
      ((s.keysOf backend q.rawSet topic (readMessages member.1
          (s.wantedPrefixed member.1.index member.2 false) q.endNs)).flatMap
            (keyPicture backend topic)).Sublist
        ((s.streamFile backend q state member).items.map Triple.element) := by
  obtain ⟨file, want⟩ := member
  rw [streamFile_eq] at hreturns ⊢
  obtain ⟨carried, hfile, hdone⟩ := Gen.returns_andThen.mp hreturns
  cases hdone
  have hinto : CarriedMade backend topic (carriedInto q state file) := by
    intro decoders hdecoders
    unfold carriedInto at hdecoders
    split at hdecoders
    next => exact hmade decoders hdecoders
    next =>
      split at hdecoders
      next =>
        cases hdecoders
        exact Camera.made_empty _
      next => cases hdecoders
  rw [Gen.items_andThen_done]
  exact iterFile_keys hrestarts hbuiltin hraw hinto hfile

/-- The files of a stream. -/
theorem each_streamFile_keys (hrestarts : backend.av.Restarts)
    (hbuiltin : backend.custom .video = false) (hraw : q.rawAll = false)
    {members : List (File D × Want)} {state final : StreamState Ctx}
    (hmade : CarriedMade backend topic state.carried)
    (hreturns : (Gen.each (s.streamFile backend q) state members).Returns final) :
    (members.flatMap fun member => (s.keysOf backend q.rawSet topic (readMessages member.1
        (s.wantedPrefixed member.1.index member.2 false) q.endNs)).flatMap
          (keyPicture backend topic)).Sublist
      ((Gen.each (s.streamFile backend q) state members).items.map Triple.element) := by
  induction members generalizing state with
  | nil => exact List.Sublist.refl _
  | cons member rest ih =>
      rw [Gen.each_cons] at hreturns ⊢
      obtain ⟨next, hfirst, hrest⟩ := Gen.returns_andThen.mp hreturns
      obtain ⟨hnext, hitems⟩ := streamFile_keys hrestarts hbuiltin hraw hmade hfirst
      rw [hfirst.andThen_eq, List.flatMap_cons, List.map_append]
      exact hitems.append (ih hnext hrest)

/-! ## The files of a window -/

/-- The files of a chain that a window meets are read in full. -/
theorem ChainRead.meets {chain skipped read rest : List (File D)}
    {chosen : List (File D × Option Want)}
    (hread : s.ChainRead backend q chain skipped read rest chosen) :
    ((chain.filter fun file => spansWindow file.index q.startNs q.endNs).map (·, q.want)).Sublist
      (s.membersOf backend q chosen) := by
  have hnone : ∀ files : List (File D), (∀ file ∈ files, file ∈ skipped ++ rest) →
      (files.filter fun file => spansWindow file.index q.startNs q.endNs) = [] := by
    intro files hfiles
    refine List.filter_eq_nil_iff.mpr fun file hfile => ?_
    rw [hread.outside file (hfiles file hfile)]
    exact Bool.false_ne_true
  rw [hread.members, hread.split, List.filter_append, List.filter_append,
    hnone skipped fun file hfile => List.mem_append_left _ hfile,
    hnone rest fun file hfile => List.mem_append_right _ hfile, List.nil_append, List.append_nil]
  have hfiltered : ((read.filter fun file => spansWindow file.index q.startNs q.endNs).map
      (·, q.want)).Sublist (read.map (·, q.want)) := List.filter_sublist.map _
  exact (hfiltered.trans (List.sublist_append_left _ _)).trans (List.sublist_append_right _ _)

theorem selectChains_meets {chains : List (List (File D))} {chosen : List (File D × Option Want)}
    (hselect : s.selectChains backend q chains = .ok chosen) :
    ((chains.flatten.filter fun file => spansWindow file.index q.startNs q.endNs).map
      (·, q.want)).Sublist (s.membersOf backend q chosen) := by
  induction chains generalizing chosen with
  | nil => exact List.nil_sublist _
  | cons chain rest ih =>
      unfold selectChains at hselect
      cases hfirst : s.selectChain backend q chain with
      | error e =>
          rw [hfirst] at hselect
          cases hothers : s.selectChains backend q rest with
          | error e =>
              rw [hothers] at hselect
              cases hselect
          | ok others =>
              rw [hothers] at hselect
              cases hselect
      | ok first =>
          rw [hfirst] at hselect
          cases hothers : s.selectChains backend q rest with
          | error e =>
              rw [hothers] at hselect
              cases hselect
          | ok others =>
              rw [hothers] at hselect
              cases hselect
              obtain ⟨skipped, read, behind, hread⟩ := selectChain_spec hfirst
              have hsplit : s.membersOf backend q (first ++ others) =
                  s.membersOf backend q first ++ s.membersOf backend q others :=
                List.filterMap_append ..
              rw [List.flatten_cons, List.filter_append, List.map_append, hsplit]
              exact hread.meets.append (ih hothers)

theorem filter_sublist_filter {α : Type*} {p q : α → Bool} {l : List α}
    (himp : ∀ a ∈ l, p a = true → q a = true) : (l.filter p).Sublist (l.filter q) := by
  have hboth : (l.filter q).filter p = l.filter p := by
    rw [List.filter_filter]
    refine List.filter_congr fun a ha => ?_
    cases hp : p a with
    | false => rfl
    | true => rw [himp a ha hp, Bool.and_self]
  rw [← hboth]
  exact List.filter_sublist

/-- The keyframes of a file in a window, which a pass over the window decodes. -/
theorem fileUnits_keys {file : File D} {startNs endNs : Option ℤ}
    (htyped : ∀ m ∈ file.messages, s.videoTopicIn file.index topic = some m.topic →
      m.schema = some .video)
    (hraw : topic ∉ q.rawSet) (hwant : (q.want.all fun topics => decide (topic ∈ topics)) = true)
    (hwindow : ∀ t, inWindow startNs endNs t = true → q.endNs.all (fun stop => t < stop) = true) :
    ((s.fileUnits topic startNs endNs file).filter fun m => keyOf backend m = some true).Sublist
      (s.keysOf backend q.rawSet topic
        (readMessages file (s.wantedPrefixed file.index q.want false) q.endNs)) := by
  unfold fileUnits
  cases hname : s.videoTopicIn file.index topic with
  | none => exact List.nil_sublist _
  | some name =>
      -- the topic is listed, of video, and selected
      obtain ⟨entry, hfound, rfl⟩ := Option.map_eq_some_iff.mp hname
      have hentry := List.mem_of_find?_eq_some hfound
      have htest := List.find?_some hfound
      simp only [Bool.and_eq_true, decide_eq_true_eq] at htest
      have hselected : entry.topic ∈ s.wantedPrefixed file.index q.want false := by
        refine List.mem_map.mpr ⟨entry, List.mem_filter.mpr ⟨hentry, ?_⟩, rfl⟩
        rw [htest.2]
        cases hall : q.want with
        | none => simp [htest.1]
        | some topics => simpa [hall] using hwant
      dsimp only
      unfold readWindow keysOf readMessages
      rw [List.filter_filter, List.filter_filter]
      refine filter_sublist_filter fun m hm hin => ?_
      simp only [Bool.and_eq_true, decide_eq_true_eq] at hin ⊢
      obtain ⟨hkey, hname', hinside⟩ := hin
      have hschema := htyped m hm (by rw [hname, hname'])
      refine ⟨⟨?_, hkey⟩, ?_⟩
      · simp [isUnitOf, hschema, hname', htest.2, hraw]
      · rw [hname']
        exact ⟨hselected, hwindow _ hinside⟩

theorem flatMap_eq_flatMap_filter {α β : Type*} {p : α → Bool} {f : α → List β} {l : List α}
    (hnone : ∀ a ∈ l, p a = false → f a = []) : l.flatMap f = (l.filter p).flatMap f := by
  induction l with
  | nil => rfl
  | cons a rest ih =>
      have hrest := ih fun b hb => hnone b (List.mem_cons_of_mem a hb)
      cases hp : p a with
      | true => rw [List.filter_cons_of_pos hp, List.flatMap_cons, List.flatMap_cons, hrest]
      | false =>
          have hnot : ¬p a = true := by simp [hp]
          rw [List.filter_cons_of_neg hnot, List.flatMap_cons, hnone a (List.mem_cons_self ..) hp,
            hrest, List.nil_append]

/-- A stream that returns reads the files that it selects. -/
theorem oneStream_selects {members : List (File D)}
    (hreturns : (s.oneStream backend q members).Returns ()) :
    ∃ chosen, s.selectChains backend q (chainsOf members) = .ok chosen ∧
      s.oneStream backend q members =
        (Gen.each (s.streamFile backend q) {} (s.membersOf backend q chosen)).andThen fun _ =>
          .done () := by
  cases hselect : s.selectChains backend q (chainsOf members) with
  | error e =>
      have hmembers : s.windowMembers backend q members = .error e := by
        unfold windowMembers
        rw [show members.splitBy _ = chainsOf members from rfl, hselect]
      have hraised : s.oneStream backend q members = .raise (.adapter e) := by
        unfold oneStream
        rw [hmembers]
      rw [hraised] at hreturns
      cases hreturns
  | ok chosen =>
      have hmembers : s.windowMembers backend q members =
          .ok (s.membersOf backend q chosen) := by
        unfold windowMembers
        rw [show members.splitBy _ = chainsOf members from rfl, hselect]
        rfl
      refine ⟨chosen, rfl, ?_⟩
      unfold oneStream
      rw [hmembers]

/-- What a stream yields of a camera's keyframes in a window. -/
theorem oneStream_keys (hrestarts : backend.av.Restarts) (hbuiltin : backend.custom .video = false)
    (hrawAll : q.rawAll = false) (hraw : topic ∉ q.rawSet)
    (hwant : (q.want.all fun topics => decide (topic ∈ topics)) = true)
    {members : List (File D)} {startNs endNs : Option ℤ}
    (htyped : ∀ file ∈ members, ∀ m ∈ file.messages,
      s.videoTopicIn file.index topic = some m.topic → m.schema = some .video)
    (hbounded : ∀ file ∈ members, ∀ lo hi, file.index.startNs = some lo →
      file.index.endNs = some hi → ∀ m ∈ file.messages, lo ≤ m.logTime ∧ m.logTime ≤ hi)
    (hwindow : ∀ t, inWindow startNs endNs t = true → inWindow q.startNs q.endNs t = true)
    (hreturns : (s.oneStream backend q members).Returns ()) :
    (members.flatMap fun file => ((s.fileUnits topic startNs endNs file).filter fun m =>
        keyOf backend m = some true).flatMap (keyPicture backend topic)).Sublist
      ((s.oneStream backend q members).items.map Triple.element) := by
  obtain ⟨chosen, hselect, hstream⟩ := oneStream_selects hreturns
  rw [hstream] at hreturns ⊢
  obtain ⟨final, hfiles, -⟩ := Gen.returns_andThen.mp hreturns
  rw [Gen.items_andThen_done]
  have hmade : CarriedMade backend topic ({} : StreamState Ctx).carried := by
    rintro decoders ⟨⟩
  have hitems := each_streamFile_keys hrestarts hbuiltin hrawAll hmade hfiles
  have hmeets := selectChains_meets hselect
  rw [show (chainsOf members).flatten = members from List.flatten_splitBy ..] at hmeets
  -- a file that the window does not meet holds no unit of it
  have hpruned : ∀ file ∈ members, spansWindow file.index q.startNs q.endNs = false →
      ((s.fileUnits topic startNs endNs file).filter fun m =>
        keyOf backend m = some true).flatMap (keyPicture backend topic) = [] := by
    intro file hfile houtside
    have hnone : s.fileUnits topic startNs endNs file = [] := by
      unfold fileUnits
      cases s.videoTopicIn file.index topic with
      | none => rfl
      | some name =>
          refine List.filter_eq_nil_iff.mpr fun m hm hin => ?_
          rw [Bool.and_eq_true] at hin
          have hout := inWindow_outside houtside fun lo hi hlo hhi =>
            hbounded file hfile lo hi hlo hhi m hm
          cases hout.symm.trans (hwindow _ hin.2)
    rw [hnone]
    rfl
  have hend : ∀ t, inWindow startNs endNs t = true → q.endNs.all (fun stop => t < stop) = true := by
    intro t ht
    have hin := hwindow t ht
    rw [inWindow, Bool.and_eq_true] at hin
    exact hin.2
  rw [flatMap_eq_flatMap_filter hpruned]
  refine List.Sublist.trans ?_ ((hmeets.flatMap _).trans hitems)
  rw [List.flatMap_map]
  refine List.Sublist.flatMap_right _ fun file hfile => ?_
  exact (fileUnits_keys (htyped file (List.mem_filter.mp hfile).1) hraw hwant hend).flatMap _

/-! ## A session -/

/-- `Session._files` holds the files of the streams. -/
theorem files_perm (s : Session D) : s.files.Perm s.streams.flatten := by
  have hsorted := (List.perm_insertionSort (fun a b : (ℕ × FileKey) × File D =>
    ownedLe a.1 b.1 = true) (s.streams.zipIdx.flatMap fun owned =>
      owned.1.map fun file => ((owned.2, fileKey owned.1 file), file))).map Prod.snd
  refine hsorted.trans (.of_eq ?_)
  rw [List.map_flatMap]
  have hmembers : ∀ owned : List (File D) × ℕ,
      ((owned.1.map fun file => ((owned.2, fileKey owned.1 file), file)).map Prod.snd) =
        owned.1 := by
    intro owned
    rw [List.map_map]
    exact List.map_id _
  simp only [hmembers]
  rw [List.flatMap_def, List.zipIdx_map_fst]

/-- A picture has the time of its keyframe. -/
theorem keyPicture_times {m : Message D} :
    ∀ element ∈ keyPicture backend topic m, element.tNs = m.logTime := by
  intro element helement
  unfold keyPicture at helement
  split at helement
  next => cases helement
  next =>
    split at helement
    next => cases helement
    next =>
      obtain ⟨image, -, rfl⟩ := List.mem_map.mp helement
      rfl

theorem fileUnits_inWindow {file : File D} {startNs endNs : Option ℤ} :
    ∀ m ∈ s.fileUnits topic startNs endNs file, inWindow startNs endNs m.logTime = true := by
  intro m hm
  unfold fileUnits at hm
  cases hname : s.videoTopicIn file.index topic with
  | none =>
      simp only [hname] at hm
      cases hm
  | some name =>
      simp only [hname] at hm
      have hin := (List.mem_filter.mp hm).2
      rw [Bool.and_eq_true] at hin
      exact hin.2

/-- Without an exposure a picture is what the stream makes of it. -/
theorem keyPicture_unexposed (exposing : Exposing D Img V φ ε) {m : Message D} :
    ∀ element ∈ keyPicture backend topic m,
      exposedFrame (fun _ => none) element = exposing.element element := by
  intro element helement
  unfold keyPicture at helement
  split at helement
  next => cases helement
  next =>
    split at helement
    next => cases helement
    next =>
      obtain ⟨image, -, rfl⟩ := List.mem_map.mp helement
      rfl

/-- What `keyframe_stream` yields are pictures of keyframes of the window. -/
theorem keyframeStream_sublist {exposing : Exposing D Img V φ ε}
    {track : ℤ → Option (FrameExposure φ)} (htrack : s.exposureAt exposing topic = .ok track)
    (hrestarts : backend.av.Restarts) (everyN : ℤ) (startNs endNs : Option ℤ)
    (hbounded : ∀ file ∈ s.files, ∀ lo hi, file.index.startNs = some lo →
      file.index.endNs = some hi → ∀ m ∈ file.messages, lo ≤ m.logTime ∧ m.logTime ≤ hi) :
    (s.keyframeStream backend exposing topic everyN startNs endNs).items.Sublist
      ((s.files.flatMap fun file => ((s.fileUnits topic startNs endNs file).filter fun m =>
        keyOf backend m = some true).flatMap (keyPicture backend topic)).map
          (exposedFrame track)) := by
  by_cases hok : 1 ≤ everyN ∧ topic ∈ s.topicsOfSchema .video
  · have hsamples := @samples_files _ _ _ V _ ε s backend topic everyN track hrestarts startNs
      endNs hbounded
    have hitems : (s.keyframeStream backend exposing topic everyN startNs endNs).items =
        ((everyNth everyN 0 (readableKeys backend (s.windowUnits topic startNs endNs))).flatMap
          (keyPicture backend topic)).map (exposedFrame track) := by
      rw [keyframeStream_accepted hok.1 hok.2, htrack, List.map_flatMap]
      exact hsamples.finish.2.trans hsamples.items
    have hkeys : (readableKeys backend (s.windowUnits topic startNs endNs)).Sublist
        ((s.windowUnits topic startNs endNs).filter fun m => keyOf backend m = some true) :=
      (List.takeWhile_sublist _).filter _
    have hall : ((s.windowUnits topic startNs endNs).filter fun m =>
        keyOf backend m = some true).flatMap (keyPicture backend topic) =
          s.files.flatMap fun file => ((s.fileUnits topic startNs endNs file).filter fun m =>
            keyOf backend m = some true).flatMap (keyPicture backend topic) := by
      rw [windowUnits, List.filter_flatMap, List.flatMap_assoc]
    rw [hitems, ← hall]
    exact (((everyNth_sublist _ _ _).trans hkeys).flatMap _).map _
  · obtain ⟨e, he⟩ := @keyframeStream_refused _ _ _ _ _ _ s backend exposing topic everyN startNs
      endNs hok
    rw [he]
    exact List.nil_sublist _

/-- Where no selected camera has a `frame_info` topic, a selected camera of the session has no
exposures. -/
theorem exposureAt_unjoined {exposing : Exposing D Img V φ ε} (hrawAll : q.rawAll = false)
    (hunjoined : s.exposureCameras exposing q = .ok []) (hraw : topic ∉ q.rawSet)
    (hwant : (q.want.all fun topics => decide (topic ∈ topics)) = true)
    (hvideo : topic ∈ s.topicsOfSchema .video) :
    s.exposureAt exposing topic = .ok fun _ => none := by
  have hselected : topic ∈ s.selected q.want := by
    cases hnamed : q.want with
    | some topics =>
        rw [hnamed] at hwant
        exact of_decide_eq_true hwant
    | none =>
        -- the default selection holds every video topic
        obtain ⟨hin, hschema⟩ := List.mem_filter.mp ((List.mem_insertionSort _).mp hvideo)
        refine List.mem_filter.mpr ⟨List.mem_eraseDups.mp hin, ?_⟩
        rw [Bool.or_eq_true]
        exact .inl hschema
  unfold exposureCameras at hunjoined
  unfold exposureAt
  rw [hrawAll] at hunjoined
  cases hcams : s.exposureCams exposing with
  | error e =>
      rw [hcams] at hunjoined
      cases hunjoined
  | ok cams =>
      rw [hcams] at hunjoined
      have hnone : cams.filter (fun cam => cam ∈ s.selected q.want && cam ∉ q.rawSet) = [] :=
        Except.ok.inj hunjoined
      have habsent : topic ∉ cams := by
        intro hin
        have hkept := List.filter_eq_nil_iff.mp hnone topic hin
        simp [hselected, hraw] at hkept
      exact if_pos habsent

/-- The pictures of the keyframes of a file in a window. -/
def filePictures (s : Session D) (backend : Backend D Ctx Img V ε) (topic : Topic)
    (startNs endNs : Option ℤ) (file : File D) : List (Element Topic (Value Img D V)) :=
  ((s.fileUnits topic startNs endNs file).filter fun m => keyOf backend m = some true).flatMap
    (keyPicture backend topic)

theorem filePictures_keys {startNs endNs : Option ℤ} {files : List (File D)} :
    ∀ element ∈ files.flatMap (s.filePictures backend topic startNs endNs), ∃ m,
      inWindow startNs endNs m.logTime = true ∧ element ∈ keyPicture backend topic m := by
  intro element helement
  obtain ⟨file, -, hin⟩ := List.mem_flatMap.mp helement
  obtain ⟨m, hm, hpicture⟩ := List.mem_flatMap.mp hin
  exact ⟨m, fileUnits_inWindow m (List.mem_filter.mp hm).1, hpicture⟩

/-- The pictures of the keyframes of a window are among the elements of the stream without
exposures. -/
theorem filePictures_subperm (hbuiltin : backend.custom .video = false)
    (hrestarts : backend.av.Restarts) (hreorder : 0 ≤ s.reorderNs) (hrawAll : q.rawAll = false)
    (hraw : topic ∉ q.rawSet) (hwant : (q.want.all fun topics => decide (topic ∈ topics)) = true)
    (htyped : ∀ file ∈ s.streams.flatten, ∀ m ∈ file.messages,
      s.videoTopicIn file.index topic = some m.topic → m.schema = some .video)
    (hbounded : ∀ file ∈ s.streams.flatten, ∀ lo hi, file.index.startNs = some lo →
      file.index.endNs = some hi → ∀ m ∈ file.messages, lo ≤ m.logTime ∧ m.logTime ≤ hi)
    (hreturns : (s.stream backend q).Returns ()) :
    (s.files.flatMap (s.filePictures backend topic q.startNs q.endNs)).Subperm
      (s.stream backend q).items := by
  let keys := s.filePictures backend topic q.startNs q.endNs
  have hstreams : ∀ g ∈ s.streams.map (s.oneStream backend (s.readQuery q)), g.Returns () :=
    fun g hg => Gen.returns_of_merge (stream_returns hreturns) hg
  have hmem : ∀ members ∈ s.streams, ∀ file ∈ members, file ∈ s.streams.flatten :=
    fun members hmembers file hfile => List.mem_flatten_of_mem hmembers hfile
  have hpasses : (s.streams.flatMap fun members => members.flatMap keys).Sublist
      (s.streams.flatMap fun members =>
        (s.oneStream backend (s.readQuery q) members).items.map Triple.element) := by
    refine List.Sublist.flatMap_right _ fun members hmembers => ?_
    exact @oneStream_keys _ _ _ _ _ s backend topic (s.readQuery q) hrestarts hbuiltin hrawAll hraw
      hwant members q.startNs q.endNs
      (fun file hfile => htyped file (hmem members hmembers file hfile))
      (fun file hfile => hbounded file (hmem members hmembers file hfile))
      (fun t ht => inWindow_readQuery hreorder ht) (hstreams _ (List.mem_map_of_mem hmembers))
  -- the merge of the streams permutes what they yield
  have hmerged : (s.streams.flatMap fun members =>
      (s.oneStream backend (s.readQuery q) members).items.map Triple.element).Perm
        ((s.rawItems backend (s.readQuery q)).items.map Triple.element) := by
    have hperm := (@Gen.merge_perm _ _ _ _ Triple.arrivalNs _ hstreams).map Triple.element
    rw [List.flatMap_map, List.map_flatMap] at hperm
    exact hperm.symm
  have hfiles : (s.files.flatMap keys).Perm
      (s.streams.flatMap fun members => members.flatMap keys) := by
    have hall : s.streams.flatten.flatMap keys =
        s.streams.flatMap fun members => members.flatMap keys := by
      rw [List.flatten_eq_flatMap, List.flatMap_assoc]
      rfl
    exact hall ▸ (files_perm s).flatMap_right keys
  have hamong : (s.files.flatMap keys).Subperm
      ((s.rawItems backend (s.readQuery q)).items.map Triple.element) :=
    (hfiles.subperm.trans hpasses.subperm).trans hmerged.subperm
  -- they lie in the window
  have hinside : (s.files.flatMap keys).filter
      (fun element => inWindow q.startNs q.endNs element.tNs) = s.files.flatMap keys := by
    refine List.filter_eq_self.mpr fun element helement => ?_
    obtain ⟨m, hin, hpicture⟩ := filePictures_keys element helement
    rw [keyPicture_times element hpicture]
    exact hin
  have hwindow := hamong.filter fun element => inWindow q.startNs q.endNs element.tNs
  rw [hinside, List.filter_map] at hwindow
  exact hwindow.trans (stream_items_perm hreturns).symm.subperm

end Session

/-- The frames of `keyframe_stream` are among those of `stream` over the same window, where no
selected camera has a `frame_info` topic: what is decoded alone is what the decoder of the whole
stream, which saw other access units before, makes of it. -/
theorem keyframeStream_subperm (s : Session D) (backend : Backend D Ctx Img V ε)
    (exposing : Exposing D Img V φ ε) (hbuiltin : backend.custom .video = false)
    (hrestarts : backend.av.Restarts) (hreorder : 0 ≤ s.reorderNs) (q : Query)
    (hrawAll : q.rawAll = false) (hunjoined : s.exposureCameras exposing q = .ok [])
    (topic : Topic) (hraw : topic ∉ q.rawSet)
    (hwant : (q.want.all fun topics => decide (topic ∈ topics)) = true) (everyN : ℤ)
    (htyped : ∀ file ∈ s.streams.flatten, ∀ m ∈ file.messages,
      s.videoTopicIn file.index topic = some m.topic → m.schema = some .video)
    (hbounded : ∀ file ∈ s.streams.flatten, ∀ lo hi, file.index.startNs = some lo →
      file.index.endNs = some hi → ∀ m ∈ file.messages, lo ≤ m.logTime ∧ m.logTime ≤ hi)
    (hreturns : (s.streamElements backend exposing q).Returns ()) :
    (s.keyframeStream backend exposing topic everyN q.startNs q.endNs).items.Subperm
      (s.streamElements backend exposing q).items := by
  by_cases hvideo : topic ∈ s.topicsOfSchema .video
  · have htrack := Session.exposureAt_unjoined hrawAll hunjoined hraw hwant hvideo
    obtain ⟨hitems, hplain⟩ := Session.streamElements_plain hunjoined hreturns
    obtain ⟨among, hperm, hsublist⟩ := @Session.filePictures_subperm _ _ _ _ _ s backend topic
      { q with infoLeadNs := 0 } hbuiltin hrestarts hreorder hrawAll hraw hwant htyped hbounded
      hplain
    have hsub := @Session.keyframeStream_sublist _ _ _ _ _ _ s backend topic exposing _ htrack
      hrestarts everyN q.startNs q.endNs
      fun file hfile => hbounded file ((Session.files_perm s).mem_iff.mp hfile)
    have hunexposed : (s.files.flatMap (s.filePictures backend topic q.startNs q.endNs)).map
        (exposedFrame fun _ => none) =
          (s.files.flatMap (s.filePictures backend topic q.startNs q.endNs)).map
            exposing.element := by
      refine List.map_congr_left fun element helement => ?_
      obtain ⟨m, -, hpicture⟩ := Session.filePictures_keys element helement
      exact Session.keyPicture_unexposed exposing element hpicture
    rw [hitems]
    exact (hsub.trans (hunexposed ▸ List.Sublist.refl _)).subperm.trans
      ⟨among.map exposing.element, hperm.map _, hsublist.map _⟩
  · -- a topic that is no camera is refused
    obtain ⟨e, he⟩ := @Session.keyframeStream_refused _ _ _ _ _ _ s backend exposing topic everyN
      q.startNs q.endNs fun hok => hvideo hok.2
    rw [he]
    exact List.nil_subperm

/-- Every second picture from one that lies in the middle of a part. -/
theorem keyframeStream_subperm_pictures :
    ((openSession [reachingChain] .auto 0).keyframeStream jpegBackend jpegExposing jpegTopic 2
        (some 82) none).items.Subperm
      ((openSession [reachingChain] .auto 0).streamElements jpegBackend jpegExposing
        { startNs := some 82 }).items := by
  have hfiles : (openSession [reachingChain] .auto 0).streams.flatten = reachingChain := by
    decide +kernel
  refine keyframeStream_subperm (openSession [reachingChain] .auto 0) jpegBackend jpegExposing rfl
    (fun _ _ _ _ _ _ _ => rfl) (by decide +kernel) { startNs := some 82 } rfl (by decide +kernel)
    jpegTopic List.not_mem_nil rfl 2 ?_ ?_ ?_
  · rw [hfiles]
    intro file hfile m hm _
    have hall : ∀ file ∈ reachingChain, ∀ m ∈ file.messages, m.schema = some .video := by decide
    exact hall file hfile m hm
  · rw [hfiles]
    exact reachingChain_bounded
  · unfold Gen.Returns
    decide +kernel

end VisioSchema.Reader

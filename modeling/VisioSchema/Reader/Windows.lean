import Mathlib.Data.List.Perm.Basic
import VisioSchema.Reader.Transparency
import VisioSchema.Reader.WindowItems

/-!
# A windowed stream is the stream in the window

Chain by chain a windowed pass yields, at the times of the window, what the pass over all files
yields: the frames because a camera restarts at a keyframe (`timed_frames_chain`), the other
items because they stem from one file (`timed_others_chain`).  Streams and the reordering only
permute them (`stream_windowed`).

## Strategy

A chain is either one file without a rotation record, or a marked one.

* In a file without a record every camera starts at a keyframe of its own; reading it further
  than the window does not tell (`timed_frames_alone`), and a file outside the window has no
  frame in it (`timed_frames_outside`).
* A marked chain is the subject of `WindowFrames.lean`.
* What is no frame is the subject of `WindowItems.lean`, file by file.

From there on up to the session only permutations are added: a stream reads its chains one after
the other (`timed_chains_perm`), the streams are merged (`timed_rawItems_perm`), and the
reordering loses nothing (`stream_items_perm`).
-/

namespace VisioSchema.Reader

open VisioSchema.Library VisioSchema.Wire

variable {D Ctx Img V φ ε : Type*}

namespace Session

variable {s : Session D} {backend : Backend D Ctx Img V ε} {topic : Topic} {q : Query}
  {inside : ℤ → Bool}

/-! ## Files without a rotation record -/

theorem iterMessage_frameTimes {built : List Schema} {rawSet : List Topic} {carry : Bool}
    {pass : Pass Ctx D} {m : Message D} :
    ∀ triple ∈ (s.iterMessage backend built rawSet carry pass m).items,
      isFrameOf topic triple.element = true → triple.element.tNs = m.logTime := by
  intro triple htriple hframe
  unfold iterMessage at htriple
  split at htriple
  next schema other hschema hstrip =>
    split at htriple
    next =>
      rw [List.mem_singleton.mp htriple]
      rfl
    next =>
      split at htriple
      next => cases htriple
      next =>
        split at htriple
        next =>
          unfold videoMessage at htriple
          split at htriple
          next => cases htriple
          next hdecoded =>
            obtain ⟨image, frameId, rfl⟩ := decodeUnit_items hdecoded triple htriple
            rfl
        next =>
          obtain ⟨source, -, rfl⟩ := List.mem_map.mp htriple
          cases hframe
  next => cases htriple

/-- Where its messages lie outside a window, a loop's frames do. -/
theorem timed_frames_each {built : List Schema} {rawSet : List Topic} {carry : Bool}
    {messages : List (Message D)} (houtside : ∀ m ∈ messages, inside m.logTime = false)
    (pass : Pass Ctx D) :
    timed inside (tripleFrames topic
      (Gen.each (s.iterMessage backend built rawSet carry) pass messages).items) = [] := by
  refine List.filter_eq_nil_iff.mpr fun triple htriple => ?_
  obtain ⟨hmem, hframe⟩ := List.mem_filter.mp htriple
  have hround : ∀ (pass : Pass Ctx D), ∀ m ∈ messages,
      ∀ triple ∈ (s.iterMessage backend built rawSet carry pass m).items,
        isFrameOf topic triple.element = true → inside triple.element.tNs = false := by
    intro pass m hm triple htriple hframe
    rw [iterMessage_frameTimes triple htriple hframe]
    exact houtside m hm
  rw [Gen.each_forall hround pass triple hmem hframe]
  exact Bool.false_ne_true

/-- A file without a rotation record is read without decoders. -/
theorem carriedInto_unmarked {state : StreamState Ctx} {file : File D}
    (hunmarked : file.rotation = none) : carriedInto q state file = none := by
  unfold carriedInto
  rw [hunmarked]
  have hnot : continues state.previous none = false := by
    unfold continues nextPart
    cases state.previous <;> rfl
  rw [hnot]
  rfl

/-- The frames of a file without a rotation record, cut at the end of a window. -/
theorem timed_frames_alone (hprompt : backend.Prompt) (hraw : q.rawAll = false)
    (hinside : ∀ t, inside t = true → inWindow q.startNs q.endNs t = true) {file : File D}
    (hordered : file.messages.Pairwise fun a b => a.logTime ≤ b.logTime)
    (hunmarked : file.rotation = none) {state state' next next' : StreamState Ctx}
    (hfull : (s.streamFile backend q.unbounded state (file, q.want)).Returns next)
    (hwindow : (s.streamFile backend q state' (file, q.want)).Returns next') :
    timed inside (tripleFrames topic
        (s.streamFile backend q.unbounded state (file, q.want)).items) =
      timed inside (tripleFrames topic (s.streamFile backend q state' (file, q.want)).items) := by
  rw [streamFile_eq, carriedInto_unmarked hunmarked] at hfull hwindow ⊢
  rw [streamFile_eq, carriedInto_unmarked hunmarked, Gen.items_andThen_done,
    Gen.items_andThen_done]
  obtain ⟨after, hfull, -⟩ := Gen.returns_andThen.mp hfull
  obtain ⟨after', hwindow, -⟩ := Gen.returns_andThen.mp hwindow
  obtain ⟨carry, pass, final, -, hnone, hmessages, hitems⟩ :=
    @iterFile_returns _ _ _ _ _ s backend q.unbounded hprompt hraw file q.want none after hfull
  obtain ⟨carry', pass', final', -, hnone', hmessages', hitems'⟩ :=
    iterFile_returns hprompt hraw hwindow
  obtain ⟨rfl, rfl⟩ := hnone rfl
  obtain ⟨rfl, rfl⟩ := hnone' rfl
  obtain ⟨late, hlate, hcut⟩ := readMessages_cut hordered
    (s.wantedPrefixed file.index q.want false) q.endNs
  rw [hitems, hitems']
  change timed inside (tripleFrames topic (Gen.each (s.iterMessage backend
    (s.builtFor q.rawSet file.index q.want) q.rawSet false) ({} : Pass Ctx D)
    (readMessages file (s.wantedPrefixed file.index q.want false) none)).items) = _
  rw [hcut, Gen.each_append, hmessages'.andThen_eq, tripleFrames_append, timed_append]
  refine (congrArg _ (timed_frames_each (fun m hm => ?_) _)).trans (List.append_nil _)
  exact outside_of_not_inWindow hinside (inWindow_late (hlate m hm) (Int.le_refl _))

/-- A chain with a file without a rotation record is that file. -/
theorem alone_of_unmarked {chain : List (File D)} {file : File D}
    (hchain : chain.IsChain fun a b => continues a.rotation b.rotation = true)
    (hfile : file ∈ chain) (hunmarked : file.rotation = none) : chain = [file] := by
  have hmarked : ∀ a b : File D, continues a.rotation b.rotation = true →
      a.rotation ≠ none ∧ b.rotation ≠ none := by
    intro a b hab
    obtain ⟨before, here, hbefore, hhere, -⟩ := continues_cases hab
    rw [hbefore, hhere]
    exact ⟨Option.some_ne_none _, Option.some_ne_none _⟩
  induction chain with
  | nil => cases hfile
  | cons a rest ih =>
      cases rest with
      | nil => rw [List.mem_singleton.mp hfile]
      | cons b others =>
          have hab := hmarked a b (List.isChain_cons_cons.mp hchain).1
          rcases List.mem_cons.mp hfile with rfl | hfile
          · exact absurd hunmarked hab.1
          · have halone := ih hchain.tail hfile
            obtain ⟨rfl, -⟩ := List.cons.inj halone
            exact absurd hunmarked hab.2

/-! ## A chain -/

/-- What is asked of a chain of a session's device: its files are indexed, and the times of each
camera increase. -/
structure ChainOk (device : Option Text) (chain : List (File D)) : Prop where
  indexed : ∀ file ∈ chain, file.Indexed device
  increasing : ∀ topic, (chain.flatMap fun file =>
    file.messages.filter (isCameraMessage device topic)).Pairwise fun a b => a.logTime < b.logTime

theorem ChainOk.units {chain : List (File D)} (hchain : ChainOk s.device chain) (topic : Topic) :
    (chain.flatMap (s.unitsOf q.unbounded topic)).Pairwise fun a b => a.logTime < b.logTime := by
  refine (hchain.increasing topic).sublist (List.Sublist.flatMap_right _ fun file => ?_)
  have hunits : s.unitsOf q.unbounded topic file = file.messages.filter (s.isSelected q topic) :=
    unitsOf_unbounded rfl file
  intro _
  rw [hunits]
  refine List.monotone_filter_right file.messages fun m hm => ?_
  simp only [isSelected, isUnitOf, Bool.and_eq_true] at hm
  rw [isCameraMessage, Bool.and_eq_true]
  exact hm.1.1

section Chain

variable {chain skipped read rest : List (File D)} {chosen : List (File D × Option Want)}
  {state final state' final' : StreamState Ctx}

/-- A file outside the window has no frame in it. -/
theorem timed_frames_outside (hprompt : backend.Prompt) (hraw : q.rawAll = false)
    {file : File D} (houtside : ∀ m ∈ file.messages, inside m.logTime = false) {want : Want}
    (hreturns : (s.streamFile backend q state (file, want)).Returns final) :
    timed inside (tripleFrames topic (s.streamFile backend q state (file, want)).items) = [] := by
  rw [streamFile_eq] at hreturns ⊢
  obtain ⟨after, hfile, -⟩ := Gen.returns_andThen.mp hreturns
  obtain ⟨carry, pass, last, -, -, -, hitems⟩ := iterFile_returns hprompt hraw hfile
  rw [Gen.items_andThen_done, hitems]
  exact timed_frames_each (fun m hm => houtside m (List.mem_filter.mp hm).1) pass

/-- The frames of a chain. -/
theorem timed_frames_chain (hbuiltin : backend.Builtin) (hrestarts : backend.av.Restarts)
    (hlead : q.infoLeadNs = 0)
    (hinside : ∀ t, inside t = true → inWindow q.startNs q.endNs t = true)
    (hlinked : chain.IsChain fun a b => continues a.rotation b.rotation = true)
    (hchain : ChainOk s.device chain)
    (hread : s.ChainRead backend q chain skipped read rest chosen)
    (hfresh : ∀ file ∈ chain, continues state.previous file.rotation = false)
    (hfresh' : ∀ file ∈ chain, continues state'.previous file.rotation = false)
    (hfull : (Gen.each (s.streamFile backend q.unbounded) state
      (chain.map (·, q.want))).Returns final)
    (hwindow : (Gen.each (s.streamFile backend q) state'
      (s.membersOf backend q chosen)).Returns final') (topic : Topic) :
    timed inside (tripleFrames topic (Gen.each (s.streamFile backend q.unbounded) state
        (chain.map (·, q.want))).items) =
      timed inside (tripleFrames topic (Gen.each (s.streamFile backend q) state'
        (s.membersOf backend q chosen)).items) := by
  cases hraw : q.rawAll with
  | true => rw [tripleFrames_raw hraw, tripleFrames_raw (show q.unbounded.rawAll = true from hraw)]
  | false =>
      by_cases hmarked : ∀ file ∈ chain, file.rotation.isSome = true
      · exact timed_frames_marked (hbuiltin.builtin _) hraw hlead hrestarts hread hlinked hmarked
          hchain.indexed (hchain.units topic) hinside hfresh hfresh' hfull hwindow
      · -- A file without a record is a chain of its own.
        push Not at hmarked
        obtain ⟨file, hfile, hnone⟩ := hmarked
        have hunmarked : file.rotation = none := by simpa using hnone
        obtain rfl : chain = [file] := alone_of_unmarked hlinked hfile hunmarked
        have hindexed := hchain.indexed file hfile
        have hsplit := hread.split
        obtain ⟨next, hfirst, hlast⟩ := Gen.returns_andThen.mp hfull
        have hfullItems : (Gen.each (s.streamFile backend q.unbounded) state
            ([file].map (·, q.want))).items =
              (s.streamFile backend q.unbounded state (file, q.want)).items := by
          rw [List.map_singleton, Gen.each_cons, hfirst.andThen_eq]
          exact List.append_nil _
        rw [hfullItems]
        rw [hread.members] at hwindow ⊢
        by_cases hnothing : read = []
        · -- the file lies outside the window
          subst hnothing
          have hearly : s.earlyMembers backend q skipped ++
              (([] : List (File D)).map (·, q.want) ++ s.earlyMembers backend q rest) =
                s.earlyMembers backend q [file] := by
            rw [List.map_nil, List.nil_append, hsplit, List.nil_append]
            exact (List.filterMap_append ..).symm
          have hout : spansWindow file.index q.startNs q.endNs = false :=
            hread.outside file (by
              rw [List.nil_append] at hsplit
              rw [← hsplit]
              exact List.mem_singleton_self file)
          have hfullNone := @timed_frames_outside _ _ _ _ _ s backend topic q.unbounded inside
            state next hbuiltin.prompt hraw file (fun m hm => outside_of_not_inWindow hinside
              (hindexed.outside hout hm)) q.want hfirst
          rw [hearly, hfullNone, tripleFrames_early (hbuiltin.builtin _) hraw hlead]
          · rfl
          · exact fun other hother => List.mem_singleton.mp hother ▸ hindexed
        · -- the file is read in full
          obtain ⟨rfl, rfl, rfl⟩ : skipped = [] ∧ read = [file] ∧ rest = [] := by
            obtain ⟨first, others, rfl⟩ := List.exists_cons_of_ne_nil hnothing
            have hlength : 1 = skipped.length + ((others.length + 1) + rest.length) := by
              have hboth := congrArg List.length hsplit
              rwa [List.length_append, List.length_append, List.length_cons] at hboth
            obtain rfl := List.length_eq_zero_iff.mp (show skipped.length = 0 by omega)
            obtain rfl := List.length_eq_zero_iff.mp (show others.length = 0 by omega)
            obtain rfl := List.length_eq_zero_iff.mp (show rest.length = 0 by omega)
            exact ⟨rfl, hsplit.symm, rfl⟩
          obtain ⟨next', hfirst', -⟩ := Gen.returns_andThen.mp hwindow
          have hwindowItems : (Gen.each (s.streamFile backend q) state'
              (s.earlyMembers backend q [] ++ ([file].map (·, q.want) ++
                s.earlyMembers backend q []))).items =
                (s.streamFile backend q state' (file, q.want)).items := by
            change (Gen.each (s.streamFile backend q) state' [(file, q.want)]).items = _
            rw [Gen.each_cons, hfirst'.andThen_eq]
            exact List.append_nil _
          rw [hwindowItems]
          exact timed_frames_alone hbuiltin.prompt hraw hinside hindexed.ordered hunmarked hfirst
            hfirst'

/-- What is read of some files before a window, file by file. -/
private theorem flatMap_earlyMembers (files : List (File D))
    (f : File D × Want → List (Triple Topic (Value Img D V))) :
    (s.earlyMembers backend q files).flatMap f =
      files.flatMap fun file => (s.earlyMembers backend q [file]).flatMap f := by
  induction files with
  | nil => rfl
  | cons file files ih =>
      have hsplit : s.earlyMembers backend q (file :: files) =
          s.earlyMembers backend q [file] ++ s.earlyMembers backend q files :=
        @List.filterMap_append _ _ [file] files _
      rw [hsplit, List.flatMap_append, ih, List.flatMap_cons]

/-- The other items of a chain. -/
theorem timed_others_chain (hbuiltin : backend.Builtin) (hlead : q.infoLeadNs = 0)
    (hinside : ∀ t, inside t = true → inWindow q.startNs q.endNs t = true)
    (hindexed : ∀ file ∈ chain, file.Indexed s.device)
    (hread : s.ChainRead backend q chain skipped read rest chosen)
    (hfull : (Gen.each (s.streamFile backend q.unbounded) state
      (chain.map (·, q.want))).Returns final)
    (hwindow : (Gen.each (s.streamFile backend q) state'
      (s.membersOf backend q chosen)).Returns final') :
    timed inside (otherItems (Gen.each (s.streamFile backend q.unbounded) state
        (chain.map (·, q.want))).items) =
      timed inside (otherItems (Gen.each (s.streamFile backend q) state'
        (s.membersOf backend q chosen)).items) := by
  -- Of a file outside the window only its samples are read, and only if it ends before.
  have hskips : ∀ files : List (File D), (∀ file ∈ files, file ∈ skipped ++ rest) →
      (∀ file ∈ files, file ∈ chain) →
      timed inside (files.flatMap fun file => s.scanOf backend q.unbounded file q.want) =
        timed inside ((s.earlyMembers backend q files).flatMap fun member =>
          s.scanOf backend q member.1 member.2) := by
    intro files hfiles hin
    rw [flatMap_earlyMembers]
    exact timed_flatMap_congr fun file hfile => timed_scanOf_skipped hbuiltin hinside hlead
      (hindexed file (hin file hfile)) (hread.outside file (hfiles file hfile))
  rw [each_streamFile_others hbuiltin.prompt hfull, each_streamFile_others hbuiltin.prompt hwindow,
    hread.members, List.flatMap_map, List.flatMap_append, List.flatMap_append, List.flatMap_map,
    timed_append, timed_append, ← hskips skipped, ← hskips rest]
  · have hsplit : (chain.flatMap fun file => s.scanOf backend q.unbounded file q.want) =
        (skipped.flatMap fun file => s.scanOf backend q.unbounded file q.want) ++
          ((read.flatMap fun file => s.scanOf backend q.unbounded file q.want) ++
            rest.flatMap fun file => s.scanOf backend q.unbounded file q.want) := by
      rw [hread.split, List.flatMap_append, List.flatMap_append]
    rw [hsplit, timed_append, timed_append]
    refine congrArg₂ _ rfl (congrArg₂ _ (timed_flatMap_congr fun file hfile => ?_) rfl)
    have hin : file ∈ chain := by
      rw [hread.split]
      exact List.mem_append_right _ (List.mem_append_left _ hfile)
    exact timed_scanOf_read hbuiltin hinside (hindexed file hin).ordered q.want
  · exact fun file hfile => List.mem_append_right _ hfile
  · intro file hfile
    rw [hread.split]
    exact List.mem_append_right _ (List.mem_append_right _ hfile)
  · exact fun file hfile => List.mem_append_left _ hfile
  · intro file hfile
    rw [hread.split]
    exact List.mem_append_left _ hfile

/-- A chain yields at the times of a window, up to their order, what it yields there unbounded. -/
theorem timed_chain_perm (hbuiltin : backend.Builtin) (hrestarts : backend.av.Restarts)
    (hlead : q.infoLeadNs = 0)
    (hinside : ∀ t, inside t = true → inWindow q.startNs q.endNs t = true)
    (hlinked : chain.IsChain fun a b => continues a.rotation b.rotation = true)
    (hchain : ChainOk s.device chain)
    (hread : s.ChainRead backend q chain skipped read rest chosen)
    (hfresh : ∀ file ∈ chain, continues state.previous file.rotation = false)
    (hfresh' : ∀ file ∈ chain, continues state'.previous file.rotation = false)
    (hfull : (Gen.each (s.streamFile backend q.unbounded) state
      (chain.map (·, q.want))).Returns final)
    (hwindow : (Gen.each (s.streamFile backend q) state'
      (s.membersOf backend q chosen)).Returns final') :
    (timed inside (Gen.each (s.streamFile backend q.unbounded) state
        (chain.map (·, q.want))).items).Perm
      (timed inside (Gen.each (s.streamFile backend q) state'
        (s.membersOf backend q chosen)).items) := by
  have hcomm : ∀ (items : List (Triple Topic (Value Img D V))) (test : Triple _ _ → Bool),
      (timed inside items).filter test = timed inside (items.filter test) := fun items test =>
    List.filter_comm ..
  refine perm_of_filter_key (fun triple => frameTopic triple.element) fun key => ?_
  rw [hcomm, hcomm]
  cases key with
  | none =>
      have hothers : ∀ items : List (Triple Topic (Value Img D V)),
          (items.filter fun triple => frameTopic triple.element = none) = otherItems items := by
        intro items
        refine List.filter_congr fun triple _ => ?_
        cases frameTopic triple.element <;> rfl
      rw [hothers, hothers]
      exact .of_eq (timed_others_chain hbuiltin hlead hinside hchain.indexed hread hfull hwindow)
  | some topic =>
      have hframes : ∀ items : List (Triple Topic (Value Img D V)),
          (items.filter fun triple => frameTopic triple.element = some topic) =
            tripleFrames topic items := by
        intro items
        refine List.filter_congr fun triple _ => ?_
        rw [Bool.eq_iff_iff, isFrameOf_iff, decide_eq_true_eq]
      rw [hframes, hframes]
      exact .of_eq (timed_frames_chain hbuiltin hrestarts hlead hinside hlinked hchain hread
        hfresh hfresh' hfull hwindow topic)

end Chain

/-! ## A stream -/

/-- What a stream knows behind some files is the record of one of them. -/
theorem previous_of_each {state final : StreamState Ctx} {members : List (File D × Want)}
    (hreturns : (Gen.each (s.streamFile backend q) state members).Returns final) :
    final.previous = state.previous ∨ ∃ member ∈ members, final.previous = member.1.rotation := by
  induction members generalizing state with
  | nil =>
      cases hreturns
      exact Or.inl rfl
  | cons member rest ih =>
      rw [Gen.each_cons] at hreturns
      obtain ⟨next, hfirst, hrest⟩ := Gen.returns_andThen.mp hreturns
      rw [streamFile_eq] at hfirst
      obtain ⟨after, -, hdone⟩ := Gen.returns_andThen.mp hfirst
      cases hdone
      rcases ih hrest with hsame | ⟨other, hother, hsame⟩
      · exact Or.inr ⟨member, List.mem_cons_self .., hsame⟩
      · exact Or.inr ⟨other, List.mem_cons_of_mem member hother, hsame⟩

/-- Files that are read of a chain are files of it. -/
theorem ChainRead.mem {chain skipped read rest : List (File D)}
    {chosen : List (File D × Option Want)}
    (hread : s.ChainRead backend q chain skipped read rest chosen) {member : File D × Want}
    (hmember : member ∈ s.membersOf backend q chosen) : member.1 ∈ chain := by
  have hearly : ∀ files, member ∈ s.earlyMembers backend q files → member.1 ∈ files := by
    intro files hin
    obtain ⟨file, hfile, hmap⟩ := List.mem_filterMap.mp hin
    obtain ⟨want, -, rfl⟩ := Option.map_eq_some_iff.mp hmap
    exact hfile
  rw [hread.members] at hmember
  rw [hread.split]
  rcases List.mem_append.mp hmember with hin | hin
  · exact List.mem_append_left _ (hearly _ hin)
  · refine List.mem_append_right _ ?_
    rcases List.mem_append.mp hin with hin | hin
    · obtain ⟨file, hfile, rfl⟩ := List.mem_map.mp hin
      exact List.mem_append_left _ hfile
    · exact List.mem_append_right _ (hearly _ hin)

variable (hbuiltin : backend.Builtin) (hrestarts : backend.av.Restarts)
  (hlead : q.infoLeadNs = 0) (hinside : ∀ t, inside t = true → inWindow q.startNs q.endNs t = true)

include hbuiltin hrestarts hlead hinside in
/-- The chains of a stream, one after the other. -/
theorem timed_chains_perm {chains : List (List (File D))}
    (hlinked : ∀ chain ∈ chains, chain.IsChain fun a b => continues a.rotation b.rotation = true)
    (hok : ∀ chain ∈ chains, ChainOk s.device chain)
    (hapart : chains.Pairwise fun chain later =>
      ∀ a ∈ chain, ∀ b ∈ later, continues a.rotation b.rotation = false)
    {chosen : List (File D × Option Want)} (hselect : s.selectChains backend q chains = .ok chosen)
    {state final state' final' : StreamState Ctx}
    (hfresh : ∀ chain ∈ chains, ∀ file ∈ chain, continues state.previous file.rotation = false)
    (hfresh' : ∀ chain ∈ chains, ∀ file ∈ chain, continues state'.previous file.rotation = false)
    (hfull : (Gen.each (s.streamFile backend q.unbounded) state
      (chains.flatten.map (·, q.want))).Returns final)
    (hwindow : (Gen.each (s.streamFile backend q) state'
      (s.membersOf backend q chosen)).Returns final') :
    (timed inside (Gen.each (s.streamFile backend q.unbounded) state
        (chains.flatten.map (·, q.want))).items).Perm
      (timed inside (Gen.each (s.streamFile backend q) state'
        (s.membersOf backend q chosen)).items) := by
  induction chains generalizing chosen state state' with
  | nil =>
      cases hselect
      exact List.Perm.refl _
  | cons chain rest ih =>
      unfold selectChains at hselect
      split at hselect
      next first others hfirst hothers =>
        obtain rfl := Except.ok.inj hselect
        obtain ⟨skipped, read, tail, hread⟩ := selectChain_spec hfirst
        have hchainMem : chain ∈ chain :: rest := List.mem_cons_self ..
        obtain ⟨hcross, hapartRest⟩ := List.pairwise_cons.mp hapart
        have hmembers : s.membersOf backend q (first ++ others) =
            s.membersOf backend q first ++ s.membersOf backend q others :=
          List.filterMap_append ..
        rw [List.flatten_cons, List.map_append, Gen.each_append] at hfull ⊢
        rw [hmembers, Gen.each_append] at hwindow ⊢
        obtain ⟨next, hfullFirst, hfullRest⟩ := Gen.returns_andThen.mp hfull
        obtain ⟨next', hwindowFirst, hwindowRest⟩ := Gen.returns_andThen.mp hwindow
        rw [hfullFirst.andThen_eq, hwindowFirst.andThen_eq, timed_append, timed_append]
        refine (timed_chain_perm hbuiltin hrestarts hlead hinside (hlinked chain hchainMem)
          (hok chain hchainMem) hread
          (hfresh chain hchainMem) (hfresh' chain hchainMem) hfullFirst hwindowFirst).append ?_
        -- no file of a later chain continues one of this chain
        refine ih (fun c hc => hlinked c (List.mem_cons_of_mem chain hc))
          (fun c hc => hok c (List.mem_cons_of_mem chain hc)) hapartRest hothers ?_ ?_
          hfullRest hwindowRest
        · intro later hlater file hfile
          rcases previous_of_each hfullFirst with hsame | ⟨member, hmember, hsame⟩
          · rw [hsame]
            exact hfresh later (List.mem_cons_of_mem chain hlater) file hfile
          · obtain ⟨last, hlast, rfl⟩ := List.mem_map.mp hmember
            rw [hsame]
            exact hcross later hlater last hlast file hfile
        · intro later hlater file hfile
          rcases previous_of_each hwindowFirst with hsame | ⟨member, hmember, hsame⟩
          · rw [hsame]
            exact hfresh' later (List.mem_cons_of_mem chain hlater) file hfile
          · rw [hsame]
            exact hcross later hlater member.1 (hread.mem hmember) file hfile
      next => cases hselect
      next => cases hselect

include hbuiltin hrestarts hlead hinside in
theorem timed_oneStream_perm {files : List (File D)} (hfiles : Unrepeated files)
    (hok : ∀ chain ∈ chainsOf (fileOrder files), ChainOk s.device chain)
    (hfull : (s.oneStream backend q.unbounded (fileOrder files)).Returns ())
    (hwindow : (s.oneStream backend q (fileOrder files)).Returns ()) :
    (timed inside (s.oneStream backend q.unbounded (fileOrder files)).items).Perm
      (timed inside (s.oneStream backend q (fileOrder files)).items) := by
  rw [oneStream_unbounded rfl rfl] at hfull ⊢
  obtain ⟨final, hfull, -⟩ := Gen.returns_andThen.mp hfull
  rw [Gen.items_andThen_done]
  unfold oneStream windowMembers at hwindow ⊢
  cases hselect : s.selectChains backend q (chainsOf (fileOrder files)) with
  | error e =>
      have hselect' := hselect
      rw [chainsOf] at hselect'
      rw [hselect'] at hwindow
      cases hwindow
  | ok chosen =>
      have hselect' := hselect
      rw [chainsOf] at hselect'
      rw [hselect'] at hwindow ⊢
      obtain ⟨final', hwindow, -⟩ := Gen.returns_andThen.mp hwindow
      rw [Gen.items_andThen_done]
      have hflatten : (chainsOf (fileOrder files)).flatten = fileOrder files :=
        List.flatten_splitBy ..
      have hnone : ∀ chain ∈ chainsOf (fileOrder files), ∀ file ∈ chain,
          continues ({} : StreamState Ctx).previous file.rotation = false := by
        intro chain _ file _
        rfl
      rw [← hflatten] at hfull ⊢
      have hlinked : ∀ chain ∈ chainsOf (fileOrder files),
          chain.IsChain fun a b => continues a.rotation b.rotation = true :=
        fun chain hchain => List.isChain_of_mem_splitBy hchain
      exact timed_chains_perm hbuiltin hrestarts hlead hinside hlinked hok (chains_apart hfiles)
        hselect hnone hnone hfull hwindow

/-! ## A session -/

include hbuiltin hrestarts hlead hinside in
theorem timed_rawItems_perm (hstreams : ∀ members ∈ s.streams, ∃ files, Unrepeated files ∧
      members = fileOrder files ∧ ∀ chain ∈ chainsOf members, ChainOk s.device chain)
    (hfull : (s.rawItems backend q.unbounded).Returns ())
    (hwindow : (s.rawItems backend q).Returns ()) :
    (timed inside (s.rawItems backend q.unbounded).items).Perm
      (timed inside (s.rawItems backend q).items) := by
  have hall : ∀ query : Query, (s.rawItems backend query).Returns () →
      ∀ g ∈ s.streams.map (s.oneStream backend query), g.Returns () :=
    fun query hreturns g hg => Gen.returns_of_merge hreturns hg
  have hmerged : ∀ query : Query, (s.rawItems backend query).Returns () →
      (timed inside (s.rawItems backend query).items).Perm (s.streams.flatMap fun members =>
        timed inside (s.oneStream backend query members).items) := by
    intro query hreturns
    have hperm := (@Gen.merge_perm _ _ _ _ Triple.arrivalNs _ (hall query hreturns)).filter
      fun triple => inside triple.element.tNs
    rw [List.filter_flatMap, List.flatMap_map] at hperm
    exact hperm
  have hstream : ∀ members ∈ s.streams,
      (timed inside (s.oneStream backend q.unbounded members).items).Perm
        (timed inside (s.oneStream backend q members).items) := by
    intro members hmembers
    obtain ⟨files, hfiles, rfl, hok⟩ := hstreams members hmembers
    exact timed_oneStream_perm hbuiltin hrestarts hlead hinside hfiles hok
      (hall _ hfull _ (List.mem_map_of_mem hmembers))
      (hall _ hwindow _ (List.mem_map_of_mem hmembers))
  -- the merge of the streams permutes what they yield, in both passes
  calc (timed inside (s.rawItems backend q.unbounded).items).Perm
        (s.streams.flatMap fun members =>
          timed inside (s.oneStream backend q.unbounded members).items) := hmerged _ hfull
      List.Perm _ (s.streams.flatMap fun members =>
          timed inside (s.oneStream backend q members).items) :=
        List.Perm.flatMap_left _ hstream
      List.Perm _ (timed inside (s.rawItems backend q).items) := (hmerged _ hwindow).symm

theorem stream_returns (hreturns : (s.stream backend q).Returns ()) :
    (s.rawItems backend (s.readQuery q)).Returns () :=
  returns_of_reorder hreturns

/-- What a stream yields are the items at the times of its window. -/
theorem stream_items_perm (hreturns : (s.stream backend q).Returns ()) :
    (s.stream backend q).items.Perm
      ((timed (inWindow q.startNs q.endNs) (s.rawItems backend (s.readQuery q)).items).map
        Triple.element) := by
  have hperm := (@reorder_perm _ _ _ s.reorderNs _ (stream_returns hreturns)).filter
    fun element => inWindow q.startNs q.endNs element.tNs
  rw [List.filter_map] at hperm
  exact hperm

/-- What is read is wider than the window. -/
theorem inWindow_readQuery (hreorder : 0 ≤ s.reorderNs) {t : ℤ}
    (ht : inWindow q.startNs q.endNs t = true) :
    inWindow (s.readQuery q).startNs (s.readQuery q).endNs t = true := by
  unfold inWindow readQuery at *
  rw [Bool.and_eq_true] at ht ⊢
  constructor
  · cases hstart : q.startNs with
    | none => rfl
    | some start =>
        rw [hstart] at ht
        simp only [Option.all_some, Option.map_some, decide_eq_true_eq] at ht ⊢
        omega
  · cases hend : q.endNs with
    | none => rfl
    | some stop =>
        rw [hend] at ht
        simp only [Option.all_some, Option.map_some, decide_eq_true_eq] at ht ⊢
        omega

/-- A windowed stream without exposures yields the elements of the whole stream in the window, each
as often. -/
theorem stream_perm (hbuiltin : backend.Builtin) (hrestarts : backend.av.Restarts)
    (hlead : q.infoLeadNs = 0) (hreorder : 0 ≤ s.reorderNs)
    (hstreams : ∀ members ∈ s.streams, ∃ files, Unrepeated files ∧ members = fileOrder files ∧
      ∀ chain ∈ chainsOf members, ChainOk s.device chain)
    (hfull : (s.stream backend q.unbounded).Returns ())
    (hwindow : (s.stream backend q).Returns ()) :
    (s.stream backend q).items.Perm ((s.stream backend q.unbounded).items.filter
      fun element => inWindow q.startNs q.endNs element.tNs) := by
  have hinside : ∀ t, inWindow q.startNs q.endNs t = true →
      inWindow (s.readQuery q).startNs (s.readQuery q).endNs t = true := fun t ht =>
    inWindow_readQuery hreorder ht
  have hread : s.readQuery q.unbounded = (s.readQuery q).unbounded := rfl
  have hfullRaw := stream_returns hfull
  rw [hread] at hfullRaw
  have hitems := timed_rawItems_perm hbuiltin hrestarts (show (s.readQuery q).infoLeadNs = 0 from
    hlead) hinside hstreams hfullRaw (stream_returns hwindow)
  have hunbounded : (s.stream backend q.unbounded).items.Perm
      ((s.rawItems backend (s.readQuery q).unbounded).items.map Triple.element) := by
    refine (stream_items_perm hfull).trans (List.Perm.of_eq ?_)
    rw [hread]
    exact congrArg _ (List.filter_eq_self.mpr fun triple _ => rfl)
  have hfilter := hunbounded.filter fun element => inWindow q.startNs q.endNs element.tNs
  rw [List.filter_map] at hfilter
  calc (s.stream backend q).items.Perm
        ((timed (inWindow q.startNs q.endNs) (s.rawItems backend (s.readQuery q)).items).map
          Triple.element) := stream_items_perm hwindow
      List.Perm _ ((timed (inWindow q.startNs q.endNs)
          (s.rawItems backend (s.readQuery q).unbounded).items).map Triple.element) :=
        hitems.symm.map Triple.element
      List.Perm _ _ := hfilter.symm

end Session

/-- A windowed stream yields the elements of the whole stream in the window, each as often: frames
whose keyframe lies in an earlier part, and samples that arrived in an earlier file, among them.  No
selected camera has a `frame_info` topic. -/
theorem stream_windowed (backend : Backend D Ctx Img V ε) (exposing : Exposing D Img V φ ε)
    (hbuiltin : backend.Builtin) (hrestarts : backend.av.Restarts) (groups : List (List (File D)))
    (mode : DeviceMode) (reorderNs : ℤ) (hreorder : 0 ≤ reorderNs) (q : Query)
    (hunjoined : (openSession groups mode reorderNs).exposureCameras exposing q = .ok [])
    (hunrepeated : ∀ group ∈ groups, Unrepeated group)
    (hchains : ∀ group ∈ groups, ∀ chain ∈ chainsOf (fileOrder group),
      Session.ChainOk (openSession groups mode reorderNs).device chain)
    (hfull : ((openSession groups mode reorderNs).streamElements backend exposing
      q.unbounded).Returns ())
    (hwindow : ((openSession groups mode reorderNs).streamElements backend exposing
      q).Returns ()) :
    ((openSession groups mode reorderNs).streamElements backend exposing q).items.Perm
      (((openSession groups mode reorderNs).streamElements backend exposing
        q.unbounded).items.filter fun element => inWindow q.startNs q.endNs element.tNs) := by
  have hstreams : ∀ members ∈ (openSession groups mode reorderNs).streams, ∃ files,
      Unrepeated files ∧ members = fileOrder files ∧
        ∀ chain ∈ chainsOf members, Session.ChainOk (openSession groups mode reorderNs).device
          chain := by
    intro members hmembers
    obtain ⟨group, hgroup, rfl⟩ := List.mem_map.mp hmembers
    have hin := (List.mem_filter.mp hgroup).1
    exact ⟨group, hunrepeated group hin, rfl, hchains group hin⟩
  have hslack : 0 ≤ (openSession groups mode reorderNs).reorderNs := by
    have hseams := seamSlack_nonneg ((groups.filter (· ≠ [])).map fileOrder)
    change 0 ≤ reorderNs + seamSlack _
    omega
  generalize openSession groups mode reorderNs = s at *
  -- both are the plain streams, under other names of their elements
  have hwhole : s.exposureCameras exposing q.unbounded = .ok [] := hunjoined
  obtain ⟨hfullItems, hfullPlain⟩ := Session.streamElements_plain hwhole hfull
  obtain ⟨hwindowItems, hwindowPlain⟩ := Session.streamElements_plain hunjoined hwindow
  have hperm := (@Session.stream_perm _ _ _ _ _ s backend { q with infoLeadNs := 0 } hbuiltin
    hrestarts rfl hslack hstreams hfullPlain hwindowPlain).map exposing.element
  rw [hfullItems, hwindowItems, List.filter_map]
  exact hperm

/-- Two parts of a recording of pictures. -/
def pictureChain : List (File Video) :=
  [jpegPart 0 10 20 [jpegMessage 0 10, jpegMessage 1 20], jpegPart 1 30 30 [jpegMessage 2 30]]

theorem jpegPart_indexed {device : Option Text} {part : ℕ} {lo hi : ℤ}
    {messages : List (Message Video)}
    (hordered : messages.Pairwise fun a b => a.logTime ≤ b.logTime)
    (hbounded : ∀ m ∈ messages, lo ≤ m.logTime ∧ m.logTime ≤ hi)
    (hpictures : ∀ m ∈ messages, m.topic = jpegTopic ∧ m.schema = some .video) :
    (jpegPart part lo hi messages).Indexed device where
  ordered := hordered
  bounded := by
    rintro _ _ ⟨⟩ ⟨⟩
    exact hbounded
  listed := by
    intro m hm
    obtain ⟨htopic, hschema⟩ := hpictures m hm
    exact ⟨_, List.mem_singleton_self _, htopic.symm, hschema.symm,
      List.length_pos_of_mem hm |>.ne'⟩
  named := by
    intro entry hentry other hother _ _ _
    rw [List.mem_singleton.mp hentry, List.mem_singleton.mp hother]
    exact ⟨rfl, rfl⟩

theorem pictureChain_ok (device : Option Text) : Session.ChainOk device pictureChain where
  indexed := by
    intro file hfile
    simp only [pictureChain, List.mem_cons, List.not_mem_nil, or_false] at hfile
    rcases hfile with rfl | rfl
    · exact jpegPart_indexed (by decide) (by decide) (by decide)
    · exact jpegPart_indexed (by decide) (by decide) (by decide)
  increasing := by
    intro topic
    have hall : (pictureChain.flatMap File.messages).Pairwise fun a b => a.logTime < b.logTime := by
      decide
    exact hall.sublist (List.Sublist.flatMap_right _ fun file _ => List.filter_sublist ..)

theorem jpegBackend_builtin : jpegBackend.Builtin where
  builtin := fun _ => rfl
  prompt := jpegBackend_prompt
  stamped := by
    intro schema fed m _ _ triple htriple
    cases htriple

/-- The last of three pictures, by a window that begins behind the first part's pictures. -/
theorem stream_windowed_pictures :
    ((openSession [pictureChain] .auto 0).streamElements jpegBackend jpegExposing
        { startNs := some 25, endNs := some 40 }).items.Perm
      (((openSession [pictureChain] .auto 0).streamElements jpegBackend jpegExposing
        {}).items.filter fun element => inWindow (some 25) (some 40) element.tNs) := by
  refine stream_windowed jpegBackend jpegExposing jpegBackend_builtin
    (fun _ _ _ _ _ _ _ => rfl) [pictureChain] .auto 0 (Int.le_refl 0)
    { startNs := some 25, endNs := some 40 } (by decide +kernel) ?_ ?_ ?_ ?_
  · intro group hgroup
    rw [List.mem_singleton.mp hgroup]
    constructor
    · intro file hfile rotation hrotation
      simp only [pictureChain, List.mem_cons, List.not_mem_nil, or_false] at hfile
      rcases hfile with rfl | rfl
      · cases hrotation
        decide
      · cases hrotation
        decide
    · refine List.pairwise_pair.mpr fun rotation other hrotation hother _ => ?_
      cases hrotation
      cases hother
      decide
  · intro group hgroup chain hchain
    rw [List.mem_singleton.mp hgroup] at hchain
    have hchains : chainsOf (fileOrder pictureChain) = [pictureChain] := by decide +kernel
    rw [hchains] at hchain
    rw [List.mem_singleton.mp hchain]
    exact pictureChain_ok _
  · unfold Gen.Returns
    decide +kernel
  · unfold Gen.Returns
    decide +kernel

end VisioSchema.Reader

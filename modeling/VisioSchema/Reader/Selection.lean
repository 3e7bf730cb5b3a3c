import VisioSchema.Reader.Restarts

/-!
# The files of a window

A windowed pass skips files that the window does not meet, except for those of a chain that hold
the keyframes its cameras need (`selectChain_spec`), and those with samples that may lie behind
the file they came in (`earlySelection`).
-/

namespace VisioSchema.Reader

open VisioSchema.Library VisioSchema.Wire

variable {D Ctx Img V ε : Type*}

namespace Session

variable {s : Session D} {backend : Backend D Ctx Img V ε} {q : Query}

/-! ## Keyframes before the window -/

/-- A keyframe of a camera that a file lists. -/
structure KeyIn (s : Session D) (backend : Backend D Ctx Img V ε) (startNs : ℤ) (topic : Topic)
    (file : File D) (m : Message D) : Prop where
  mem : m ∈ file.messages
  early : m.logTime ≤ startNs
  listed : ∃ entry ∈ file.index.topics, entry.topic = m.topic ∧ entry.schema = some .video
  strip : stripDevice s.device m.topic = some topic
  key : IsKeyUnit backend m

/-- A topic is needed no more once a keyframe of it was read. -/
theorem keyframeTopics_spec {needed left : List Topic} {messages : List (Message D)}
    (hleft : prerollStart.keyframeTopics s backend needed messages = .ok left) :
    ∀ topic ∈ needed, topic ∈ left ∨
      ∃ m ∈ messages, stripDevice s.device m.topic = some topic ∧ IsKeyUnit backend m := by
  induction messages generalizing needed with
  | nil =>
      cases hleft
      exact fun topic htopic => Or.inl htopic
  | cons m rest ih =>
      have hlater : ∀ {needed : List Topic},
          prerollStart.keyframeTopics s backend needed rest = .ok left →
          ∀ topic ∈ needed, topic ∈ left ∨ ∃ n ∈ m :: rest,
            stripDevice s.device n.topic = some topic ∧ IsKeyUnit backend n := by
        intro needed hrest topic htopic
        refine (ih hrest topic htopic).imp_right ?_
        rintro ⟨n, hn, hfound⟩
        exact ⟨n, List.mem_cons_of_mem m hn, hfound⟩
      unfold prerollStart.keyframeTopics at hleft
      split at hleft
      next => exact hlater hleft
      next other hstrip =>
        split at hleft
        next => exact hlater hleft
        next =>
          split at hleft
          next => cases hleft
          next video hparse =>
            split at hleft
            next hkey =>
              intro topic htopic
              by_cases hsame : topic = other
              · exact Or.inr ⟨m, List.mem_cons_self .., hsame ▸ hstrip, video, hparse, hkey⟩
              · exact hlater hleft topic (List.mem_filter.mpr ⟨htopic, by simpa using hsame⟩)
            next => exact hlater hleft

/-- The walk back ends at the first file, or behind a keyframe of every topic. -/
theorem prerollStart_spec {startNs : ℤ} {needed : List Topic} {files : List (File D)} {pos : ℕ}
    (hpos : s.prerollStart backend startNs needed files = .ok pos) :
    pos ≤ files.length - 1 ∧ (pos = 0 ∨ ∀ topic ∈ needed,
      ∃ file ∈ files.take (files.length - pos), ∃ m, KeyIn s backend startNs topic file m) := by
  induction files generalizing needed pos with
  | nil =>
      cases hpos
      exact ⟨Nat.le_refl 0, Or.inl rfl⟩
  | cons file earlier ih =>
      unfold prerollStart at hpos
      dsimp only at hpos
      split at hpos
      next => cases hpos
      next left hleft =>
        have hfound : ∀ topic ∈ needed, topic ∈ left ∨
            ∃ m, KeyIn s backend startNs topic file m := by
          intro topic htopic
          refine (keyframeTopics_spec hleft topic htopic).imp_right ?_
          rintro ⟨m, hm, hstrip, hkey⟩
          obtain ⟨hmem, hread⟩ := List.mem_filter.mp hm
          simp only [Bool.and_eq_true, decide_eq_true_eq, Option.all_some] at hread
          obtain ⟨entry, hentry, htopic⟩ := List.mem_map.mp hread.1
          obtain ⟨hlisted, htest⟩ := List.mem_filter.mp hentry
          simp only [Bool.and_eq_true, decide_eq_true_eq] at htest
          exact ⟨m, hmem, by omega, ⟨entry, hlisted, htopic, htest.1.2⟩, hstrip, hkey⟩
        split at hpos
        next hnone =>
          obtain rfl : earlier.length = pos := Except.ok.inj hpos
          refine ⟨by simp, Or.inr fun topic htopic => ?_⟩
          rcases hfound topic htopic with hin | hkey
          · rw [hnone] at hin
            exact absurd hin List.not_mem_nil
          · exact ⟨file, by simp, hkey⟩
        next =>
          obtain ⟨hle, hrest⟩ := ih hpos
          refine ⟨by simp; omega, hrest.imp_right fun hkeys topic htopic => ?_⟩
          have hlength : (file :: earlier).length - pos = earlier.length - pos + 1 := by
            simp only [List.length_cons]
            omega
          rw [hlength, List.take_succ_cons]
          rcases hfound topic htopic with hin | hkey
          · obtain ⟨other, hother, hkey⟩ := hkeys topic hin
            exact ⟨other, List.mem_cons_of_mem file hother, hkey⟩
          · exact ⟨file, List.mem_cons_self .., hkey⟩

/-! ## A chain -/

/-- The cameras that a file holds access units of, by its index. -/
def countedVideo (s : Session D) (q : Query) (file : File D) : List Topic :=
  s.countedTopics file.index q.want q.rawSet fun entry => entry.schema = some .video

/-- What is read of a chain. -/
structure ChainRead (s : Session D) (backend : Backend D Ctx Img V ε) (q : Query)
    (chain skipped read rest : List (File D)) (chosen : List (File D × Option Want)) : Prop where
  split : chain = skipped ++ (read ++ rest)
  chosen_eq : chosen = skipped.map (·, none) ++ (read.map (·, some q.want) ++ rest.map (·, none))
  outside : ∀ file ∈ skipped ++ rest, spansWindow file.index q.startNs q.endNs = false
  preroll : ∀ start, q.startNs = some start → q.rawAll = false → backend.custom .video = false →
    (∀ file ∈ chain, file.rotation.isSome = true) → ∀ topic,
      (∃ file ∈ skipped, topic ∈ s.countedVideo q file) →
      (∃ file ∈ read, spansWindow file.index q.startNs q.endNs = true ∧
        topic ∈ s.countedVideo q file) →
      ∃ file ∈ read, ∃ m, KeyIn s backend start topic file m

/-- A file that the window meets stands between the first and the last of them. -/
theorem mem_body {outside : File D → Bool} {chain : List (File D)} {file : File D}
    (hfile : file ∈ chain) (hmeets : outside file = false) :
    file ∈ (chain.dropWhile outside).rdropWhile outside := by
  have hsplit : chain = chain.takeWhile outside ++ ((chain.dropWhile outside).rdropWhile outside ++
      (chain.dropWhile outside).rtakeWhile outside) := by
    rw [List.rdropWhile_append_rtakeWhile, List.takeWhile_append_dropWhile]
  rw [hsplit] at hfile
  rcases List.mem_append.mp hfile with hfront | hfile
  · rw [List.mem_takeWhile_imp hfront] at hmeets
    cases hmeets
  · rcases List.mem_append.mp hfile with hbody | htail
    · exact hbody
    · rw [List.mem_rtakeWhile_imp htail] at hmeets
      cases hmeets

theorem selectChain_spec {chain : List (File D)} {chosen : List (File D × Option Want)}
    (hselect : s.selectChain backend q chain = .ok chosen) :
    ∃ skipped read rest, s.ChainRead backend q chain skipped read rest chosen := by
  unfold selectChain at hselect
  dsimp only at hselect
  generalize houtside : (fun file : File D => !spansWindow file.index q.startNs q.endNs) = outside
    at hselect
  have hmeets : ∀ file : File D, outside file = !spansWindow file.index q.startNs q.endNs := by
    intro file
    rw [← houtside]
  generalize hfront : chain.takeWhile outside = front at hselect
  generalize hbody : (chain.dropWhile outside).rdropWhile outside = body at hselect
  generalize htail : (chain.dropWhile outside).rtakeWhile outside = tail at hselect
  have hchain : chain = front ++ (body ++ tail) := by
    rw [← hfront, ← hbody, ← htail, List.rdropWhile_append_rtakeWhile,
      List.takeWhile_append_dropWhile]
  have hfrontOutside : ∀ file ∈ front, spansWindow file.index q.startNs q.endNs = false := by
    intro file hfile
    rw [← hfront] at hfile
    have hout := List.mem_takeWhile_imp hfile
    rwa [hmeets, Bool.not_eq_true'] at hout
  have htailOutside : ∀ file ∈ tail, spansWindow file.index q.startNs q.endNs = false := by
    intro file hfile
    rw [← htail] at hfile
    have hout := List.mem_rtakeWhile_imp hfile
    rwa [hmeets, Bool.not_eq_true'] at hout
  split at hselect
  next => cases hselect
  next skip hskip =>
    obtain rfl := Except.ok.inj hselect
    -- no more than the files before the window are skipped
    obtain ⟨hle, hkeys⟩ : skip ≤ front.length ∧ ∀ start, q.startNs = some start →
        q.rawAll = false → backend.custom .video = false →
        (∀ file ∈ chain, file.rotation.isSome = true) → ∀ topic,
        topic ∈ front.flatMap (s.countedVideo q) → topic ∈ body.flatMap (s.countedVideo q) →
        skip ≠ 0 → ∃ file ∈ front.drop skip ++ body, ∃ m, KeyIn s backend start topic file m := by
      split at hskip
      next start first others hstart =>
        split at hskip
        next hneeded =>
          obtain ⟨hle, hkeys⟩ := prerollStart_spec hskip
          rw [List.length_cons, List.length_reverse] at hle hkeys
          refine ⟨by omega, fun start' hstart' _ _ _ topic hfront' hbody' hsome => ?_⟩
          obtain rfl : start = start' := Option.some.inj (hstart.symm.trans hstart')
          have hin : topic ∈ (front.flatMap (s.countedVideo q)).filter
              (· ∈ (first :: others).flatMap (s.countedVideo q)) :=
            List.mem_filter.mpr ⟨hfront', by simpa using hbody'⟩
          obtain ⟨file, hfile, hkey⟩ := (hkeys.resolve_left hsome) topic hin
          refine ⟨file, ?_, hkey⟩
          have hreverse : first :: front.reverse = (front ++ [first]).reverse := by simp
          rw [hreverse, List.take_reverse, List.mem_reverse, List.length_append,
            List.length_singleton, Nat.sub_sub_self (by omega),
            List.drop_append_of_le_length (by omega)] at hfile
          rcases List.mem_append.mp hfile with hfile | hfile
          · exact List.mem_append_left _ hfile
          · rw [List.mem_singleton.mp hfile]
            exact List.mem_append_right _ (List.mem_cons_self ..)
        next hneeded =>
          obtain rfl : front.length = skip := Except.ok.inj hskip
          refine ⟨Nat.le_refl _, fun start' _ hraw hbuiltin hmarked topic hfront' hbody' _ => ?_⟩
          refine absurd ⟨?_, hraw, hbuiltin, ?_⟩ hneeded
          · exact hmarked first (by rw [hchain]; simp)
          · refine List.ne_nil_of_mem (List.mem_filter.mpr ⟨hfront', ?_⟩)
            simpa [countedVideo] using hbody'
      next hnone =>
        obtain rfl : front.length = skip := Except.ok.inj hskip
        refine ⟨Nat.le_refl _, fun start hstart _ _ _ topic _ hbody' _ => ?_⟩
        obtain ⟨late, hlate, -⟩ := List.mem_flatMap.mp hbody'
        obtain ⟨first, others, hcons⟩ := List.exists_cons_of_ne_nil (List.ne_nil_of_mem hlate)
        exact (hnone start first others hstart hcons).elim
    have htake : (front ++ body).take skip = front.take skip := List.take_append_of_le_length hle
    have hdrop : (front ++ body).drop skip = front.drop skip ++ body :=
      List.drop_append_of_le_length hle
    refine ⟨front.take skip, front.drop skip ++ body, tail, ?_, ?_, ?_, ?_⟩
    · rw [hchain, List.append_assoc, ← List.append_assoc (front.take skip), List.take_append_drop]
    · rw [htake, hdrop, List.append_assoc]
    · intro file hfile
      rcases List.mem_append.mp hfile with hfile | hfile
      · exact hfrontOutside file (List.mem_of_mem_take hfile)
      · exact htailOutside file hfile
    · rintro start hstart hraw hbuiltin hmarked topic ⟨early, hearly, htopic⟩
        ⟨late, hlate, hspans, htopic'⟩
      have hchainLate : late ∈ chain := by
        rw [hchain]
        rcases List.mem_append.mp hlate with hlate | hlate
        · exact List.mem_append_left _ (List.mem_of_mem_drop hlate)
        · exact List.mem_append_right _ (List.mem_append_left _ hlate)
      have hbodyLate : late ∈ body := by
        rw [← hbody]
        exact mem_body hchainLate (by rw [hmeets, hspans]; rfl)
      refine hkeys start hstart hraw hbuiltin hmarked topic ?_ ?_ ?_
      · exact List.mem_flatMap.mpr ⟨early, List.mem_of_mem_take hearly, htopic⟩
      · exact List.mem_flatMap.mpr ⟨late, hbodyLate, htopic'⟩
      · rintro rfl
        exact absurd hearly List.not_mem_nil

end Session

end VisioSchema.Reader

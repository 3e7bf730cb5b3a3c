import Mathlib.Data.List.SplitBy
import VisioSchema.Reader.Session

/-!
# What a pass reads

A pass without a window reads every file of every stream.  What it yields before the reordering
stems from messages: an element is never older than the message it comes from, and arrives with
it, provided that the adapters keep to that.
-/

namespace VisioSchema.Reader

open VisioSchema.Library VisioSchema.Wire

variable {D Ctx Img V ε : Type*}

/-! ## The selection -/

namespace Session

variable {s : Session D} {backend : Backend D Ctx Img V ε} {q : Query}

theorem spansWindow_unbounded (index : FileIndex) : spansWindow index none none = true := by
  unfold spansWindow
  split <;> rfl

/-- No time within the bounds of a file that a window does not meet is in the window. -/
theorem inWindow_outside {index : FileIndex} {startNs endNs : Option ℤ}
    (houtside : spansWindow index startNs endNs = false) {t : ℤ}
    (hbounds : ∀ lo hi, index.startNs = some lo → index.endNs = some hi → lo ≤ t ∧ t ≤ hi) :
    inWindow startNs endNs t = false := by
  unfold spansWindow at houtside
  split at houtside
  next lo hi hlo hhi =>
    obtain ⟨hlow, hhigh⟩ := hbounds lo hi hlo hhi
    by_contra hin
    rw [Bool.not_eq_false, inWindow, Bool.and_eq_true] at hin
    obtain ⟨hstart, hstop⟩ := hin
    have hmeets : endNs.all (fun stop => decide (lo < stop)) = true ∧
        startNs.all (fun start => decide (start ≤ hi)) = true := by
      constructor
      · cases endNs with
        | none => rfl
        | some stop =>
            simp only [Option.all_some, decide_eq_true_eq] at hstop ⊢
            omega
      · cases startNs with
        | none => rfl
        | some start =>
            simp only [Option.all_some, decide_eq_true_eq] at hstart ⊢
            omega
    rw [hmeets.1, hmeets.2] at houtside
    cases houtside
  next => cases houtside

theorem selectChain_unbounded (hstart : q.startNs = none) (hend : q.endNs = none)
    (chain : List (File D)) :
    s.selectChain backend q chain = .ok (chain.map (·, some q.want)) := by
  have houtside : (fun file : File D => !spansWindow file.index q.startNs q.endNs) =
      fun _ => false := by
    funext file
    rw [hstart, hend, spansWindow_unbounded]
    rfl
  have hfront : chain.takeWhile (fun _ => false) = [] := by
    cases chain <;> rfl
  have hrest : chain.dropWhile (fun _ => false) = chain := by
    cases chain <;> rfl
  have hbody : chain.rdropWhile (fun _ => false) = chain := by simp
  have htail : chain.rtakeWhile (fun _ => false) = [] := by simp
  unfold selectChain
  dsimp only
  rw [houtside, hfront, hrest, hbody, htail, hstart]
  simp

theorem selectChains_unbounded (hstart : q.startNs = none) (hend : q.endNs = none)
    (chains : List (List (File D))) :
    s.selectChains backend q chains = .ok (chains.flatten.map (·, some q.want)) := by
  induction chains with
  | nil => rfl
  | cons chain rest ih =>
      rw [selectChains, selectChain_unbounded hstart hend, ih, List.flatten_cons, List.map_append]

/-- Without a window every file is read. -/
theorem windowMembers_unbounded (hstart : q.startNs = none) (hend : q.endNs = none)
    (members : List (File D)) :
    s.windowMembers backend q members = .ok (members.map (·, q.want)) := by
  unfold windowMembers
  rw [selectChains_unbounded hstart hend, List.flatten_splitBy]
  simp only [List.filterMap_map]
  refine congrArg Except.ok ?_
  induction members with
  | nil => rfl
  | cons file rest ih => simp [ih]

theorem oneStream_unbounded (hstart : q.startNs = none) (hend : q.endNs = none)
    (members : List (File D)) :
    s.oneStream backend q members =
      (Gen.each (s.streamFile backend q) {} (members.map (·, q.want))).andThen fun _ =>
        .done () := by
  rw [oneStream, windowMembers_unbounded hstart hend]

end Session

/-! ## Where the elements come from -/

/-- The triple arrives with a message and is not older than it; its element has its stamp. -/
structure FromMessage {K W : Type*} (m : Message D) (triple : Triple K W) : Prop where
  arrives : triple.arrivalNs = m.logTime
  later : m.logTime ≤ triple.sortNs
  stamped : triple.sortNs = triple.element.tNs

/-- The adapters put the message's time beside each element, which is not older and sorts by its
own stamp, and hold nothing back. -/
structure Backend.Prompt (backend : Backend D Ctx Img V ε) : Prop where
  emits : ∀ schema fed m, ∀ triple ∈ (backend.emit schema fed m).items,
    triple.arrivalNs = m.tNs ∧ m.tNs ≤ triple.sortNs ∧ triple.sortNs = triple.element.tNs
  flushes : ∀ schema fed, (backend.flush schema fed).items = []

namespace Session

variable {s : Session D} {backend : Backend D Ctx Img V ε} {q : Query}

/-- What an access unit yields are frames of its camera, with its time. -/
theorem decodeUnit_items {carry : Bool} {topic : Topic} {m : Message D} {sequence : Option ℕ}
    {decoder after : Option (Decoding Ctx)} {items : List (Triple Topic (Value Img D V))}
    (hdecoded : decodeUnit backend carry topic m sequence decoder = .ok (items, after)) :
    ∀ triple ∈ items, ∃ image frameId,
      triple = ⟨m.logTime, m.logTime, ⟨topic, m.logTime, .frame image frameId⟩⟩ := by
  unfold decodeUnit at hdecoded
  split at hdecoded
  next => cases hdecoded
  next video _ =>
    split at hdecoded
    next => cases hdecoded
    next image _ _ =>
      cases hdecoded
      intro triple htriple
      obtain ⟨picture, -, rfl⟩ := List.mem_map.mp htriple
      exact ⟨picture, video.frameId, rfl⟩

theorem videoMessage_from {carry : Bool} {topic : Topic} {m : Message D} {pass : Pass Ctx D} :
    ∀ triple ∈ (videoMessage backend carry topic m pass).items, FromMessage m triple := by
  unfold videoMessage
  split
  next => simp
  next hdecoded =>
    intro triple htriple
    obtain ⟨image, frameId, rfl⟩ := decodeUnit_items hdecoded triple htriple
    exact ⟨rfl, Int.le_refl _, rfl⟩

theorem iterMessage_from (hprompt : backend.Prompt) {built : List Schema} {rawSet : List Topic}
    {carry : Bool} {pass : Pass Ctx D} {m : Message D} :
    ∀ triple ∈ (s.iterMessage backend built rawSet carry pass m).items, FromMessage m triple := by
  unfold iterMessage
  split
  next schema topic _ _ =>
    split
    next =>
      intro triple htriple
      rw [List.mem_singleton.mp htriple]
      exact ⟨rfl, Int.le_refl _, rfl⟩
    next =>
      split
      next => simp
      next =>
        split
        next => exact videoMessage_from
        next =>
          intro triple htriple
          obtain ⟨source, hsource, rfl⟩ := List.mem_map.mp htriple
          obtain ⟨harrives, hlater, hstamped⟩ := hprompt.emits _ _ _ source hsource
          exact ⟨harrives, hlater, hstamped⟩
  next => simp

theorem flushAdapter_items (hprompt : backend.Prompt) (pass : Pass Ctx D) (schema : Schema) :
    (flushAdapter backend pass schema).items = [] := by
  unfold flushAdapter
  split
  next => rfl
  next =>
    unfold adapted
    rw [hprompt.flushes]
    rfl

/-- What a file yields comes from its messages, in the order of their arrival. -/
theorem iterFile_from (hprompt : backend.Prompt) {file : File D} {want : Want}
    {carried : Option (Carried Ctx)}
    (hordered : file.messages.Pairwise fun a b => a.logTime ≤ b.logTime) :
    (∀ triple ∈ (s.iterFile backend q file want carried).items,
        ∃ m ∈ file.messages, FromMessage m triple) ∧
      (s.iterFile backend q file want carried).items.Pairwise fun a b =>
        a.arrivalNs ≤ b.arrivalNs := by
  have hread : ∀ topics endNs, ∀ m ∈ readMessages file topics endNs, m ∈ file.messages :=
    fun topics endNs m hm => (List.mem_filter.mp hm).1
  have hreadOrdered : ∀ topics endNs, (readMessages file topics endNs).Pairwise fun a b =>
      a.logTime ≤ b.logTime := fun topics endNs => hordered.sublist (List.filter_sublist ..)
  unfold iterFile
  dsimp only
  split
  next => simp
  next =>
    split
    next =>
      -- Everything is passed through: an item is its message.
      refine ⟨fun triple htriple => ?_, ?_⟩
      · obtain ⟨m, hm, hmap⟩ := List.mem_filterMap.mp htriple
        split at hmap
        next =>
          obtain ⟨topic, -, rfl⟩ := Option.map_eq_some_iff.mp hmap
          exact ⟨m, hread _ _ m hm, rfl, Int.le_refl _, rfl⟩
        next => cases hmap
      · refine List.pairwise_filterMap.mpr ((hreadOrdered _ _).imp ?_)
        intro a b hab x hx y hy
        split at hx
        next =>
          split at hy
          next =>
            obtain ⟨_, -, rfl⟩ := Option.map_eq_some_iff.mp hx
            obtain ⟨_, -, rfl⟩ := Option.map_eq_some_iff.mp hy
            exact hab
          next => cases hy
        next => cases hx
    next =>
      -- Adapters that keep to `Prompt` hold nothing back, so the flush behind the messages yields
      -- nothing.
      have hflush : ∀ (built : List Schema) (pass : Pass Ctx D),
          ((Gen.each (flushAdapter backend) pass built :
            Gen (Triple Topic (Value Img D V)) (ReadError ε) (Pass Ctx D))).items = [] := by
        intro built pass
        refine List.eq_nil_iff_forall_not_mem.mpr fun triple htriple => ?_
        refine Gen.each_forall (P := fun _ => False) ?_ pass triple htriple
        intro pass schema _ triple htriple
        rw [flushAdapter_items hprompt] at htriple
        cases htriple
      have hnothing : ∀ (carry : Bool) (built : List Schema) (pass : Pass Ctx D),
          ∀ triple, triple ∉ ((Gen.each (flushAdapter backend) pass built).andThen fun pass =>
            (.done (if carry then some pass.carried else carried) :
              Gen (Triple Topic (Value Img D V)) (ReadError ε) _)).items := by
        intro carry built pass
        refine Gen.andThen_forall (P := fun _ => False) ?_ ?_
        · intro triple htriple
          rw [hflush] at htriple
          cases htriple
        · simp
      refine ⟨?_, ?_⟩
      · refine Gen.andThen_forall ?_ fun pass _ triple htriple =>
          absurd htriple (hnothing _ _ _ triple)
        refine Gen.each_forall ?_ _
        exact fun pass m hm triple htriple =>
          ⟨m, hread _ _ m hm, iterMessage_from hprompt triple htriple⟩
      · refine Gen.andThen_pairwise ?_ ?_ ?_
        · -- Items of one message arrive together, those of two messages as these were read.
          refine Gen.each_pairwise (P := fun m triple => FromMessage m triple) ?_ ?_ _
          · intro pass m _
            have hfrom := @iterMessage_from _ _ _ _ _ s backend hprompt
            refine ⟨?_, hfrom⟩
            refine List.pairwise_of_forall_mem_list fun a ha b hb => ?_
            exact ((hfrom a ha).arrives.trans (hfrom b hb).arrives.symm).le
          · refine (hreadOrdered _ _).imp fun hab x y hx hy => ?_
            rw [hx.arrives, hy.arrives]
            exact hab
        · exact fun pass _ => List.pairwise_of_forall_mem_list fun a ha =>
            absurd ha (hnothing _ _ _ a)
        · exact fun pass _ a _ b hb => absurd hb (hnothing _ _ _ b)

end Session

end VisioSchema.Reader

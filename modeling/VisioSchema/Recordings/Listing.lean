import Mathlib.Data.Set.Card
import Mathlib.Data.Set.Finite.List
import Mathlib.Order.Defs.LinearOrder
import VisioSchema.Recordings.Pull

/-!
# Listing all recordings

`ListAllRecordings`, `list_all_recordings` and `listAllRecordings`: the client follows cursors from
page to page until a page has none.  The device is not part of the repository, and may record and
delete sessions between two pages.  A cursor names a position that stays valid meanwhile
(`recordings_pull.md`, section 1); `Paged` says what that gives a page.

Against any device at all the loop ends, since no cursor is followed twice and a cursor has at
most 63 bytes: `Fresh` keeps that the cursors that were sent are distinct, so there are never more
of them than `cursorCount`.  Against a device that pages, `Collected` says what the loop has when it
follows a cursor, namely every session that stays down to the cursor's position; a page keeps it
(`Collected.next`), and the last page makes the listing `Complete`.
-/

namespace VisioSchema.Recordings

open VisioSchema.Wire

/-- `RecordingsList`, as far as the loop reads it. -/
structure RecordingsList (ε : Type*) where
  recordings : List ε
  nextCursor : List Byte := []

/-- How `ListRecordings` came back to the client. -/
inductive ListReply (ε : Type*)
  | noAnswer
  | refused (errorCode : String)
  | recordings (page : RecordingsList ε)
  | otherPayload

/-- How a listing ended. -/
inductive Listed
  | complete
  | failed (code : String)
  /-- An exception other than `RecordingsError`. -/
  | raised
  deriving DecidableEq, Repr

/-- What the clients do each in their own way; none sends a cursor of more than 63 bytes. -/
structure Lister where
  cursorFits : List Byte → Bool
  targetFits : List Byte → Bool
  invalid : Listed
  noAnswer : Listed
  fits_le : ∀ cursor, cursorFits cursor = true → cursor.length ≤ kMaxNameBytes

/-- The variables of the loop. -/
structure Following (ε : Type*) where
  cursor : List Byte := []
  seen : List (List Byte) := []
  entries : List ε := []

namespace Lister

variable {ε : Type*} (lister : Lister) (targetDevice : List Byte)

/-- One pass of the loop: the next state, or what the caller gets. -/
def turn (reply : ListReply ε) (s : Following ε) : Following ε ⊕ List ε × Listed :=
  if (lister.cursorFits s.cursor && lister.targetFits targetDevice) = false then
    .inr (s.entries, lister.invalid)
  else
    match reply with
    | .noAnswer => .inr (s.entries, lister.noAnswer)
    | .refused errorCode =>
        .inr (s.entries, .failed (if errorCode = "" then "failed" else errorCode))
    | .otherPayload => .inr (s.entries, .failed "protocol")
    | .recordings page =>
        let entries := s.entries ++ page.recordings
        if page.nextCursor = [] then .inr (entries, .complete)
        -- the cursor did not advance
        else if page.nextCursor ∈ s.seen then .inr (entries, .failed "protocol")
        else .inl
          { cursor := page.nextCursor, seen := page.nextCursor :: s.seen, entries := entries }

/-- The loop, for so many passes; `device` answers a call by its number and its cursor. -/
def listFrom (device : ℕ → List Byte → ListReply ε) :
    ℕ → ℕ → Following ε → Option (List ε × Listed)
  | 0, _, _ => none
  | turns + 1, call, s =>
      match lister.turn targetDevice (device call s.cursor) s with
      | .inl s => listFrom device turns (call + 1) s
      | .inr ended => some ended

/-- `list_all_recordings`; a client that raises keeps its entries to itself. -/
def listAllRecordings (device : ℕ → List Byte → ListReply ε) (turns : ℕ) :
    Option (List ε × Listed) :=
  lister.listFrom targetDevice device turns 0 {}

end Lister

/-- `ListAllRecordings` of `recordings.hpp`. -/
def Cpp.lister : Lister where
  cursorFits := fun cursor => decide (cursor.length < 64) && !cursor.contains 0
  targetFits := fun target => decide (target.length < 32) && !target.contains 0
  invalid := .failed "invalid_request"
  noAnswer := .failed "no_answer"
  fits_le := by
    intro cursor hfits
    simp only [Bool.and_eq_true, decide_eq_true_eq] at hfits
    exact Nat.le_of_lt_succ hfits.1

/-- `list_all_recordings` of `recordings.py`; `listAllRecordings` of `recordings.ts` is the
same. -/
def Python.lister : Lister where
  cursorFits := fun cursor => decide (cursor.length ≤ kMaxNameBytes)
  targetFits := fun _ => true
  invalid := .raised
  noAnswer := .raised
  fits_le := fun _ hfits => of_decide_eq_true hfits

/-! ## Any device -/

namespace Lister

variable {ε : Type*} {lister : Lister} {targetDevice : List Byte}

/-- A pass that goes on follows a cursor that was not followed before. -/
theorem turn_eq_inl {reply : ListReply ε} {s s' : Following ε}
    (hturn : lister.turn targetDevice reply s = .inl s') :
    lister.cursorFits s.cursor = true ∧ s'.cursor ≠ [] ∧ s'.cursor ∉ s.seen ∧
      s'.seen = s'.cursor :: s.seen := by
  unfold turn at hturn
  by_cases hinvalid : (lister.cursorFits s.cursor && lister.targetFits targetDevice) = false
  · rw [if_pos hinvalid] at hturn
    cases hturn
  rw [if_neg hinvalid] at hturn
  have hfits : lister.cursorFits s.cursor = true := by
    simp only [Bool.not_eq_false, Bool.and_eq_true] at hinvalid
    exact hinvalid.1
  cases reply with
  | noAnswer => cases hturn
  | refused errorCode => cases hturn
  | otherPayload => cases hturn
  | recordings page =>
      dsimp only at hturn
      by_cases hlast : page.nextCursor = []
      · rw [if_pos hlast] at hturn
        cases hturn
      · rw [if_neg hlast] at hturn
        by_cases hseen : page.nextCursor ∈ s.seen
        · rw [if_pos hseen] at hturn
          cases hturn
        · rw [if_neg hseen] at hturn
          obtain rfl := Sum.inl.inj hturn
          exact ⟨hfits, hlast, hseen, rfl⟩

/-- The cursors that were followed are distinct, and were sent but for the last one; the first
call has none. -/
structure Fresh (lister : Lister) (s : Following ε) : Prop where
  nodup : s.seen.Nodup
  followed : [] ∉ s.seen
  sent : ∀ cursor ∈ s.seen, cursor = s.cursor ∨ lister.cursorFits cursor = true

/-- How many cursors of at most 63 bytes there are. -/
noncomputable def cursorCount : ℕ :=
  Set.ncard {cursor : List Byte | cursor.length ≤ kMaxNameBytes}

theorem cursors_finite : {cursor : List Byte | cursor.length ≤ kMaxNameBytes}.Finite := by
  have hbyte : Finite Byte := Finite.of_injective UInt8.toFin fun _ _ => UInt8.toFin_inj.mp
  exact List.finite_length_le Byte kMaxNameBytes

/-- So many distinct cursors have been followed at most. -/
theorem Fresh.length_le {s : Following ε} (hfresh : Fresh lister s) :
    s.seen.length ≤ cursorCount := by
  -- the cursors that were sent: none at first, then all that were followed but the last
  have hnodup : ([] :: s.seen.erase s.cursor).Nodup :=
    List.nodup_cons.mpr ⟨fun hmem => hfresh.followed (List.mem_of_mem_erase hmem),
      hfresh.nodup.erase _⟩
  have hsub : (([] :: s.seen.erase s.cursor).toFinset : Set (List Byte)) ⊆
      {cursor | cursor.length ≤ kMaxNameBytes} := by
    intro cursor hmem
    rw [Finset.mem_coe, List.mem_toFinset] at hmem
    rcases List.mem_cons.mp hmem with rfl | hmem
    · exact Nat.zero_le _
    · rw [hfresh.nodup.mem_erase_iff] at hmem
      exact lister.fits_le cursor ((hfresh.sent cursor hmem.2).resolve_left hmem.1)
  calc s.seen.length
      ≤ ([] :: s.seen.erase s.cursor).length := by
        rw [List.length_cons, List.length_erase]
        split <;> omega
    _ = ([] :: s.seen.erase s.cursor).toFinset.card := (List.toFinset_card_of_nodup hnodup).symm
    _ = (([] :: s.seen.erase s.cursor).toFinset : Set (List Byte)).ncard :=
        (Set.ncard_coe_finset _).symm
    _ ≤ cursorCount := Set.ncard_le_ncard hsub cursors_finite

theorem Fresh.init : Fresh lister ({} : Following ε) := ⟨List.nodup_nil, by simp, by simp⟩

theorem Fresh.turn {reply : ListReply ε} {s s' : Following ε} (hfresh : Fresh lister s)
    (hturn : lister.turn targetDevice reply s = .inl s') : Fresh lister s' := by
  obtain ⟨hfits, hcursor, hnew, hseen⟩ := turn_eq_inl hturn
  refine ⟨?_, ?_, ?_⟩
  · rw [hseen]
    exact List.nodup_cons.mpr ⟨hnew, hfresh.nodup⟩
  · rw [hseen]
    intro hmem
    rcases List.mem_cons.mp hmem with hempty | hold
    · exact hcursor hempty.symm
    · exact hfresh.followed hold
  · intro cursor hmem
    rw [hseen] at hmem
    rcases List.mem_cons.mp hmem with rfl | hold
    · exact Or.inl rfl
    · refine Or.inr ?_
      rcases hfresh.sent cursor hold with rfl | hsent
      · exact hfits
      · exact hsent

theorem listFrom_ends (device : ℕ → List Byte → ListReply ε) (turns call : ℕ) (s : Following ε)
    (hfresh : Fresh lister s) (hturns : cursorCount < s.seen.length + turns) :
    ∃ ended, lister.listFrom targetDevice device turns call s = some ended := by
  induction turns generalizing call s with
  | zero =>
      have hle := hfresh.length_le
      omega
  | succ turns ih =>
      unfold listFrom
      cases hturn : lister.turn targetDevice (device call s.cursor) s with
      | inr ended => exact ⟨ended, rfl⟩
      | inl next =>
          obtain ⟨-, -, -, hseen⟩ := turn_eq_inl hturn
          apply ih (call + 1) next (hfresh.turn hturn)
          rw [hseen, List.length_cons]
          omega

theorem listFrom_init_ends (device : ℕ → List Byte → ListReply ε) :
    ∃ ended, lister.listFrom targetDevice device (cursorCount + 1) 0 {} = some ended := by
  apply listFrom_ends device (cursorCount + 1) 0 {} Fresh.init
  show cursorCount < 0 + (cursorCount + 1)
  omega

/-- Against every device the loop ends, at most one pass after it has sent every cursor that can
be sent. -/
theorem listAllRecordings_ends (lister : Lister) (targetDevice : List Byte)
    (device : ℕ → List Byte → ListReply ε) :
    ∃ ended, lister.listAllRecordings targetDevice device (cursorCount + 1) = some ended :=
  listFrom_init_ends device

end Lister

/-! ## A device that pages -/

section Paging

variable {ε κ : Type*} [LinearOrder κ]

/-- A session is older than the position of a cursor; without one, every session is. -/
def Older (position : List Byte → Option κ) (cursor : List Byte) (k : κ) : Prop :=
  ∀ p, position cursor = some p → k < p

/-- One page: of the sessions that the device holds at the call, newest first, those from the
position of the cursor down to that of the next one. -/
structure PageOf (lister : Lister) (key : ε → κ) (position : List Byte → Option κ)
    (held : List ε) (cursor : List Byte) (page : RecordingsList ε) : Prop where
  newestFirst : page.recordings.Pairwise fun a b => key b < key a
  covers : ∀ e, e ∈ page.recordings ↔ e ∈ held ∧ Older position cursor (key e) ∧
    (page.nextCursor ≠ [] → ¬ Older position page.nextCursor (key e))
  advances : page.nextCursor ≠ [] → ∃ p, position page.nextCursor = some p ∧
    ∀ q, position cursor = some q → p < q
  fits : lister.cursorFits page.nextCursor = true

/-- The device answers every call with a page of what it holds then. -/
def Paged (lister : Lister) (key : ε → κ) (position : List Byte → Option κ)
    (held : ℕ → List ε) (device : ℕ → List Byte → ListReply ε) : Prop :=
  ∀ call cursor, ∃ page, device call cursor = .recordings page ∧
    PageOf lister key position (held call) cursor page

namespace Lister

variable {lister : Lister} {targetDevice : List Byte} {key : ε → κ}
  {position : List Byte → Option κ} {held : ℕ → List ε} {device : ℕ → List Byte → ListReply ε}

/-- What the loop has when it follows a cursor: every session that stays, down to the position
of the cursor. -/
structure Collected (lister : Lister) (key : ε → κ) (position : List Byte → Option κ)
    (held : ℕ → List ε) (s : Following ε) : Prop where
  newestFirst : s.entries.Pairwise fun a b => key b < key a
  above : ∀ e ∈ s.entries, ¬ Older position s.cursor (key e)
  kept : ∀ e ∈ s.entries, ∃ call, e ∈ held call
  staying : ∀ k, (∀ call, ∃ e ∈ held call, key e = k) → ¬ Older position s.cursor k →
    ∃ e ∈ s.entries, key e = k
  descends : ∀ cursor ∈ s.seen, ∃ p q, position cursor = some p ∧
    position s.cursor = some q ∧ q ≤ p
  fits : lister.cursorFits s.cursor = true

/-- The entries that a page adds. -/
theorem Collected.page {s : Following ε} (hcollected : Collected lister key position held s)
    {call : ℕ} {page : RecordingsList ε}
    (hpage : PageOf lister key position (held call) s.cursor page) :
    (s.entries ++ page.recordings).Pairwise (fun a b => key b < key a) ∧
      (∀ e ∈ s.entries ++ page.recordings, ∃ call, e ∈ held call) ∧
      ∀ k, (∀ call, ∃ e ∈ held call, key e = k) →
        (page.nextCursor ≠ [] → ¬ Older position page.nextCursor k) →
          ∃ e ∈ s.entries ++ page.recordings, key e = k := by
  refine ⟨?_, ?_, ?_⟩
  · refine List.pairwise_append.mpr ⟨hcollected.newestFirst, hpage.newestFirst, ?_⟩
    intro a ha b hb
    obtain ⟨-, holder, -⟩ := (hpage.covers b).mp hb
    -- the earlier one is not older than the cursor, the later one is
    have hnot := hcollected.above a ha
    unfold Older at hnot
    push Not at hnot
    obtain ⟨p, hp, hle⟩ := hnot
    exact lt_of_lt_of_le (holder p hp) hle
  · intro e he
    rcases List.mem_append.mp he with hold | hnew
    · exact hcollected.kept e hold
    · exact ⟨call, ((hpage.covers e).mp hnew).1⟩
  · intro k hstays hnext
    by_cases holder : Older position s.cursor k
    · obtain ⟨e, he, rfl⟩ := hstays call
      exact ⟨e, List.mem_append_right _ ((hpage.covers e).mpr ⟨he, holder, hnext⟩), rfl⟩
    · obtain ⟨e, he, hkey⟩ := hcollected.staying k hstays holder
      exact ⟨e, List.mem_append_left _ he, hkey⟩

/-- A page with a cursor: the loop goes on behind it. -/
theorem Collected.next {s : Following ε} (hcollected : Collected lister key position held s)
    {call : ℕ} {page : RecordingsList ε}
    (hpage : PageOf lister key position (held call) s.cursor page)
    (hmore : page.nextCursor ≠ []) :
    page.nextCursor ∉ s.seen ∧ Collected lister key position held
      { cursor := page.nextCursor, seen := page.nextCursor :: s.seen
        entries := s.entries ++ page.recordings } := by
  obtain ⟨p, hp, hless⟩ := hpage.advances hmore
  obtain ⟨hnewest, hkept, hstaying⟩ := hcollected.page hpage
  refine ⟨?_, hnewest, ?_, hkept, ?_, ?_, hpage.fits⟩
  · intro hseen
    obtain ⟨p', q, hp', hq, hle⟩ := hcollected.descends _ hseen
    rw [hp] at hp'
    obtain rfl := Option.some.inj hp'
    exact absurd (hless q hq) (not_lt.mpr hle)
  · intro e he
    rcases List.mem_append.mp he with hold | hnew
    · intro holder
      refine hcollected.above e hold fun q hq => ?_
      exact lt_trans (holder p hp) (hless q hq)
    · exact ((hpage.covers e).mp hnew).2.2 hmore
  · intro k hstays hnot
    exact hstaying k hstays fun _ => hnot
  · intro cursor hmem
    rcases List.mem_cons.mp hmem with rfl | hold
    · exact ⟨p, p, hp, hp, le_refl p⟩
    · obtain ⟨p', q, hp', hq, hle⟩ := hcollected.descends cursor hold
      exact ⟨p', p, hp', hp, le_of_lt (lt_of_lt_of_le (hless q hq) hle)⟩

/-- What a listing gives: the sessions that stayed, newest first, and none but those that the
device held at some call. -/
structure Complete (key : ε → κ) (held : ℕ → List ε) (entries : List ε) : Prop where
  newestFirst : entries.Pairwise fun a b => key b < key a
  kept : ∀ e ∈ entries, ∃ call, e ∈ held call
  staying : ∀ k, (∀ call, ∃ e ∈ held call, key e = k) → ∃ e ∈ entries, key e = k

theorem listFrom_paged (htarget : lister.targetFits targetDevice = true)
    (hpaged : Paged lister key position held device) (turns call : ℕ) (s : Following ε)
    (hcollected : Collected lister key position held s) {ended : List ε × Listed}
    (hended : lister.listFrom targetDevice device turns call s = some ended) :
    ended.2 = .complete ∧ Complete key held ended.1 := by
  induction turns generalizing call s with
  | zero => cases hended
  | succ turns ih =>
      obtain ⟨page, hreply, hpage⟩ := hpaged call s.cursor
      have hvalid : ¬ (lister.cursorFits s.cursor && lister.targetFits targetDevice) = false := by
        simp [hcollected.fits, htarget]
      unfold listFrom turn at hended
      rw [hreply, if_neg hvalid] at hended
      dsimp only at hended
      by_cases hlast : page.nextCursor = []
      · rw [if_pos hlast] at hended
        obtain rfl := Option.some.inj hended
        obtain ⟨hnewest, hkept, hstaying⟩ := hcollected.page hpage
        exact ⟨rfl, hnewest, hkept, fun k hstays =>
          hstaying k hstays fun hmore => absurd hlast hmore⟩
      · obtain ⟨hfresh, hnext⟩ := hcollected.next hpage hlast
        rw [if_neg hlast, if_neg hfresh] at hended
        exact ih (call + 1) _ hnext hended

/-- While sessions are recorded and deleted between the pages, a listing from a device that pages
ends well: it has every session that stayed, none twice, newest first, and none that the device
did not hold. -/
theorem listAllRecordings_paged (lister : Lister) (targetDevice : List Byte)
    (htarget : lister.targetFits targetDevice = true) (hempty : lister.cursorFits [] = true)
    (key : ε → κ) (position : List Byte → Option κ) (hfirst : position [] = none)
    (held : ℕ → List ε) (device : ℕ → List Byte → ListReply ε)
    (hpaged : Paged lister key position held device) :
    ∃ entries, lister.listAllRecordings targetDevice device (cursorCount + 1) =
        some (entries, .complete) ∧
      Complete key held entries := by
  have hstart : Collected lister key position held {} := by
    refine ⟨List.Pairwise.nil, by simp, by simp, ?_, by simp, hempty⟩
    intro k hstays hnot
    refine absurd ?_ hnot
    intro p hp
    rw [hfirst] at hp
    cases hp
  obtain ⟨ended, hended⟩ := @listFrom_init_ends _ lister targetDevice device
  obtain ⟨hcomplete, hentries⟩ := listFrom_paged htarget hpaged _ 0 {} hstart hended
  refine ⟨ended.1, ?_, hentries⟩
  rw [listAllRecordings, hended, ← hcomplete]

end Lister

end Paging

/-! ## One session a page -/

/-- The sessions by number: after the first call one is deleted and two are recorded. -/
def changingSessions : ℕ → List ℕ
  | 0 => [5, 3, 1]
  | _ + 1 => [6, 4, 1]

def bytePosition : List Byte → Option ℕ
  | [byte] => some byte.toNat
  | _ => none

def olderSessions (call : ℕ) (cursor : List Byte) : List ℕ :=
  (changingSessions call).filter fun n => (bytePosition cursor).all fun p => decide (n < p)

/-- The newest of the older sessions, and its number as the cursor if there are more. -/
def onePage (call : ℕ) (cursor : List Byte) : RecordingsList ℕ :=
  match olderSessions call cursor with
  | newest :: _ :: _ => { recordings := [newest], nextCursor := [UInt8.ofNat newest] }
  | rest => { recordings := rest }

theorem onePage_pageOf (call : ℕ) (cursor : List Byte) :
    PageOf Cpp.lister id bytePosition (changingSessions call) cursor (onePage call cursor) := by
  have hsorted : (changingSessions call).Pairwise (fun a b => b < a) ∧
      ∀ n ∈ changingSessions call, 0 < n ∧ n < 256 := by
    cases call <;> simp [changingSessions]
  have hrest : (olderSessions call cursor).Pairwise fun a b => b < a :=
    hsorted.1.sublist List.filter_sublist
  have hmem : ∀ n, n ∈ olderSessions call cursor ↔
      n ∈ changingSessions call ∧ Older bytePosition cursor n := by
    intro n
    rw [olderSessions, List.mem_filter, Older]
    cases bytePosition cursor <;> simp
  unfold onePage
  cases hcase : olderSessions call cursor with
  | nil =>
      rw [hcase] at hmem
      exact ⟨List.Pairwise.nil, fun n => by simpa using hmem n, fun hne => absurd rfl hne, rfl⟩
  | cons newest rest =>
      rw [hcase] at hmem hrest
      obtain ⟨hheld, holder⟩ := (hmem newest).mp (List.mem_cons_self ..)
      obtain ⟨hpos, hlt⟩ := hsorted.2 newest hheld
      cases rest with
      | nil =>
          refine ⟨List.pairwise_singleton .., fun n => ?_, fun hne => absurd rfl hne, rfl⟩
          simpa using hmem n
      | cons second rest =>
          have hbyte : (UInt8.ofNat newest).toNat = newest := by
            rw [UInt8.toNat_ofNat']
            omega
          have hposition : bytePosition [UInt8.ofNat newest] = some newest := by
            rw [bytePosition, hbyte]
          refine ⟨List.pairwise_singleton .., ?_, ?_, ?_⟩
          · intro n
            have hnewer : Older bytePosition [UInt8.ofNat newest] n ↔ n < newest := by
              simp [Older, hposition]
            rw [List.mem_singleton, ← and_assoc, id, ← hmem n, hnewer]
            constructor
            · rintro rfl
              exact ⟨List.mem_cons_self .., fun _ => lt_irrefl _⟩
            · rintro ⟨hin, hnot⟩
              rcases List.mem_cons.mp hin with rfl | hlater
              · rfl
              · have hlower := (List.pairwise_cons.mp hrest).1 n hlater
                exact absurd hlower (hnot (by simp))
          · exact fun _ => ⟨newest, hposition, fun q hq => holder q hq⟩
          · have hne : UInt8.ofNat newest ≠ 0 := by
              intro hzero
              rw [hzero] at hbyte
              exact absurd hbyte (Nat.ne_of_lt hpos)
            simpa [Cpp.lister] using hne.symm

/-- Session 3 is deleted and sessions 4 and 6 are recorded while the listing runs. -/
theorem listAllRecordings_paged_changing :
    ∃ entries,
      Cpp.lister.listAllRecordings [] (fun call cursor => .recordings (onePage call cursor))
        (Lister.cursorCount + 1) = some (entries, .complete) ∧
      Lister.Complete id changingSessions entries :=
  Lister.listAllRecordings_paged Cpp.lister [] rfl rfl id bytePosition rfl changingSessions _
    fun call cursor => ⟨onePage call cursor, rfl, onePage_pageOf call cursor⟩

end VisioSchema.Recordings

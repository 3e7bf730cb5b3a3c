import Mathlib.Data.List.Perm.Basic
import VisioSchema.Mcap.ReadbackSound

/-!
# Every span offered is counted once

A span that was offered is queued, is the pending tail, or has its verdict; `Finish` leaves none
of the first two.  The counters are those of the verdicts.

## Strategy

`AccountsOk` keeps a tally: the offers that have no verdict yet are `outstanding`, and the
counters are those of the verdicts (`Tallies`).  A step does one of three things to it: it offers
a span, gives one its verdict (`AccountsOk.settles`), or neither (`AccountsOk.same`).  Between
the offer and the queue a span is in nobody's hands but the caller's, which is `Holding`.

`Finish` runs without the stepping side.  It gives the pending tail, the queue and the span in
flight their verdicts, one after another (`skips_all`), after which nothing is outstanding
(`Closed`).  `run_readback` puts this together with what was found and put
(`ReadbackSound.lean`).
-/

namespace VisioSchema.Mcap.SpanReadback

open VisioSchema.Library VisioSchema.Wire

def tally (verdicts : List (ℕ × Verdict)) (verdict : Verdict) : ℕ :=
  verdicts.countP fun r => decide (r.2 = verdict)

/-- The counters are those of the verdicts; a part whose writeback is off counts as skipped
once more. -/
structure Tallies (stats : McapReadbackStats) (verdicts : List (ℕ × Verdict)) (disabled : ℕ) :
    Prop where
  verified : stats.spansVerified = tally verdicts .verified
  unrepaired : stats.spansUnrepaired = tally verdicts .unrepaired
  skipped : stats.spansSkipped = tally verdicts .skipped + disabled
  readFailed : stats.readFailed = tally verdicts .readFailed

/-- The offers that have no verdict yet. -/
def outstanding (s : SpanReadback) : List ℕ :=
  s.queue.map Span.id ++ s.pendingTail.toList.map Span.id

structure AccountsOk (s : SpanReadback) : Prop where
  ids : (s.history.verdicts.map Prod.fst ++ s.outstanding).Perm (List.range s.history.offered)
  tallies : Tallies s.stats s.history.verdicts s.history.disabled
  flight : ∀ c, s.inFlight = some c → s.queue.head? = some c.span

variable {s : SpanReadback}

theorem Tallies.count {stats : McapReadbackStats} {verdicts : List (ℕ × Verdict)} {disabled : ℕ}
    (htallies : Tallies stats verdicts disabled) (len id : ℕ) (verdict : Verdict) :
    Tallies (stats.count len verdict) (verdicts ++ [(id, verdict)]) disabled := by
  obtain ⟨hverified, hunrepaired, hskipped, hfailed⟩ := htallies
  have hadd : ∀ other, tally (verdicts ++ [(id, verdict)]) other =
      tally verdicts other + if verdict = other then 1 else 0 := by
    intro other
    rw [tally, List.countP_append, List.countP_singleton]
    simp [tally]
  cases verdict with
  | verified => constructor <;> simp [McapReadbackStats.count, *]
  | unrepaired => constructor <;> simp [McapReadbackStats.count, *]
  | skipped =>
      constructor <;> simp [McapReadbackStats.count, *]
      omega
  | readFailed => constructor <;> simp [McapReadbackStats.count, *]

/-- The counters of verdicts. -/
def verdictStats (stats : McapReadbackStats) : ℕ × ℕ × ℕ × ℕ :=
  (stats.spansVerified, stats.spansUnrepaired, stats.spansSkipped, stats.readFailed)

theorem Tallies.same {stats stats' : McapReadbackStats} {verdicts : List (ℕ × Verdict)}
    {disabled : ℕ} (htallies : Tallies stats verdicts disabled)
    (hsame : verdictStats stats' = verdictStats stats) : Tallies stats' verdicts disabled := by
  simp only [verdictStats, Prod.mk.injEq] at hsame
  obtain ⟨hverified, hunrepaired, hskipped, hfailed⟩ := hsame
  exact ⟨hverified.trans htallies.verified, hunrepaired.trans htallies.unrepaired,
    hskipped.trans htallies.skipped, hfailed.trans htallies.readFailed⟩

/-- A span gets its verdict. -/
theorem AccountsOk.settles {s' : SpanReadback} (hs : AccountsOk s) {sp : Span} {verdict : Verdict}
    (hout : s.outstanding.Perm (sp.id :: s'.outstanding))
    (hverdicts : s'.history.verdicts = s.history.verdicts ++ [(sp.id, verdict)])
    (hoffered : s'.history.offered = s.history.offered)
    (hdisabled : s'.history.disabled = s.history.disabled)
    (hstats : verdictStats s'.stats = verdictStats (s.stats.count sp.len verdict))
    (hflight : ∀ c, s'.inFlight = some c → s'.queue.head? = some c.span) : AccountsOk s' where
  ids := by
    rw [hverdicts, hoffered, List.map_append, List.append_assoc]
    exact ((hout.symm.append_left _)).trans hs.ids
  tallies := by
    rw [hverdicts, hdisabled]
    exact (hs.tallies.count sp.len sp.id verdict).same hstats
  flight := hflight

/-- Nothing is offered, and nothing gets its verdict. -/
theorem AccountsOk.same {s' : SpanReadback} (hs : AccountsOk s)
    (hout : s'.outstanding.Perm s.outstanding)
    (hverdicts : s'.history.verdicts = s.history.verdicts)
    (hoffered : s'.history.offered = s.history.offered)
    (hdisabled : s'.history.disabled = s.history.disabled)
    (hstats : verdictStats s'.stats = verdictStats s.stats)
    (hflight : ∀ c, s'.inFlight = some c → s'.queue.head? = some c.span) : AccountsOk s' where
  ids := by
    rw [hverdicts, hoffered]
    exact (hout.append_left _).trans hs.ids
  tallies := by
    rw [hverdicts, hdisabled]
    exact hs.tallies.same hstats
  flight := hflight

/-! ## The writer's calls -/

theorem accountsOk_skipTail (hs : AccountsOk s) : AccountsOk s.skipTail := by
  unfold skipTail
  cases htail : s.pendingTail with
  | none => exact hs
  | some sp =>
      refine @AccountsOk.settles s _ hs sp .skipped ?_ rfl rfl rfl rfl hs.flight
      have hout : s.outstanding = s.queue.map Span.id ++ [sp.id] := by
        simp [outstanding, htail]
      rw [hout]
      have hrest : outstanding { s.settle sp .skipped with pendingTail := none } =
          s.queue.map Span.id := by
        simp [outstanding, settle]
      rw [hrest]
      exact List.perm_append_singleton _ _

/-- A span that is offered: what `AccountsOk` is, with the span in hand. -/
structure Holding (s : SpanReadback) (sp : Span) : Prop where
  ids : (s.history.verdicts.map Prod.fst ++ (sp.id :: s.outstanding)).Perm
    (List.range s.history.offered)
  tallies : Tallies s.stats s.history.verdicts s.history.disabled
  flight : ∀ c, s.inFlight = some c → s.queue.head? = some c.span

theorem AccountsOk.offer (hs : AccountsOk s) (fileOff len : ℕ) :
    Holding (s.offer fileOff len).2 (s.offer fileOff len).1 where
  ids := by
    show (s.history.verdicts.map Prod.fst ++ (s.history.offered :: s.outstanding)).Perm
      (List.range (s.history.offered + 1))
    rw [List.range_succ]
    refine List.perm_middle.trans ?_
    refine (List.perm_append_singleton _ _).symm.trans ?_
    exact hs.ids.append_right _
  tallies := hs.tallies
  flight := hs.flight

theorem Holding.settle {sp : Span} (hs : Holding s sp) (verdict : Verdict) :
    AccountsOk (s.settle sp verdict) where
  ids := by
    show ((s.history.verdicts ++ [(sp.id, verdict)]).map Prod.fst ++ s.outstanding).Perm _
    rw [List.map_append, List.append_assoc]
    exact hs.ids
  tallies := hs.tallies.count sp.len sp.id verdict
  flight := hs.flight

theorem Holding.enqueue {sp : Span} (hs : Holding s sp) (hon : s.on = true) :
    AccountsOk (s.enqueue sp) := by
  unfold SpanReadback.enqueue
  rw [if_neg (by rw [hon]; decide)]
  split
  · exact hs.settle .skipped
  · split
    · exact hs.settle .skipped
    · refine ⟨?_, hs.tallies, ?_⟩
      · have hout : outstanding { s with queue := s.queue ++ [sp] } =
            s.queue.map Span.id ++ (sp.id :: s.pendingTail.toList.map Span.id) := by
          simp [outstanding]
        rw [hout]
        exact (List.perm_middle.append_left _).trans hs.ids
      · intro c hc
        have hhead := hs.flight c hc
        show (s.queue ++ [sp]).head? = some c.span
        rw [List.head?_append, hhead]
        rfl

theorem accountsOk_beginPart (hs : AccountsOk s) : AccountsOk s.beginPart := by
  have htail := accountsOk_skipTail hs
  unfold beginPart
  dsimp only
  generalize roundUpToPage s.skipTail.head = base
  exact htail.same (List.Perm.refl _) rfl rfl rfl rfl htail.flight

theorem accountsOk_onBytesWritten (hs : AccountsOk s) (fileOff : ℕ) (data : List Byte) :
    AccountsOk (s.onBytesWritten fileOff data) := by
  unfold onBytesWritten
  dsimp only
  split
  · exact hs.same (List.Perm.refl _) rfl rfl rfl rfl hs.flight
  · exact hs.same (List.Perm.refl _) rfl rfl rfl rfl hs.flight

theorem accountsOk_onSyncDisabled (hs : AccountsOk s) : AccountsOk s.onSyncDisabled where
  ids := hs.ids
  tallies :=
    { verified := hs.tallies.verified
      unrepaired := hs.tallies.unrepaired
      skipped := by
        show s.stats.spansSkipped + 1 = tally s.history.verdicts .skipped + (s.history.disabled + 1)
        rw [hs.tallies.skipped, Nat.add_assoc]
      readFailed := hs.tallies.readFailed }
  flight := hs.flight

theorem accountsOk_notePartEnd (hs : AccountsOk s) (htail : s.pendingTail = none)
    (unverifiedFrom fileSize : ℕ) (syncDisabled : Bool) :
    AccountsOk (s.notePartEnd unverifiedFrom fileSize syncDisabled) := by
  unfold notePartEnd
  split
  · exact hs
  · dsimp only
    have hheld := hs.offer unverifiedFrom (fileSize - unverifiedFrom)
    cases syncDisabled with
    | true => exact hheld.settle .skipped
    | false =>
        refine ⟨?_, hheld.tallies, hheld.flight⟩
        have hids := hheld.ids
        refine (List.Perm.append_left _ ?_).trans hids
        have hout : (s.offer unverifiedFrom (fileSize - unverifiedFrom)).2.outstanding =
            s.queue.map Span.id := by
          simp [outstanding, offer, htail]
        rw [hout]
        exact List.perm_append_singleton _ _

theorem enqueue_withTail (sp : Span) (tail : Option Span) :
    ({ s with pendingTail := tail } : SpanReadback).enqueue sp =
      { s.enqueue sp with pendingTail := tail } := by
  have hon : ({ s with pendingTail := tail } : SpanReadback).on = s.on := rfl
  have hsize : ({ s with pendingTail := tail } : SpanReadback).ringSize = s.ringSize := rfl
  unfold SpanReadback.enqueue
  rw [hon, hsize]
  dsimp only
  by_cases hoff : s.on = false
  · rw [if_pos hoff, if_pos hoff]
  · rw [if_neg hoff, if_neg hoff]
    by_cases hlong : s.ringSize < sp.len
    · rw [if_pos hlong, if_pos hlong]
      rfl
    · rw [if_neg hlong, if_neg hlong]
      by_cases hfull : s.queue.length = 64
      · rw [if_pos hfull, if_pos hfull]
        rfl
      · rw [if_neg hfull, if_neg hfull]

theorem accountsOk_commitTail (hs : AccountsOk s) (hon : s.on = true) :
    AccountsOk s.commitTail := by
  unfold commitTail
  cases htail : s.pendingTail with
  | none => exact hs
  | some sp =>
      -- the tail is in hand once it is no longer pending
      have hheld : Holding { s with pendingTail := none } sp := by
        refine ⟨(List.Perm.append_left _ ?_).trans hs.ids, hs.tallies, hs.flight⟩
        simpa [outstanding, htail] using
          (List.perm_append_singleton sp.id (s.queue.map Span.id)).symm
      have hqueued := hheld.enqueue hon
      rw [enqueue_withTail] at hqueued
      exact hqueued

/-! ## The stepping side -/

theorem AccountsOk.ends {c : InFlight} {s' : SpanReadback} (hs : AccountsOk s)
    (hc : s.inFlight = some c) (hends : Ends s c s') : AccountsOk s' := by
  obtain ⟨verdict, fault, rewritten, rfl⟩ := hends
  obtain ⟨rest, hrest⟩ : ∃ rest, s.queue = c.span :: rest := by
    have hhead := hs.flight c hc
    cases hqueue : s.queue with
    | nil =>
        rw [hqueue] at hhead
        cases hhead
    | cons sp rest =>
        rw [hqueue] at hhead
        exact ⟨rest, by rw [Option.some_inj.mp hhead]⟩
  refine @AccountsOk.settles s _ hs c.span verdict ?_ rfl rfl rfl rfl ?_
  · have hout : s.outstanding = c.span.id :: (s.ended c verdict fault rewritten).outstanding := by
      simp [outstanding, ended, settle, finishSpan, hrest]
    rw [hout]
  · rintro _ ⟨⟩

/-- The span in flight goes on, or the first is taken. -/
theorem AccountsOk.goes {c : InFlight} {s' : SpanReadback} (hs : AccountsOk s)
    (hhead : s.queue.head? = some c.span) (hflight : s'.inFlight = some c)
    (hqueue : s'.queue = s.queue) (htail : s'.pendingTail = s.pendingTail)
    (hhistory : s'.history.verdicts = s.history.verdicts ∧
      s'.history.offered = s.history.offered ∧ s'.history.disabled = s.history.disabled)
    (hstats : verdictStats s'.stats = verdictStats s.stats) : AccountsOk s' := by
  refine hs.same ?_ hhistory.1 hhistory.2.1 hhistory.2.2 hstats ?_
  · rw [outstanding, outstanding, hqueue, htail]
  · rw [hflight, hqueue, hhead]
    rintro _ ⟨⟩
    rfl

theorem accountsOk_startNextSpan (hs : AccountsOk s) (hflight : s.inFlight = none) :
    AccountsOk s.startNextSpan := by
  unfold startNextSpan
  cases hqueue : s.queue with
  | nil => exact hs
  | cons sp rest =>
      dsimp only
      by_cases hrun : s.ringSize < s.head - sp.ringPos
      · rw [if_pos hrun]
        refine @AccountsOk.settles s _ hs sp .skipped ?_ rfl rfl rfl rfl ?_
        · have hout : s.outstanding =
              sp.id :: outstanding { s.settle sp .skipped with queue := rest } := by
            simp [outstanding, settle, hqueue]
          rw [hout]
        · change ∀ c, s.inFlight = some c → _
          rw [hflight]
          rintro _ ⟨⟩
      · rw [if_neg hrun]
        split
        · exact hs
        · refine hs.goes (c := ⟨sp, .verify, 0⟩) ?_ rfl hqueue.symm rfl ⟨rfl, rfl, rfl⟩ rfl
          rw [hqueue]
          rfl

theorem accountsOk_runPiece {c : InFlight} (hs : AccountsOk s) (hc : s.inFlight = some c)
    (m : Medium) : AccountsOk (s.runPiece c m) := by
  unfold runPiece
  cases m.openError with
  | some eio => exact hs.ends hc (ends_noteReadFailed c eio)
  | none =>
      dsimp only
      split
      · exact hs.goes (hs.flight c hc) hc rfl rfl ⟨rfl, rfl, rfl⟩ rfl
      · cases m.reads with
        | ok got => exact hs.goes (hs.flight c hc) hc rfl rfl ⟨rfl, rfl, rfl⟩ rfl
        | shortFile => exact hs.ends hc (ends_noteReadFailed c false)
        | error eio => exact hs.ends hc (ends_noteReadFailed c eio)

theorem accountsOk_compareByte {c : InFlight} (hs : AccountsOk s) (hc : s.inFlight = some c)
    (got : ℕ → Byte) (i : ℕ) : AccountsOk (s.compareByte c got i) := by
  unfold compareByte
  split
  · split
    · exact hs.goes (hs.flight c hc) hc rfl rfl ⟨rfl, rfl, rfl⟩ rfl
    · exact hs.goes (hs.flight c hc) hc rfl rfl ⟨rfl, rfl, rfl⟩ rfl
  · exact hs.goes (hs.flight c hc) hc rfl rfl ⟨rfl, rfl, rfl⟩ rfl

theorem accountsOk_continueSpan {c c' : InFlight} (hs : AccountsOk s) (hc : s.inFlight = some c)
    (hspan : c'.span = c.span) : AccountsOk (s.continueSpan c') := by
  refine hs.goes ?_ rfl rfl rfl ⟨rfl, rfl, rfl⟩ rfl
  rw [hspan]
  exact hs.flight c hc

theorem accountsOk_verifyPiece {c : InFlight} (hs : AccountsOk s) (hc : s.inFlight = some c)
    (got : ℕ → Byte) (differs : Bool) : AccountsOk (s.verifyPiece c got differs) := by
  unfold verifyPiece
  split
  · exact hs.ends hc (ends_abandonInFlight c)
  · split
    · split
      · refine hs.goes (c := { c with pass := .rewrite, done := 0 }) ?_ rfl rfl rfl
          ⟨rfl, rfl, rfl⟩ rfl
        exact hs.flight c hc
      · exact hs.ends hc (ends_noteUnrepaired c)
    · split
      · exact accountsOk_continueSpan hs hc rfl
      · exact hs.ends hc (ends_verifySpan c)

theorem accountsOk_copyByte {c : InFlight} (hs : AccountsOk s) (hc : s.inFlight = some c)
    (bytes : List Byte) : AccountsOk (s.copyByte c bytes) := by
  unfold copyByte
  split
  · exact hs.goes (hs.flight c hc) hc rfl rfl ⟨rfl, rfl, rfl⟩ rfl
  · split
    · exact hs.ends hc (ends_abandonInFlight c)
    · exact hs.goes (hs.flight c hc) hc rfl rfl ⟨rfl, rfl, rfl⟩ rfl

theorem accountsOk_rewritePiece {c : InFlight} (hs : AccountsOk s) (hc : s.inFlight = some c)
    (bytes : List Byte) (writes : Bool) : AccountsOk (s.rewritePiece c bytes writes) := by
  have hput : AccountsOk (s.recordPut (putOf c bytes)) :=
    hs.goes (hs.flight c hc) hc rfl rfl ⟨rfl, rfl, rfl⟩ rfl
  have hflight : (s.recordPut (putOf c bytes)).inFlight = some c := hc
  unfold rewritePiece
  dsimp only
  split
  · exact hput.ends hflight (ends_noteUnrepaired c)
  · split
    · exact accountsOk_continueSpan hput hflight rfl
    · exact accountsOk_continueSpan hput hflight rfl

theorem accountsOk_stepperStep (hs : AccountsOk s) (m : Medium) :
    AccountsOk (s.stepperStep m) := by
  unfold stepperStep
  split
  · exact hs
  · cases hflight : s.inFlight with
    | none => exact accountsOk_startNextSpan hs hflight
    | some c =>
        cases hstepper : s.stepper with
        | idle => exact accountsOk_runPiece hs hflight m
        | comparing got i => exact accountsOk_compareByte hs hflight got i
        | compared got differs => exact accountsOk_verifyPiece hs hflight got differs
        | copying bytes => exact accountsOk_copyByte hs hflight bytes
        | writing bytes => exact accountsOk_rewritePiece hs hflight bytes m.writes

/-! ## Finish -/

/-- The spans given up one after another. -/
theorem skips_all (spans : List Span) (tail : List ℕ) :
    ∀ s : SpanReadback,
      (s.history.verdicts.map Prod.fst ++ (spans.map Span.id ++ tail)).Perm
        (List.range s.history.offered) →
      Tallies s.stats s.history.verdicts s.history.disabled →
      let s' := spans.foldl (fun s sp => s.settle sp .skipped) s
      (s'.history.verdicts.map Prod.fst ++ tail).Perm (List.range s'.history.offered) ∧
        Tallies s'.stats s'.history.verdicts s'.history.disabled ∧
        s'.pendingTail = s.pendingTail ∧ s'.inFlight = s.inFlight := by
  induction spans with
  | nil => exact fun s hids htallies => ⟨hids, htallies, rfl, rfl⟩
  | cons sp rest ih =>
      intro s hids htallies
      refine ih (s.settle sp .skipped) ?_ (htallies.count sp.len sp.id .skipped)
      simpa [settle] using hids

theorem accountsOk_skipQueue (hs : AccountsOk s) (hflight : s.inFlight = none) :
    AccountsOk s.skipQueue ∧ s.skipQueue.inFlight = none := by
  obtain ⟨hids, htallies, htail, hsame⟩ :=
    skips_all s.queue (s.pendingTail.toList.map Span.id) s hs.ids hs.tallies
  have hnone : s.skipQueue.inFlight = none := hsame.trans hflight
  refine ⟨⟨?_, htallies, ?_⟩, hnone⟩
  · have hout : s.skipQueue.outstanding = s.pendingTail.toList.map Span.id := by
      simp [outstanding, skipQueue, htail]
    rw [hout]
    exact hids
  · rw [hnone]
    rintro _ ⟨⟩

/-- After `Finish` nothing is outstanding. -/
def Closed (s : SpanReadback) : Prop :=
  s.released = true → s.noMoreWrites = true ∧ s.queue = [] ∧ s.pendingTail = none

theorem skipTail_frame : s.skipTail.queue = s.queue ∧ s.skipTail.pendingTail = none ∧
    s.skipTail.noMoreWrites = s.noMoreWrites := by
  unfold skipTail
  split
  · exact ⟨rfl, rfl, rfl⟩
  · rename_i hnone
    exact ⟨rfl, hnone, rfl⟩

theorem accountsOk_finishEnd (hs : AccountsOk s) :
    AccountsOk s.finishEnd ∧ s.finishEnd.queue = [] ∧ s.finishEnd.pendingTail = none := by
  have hfirst : AccountsOk s.giveUpFlight ∧ s.giveUpFlight.inFlight = none := by
    unfold giveUpFlight
    cases hflight : s.inFlight with
    | none => exact ⟨hs, hflight⟩
    | some c => exact ⟨hs.ends hflight (ends_abandonInFlight c), rfl⟩
  obtain ⟨hqueue, -⟩ := accountsOk_skipQueue hfirst.1 hfirst.2
  have hclosed := accountsOk_skipTail hqueue
  obtain ⟨hempty, htail, -⟩ := skipTail_frame (s := s.giveUpFlight.skipQueue)
  rw [finishEnd_eq]
  exact ⟨hclosed.same (List.Perm.refl _) rfl rfl rfl rfl hclosed.flight, hempty, htail⟩

/-- What a span's end in `Finish` keeps. -/
def Kept (s s' : SpanReadback) : Prop :=
  s'.allocated = s.allocated ∧ s'.noMoreWrites = s.noMoreWrites

theorem Kept.trans {s' s'' : SpanReadback} (hfirst : Kept s s') (hsecond : Kept s' s'') :
    Kept s s'' :=
  ⟨hsecond.1.trans hfirst.1, hsecond.2.trans hfirst.2⟩

theorem kept_skips (spans : List Span) :
    ∀ s : SpanReadback, Kept s (spans.foldl (fun s sp => s.settle sp .skipped) s) := by
  induction spans with
  | nil => exact fun s => ⟨rfl, rfl⟩
  | cons sp rest ih => exact fun s => Kept.trans ⟨rfl, rfl⟩ (ih (s.settle sp .skipped))

theorem kept_skipTail : Kept s s.skipTail := by
  unfold skipTail
  split <;> exact ⟨rfl, rfl⟩

theorem Ends.kept {c : InFlight} {s' : SpanReadback} (hends : Ends s c s') : Kept s s' := by
  obtain ⟨verdict, fault, rewritten, rfl⟩ := hends
  exact ⟨rfl, rfl⟩

theorem finishEnd_kept : Kept s s.finishEnd := by
  have hfirst : Kept s s.giveUpFlight := by
    unfold giveUpFlight
    cases hflight : s.inFlight with
    | none => exact ⟨rfl, rfl⟩
    | some c => exact (ends_abandonInFlight c).kept
  have hqueue : ∀ s : SpanReadback, Kept s s.skipQueue := fun s => kept_skips s.queue s
  exact hfirst.trans ((hqueue _).trans kept_skipTail)

/-! ## Every step -/

/-- The buffers are as they were. -/
def SameBuffers (s s' : SpanReadback) : Prop :=
  s'.allocated = s.allocated ∧ s'.released = s.released

theorem Ends.sameBuffers {c : InFlight} {s' : SpanReadback} (hends : Ends s c s') :
    SameBuffers s s' := by
  obtain ⟨verdict, fault, rewritten, rfl⟩ := hends
  exact ⟨rfl, rfl⟩

theorem sameBuffers_startNextSpan : SameBuffers s s.startNextSpan := by
  unfold startNextSpan
  split
  · exact ⟨rfl, rfl⟩
  · split
    · exact ⟨rfl, rfl⟩
    · split <;> exact ⟨rfl, rfl⟩

theorem sameBuffers_runPiece (c : InFlight) (m : Medium) : SameBuffers s (s.runPiece c m) := by
  unfold runPiece
  split
  · exact (ends_noteReadFailed c _).sameBuffers
  · split
    · exact ⟨rfl, rfl⟩
    · split
      · exact ⟨rfl, rfl⟩
      · exact (ends_noteReadFailed c _).sameBuffers
      · exact (ends_noteReadFailed c _).sameBuffers

theorem sameBuffers_verifyPiece (c : InFlight) (got : ℕ → Byte) (differs : Bool) :
    SameBuffers s (s.verifyPiece c got differs) := by
  unfold verifyPiece
  split
  · exact (ends_abandonInFlight c).sameBuffers
  · split
    · split
      · exact ⟨rfl, rfl⟩
      · exact (ends_noteUnrepaired c).sameBuffers
    · split
      · exact ⟨rfl, rfl⟩
      · exact (ends_verifySpan c).sameBuffers

theorem sameBuffers_copyByte (c : InFlight) (bytes : List Byte) :
    SameBuffers s (s.copyByte c bytes) := by
  unfold copyByte
  split
  · exact ⟨rfl, rfl⟩
  · split
    · exact (ends_abandonInFlight c).sameBuffers
    · exact ⟨rfl, rfl⟩

theorem sameBuffers_rewritePiece (c : InFlight) (bytes : List Byte) (writes : Bool) :
    SameBuffers s (s.rewritePiece c bytes writes) := by
  unfold rewritePiece
  dsimp only
  split
  · exact (ends_noteUnrepaired (s := s.recordPut (putOf c bytes)) c).sameBuffers
  · split <;> exact ⟨rfl, rfl⟩

theorem sameBuffers_stepperStep (m : Medium) : SameBuffers s (s.stepperStep m) := by
  unfold stepperStep
  split
  · exact ⟨rfl, rfl⟩
  · split
    · exact sameBuffers_startNextSpan
    · exact sameBuffers_runPiece _ m
    · unfold compareByte
      split
      · split <;> exact ⟨rfl, rfl⟩
      · exact ⟨rfl, rfl⟩
    · exact sameBuffers_verifyPiece _ _ _
    · exact sameBuffers_copyByte _ _
    · exact sameBuffers_rewritePiece _ _ m.writes

/-- The invariant of a read-back that got its buffers. -/
structure BooksOk (s : SpanReadback) : Prop where
  allocated : s.allocated = true
  accounts : AccountsOk s
  closed : Closed s

theorem accountsOk_call (hs : AccountsOk s) (hon : s.on = true) {event : Event}
    (hcallable : s.callable) (hobeys : s.Obeys event) : AccountsOk (s.call event) := by
  cases event with
  | beginPart => exact accountsOk_beginPart hs
  | onBytesWritten fileOff data => exact accountsOk_onBytesWritten hs fileOff data
  | onSpanEvicted fileOff len => exact (hs.offer fileOff len).enqueue hon
  | onSyncDisabled => exact accountsOk_onSyncDisabled hs
  | notePartEnd unverifiedFrom fileSize syncDisabled =>
      exact accountsOk_notePartEnd hs (hobeys hcallable).2 unverifiedFrom fileSize syncDisabled
  | commitTail => exact accountsOk_commitTail hs hon
  | finish =>
      simp only [call]
      split
      · exact hs.same (List.Perm.refl _) rfl rfl rfl rfl hs.flight
      · exact hs
  | writer => exact hs
  | stepper m => exact hs
  | finishEnd => exact hs

theorem BooksOk.open (hs : BooksOk s) (hcallable : s.callable) : s.released = false := by
  cases hreleased : s.released with
  | false => rfl
  | true =>
      have hended := (hs.closed hreleased).1
      rw [hcallable.2] at hended
      cases hended

theorem booksOk_step (hs : BooksOk s) {event : Event} (hobeys : s.Obeys event) :
    BooksOk (s.step event) := by
  have hcall : BooksOk (if s.callable then s.call event else s) := by
    split
    · rename_i hcallable
      have hframe := callFrame_call (s := s) event
      have hopen := hs.open hcallable
      have hon : s.on = true := by simp [on, hs.allocated, hopen]
      refine ⟨hframe.allocated.trans hs.allocated, accountsOk_call hs.accounts hon hcallable hobeys,
        fun hreleased => ?_⟩
      rw [hframe.released, hopen] at hreleased
      cases hreleased
    · exact hs
  cases event with
  | writer =>
      obtain ⟨hqueue, htail, hflight, -, hhistory, hstats, hallocated, hreleased, hmore⟩ :=
        writerStep_frame (s := s)
      refine ⟨hallocated.trans hs.allocated, ?_, ?_⟩
      · refine hs.accounts.same ?_ (by rw [step, hhistory]) (by rw [step, hhistory])
          (by rw [step, hhistory]) (by rw [step, hstats]) ?_
        · rw [step, outstanding, outstanding, hqueue, htail]
        · rw [step, hflight, hqueue]
          exact hs.accounts.flight
      · rw [Closed, step, hreleased, hmore, hqueue, htail]
        exact hs.closed
  | stepper m =>
      obtain ⟨hallocated, hreleased⟩ := sameBuffers_stepperStep (s := s) m
      refine ⟨hallocated.trans hs.allocated, accountsOk_stepperStep hs.accounts m, ?_⟩
      intro hended
      have hended' : s.released = true := hreleased.symm.trans hended
      have hoff : s.on = false := by simp [on, hended']
      rw [step, stepperStep_off hoff]
      exact hs.closed hended'
  | finishEnd =>
      show BooksOk (if s.finishable then s.finishEnd else s)
      split
      · rename_i hfinishable
        obtain ⟨haccounts, hqueue, htail⟩ := accountsOk_finishEnd hs.accounts
        obtain ⟨hallocated, hmore⟩ := finishEnd_kept (s := s)
        exact ⟨hallocated.trans hs.allocated, haccounts,
          fun _ => ⟨hmore.trans hfinishable.1, hqueue, htail⟩⟩
      · exact hs
  | beginPart => exact hcall
  | onBytesWritten fileOff data => exact hcall
  | onSpanEvicted fileOff len => exact hcall
  | onSyncDisabled => exact hcall
  | notePartEnd unverifiedFrom fileSize syncDisabled => exact hcall
  | commitTail => exact hcall
  | finish => exact hcall

theorem booksOk_start (options : McapReadbackOptions) : BooksOk (start options true) where
  allocated := rfl
  accounts :=
    { ids := List.Perm.refl _
      tallies := ⟨rfl, rfl, rfl, rfl⟩
      flight := fun _ hc => nomatch hc }
  closed := fun hreleased => nomatch hreleased

/-! ## Runs -/

/-- Every span offered was counted once, as verified, unrepaired, skipped or read-failed. -/
structure Accounted (s : SpanReadback) : Prop where
  once : ∀ id < s.history.offered, (s.history.verdicts.map Prod.fst).count id = 1
  only : ∀ r ∈ s.history.verdicts, r.1 < s.history.offered
  tallies : Tallies s.stats s.history.verdicts s.history.disabled

theorem BooksOk.accounted (hs : BooksOk s) (hreleased : s.released = true) : Accounted s := by
  obtain ⟨-, hqueue, htail⟩ := hs.closed hreleased
  have hids := hs.accounts.ids
  have hnone : s.outstanding = [] := by simp [outstanding, hqueue, htail]
  rw [hnone, List.append_nil] at hids
  refine ⟨fun id hid => ?_, fun r hr => ?_, hs.accounts.tallies⟩
  · rw [hids.count_eq]
    rw [List.nodup_range.count, if_pos (List.mem_range.mpr hid)]
  · exact List.mem_range.mp (hids.mem_iff.mp (List.mem_map_of_mem hr))

/-- However the threads take turns: a span is counted mismatched only if the medium answered
with other bytes than were written, a rewrite puts only bytes written there, and after
`Finish` of a read-back that got its buffers every span offered has been counted once. -/
theorem run_readback (options : McapReadbackOptions) (allocated : Bool) (events : List Event)
    (hobeys : Along step Obeys (start options allocated) events) :
    LogOk (events.foldl step (start options allocated)) ∧
      (allocated = true → (events.foldl step (start options allocated)).released = true →
        Accounted (events.foldl step (start options allocated))) := by
  refine ⟨(run_readbackOk hobeys).log, ?_⟩
  rintro rfl hreleased
  have hbooks : BooksOk (events.foldl step (start options true)) :=
    run_invariant_along (I := BooksOk) (fun _ _ hs hevent => booksOk_step hs hevent)
      (booksOk_start options) hobeys
  exact hbooks.accounted hreleased

/-! ## A run with a mismatch, and one without buffers -/

/-- What the medium holds: the byte written, or a stale one. -/
def holding (b : Byte) : Event := .stepper { reads := .ok fun _ => b }

/-- One span, stale at the first read, rewritten and verified. -/
def repairs : List Event :=
  [.beginPart, .writer, .onBytesWritten 0 [7], .writer, .writer, .onSpanEvicted 0 1, .finish,
    holding 0, holding 0, holding 0, holding 0, holding 7, holding 7, holding 7, holding 7,
    holding 7, holding 7, holding 7, holding 7, .finishEnd]

def onePage : McapReadbackOptions := { ringBytes := 4096, settleBytes := 0, pieceBytes := 4096 }

/-- The read-back is off: one span is offered. -/
def offersOff : List Event :=
  [.beginPart, .writer, .onBytesWritten 0 [7], .onSpanEvicted 0 1, .finish, .finishEnd]

theorem obeys_repairs : Along step Obeys (start onePage true) repairs :=
  ⟨trivial, trivial, fun _ => rfl, trivial, trivial, fun _ => Nat.le_refl 1, trivial, trivial,
    trivial, trivial, trivial, trivial, trivial, trivial, trivial, trivial, trivial, trivial,
    trivial, trivial, trivial⟩

theorem run_readback_repairs :
    LogOk (repairs.foldl step (start onePage true)) ∧
      (true = true → (repairs.foldl step (start onePage true)).released = true →
        Accounted (repairs.foldl step (start onePage true))) :=
  run_readback onePage true repairs obeys_repairs

/-- Without buffers a span that was offered is not counted at all. -/
theorem not_accounted_off :
    Along step Obeys (start onePage false) offersOff ∧
      (offersOff.foldl step (start onePage false)).released = true ∧
      ¬ Accounted (offersOff.foldl step (start onePage false)) := by
  refine ⟨⟨trivial, trivial, fun _ => rfl, fun _ => Nat.le_refl 1, trivial, trivial, trivial⟩,
    by decide, fun haccounted => ?_⟩
  have honce := haccounted.once 0 (by decide)
  have hnone : ((offersOff.foldl step (start onePage false)).history.verdicts.map Prod.fst).count
      0 = 0 := by decide
  rw [hnone] at honce
  cases honce

end VisioSchema.Mcap.SpanReadback

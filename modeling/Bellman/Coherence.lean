/-
Bellman/Coherence.lean

The columns of a lifecycle row tell one story.

A row names a state, and beside it stand columns that only some states may
fill: what a failure was, what a completed run returned, how long the row
may still wait.  `RunStateRow.Coherent` says which.

Three reports break it.  One that is no verdict, over a run that the watchdog
has failed, moves the state back and leaves the failure standing
(`Revives`).  One that takes the estimate back, without a word on error
detection, removes the watchdog from the deadline book and leaves its
deadline in the row (`Disarms`).  One whose estimate its column does not hold
leaves a deadline beside an estimate of zero (`Overflows`).  A fire closes a
row of the last two kinds in the same transaction, an ingest leaves it so.

Main result: `lifecycle_coherent`, over every run in which no reply of these
three kinds is accepted.
-/
import Bellman.Story

namespace Bellman

open ProgramLogic Prog ReplyM

/-! ### Rows -/

namespace RunStateRow

/-- Error detection applies to the run: the app asked for it, and there is
an estimate to measure it by. -/
def detects (row : RunStateRow) : Prop :=
  row.errorDetection = some true ∧ 0 < row.expectedSecs.getD 0

instance (row : RunStateRow) : Decidable row.detects :=
  inferInstanceAs (Decidable (_ ∧ _))

/-- Each column is filled only in the states that it belongs to. -/
structure Coherent (row : RunStateRow) : Prop where
  failure : row.failureKind.isSome ∨ row.failedAt.isSome ∨ row.reason.isSome → row.state = .failed
  named : row.state = .failed → row.failureKind.isSome
  completion : row.completedAt.isSome ∨ row.resultJson.isSome → row.state = .completed
  pickup : row.pickupDeadline.isSome → row.state.isFired = true
  watchdog : row.watchdogDeadline.isSome → row.isTerminal = false ∧ row.detects

/-- Coherence, and that a row waits for one deadline at a time. -/
structure Sound (row : RunStateRow) : Prop extends Coherent row where
  oneDeadline : row.watchdogDeadline.isSome → row.pickupDeadline = none

/-- The columns that coherence is about. -/
def columns (row : RunStateRow) :=
  ((row.state, row.failureKind, row.failedAt, row.reason),
    (row.completedAt, row.resultJson, row.pickupDeadline, row.watchdogDeadline),
    row.errorDetection, row.expectedSecs)

theorem Sound.congr {row row' : RunStateRow} (h : row.Sound) (hc : row'.columns = row.columns) :
    row'.Sound := by
  simp only [columns, Prod.mk.injEq] at hc
  obtain ⟨⟨hstate, hkind, hfailed, hreason⟩, ⟨hdone, hresult, hpickup, hwatch⟩, hdet, hsecs⟩ := hc
  constructor
  · constructor
    · rw [hkind, hfailed, hreason, hstate]
      exact h.failure
    · rw [hkind, hstate]
      exact h.named
    · rw [hdone, hresult, hstate]
      exact h.completion
    · rw [hpickup, hstate]
      exact h.pickup
    · rw [hwatch, isTerminal, hstate, detects, hdet, hsecs]
      exact h.watchdog
  · rw [hwatch, hpickup]
    exact h.oneDeadline

theorem Sound.merge {row : RunStateRow} (h : row.Sound) (old : RunStateRow) :
    (Store.mergeRunState old row).Sound :=
  h.congr rfl

/-- A closed row waits for no watchdog. -/
theorem Sound.watchdog_of_isTerminal {row : RunStateRow} (h : row.Sound)
    (ht : row.isTerminal = true) : row.watchdogDeadline = none := by
  by_contra hw
  have hopen := (h.watchdog (Option.isSome_iff_ne_none.mpr hw)).1
  rw [ht] at hopen
  cases hopen

theorem Sound.watchdog_of_pickup {row : RunStateRow} (h : row.Sound)
    (hp : row.pickupDeadline.isSome) : row.watchdogDeadline = none := by
  by_contra hw
  rw [h.oneDeadline (Option.isSome_iff_ne_none.mpr hw)] at hp
  cases hp

/-- An open row has neither failed nor completed. -/
theorem Sound.blank {row : RunStateRow} (h : row.Sound) (hf : row.state ≠ .failed)
    (hc : row.state ≠ .completed) :
    row.failureKind = none ∧ row.failedAt = none ∧ row.reason = none ∧
      row.completedAt = none ∧ row.resultJson = none := by
  have hfail := mt h.failure hf
  have hdone := mt h.completion hc
  simpa [not_or, and_assoc] using And.intro hfail hdone

/-- A row in which no verdict is recorded and no deadline is set. -/
theorem Sound.of_blank {row : RunStateRow}
    (h : row.failureKind = none ∧ row.failedAt = none ∧ row.reason = none ∧
      row.completedAt = none ∧ row.resultJson = none)
    (hf : row.state ≠ .failed) (hp : row.pickupDeadline.isSome → row.state.isFired = true)
    (hw : row.watchdogDeadline = none) : row.Sound := by
  obtain ⟨hkind, hfailed, hreason, hdone, hresult⟩ := h
  constructor
  · constructor
    · simp [hkind, hfailed, hreason]
    · exact fun h => absurd h hf
    · simp [hdone, hresult]
    · exact hp
    · simp [hw]
  · simp [hw]

/-! ### The moves of Bellman -/

theorem sound_opened (runId timerId : Uuid) (appName : String) (kind : FireKind)
    (firedAt deadline : Int) (selected : String) :
    ((ofFire runId timerId appName (fireState kind) firedAt deadline).withTransport
      selected).inserted.Sound := by
  have hfired : (fireState kind).isFired = true := by cases kind <;> rfl
  refine .of_blank ⟨rfl, rfl, rfl, rfl, rfl⟩ ?_ (fun _ => hfired) rfl
  show fireState kind ≠ .failed
  cases kind <;> exact nofun

theorem Sound.acked {row : RunStateRow} (h : row.Sound) (nowWall : Int)
    (hopen : (row.pickupDeadline.isSome ∧ row.state.isFired) ∨ row.state = .noAck) :
    (row.acked nowWall).Sound := by
  have hstate : row.state ≠ .failed ∧ row.state ≠ .completed := by
    rcases hopen with ⟨-, hf⟩ | hno
    · constructor <;> intro he <;> simp [he, RunState.isFired] at hf
    · simp [hno]
  refine .of_blank (h.blank hstate.1 hstate.2) (by intro he; cases he) (by intro he; cases he) ?_
  rcases hopen with ⟨hp, -⟩ | hno
  · exact h.watchdog_of_pickup hp
  · exact h.watchdog_of_isTerminal (by rw [isTerminal, hno]; rfl)

theorem Sound.missed {row : RunStateRow} (h : row.Sound) (nowWall : Int)
    (hp : row.pickupDeadline.isSome) : (row.missed nowWall).Sound := by
  have hfired := h.pickup hp
  have hstate : row.state ≠ .failed ∧ row.state ≠ .completed := by
    constructor <;> intro he <;> simp [he, RunState.isFired] at hfired
  exact .of_blank (h.blank hstate.1 hstate.2) (by intro he; cases he) (by intro he; cases he)
    (h.watchdog_of_pickup hp)

theorem Sound.expired {row : RunStateRow} (h : row.Sound) (nowWall : Int)
    (hw : row.watchdogDeadline.isSome) : (row.expired nowWall).Sound := by
  have hopen := (h.watchdog hw).1
  have hdone : row.state ≠ .completed := by
    intro he
    rw [isTerminal, he] at hopen
    cases hopen
  have hblank := mt h.completion hdone
  constructor
  · constructor
    · exact fun _ => rfl
    · exact fun _ => rfl
    · exact fun hc => absurd hc hblank
    · show row.pickupDeadline.isSome → _
      rw [h.oneDeadline hw]
      nofun
    · nofun
  · nofun

/-- A row is closed whether or not its watchdog was cleared before. -/
theorem Sound.closed {row : RunStateRow} (h : { row with watchdogDeadline := none }.Sound)
    (hopen : row.isTerminal = false) {verdict : RunState}
    (hv : verdict = .superseded ∨ verdict = .cancelled) : (row.closed verdict).Sound := by
  have hf : row.state ≠ .failed := by
    intro he
    rw [isTerminal, he] at hopen
    cases hopen
  have hc : row.state ≠ .completed := by
    intro he
    rw [isTerminal, he] at hopen
    cases hopen
  refine .of_blank (h.blank hf hc) ?_ nofun rfl
  show verdict ≠ .failed
  rcases hv with rfl | rfl <;> decide

/-- Clearing the watchdog keeps a row sound. -/
theorem Sound.cleared {row : RunStateRow} (h : row.Sound) :
    { row with watchdogDeadline := none }.Sound :=
  ⟨⟨h.failure, h.named, h.completion, h.pickup, nofun⟩, nofun⟩

/-! ### The reply -/

/-- A report that is no verdict, over a run that has failed. -/
def Revives (row : RunStateRow) (newState : RunState) : Prop :=
  row.state = .failed ∧ newState.isTerminal = false

/-- A report that is no verdict, takes the estimate back and says nothing
on error detection, while the watchdog is set. -/
def Disarms (row : RunStateRow) (doc : ReplyDocument) (newState : RunState) : Prop :=
  row.watchdogDeadline.isSome ∧ newState.isTerminal = false ∧ doc.errorDetection = none ∧
    doc.expectedSecs = some 0

/-- A report that is no verdict and sets the watchdog by an estimate that
reads back as none. -/
def Overflows (row : RunStateRow) (doc : ReplyDocument) (newState : RunState) : Prop :=
  newState.isTerminal = false ∧ doc.errorDetection.or row.errorDetection = some true ∧
    0 < (doc.expectedSecs.or row.expectedSecs).getD 0 ∧
    expectedColumn ((doc.expectedSecs.or row.expectedSecs).getD 0) = 0

/-- What the deadline bookkeeping leaves in the watchdog column. -/
inductive Rearmed (row : RunStateRow) (newState : RunState) : Option Int → Prop
  | closed (hterm : newState.isTerminal = true) : Rearmed row newState none
  | armed (wall : Int) (hopen : newState.isTerminal = false) (hdet : row.detects) :
      Rearmed row newState (some wall)
  | left (hopen : newState.isTerminal = false) (hdet : ¬row.detects) :
      Rearmed row newState row.watchdogDeadline

section Reply

variable {row : RunStateRow} {doc : ReplyDocument} {appName digest : String}
  {newState : RunState} {nowWall : Int}

/-- A report over a row that no report may follow but a verdict. -/
theorem isTerminal_of_refuses (hw : newState.isAppWritable = true)
    (hok : row.refuses doc appName newState = none) (ha : row.isAppAuthoredTerminal = true) :
    newState.isTerminal = true := by
  rcases closing_of_accepted hw hok ha with rfl | rfl <;> rfl

/-- **The accepted report**, with the watchdog cleared: what the state before
left behind is gone, unless the run had failed and is no longer to have. -/
theorem Sound.folded_cleared (h : row.Sound) (hw : newState.isAppWritable = true)
    (hok : row.refuses doc appName newState = none) (hrev : ¬row.Revives newState) :
    (row.folded doc newState digest nowWall none).Sound := by
  cases hterm : newState.isTerminal with
  | true =>
    -- A verdict fills its own columns and clears those of the other.
    have hverdict : newState = .completed ∨ newState = .failed := by
      cases newState <;> simp_all [RunState.isAppWritable, RunState.isTerminal]
    rcases hverdict with rfl | rfl
    · constructor
      · constructor
        · rintro (h | h | h) <;> cases h
        · intro h
          cases h
        · exact fun _ => rfl
        · intro h
          cases h
        · intro h
          cases h
      · intro h
        cases h
    · constructor
      · constructor
        · exact fun _ => rfl
        · exact fun _ => rfl
        · rintro (h | h) <;> cases h
        · intro h
          cases h
        · intro h
          cases h
      · intro h
        cases h
  | false =>
    have hf : row.state ≠ .failed := fun he => hrev ⟨he, hterm⟩
    have hc : row.state ≠ .completed := by
      intro he
      have ha : row.isAppAuthoredTerminal = true := by rw [isAppAuthoredTerminal, he]
      rw [isTerminal_of_refuses hw hok ha] at hterm
      cases hterm
    have hsame : applyVerdict (accumulate row doc newState nowWall) doc newState nowWall =
        accumulate row doc newState nowWall := by
      cases newState <;> first | rfl | cases hterm
    refine .of_blank ?_ ?_ ?_ rfl
    · simp only [RunStateRow.folded, report, hsame]
      exact h.blank hf hc
    · intro he
      rw [show (row.folded doc newState digest nowWall none).state = newState from rfl] at he
      rw [he] at hterm
      cases hterm
    · intro h
      cases h

/-- What a report makes of the columns that error detection is about. -/
theorem report_detection (row : RunStateRow) (doc : ReplyDocument) (newState : RunState)
    (nowWall : Int) :
    (row.report doc newState nowWall).errorDetection = doc.errorDetection.or row.errorDetection ∧
      (row.report doc newState nowWall).expectedSecs = doc.expectedSecs.or row.expectedSecs ∧
      (row.report doc newState nowWall).watchdogDeadline =
        if doc.errorDetection = some false then none else row.watchdogDeadline := by
  unfold report applyVerdict accumulate
  split <;> exact ⟨rfl, rfl, rfl⟩

/-- Whether error detection applies to the row that was written. -/
theorem folded_detects {watchdog : Option Int} :
    (row.folded doc newState digest nowWall watchdog).detects ↔
      doc.errorDetection.or row.errorDetection = some true ∧
        0 < expectedColumn ((doc.expectedSecs.or row.expectedSecs).getD 0) := by
  obtain ⟨hdetection, hestimate, -⟩ := row.report_detection doc newState nowWall
  have hcol : (((row.report doc newState nowWall).expectedSecs.map expectedColumn).getD 0) =
      expectedColumn ((doc.expectedSecs.or row.expectedSecs).getD 0) := by
    rw [hestimate]
    cases doc.expectedSecs.or row.expectedSecs with
    | none => rfl
    | some secs => rfl
  rw [← hdetection, ← hcol]
  exact Iff.rfl

/-- The watchdog that a report leaves in its row, when error detection
applies or there is none. -/
theorem Sound.folded (h : (row.folded doc newState digest nowWall none).Sound)
    {watchdog : Option Int} (hwatch : watchdog.isSome → newState.isTerminal = false ∧
      (row.folded doc newState digest nowWall watchdog).detects) :
    (row.folded doc newState digest nowWall watchdog).Sound :=
  ⟨⟨h.failure, h.named, h.completion, h.pickup, hwatch⟩, fun _ => rfl⟩

/-- An estimate that the watchdog is set by and that its column holds. -/
theorem folded_detects_of_report (hopen : newState.isTerminal = false)
    (hdet : (row.report doc newState nowWall).detects) (hover : ¬row.Overflows doc newState)
    {watchdog : Option Int} : (row.folded doc newState digest nowWall watchdog).detects := by
  obtain ⟨hdetection, hestimate, -⟩ := row.report_detection doc newState nowWall
  obtain ⟨hon, hsecs⟩ := hdet
  rw [hdetection] at hon
  rw [hestimate] at hsecs
  refine folded_detects.mpr ⟨hon, Nat.pos_of_ne_zero fun hcol => ?_⟩
  exact hover ⟨hopen, hon, hsecs, hcol⟩

/-- A deadline that stays in the row without being armed anew is one that
the report disarms. -/
theorem Sound.disarms_of_left (h : row.Sound)
    (hok : row.refuses doc appName newState = none) (hopen : newState.isTerminal = false)
    (hdet : ¬(row.report doc newState nowWall).detects)
    (hleft : (row.report doc newState nowWall).watchdogDeadline.isSome) :
    row.Disarms doc newState := by
  obtain ⟨hdetection, hestimate, hdeadline⟩ :=
    row.report_detection doc newState nowWall
  rw [hdeadline] at hleft
  have hkept : doc.errorDetection ≠ some false := by
    intro he
    simp [he] at hleft
  rw [if_neg hkept] at hleft
  obtain ⟨hon, hsecs⟩ := (h.watchdog hleft).2
  -- Detection stays on, so it is the estimate that is gone.
  have hdet' : doc.errorDetection.or row.errorDetection = some true := by
    rw [hon]
    cases hd : doc.errorDetection with
    | none => rfl
    | some b =>
      cases b with
      | false => exact absurd hd hkept
      | true => rfl
  have hgone : (doc.expectedSecs.or row.expectedSecs).getD 0 = 0 := by
    by_contra hne
    refine hdet ⟨hdetection.trans hdet', ?_⟩
    rw [hestimate]
    exact Nat.pos_of_ne_zero hne
  have hnone : doc.errorDetection = none := by
    by_contra hne
    have htrue : doc.errorDetection = some true := by
      cases hd : doc.errorDetection with
      | none => exact absurd hd hne
      | some b =>
        cases b with
        | false => exact absurd hd hkept
        | true => rfl
    unfold refuses at hok
    split at hok
    · cases hok
    · split at hok
      · cases hok
      · rw [if_pos ⟨htrue, hgone⟩] at hok
        cases hok
  refine ⟨hleft, hopen, hnone, ?_⟩
  cases hs : doc.expectedSecs with
  | none =>
    rw [hs, Option.none_or] at hgone
    exact absurd hgone (Nat.ne_of_gt hsecs)
  | some n =>
    rw [hs] at hgone
    exact congrArg some hgone

end Reply

end RunStateRow

/-! ### Stores -/

namespace Store

/-- Every row is sound. -/
def SoundRows (s : Store) : Prop := ∀ row ∈ s.runStates, row.Sound

/-- Every row is sound, but that an open run's may have kept a watchdog
deadline that no longer applies. -/
def SoundBut (run : Option Uuid) (s : Store) : Prop :=
  ∀ row ∈ s.runStates, row.Sound ∨ (run = some row.runId ∧ ∃ row', s.getRunState row.runId =
    some row' ∧ row'.isTerminal = false ∧ { row' with watchdogDeadline := none }.Sound)

variable {s s' : Store}

theorem SoundRows.congr (hs : s.SoundRows) (h : Same Store.runStates s s') : s'.SoundRows := by
  intro row hrow
  rw [show s'.runStates = s.runStates from h] at hrow
  exact hs row hrow

theorem SoundBut.congr {run : Option Uuid} (hs : s.SoundBut run)
    (h : Same Store.runStates s s') : s'.SoundBut run := by
  intro row hrow
  rw [show s'.runStates = s.runStates from h] at hrow
  rw [getRunState_congr h]
  exact hs row hrow

theorem SoundRows.soundBut (hs : s.SoundRows) (run : Option Uuid) : s.SoundBut run :=
  fun row hrow => .inl (hs row hrow)

theorem SoundRows.getRunState (hs : s.SoundRows) {run : Uuid} {row : RunStateRow}
    (h : s.getRunState run = some row) : row.Sound :=
  hs row (getRunState_mem h).1

/-- A sound row is written; the others were sound before. -/
theorem SoundRows.of_wrote {row : RunStateRow} (h : row.Sound)
    (hs : ∀ old ∈ s.runStates, old.runId ≠ row.runId → old.Sound) :
    (s.wrote row).SoundRows := by
  intro row' hrow'
  obtain ⟨old, hold, rfl⟩ := List.mem_map.mp hrow'
  split
  · exact h.merge old
  · next hne => exact hs old hold hne

theorem SoundRows.wrote (hs : s.SoundRows) {row : RunStateRow} (h : row.Sound) :
    (s.wrote row).SoundRows :=
  .of_wrote h fun old hold _ => hs old hold

end Store

/-! ### The writers -/

/-- Logging an event touches no row and does not fail. -/
theorem emit_returns (kind : RunState) (loggedAt : Int) (subject : EventSubject)
    (note : EventNote) (s : Store) :
    wp (emit kind loggedAt subject note) (fun _ => Same Store.runStates s)
      (fun _ _ => False) s := by
  unfold emit newUuid enqueueEventConn
  simp only [wp_bind, wp_modifyGet, wp_modify]
  split <;> rfl

theorem closeOpenRun_sound {verdict : RunState} (message : String) (timer : Timer)
    (owner : Option String) (run : Option RunClaim) (utc : Int) {s : Store}
    (hs : s.SoundBut (run.map (·.runId))) (hv : verdict = .superseded ∨ verdict = .cancelled) :
    wp (closeOpenRun verdict message timer owner run utc) (fun _ => Store.SoundRows)
      (fun _ => Store.SoundRows) s := by
  unfold closeOpenRun
  cases run with
  | none =>
    intro row hrow
    rcases hs row hrow with h | ⟨h, -⟩
    · exact h
    · cases h
  | some run =>
    have hothers : ∀ old ∈ s.runStates, old.runId ≠ run.runId → old.Sound := by
      intro old hold hne
      rcases hs old hold with h | ⟨hrun, -⟩
      · exact h
      · exact absurd (Option.some.inj hrun).symm hne
    rw [wp_bind, wp_get]
    dsimp only
    split
    · next hun =>
      rw [wp_bind]
      refine wp_mono (emit_returns _ _ _ _ s) (fun _ s₁ h₁ => ?_) fun _ _ h => h.elim
      have hothers₁ : ∀ old ∈ s₁.runStates, old.runId ≠ run.runId → old.Sound := by
        rw [show s₁.runStates = s.runStates from h₁]
        exact hothers
      cases hrow : s.getRunState run.runId with
      | none =>
        intro row hmem
        refine hothers₁ row hmem fun he => ?_
        rw [show s₁.runStates = s.runStates from h₁] at hmem
        have hne := List.find?_eq_none.mp hrow row hmem
        simp [he] at hne
      | some row =>
        have hid := (getRunState_mem hrow).2
        have hopen : row.isTerminal = false := by
          simpa [Store.isUnresolved, hrow] using hun
        have hclear : { row with watchdogDeadline := none }.Sound := by
          rcases hs row (getRunState_mem hrow).1 with h | ⟨-, row', hrow', -, h⟩
          · exact h.cleared
          · rw [hid, hrow] at hrow'
            obtain rfl := Option.some.inj hrow'
            exact h
        rw [wp_bind, wp_updateRunStateConn]
        refine Store.SoundRows.of_wrote (hclear.closed hopen hv) fun old hold hne => ?_
        exact hothers₁ old hold fun he => hne (he.trans hid.symm)
    · next hun =>
      -- The row of the run, if it has one, is closed already.
      intro row hrow
      rcases hs row hrow with h | ⟨hrun, row', hrow', hopen, -⟩
      · exact h
      · refine absurd ?_ hun
        rw [Store.isUnresolved, show run.runId = row.runId from Option.some.inj hrun, hrow']
        simp [hopen]

/-- The rows, seen from the reply engine. -/
abbrev ReplyState.SoundRows (r : ReplyState) : Prop := r.store.SoundRows

theorem markAcknowledged_sound (timer : Timer) (claim : RunClaim) {row : RunStateRow}
    (nowWall : Int) {r : ReplyState} (hs : r.SoundRows) (hrow : row.Sound)
    (hopen : (row.pickupDeadline.isSome ∧ row.state.isFired) ∨ row.state = .noAck) :
    wp (markAcknowledged timer claim row nowWall) (fun _ => ReplyState.SoundRows)
      (fun _ => ReplyState.SoundRows) r := by
  have hacked := hrow.acked nowWall hopen
  unfold markAcknowledged onBook
  rw [wp_bind, wp_modify]
  split
  · rw [wp_bind, wp_onStore]
    refine wp_mono (emit_returns _ _ _ _ _) (fun _ s₁ h₁ => ?_) fun _ _ h => h.elim
    rw [wp_onStore, wp_updateRunStateConn]
    exact Store.SoundRows.wrote (hs.congr h₁) (hacked.congr rfl)
  · rw [wp_onStore, wp_updateRunStateConn]
    exact Store.SoundRows.wrote hs (hacked.congr rfl)

theorem onAckThrough_sound (timer : Timer) (throughSequence : Nat) (nowWall : Int) :
    Within (Preserves ReplyState.SoundRows) (onAckThrough timer throughSequence nowWall) := by
  refine within_preserves fun r hs => ?_
  unfold onAckThrough
  rw [wp_bind, wp_read]
  split
  · exact hs
  · next row hcur =>
    have hrow := hs row (currentRunState_mem hcur)
    rw [wp_bind, wp_read]
    split
    · exact hs
    · next claim _ =>
      split
      · exact hs
      · split
        · next hopen =>
          rw [wp_bind, inTx, wp_transact]
          exact wp_mono (markAcknowledged_sound timer claim nowWall hs hrow hopen)
            (fun _ _ h => h) fun _ _ _ => hs
        · exact hs

theorem expirePickupOne_sound (timer : Timer) (runId : Uuid) (nowWall : Int) :
    Within (Preserves ReplyState.SoundRows) (expirePickupOne timer runId nowWall) := by
  refine within_preserves fun r hs => ?_
  unfold expirePickupOne expirePickupOneInner
  rw [inTx, wp_transact, wp_bind, wp_read]
  split
  · exact hs
  · next row hrow =>
    have hsound := hs.getRunState hrow
    split
    · exact hs
    · next hdue =>
      have hdue : row.pickupDeadline.isSome = true := by
        simpa [Option.isSome_iff_ne_none] using hdue
      rw [wp_bind, wp_read]
      split
      · exact hs
      · rw [wp_bind, wp_read]
        split
        · exact hs
        · next claim _ =>
          split
          · exact hs
          · rw [wp_bind, wp_read]
            split
            · rw [wp_bind]
              exact wp_mono (markAcknowledged_sound timer claim nowWall hs hsound
                (.inl ⟨hdue, hsound.pickup hdue⟩)) (fun _ _ h => h) fun _ _ _ => hs
            · unfold onBook
              rw [wp_bind, wp_modify, wp_bind, wp_onStore]
              refine wp_mono (emit_returns _ _ _ _ _) (fun _ s₁ h₁ => ?_) fun _ _ h => h.elim
              rw [wp_bind, wp_onStore, wp_updateRunStateConn, wp_pure]
              exact Store.SoundRows.wrote (hs.congr h₁) (hsound.missed nowWall hdue)

theorem expireWatchdogOne_sound (timer : Timer) (runId : Uuid) (nowWall monoNow : Int) :
    Within (Preserves ReplyState.SoundRows)
      (expireWatchdogOne timer runId nowWall monoNow) := by
  refine within_preserves fun r hs => ?_
  unfold expireWatchdogOne expireWatchdogOneInner
  rw [inTx, wp_transact, wp_bind, wp_read]
  split
  · exact hs
  · next row hrow =>
    split
    · exact hs
    · next hset =>
      have hset : row.watchdogDeadline.isSome = true := by
        simpa [Option.isSome_iff_ne_none] using hset
      split
      · exact hs
      · rw [wp_bind, wp_read]
        split
        · exact hs
        · rw [wp_bind, wp_read]
          split
          · exact hs
          · unfold onBook
            rw [wp_bind, wp_modify, wp_bind]
            refine wp_durationMs fun d r₁ h₁ => ?_
            rw [wp_bind, wp_onStore]
            refine wp_mono (emit_returns _ _ _ _ _) (fun _ s₂ h₂ => ?_) fun _ _ h => h.elim
            rw [wp_bind, wp_onStore, wp_updateRunStateConn, wp_pure]
            have hs₁ : r₁.store.SoundRows := by
              rw [h₁]
              exact hs
            exact Store.SoundRows.wrote (hs₁.congr h₂)
              ((hs.getRunState hrow).expired nowWall hset)

/-- Every writer keeps rows sound, replies apart. -/
theorem soundRows_writers : RowWriters (Preserves Store.SoundRows) where
  same _ _ h hs := hs.congr h
  opens runId timerId appName kind firedAt deadline selected := by
    refine within_preserves fun s hs => ?_
    unfold insertRunStateConn fail
    rw [wp_bind, wp_get]
    split
    · exact hs
    · intro row hrow
      rcases List.mem_append.mp hrow with hrow | hrow
      · exact hs row hrow
      · rw [List.mem_singleton.mp hrow]
        exact RunStateRow.sound_opened _ _ _ _ _ _ _
  closes verdict message timer owner run utc hv :=
    within_preserves fun s hs => closeOpenRun_sound message timer owner run utc (hs.soundBut _) hv
  delivers runId transport := by
    refine within_preserves fun s hs => ?_
    intro row hrow
    obtain ⟨old, hold, rfl⟩ := List.mem_map.mp hrow
    split
    · exact (hs old hold).congr rfl
    · exact hs old hold
  acks := onAckThrough_sound
  misses := expirePickupOne_sound
  expires := expireWatchdogOne_sound

/-! ### Replies -/

section Reply

variable {cfg : ReplyConfig} {timer : Timer} {claim : RunClaim} {row : RunStateRow}
  {doc : ReplyDocument} {digest : String} {newState : RunState} {nowWall monoNow : Int}
  {current : Option Uuid} {s s' : Store}

theorem rearm_rearmed (cfg : ReplyConfig) (row : RunStateRow) (newState : RunState)
    (nowWall monoNow : Int) (r : ReplyState) :
    wp (rearm cfg row newState nowWall monoNow)
      (fun row' r' => r'.store = r.store ∧ ∃ watchdog, row.Rearmed newState watchdog ∧
        row' = { row with watchdogDeadline := watchdog })
      (fun _ r' => r'.store = r.store) r := by
  unfold rearm onBook
  simp only [wp_bind, wp_modify]
  split
  · next hterm =>
    rw [wp_bind, wp_modify, wp_pure]
    exact ⟨rfl, none, .closed hterm, rfl⟩
  · next hterm =>
    have hopen : newState.isTerminal = false := by simpa using hterm
    split
    · next hdet =>
      simp only [wp_bind, wp_pure]
      refine wp_armWatchdog (fun wall r' hr _ => ?_) fun _ r' hr _ => hr
      exact ⟨hr, some wall, .armed wall hopen hdet, rfl⟩
    · next hdet =>
      rw [wp_bind, wp_modify, wp_pure]
      exact ⟨rfl, row.watchdogDeadline, .left hopen hdet, rfl⟩

/-- The row that the accept path writes, and what became of its watchdog. -/
theorem apply_folds {utc : Int} {r : ReplyState} (hs : r.store.Wf) :
    wp (apply cfg timer claim row doc newState digest nowWall monoNow utc)
      (fun _ r' => ∃ watchdog, (row.report doc newState nowWall).Rearmed newState watchdog ∧
        r'.store.runStates =
          (r.store.wrote (row.folded doc newState digest nowWall watchdog)).runStates)
      (fun _ r' => Same Store.runStates r.store r'.store) r := by
  unfold apply
  simp only [wp_bind, wp_onStore]
  refine wp_mono (rearm_rearmed cfg (row.report doc newState nowWall) newState nowWall monoNow r)
    (fun row₁ r₁ h₁ => ?_) fun _ r' h => congrArg Store.runStates h
  obtain ⟨hr₁, watchdog, hwatch, rfl⟩ := h₁
  refine wp_logAcknowledged (hr₁ ▸ hs) fun s₂ hs₂ h₂ => ?_
  refine wp_logRunning hs₂ fun s₃ hs₃ h₃ => ?_
  refine wp_logVerdict hs₃ fun r₄ _ h₄ => ?_
  obtain ⟨evs, h, -⟩ := h₂.trans (h₃.trans h₄)
  rw [wp_updateRunStateConn]
  refine ⟨watchdog, hwatch, ?_⟩
  show (r₄.store.wrote _).runStates = _
  rw [h, hr₁]
  rfl

/-- The reply is accepted for the run of this row. -/
def Store.Accepts (s : Store) (current : Option Uuid) (timer : Timer) (doc : ReplyDocument)
    (digest : String) (row : RunStateRow) (newState : RunState) : Prop :=
  ∃ appName claim, Addressed s timer doc row.runId newState appName claim ∧
    current = some row.runId ∧ s.getRunState row.runId = some row ∧
    row.refuses doc appName newState = none ∧ row.replyDigest ≠ some digest

/-- What one ingest does to the rows. -/
inductive Folds (timer : Timer) (doc : ReplyDocument) (digest : String) (nowWall : Int)
    (current : Option Uuid) (s s' : Store) : Prop
  | same (h : s'.runStates = s.runStates)
  | noted {row : RunStateRow} (hrow : s.getRunState row.runId = some row)
      (h : s'.runStates = (s.wrote { row with replyDigest := some digest }).runStates)
  | folded {row : RunStateRow} {newState : RunState} {watchdog : Option Int}
      (hacc : s.Accepts current timer doc digest row newState)
      (hwatch : (row.report doc newState nowWall).Rearmed newState watchdog)
      (h : s'.runStates = (s.wrote (row.folded doc newState digest nowWall watchdog)).runStates)

theorem ingestStale_folds (utc : Int) :
    wp (ingestStale timer claim digest utc)
      (fun _ s' => Folds timer doc digest nowWall current s s')
      (fun _ s' => Same Store.runStates s s') s := by
  unfold ingestStale
  rw [wp_bind, wp_get]
  dsimp only
  split
  · exact .same rfl
  · rw [wp_bind]
    refine wp_mono (emit_returns _ _ _ _ s) (fun _ s₁ h₁ => ?_) fun _ _ h => h.elim
    have h₁ : s₁.runStates = s.runStates := h₁
    cases hrow : s.getRunState claim.runId with
    | none => exact .same h₁
    | some row =>
      rw [wp_bind, wp_updateRunStateConn]
      refine .noted (?_ : s.getRunState row.runId = some row) ?_
      · rw [(getRunState_mem hrow).2]
        exact hrow
      · show s₁.runStates.map _ = _
        rw [h₁]
        rfl

theorem ingestInner_folds (utc : Int) (currentOverride : Option Uuid) {r : ReplyState}
    (hs : r.store.Wf) :
    wp (ingestInner cfg timer doc digest nowWall monoNow utc currentOverride)
      (fun _ r' => Folds timer doc digest nowWall
        (currentOverride.or (r.store.newest timer.id)) r.store r'.store)
      (fun _ r' => Same Store.runStates r.store r'.store) r := by
  have hsame : Folds timer doc digest nowWall
      (currentOverride.or (r.store.newest timer.id)) r.store r.store := .same rfl
  unfold ingestInner
  split
  · exact hsame
  · next run newState appName hvalid =>
    rw [wp_bind, wp_read]
    split
    · exact hsame
    · next claim hclaim =>
      split
      · exact hsame
      · next htimer =>
        have haddr : Addressed r.store timer doc run newState appName claim :=
          ⟨hvalid, hclaim, not_not.mp htimer⟩
        have hid := haddr.runId_eq
        rw [wp_bind, wp_read]
        split
        · rw [wp_onStore]
          exact ingestStale_folds utc
        · next hcur =>
          have hcur := not_not.mp hcur
          rw [wp_bind, wp_read]
          split
          · exact hsame
          · next hok =>
            split
            · exact hsame
            · next hdigest =>
              rw [wp_bind]
              refine wp_mono (apply_folds hs) (fun _ r' h => ?_) fun _ _ h => h
              obtain ⟨watchdog, hwatch, hr'⟩ := h
              rw [wp_pure]
              cases hrow : r.store.getRunState claim.runId with
              | none =>
                -- Without a row nothing is written.
                refine .same (hr'.trans (congrArg Store.runStates (Store.wrote_of_none ?_)))
                rw [(RunStateRow.sameRun_folded).1, runId_currentRow]
                exact hrow
              | some row =>
                rw [currentRow_of_some hrow] at hok hdigest hwatch hr'
                have hrun := (getRunState_mem hrow).2
                rw [← hid, ← hrun] at haddr hcur
                exact .folded ⟨appName, claim, haddr, hcur, hrun ▸ hrow, hok, hdigest⟩ hwatch hr'

/-- The row that an accepted report leaves, once its watchdog is cleared. -/
theorem Store.Accepts.folded_cleared
    (hacc : s.Accepts current timer doc digest row newState) (hs : s.SoundRows)
    (hrev : ¬row.Revives newState) (nowWall : Int) :
    (row.folded doc newState digest nowWall none).Sound := by
  obtain ⟨appName, claim, haddr, -, hrow, hok, -⟩ := hacc
  exact (hs.getRunState hrow).folded_cleared (isAppWritable_of_validate haddr.valid) hok hrev

/-- An update with a sound row leaves every row sound. -/
theorem Store.SoundRows.noted (hs : s.SoundRows) (hrow : s.getRunState row.runId = some row) :
    (s.wrote { row with replyDigest := some digest }).SoundRows :=
  hs.wrote ((hs.getRunState hrow).congr rfl)

/-- A report that does not revive a failed run leaves every row sound, but
that its own may have kept a watchdog deadline. -/
theorem Folds.soundBut (h : Folds timer doc digest nowWall current s s') (hs : s.SoundRows)
    (hrev : ∀ row newState, s.Accepts current timer doc digest row newState →
      ¬row.Revives newState) : s'.SoundBut current := by
  cases h with
  | same h => exact (hs.soundBut current).congr h
  | noted hrow h => exact ((hs.noted hrow).soundBut current).congr h
  | @folded row newState watchdog hacc hwatch h =>
    have hclear := hacc.folded_cleared hs (hrev row newState hacc) nowWall
    obtain ⟨appName, claim, haddr, hcur, hrow, hok, -⟩ := hacc
    refine Store.SoundBut.congr (fun row' hrow' => ?_) h
    obtain ⟨old, hold, rfl⟩ := List.mem_map.mp hrow'
    split
    · next hid =>
      have hid : old.runId = row.runId := hid.trans row.sameRun_folded.1
      cases hterm : newState.isTerminal with
      | true =>
        refine .inl ((hclear.folded fun hset => ?_).merge old)
        cases hwatch with
        | closed _ => cases hset
        | armed _ hopen _ => exact absurd hterm (by simp [hopen])
        | left hopen _ => exact absurd hterm (by simp [hopen])
      | false =>
        -- The run is open, and its row is the one that was written.
        refine .inr ⟨hid ▸ hcur, row.folded doc newState digest nowWall watchdog, ?_, ?_,
          hclear.congr rfl⟩
        · show (s.wrote _).getRunState old.runId = _
          rw [hid]
          exact Store.getRunState_wrote_self hrow row.sameRun_folded
        · show newState.isTerminal = false
          exact hterm
    · exact .inl (hs old hold)

/-- A report that leaves the watchdog in its place leaves every row sound. -/
theorem Folds.sound (h : Folds timer doc digest nowWall current s s') (hs : s.SoundRows)
    (havoid : ∀ row newState, s.Accepts current timer doc digest row newState →
      ¬(row.Revives newState ∨ row.Disarms doc newState ∨ row.Overflows doc newState)) :
    s'.SoundRows := by
  cases h with
  | same h => exact hs.congr h
  | noted hrow h => exact (hs.noted hrow).congr h
  | @folded row newState watchdog hacc hwatch h =>
    obtain ⟨hrev, hwatched⟩ := not_or.mp (havoid row newState hacc)
    obtain ⟨hdis, hover⟩ := not_or.mp hwatched
    have hclear := hacc.folded_cleared hs hrev nowWall
    obtain ⟨appName, claim, haddr, hcur, hrow, hok, -⟩ := hacc
    refine Store.SoundRows.congr (hs.wrote (hclear.folded fun hset => ?_)) h
    cases hwatch with
    | closed _ => cases hset
    | armed _ hopen hdet => exact
      ⟨hopen, RunStateRow.folded_detects_of_report hopen hdet hover⟩
    | left hopen hdet =>
      exact absurd ((hs.getRunState hrow).disarms_of_left hok hopen hdet hset) hdis

end Reply

/-! ### Every run -/

/-- The commit accepts a reply that its row does not survive in one piece:
one that revives a failed run, or, outside of a fire, one that disarms the
watchdog or sets it by an estimate that is lost. -/
def Commit.Garbles (c : Commit) (s : Store) : Prop :=
  match c with
  | .ingest timer doc digest _ _ _ =>
    ∃ row newState, s.Accepts (s.newest timer.id) timer doc digest row newState ∧
      (row.Revives newState ∨ row.Disarms doc newState ∨ row.Overflows doc newState)
  | .fire f =>
    ∃ prev doc digest row newState, f.prev = some prev ∧ f.barrier = some (doc, digest) ∧
      s.Accepts (some prev.runId) f.timer doc digest row newState ∧ row.Revives newState
  | _ => False

section

variable [Calendar] {cfg : FireConfig} {r : ReplyState}

omit [Calendar] in
/-- The run that a fire overtakes is closed, with whatever the barrier's
reply left in its row. -/
theorem overtake_sound {f : Firing} (hs : r.store.Wf) (hrows : r.SoundRows)
    (havoid : ¬(Commit.fire f).Garbles r.store) :
    wp (overtake cfg f) (fun _ => ReplyState.SoundRows) (fun _ => ReplyState.SoundRows) r := by
  have hclose : ∀ r' : ReplyState, r'.store.SoundBut (f.prev.map (·.runId)) →
      wp (onStore (supersedePrevious f.timer f.owner f.prev f.utc))
        (fun _ => ReplyState.SoundRows) (fun _ => ReplyState.SoundRows) r' := by
    intro r' h
    rw [wp_onStore]
    exact closeOpenRun_sound _ _ _ _ _ h (.inl rfl)
  unfold overtake barrierIngest
  rw [wp_bind]
  split
  · next prev doc digest hprev hbarrier =>
    have hrev : ∀ row newState, r.store.Accepts (some prev.runId) f.timer doc digest row newState →
        ¬row.Revives newState := fun row newState hacc hbad =>
      havoid ⟨prev, doc, digest, row, newState, hprev, hbarrier, hacc, hbad⟩
    rw [wp_bind]
    refine wp_mono (ingestInner_folds f.utc (some prev.runId) hs) (fun outcome r₁ h₁ => ?_)
      fun _ r₁ h₁ => hrows.congr h₁
    have hbut : r₁.store.SoundBut (f.prev.map (·.runId)) := by
      rw [Option.some_or] at h₁
      rw [hprev]
      exact h₁.soundBut hrows hrev
    split
    · unfold logRejection
      rw [wp_onStore]
      refine wp_mono (emit_returns _ _ _ _ _) (fun _ s₂ h₂ => ?_) fun _ _ h => h.elim
      exact hclose _ (hbut.congr h₂)
    · exact hclose r₁ hbut
  · exact hclose r (hrows.soundBut _)

/-- One commit. -/
theorem Commit.sound (c : Commit) (hs : r.store.Wf) (hrows : r.SoundRows)
    (havoid : ¬c.Garbles r.store) : (c.after cfg r).SoundRows := by
  refine soundRows_writers.after c ?_ ?_ hrows
  · rintro timer doc digest nowWall monoNow utc rfl
    have hfolds : wp (ingestInner cfg.reply timer doc digest nowWall monoNow utc none)
        (fun _ r' => Folds timer doc digest nowWall
          (Option.or none (r.store.newest timer.id)) r.store r'.store)
        (fun _ r' => Same Store.runStates r.store r'.store) r :=
      ingestInner_folds utc none hs
    rw [Option.none_or] at hfolds
    refine wp_mono hfolds (fun _ r' h hrows => h.sound hrows ?_) fun _ r' h hrows => hrows.congr h
    exact fun row newState hacc hbad => havoid ⟨row, newState, hacc, hbad⟩
  · rintro f rfl
    exact wp_imp (overtake_sound hs hrows havoid) fun r' h _ => h

/-- **Lifecycle rows stay coherent** in every run in which no reply is
accepted that revives a failed run, or disarms the watchdog of one that is
not overtaken by a fire, or sets it by an estimate that is lost. -/
theorem lifecycle_coherent {tr : List (System.Event ReplyState Commit)}
    (h : (ledger cfg).Run {} tr r) (havoid : ∀ e ∈ tr, ¬e.label.Garbles e.pre.store) :
    ∀ row ∈ r.store.runStates, row.Coherent := by
  have hsound : r.store.Wf ∧ r.SoundRows := by
    refine h.invariant (I := fun r => r.store.Wf ∧ r.SoundRows) havoid ?_ ?_
    · exact ⟨Store.wf_empty, fun row hrow => absurd hrow List.not_mem_nil⟩
    · rintro r c r' rfl hc ⟨hs, hrows⟩
      exact ⟨Commit.wf hs, c.sound hs hrows hc⟩
  exact fun row hrow => (hsound.2 row hrow).toCoherent

omit [Calendar] in
/-- A report that revives a failed run, or disarms the watchdog, or sets it
by an estimate that is lost, leaves a row that is not coherent. -/
theorem RunStateRow.not_coherent_folded {row : RunStateRow} {doc : ReplyDocument}
    {digest : String} {newState : RunState} {nowWall : Int} {watchdog : Option Int}
    (h : row.Coherent) (hwatch : (row.report doc newState nowWall).Rearmed newState watchdog)
    (hbad : row.Revives newState ∨ row.Disarms doc newState ∨ row.Overflows doc newState) :
    ¬(row.folded doc newState digest nowWall watchdog).Coherent := by
  intro hc
  rcases hbad with ⟨hfailed, hopen⟩ | ⟨hset, hopen, hnone, hzero⟩ | ⟨hopen, hon, hsecs, hcol⟩
  · -- The failure kind stays where it was.
    have hsame : applyVerdict (accumulate row doc newState nowWall) doc newState nowWall =
        accumulate row doc newState nowWall := by
      cases newState <;> first | rfl | cases hopen
    have hkind : (row.folded doc newState digest nowWall watchdog).failureKind.isSome := by
      simp only [RunStateRow.folded, report, hsame]
      exact h.named hfailed
    have hstate : newState = .failed := hc.failure (.inl hkind)
    rw [hstate] at hopen
    cases hopen
  · have hleft : watchdog.isSome := by
      cases hwatch with
      | closed hterm =>
        rw [hopen] at hterm
        cases hterm
      | armed wall _ _ => rfl
      | left _ _ =>
        rw [(row.report_detection doc newState nowWall).2.2, hnone]
        exact hset
    have hpos := (folded_detects.mp (hc.watchdog hleft).2).2
    rw [hzero] at hpos
    exact absurd hpos (Nat.lt_irrefl 0)
  · -- The report itself still has the estimate, and sets the watchdog.
    obtain ⟨hdetection, hestimate, -⟩ := row.report_detection doc newState nowWall
    have hset : watchdog.isSome := by
      cases hwatch with
      | closed hterm =>
        rw [hopen] at hterm
        cases hterm
      | armed wall _ _ => rfl
      | left _ hoff => exact absurd ⟨hdetection.trans hon, hestimate.symm ▸ hsecs⟩ hoff
    have hpos := (folded_detects.mp (hc.watchdog hset).2).2
    rw [hcol] at hpos
    exact absurd hpos (Nat.lt_irrefl 0)

end

section Sample

attribute [local instance] Calendar.utcOnly

/-- The app is at work, and asks to be failed when it falls silent. -/
def watchedReply : ReplyDocument where
  schema := some REPLY_SCHEMA_V1
  runId := some ⟨1⟩
  appName := some "app"
  state := some "running"
  expectedSecs := some 60
  errorDetection := some true

/-- A run whose app falls silent after the first report. -/
def silentApp : List Commit :=
  [.createTimer (.sample .skip) 0, .setTimerOwner ⟨0⟩ "app", .fire (.owned (60 * NS)),
    .ingest (.sample .skip) watchedReply "first" (61 * NS) (61 * NS) (61 * NS),
    .expireWatchdog (.sample .skip) ⟨1⟩ (300 * NS) (300 * NS)]

/-- Its row, failed by the watchdog, is coherent. -/
theorem lifecycle_coherent_silent :
    (silentApp.foldl (fun r c => Commit.after .sample c r) {}).store.runStates.isEmpty = false ∧
      ∀ row ∈ (silentApp.foldl (fun r c => Commit.after .sample c r) {}).store.runStates,
        row.Coherent := by
  refine ⟨by decide +kernel, ?_⟩
  refine lifecycle_coherent (run_commits .sample silentApp) fun e he => ?_
  simp only [silentApp, System.trace, List.mem_cons, List.not_mem_nil, or_false] at he
  rcases he with rfl | rfl | rfl | rfl | rfl
  · exact id
  · exact id
  · rintro ⟨prev, _, _, _, _, hprev, -⟩
    cases hprev
  · rintro ⟨row, newState, ⟨_, _, _, _, hrow, -⟩,
      ⟨hfailed, -⟩ | ⟨-, -, hnone, -⟩ | ⟨-, -, -, hcol⟩⟩
    · have hopen : ∀ row ∈ ((silentApp.take 3).foldl (fun r c => Commit.after .sample c r)
          {}).store.runStates, row.state ≠ .failed := by
        decide +kernel
      exact hopen row (getRunState_mem hrow).1 hfailed
    · cases hnone
    · -- A minute fits the column.
      exact absurd (show expectedColumn 60 = 0 from hcol) (by decide)
  · exact id

/-- The app reports again. -/
def revivedApp : List Commit :=
  silentApp ++ [.ingest (.sample .skip) watchedReply "second" (301 * NS) (301 * NS) (301 * NS)]

/-- The run goes on, and stays timed out. -/
theorem lifecycle_garbled :
    ¬∀ (tr : List (System.Event ReplyState Commit)) (r : ReplyState),
      (ledger .sample).Run {} tr r → ∀ row ∈ r.store.runStates, row.Coherent := by
  intro h
  have hrun := h _ _ (run_commits .sample revivedApp)
  have hrow : ∃ row ∈ (revivedApp.foldl (fun r c => Commit.after .sample c r)
      {}).store.runStates, row.failureKind.isSome ∧ row.state = .running := by
    decide +kernel
  obtain ⟨row, hmem, hkind, hstate⟩ := hrow
  have hfailed := (hrun row hmem).failure (.inl hkind)
  rw [hstate] at hfailed
  cases hfailed

end Sample

end Bellman

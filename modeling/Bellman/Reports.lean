/-
Bellman/Reports.lean

What a lifecycle row keeps of its app's reports.

A report need not repeat what an earlier one said.  So a row is what its
reports come to when each is laid over those before it; a verdict starts its
own fields anew.

    reports   acknowledged, 60 s        running, 50 %        completed
                    │                        │                   │
    row       acknowledged, 60 s  ──►  …, running, 50 %  ──►  …, completed

`account` says what that is, from the reports alone.  Two things are not kept:
the instant of a verdict, when a report gives the verdict again without it,
and an estimate that its column does not hold.

Main result: in every run in which no accepted report is of these two kinds,
and each is of a run that has a row, every row holds what its app has told
(`reports_kept`).
-/
import Mathlib.Data.List.Induction
import Bellman.Coherence

namespace Bellman

open ProgramLogic Prog ReplyM

/-! ### Reports -/

/-- A reply that was accepted, and when. -/
structure Report where
  doc : ReplyDocument
  receivedAt : Int

namespace Report

/-- What is reported. -/
def state (rep : Report) : Option RunState := RunState.fromWire (rep.doc.state.getD "")

/-- When it came about, by the app's own word. -/
def endedAt (rep : Report) : Option Int :=
  match rep.state with
  | some .completed => rep.doc.completedAt
  | some .failed => rep.doc.failedAt
  | _ => none

def result (rep : Report) : Option Json :=
  if rep.state = some .completed then rep.doc.result else none

def reason (rep : Report) : Option String :=
  if rep.state = some .failed then rep.doc.reason else none

end Report

/-- What reports come to. -/
structure Account where
  acknowledgedAt : Option Int := none
  expectedSecs : Option Nat := none
  errorDetection : Option Bool := none
  heartbeatAt : Option Int := none
  progress : Option String := none
  state : Option RunState := none
  endedAt : Option Int := none
  result : Option Json := none
  reason : Option String := none
  receivedAt : Int := 0

namespace Account

/-- A report on top of what was told before.  What belongs to a verdict
counts as long as the verdict is the same. -/
def add (told : Account) (rep : Report) : Account where
  acknowledgedAt := rep.doc.acknowledgedAt.or told.acknowledgedAt
  expectedSecs := rep.doc.expectedSecs.or told.expectedSecs
  errorDetection := rep.doc.errorDetection.or told.errorDetection
  heartbeatAt := rep.doc.heartbeatAt.or told.heartbeatAt
  progress := rep.doc.progress.or told.progress
  state := rep.state
  endedAt := rep.endedAt.or (if told.state = rep.state then told.endedAt else none)
  result := rep.result.or (if told.state = rep.state then told.result else none)
  reason := rep.reason.or (if told.state = rep.state then told.reason else none)
  receivedAt := rep.receivedAt

end Account

def account (reps : List Report) : Account := reps.foldl Account.add {}

theorem account_concat (reps : List Report) (rep : Report) :
    account (reps ++ [rep]) = (account reps).add rep := by
  unfold account
  rw [List.foldl_append]
  rfl

/-- What is told of a verdict is told under it. -/
theorem account_verdict (reps : List Report) :
    ((account reps).endedAt.isSome → (account reps).state = some .completed ∨
      (account reps).state = some .failed) ∧
    ((account reps).result.isSome → (account reps).state = some .completed) ∧
    ((account reps).reason.isSome → (account reps).state = some .failed) := by
  induction reps using List.reverseRecOn with
  | nil => exact ⟨nofun, nofun, nofun⟩
  | append_singleton reps rep ih =>
    obtain ⟨hended, hresult, hreason⟩ := ih
    rw [account_concat]
    unfold Account.add Report.endedAt Report.result Report.reason
    refine ⟨?_, ?_, ?_⟩
    · dsimp only
      split
      · next hstate => exact fun _ => .inl hstate
      · next hstate => exact fun _ => .inr hstate
      · rw [Option.none_or]
        split
        · next heq => exact heq ▸ hended
        · exact nofun
    · dsimp only
      split
      · next hstate => exact fun _ => hstate
      · rw [Option.none_or]
        split
        · next heq => exact heq ▸ hresult
        · exact nofun
    · dsimp only
      split
      · next hstate => exact fun _ => hstate
      · rw [Option.none_or]
        split
        · next heq => exact heq ▸ hreason
        · exact nofun

/-- Without the verdict there is nothing told of it. -/
theorem account_result_of_ne {reps : List Report} (h : (account reps).state ≠ some .completed) :
    (account reps).result = none :=
  Option.not_isSome_iff_eq_none.mp (mt (account_verdict reps).2.1 h)

theorem account_reason_of_ne {reps : List Report} (h : (account reps).state ≠ some .failed) :
    (account reps).reason = none :=
  Option.not_isSome_iff_eq_none.mp (mt (account_verdict reps).2.2 h)

namespace RunStateRow

/-- The row has what was told; texts and results are cut to their bounds. -/
structure Holds (row : RunStateRow) (told : Account) : Prop where
  acknowledgedAt : ∀ t, told.acknowledgedAt = some t → row.acknowledgedAt = some t
  expectedSecs : row.expectedSecs = told.expectedSecs
  errorDetection : row.errorDetection = told.errorDetection
  heartbeatAt : row.heartbeatAt = told.heartbeatAt
  progress : row.progress = told.progress.map (truncateText · MAX_FREE_TEXT_BYTES)
  completedAt : told.state = some .completed →
    row.state = .completed ∧ row.completedAt = some (told.endedAt.getD told.receivedAt)
  failedAt : told.state = some .failed →
    row.state = .failed ∧ row.failedAt = some (told.endedAt.getD told.receivedAt)
  resultJson : row.resultJson =
    told.result.map fun r => (capResult r MAX_RESULT_STATUS_BYTES).1
  resultTruncated : row.resultTruncated =
    told.result.any fun r => (capResult r MAX_RESULT_STATUS_BYTES).2
  reason : row.reason = told.reason.map (truncateText · MAX_FREE_TEXT_BYTES)

/-- The row keeps up with its reports. -/
structure Tracks (row : RunStateRow) (reps : List Report) : Prop extends
    row.Holds (account reps) where
  /-- With a report, the row waits for none. -/
  answered : reps ≠ [] →
    row.pickupDeadline = none ∧ row.state.isFired = false ∧ row.state ≠ .noAck
  reported : (account reps).state = some .failed → row.failureKind = some .reported
  column : ∀ n, (account reps).expectedSecs = some n → n < 2 ^ 63

/-- The columns that reports are about. -/
def reportColumns (row : RunStateRow) :=
  ((row.acknowledgedAt, row.expectedSecs, row.errorDetection, row.heartbeatAt, row.progress),
    (row.state, row.completedAt, row.failedAt, row.failureKind),
    (row.resultJson, row.resultTruncated, row.reason, row.pickupDeadline))

section Tracks

variable {row row' : RunStateRow} {reps : List Report}

theorem Tracks.congr (h : row.Tracks reps) (hc : row'.reportColumns = row.reportColumns) :
    row'.Tracks reps := by
  simp only [reportColumns, Prod.mk.injEq] at hc
  obtain ⟨⟨hack, hsecs, hdet, hbeat, hprog⟩, ⟨hstate, hdone, hfailed, hkind⟩,
    ⟨hresult, hcut, hreason, hpickup⟩⟩ := hc
  constructor
  · constructor
    · rw [hack]
      exact h.acknowledgedAt
    · rw [hsecs]
      exact h.expectedSecs
    · rw [hdet]
      exact h.errorDetection
    · rw [hbeat]
      exact h.heartbeatAt
    · rw [hprog]
      exact h.progress
    · rw [hstate, hdone]
      exact h.completedAt
    · rw [hstate, hfailed]
      exact h.failedAt
    · rw [hresult]
      exact h.resultJson
    · rw [hcut]
      exact h.resultTruncated
    · rw [hreason]
      exact h.reason
  · rw [hpickup, hstate]
    exact h.answered
  · rw [hkind]
    exact h.reported
  · exact h.column

/-- The verdict of the app closes the row. -/
theorem Tracks.isTerminal_of_state (h : row.Tracks reps)
    (hv : (account reps).state = some .completed ∨ (account reps).state = some .failed) :
    row.isAppAuthoredTerminal = true ∧ row.isTerminal = true := by
  have happ : row.isAppAuthoredTerminal = true := by
    unfold isAppAuthoredTerminal
    rcases hv with hv | hv
    · rw [(h.completedAt hv).1]
    · rw [(h.failedAt hv).1, h.reported hv]
      rfl
  exact ⟨happ, isTerminal_of_isAppAuthoredTerminal happ⟩

theorem Tracks.state_ne_of_open (h : row.Tracks reps) (hopen : row.isTerminal = false) :
    (account reps).state ≠ some .completed ∧ (account reps).state ≠ some .failed := by
  constructor <;> intro hv
  · rw [(h.isTerminal_of_state (.inl hv)).2] at hopen
    cases hopen
  · rw [(h.isTerminal_of_state (.inr hv)).2] at hopen
    cases hopen

/-! ### The moves of Bellman -/

theorem tracks_opened (runId timerId : Uuid) (appName : String) (kind : FireKind)
    (firedAt deadline : Int) (selected : String) :
    ((ofFire runId timerId appName (fireState kind) firedAt deadline).withTransport
      selected).inserted.Tracks [] :=
  ⟨⟨nofun, rfl, rfl, rfl, rfl, nofun, nofun, rfl, rfl, rfl⟩, fun h => absurd rfl h, nofun, nofun⟩

/-- A row that waits for a report has none. -/
theorem Tracks.eq_nil (h : row.Tracks reps)
    (hopen : row.pickupDeadline.isSome ∨ row.state = .noAck) : reps = [] := by
  by_contra hne
  obtain ⟨hpickup, -, hno⟩ := h.answered hne
  rcases hopen with hopen | hopen
  · rw [hpickup] at hopen
    cases hopen
  · exact hno hopen

theorem Tracks.acked (h : row.Tracks reps) (nowWall : Int)
    (hopen : row.pickupDeadline.isSome ∨ row.state = .noAck) : (row.acked nowWall).Tracks reps := by
  obtain rfl := h.eq_nil hopen
  exact ⟨⟨nofun, h.expectedSecs, h.errorDetection, h.heartbeatAt, h.progress, nofun, nofun,
    h.resultJson, h.resultTruncated, h.reason⟩, fun h => absurd rfl h, nofun, nofun⟩

theorem Tracks.missed (h : row.Tracks reps) (nowWall : Int)
    (hp : row.pickupDeadline.isSome) : (row.missed nowWall).Tracks reps := by
  obtain rfl := h.eq_nil (.inl hp)
  exact ⟨⟨nofun, h.expectedSecs, h.errorDetection, h.heartbeatAt, h.progress, nofun, nofun,
    h.resultJson, h.resultTruncated, h.reason⟩, fun h => absurd rfl h, nofun, nofun⟩

theorem Tracks.expired (h : row.Tracks reps) (nowWall : Int) (hopen : row.isTerminal = false) :
    (row.expired nowWall).Tracks reps := by
  obtain ⟨hdone, hfailed⟩ := h.state_ne_of_open hopen
  exact ⟨⟨h.acknowledgedAt, h.expectedSecs, h.errorDetection, h.heartbeatAt, h.progress,
    fun hv => absurd hv hdone, fun hv => absurd hv hfailed, h.resultJson, h.resultTruncated,
    h.reason⟩, fun hne => ⟨(h.answered hne).1, rfl, nofun⟩, fun hv => absurd hv hfailed, h.column⟩

theorem Tracks.closed (h : row.Tracks reps) (hopen : row.isTerminal = false) {verdict : RunState}
    (hv : verdict = .superseded ∨ verdict = .cancelled) : (row.closed verdict).Tracks reps := by
  obtain ⟨hdone, hfailed⟩ := h.state_ne_of_open hopen
  refine ⟨⟨h.acknowledgedAt, h.expectedSecs, h.errorDetection, h.heartbeatAt, h.progress,
    fun hv => absurd hv hdone, fun hv => absurd hv hfailed, h.resultJson, h.resultTruncated,
    h.reason⟩, fun hne => ⟨rfl, ?_⟩, fun hv => absurd hv hfailed, h.column⟩
  show verdict.isFired = false ∧ verdict ≠ .noAck
  rcases hv with rfl | rfl <;> exact ⟨rfl, nofun⟩

end Tracks

end RunStateRow

/-! ### The reply -/

/-- What a report must be for all that was told to be kept: it does not leave
out the instant of a verdict that was told before, and its estimate is one
that its column holds. -/
structure Account.Keeps (told : Account) (rep : Report) : Prop where
  instant : told.state = rep.state → rep.endedAt = none →
    ∀ t, told.endedAt = some t → t = rep.receivedAt
  estimate : ∀ n, rep.doc.expectedSecs = some n → n < 2 ^ 63

section Folded

variable {row : RunStateRow} {reps : List Report} {doc : ReplyDocument} {appName digest : String}
  {newState : RunState} {nowWall : Int} {watchdog : Option Int}

theorem expectedColumn_of_lt {n : Nat} (h : n < 2 ^ 63) : expectedColumn n = n := by
  unfold expectedColumn
  rw [BitVec.toInt_eq_toNat_of_lt] <;> rw [BitVec.toNat_ofNat, Nat.mod_eq_of_lt (by omega)]
  · rfl
  · omega

/-- The instant of a verdict: its own, or the one told before. -/
theorem Account.Keeps.endedAt {rep : Report} (h : (account reps).Keeps rep) :
    (((account reps).add rep).endedAt).getD rep.receivedAt = rep.endedAt.getD rep.receivedAt := by
  unfold Account.add
  dsimp only
  cases hended : rep.endedAt with
  | some t => rfl
  | none =>
    rw [Option.none_or]
    split
    · next hstate =>
      cases htold : (account reps).endedAt with
      | none => rfl
      | some t => exact h.instant hstate hended t htold
    · rfl

/-- What a report leaves in the columns that every state has. -/
theorem RunStateRow.Tracks.accumulated (h : row.Tracks reps) (newState : RunState)
    (digest : String) (watchdog : Option Int) (hkeeps : (account reps).Keeps ⟨doc, nowWall⟩) :
    let row' := row.folded doc newState digest nowWall watchdog
    let all := (account reps).add ⟨doc, nowWall⟩
    (∀ t, all.acknowledgedAt = some t → row'.acknowledgedAt = some t) ∧
      row'.expectedSecs = all.expectedSecs ∧ (∀ n, all.expectedSecs = some n → n < 2 ^ 63) ∧
      row'.errorDetection = all.errorDetection ∧ row'.heartbeatAt = all.heartbeatAt ∧
      row'.progress = all.progress.map (truncateText · MAX_FREE_TEXT_BYTES) := by
  have hsmall : ∀ n, doc.expectedSecs.or (account reps).expectedSecs = some n → n < 2 ^ 63 := by
    intro n hn
    rcases Option.or_eq_some_iff.mp hn with hdoc | ⟨-, hold⟩
    · exact hkeeps.estimate n hdoc
    · exact h.column n hold
  have hsame : (row.report doc newState nowWall).acknowledgedAt =
        (doc.acknowledgedAt.or row.acknowledgedAt).or
          (if newState = .acknowledged then some nowWall else none) ∧
      (row.report doc newState nowWall).expectedSecs = doc.expectedSecs.or row.expectedSecs ∧
      (row.report doc newState nowWall).errorDetection =
        doc.errorDetection.or row.errorDetection ∧
      (row.report doc newState nowWall).heartbeatAt = doc.heartbeatAt.or row.heartbeatAt ∧
      (row.report doc newState nowWall).progress =
        (doc.progress.map (truncateText · MAX_FREE_TEXT_BYTES)).or row.progress := by
    unfold RunStateRow.report applyVerdict accumulate
    cases newState <;> exact ⟨rfl, rfl, rfl, rfl, rfl⟩
  obtain ⟨hack, hsecs, hdet, hbeat, hprog⟩ := hsame
  unfold RunStateRow.folded Account.add
  dsimp only
  rw [hack, hsecs, hdet, hbeat, hprog, h.expectedSecs, h.errorDetection, h.heartbeatAt, h.progress]
  refine ⟨fun t ht => ?_, ?_, hsmall, rfl, rfl, ?_⟩
  · rcases Option.or_eq_some_iff.mp ht with hdoc | ⟨hnone, hold⟩
    · rw [hdoc]
      rfl
    · rw [hnone, Option.none_or, h.acknowledgedAt t hold]
      rfl
  · cases hall : doc.expectedSecs.or (account reps).expectedSecs with
    | none => rfl
    | some n => exact congrArg some (expectedColumn_of_lt (hsmall n hall))
  · cases doc.progress <;> rfl

/-- What is told of a verdict, after one more report of it or of another. -/
theorem add_result {rep : Report} : ((account reps).add rep).result =
    if rep.state = some .completed then rep.doc.result.or (account reps).result else none := by
  unfold Account.add Report.result
  dsimp only
  split
  · next hstate =>
    rw [hstate]
    split
    · rfl
    · next hne => rw [account_result_of_ne hne]
  · next hstate =>
    rw [Option.none_or]
    split
    · next heq => exact account_result_of_ne (heq ▸ hstate)
    · rfl

theorem add_reason {rep : Report} : ((account reps).add rep).reason =
    if rep.state = some .failed then rep.doc.reason.or (account reps).reason else none := by
  unfold Account.add Report.reason
  dsimp only
  split
  · next hstate =>
    rw [hstate]
    split
    · rfl
    · next hne => rw [account_reason_of_ne hne]
  · next hstate =>
    rw [Option.none_or]
    split
    · next heq => exact account_reason_of_ne (heq ▸ hstate)
    · rfl

/-- A report that is no verdict meets a row without one. -/
theorem RunStateRow.Tracks.no_verdict (h : row.Tracks reps) (hw : newState.isAppWritable = true)
    (hok : row.refuses doc appName newState = none) (hopen : newState.isTerminal = false) :
    (account reps).state ≠ some .completed ∧ (account reps).state ≠ some .failed := by
  constructor <;> intro hv
  · rw [isTerminal_of_refuses hw hok (h.isTerminal_of_state (.inl hv)).1] at hopen
    cases hopen
  · rw [isTerminal_of_refuses hw hok (h.isTerminal_of_state (.inr hv)).1] at hopen
    cases hopen

/-- What a report leaves in the columns of the verdicts. -/
theorem RunStateRow.Tracks.decided (h : row.Tracks reps) (digest : String)
    (watchdog : Option Int) (hw : newState.isAppWritable = true)
    (hstate : (⟨doc, nowWall⟩ : Report).state = some newState)
    (hok : row.refuses doc appName newState = none)
    (hkeeps : (account reps).Keeps ⟨doc, nowWall⟩) :
    let row' := row.folded doc newState digest nowWall watchdog
    let all := (account reps).add ⟨doc, nowWall⟩
    (all.state = some .completed →
      row'.state = .completed ∧ row'.completedAt = some (all.endedAt.getD all.receivedAt)) ∧
      (all.state = some .failed →
        row'.state = .failed ∧ row'.failedAt = some (all.endedAt.getD all.receivedAt)) ∧
      (all.state = some .failed → row'.failureKind = some .reported) ∧
      row'.resultJson = (all.result.map fun r => (capResult r MAX_RESULT_STATUS_BYTES).1) ∧
      row'.resultTruncated = (all.result.any fun r => (capResult r MAX_RESULT_STATUS_BYTES).2) ∧
      row'.reason = all.reason.map (truncateText · MAX_FREE_TEXT_BYTES) := by
  have hall : ((account reps).add ⟨doc, nowWall⟩).state = some newState := hstate
  have hinstant : (((account reps).add ⟨doc, nowWall⟩).endedAt).getD nowWall =
      (⟨doc, nowWall⟩ : Report).endedAt.getD nowWall := hkeeps.endedAt
  dsimp only
  rw [add_result, add_reason, hall, hstate,
    show ((account reps).add ⟨doc, nowWall⟩).receivedAt = nowWall from rfl, hinstant]
  unfold Report.endedAt
  rw [hstate]
  -- The case of a report that is no verdict.
  have hopen : newState.isTerminal = false → row.resultJson = none ∧ row.resultTruncated = false ∧
      row.reason = none := by
    intro hopen
    obtain ⟨hdone, hfailed⟩ := h.no_verdict hw hok hopen
    rw [h.resultJson, h.resultTruncated, h.reason, account_result_of_ne hdone,
      account_reason_of_ne hfailed]
    exact ⟨rfl, rfl, rfl⟩
  cases newState with
  | completed =>
    refine ⟨fun _ => ⟨rfl, rfl⟩, (by intro h; cases h), (by intro h; cases h), ?_, ?_, rfl⟩
    · show (doc.result.map fun r => (capResult r MAX_RESULT_STATUS_BYTES).1).or row.resultJson = _
      rw [h.resultJson, if_pos rfl]
      cases doc.result <;> rfl
    · unfold RunStateRow.folded RunStateRow.report applyVerdict accumulate
      dsimp only
      rw [h.resultTruncated, if_pos rfl]
      cases doc.result <;> rfl
  | failed =>
    refine ⟨(by intro h; cases h), fun _ => ⟨rfl, rfl⟩, fun _ => rfl, rfl, rfl, ?_⟩
    show (doc.reason.map (truncateText · MAX_FREE_TEXT_BYTES)).or row.reason = _
    rw [h.reason, if_pos rfl]
    cases doc.reason <;> rfl
  | acknowledged =>
    obtain ⟨hresult, hcut, hreason⟩ := hopen rfl
    refine ⟨?_, ?_, ?_, hresult, hcut, hreason⟩ <;> intro h <;> cases h
  | running =>
    obtain ⟨hresult, hcut, hreason⟩ := hopen rfl
    refine ⟨?_, ?_, ?_, hresult, hcut, hreason⟩ <;> intro h <;> cases h
  | _ => cases hw

/-- **One report** on a row that has kept up: it keeps up still. -/
theorem RunStateRow.Tracks.folded (h : row.Tracks reps) (digest : String)
    (watchdog : Option Int) (hw : newState.isAppWritable = true)
    (hstate : (⟨doc, nowWall⟩ : Report).state = some newState)
    (hok : row.refuses doc appName newState = none)
    (hkeeps : (account reps).Keeps ⟨doc, nowWall⟩) :
    (row.folded doc newState digest nowWall watchdog).Tracks (reps ++ [⟨doc, nowWall⟩]) := by
  obtain ⟨hack, hsecs, hsmall, hdet, hbeat, hprog⟩ :=
    h.accumulated newState digest watchdog hkeeps
  obtain ⟨hdone, hfailed, hkind, hresult, hcut, hreason⟩ :=
    h.decided digest watchdog hw hstate hok hkeeps
  rw [← account_concat] at hack hsecs hsmall hdet hbeat hprog
  rw [← account_concat] at hdone hfailed hkind hresult hcut hreason
  refine ⟨⟨hack, hsecs, hdet, hbeat, hprog, hdone, hfailed, hresult, hcut, hreason⟩, fun _ => ?_,
    hkind, hsmall⟩
  show none = none ∧ newState.isFired = false ∧ newState ≠ .noAck
  cases newState with
  | acknowledged | running | completed | failed => exact ⟨rfl, rfl, nofun⟩
  | _ => cases hw

end Folded

/-! ### Properties of rows -/

/-- A property of rows, and one of runs without a row, that all moves keep
which are Bellman's own. -/
structure RowMoves (P : RunStateRow → Prop) (N : Uuid → Prop) : Prop where
  merge : ∀ row old, P row → old.runId = row.runId → P (Store.mergeRunState old row)
  opened : ∀ runId timerId appName kind firedAt deadline selected, N runId →
    P ((RunStateRow.ofFire runId timerId appName (fireState kind) firedAt deadline).withTransport
      selected).inserted
  delivered : ∀ row transport, P row → P { row with transport := some transport }
  acked : ∀ row nowWall, P row → row.pickupDeadline.isSome ∨ row.state = .noAck →
    P (row.acked nowWall)
  missed : ∀ row nowWall, P row → row.pickupDeadline.isSome → P (row.missed nowWall)
  expired : ∀ row nowWall, P row → row.isTerminal = false → P (row.expired nowWall)
  closed : ∀ row verdict, P row → row.isTerminal = false →
    verdict = .superseded ∨ verdict = .cancelled → P (row.closed verdict)

/-- The one holds of every row, the other of every run that has none. -/
structure Store.Rows (P : RunStateRow → Prop) (N : Uuid → Prop) (s : Store) : Prop where
  row : ∀ row ∈ s.runStates, P row
  rowless : ∀ run, s.getRunState run = none → N run

section Moves

variable {P : RunStateRow → Prop} {N : Uuid → Prop} {s s' : Store} {r : ReplyState}
  {row : RunStateRow}

theorem Store.Rows.congr (h : s.Rows P N) (hs : Same Store.runStates s s') : s'.Rows P N where
  row row hrow := by
    rw [show s'.runStates = s.runStates from hs] at hrow
    exact h.row row hrow
  rowless run hrun := h.rowless run ((getRunState_congr hs run).symm.trans hrun)

theorem Store.Rows.getRunState (h : s.Rows P N) {run : Uuid} (hrow : s.getRunState run = some row) :
    P row :=
  h.row row (getRunState_mem hrow).1

namespace RowMoves

/-- A row is updated, and its run has one. -/
theorem wrote (hP : RowMoves P N) (h : s.Rows P N) (hrow : P row) : (s.wrote row).Rows P N := by
  constructor
  · intro row' hrow'
    obtain ⟨old, hold, rfl⟩ := List.mem_map.mp hrow'
    split
    · next hid => exact hP.merge row old hrow hid
    · exact h.row old hold
  · intro run hnone
    apply h.rowless run
    rw [Store.getRunState_wrote] at hnone
    split at hnone
    · exact Option.map_eq_none_iff.mp hnone
    · exact hnone

theorem wp_emit (h : s.Rows P N) (kind : RunState) (loggedAt : Int) (subject : EventSubject)
    (note : EventNote) : wp (emit kind loggedAt subject note) (fun _ s' => s'.Rows P N)
      (fun _ _ => False) s :=
  wp_mono (emit_returns kind loggedAt subject note s) (fun _ _ hs => h.congr hs) fun _ _ h => h

theorem closeOpenRun (hP : RowMoves P N) {verdict : RunState} (message : String) (timer : Timer)
    (owner : Option String) (run : Option RunClaim) (utc : Int)
    (hv : verdict = .superseded ∨ verdict = .cancelled) :
    Within (Preserves (Store.Rows P N)) (closeOpenRun verdict message timer owner run utc) := by
  refine within_preserves fun s hs => ?_
  unfold Bellman.closeOpenRun
  cases run with
  | none => exact hs
  | some run =>
    rw [wp_bind, wp_get]
    dsimp only
    split
    · next hun =>
      rw [wp_bind]
      refine wp_mono (wp_emit hs _ _ _ _) (fun _ s₁ h₁ => ?_) fun _ _ h => h.elim
      cases hrow : s.getRunState run.runId with
      | none => exact h₁
      | some row =>
        have hopen : row.isTerminal = false := by
          simpa [Store.isUnresolved, hrow] using hun
        rw [wp_bind, wp_updateRunStateConn]
        exact hP.wrote h₁ (hP.closed row verdict (hs.getRunState hrow) hopen hv)
    · exact hs

theorem markAcknowledged (hP : RowMoves P N) (timer : Timer) (claim : RunClaim) (nowWall : Int)
    (hs : r.store.Rows P N) (hrow : P row)
    (hopen : row.pickupDeadline.isSome ∨ row.state = .noAck) :
    wp (markAcknowledged timer claim row nowWall) (fun _ r' => r'.store.Rows P N)
      (fun _ r' => r'.store.Rows P N) r := by
  have hacked := hP.acked row nowWall hrow hopen
  unfold Bellman.markAcknowledged onBook
  rw [wp_bind, wp_modify]
  split
  · rw [wp_bind, wp_onStore]
    refine wp_mono (wp_emit hs _ _ _ _) (fun _ s₁ h₁ => ?_) fun _ _ h => h.elim
    rw [wp_onStore, wp_updateRunStateConn]
    exact hP.wrote h₁ hacked
  · next hlogged =>
    have hlogged : row.acknowledgedLogged = true := by simpa using hlogged
    rw [wp_onStore, wp_updateRunStateConn]
    unfold RunStateRow.acked at hacked
    rw [← hlogged] at hacked
    exact hP.wrote hs hacked

theorem onAckThrough (hP : RowMoves P N) (timer : Timer) (throughSequence : Nat) (nowWall : Int) :
    Within (Through (Preserves (Store.Rows P N)))
      (onAckThrough timer throughSequence nowWall) := by
  refine within_preserves (I := fun r : ReplyState => r.store.Rows P N) fun r hs => ?_
  unfold Bellman.onAckThrough
  rw [wp_bind, wp_read]
  split
  · exact hs
  · next row hcur =>
    rw [wp_bind, wp_read]
    split
    · exact hs
    · next claim _ =>
      split
      · exact hs
      · split
        · next hopen =>
          rw [wp_bind, inTx, wp_transact]
          refine wp_mono (hP.markAcknowledged timer claim nowWall hs
            (hs.row row (currentRunState_mem hcur)) ?_) (fun _ _ h => h) fun _ _ _ => hs
          exact hopen.imp_left And.left
        · exact hs

theorem expirePickupOne (hP : RowMoves P N) (timer : Timer) (runId : Uuid) (nowWall : Int) :
    Within (Through (Preserves (Store.Rows P N))) (expirePickupOne timer runId nowWall) := by
  refine within_preserves (I := fun r : ReplyState => r.store.Rows P N) fun r hs => ?_
  unfold Bellman.expirePickupOne expirePickupOneInner
  rw [inTx, wp_transact, wp_bind, wp_read]
  split
  · exact hs
  · next row hrow =>
    have hkept := hs.getRunState hrow
    split
    · exact hs
    · next hdue =>
      have hdue : row.pickupDeadline.isSome = true := by
        simpa [Option.isSome_iff_ne_none] using hdue
      rw [wp_bind, wp_read]
      split
      · exact hs
      · rw [wp_bind, wp_read]
        split
        · exact hs
        · next claim _ =>
          split
          · exact hs
          · rw [wp_bind, wp_read]
            split
            · rw [wp_bind]
              exact wp_mono (hP.markAcknowledged timer claim nowWall hs hkept (.inl hdue))
                (fun _ _ h => h) fun _ _ _ => hs
            · unfold onBook
              rw [wp_bind, wp_modify, wp_bind, wp_onStore]
              refine wp_mono (wp_emit hs _ _ _ _) (fun _ s₁ h₁ => ?_) fun _ _ h => h.elim
              rw [wp_bind, wp_onStore, wp_updateRunStateConn, wp_pure]
              exact hP.wrote h₁ (hP.missed row nowWall hkept hdue)

theorem expireWatchdogOne (hP : RowMoves P N) (timer : Timer) (runId : Uuid)
    (nowWall monoNow : Int) : Within (Through (Preserves (Store.Rows P N)))
      (expireWatchdogOne timer runId nowWall monoNow) := by
  refine within_preserves (I := fun r : ReplyState => r.store.Rows P N) fun r hs => ?_
  unfold Bellman.expireWatchdogOne expireWatchdogOneInner
  rw [inTx, wp_transact, wp_bind, wp_read]
  split
  · exact hs
  · next row hrow =>
    split
    · exact hs
    · split
      · exact hs
      · next hopen =>
        have hopen : row.isTerminal = false := by
          rw [not_or] at hopen
          exact Bool.eq_false_iff.mpr hopen.1
        rw [wp_bind, wp_read]
        split
        · exact hs
        · rw [wp_bind, wp_read]
          split
          · exact hs
          · unfold onBook
            rw [wp_bind, wp_modify, wp_bind]
            refine wp_durationMs fun d r₁ h₁ => ?_
            rw [wp_bind, wp_onStore]
            have hs₁ : r₁.store.Rows P N := by
              rw [h₁]
              exact hs
            refine wp_mono (wp_emit hs₁ _ _ _ _) (fun _ s₂ h₂ => ?_) fun _ _ h => h.elim
            rw [wp_bind, wp_onStore, wp_updateRunStateConn, wp_pure]
            exact hP.wrote h₂ (hP.expired row nowWall (hs.getRunState hrow) hopen)

/-- **All writers** keep what their moves keep, replies apart. -/
theorem writers (hP : RowMoves P N) : RowWriters (Preserves (Store.Rows P N)) where
  same _ _ h hs := hs.congr h
  opens runId timerId appName kind firedAt deadline selected := by
    refine within_preserves fun s hs => ?_
    unfold insertRunStateConn fail
    rw [wp_bind, wp_get]
    split
    · exact hs
    · next hnew =>
      have hnew : s.getRunState runId = none := Option.not_isSome_iff_eq_none.mp hnew
      refine ⟨fun row hrow => ?_, fun run hnone => hs.rowless run ?_⟩
      · rcases List.mem_append.mp hrow with hrow | hrow
        · exact hs.row row hrow
        · rw [List.mem_singleton.mp hrow]
          exact hP.opened _ _ _ _ _ _ _ (hs.rowless runId hnew)
      · unfold Store.getRunState at hnone
        rw [List.find?_append, Option.or_eq_none_iff] at hnone
        exact hnone.1
  closes verdict message timer owner run utc hv := hP.closeOpenRun message timer owner run utc hv
  delivers runId transport := by
    refine within_preserves fun s hs => ?_
    constructor
    · intro row hrow
      obtain ⟨old, hold, rfl⟩ := List.mem_map.mp hrow
      split
      · exact hP.delivered old transport (hs.row old hold)
      · exact hs.row old hold
    · intro run hnone
      apply hs.rowless run
      have hmap := @getRunState_map s
        (fun row : RunStateRow =>
          if row.runId = runId then { row with transport := some transport } else row)
        (fun row => by split <;> rfl) run
      exact Option.map_eq_none_iff.mp (hmap.symm.trans hnone)
  acks := hP.onAckThrough
  misses := hP.expirePickupOne
  expires := hP.expireWatchdogOne

end RowMoves

end Moves

/-! ### What is accepted -/

/-- The report that an ingest accepts, and of which run. -/
def reportOf (out : Except Abort IngestOutcome) (doc : ReplyDocument) (receivedAt : Int) :
    Option (Uuid × Report) :=
  match out with
  | .ok .applied => doc.runId.map fun run => (run, ⟨doc, receivedAt⟩)
  | _ => none

/-- The report that a fire finds in the reply file of the run it overtakes. -/
def Firing.heard (cfg : FireConfig) (f : Firing) (r : ReplyState) : Option (Uuid × Report) :=
  match f.prev, f.barrier with
  | some prev, some (doc, digest) =>
    reportOf ((ingestAsCurrent cfg.reply f.timer doc digest prev.runId f.now f.monoNow
      f.utc).run r).1 doc f.now
  | _, _ => none

/-- The report that a commit accepts; a fire that fails accepts none. -/
def Commit.accepted (cfg : FireConfig) (c : Commit) (r : ReplyState) : Option (Uuid × Report) :=
  match c with
  | .ingest timer doc digest nowWall monoNow utc =>
    reportOf ((Bellman.ingest cfg.reply timer doc digest nowWall monoNow utc).run r).1 doc nowWall
  | .fire f =>
    match ((fireTx cfg f).run r).1 with
    | .ok _ => f.heard cfg r
    | .error _ => none
  | _ => none

theorem accepted_ingest {cfg : FireConfig} {r r' : ReplyState} {timer : Timer}
    {doc : ReplyDocument} {digest : String} {nowWall monoNow utc : Int}
    {out : Except Abort IngestOutcome}
    (h : (ingest cfg.reply timer doc digest nowWall monoNow utc).run r = (out, r')) :
    (Commit.ingest timer doc digest nowWall monoNow utc).accepted cfg r =
      reportOf out doc nowWall := by
  show reportOf ((ingest cfg.reply timer doc digest nowWall monoNow utc).run r).1 doc nowWall = _
  rw [h]

theorem accepted_fire {cfg : FireConfig} {r r' : ReplyState} {f : Firing}
    {out : RunClaim × Option Uuid} (h : (fireTx cfg f).run r = (.ok out, r')) :
    (Commit.fire f).accepted cfg r = f.heard cfg r := by
  unfold Commit.accepted
  dsimp only
  rw [h]

theorem accepted_fire_error {cfg : FireConfig} {r r' : ReplyState} {f : Firing} {e : Abort}
    (h : (fireTx cfg f).run r = (.error e, r')) : (Commit.fire f).accepted cfg r = none := by
  unfold Commit.accepted
  dsimp only
  rw [h]

/-- The reports of all runs, with one more. -/
def taking (reps : Uuid → List Report) : Option (Uuid × Report) → Uuid → List Report
  | none => reps
  | some (run, rep) => Function.update reps run (reps run ++ [rep])

/-- The report is of a run that has a row, which keeps all that was told. -/
def Store.Fits (s : Store) (reps : Uuid → List Report) (accepted : Option (Uuid × Report)) : Prop :=
  ∀ run rep, accepted = some (run, rep) →
    (s.getRunState run).isSome ∧ (account (reps run)).Keeps rep

/-- Every row keeps up with its reports, and a run without a row has none. -/
abbrev Store.Tracks (s : Store) (reps : Uuid → List Report) : Prop :=
  s.Rows (fun row => row.Tracks (reps row.runId)) fun run => reps run = []

theorem tracks_moves (reps : Uuid → List Report) :
    RowMoves (fun row => row.Tracks (reps row.runId)) fun run => reps run = [] where
  merge row old h hid := by
    show (Store.mergeRunState old row).Tracks (reps old.runId)
    rw [hid]
    exact h.congr rfl
  opened runId timerId appName kind firedAt deadline selected h := by
    show RunStateRow.Tracks _ (reps runId)
    rw [h]
    exact RunStateRow.tracks_opened _ _ _ _ _ _ _
  delivered _ _ h := h.congr rfl
  acked _ nowWall h hopen := h.acked nowWall hopen
  missed _ nowWall h hp := h.missed nowWall hp
  expired _ nowWall h hopen := h.expired nowWall hopen
  closed _ _ h hopen hv := h.closed hopen hv

section Accept

variable {cfg : ReplyConfig} {timer : Timer} {doc : ReplyDocument} {digest : String}
  {nowWall monoNow : Int} {current : Option Uuid} {s s' : Store} {out : IngestOutcome}
  {reps : Uuid → List Report}

theorem Store.Tracks.congr (h : s.Tracks reps) (hs : Same Store.runStates s s') :
    s'.Tracks reps :=
  Store.Rows.congr h hs

/-- The row of a run is written with one more report; the others are left. -/
theorem Store.Tracks.taken {row row' : RunStateRow} {run : Uuid} {rep : Report}
    (h : s.Tracks reps) (hrow' : row'.Tracks (reps run ++ [rep])) (hid : row'.runId = run)
    (hrow : s.getRunState run = some row) :
    (s.wrote row').Tracks (taking reps (some (run, rep))) := by
  have hother : ∀ other, other ≠ run → taking reps (some (run, rep)) other = reps other :=
    fun other hne => Function.update_of_ne hne ..
  constructor
  · intro written hwritten
    obtain ⟨old, hold, rfl⟩ := List.mem_map.mp hwritten
    split
    · next heq =>
      have hold : (Store.mergeRunState old row').runId = run := heq.trans hid
      rw [hold, show taking reps (some (run, rep)) run = reps run ++ [rep] from
        Function.update_self ..]
      exact hrow'.congr rfl
    · next hne =>
      rw [hother _ (hid ▸ hne)]
      exact h.row old hold
  · intro other hnone
    rw [Store.getRunState_wrote, hid] at hnone
    split at hnone
    · next heq =>
      rw [heq, hrow] at hnone
      cases hnone
    · next hne =>
      rw [hother _ hne]
      exact h.rowless other hnone

/-- **One ingest**: the reports are those before, and what it accepts. -/
theorem Ingested.tracks (h : Ingested cfg timer doc digest nowWall monoNow current s out s')
    (hs : s.Tracks reps) (hfits : s.Fits reps (reportOf (.ok out) doc nowWall)) :
    s'.Tracks (taking reps (reportOf (.ok out) doc nowWall)) := by
  cases h with
  | unaddressed => exact hs
  | refused => exact hs
  | known => exact hs
  | late haddr hcur hrow hdigest hlines =>
    have hkept : s.Tracks reps := hs
    refine (tracks_moves reps).wrote (hkept.congr rfl) ?_
    exact (hs.getRunState hrow).congr rfl
  | lateRowless => exact hs.congr rfl
  | duplicate => exact hs
  | @applied run newState appName claim row evs watchdog haddr hcur hrow hok hdigest harm hlines =>
    have hid := (runId_of_validate haddr.valid).1
    have hstate : (⟨doc, nowWall⟩ : Report).state = some newState := by
      unfold Report.state
      rw [state_of_validate haddr.valid]
      exact RunState.fromWire_asStr newState
    have hreport : reportOf (.ok .applied) doc nowWall = some (run, ⟨doc, nowWall⟩) := by
      unfold reportOf
      rw [hid]
      rfl
    rw [hreport] at hfits ⊢
    obtain ⟨hsome, hkeeps⟩ := hfits run _ rfl
    obtain ⟨stored, hstored⟩ := Option.isSome_iff_exists.mp hsome
    obtain rfl : row = stored := by
      rw [← haddr.runId_eq] at hstored
      rw [hrow, currentRow_of_some hstored]
    have hrun : row.runId = run := (getRunState_mem hstored).2
    have hfolded : (row.folded doc newState digest nowWall watchdog).Tracks
        (reps run ++ [⟨doc, nowWall⟩]) := by
      have hkept : row.Tracks (reps row.runId) := hs.getRunState hstored
      rw [hrun] at hkept
      exact hkept.folded digest watchdog (isAppWritable_of_validate haddr.valid) hstate hok hkeeps
    refine Store.Tracks.taken (hs.congr rfl) hfolded ?_ hstored
    exact row.sameRun_folded.1.trans hrun

end Accept

/-! ### Every run -/

/-- The reports of each run that a trace accepts, oldest first. -/
def reports (cfg : FireConfig) (tr : List (System.Event ReplyState Commit)) :
    Uuid → List Report :=
  tr.foldl (fun reps e => taking reps (e.label.accepted cfg e.pre)) fun _ => []

/-- Every report that the trace accepts is of a run that has a row, and keeps
what was told before. -/
def AllFit (cfg : FireConfig) (tr : List (System.Event ReplyState Commit)) : Prop :=
  ∀ tr₁ e tr₂, tr = tr₁ ++ e :: tr₂ →
    e.pre.store.Fits (reports cfg tr₁) (e.label.accepted cfg e.pre)

theorem allFit_concat {cfg : FireConfig} {tr : List (System.Event ReplyState Commit)}
    {e : System.Event ReplyState Commit} : AllFit cfg (tr ++ [e]) ↔
      AllFit cfg tr ∧ e.pre.store.Fits (reports cfg tr) (e.label.accepted cfg e.pre) := by
  constructor
  · refine fun h => ⟨fun tr₁ d tr₂ heq => h tr₁ d (tr₂ ++ [e]) ?_, h tr e [] rfl⟩
    rw [heq, List.append_assoc]
    rfl
  · rintro ⟨hbefore, hlast⟩ tr₁ d tr₂ heq
    rcases List.eq_nil_or_concat tr₂ with rfl | ⟨tr₂, d', rfl⟩
    · obtain ⟨rfl, hd⟩ := List.append_inj' heq rfl
      rw [← List.singleton_inj.mp hd]
      exact hlast
    · rw [List.concat_eq_append, ← List.cons_append, ← List.append_assoc] at heq
      exact hbefore tr₁ d tr₂ (List.append_inj' heq rfl).1

section

variable {cfg : FireConfig} {r : ReplyState} {reps : Uuid → List Report}

/-- What the barrier of a fire ingests is a report of the run before. -/
theorem barrierIngest_tracks (f : Firing) (hs : r.store.Wf) (h : r.store.Tracks reps)
    (hfits : r.store.Fits reps (f.heard cfg r)) :
    wp (barrierIngest cfg f) (fun _ r' => r'.store.Tracks (taking reps (f.heard cfg r)))
      (fun _ _ => True) r := by
  unfold barrierIngest
  unfold Firing.heard at hfits ⊢
  cases hprev : f.prev with
  | none => exact h
  | some prev =>
    cases hbarrier : f.barrier with
    | none => exact h
    | some read =>
      obtain ⟨doc, digest⟩ := read
      rw [hprev, hbarrier] at hfits
      dsimp only at hfits ⊢
      rw [wp_bind, wp_iff]
      refine ⟨fun out r₁ hrun => ?_, fun _ _ _ => trivial⟩
      rw [hrun] at hfits ⊢
      have hwp : wp (ingestInner cfg.reply f.timer doc digest f.now f.monoNow f.utc
          (some prev.runId)) (fun out r' => Ingested cfg.reply f.timer doc digest f.now f.monoNow
            ((some prev.runId).or (r.store.newest f.timer.id)) r.store out r'.store ∧
              r'.store.Wf) _ r := ingestInner_ingested hs f.utc (some prev.runId)
      have h₁ := (wp_ok hwp hrun).1.tracks h hfits
      split
      · rw [wp_onStore]
        exact wp_mono (RowMoves.wp_emit h₁ _ _ _ _) (fun _ _ h => h) fun _ _ h => h.elim
      · exact h₁

/-- The run that a fire overtakes keeps its reports, and is closed. -/
theorem overtake_tracks (f : Firing) (hs : r.store.Wf) (h : r.store.Tracks reps)
    (hfits : r.store.Fits reps (f.heard cfg r)) :
    wp (overtake cfg f) (fun _ r' => r'.store.Tracks (taking reps (f.heard cfg r)))
      (fun _ _ => True) r := by
  unfold overtake
  rw [wp_bind]
  refine wp_mono (barrierIngest_tracks f hs h hfits) (fun _ r₁ h₁ => ?_) fun _ _ _ => trivial
  rw [wp_onStore]
  have hcloses := (tracks_moves (taking reps (f.heard cfg r))).closeOpenRun
    "superseded by a new firing while still unresolved" f.timer f.owner f.prev f.utc (.inl rfl)
  exact hcloses.wp (fun _ _ hp => hp h₁) fun _ _ _ => trivial

variable [Calendar]

/-- **One commit** keeps every row to its reports. -/
theorem Commit.tracks (c : Commit) (hs : r.store.Wf) (h : r.store.Tracks reps)
    (hfits : r.store.Fits reps (c.accepted cfg r)) :
    (c.after cfg r).store.Tracks (taking reps (c.accepted cfg r)) := by
  cases c with
  | ingest timer doc digest nowWall monoNow utc =>
    have hwp : wp (Bellman.ingest cfg.reply timer doc digest nowWall monoNow utc)
        (fun out r' => Ingested cfg.reply timer doc digest nowWall monoNow
          (r.store.newest timer.id) r.store out r'.store ∧ r'.store.Wf)
        (fun _ r' => r'.store = r.store ∧ _) r := ingest_ingested hs utc
    refine after_of_wp (P := fun r' => r'.store.Tracks _) ?_
    rw [Commit.prog, wp_bind, wp_iff]
    refine ⟨fun out r' hrun => ?_, fun e r' hrun => ?_⟩
    · rw [accepted_ingest hrun] at hfits ⊢
      exact (wp_ok hwp hrun).1.tracks h hfits
    · rw [accepted_ingest hrun]
      exact h.congr (congrArg Store.runStates (wp_error hwp hrun).1)
  | fire f =>
    refine after_of_wp (P := fun r' => r'.store.Tracks _) ?_
    rw [Commit.prog, wp_bind, wp_iff]
    refine ⟨fun out r' hrun => ?_, fun e r' hrun => ?_⟩
    · rw [accepted_fire hrun] at hfits ⊢
      have hwp := (tracks_moves (taking reps (f.heard cfg r))).writers.wp_fireTx cfg f
        (fun _ _ hp hi => hp hi) (overtake_tracks f hs h hfits)
      exact wp_ok hwp hrun
    · rw [accepted_fire_error hrun]
      have hwp : wp (fireTx cfg f) (fun _ _ => True) (fun _ r' => r'.store = r.store) r := by
        unfold fireTx
        rw [inTx, wp_transact, wp_iff]
        exact ⟨fun _ _ _ => trivial, fun _ _ _ => rfl⟩
      exact h.congr (congrArg Store.runStates (wp_error hwp hrun))
  | _ =>
    exact (tracks_moves reps).writers.after _ (by intro _ _ _ _ _ _ heq; cases heq)
      (by intro _ heq; cases heq) h

end

section Sample

attribute [local instance] Calendar.utcOnly

/-- The app is done, and says when. -/
def ReplyDocument.done : ReplyDocument :=
  { doneReply with completedAt := some (61 * NS), progress := some "all of it" }

/-- It is done, once more, and brings the result. -/
def ReplyDocument.resulted : ReplyDocument := { doneReply with result := some (.num 7) }

def Commit.begun : List Commit :=
  [.createTimer (.sample .skip) 0, .setTimerOwner ⟨0⟩ "app", .fire (.owned (60 * NS))]

def Commit.told : Commit :=
  .ingest (.sample .skip) .done "first" (62 * NS) (62 * NS) (62 * NS)

def Commit.retold : Commit :=
  .ingest (.sample .skip) .resulted "second" (90 * NS) (90 * NS) (90 * NS)

def traceOf (cs : List Commit) : List (System.Event ReplyState Commit) :=
  System.trace (fun r c => Commit.after .sample c r) {} cs

def stateOf (cs : List Commit) : ReplyState :=
  cs.foldl (fun r c => Commit.after .sample c r) {}

theorem run_traceOf (cs : List Commit) : (ledger .sample).Run {} (traceOf cs) (stateOf cs) :=
  System.run_trace (S := ledger .sample) (fun _ _ => rfl) {} cs

theorem traceOf_concat (cs : List Commit) (c : Commit) :
    traceOf (cs ++ [c]) = traceOf cs ++ [⟨stateOf cs, c, c.after .sample (stateOf cs)⟩] :=
  System.trace_append _ _ cs [c]

/-- A commit that accepts nothing fits. -/
theorem allFit_idle {cs : List Commit} {c : Commit} (h : AllFit .sample (traceOf cs))
    (hnone : (c.accepted .sample (stateOf cs)).isNone = true) :
    AllFit .sample (traceOf (cs ++ [c])) := by
  rw [traceOf_concat, allFit_concat]
  refine ⟨h, fun run rep heq => ?_⟩
  rw [heq] at hnone
  cases hnone

theorem allFit_begun : AllFit .sample (traceOf Commit.begun) := by
  have hnil : AllFit .sample (traceOf []) := by
    rintro tr₁ e tr₂ heq
    cases tr₁ <;> cases heq
  have hcreated := allFit_idle (c := .createTimer (.sample .skip) 0) hnil (by decide +kernel)
  have howned := allFit_idle (c := .setTimerOwner ⟨0⟩ "app") hcreated (by decide +kernel)
  exact allFit_idle (c := .fire (.owned (60 * NS))) howned (by decide +kernel)

theorem allFit_told : AllFit .sample (traceOf (Commit.begun ++ [.told])) := by
  rw [traceOf_concat, allFit_concat]
  refine ⟨allFit_begun, fun run rep heq => ?_⟩
  have hreport : Commit.accepted .sample .told (stateOf Commit.begun) =
      some (⟨1⟩, ⟨.done, 62 * NS⟩) := by
    have hok : (match ((ingest FireConfig.sample.reply (.sample .skip) .done "first" (62 * NS)
        (62 * NS) (62 * NS)).run (stateOf Commit.begun)).1 with
        | .ok .applied => true
        | _ => false) = true := by
      decide +kernel
    rcases hrun : (ingest FireConfig.sample.reply (.sample .skip) .done "first" (62 * NS)
      (62 * NS) (62 * NS)).run (stateOf Commit.begun) with ⟨out, r'⟩
    rw [hrun] at hok
    refine (accepted_ingest hrun).trans ?_
    dsimp only at hok
    split at hok
    · rfl
    · cases hok
  have hpair := Option.some.inj (hreport.symm.trans heq)
  obtain ⟨rfl, rfl⟩ := Prod.mk.inj hpair
  refine ⟨by decide +kernel, fun hstate => ?_, nofun⟩
  revert hstate
  decide +kernel

end Sample

end Bellman

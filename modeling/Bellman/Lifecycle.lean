/-
Bellman/Lifecycle.lean

The life of a run, as its lifecycle row and its log lines tell it.

Each operation on lifecycle rows logs some events and then writes one row:

    store after = (store before).logged evs |>.wrote row

and what matters of the events is their *lines*: for each run, the kinds
acknowledged, running and terminal, with whose failure it was.  The rules
here say so for every operation of the reply engine, with the row written
and the lines logged spelled out, and say exactly when an operation aborts.

Main results: the rule of the accept path (`wp_apply`), and what one ingest
does in each of its outcomes (`ingestInner_ingested`).
-/
import Bellman.Current
import Bellman.Verdict

namespace Bellman

open ProgramLogic Prog ReplyM

/-! ### Lines -/

/-- A line about the lifecycle of a run: its kind, and of a failure whose
report it is. -/
structure Line where
  kind : RunState
  failureKind : Option FailureKind := none
  deriving Repr, DecidableEq

/-- The kinds of lifecycle lines. -/
def RunState.isLifecycle : RunState → Bool
  | .acknowledged | .running => true
  | s => s.isTerminal

/-- Parse the spelling of a failure kind. -/
def FailureKind.fromWire (s : String) : Option FailureKind :=
  match s with
  | "reported" => some .reported
  | "timed_out" => some .timedOut
  | _ => none

/-- The `failure_kind` member of an event's detail. -/
def EventNote.failureKind (n : EventNote) : Option FailureKind :=
  match n.detail with
  | some (.obj members) =>
    (members.find? (·.1 == "failure_kind")).bind fun m =>
      match m.2 with
      | .str s => FailureKind.fromWire s
      | _ => none
  | _ => none

def EventRecord.line (e : EventRecord) : Line where
  kind := e.kind
  failureKind := if e.kind = .failed then e.toEventNote.failureKind else none

/-- The lifecycle lines about a run, oldest first. -/
def linesOf (run : Uuid) (evs : List EventRecord) : List Line :=
  (evs.filter fun e => e.kind.isLifecycle && e.runId == some run).map EventRecord.line

@[simp] theorem linesOf_nil (run : Uuid) : linesOf run [] = [] := rfl

@[simp] theorem linesOf_append (run : Uuid) (evs evs' : List EventRecord) :
    linesOf run (evs ++ evs') = linesOf run evs ++ linesOf run evs' := by
  simp [linesOf]

/-- The events tell `ls` of the run `who`, and nothing of any other. -/
def Lines (who : Uuid) (ls : List Line) (evs : List EventRecord) : Prop :=
  ∀ run, linesOf run evs = if run = who then ls else []

theorem Lines.nil (who : Uuid) : Lines who [] [] := fun run => by simp

theorem Lines.append {who : Uuid} {ls ls' : List Line} {evs evs' : List EventRecord}
    (h : Lines who ls evs) (h' : Lines who ls' evs') : Lines who (ls ++ ls') (evs ++ evs') := by
  intro run
  rw [linesOf_append, h, h']
  split <;> simp

theorem Lines.self {who : Uuid} {ls : List Line} {evs : List EventRecord}
    (h : Lines who ls evs) : linesOf who evs = ls := by
  simpa using h who

theorem Lines.of_ne {who run : Uuid} {ls : List Line} {evs : List EventRecord}
    (h : Lines who ls evs) (hne : run ≠ who) : linesOf run evs = [] := by
  simpa [hne] using h run

/-- One event about one run. -/
theorem Lines.single {who : Uuid} {e : EventRecord} (hrun : e.runId = some who)
    (hkind : e.kind.isLifecycle = true) : Lines who [e.line] [e] := by
  intro run
  by_cases h : run = who
  · simp [linesOf, hrun, hkind, h]
  · have hne : ¬who = run := fun h' => h h'.symm
    simp [linesOf, hrun, hne, h]

/-- An event of no lifecycle kind, or about no run. -/
theorem Lines.silent (who : Uuid) {e : EventRecord}
    (h : (e.kind.isLifecycle && e.runId.isSome) = false) : Lines who [] [e] := by
  intro run
  have hno : ¬(e.kind.isLifecycle = true ∧ e.runId = some run) := by
    rintro ⟨hk, hr⟩
    simp [hk, hr] at h
  simp only [linesOf, List.filter_cons, List.filter_nil, Bool.and_eq_true, beq_iff_eq, hno,
    if_false, List.map_nil, ite_self]

/-! ### The store after a log and a write -/

namespace Store

/-- The store after these events were enqueued. -/
def logged (s : Store) (evs : List EventRecord) : Store :=
  { s with
    nextUuid := s.nextUuid + evs.length
    eventOutbox := s.eventOutbox ++ evs }

/-- The store after a lifecycle row was updated. -/
def wrote (s : Store) (row : RunStateRow) : Store :=
  { s with runStates := s.runStates.map fun old =>
      if old.runId = row.runId then mergeRunState old row else old }

variable {s : Store}

@[simp] theorem logged_nil : s.logged [] = s := by simp [logged]

@[simp] theorem logged_logged (evs evs' : List EventRecord) :
    (s.logged evs).logged evs' = s.logged (evs ++ evs') := by
  simp [logged, Nat.add_assoc]

@[simp] theorem runs_logged (evs : List EventRecord) : (s.logged evs).runs = s.runs := rfl

@[simp] theorem getRunState_logged (evs : List EventRecord) (run : Uuid) :
    (s.logged evs).getRunState run = s.getRunState run := rfl

@[simp] theorem getRun_logged (evs : List EventRecord) (run : Uuid) :
    (s.logged evs).getRun run = s.getRun run := rfl

@[simp] theorem getRun_wrote (row : RunStateRow) (run : Uuid) :
    (s.wrote row).getRun run = s.getRun run := rfl

@[simp] theorem eventOutbox_wrote (row : RunStateRow) :
    (s.wrote row).eventOutbox = s.eventOutbox := rfl

/-- An update reaches the row of its run and no other. -/
theorem getRunState_wrote (row : RunStateRow) (run : Uuid) :
    (s.wrote row).getRunState run =
      if run = row.runId then (s.getRunState run).map (mergeRunState · row)
      else s.getRunState run := by
  have hmap := getRunState_map (s := s)
    (f := fun old => if old.runId = row.runId then mergeRunState old row else old)
    (fun old => by split <;> rfl) run
  refine hmap.trans ?_
  cases hold : s.getRunState run with
  | none => simp
  | some old =>
    obtain rfl := (getRunState_mem hold).2
    simp only [Option.map_some]
    split <;> rfl

/-- Without a row of that run an update changes nothing. -/
theorem wrote_of_none {row : RunStateRow} (h : s.getRunState row.runId = none) :
    s.wrote row = s := by
  have hid : ∀ old ∈ s.runStates,
      (if old.runId = row.runId then mergeRunState old row else old) = id old := by
    intro old hold
    have hne := List.find?_eq_none.mp h old hold
    exact if_neg (by simpa using hne)
  unfold wrote
  rw [List.map_congr_left hid, List.map_id]

end Store

/-- The identity columns, which no update changes. -/
def RunStateRow.SameRun (row row' : RunStateRow) : Prop :=
  row'.runId = row.runId ∧ row'.timerId = row.timerId ∧ row'.appName = row.appName ∧
    row'.firedAt = row.firedAt ∧ row'.selectedTransport = row.selectedTransport

/-- A row that keeps them is stored as it is. -/
theorem RunStateRow.SameRun.merge {row row' : RunStateRow} (h : row.SameRun row') :
    Store.mergeRunState row row' = row' := by
  obtain ⟨h1, h2, h3, h4, h5⟩ := h
  unfold Store.mergeRunState
  rw [← h1, ← h2, ← h3, ← h4, ← h5]

theorem Store.getRunState_wrote_self {s : Store} {row row' : RunStateRow} {run : Uuid}
    (h : s.getRunState run = some row) (hsame : row.SameRun row') :
    (s.wrote row').getRunState run = some row' := by
  have hrun : run = row'.runId := (getRunState_mem h).2.symm.trans hsame.1.symm
  rw [Store.getRunState_wrote, if_pos hrun, h, Option.map_some, hsame.merge]

theorem Store.getRunState_wrote_of_ne {s : Store} {row : RunStateRow} {run : Uuid}
    (h : run ≠ row.runId) : (s.wrote row).getRunState run = s.getRunState run := by
  rw [Store.getRunState_wrote, if_neg h]

theorem wp_updateRunStateConn {row : RunStateRow} {Q : Unit → Store → Prop}
    {E : Abort → Store → Prop} {s : Store} :
    wp (updateRunStateConn row) Q E s = Q () (s.wrote row) := rfl

/-- The events tell `ls` of the run, and that is all that changed. -/
def Emits (who : Uuid) (ls : List Line) (s s' : Store) : Prop :=
  ∃ evs, s' = s.logged evs ∧ Lines who ls evs

theorem Emits.refl {who : Uuid} {s : Store} : Emits who [] s s := ⟨[], by simp, .nil who⟩

theorem Emits.trans {who : Uuid} {ls ls' : List Line} {s s' s'' : Store}
    (h : Emits who ls s s') (h' : Emits who ls' s' s'') : Emits who (ls ++ ls') s s'' := by
  obtain ⟨evs, rfl, hl⟩ := h
  obtain ⟨evs', rfl, hl'⟩ := h'
  exact ⟨evs ++ evs', by simp, hl.append hl'⟩

/-- What one emission says about its run. -/
theorem wp_emit_line {kind : RunState} (hk : kind.isLifecycle = true) {loggedAt : Int}
    {timer : Timer} {claim : RunClaim} {note : EventNote} {Q : Unit → Store → Prop}
    {E : Abort → Store → Prop} {s : Store} (hs : s.Wf)
    (hQ : ∀ s', s'.Wf → Emits claim.runId
      [⟨kind, if kind = .failed then note.failureKind else none⟩] s s' → Q () s') :
    wp (emit kind loggedAt (.ofRun timer claim) note) Q E s := by
  rw [wp_emit hs]
  exact hQ _ (hs.emit _ rfl) ⟨[_], rfl, .single rfl hk⟩

/-! ### The accept path -/

namespace RunStateRow

/-- The row after a report was folded in, before the deadline and the log
are seen to. -/
def report (row : RunStateRow) (doc : ReplyDocument) (newState : RunState) (nowWall : Int) :
    RunStateRow :=
  { applyVerdict (accumulate row doc newState nowWall) doc newState nowWall with
    pickupDeadline := none
    state := newState }

/-- The row that an accepted reply leaves, with the watchdog deadline that
it armed. -/
def folded (row : RunStateRow) (doc : ReplyDocument) (newState : RunState) (digest : String)
    (nowWall : Int) (watchdog : Option Int) : RunStateRow :=
  let next := row.report doc newState nowWall
  { next with
    expectedSecs := next.expectedSecs.map expectedColumn
    watchdogDeadline := watchdog
    acknowledgedLogged := next.acknowledgedLogged || next.acknowledgedAt.isSome
    runningLogged := next.runningLogged || newState == .running
    replyDigest := some digest }

/-- The verdict of a closed row, as a line tells it. -/
def verdict (row : RunStateRow) : Option Line :=
  if row.isTerminal then
    some ⟨row.state, if row.state = .failed then row.failureKind else none⟩
  else none

end RunStateRow

/-- The `acknowledged` line that is due on a row. -/
def ackLines (row : RunStateRow) : List Line :=
  if row.acknowledgedLogged = false ∧ row.acknowledgedAt.isSome then [⟨.acknowledged, none⟩]
  else []

/-- The `running` line that is due on a row. -/
def runningLines (row : RunStateRow) (newState : RunState) : List Line :=
  if newState = .running ∧ row.runningLogged = false then [⟨.running, none⟩] else []

/-- The line of a terminal report, due when the state changes. -/
def verdictLines (curState newState : RunState) : List Line :=
  if newState.isTerminal ∧ curState ≠ newState then
    [⟨newState, if newState = .failed then some .reported else none⟩]
  else []

/-- What an accepted reply logs. -/
def replyLines (row : RunStateRow) (doc : ReplyDocument) (newState : RunState) (nowWall : Int) :
    List Line :=
  ackLines (row.report doc newState nowWall) ++
    (runningLines (row.report doc newState nowWall) newState ++ verdictLines row.state newState)

/-- The watchdog of a report can be armed: its deadlines are in range. -/
def Arms (cfg : ReplyConfig) (row : RunStateRow) (newState : RunState) (nowWall monoNow : Int) :
    Prop :=
  newState.isTerminal = false → row.errorDetection = some true → 0 < row.expectedSecs.getD 0 →
    ∃ span at_ wall, watchdogSpan cfg (row.expectedSecs.getD 0) = .ok span ∧
      monoAdd monoNow span = .ok at_ ∧ wallAdd nowWall ((fromStd span).getD 0) = .ok wall

section Accept

variable {timer : Timer} {claim : RunClaim} {row : RunStateRow} {doc : ReplyDocument}
  {newState : RunState} {nowWall monoNow utc : Int}

theorem wp_armWatchdog {cfg : ReplyConfig} {runId : Uuid} {expectedSecs : Nat}
    {Q : Int → ReplyState → Prop} {E : Abort → ReplyState → Prop} {r : ReplyState}
    (hQ : ∀ wall r', r'.store = r.store → (∃ span at_, watchdogSpan cfg expectedSecs = .ok span ∧
      monoAdd monoNow span = .ok at_ ∧ wallAdd nowWall ((fromStd span).getD 0) = .ok wall) →
      Q wall r')
    (hE : ∀ e r', r'.store = r.store → (¬∃ span at_ wall,
      watchdogSpan cfg expectedSecs = .ok span ∧ monoAdd monoNow span = .ok at_ ∧
        wallAdd nowWall ((fromStd span).getD 0) = .ok wall) → E e r') :
    wp (armWatchdog cfg runId expectedSecs nowWall monoNow) Q E r := by
  unfold armWatchdog onBook
  simp only [wp_bind, wp_onStore, wp_orPanic, wp_modify, wp_pure]
  cases hspan : watchdogSpan cfg expectedSecs with
  | error p =>
    refine ⟨nofun, fun p' _ => hE _ _ rfl ?_⟩
    rintro ⟨_, _, _, hs, _⟩
    rw [hspan] at hs
    cases hs
  | ok span =>
    refine ⟨fun span' h => ?_, nofun⟩
    obtain rfl := Except.ok.inj h
    cases hat : monoAdd monoNow span with
    | error p =>
      refine ⟨nofun, fun p' _ => hE _ _ rfl ?_⟩
      rintro ⟨_, _, _, hs, hm, _⟩
      obtain rfl := Except.ok.inj (hspan.symm.trans hs)
      rw [hat] at hm
      cases hm
    | ok at_ =>
      refine ⟨fun at' h => ?_, nofun⟩
      cases hwall : wallAdd nowWall ((fromStd span).getD 0) with
      | error p =>
        refine ⟨nofun, fun p' _ => hE _ _ rfl ?_⟩
        rintro ⟨_, _, _, hs, _, hw⟩
        obtain rfl := Except.ok.inj (hspan.symm.trans hs)
        rw [hwall] at hw
        cases hw
      | ok wall =>
        refine ⟨fun wall' h => ?_, nofun⟩
        obtain rfl := Except.ok.inj h
        exact hQ _ _ rfl ⟨span, at_, hspan, hat, hwall⟩

/-- The deadline bookkeeping touches no table; it aborts when a deadline is
out of range. -/
theorem wp_rearm {cfg : ReplyConfig} {Q : RunStateRow → ReplyState → Prop}
    {E : Abort → ReplyState → Prop} {r : ReplyState}
    (hQ : ∀ watchdog r', r'.store = r.store → Arms cfg row newState nowWall monoNow →
      Q { row with watchdogDeadline := watchdog } r')
    (hE : ∀ e r', r'.store = r.store → ¬Arms cfg row newState nowWall monoNow → E e r') :
    wp (rearm cfg row newState nowWall monoNow) Q E r := by
  unfold rearm onBook
  simp only [wp_bind, wp_modify]
  split
  · next hterm =>
    simp only [wp_bind, wp_modify, wp_pure]
    exact hQ none _ rfl fun h => by simp [hterm] at h
  · next hterm =>
    split
    · next harm =>
      simp only [wp_bind, wp_pure]
      refine wp_armWatchdog (fun wall r' hr h => ?_) fun e r' hr h => hE e r' hr fun ha => ?_
      · obtain ⟨span, at_, h⟩ := h
        exact hQ (some wall) r' hr fun _ _ _ => ⟨span, at_, wall, h⟩
      · exact h (ha (by simpa using hterm) harm.1 harm.2)
    · next harm =>
      simp only [wp_bind, wp_modify, wp_pure]
      exact hQ row.watchdogDeadline _ rfl fun _ he hn => absurd ⟨he, hn⟩ harm

theorem wp_logAcknowledged {Q : RunStateRow → Store → Prop} {E : Abort → Store → Prop}
    {s : Store} (hs : s.Wf)
    (hQ : ∀ s', s'.Wf → Emits claim.runId (ackLines row) s s' →
      Q { row with acknowledgedLogged := row.acknowledgedLogged || row.acknowledgedAt.isSome }
        s') :
    wp (logAcknowledged timer claim row nowWall) Q E s := by
  unfold logAcknowledged
  unfold ackLines at hQ
  by_cases h : row.acknowledgedLogged = false ∧ row.acknowledgedAt.isSome
  · simp only [h, and_self, if_true, Bool.false_or] at hQ ⊢
    rw [wp_bind]
    exact wp_emit_line rfl hs fun s' hs' he => hQ s' hs' he
  · have hrow : (row.acknowledgedLogged || row.acknowledgedAt.isSome) =
        row.acknowledgedLogged := by
      cases hl : row.acknowledgedLogged with
      | true => rfl
      | false => simpa [hl] using h
    rw [if_neg h]
    rw [if_neg h, hrow] at hQ
    exact hQ s hs .refl

theorem wp_logRunning {Q : RunStateRow → Store → Prop} {E : Abort → Store → Prop} {s : Store}
    (hs : s.Wf)
    (hQ : ∀ s', s'.Wf → Emits claim.runId (runningLines row newState) s s' →
      Q { row with runningLogged := row.runningLogged || newState == .running } s') :
    wp (logRunning timer claim row doc newState nowWall) Q E s := by
  unfold logRunning
  unfold runningLines at hQ
  by_cases h : newState = .running ∧ row.runningLogged = false
  · simp only [h, and_self, if_true, Bool.false_or, beq_self_eq_true] at hQ ⊢
    rw [wp_bind]
    exact wp_emit_line rfl hs fun s' hs' he => hQ s' hs' he
  · have hrow : (row.runningLogged || newState == .running) = row.runningLogged := by
      cases hl : row.runningLogged with
      | true => rfl
      | false => simpa [hl] using h
    rw [if_neg h]
    rw [if_neg h, hrow] at hQ
    exact hQ s hs .refl

theorem wp_durationMs {runId : Uuid} {firedAt : Int} {Q : Int × Option String → ReplyState → Prop}
    {E : Abort → ReplyState → Prop} {r : ReplyState}
    (hQ : ∀ d r', r'.store = r.store → Q d r') :
    wp (durationMs runId firedAt nowWall monoNow) Q E r := by
  unfold durationMs
  rw [wp_modifyGet]
  refine hQ _ _ ?_
  split <;> rfl

/-- The line of a reported failure says so. -/
theorem failureKind_reported (source : Option String) (ms : Option Int)
    (message : Option String) :
    EventNote.failureKind
      { durationMs := ms
        message := message
        detail := some (.obj ((source.map fun s => ("duration_source", Json.str s)).toList ++
          [("failure_kind", .str FailureKind.reported.asStr)])) } = some .reported := by
  cases source <;> rfl

theorem wp_logVerdict {curState : RunState} {Q : Unit → ReplyState → Prop}
    {E : Abort → ReplyState → Prop} {r : ReplyState} (hs : r.store.Wf)
    (hQ : ∀ r', r'.store.Wf → Emits claim.runId (verdictLines curState newState) r.store r'.store →
      Q () r') :
    wp (logVerdict timer claim row doc curState newState nowWall monoNow utc) Q E r := by
  unfold logVerdict
  unfold verdictLines at hQ
  by_cases h : newState.isTerminal ∧ curState ≠ newState
  · rw [if_pos h, wp_bind]
    rw [if_pos h] at hQ
    have hlife : newState.isLifecycle = true := by
      cases newState <;> simp_all [RunState.isLifecycle, RunState.isTerminal]
    refine wp_durationMs fun d r₁ h₁ => ?_
    rw [wp_onStore]
    refine wp_emit_line hlife (h₁ ▸ hs) fun s' hs' he => hQ _ hs' ?_
    rw [h₁] at he
    by_cases hf : newState = .failed
    · subst hf
      simpa [verdictParts, failureKind_reported] using he
    · simpa only [hf, if_false] using he
  · rw [if_neg h] at hQ ⊢
    exact hQ r hs .refl

theorem RunStateRow.sameRun_report : row.SameRun (row.report doc newState nowWall) := by
  unfold RunStateRow.report applyVerdict accumulate
  split <;> exact ⟨rfl, rfl, rfl, rfl, rfl⟩

theorem RunStateRow.sameRun_folded {digest : String} {watchdog : Option Int} :
    row.SameRun (row.folded doc newState digest nowWall watchdog) :=
  row.sameRun_report

/-- **The accept path.**  It logs the lines that are due and writes the
folded row; it aborts exactly when the watchdog cannot be armed. -/
theorem wp_apply {cfg : ReplyConfig} {digest : String} {Q : Unit → ReplyState → Prop}
    {E : Abort → ReplyState → Prop} {r : ReplyState} (hs : r.store.Wf)
    (hQ : ∀ watchdog evs r',
      Arms cfg (row.report doc newState nowWall) newState nowWall monoNow →
      Lines claim.runId (replyLines row doc newState nowWall) evs →
      r'.store = (r.store.logged evs).wrote (row.folded doc newState digest nowWall watchdog) →
      r'.store.Wf → Q () r')
    (hE : ∀ e r', r'.store = r.store →
      ¬Arms cfg (row.report doc newState nowWall) newState nowWall monoNow → E e r') :
    wp (apply cfg timer claim row doc newState digest nowWall monoNow utc) Q E r := by
  unfold apply
  simp only [wp_bind, wp_onStore]
  refine @wp_rearm (row.report doc newState nowWall) _ _ _ _ _ _ _
    (fun watchdog r₁ h₁ harm => ?_) hE
  refine wp_logAcknowledged (h₁ ▸ hs) fun s₂ hs₂ h₂ => ?_
  refine wp_logRunning hs₂ fun s₃ hs₃ h₃ => ?_
  refine wp_logVerdict hs₃ fun r₄ hs₄ h₄ => ?_
  obtain ⟨evs, h, hl⟩ := h₂.trans (h₃.trans h₄)
  rw [wp_updateRunStateConn]
  refine hQ watchdog evs _ harm hl ?_ ?_
  · show r₄.store.wrote _ = _
    rw [h, h₁]
    rfl
  · exact hs₄.congr rfl rfl rfl

end Accept

/-! ### Ingest -/

theorem runId_of_validate {doc : ReplyDocument} {run : Uuid} {newState : RunState}
    {appName : String} (h : doc.validate = .ok (run, newState, appName)) :
    doc.runId = some run ∧ doc.appName = some appName := by
  unfold ReplyDocument.validate at h
  repeat' split at h
  all_goals simp_all

/-- The document is well formed and names a run of the timer. -/
structure Addressed (s : Store) (timer : Timer) (doc : ReplyDocument) (run : Uuid)
    (newState : RunState) (appName : String) (claim : RunClaim) : Prop where
  valid : doc.validate = .ok (run, newState, appName)
  claimed : s.getRun run = some claim
  ofTimer : claim.timerId = timer.id

theorem Addressed.runId_eq {s : Store} {timer : Timer} {doc : ReplyDocument} {run : Uuid}
    {newState : RunState} {appName : String} {claim : RunClaim}
    (h : Addressed s timer doc run newState appName claim) : claim.runId = run :=
  (Store.getRun_mem h.claimed).2

/-- A document is addressed in one way at most. -/
theorem Addressed.unique {s : Store} {timer : Timer} {doc : ReplyDocument} {run run' : Uuid}
    {newState newState' : RunState} {appName appName' : String} {claim claim' : RunClaim}
    (h : Addressed s timer doc run newState appName claim)
    (h' : Addressed s timer doc run' newState' appName' claim') :
    run' = run ∧ newState' = newState ∧ appName' = appName ∧ claim' = claim := by
  have hv := Except.ok.inj (h'.valid.symm.trans h.valid)
  obtain ⟨rfl, rfl, rfl⟩ : run' = run ∧ newState' = newState ∧ appName' = appName := by
    simpa using hv
  exact ⟨rfl, rfl, rfl, Option.some.inj (h'.claimed.symm.trans h.claimed)⟩

section Ingest

variable (cfg : ReplyConfig) (timer : Timer) (doc : ReplyDocument) (digest : String)
  (nowWall monoNow : Int) (current : Option Uuid) (s : Store)

/-- What one ingest does in each of its outcomes, where `current` is the run
it holds to be current. -/
inductive Ingested : IngestOutcome → Store → Prop
  | unaddressed (why : ReplyRejection)
      (hno : ∀ run newState appName claim, ¬Addressed s timer doc run newState appName claim) :
      Ingested (.rejected why) s
  | refused {run newState appName claim} (why : ReplyRejection)
      (haddr : Addressed s timer doc run newState appName claim) (hcur : current = some run)
      (hwhy : (currentRow s timer claim appName nowWall).refuses doc appName newState = some why) :
      Ingested (.rejected why) s
  | known {run newState appName claim}
      (haddr : Addressed s timer doc run newState appName claim) (hcur : current ≠ some run)
      (hdigest : (s.getRunState run).bind (·.replyDigest) = some digest) :
      Ingested .superseded s
  | late {run newState appName claim row evs}
      (haddr : Addressed s timer doc run newState appName claim) (hcur : current ≠ some run)
      (hrow : s.getRunState run = some row) (hdigest : row.replyDigest ≠ some digest)
      (hlines : Lines run [⟨.superseded, none⟩] evs) :
      Ingested .superseded ((s.logged evs).wrote { row with replyDigest := some digest })
  | lateRowless {run newState appName claim evs}
      (haddr : Addressed s timer doc run newState appName claim) (hcur : current ≠ some run)
      (hrow : s.getRunState run = none) (hlines : Lines run [⟨.superseded, none⟩] evs) :
      Ingested .superseded (s.logged evs)
  | duplicate {run newState appName claim}
      (haddr : Addressed s timer doc run newState appName claim) (hcur : current = some run)
      (hok : (currentRow s timer claim appName nowWall).refuses doc appName newState = none)
      (hdigest : (currentRow s timer claim appName nowWall).replyDigest = some digest) :
      Ingested .duplicate s
  | applied {run newState appName claim row evs} (watchdog : Option Int)
      (haddr : Addressed s timer doc run newState appName claim) (hcur : current = some run)
      (hrow : row = currentRow s timer claim appName nowWall)
      (hok : row.refuses doc appName newState = none) (hdigest : row.replyDigest ≠ some digest)
      (harm : Arms cfg (row.report doc newState nowWall) newState nowWall monoNow)
      (hlines : Lines run (replyLines row doc newState nowWall) evs) :
      Ingested .applied
        ((s.logged evs).wrote (row.folded doc newState digest nowWall watchdog))

/-- The one way an ingest aborts: the reply is accepted, and its watchdog
cannot be armed. -/
def Unarmed : Prop :=
  ∃ run newState appName claim row, Addressed s timer doc run newState appName claim ∧
    current = some run ∧ row = currentRow s timer claim appName nowWall ∧
    row.refuses doc appName newState = none ∧ row.replyDigest ≠ some digest ∧
    ¬Arms cfg (row.report doc newState nowWall) newState nowWall monoNow

variable {cfg timer doc digest nowWall monoNow current s}

theorem wp_ingestStale {run : Uuid} {newState : RunState} {appName : String} {claim : RunClaim}
    {utc : Int} {E : Abort → Store → Prop} (hs : s.Wf)
    (haddr : Addressed s timer doc run newState appName claim) (hcur : current ≠ some run) :
    wp (ingestStale timer claim digest utc)
      (fun out s' => Ingested cfg timer doc digest nowWall monoNow current s out s' ∧ s'.Wf)
      E s := by
  obtain rfl := haddr.runId_eq
  unfold ingestStale
  rw [wp_bind, wp_get]
  dsimp only
  split
  · next hknown => exact ⟨.known haddr hcur hknown, hs⟩
  · next hnew =>
    rw [wp_bind]
    refine wp_emit_line rfl hs fun s' hs' he => ?_
    obtain ⟨evs, rfl, hlines⟩ := he
    cases hrow : s.getRunState claim.runId with
    | none => exact ⟨.lateRowless haddr hcur hrow hlines, hs'⟩
    | some row =>
      rw [hrow] at hnew
      exact ⟨.late haddr hcur hrow hnew hlines, hs'.congr rfl rfl rfl⟩

/-- **One ingest**: its outcome, and the store it leaves. -/
theorem ingestInner_ingested {r : ReplyState} (hs : r.store.Wf) (utc : Int)
    (currentOverride : Option Uuid) :
    wp (ingestInner cfg timer doc digest nowWall monoNow utc currentOverride)
      (fun out r' => Ingested cfg timer doc digest nowWall monoNow
        (currentOverride.or (r.store.newest timer.id)) r.store out r'.store ∧ r'.store.Wf)
      (fun _ r' => r'.store = r.store ∧ Unarmed cfg timer doc digest nowWall monoNow
        (currentOverride.or (r.store.newest timer.id)) r.store) r := by
  unfold ingestInner
  split
  · next why hinvalid =>
    refine ⟨.unaddressed why fun run newState appName claim h => ?_, hs⟩
    cases hinvalid.symm.trans h.valid
  · next run newState appName hvalid =>
    rw [wp_bind, wp_read]
    split
    · next hnone =>
      refine ⟨.unaddressed _ fun run' newState' appName' claim h => ?_, hs⟩
      obtain ⟨rfl, -⟩ : run' = run ∧ _ := by
        simpa using Except.ok.inj (h.valid.symm.trans hvalid)
      cases hnone.symm.trans h.claimed
    · next claim hclaim =>
      split
      · next hne =>
        refine ⟨.unaddressed _ fun run' newState' appName' claim' h => hne ?_, hs⟩
        obtain ⟨rfl, -⟩ : run' = run ∧ _ := by
          simpa using Except.ok.inj (h.valid.symm.trans hvalid)
        obtain rfl := Option.some.inj (hclaim.symm.trans h.claimed)
        exact h.ofTimer
      · next htimer =>
        have haddr : Addressed r.store timer doc run newState appName claim :=
          ⟨hvalid, hclaim, not_not.mp htimer⟩
        rw [wp_bind, wp_read]
        split
        · next hcur =>
          rw [wp_onStore]
          exact wp_ingestStale hs haddr hcur
        · next hcur =>
          have hcur := not_not.mp hcur
          rw [wp_bind, wp_read]
          split
          · next why hwhy => exact ⟨.refused why haddr hcur hwhy, hs⟩
          · next hok =>
            split
            · next hdigest => exact ⟨.duplicate haddr hcur hok hdigest, hs⟩
            · next hdigest =>
              rw [wp_bind]
              refine wp_apply hs (fun watchdog evs r' harm hlines hr' hs' => ?_)
                fun e r' hr' harm => ⟨hr', run, newState, appName, claim, _, haddr, hcur, rfl,
                  hok, hdigest, harm⟩
              rw [wp_pure, hr']
              rw [haddr.runId_eq] at hlines
              exact ⟨.applied watchdog haddr hcur rfl hok hdigest harm hlines, hr' ▸ hs'⟩

/-- The same in a transaction of its own. -/
theorem ingest_ingested {r : ReplyState} (hs : r.store.Wf) (utc : Int) :
    wp (ingest cfg timer doc digest nowWall monoNow utc)
      (fun out r' => Ingested cfg timer doc digest nowWall monoNow (r.store.newest timer.id)
        r.store out r'.store ∧ r'.store.Wf)
      (fun _ r' => r'.store = r.store ∧ Unarmed cfg timer doc digest nowWall monoNow
        (r.store.newest timer.id) r.store) r := by
  unfold ingest
  rw [inTx, wp_transact]
  exact wp_mono (ingestInner_ingested hs utc none) (fun _ _ h => h) fun _ _ h => ⟨rfl, h.2⟩

end Ingest

end Bellman

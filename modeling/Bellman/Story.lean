/-
Bellman/Story.lean

The story of a run: how each commit moves its lifecycle row, and the lines
it logs about it.

A commit does one of five things to a run.  It leaves the row as it is and
logs no line (`still`); it moves the row by one of seven transitions, each
with its guard and its lines (`moved`); a fire first folds in what the app
still had to say and then supersedes the row (`overtaken`); a fire opens
the row of its own claim (`opened`); or there is a claim and no row, and
then lines may be logged that no row keeps track of (`rowless`).

Main result: `Commit.story`, for every commit of the gated system.  What is
said of lifecycle rows over whole runs is an induction over it.
-/
import Bellman.Lifecycle
import Bellman.Outcome

namespace Bellman

open ProgramLogic Prog ReplyM

/-! ### The transitions -/

namespace RunStateRow

/-- Acknowledged through the slot feed. -/
def acked (row : RunStateRow) (nowWall : Int) : RunStateRow :=
  { row with
    state := .acknowledged
    acknowledgedAt := some nowWall
    pickupDeadline := none
    acknowledgedLogged := true }

/-- The pickup deadline has passed. -/
def missed (row : RunStateRow) (nowWall : Int) : RunStateRow :=
  { row with state := .noAck, noAckAt := some nowWall, pickupDeadline := none }

/-- The watchdog has expired. -/
def expired (row : RunStateRow) (nowWall : Int) : RunStateRow :=
  { row with
    state := .failed
    failureKind := some .timedOut
    failedAt := some nowWall
    watchdogDeadline := none }

/-- Closed by Bellman. -/
def closed (row : RunStateRow) (verdict : RunState) : RunStateRow :=
  { row with state := verdict, pickupDeadline := none, watchdogDeadline := none }

theorem sameRun_acked (row : RunStateRow) (nowWall : Int) : row.SameRun (row.acked nowWall) :=
  ⟨rfl, rfl, rfl, rfl, rfl⟩

theorem sameRun_missed (row : RunStateRow) (nowWall : Int) : row.SameRun (row.missed nowWall) :=
  ⟨rfl, rfl, rfl, rfl, rfl⟩

theorem sameRun_expired (row : RunStateRow) (nowWall : Int) : row.SameRun (row.expired nowWall) :=
  ⟨rfl, rfl, rfl, rfl, rfl⟩

theorem sameRun_closed (row : RunStateRow) (verdict : RunState) :
    row.SameRun (row.closed verdict) :=
  ⟨rfl, rfl, rfl, rfl, rfl⟩

end RunStateRow

/-- The reply that a commit ingests, with the wall clock at its receipt. -/
def Commit.reply : Commit → Option (Timer × ReplyDocument × String × Int)
  | ingest timer doc digest nowWall _ _ => some (timer, doc, digest, nowWall)
  | fire f => f.barrier.map fun b => (f.timer, b.1, b.2, f.now)
  | _ => none

/-- One transition of a lifecycle row, its guard, and its lines; `s` is the
store before the commit. -/
inductive RowMove (c : Commit) (s : Store) (row : RunStateRow) : List Line → RunStateRow → Prop
  | delivered (transport : String) : RowMove c s row [] { row with transport := some transport }
  | late {timer doc digest nowWall newState appName claim}
      (hreply : c.reply = some (timer, doc, digest, nowWall))
      (haddr : Addressed s timer doc row.runId newState appName claim)
      (hcur : s.newest timer.id ≠ some row.runId) (hdigest : row.replyDigest ≠ some digest) :
      RowMove c s row [⟨.superseded, none⟩] { row with replyDigest := some digest }
  | replied {timer doc digest nowWall newState appName claim} (watchdog : Option Int)
      (hreply : c.reply = some (timer, doc, digest, nowWall))
      (haddr : Addressed s timer doc row.runId newState appName claim)
      (hcur : s.newest timer.id = some row.runId) (hok : row.refuses doc appName newState = none)
      (hdigest : row.replyDigest ≠ some digest) :
      RowMove c s row (replyLines row doc newState nowWall)
        (row.folded doc newState digest nowWall watchdog)
  | acked (nowWall : Int)
      (hopen : (row.pickupDeadline.isSome ∧ row.state.isFired) ∨ row.state = .noAck) :
      RowMove c s row (if row.acknowledgedLogged then [] else [⟨.acknowledged, none⟩])
        (row.acked nowWall)
  | missed {timer claim} (nowWall : Int) (hc : c = .expirePickup timer row.runId nowWall)
      (htimer : row.timerId = timer.id) (hfired : row.state.isFired = true)
      (hclaim : s.getRun row.runId = some claim)
      (hunacked : s.lastAckedSequence timer.id < claim.eventSequence) :
      RowMove c s row [⟨.noAck, none⟩] (row.missed nowWall)
  | expired (nowWall : Int) (hopen : row.isTerminal = false) :
      RowMove c s row [⟨.failed, some .timedOut⟩] (row.expired nowWall)
  | closed {verdict : RunState}
      (hv : verdict = .cancelled ∨ (verdict = .superseded ∧
        ∃ f, c = .fire f ∧ s.newest f.timer.id = some row.runId))
      (hopen : row.isTerminal = false) :
      RowMove c s row [⟨verdict, none⟩] (row.closed verdict)

theorem RowMove.sameRun {c : Commit} {s : Store} {row row' : RunStateRow} {ls : List Line}
    (h : RowMove c s row ls row') :
    row'.runId = row.runId ∧ row'.timerId = row.timerId ∧ row'.appName = row.appName := by
  cases h with
  | replied _ _ _ _ _ _ =>
    obtain ⟨h1, h2, h3, -⟩ := row.sameRun_folded
    exact ⟨h1, h2, h3⟩
  | _ => exact ⟨rfl, rfl, rfl⟩

/-- What a commit does to the row of a run, and the lines it logs. -/
inductive RowStory (c : Commit) (s : Store) (run : Uuid) :
    Option RunStateRow → List Line → Option RunStateRow → Prop
  | still (row : Option RunStateRow) : RowStory c s run row [] row
  | rowless {ls} (hclaim : (s.getRun run).isSome) : RowStory c s run none ls none
  | moved {row row' ls} (h : RowMove c s row ls row') : RowStory c s run (some row) ls (some row')
  | overtaken {row row' ls f} (h : RowMove c s row ls row') (hf : c = .fire f)
      (hcur : s.newest f.timer.id = some row.runId) (hopen : row'.isTerminal = false) :
      RowStory c s run (some row) (ls ++ [⟨.superseded, none⟩]) (some (row'.closed .superseded))
  | opened {f appName row} (hf : c = .fire f) (howner : f.owner = some appName)
      (hclaim : s.getRun run = none) (htimer : row.timerId = f.timer.id)
      (happ : row.appName = appName)
      (hfired : row.state.isFired = true) (hdigest : row.replyDigest = none)
      (hack : row.acknowledgedLogged = false) (hrun : row.runningLogged = false)  :
      RowStory c s run none [] (some row)

/-- A row is never lost, and stays with its timer and its app. -/
theorem RowStory.kept {c : Commit} {s : Store} {run : Uuid} {row : RunStateRow}
    {ls : List Line} {row' : Option RunStateRow} (h : RowStory c s run (some row) ls row') :
    ∃ q, row' = some q ∧ q.timerId = row.timerId ∧ q.appName = row.appName := by
  cases h with
  | still => exact ⟨row, rfl, rfl, rfl⟩
  | moved h => exact ⟨_, rfl, h.sameRun.2⟩
  | overtaken h _ _ _ => exact ⟨_, rfl, h.sameRun.2⟩

/-- The story of every run. -/
def Story (c : Commit) (s s' : Store) : Prop :=
  ∃ evs, s'.eventOutbox = s.eventOutbox ++ evs ∧
    ∀ run, RowStory c s run (s.getRunState run) (linesOf run evs) (s'.getRunState run)

/-! ### Commits that leave lifecycles alone -/

/-- No row changes, and no line is logged. -/
def Still (s s' : Store) : Prop :=
  ∃ evs, s'.eventOutbox = s.eventOutbox ++ evs ∧
    ∀ run, s'.getRunState run = s.getRunState run ∧ linesOf run evs = []

instance : Std.Refl Still := ⟨fun _ => ⟨[], by simp, fun _ => ⟨rfl, rfl⟩⟩⟩

instance : IsTrans Store Still where
  trans s s' s'' h h' := by
    obtain ⟨evs, he, hk⟩ := h
    obtain ⟨evs', he', hk'⟩ := h'
    refine ⟨evs ++ evs', by rw [he', he, List.append_assoc], fun run => ⟨?_, ?_⟩⟩
    · exact (hk' run).1.trans (hk run).1
    · rw [linesOf_append, (hk run).2, (hk' run).2, List.nil_append]

theorem Still.of_same {s s' : Store} (hr : s'.runStates = s.runStates)
    (he : s'.eventOutbox = s.eventOutbox) : Still s s' :=
  ⟨[], by simp [he], fun run => ⟨getRunState_congr hr run, rfl⟩⟩

/-- An event of no lifecycle kind, or about no run. -/
theorem Still.of_event {s s' : Store} {e : EventRecord} (hr : s'.runStates = s.runStates)
    (he : s'.eventOutbox = s.eventOutbox ++ [e])
    (h : (e.kind.isLifecycle && e.runId.isSome) = false) : Still s s' := by
  refine ⟨[e], he, fun run => ⟨getRunState_congr hr run, ?_⟩⟩
  simpa using Lines.silent run h run

theorem Still.story {s s' : Store} (h : Still s s') (c : Commit) : Story c s s' := by
  obtain ⟨evs, he, hk⟩ := h
  refine ⟨evs, he, fun run => ?_⟩
  rw [(hk run).1, (hk run).2]
  exact .still _

theorem emit_still {kind : RunState} {subject : EventSubject}
    (h : (kind.isLifecycle && subject.runId.isSome) = false) (loggedAt : Int) (note : EventNote) :
    Within Still (emit kind loggedAt subject note) := by
  intro s
  unfold emit newUuid enqueueEventConn
  simp only [wp_bind, wp_modifyGet, wp_modify]
  split
  · exact .of_same rfl rfl
  · exact .of_event rfl rfl h

theorem orPanic_still {α : Type} (x : Except Panic α) : Within Still (orPanic x) := by
  cases x with
  | ok a => exact within_pure a
  | error p => exact within_throw _

theorem modify_still {f : Store → Store} (hr : ∀ s, (f s).runStates = s.runStates)
    (he : ∀ s, (f s).eventOutbox = s.eventOutbox) : Within Still (modify f : StoreM Unit) :=
  within_modify fun s => .of_same (hr s) (he s)

theorem finishRunConn_still (runId : Uuid) (outcome : RunOutcome) (reason : Option String)
    (now : Int) : Within Still (finishRunConn runId outcome reason now) :=
  within_bind (within_modifyGet fun _ => .of_same rfl rfl) fun _ => within_pure _

theorem not_isLifecycle_outcome (outcome : RunOutcome) (subject : EventSubject) :
    (outcome.event.isLifecycle && subject.runId.isSome) = false := by
  cases outcome <;> rfl

theorem finishLogged_still (timer : Timer) (claim : RunClaim) (outcome : RunOutcome)
    (reason : String) (utc : Int) :
    Within Still (finishLogged timer claim outcome reason utc) :=
  within_bind (finishRunConn_still _ _ _ _) fun _ =>
    within_ite (fun _ => emit_still (not_isLifecycle_outcome outcome _) _ _) fun _ => within_pure _

theorem applyOverlapDisposition_still (timer : Timer) (claim : RunClaim) (utc : Int) :
    Within Still (applyOverlapDisposition timer claim utc) := by
  have hreplace : ∀ ps, Within Still (replacePending timer utc ps) := by
    intro ps
    induction ps with
    | nil => exact within_pure _
    | cons p ps ih => exact within_bind (finishLogged_still _ _ _ _ _) fun _ => ih
  refine within_ite (fun _ => ?_) fun _ => ?_
  · refine within_bind within_get fun s => within_bind (hreplace _) fun _ => ?_
    refine within_bind ?_ fun _ => within_pure _
    exact within_bind within_get fun s =>
      within_bind (within_modifyGet fun _ => .of_same rfl rfl) fun _ => within_pure _
  · refine within_bind within_get fun s => ?_
    split
    · exact within_pure _
    · refine within_bind (finishRunConn_still _ _ _ _) fun _ => ?_
      refine within_bind (emit_still (not_isLifecycle_outcome .skippedMisfire _) _ _) fun _ => ?_
      exact within_bind within_get fun _ => within_pure _

/-! ### One run at a time -/

section OneRun

variable {c : Commit} {s : Store} {who : Uuid} {row row' : RunStateRow} {ls : List Line}
  {evs : List EventRecord}

/-- A transition of one row. -/
theorem Story.of_wrote (hrow : s.getRunState who = some row) (hsame : row.SameRun row')
    (hlines : Lines who ls evs) (h : RowMove c s row ls row') :
    Story c s ((s.logged evs).wrote row') := by
  refine ⟨evs, rfl, fun run => ?_⟩
  by_cases hrun : run = who
  · subst hrun
    rw [Store.getRunState_wrote_self (s := s.logged evs) hrow hsame, hrow, hlines.self]
    exact .moved h
  · have hne : run ≠ row'.runId := by
      rw [hsame.1, (getRunState_mem hrow).2]
      exact hrun
    rw [Store.getRunState_wrote_of_ne hne, hlines.of_ne hrun]
    exact .still _

/-- Lines about a run that has no row. -/
theorem Story.of_rowless (hclaim : (s.getRun who).isSome) (hrow : s.getRunState who = none)
    (hlines : Lines who ls evs) : Story c s (s.logged evs) := by
  refine ⟨evs, rfl, fun run => ?_⟩
  by_cases hrun : run = who
  · subst hrun
    rw [Store.getRunState_logged, hrow, hlines.self]
    exact .rowless hclaim
  · rw [hlines.of_ne hrun]
    exact .still _

theorem Story.refl (c : Commit) (s : Store) : Story c s s :=
  (Std.Refl.refl (r := Still) s).story c

theorem currentRow_of_some {timer : Timer} {claim : RunClaim} {appName : String} {nowWall : Int}
    (h : s.getRunState claim.runId = some row) :
    currentRow s timer claim appName nowWall = row := by
  rw [currentRow, h, Option.getD_some]

theorem Ingested.story {cfg : ReplyConfig} {timer : Timer} {doc : ReplyDocument}
    {digest : String} {nowWall monoNow : Int} {out : IngestOutcome} {s' : Store}
    (hreply : c.reply = some (timer, doc, digest, nowWall))
    (h : Ingested cfg timer doc digest nowWall monoNow (s.newest timer.id) s out s') :
    Story c s s' := by
  cases h with
  | unaddressed why _ => exact .refl c s
  | refused why _ _ _ => exact .refl c s
  | known _ _ _ => exact .refl c s
  | duplicate _ _ _ _ => exact .refl c s
  | late haddr hcur hrow hdigest hlines =>
    obtain rfl := (getRunState_mem hrow).2
    exact .of_wrote hrow ⟨rfl, rfl, rfl, rfl, rfl⟩ hlines (.late hreply haddr hcur hdigest)
  | lateRowless haddr hcur hrow hlines =>
    exact .of_rowless (by rw [haddr.claimed]; rfl) hrow hlines
  | @applied run newState appName claim row evs watchdog haddr hcur hrow hok hdigest harm hlines =>
    obtain rfl := haddr.runId_eq
    cases hstored : s.getRunState claim.runId with
    | none =>
      have hid : row.runId = claim.runId := by rw [hrow, runId_currentRow]
      rw [Store.wrote_of_none]
      · exact .of_rowless (by rw [haddr.claimed]; rfl) hstored hlines
      · rw [row.sameRun_folded.1, hid]
        exact hstored
    | some stored =>
      rw [currentRow_of_some hstored] at hrow
      subst hrow
      have hid := (getRunState_mem hstored).2
      rw [← hid] at haddr hcur
      exact .of_wrote hstored row.sameRun_folded hlines
        (.replied watchdog hreply haddr hcur hok hdigest)

end OneRun

section Engine

variable {r : ReplyState} {timer : Timer} {claim : RunClaim} {row : RunStateRow}
  {nowWall monoNow utc : Int} {cfg : FireConfig}

theorem wp_markAcknowledged {Q : Unit → ReplyState → Prop} {E : Abort → ReplyState → Prop}
    (hs : r.store.Wf)
    (hQ : ∀ evs r', r'.store = (r.store.logged evs).wrote (row.acked nowWall) →
      Lines claim.runId (if row.acknowledgedLogged then [] else [⟨.acknowledged, none⟩]) evs →
      Q () r') :
    wp (markAcknowledged timer claim row nowWall) Q E r := by
  unfold markAcknowledged onBook
  rw [wp_bind, wp_modify]
  by_cases hlogged : row.acknowledgedLogged = false
  · rw [if_pos hlogged, wp_bind, wp_onStore]
    rw [hlogged] at hQ
    refine wp_emit_line rfl hs fun s' _ he => ?_
    obtain ⟨evs, rfl, hlines⟩ := he
    exact hQ evs _ rfl hlines
  · have hlogged := Bool.eq_true_of_not_eq_false hlogged
    rw [if_neg (by simp [hlogged]), wp_onStore, wp_updateRunStateConn]
    rw [hlogged] at hQ
    refine hQ [] _ ?_ (.nil _)
    -- The flag was set already.
    simp only [RunStateRow.acked, Store.logged_nil, ← hlogged]

/-- The commit that the slot feed's acknowledgement runs in. -/
theorem onAckThrough_story (hs : r.store.Wf) (hn : r.store.RowsNodup) (c : Commit)
    (throughSequence : Nat) :
    wp (onAckThrough timer throughSequence nowWall) (fun _ r' => Story c r.store r'.store)
      (fun _ r' => Story c r.store r'.store) r := by
  have hrefl := Story.refl c r.store
  unfold onAckThrough
  rw [wp_bind, wp_read]
  split
  · exact hrefl
  · next row hcur =>
    have hrow := hn.getRunState_of_mem (currentRunState_mem hcur)
    rw [wp_bind, wp_read]
    split
    · exact hrefl
    · next claim hclaim =>
      have hid := (Store.getRun_mem hclaim).2
      split
      · exact hrefl
      · split
        · next hopen =>
          rw [wp_bind, inTx, wp_transact]
          refine wp_markAcknowledged hs fun evs r' hr' hlines => ?_
          rw [wp_pure, hr']
          rw [hid] at hlines
          exact .of_wrote hrow (row.sameRun_acked nowWall) hlines (.acked nowWall hopen)
        · exact hrefl

/-- The current row is one of the timer's. -/
theorem currentRunState_timerId {s : Store} {timerId : Uuid}
    (h : s.currentRunState timerId = some row) : row.timerId = timerId := by
  unfold Store.currentRunState at h
  obtain ⟨⟨row', q⟩, hhead, rfl⟩ := Option.map_eq_some_iff.mp h
  have hmem := List.mem_of_head? hhead
  rw [List.mem_insertionSort] at hmem
  obtain ⟨rs, hrs, hpair⟩ := List.mem_flatMap.mp hmem
  obtain ⟨q', _, hq⟩ := List.mem_map.mp hpair
  obtain ⟨rfl, -⟩ := Prod.mk.inj hq
  simpa using (List.mem_filter.mp hrs).2

theorem expirePickupOne_story (hs : r.store.Wf) (hn : r.store.RowsNodup) (runId : Uuid) :
    wp (expirePickupOne timer runId nowWall)
      (fun _ r' => Story (.expirePickup timer runId nowWall) r.store r'.store)
      (fun _ r' => Story (.expirePickup timer runId nowWall) r.store r'.store) r := by
  have hrefl := Story.refl (.expirePickup timer runId nowWall) r.store
  unfold expirePickupOne expirePickupOneInner
  rw [inTx, wp_transact, wp_bind, wp_read]
  split
  · exact hrefl
  · next row hrow =>
    obtain rfl := (getRunState_mem hrow).2
    split
    · exact hrefl
    · next hdeadline =>
      rw [wp_bind, wp_read]
      split
      · exact hrefl
      · next hcur =>
        obtain ⟨cur, hcur, hcurId⟩ := Option.map_eq_some_iff.mp (not_not.mp hcur)
        have htimer : row.timerId = timer.id := by
          have hstored := hn.getRunState_of_mem (currentRunState_mem hcur)
          rw [hcurId, hrow] at hstored
          exact Option.some.inj hstored ▸ currentRunState_timerId hcur
        rw [wp_bind, wp_read]
        split
        · exact hrefl
        · next claim hclaim =>
          have hid := (Store.getRun_mem hclaim).2
          split
          · exact hrefl
          · next hfired =>
            have hfired := Bool.eq_true_of_not_eq_false hfired
            rw [wp_bind, wp_read]
            split
            · rw [wp_bind]
              refine wp_markAcknowledged hs fun evs r' hr' hlines => ?_
              rw [wp_pure, hr']
              rw [hid] at hlines
              have hdue : row.pickupDeadline.isSome = true := by
                simpa [Option.isSome_iff_ne_none] using hdeadline
              exact .of_wrote hrow (row.sameRun_acked nowWall) hlines
                (.acked nowWall (.inl ⟨hdue, hfired⟩))
            · next hacked =>
              unfold onBook
              rw [wp_bind, wp_modify, wp_bind, wp_onStore]
              refine wp_emit_line rfl hs fun s' _ he => ?_
              obtain ⟨evs, rfl, hlines⟩ := he
              rw [hid] at hlines
              rw [wp_bind, wp_onStore, wp_updateRunStateConn, wp_pure]
              exact .of_wrote hrow (row.sameRun_missed nowWall) hlines
                (.missed nowWall rfl htimer hfired hclaim (not_le.mp hacked))

/-- The line of an expired watchdog says so. -/
theorem failureKind_timedOut (source : Option String) (ms : Option Int) (message : Option String) :
    EventNote.failureKind
      { durationMs := ms
        message := message
        detail := some (.obj ([("failure_kind", .str FailureKind.timedOut.asStr)] ++
          (source.map fun s => ("duration_source", Json.str s)).toList)) } = some .timedOut := by
  cases source <;> rfl

theorem expireWatchdogOne_story (hs : r.store.Wf) (c : Commit) (runId : Uuid) :
    wp (expireWatchdogOne timer runId nowWall monoNow) (fun _ r' => Story c r.store r'.store)
      (fun _ r' => Story c r.store r'.store) r := by
  have hrefl := Story.refl c r.store
  unfold expireWatchdogOne expireWatchdogOneInner
  rw [inTx, wp_transact, wp_bind, wp_read]
  split
  · exact hrefl
  · next row hrow =>
    obtain rfl := (getRunState_mem hrow).2
    split
    · exact hrefl
    · split
      · exact hrefl
      · next hguard =>
        have hopen : row.isTerminal = false := by
          simpa using (not_or.mp hguard).1
        rw [wp_bind, wp_read]
        split
        · exact hrefl
        · rw [wp_bind, wp_read]
          split
          · exact hrefl
          · next claim hclaim =>
            have hid := (Store.getRun_mem hclaim).2
            unfold onBook
            rw [wp_bind, wp_modify, wp_bind]
            refine wp_durationMs fun d r₁ h₁ => ?_
            have h₁ : r₁.store = r.store := h₁
            rw [wp_bind, wp_onStore]
            refine wp_emit_line rfl (h₁ ▸ hs) fun s' _ he => ?_
            obtain ⟨evs, rfl, hlines⟩ := he
            rw [wp_bind, wp_onStore, wp_updateRunStateConn, wp_pure, h₁]
            rw [if_pos rfl, failureKind_timedOut, hid] at hlines
            exact .of_wrote hrow (row.sameRun_expired nowWall) hlines (.expired nowWall hopen)

end Engine

/-! ### Closing a run -/

/-- What the closing of a run does: it closes an open row, it logs the line
of a run without one, or the run is resolved and stays as it is. -/
inductive Closing (verdict : RunState) (prev : Option RunClaim) (s : Store) :
    Option Uuid → Store → Prop
  | resolved
      (h : ∀ run row, prev = some run → s.getRunState run.runId = some row →
        row.isTerminal = true) :
      Closing verdict prev s none s
  | closed {run row evs} (hprev : prev = some run) (hrow : s.getRunState run.runId = some row)
      (hopen : row.isTerminal = false) (hlines : Lines run.runId [⟨verdict, none⟩] evs) :
      Closing verdict prev s (some run.runId) ((s.logged evs).wrote (row.closed verdict))
  | rowless {run evs} (hprev : prev = some run) (hrow : s.getRunState run.runId = none)
      (hlines : Lines run.runId [⟨verdict, none⟩] evs) :
      Closing verdict prev s (some run.runId) (s.logged evs)

theorem closeOpenRun_closing {verdict : RunState} (hv : verdict.isTerminal = true)
    (hf : verdict ≠ .failed) {message : String} {timer : Timer} {owner : Option String}
    {prev : Option RunClaim} {utc : Int} {E : Abort → Store → Prop} {s : Store} (hs : s.Wf) :
    wp (closeOpenRun verdict message timer owner prev utc)
      (fun out s' => Closing verdict prev s out s' ∧ s'.Wf) E s := by
  have hlife : verdict.isLifecycle = true := by
    cases verdict <;> first | rfl | cases hv
  unfold closeOpenRun
  cases prev with
  | none => exact ⟨.resolved fun _ _ h => (Option.some_ne_none _ h.symm).elim, hs⟩
  | some run =>
    dsimp only
    rw [wp_bind, wp_get]
    split
    · next hun =>
      rw [wp_bind]
      refine wp_emit_line hlife hs fun s' hs' he => ?_
      obtain ⟨evs, rfl, hlines⟩ := he
      rw [if_neg hf] at hlines
      cases hrow : s.getRunState run.runId with
      | none => exact ⟨.rowless rfl hrow hlines, hs'⟩
      | some row =>
        have hopen : row.isTerminal = false := by simpa [Store.isUnresolved, hrow] using hun
        dsimp only
        rw [wp_bind, wp_updateRunStateConn, wp_pure]
        exact ⟨.closed rfl hrow hopen hlines, hs'.congr rfl rfl rfl⟩
    · next hun =>
      refine ⟨.resolved fun run' row hrun hrow => ?_, hs⟩
      obtain rfl := Option.some.inj hrun
      simpa [Store.isUnresolved, hrow] using hun

/-- The cancellation of a run, as a story. -/
theorem cancelOpenRun_story {c : Commit} {timer : Timer} {owner : Option String} {utc : Int}
    {E : Abort → Store → Prop} {s : Store} (hs : s.Wf) :
    wp (cancelOpenRun timer owner utc) (fun _ s' => Story c s s') E s := by
  unfold cancelOpenRun
  rw [wp_bind, wp_get]
  refine wp_mono (closeOpenRun_closing rfl (by decide) hs) (fun out s' h => ?_) fun _ _ h => h
  cases h.1 with
  | resolved _ => exact .refl c s
  | @closed run row evs hprev hrow hopen hlines =>
    exact .of_wrote hrow (row.sameRun_closed _) hlines (.closed (.inl rfl) hopen)
  | @rowless run evs hprev hrow hlines =>
    have hn : s.newest timer.id = some run.runId := by rw [Store.newest, hprev, Option.map_some]
    obtain ⟨claim, hclaim, -⟩ := hs.getRun_newest hn
    exact .of_rowless (by rw [hclaim]; rfl) hrow hlines

/-! ### The fire -/

section Fire

variable {cfg : FireConfig} {f : Firing}

/-- Only the current run of the timer changes, and it as `T` says. -/
def Touches (f : Firing)
    (T : Uuid → Option RunStateRow → List Line → Option RunStateRow → Prop) (s s' : Store) :
    Prop :=
  s'.runs = s.runs ∧ s'.Wf ∧ ∃ evs, s'.eventOutbox = s.eventOutbox ++ evs ∧
    ∀ run, (s.newest f.timer.id = some run ∧
        T run (s.getRunState run) (linesOf run evs) (s'.getRunState run)) ∨
      (s.newest f.timer.id ≠ some run ∧ s'.getRunState run = s.getRunState run ∧
        linesOf run evs = [])

/-- What the barrier's ingest does to the current run. -/
inductive Folded (f : Firing) (s : Store) (run : Uuid) :
    Option RunStateRow → List Line → Option RunStateRow → Prop
  | still (row : Option RunStateRow) : Folded f s run row [] row
  | rowless (ls : List Line) : Folded f s run none ls none
  | moved {row row' ls} (h : RowMove (.fire f) s row ls row') :
      Folded f s run (some row) ls (some row')

theorem Touches.of_silent {s s' : Store} (hr : s'.runs = s.runs) (hwf : s'.Wf)
    (h : Still s s') : Touches f (Folded f s) s s' := by
  obtain ⟨evs, he, hk⟩ := h
  refine ⟨hr, hwf, evs, he, fun run => ?_⟩
  by_cases hrun : s.newest f.timer.id = some run
  · rw [(hk run).1, (hk run).2]
    exact .inl ⟨hrun, .still _⟩
  · exact .inr ⟨hrun, hk run⟩

theorem Touches.of_wrote {s : Store} {run : Uuid} {row row' : RunStateRow}
    {ls : List Line} {evs : List EventRecord} (hcur : s.newest f.timer.id = some run)
    (hwf : ((s.logged evs).wrote row').Wf) (hrow : s.getRunState run = some row)
    (hsame : row.SameRun row') (hlines : Lines run ls evs) (h : RowMove (.fire f) s row ls row') :
    Touches f (Folded f s) s ((s.logged evs).wrote row') := by
  refine ⟨rfl, hwf, evs, rfl, fun run' => ?_⟩
  by_cases hrun : run' = run
  · subst hrun
    rw [Store.getRunState_wrote_self (s := s.logged evs) hrow hsame, hrow, hlines.self]
    exact .inl ⟨hcur, .moved h⟩
  · have hne : run' ≠ row'.runId := by
      rw [hsame.1, (getRunState_mem hrow).2]
      exact hrun
    rw [Store.getRunState_wrote_of_ne hne, hlines.of_ne hrun]
    refine .inr ⟨fun h => hrun ?_, rfl, rfl⟩
    rw [hcur] at h
    exact (Option.some.inj h).symm

theorem Touches.of_rowless {s : Store} {run : Uuid} {ls : List Line} {evs : List EventRecord}
    (hcur : s.newest f.timer.id = some run) (hwf : (s.logged evs).Wf)
    (hrow : s.getRunState run = none) (hlines : Lines run ls evs) :
    Touches f (Folded f s) s (s.logged evs) := by
  refine ⟨rfl, hwf, evs, rfl, fun run' => ?_⟩
  by_cases hrun : run' = run
  · subst hrun
    rw [Store.getRunState_logged, hrow, hlines.self]
    exact .inl ⟨hcur, .rowless _⟩
  · rw [hlines.of_ne hrun]
    refine .inr ⟨fun h => hrun ?_, rfl, rfl⟩
    rw [hcur] at h
    exact (Option.some.inj h).symm

/-- The barrier folds the reply into the current run, and into no other. -/
theorem barrierIngest_touches {r : ReplyState} (hs : r.store.Wf) (hg : f.Gated r.store) :
    wp (barrierIngest cfg f) (fun _ r' => Touches f (Folded f r.store) r.store r'.store)
      (fun _ _ => True) r := by
  have hrefl := Touches.of_silent (f := f) rfl hs (Std.Refl.refl r.store)
  unfold barrierIngest
  split
  · next prev doc digest hprev hbarrier =>
    have hcur : r.store.newest f.timer.id = some prev.runId := by
      rw [← hg.prev, hprev, Option.map_some]
    rw [wp_bind]
    refine wp_mono (ingestInner_ingested hs f.utc (some prev.runId)) (fun out r' h => ?_)
      fun _ _ _ => trivial
    obtain ⟨h, hwf⟩ := h
    rw [Option.some_or, ← hcur] at h
    have hnamed : ∀ {run newState appName claim},
        Addressed r.store f.timer doc run newState appName claim →
          r.store.newest f.timer.id = some run := by
      intro run newState appName claim haddr
      exact hg.newest hbarrier (runId_of_validate haddr.valid).1
    have hrejected : ∀ (why : ReplyRejection) (r' : ReplyState), r'.store = r.store →
        wp (onStore (logRejection f.timer (some prev.runId) why.asStr f.utc))
          (fun _ r'' => Touches f (Folded f r.store) r.store r''.store) (fun _ _ => True) r' := by
      intro why r' hr'
      rw [wp_onStore, hr', logRejection, wp_emit hs]
      exact .of_silent rfl (hs.emit _ rfl) (.of_event rfl rfl rfl)
    generalize hstore : r'.store = s' at h hwf
    cases h with
    | unaddressed why _ => exact hrejected why r' hstore
    | refused why _ _ _ => exact hrejected why r' hstore
    | known haddr hne _ => exact absurd (hnamed haddr) hne
    | late haddr hne _ _ _ => exact absurd (hnamed haddr) hne
    | lateRowless haddr hne _ _ => exact absurd (hnamed haddr) hne
    | duplicate _ _ _ _ =>
      rw [wp_pure, hstore]
      exact hrefl
    | @applied run newState appName claim row evs watchdog haddr hcur' hrow hok hdigest _ hlines =>
      rw [wp_pure, hstore]
      obtain rfl := haddr.runId_eq
      cases hstored : r.store.getRunState claim.runId with
      | none =>
        have hid : row.runId = claim.runId := by rw [hrow, runId_currentRow]
        have hnone : (r.store.logged evs).getRunState
            (row.folded doc newState digest f.now watchdog).runId = none := by
          rw [row.sameRun_folded.1, hid]
          exact hstored
        rw [Store.wrote_of_none hnone] at hwf ⊢
        exact .of_rowless hcur' hwf hstored hlines
      | some stored =>
        rw [currentRow_of_some hstored] at hrow
        subst hrow
        have hid := (getRunState_mem hstored).2
        rw [← hid] at haddr
        exact .of_wrote hcur' hwf hstored row.sameRun_folded hlines
          (.replied watchdog (by rw [Commit.reply, hbarrier]; rfl) haddr (hid ▸ hcur') hok hdigest)
  · exact hrefl

/-- What the fire does to the run that was current: afterwards it is
closed. -/
def Turned (f : Firing) (s : Store) (run : Uuid) (row : Option RunStateRow) (ls : List Line)
    (row' : Option RunStateRow) : Prop :=
  RowStory (.fire f) s run row ls row' ∧ ∀ q, row' = some q → q.isTerminal = true

theorem Folded.story {s : Store} {run : Uuid} {row row' : Option RunStateRow} {ls : List Line}
    (h : Folded f s run row ls row') (hclaim : (s.getRun run).isSome) :
    RowStory (.fire f) s run row ls row' := by
  cases h with
  | still => exact .still _
  | rowless => exact .rowless hclaim
  | moved h => exact .moved h

/-- Supersession after the barrier. -/
theorem Touches.supersede {s s₁ s₂ : Store} {out : Option Uuid} (hs : s.Wf) (hg : f.Gated s)
    (h : Touches f (Folded f s) s s₁) (hc : Closing .superseded f.prev s₁ out s₂)
    (hwf : s₂.Wf) : Touches f (Turned f s) s s₂ := by
  obtain ⟨hruns, -, evs, he, hk⟩ := h
  have hclaim : ∀ {run}, s.newest f.timer.id = some run → (s.getRun run).isSome := by
    intro run hcur
    obtain ⟨claim, hclaim, -⟩ := hs.getRun_newest hcur
    rw [hclaim]
    rfl
  have hprev : ∀ {p : RunClaim}, f.prev = some p → s.newest f.timer.id = some p.runId := by
    intro p hp
    rw [← hg.prev, hp, Option.map_some]
  cases hc with
  | resolved hres =>
    refine ⟨hruns, hwf, evs, he, fun run => (hk run).imp ?_ id⟩
    rintro ⟨hcur, hT⟩
    refine ⟨hcur, hT.story (hclaim hcur), fun q hq => ?_⟩
    rw [← hg.prev, Option.map_eq_some_iff] at hcur
    obtain ⟨p, hp, rfl⟩ := hcur
    exact hres p q hp hq
  | @closed p row evs' hp hrow hopen hlines =>
    refine ⟨hruns, hwf, evs ++ evs', ?_, fun run => ?_⟩
    · show s₁.eventOutbox ++ evs' = _
      rw [he, List.append_assoc]
    · rw [linesOf_append]
      rcases hk run with ⟨hcur, hT⟩ | ⟨hcur, hsame, hnil⟩
      · obtain rfl : p.runId = run := Option.some.inj ((hprev hp).symm.trans hcur)
        rw [Store.getRunState_wrote_self (s := s₁.logged evs') hrow (row.sameRun_closed _),
          hlines.self]
        refine .inl ⟨hcur, ?_, fun q hq => Option.some.inj hq ▸ rfl⟩
        have hid := (getRunState_mem hrow).2
        rw [hrow] at hT
        generalize hold : s.getRunState p.runId = old at hT
        generalize linesOf p.runId evs = ls at hT ⊢
        cases hT with
        | still => exact .moved (.closed (.inr ⟨rfl, f, rfl, hid ▸ hcur⟩) hopen)
        | @moved row₀ _ _ h =>
          exact .overtaken h rfl ((getRunState_mem hold).2.symm ▸ hcur) hopen
      · have hne : run ≠ p.runId := fun e => hcur (e ▸ hprev hp)
        refine .inr ⟨hcur, ?_, by rw [hnil, hlines.of_ne hne, List.nil_append]⟩
        rw [Store.getRunState_wrote_of_ne, Store.getRunState_logged, hsame]
        rw [(row.sameRun_closed .superseded).1, (getRunState_mem hrow).2]
        exact hne
  | @rowless p evs' hp hrow hlines =>
    refine ⟨hruns, hwf, evs ++ evs', ?_, fun run => ?_⟩
    · show s₁.eventOutbox ++ evs' = _
      rw [he, List.append_assoc]
    · rw [linesOf_append, Store.getRunState_logged]
      rcases hk run with ⟨hcur, hT⟩ | ⟨hcur, hsame, hnil⟩
      · obtain rfl : p.runId = run := Option.some.inj ((hprev hp).symm.trans hcur)
        rw [hrow] at hT ⊢
        refine .inl ⟨hcur, ?_, fun _ hq => (Option.some_ne_none _ hq.symm).elim⟩
        generalize s.getRunState p.runId = old at hT
        generalize linesOf p.runId evs = ls at hT ⊢
        cases hT with
        | still => exact .rowless (hclaim hcur)
        | rowless => exact .rowless (hclaim hcur)
      · have hne : run ≠ p.runId := fun e => hcur (e ▸ hprev hp)
        exact .inr ⟨hcur, hsame, by rw [hnil, hlines.of_ne hne, List.nil_append]⟩

/-- The row with which an owned firing opens the lifecycle of its claim. -/
def Firing.openRow (f : Firing) (claim : RunClaim) (appName : String) (deadline : Int) :
    RunStateRow :=
  ((RunStateRow.ofFire claim.runId f.timer.id appName (fireState f.kind) claim.claimedAt
    deadline).withTransport f.selected.asStr).inserted

@[simp] theorem Firing.runId_openRow (claim : RunClaim) (appName : String) (deadline : Int) :
    (f.openRow claim appName deadline).runId = claim.runId := rfl

theorem Store.getRunState_append {s : Store} (row : RunStateRow) (run : Uuid) :
    ({ s with runStates := s.runStates ++ [row] }).getRunState run =
      (s.getRunState run).or (if row.runId = run then some row else none) := by
  unfold Store.getRunState
  rw [List.find?_append]
  by_cases h : row.runId = run <;> simp [h]

/-- The store after a delivery record went in. -/
def Store.projected (s : Store) (proj : TransportProjection) : Store :=
  ((insertTransportProjectionConn proj).run s).2

/-- What opening a lifecycle does: nothing for a timer that no app owns;
otherwise the row of the claim and its delivery record. -/
inductive Opening (cfg : FireConfig) (f : Firing) (claim : RunClaim) (s : Store) : Store → Prop
  | unowned (howner : f.owner = none) : Opening cfg f claim s s
  | owned {appName deadline proj} (howner : f.owner = some appName)
      (hnew : s.getRunState claim.runId = none)
      (hproj : newProjection cfg.route f.timer claim (fireState f.kind) appName
        s.nextPublicationOrder f.now f.selected = .ok proj) :
      Opening cfg f claim s (Store.projected
        { s with runStates := s.runStates ++ [f.openRow claim appName deadline] } proj)

theorem openLifecycle_opening {claim : RunClaim} {s : Store} :
    wp (openLifecycle cfg f claim) (fun _ s' => Opening cfg f claim s s') (fun _ _ => True) s := by
  unfold openLifecycle
  split
  · next howner => exact .unowned howner
  · next appName howner =>
    rw [wp_bind, wp_orPanic]
    refine ⟨fun deadline _ => ?_, fun _ _ => trivial⟩
    rw [wp_bind]
    unfold insertRunStateConn fail
    rw [wp_bind, wp_get]
    split
    · trivial
    · next hnew =>
      rw [wp_set, wp_bind, wp_get]
      dsimp only
      split
      · trivial
      · next proj hproj =>
        exact .owned howner (Option.not_isSome_iff_eq_none.mp hnew) hproj

/-- A committed fire: the turn of the run that was current, and the row of
the new claim. -/
structure FireStory (f : Firing) (claim : RunClaim) (s s' : Store) : Prop where
  story : Story (.fire f) s s'
  closes : ∀ run row, s.newest f.timer.id = some run → s'.getRunState run = some row →
    row.isTerminal = true
  opens : ∀ appName, f.owner = some appName →
    ∃ row, s'.getRunState claim.runId = some row ∧ row.appName = appName
  fresh : ∀ run, s.getRunState run = none → (s'.getRunState run).isSome → run = claim.runId

theorem isFired_fireState (kind : FireKind) : (fireState kind).isFired = true := by
  cases kind <;> rfl

theorem not_isLifecycle_fireState (kind : FireKind) : (fireState kind).isLifecycle = false := by
  cases kind <;> rfl

/-- The opening of the new claim, after the turn of the old one. -/
theorem Touches.opening {s s₂ s₃ s' : Store} {claim : RunClaim} (hs : s.Wf)
    (h : Touches f (Turned f s) s s₂) (hstill : Still s₂ s₃) (hnew : s.getRun claim.runId = none)
    (ho : Opening cfg f claim s₃ s') : FireStory f claim s s' := by
  obtain ⟨-, -, evs, he, hk⟩ := h
  obtain ⟨evs', he', hk'⟩ := hstill
  have hcur : s.newest f.timer.id ≠ some claim.runId := by
    intro hcur
    obtain ⟨q, hq, -⟩ := hs.getRun_newest hcur
    rw [hnew] at hq
    cases hq
  -- The run that was current, and every other old one.
  have hold : ∀ {s'' : Store} {run : Uuid}, s''.getRunState run = s₃.getRunState run →
      RowStory (.fire f) s run (s.getRunState run) (linesOf run (evs ++ evs'))
        (s''.getRunState run) ∧ (s.newest f.timer.id = some run →
        ∀ row, s''.getRunState run = some row → row.isTerminal = true) := by
    intro s'' run hrun
    rw [hrun, (hk' run).1, linesOf_append, (hk' run).2, List.append_nil]
    rcases hk run with ⟨_, hT⟩ | ⟨hne, hsame, hnil⟩
    · exact ⟨hT.1, fun _ => hT.2⟩
    · rw [hsame, hnil]
      exact ⟨.still _, fun h => absurd h hne⟩
  -- The turn of the old run opens no row.
  have hnone : ∀ run, s.getRunState run = none → s₃.getRunState run = none := by
    intro run hrun
    rw [(hk' run).1]
    rcases hk run with ⟨hc, hT, -⟩ | ⟨-, hsame, -⟩
    · rw [hrun] at hT
      obtain ⟨q, hq, -⟩ := hs.getRun_newest hc
      generalize linesOf run evs = ls at hT
      generalize s₂.getRunState run = after at hT ⊢
      cases hT with
      | opened _ _ hclaim _ _ _ _ _ _ =>
        rw [hq] at hclaim
        cases hclaim
      | _ => rfl
    · rw [hsame, hrun]
  cases ho with
  | unowned howner =>
    refine ⟨⟨evs ++ evs', by rw [he', he, List.append_assoc], fun run => (hold rfl).1⟩,
      fun run row hrun hrow => (hold rfl).2 hrun row hrow, fun appName happ => ?_,
      fun run hrun hsome => ?_⟩
    · rw [howner] at happ
      cases happ
    · rw [hnone run hrun] at hsome
      cases hsome
  | @owned appName deadline proj howner hfree hproj =>
    have hget : ∀ run, (Store.projected { s₃ with
        runStates := s₃.runStates ++ [f.openRow claim appName deadline] } proj).getRunState run =
        if claim.runId = run then some (f.openRow claim appName deadline)
        else s₃.getRunState run := by
      intro run
      refine (Store.getRunState_append (s := s₃) (f.openRow claim appName deadline) run).trans ?_
      rw [Firing.runId_openRow]
      by_cases hrun : claim.runId = run
      · rw [if_pos hrun, ← hrun, hfree, Option.none_or, if_pos rfl]
      · rw [if_neg hrun, if_neg hrun, Option.or_none]
    refine ⟨⟨evs ++ evs', ?_, fun run => ?_⟩, fun run row hrun hrow => ?_, fun app happ => ?_,
      fun run hrun hsome => ?_⟩
    · show s₃.eventOutbox = _
      rw [he', he, List.append_assoc]
    · by_cases hrun : claim.runId = run
      · subst hrun
        rcases hk claim.runId with ⟨hc, -⟩ | ⟨-, hsame, hnil⟩
        · exact absurd hc hcur
        · rw [hget, if_pos rfl, linesOf_append, hnil, (hk' _).2, ← hsame, ← (hk' _).1, hfree]
          exact .opened rfl howner hnew rfl rfl (isFired_fireState f.kind) rfl rfl rfl
      · exact (hold ((hget run).trans (if_neg hrun))).1
    · have hne : claim.runId ≠ run := by
        rintro rfl
        exact hcur hrun
      exact (hold ((hget run).trans (if_neg hne))).2 hrun row hrow
    · obtain rfl := Option.some.inj (howner.symm.trans happ)
      exact ⟨_, (hget _).trans (if_pos rfl), rfl⟩
    · by_contra hne
      rw [hget, if_neg fun h => hne h.symm, hnone run hrun] at hsome
      cases hsome

/-- What a fire does after the turn of the old run: it makes a new claim,
which touches no lifecycle, and opens that one's. -/
theorem wp_fireTail {s : Store} {Q : RunClaim → Store → Prop} (hwf : s.Wf)
    (hQ : ∀ claim s₁ s₂, Still s s₁ → s.getRun claim.runId = none →
      Opening cfg f claim s₁ s₂ → Q claim s₂) :
    wp (claimRunConn f.timer.id f.scheduledFor f.utc) (fun claim =>
      wp (emit (fireState f.kind) f.utc (.ofRun f.timer claim) f.kind.note) (fun _ =>
        wp (applyOverlapDisposition f.timer claim f.utc) (fun claim =>
          wp (openLifecycle cfg f claim) (fun _ => Q claim) fun _ _ => True)
          fun _ _ => True)
        fun _ _ => True)
      (fun _ _ => True) s := by
  rw [wp_claimRunConn hwf]
  split
  · trivial
  · next hslot =>
    have hslot : s.getClaimFor f.timer.id f.scheduledFor = none := by simpa using hslot
    have hwf₁ := hwf.claim f.utc hslot
    generalize hs₁ : ({ s with
      nextUuid := s.nextUuid + 1
      runs := s.runs ++ [s.newClaim ⟨s.nextUuid⟩ f.timer.id f.scheduledFor f.utc] } : Store) =
        s₁ at hwf₁ ⊢
    have hclaimed : Still s s₁ := by
      rw [← hs₁]
      exact .of_same rfl rfl
    have hmem : s.newClaim ⟨s.nextUuid⟩ f.timer.id f.scheduledFor f.utc ∈ s₁.runs := by
      simp [← hs₁]
    refine wp_mono (wp_and (emit_still (by rw [not_isLifecycle_fireState, Bool.false_and]) _ _ s₁)
      (emit_logs (not_isOutcome_fireState f.kind) _ _ _ s₁)) (fun _ s₂ h₂ => ?_)
      fun _ _ _ => trivial
    obtain ⟨hfired, hlogs⟩ := h₂
    refine wp_mono (wp_and (applyOverlapDisposition_spec (hlogs.wf hwf₁)
      (hlogs.core_of_quiet.runs_eq ▸ hmem) rfl f.utc)
      (applyOverlapDisposition_still f.timer _ f.utc s₂)) (fun c s₃ h₃ => ?_) fun _ _ _ => trivial
    obtain ⟨⟨hc, -⟩, hdisposed⟩ := h₃
    refine wp_mono openLifecycle_opening (fun _ s₄ h₄ => ?_) fun _ _ _ => trivial
    have hid : c.runId = ⟨s.nextUuid⟩ := by
      rw [hc]
      exact RunClaim.runId_of_key (key_dispose f.timer _ _ f.utc _)
    have hfresh : s.getRun c.runId = none := by
      rw [hid]
      refine List.find?_eq_none.mpr fun q hq he => ?_
      have hlt := hwf.run_lt q hq
      rw [show q.runId = ⟨s.nextUuid⟩ by simpa using he] at hlt
      exact Nat.lt_irrefl _ hlt
    have hstill : Still s s₃ :=
      IsTrans.trans (r := Still) _ _ _ hclaimed (IsTrans.trans (r := Still) _ _ _ hfired hdisposed)
    exact hQ c s₃ s₄ hstill hfresh h₄

/-- **The fire**, as a story; one that fails leaves the tables alone. -/
theorem fireTx_story {r : ReplyState} (hs : r.store.Wf) (hg : f.Gated r.store) :
    wp (fireTx cfg f) (fun out r' => FireStory f out.1 r.store r'.store)
      (fun _ r' => r'.store = r.store) r := by
  unfold fireTx inTx supersedePrevious
  rw [wp_transact]
  simp only [wp_bind, wp_pure, wp_onStore]
  refine wp_mono (barrierIngest_touches hs hg) (fun _ r₁ h₁ => ?_) fun _ _ _ => trivial
  refine wp_mono (closeOpenRun_closing (E := fun _ _ => False) rfl (by decide) h₁.2.1)
    (fun superseded s₂ h₂ => ?_) fun _ _ _ => trivial
  obtain ⟨hclosing, hwf₂⟩ := h₂
  have hturned := h₁.supersede hs hg hclosing hwf₂
  refine wp_fireTail hwf₂ fun claim s₃ s₄ hstill hfresh hopening => ?_
  have hnew : r.store.getRun claim.runId = none := by
    rw [← hfresh, Store.getRun, Store.getRun, hturned.1]
  exact hturned.opening hs hstill hnew hopening

end Fire

/-! ### Every commit -/

/-- `Still`, seen from the reply engine. -/
def ReplyStill (r r' : ReplyState) : Prop := Still r.store r'.store

instance : Std.Refl ReplyStill := ⟨fun r => Std.Refl.refl (r := Still) r.store⟩

instance : IsTrans ReplyState ReplyStill :=
  ⟨fun _ _ _ h h' => IsTrans.trans (r := Still) _ _ _ h h'⟩

theorem onStore_still {α : Type} {m : StoreM α} (h : Within Still m) :
    Within ReplyStill (onStore m) :=
  within_zoom (h.mono fun s s' hs t ht => by
    subst ht
    exact hs)

theorem registerFire_still (cfg : ReplyConfig) (runId : Uuid) (nowWall monoNow : Int) :
    Within ReplyStill (registerFire cfg runId nowWall monoNow) := by
  have hbook : ∀ g, Within ReplyStill (onBook g) := fun g =>
    within_modify fun r => Std.Refl.refl r.store
  refine within_bind (within_modify fun r => Std.Refl.refl r.store) fun _ => ?_
  refine within_bind (onStore_still (orPanic_still _)) fun wall => ?_
  refine within_bind (onStore_still (orPanic_still _)) fun at_ => ?_
  exact within_bind (hbook _) fun _ => hbook _

theorem still_discard {α : Type} {m : ReplyM α} (h : Within ReplyStill m) :
    Within ReplyStill (do let _ ← m) :=
  within_bind h fun _ => within_pure _

theorem deleteTimerLifecycle_story {c : Commit} {timer : Timer} {owner : Option String}
    {utc : Int} {s : Store} (hs : s.Wf) :
    wp (deleteTimerLifecycle timer owner utc) (fun _ s' => Story c s s')
      (fun _ s' => Story c s s') s := by
  unfold deleteTimerLifecycle
  rw [wp_atomically, wp_bind]
  exact cancelOpenRun_story hs

theorem slotDelete_story {c : Commit} {timerId : Uuid} {appName : String} {utc : Int} {s : Store}
    (hs : s.Wf) :
    wp (slotDelete timerId appName utc) (fun _ s' => Story c s s') (fun _ s' => Story c s s')
      s := by
  unfold slotDelete
  rw [wp_atomically, wp_bind, wp_get]
  split
  · rw [wp_bind]
    exact cancelOpenRun_story hs
  · exact .refl c s

/-- The rows go through a function that changes the effective transport. -/
theorem setRunTransport_story (runId : Uuid) (transport : String) (s : Store) :
    Story (.setRunTransport runId transport) s
      { s with runStates := s.runStates.map fun row =>
          if row.runId = runId then { row with transport := some transport } else row } := by
  refine ⟨[], by simp, fun run => ?_⟩
  rw [getRunState_map (f := fun row =>
    if row.runId = runId then { row with transport := some transport } else row)
    fun row => by split <;> rfl]
  cases s.getRunState run with
  | none => exact .still none
  | some row =>
    rw [Option.map_some]
    split
    · exact .moved (.delivered transport)
    · exact .still _

section

variable [Calendar] {cfg : FireConfig} {c : Commit} {r : ReplyState}

theorem createTimerTx_still (new : NewTimer) (now : Int) :
    Within Still (createTimerTx new now) := by
  unfold createTimerTx
  split
  · exact within_throw _
  · refine within_bind ?_ fun id => within_bind (orPanic_still _) fun p => ?_
    · cases new.id with
      | some id => exact within_pure id
      | none => exact within_modifyGet fun _ => .of_same rfl rfl
    · intro s
      rw [wp_bind, wp_get]
      split <;> exact .of_same rfl rfl

theorem updateTimerTx_still (update : TimerUpdate) (now : Int) :
    Within Still (updateTimerTx update now) := by
  intro s
  unfold updateTimerTx
  rw [wp_bind, wp_get]
  split
  · exact Std.Refl.refl (r := Still) s
  · split
    · exact Std.Refl.refl (r := Still) s
    · split
      · exact Std.Refl.refl (r := Still) s
      · rw [wp_bind, wp_orPanic]
        exact ⟨fun _ _ => .of_same rfl rfl, fun _ _ => Std.Refl.refl s⟩

/-- The commits that may move a lifecycle row or log a line, and the
publication of an event, which takes it out of the outbox. -/
def Commit.movesRows : Commit → Bool
  | deleteTimerLifecycle .. | slotDelete .. | fire .. | ingest .. | ackThrough .. |
    expirePickup .. | expireWatchdog .. | setRunTransport .. | markEventPublished .. => true
  | _ => false

/-- Every other commit leaves lifecycles alone. -/
theorem Commit.still (hc : c.movesRows = false) (r : ReplyState) :
    ReplyStill r (c.after cfg r) := by
  have hmodify : ∀ {α : Type} {g : Store → α × Store}, (∀ s, (g s).2.runStates = s.runStates) →
      (∀ s, (g s).2.eventOutbox = s.eventOutbox) →
      Within ReplyStill (onStore (modifyGet g : StoreM α)) := fun hr he =>
    onStore_still (within_modifyGet fun s => .of_same (hr s) (he s))
  have h : Within ReplyStill (c.prog cfg) := by
    cases c with
    | createTimer new now => exact still_discard (onStore_still (createTimerTx_still new now))
    | updateTimer update now => exact still_discard (onStore_still (updateTimerTx_still update now))
    | deleteTimer id => exact still_discard (hmodify (fun _ => rfl) fun _ => rfl)
    | setTimerOwner timerId appName =>
      exact onStore_still (modify_still (fun _ => rfl) fun _ => rfl)
    | clearTimerOwner timerId => exact onStore_still (modify_still (fun _ => rfl) fun _ => rfl)
    | ackRunEvents timerId throughSequence =>
      exact still_discard (hmodify (fun _ => rfl) fun _ => rfl)
    | claimRun timerId scheduledFor now =>
      refine still_discard (onStore_still fun s => ?_)
      unfold claimRunConn newUuid Bellman.fail
      rw [wp_bind, wp_modifyGet, wp_bind, wp_get]
      split <;> exact .of_same rfl rfl
    | activateRun runId =>
      exact still_discard (onStore_still (within_bind
        (within_modifyGet fun _ => .of_same rfl rfl) fun _ => within_pure _))
    | rependRun runId => exact onStore_still fun s => .of_same rfl rfl
    | rependAllActive => exact still_discard (hmodify (fun _ => rfl) fun _ => rfl)
    | finishClaim claim timerName e utc =>
      exact onStore_still (within_atomically (within_bind (finishRunConn_still _ _ _ _) fun _ =>
        within_ite (fun _ => emit_still (not_isLifecycle_outcome _ _) _ _) fun _ => within_pure _))
    | finishRun how runId utc =>
      refine still_discard (onStore_still (within_bind (finishRunConn_still _ _ _ _) fun _ => ?_))
      refine within_ite (fun _ => within_bind within_get fun s => ?_) fun _ => within_throw _
      split
      · exact within_pure _
      · exact within_throw _
    | registerFire runId nowWall monoNow => exact registerFire_still cfg.reply runId nowWall monoNow
    | logRejection timer runId reason utc => exact onStore_still (emit_still rfl _ _)
    | logNote kind loggedAt timer scheduledFor note =>
      exact onStore_still (emit_still (Bool.and_false _) _ _)
    | crash => exact within_modify fun r => Std.Refl.refl (r := Still) r.store
    | _ => cases hc
  exact after_of_wp (h r)

/-- **The story of every commit**: how it moves the lifecycle row of each
run, and the lines it logs. -/
theorem Commit.story (cfg : FireConfig) (c : Commit) (hs : r.store.Wf) (hn : r.store.RowsNodup)
    (hg : c.Gated r.store) (run : Uuid) :
    RowStory c r.store run (r.store.getRunState run)
      (linesOf run (enqueued ⟨r, c, c.after cfg r⟩)) ((c.after cfg r).store.getRunState run) := by
  have hread : Story c r.store (c.after cfg r).store → RowStory c r.store run
      (r.store.getRunState run) (linesOf run (enqueued ⟨r, c, c.after cfg r⟩))
      ((c.after cfg r).store.getRunState run) := by
    rintro ⟨evs, he, hk⟩
    have hevs : enqueued ⟨r, c, c.after cfg r⟩ = evs := by
      rw [enqueued, he, List.drop_left]
    rw [hevs]
    exact hk run
  by_cases hmoves : c.movesRows = false
  · exact hread ((Commit.still hmoves r).story c)
  cases c with
  | markEventPublished eventId =>
    have hnil : enqueued ⟨r, .markEventPublished eventId,
        Commit.after cfg (.markEventPublished eventId) r⟩ = [] :=
      List.drop_eq_nil_of_le (List.length_filter_le _ _)
    rw [hnil]
    exact .still _
  | deleteTimerLifecycle timer owner utc =>
    refine hread (after_of_wp (P := fun r' => Story _ r.store r'.store) ?_)
    simp only [prog, wp_bind, wp_pure, wp_onStore]
    exact deleteTimerLifecycle_story hs
  | slotDelete timerId appName utc =>
    refine hread (after_of_wp (P := fun r' => Story _ r.store r'.store) ?_)
    simp only [prog, wp_bind, wp_pure, wp_onStore]
    exact slotDelete_story hs
  | fire f =>
    refine hread (after_of_wp (P := fun r' => Story _ r.store r'.store) ?_)
    simp only [prog, wp_bind, wp_pure]
    exact wp_mono (fireTx_story hs hg) (fun _ _ h => h.story) fun _ _ h => h ▸ .refl _ _
  | ingest timer doc digest nowWall monoNow utc =>
    refine hread (after_of_wp (P := fun r' => Story _ r.store r'.store) ?_)
    simp only [prog, wp_bind, wp_pure]
    exact wp_mono (ingest_ingested hs utc) (fun _ _ h => h.1.story rfl)
      fun _ _ h => h.1 ▸ .refl _ _
  | ackThrough timer throughSequence nowWall =>
    refine hread (after_of_wp (P := fun r' => Story _ r.store r'.store) ?_)
    simp only [prog, wp_bind, wp_pure]
    exact onAckThrough_story hs hn _ throughSequence
  | expirePickup timer runId nowWall =>
    refine hread (after_of_wp (P := fun r' => Story _ r.store r'.store) ?_)
    simp only [prog, wp_bind, wp_pure]
    exact expirePickupOne_story hs hn runId
  | expireWatchdog timer runId nowWall monoNow =>
    refine hread (after_of_wp (P := fun r' => Story _ r.store r'.store) ?_)
    simp only [prog, wp_bind, wp_pure]
    exact expireWatchdogOne_story hs _ runId
  | setRunTransport runId transport => exact hread (setRunTransport_story runId transport r.store)
  | _ => exact absurd rfl hmoves

/-- A fire that claims a run closes the run that was current, and gives the
new one a row in the name of the owner. -/
theorem Commit.fired (cfg : FireConfig) {f : Firing} (hs : r.store.Wf) (hg : f.Gated r.store) :
    (Commit.after cfg (.fire f) r).store = r.store ∨
      ∃ claim, Fired f claim r.store (Commit.after cfg (.fire f) r).store ∧
        FireStory f claim r.store (Commit.after cfg (.fire f) r).store := by
  refine after_of_wp (P := fun r' => r'.store = r.store ∨
    ∃ claim, Fired f claim r.store r'.store ∧ FireStory f claim r.store r'.store) ?_
  simp only [prog, wp_bind, wp_pure]
  exact wp_mono (wp_and (fireTx_spec cfg f r hs) (fireTx_story hs hg))
    (fun out _ h => .inr ⟨out.1, h⟩) fun _ _ h => .inl h.1

/-! ### Every run -/

/-- The states of a run have one row for each run. -/
theorem rowsNodup_of_run {tr : List (System.Event ReplyState Commit)}
    (h : (ledger cfg).Run {} tr r) : r.store.RowsNodup := by
  refine h.invariant (G := fun _ => True) (I := fun r => r.store.RowsNodup) (fun _ _ => trivial)
    List.nodup_nil ?_
  rintro r c r' rfl - hr
  exact (Commit.keeps c r hr).1

/-- **Story induction**: what holds at the start, and is kept by every
commit whose story is told, holds of every gated run. -/
theorem story_induction {tr : List (System.Event ReplyState Commit)}
    {J : List (System.Event ReplyState Commit) → ReplyState → Prop}
    (h : (gated cfg).Run {} tr r) (h0 : J [] {})
    (hstep : ∀ tr r c, (gated cfg).Run {} tr r → r.store.Wf → c.Gated r.store →
      (∀ run, RowStory c r.store run (r.store.getRunState run)
        (linesOf run (enqueued ⟨r, c, c.after cfg r⟩)) ((c.after cfg r).store.getRunState run)) →
      J tr r → J (tr ++ [⟨r, c, c.after cfg r⟩]) (c.after cfg r)) :
    J tr r := by
  refine h.trace_induction h0 ?_
  rintro tr r c r' hrun ⟨hg, rfl⟩ hJ
  have hl := ledger_of_gated hrun
  exact hstep tr r c hrun (wf_of_reached hl) hg
    (Commit.story cfg c (wf_of_reached hl) (rowsNodup_of_run hl) hg) hJ

end

end Bellman

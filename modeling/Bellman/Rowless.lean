/-
Bellman/Rowless.lean

Two guarantees of ingest, and the one thing both hang on.

A reply is *repeated* on every poll of its file and after every restart,
and what makes the repetition harmless is the digest kept in the lifecycle
row.  A reply is *signed* by an app, and what the signature is checked
against is the owner kept in the lifecycle row.  A run whose timer had no
owner when it fired has no row: ingest builds one from the document, checks
the document against it, and the update that follows reaches nothing.

Main results: ingesting a reply again changes nothing exactly when the run
it gets through to has a row (`ingested_once_iff`), and a reply is applied
only for the owner that the fire recorded exactly then (`owner_only_iff`).
-/
import Bellman.Story

namespace Bellman

open ProgramLogic Prog ReplyM

/-! ### Replies that get through -/

section Through

variable (cfg : ReplyConfig) (timer : Timer) (doc : ReplyDocument) (nowWall monoNow : Int)
  (s : Store) (run : Uuid)

/-- The reply names a run of the timer that is no longer current. -/
def Late : Prop :=
  ∃ newState appName claim, Addressed s timer doc run newState appName claim ∧
    s.newest timer.id ≠ some run

/-- The reply names the current run, no check stands against it, and its
watchdog can be armed. -/
def Accepted : Prop :=
  ∃ newState appName claim, Addressed s timer doc run newState appName claim ∧
    s.newest timer.id = some run ∧
    (currentRow s timer claim appName nowWall).refuses doc appName newState = none ∧
    Arms cfg ((currentRow s timer claim appName nowWall).report doc newState nowWall) newState
      nowWall monoNow

end Through

section Rowless

variable {cfg : ReplyConfig} {timer : Timer} {doc : ReplyDocument} {digest : String}
  {nowWall monoNow utc : Int} {run : Uuid}

theorem currentRow_of_none {s : Store} {claim : RunClaim} {appName : String}
    (h : s.getRunState claim.runId = none) :
    currentRow s timer claim appName nowWall =
      RunStateRow.ofFire claim.runId timer.id appName .fired claim.claimedAt nowWall := by
  rw [currentRow, h, Option.getD_none]

/-- A run without a row gets the same row built whatever the tables hold
besides its claim. -/
theorem currentRow_logged {s : Store} {evs : List EventRecord} {claim : RunClaim}
    {appName : String} :
    currentRow (s.logged evs) timer claim appName nowWall =
      currentRow s timer claim appName nowWall := rfl

/-- A row just built is owed a line, whatever the report. -/
theorem replyLines_ofFire_ne_nil {timerId : Uuid} {appName : String} {firedAt deadline : Int}
    {newState : RunState} (hw : newState.isAppWritable = true) :
    replyLines (RunStateRow.ofFire run timerId appName .fired firedAt deadline) doc newState
      nowWall ≠ [] := by
  cases newState with
  | acknowledged =>
    simp [replyLines, ackLines, RunStateRow.report, applyVerdict, RunStateRow.ofFire, accumulate]
  | running =>
    simp [replyLines, runningLines, RunStateRow.report, applyVerdict, accumulate,
      RunStateRow.ofFire]
  | completed => simp [replyLines, verdictLines, RunStateRow.ofFire, RunState.isTerminal]
  | failed => simp [replyLines, verdictLines, RunStateRow.ofFire, RunState.isTerminal]
  | _ => cases hw

/-- A reply that gets through to a run without a row is ingested, and what
it leaves is lines. -/
theorem ingest_rowless {r : ReplyState} (hs : r.store.Wf)
    (hrow : r.store.getRunState run = none)
    (h : Late timer doc r.store run ∨ Accepted cfg timer doc nowWall monoNow r.store run) :
    ∃ out r' evs, (ingest cfg timer doc digest nowWall monoNow utc).run r = (.ok out, r') ∧
      r'.store = r.store.logged evs ∧ evs ≠ [] ∧ r'.store.Wf ∧
      (r.store.newest timer.id = some run → out = .applied) := by
  obtain ⟨newState, appName, claim, haddr⟩ :
      ∃ newState appName claim, Addressed r.store timer doc run newState appName claim := by
    rcases h with ⟨newState, appName, claim, haddr, -⟩ | ⟨newState, appName, claim, haddr, -⟩ <;>
      exact ⟨newState, appName, claim, haddr⟩
  have hid := haddr.runId_eq
  have hnone : r.store.getRunState claim.runId = none := hid ▸ hrow
  -- Whatever else the reply is, nothing stands against it.
  have hopen : r.store.newest timer.id = some run →
      (currentRow r.store timer claim appName nowWall).refuses doc appName newState = none ∧
      Arms cfg ((currentRow r.store timer claim appName nowWall).report doc newState nowWall)
        newState nowWall monoNow := by
    intro hcur
    rcases h with ⟨_, _, _, _, hne⟩ | ⟨_, _, _, haddr', -, hok, harm⟩
    · exact absurd hcur hne
    · obtain ⟨-, rfl, rfl, rfl⟩ := haddr.unique haddr'
      exact ⟨hok, harm⟩
  rcases hrun : (ingest cfg timer doc digest nowWall monoNow utc).run r with ⟨e | out, r'⟩
  · obtain ⟨-, _, _, _, _, _, haddr', hcur, rfl, -, -, harm⟩ :=
      wp_error (ingest_ingested hs utc) hrun
    obtain ⟨rfl, rfl, rfl, rfl⟩ := haddr.unique haddr'
    exact absurd (hopen hcur).2 harm
  · obtain ⟨hing, hwf⟩ := wp_ok (ingest_ingested hs utc) hrun
    generalize hstore : r'.store = s' at hing hwf
    have hrefl : ∀ evs, s' = r.store.logged evs → evs ≠ [] →
        (r.store.newest timer.id = some run → out = .applied) →
        ∃ out' r'' evs, ((Except.ok out, r') : Except Abort IngestOutcome × ReplyState) =
          (.ok out', r'') ∧ r''.store = r.store.logged evs ∧ evs ≠ [] ∧ r''.store.Wf ∧
          (r.store.newest timer.id = some run → out' = .applied) := fun evs he hne happ =>
      ⟨out, r', evs, rfl, hstore.trans he, hne, hstore ▸ hwf, happ⟩
    cases hing with
    | unaddressed why hno => exact absurd haddr (hno run newState appName claim)
    | refused why haddr' hcur hwhy =>
      obtain ⟨rfl, rfl, rfl, rfl⟩ := haddr.unique haddr'
      rw [(hopen hcur).1] at hwhy
      cases hwhy
    | known haddr' _ hdigest =>
      obtain ⟨rfl, -⟩ := haddr.unique haddr'
      rw [hrow] at hdigest
      cases hdigest
    | late haddr' _ hsome _ _ =>
      obtain ⟨rfl, -⟩ := haddr.unique haddr'
      rw [hrow] at hsome
      cases hsome
    | @lateRowless _ _ _ _ evs haddr' hne _ hlines =>
      obtain ⟨rfl, -⟩ := haddr.unique haddr'
      refine hrefl evs rfl (fun hnil => ?_) fun hcur => absurd hcur hne
      have hself := hlines.self
      rw [hnil] at hself
      cases hself
    | duplicate haddr' _ _ hdigest =>
      obtain ⟨rfl, rfl, rfl, rfl⟩ := haddr.unique haddr'
      rw [currentRow_of_none hnone] at hdigest
      cases hdigest
    | @applied _ _ _ _ row evs watchdog haddr' hcur hbuilt _ _ _ hlines =>
      obtain ⟨rfl, rfl, rfl, rfl⟩ := haddr.unique haddr'
      rw [currentRow_of_none hnone] at hbuilt
      subst hbuilt
      refine hrefl evs (Store.wrote_of_none ?_) (fun hnil => ?_) fun _ => rfl
      · rw [RunStateRow.sameRun_folded.1]
        exact hnone
      · have hself := hlines.self
        rw [hnil] at hself
        exact replyLines_ofFire_ne_nil (isAppWritable_of_validate haddr.valid) hself.symm

/-! ### Repetition -/

/-- No further ingest of the reply changes a table, at any reading of the
clocks. -/
def Settled (cfg : ReplyConfig) (timer : Timer) (doc : ReplyDocument) (digest : String)
    (s : Store) : Prop :=
  ∀ nowWall monoNow out s',
    Ingested cfg timer doc digest nowWall monoNow (s.newest timer.id) s out s' → s' = s

/-- The checks against a row that is built do not depend on the deadline it
gets. -/
theorem refuses_currentRow {s : Store} {claim : RunClaim} {appName : String}
    {newState : RunState} (nowWall nowWall' : Int) :
    (currentRow s timer claim appName nowWall).refuses doc appName newState =
      (currentRow s timer claim appName nowWall').refuses doc appName newState := by
  unfold currentRow
  cases s.getRunState claim.runId <;> rfl

theorem replyDigest_currentRow {s : Store} {claim : RunClaim} {appName : String}
    {nowWall : Int} (nowWall' : Int)
    (h : (currentRow s timer claim appName nowWall).replyDigest = some digest) :
    (currentRow s timer claim appName nowWall').replyDigest = some digest := by
  unfold currentRow at h ⊢
  cases hrow : s.getRunState claim.runId with
  | none =>
    rw [hrow] at h
    cases h
  | some row =>
    rw [hrow] at h
    exact h

/-- A run whose row knows the digest of its reply is settled. -/
theorem settled_of_digest {s : Store} {newState : RunState} {appName : String}
    {claim : RunClaim} {row : RunStateRow}
    (haddr : Addressed s timer doc run newState appName claim)
    (hrow : s.getRunState run = some row) (hdigest : row.replyDigest = some digest) :
    Settled cfg timer doc digest s := by
  intro nowWall monoNow out s' h
  cases h with
  | late haddr' _ hrow' hne _ =>
    obtain ⟨rfl, -⟩ := haddr.unique haddr'
    obtain rfl := Option.some.inj (hrow.symm.trans hrow')
    exact absurd hdigest hne
  | lateRowless haddr' _ hnone _ =>
    obtain ⟨rfl, -⟩ := haddr.unique haddr'
    rw [hrow] at hnone
    cases hnone
  | applied watchdog haddr' _ hbuilt _ hne _ _ =>
    obtain ⟨rfl, -, -, rfl⟩ := haddr.unique haddr'
    have hid := haddr.runId_eq
    rw [currentRow_of_some (hid ▸ hrow)] at hbuilt
    exact absurd (hbuilt ▸ hdigest) hne
  | _ => rfl

theorem Addressed.congr {s s' : Store} {newState : RunState} {appName : String}
    {claim : RunClaim} (h : Addressed s timer doc run newState appName claim)
    (hr : s'.runs = s.runs) : Addressed s' timer doc run newState appName claim := by
  refine ⟨h.valid, ?_, h.ofTimer⟩
  rw [← h.claimed, Store.getRun, hr]
  rfl

/-- What a run without a row gets logged does not stand in the way of the
reply. -/
theorem through_logged {s : Store} (evs : List EventRecord)
    (h : Late timer doc s run ∨ Accepted cfg timer doc nowWall monoNow s run) :
    Late timer doc (s.logged evs) run ∨
      Accepted cfg timer doc nowWall monoNow (s.logged evs) run := by
  refine h.imp ?_ ?_
  · rintro ⟨newState, appName, claim, haddr, hne⟩
    exact ⟨newState, appName, claim, haddr.congr rfl, hne⟩
  · rintro ⟨newState, appName, claim, haddr, hcur, hok, harm⟩
    exact ⟨newState, appName, claim, haddr.congr rfl, hcur, hok, harm⟩

/-- After one ingest the reply is settled, if the run it gets through to
has a row. -/
theorem Ingested.settled {s s' : Store} {out : IngestOutcome}
    (h : Ingested cfg timer doc digest nowWall monoNow (s.newest timer.id) s out s')
    (hrows : ∀ run, Late timer doc s run ∨ Accepted cfg timer doc nowWall monoNow s run →
      (s.getRunState run).isSome) :
    Settled cfg timer doc digest s' := by
  cases h with
  | unaddressed why hno =>
    intro _ _ _ s'' h'
    cases h' with
    | late haddr _ _ _ _ => exact absurd haddr (hno _ _ _ _)
    | lateRowless haddr _ _ _ => exact absurd haddr (hno _ _ _ _)
    | applied _ haddr _ _ _ _ _ _ => exact absurd haddr (hno _ _ _ _)
    | _ => rfl
  | refused why haddr hcur hwhy =>
    intro nowWall' _ _ s'' h'
    cases h' with
    | late haddr' hne _ _ _ =>
      obtain ⟨rfl, -⟩ := haddr.unique haddr'
      exact absurd hcur hne
    | lateRowless haddr' hne _ _ =>
      obtain ⟨rfl, -⟩ := haddr.unique haddr'
      exact absurd hcur hne
    | applied _ haddr' _ hbuilt hok _ _ _ =>
      obtain ⟨rfl, rfl, rfl, rfl⟩ := haddr.unique haddr'
      rw [hbuilt, refuses_currentRow nowWall' nowWall, hwhy] at hok
      cases hok
    | _ => rfl
  | known haddr _ hdigest =>
    obtain ⟨row, hrow, hdigest⟩ := Option.bind_eq_some_iff.mp hdigest
    exact settled_of_digest haddr hrow hdigest
  | @late run newState appName claim row evs haddr _ hrow _ _ =>
    have hwrote : ((s.logged evs).wrote { row with replyDigest := some digest }).getRunState run =
        some { row with replyDigest := some digest } :=
      Store.getRunState_wrote_self (s := s.logged evs) hrow ⟨rfl, rfl, rfl, rfl, rfl⟩
    exact settled_of_digest (haddr.congr rfl) hwrote rfl
  | lateRowless haddr hne hnone _ =>
    have hsome := hrows _ (.inl ⟨_, _, _, haddr, hne⟩)
    rw [hnone] at hsome
    cases hsome
  | @duplicate run newState appName claim haddr _ _ hdigest =>
    cases hrow : s.getRunState claim.runId with
    | none =>
      rw [currentRow_of_none hrow] at hdigest
      cases hdigest
    | some row =>
      rw [currentRow_of_some hrow] at hdigest
      exact settled_of_digest haddr (haddr.runId_eq ▸ hrow) hdigest
  | @applied run newState appName claim row evs watchdog haddr hcur hbuilt hok _ harm _ =>
    obtain ⟨stored, hrow⟩ := Option.isSome_iff_exists.mp
      (hrows run (.inr ⟨newState, appName, claim, haddr, hcur, hbuilt ▸ hok, hbuilt ▸ harm⟩))
    have hid := haddr.runId_eq
    rw [currentRow_of_some (hid ▸ hrow)] at hbuilt
    subst hbuilt
    exact settled_of_digest (haddr.congr rfl)
      (Store.getRunState_wrote_self (s := s.logged evs) hrow row.sameRun_folded) rfl

/-- A run whose reply was ingested, and not refused, has a claim, and its
row, if it has one, knows the digest. -/
theorem Ingested.remembered {s s' : Store} {out : IngestOutcome}
    (h : Ingested cfg timer doc digest nowWall monoNow (s.newest timer.id) s out s')
    (hout : ∀ why, out ≠ .rejected why) (hdoc : doc.runId = some run) :
    (s'.getRun run).isSome ∧
      ∀ row, s'.getRunState run = some row → row.replyDigest = some digest := by
  have hnamed : ∀ {run' newState appName claim},
      Addressed s timer doc run' newState appName claim → run' = run := fun haddr =>
    Option.some.inj ((runId_of_validate haddr.valid).1.symm.trans hdoc)
  cases h with
  | unaddressed why _ => exact absurd rfl (hout why)
  | refused why _ _ _ => exact absurd rfl (hout why)
  | known haddr _ hdigest =>
    obtain rfl := hnamed haddr
    refine ⟨by rw [haddr.claimed]; rfl, fun row hrow => ?_⟩
    rwa [hrow, Option.bind_some] at hdigest
  | @late _ _ _ claim row evs haddr _ hrow _ _ =>
    obtain rfl := hnamed haddr
    refine ⟨by rw [Store.getRun_wrote, Store.getRun_logged, haddr.claimed]; rfl, fun q hq => ?_⟩
    have hself : row.SameRun { row with replyDigest := some digest } :=
      ⟨rfl, rfl, rfl, rfl, rfl⟩
    rw [Store.getRunState_wrote_self (s := s.logged evs) hrow hself] at hq
    exact Option.some.inj hq ▸ rfl
  | lateRowless haddr _ hrow _ =>
    obtain rfl := hnamed haddr
    refine ⟨by rw [Store.getRun_logged, haddr.claimed]; rfl, fun q hq => ?_⟩
    rw [Store.getRunState_logged, hrow] at hq
    cases hq
  | duplicate haddr _ _ hdigest =>
    obtain rfl := hnamed haddr
    refine ⟨by rw [haddr.claimed]; rfl, fun row hrow => ?_⟩
    rwa [currentRow_of_some (haddr.runId_eq ▸ hrow)] at hdigest
  | @applied _ newState appName claim row evs watchdog haddr _ hbuilt _ _ _ _ =>
    obtain rfl := hnamed haddr
    refine ⟨by rw [Store.getRun_wrote, Store.getRun_logged, haddr.claimed]; rfl, fun q hq => ?_⟩
    rw [Store.getRunState_wrote, Store.getRunState_logged] at hq
    split at hq
    · obtain ⟨q₀, -, rfl⟩ := Option.map_eq_some_iff.mp hq
      rfl
    · next hne =>
      refine absurd ?_ hne
      rw [row.sameRun_folded.1, hbuilt, runId_currentRow, haddr.runId_eq]

end Rowless

/-- A commit leaves what its operation leaves. -/
theorem discard_run {α : Type} {m : ReplyM α} {r r' : ReplyState} {out : Except Abort α}
    (h : m.run r = (out, r')) : ((do let _ ← m : ReplyM Unit).run r).2 = r' := by
  have hm : m r = (out, r') := h
  unfold Prog.run
  simp only [bind, hm]
  cases out <;> rfl

/-- The reply comes again, or the process is restarted. -/
inductive Again (timer : Timer) (doc : ReplyDocument) (digest : String) : Commit → Prop
  | ingest (nowWall monoNow utc : Int) :
      Again timer doc digest (.ingest timer doc digest nowWall monoNow utc)
  | crash : Again timer doc digest .crash

section

variable [Calendar] {cfg : FireConfig} {timer : Timer} {doc : ReplyDocument} {digest : String}
  {nowWall monoNow utc : Int}

/-- Once the reply has been ingested, ingesting it again, any number of
times, at any readings of the clocks and across restarts, leaves the
lifecycle rows and the outbox as they are. -/
def IngestedOnce (cfg : FireConfig) (timer : Timer) (doc : ReplyDocument) (digest : String)
    (nowWall monoNow utc : Int) (r : ReplyState) : Prop :=
  ∀ out r', (ingest cfg.reply timer doc digest nowWall monoNow utc).run r = (.ok out, r') →
    ∀ cs : List Commit, (∀ c ∈ cs, Again timer doc digest c) →
      let s := (cs.foldl (fun r c => c.after cfg r) r').store
      s.runStates = r'.store.runStates ∧ s.eventOutbox = r'.store.eventOutbox

/-- Repetition over a settled store. -/
theorem Settled.again {r : ReplyState} (hs : r.store.Wf)
    (h : Settled cfg.reply timer doc digest r.store) {cs : List Commit}
    (hcs : ∀ c ∈ cs, Again timer doc digest c) :
    (cs.foldl (fun r c => c.after cfg r) r).store = r.store := by
  induction cs generalizing r with
  | nil => rfl
  | cons c cs ih =>
    have hstep : (c.after cfg r).store = r.store := by
      cases hcs c List.mem_cons_self with
      | crash => rfl
      | ingest nowWall monoNow utc =>
        refine after_of_wp (P := fun r' => r'.store = r.store) ?_
        simp only [Commit.prog, wp_bind, wp_pure]
        exact wp_mono (ingest_ingested hs utc) (fun out r' h' => h _ _ _ _ h'.1) fun _ _ h' => h'.1
    rw [List.foldl_cons, ih (hstep ▸ hs) (hstep ▸ h) fun d hd => hcs d (List.mem_cons_of_mem c hd),
      hstep]

/-- **Ingest is idempotent** for exactly the replies that get through to a
run with a lifecycle row, or to none. -/
theorem ingested_once_iff {tr : List (System.Event ReplyState Commit)} {r : ReplyState}
    (h : (ledger cfg).Run {} tr r) :
    IngestedOnce cfg timer doc digest nowWall monoNow utc r ↔
      ∀ run, Late timer doc r.store run ∨
          Accepted cfg.reply timer doc nowWall monoNow r.store run →
        (r.store.getRunState run).isSome := by
  have hs := wf_of_reached h
  constructor
  · intro honce run hthrough
    by_contra hnone
    rw [Option.not_isSome_iff_eq_none] at hnone
    obtain ⟨out, r', evs, hrun, hstore, -, hwf, -⟩ :=
      @ingest_rowless cfg.reply timer doc digest nowWall monoNow utc run r hs hnone hthrough
    have hthrough' := through_logged evs hthrough
    rw [← hstore] at hthrough'
    obtain ⟨out', r'', evs', hrun', hstore', hne, -, -⟩ :=
      @ingest_rowless cfg.reply timer doc digest nowWall monoNow utc run r' hwf
        (by rw [hstore]; exact hnone) hthrough'
    -- The second ingest logs again.
    have hafter : (Commit.ingest timer doc digest nowWall monoNow utc).after cfg r' = r'' :=
      discard_run hrun'
    have hout := (honce out r' hrun [.ingest timer doc digest nowWall monoNow utc]
      (fun c hc => List.mem_singleton.mp hc ▸ .ingest nowWall monoNow utc)).2
    rw [List.foldl_cons, List.foldl_nil, hafter, hstore'] at hout
    exact hne (List.self_eq_append_right.mp hout.symm)
  · intro hrows out r' hrun cs hcs
    obtain ⟨hing, hwf⟩ := wp_ok (ingest_ingested hs utc) hrun
    have hsame := (hing.settled hrows).again hwf hcs
    dsimp only
    rw [hsame]
    exact ⟨rfl, rfl⟩

end

section Sample

attribute [local instance] Calendar.utcOnly

/-- A fire of a timer that an app owns, and the reply of that app. -/
theorem ingested_once_owned :
    IngestedOnce .sample (.sample .skip) doneReply "digest" (61 * NS) (61 * NS) (61 * NS)
      ([.createTimer (.sample .skip) 0, .setTimerOwner ⟨0⟩ "app",
        .fire (.owned (60 * NS))].foldl (fun r c => Commit.after .sample c r) {}) := by
  refine (ingested_once_iff (run_commits .sample _)).mpr fun run h => ?_
  have hrun : run = ⟨1⟩ := by
    rcases h with ⟨_, _, _, haddr, -⟩ | ⟨_, _, _, haddr, -⟩ <;>
      exact (Option.some.inj (runId_of_validate haddr.valid).1).symm
  subst hrun
  decide +kernel

/-- A run of a timer that no app owns: its reply is ingested again and
again, and each time the log says that it is completed. -/
theorem not_ingested_once :
    ¬∀ (timer : Timer) (doc : ReplyDocument) (digest : String) (nowWall monoNow utc : Int) tr r,
      (ledger .sample).Run {} tr r →
        IngestedOnce .sample timer doc digest nowWall monoNow utc r := by
  intro h
  have hrun := run_commits .sample [.createTimer (.sample .skip) 0,
    .fire (.sample .skip (60 * NS))]
  have honce := h (.sample .skip) doneReply "digest" (61 * NS) (61 * NS) (61 * NS) _ _ hrun
    .applied _ (Prod.ext (by decide +kernel) rfl)
    [.ingest (.sample .skip) doneReply "digest" (62 * NS) (62 * NS) (62 * NS)]
    (fun c hc => List.mem_singleton.mp hc ▸ .ingest _ _ _)
  have hlength := congrArg List.length honce.2
  revert hlength
  decide +kernel

end Sample

/-! ### Ownership -/

/-- The run was claimed by a fire of the trace that recorded its owner. -/
def OwnedAtFire (tr : List (System.Event ReplyState Commit)) (run : Uuid) (appName : String) :
    Prop :=
  ∃ e ∈ tr, ∃ f, e.label = .fire f ∧ f.owner = some appName ∧ e.pre.store.getRun run = none ∧
    (e.post.store.getRun run).isSome

theorem OwnedAtFire.append {tr : List (System.Event ReplyState Commit)} {run : Uuid}
    {appName : String} (h : OwnedAtFire tr run appName) (e : System.Event ReplyState Commit) :
    OwnedAtFire (tr ++ [e]) run appName := by
  obtain ⟨d, hd, hf⟩ := h
  exact ⟨d, List.mem_append_left _ hd, hf⟩

/-- The lifecycle fields of a row: all but the digest of the last reply. -/
def RunStateRow.lifecycle (row : RunStateRow) : RunStateRow := { row with replyDigest := none }

/-- A late reply changes the digest of a row and no lifecycle field. -/
theorem lifecycle_wrote_digest {s : Store} {run : Uuid} {row : RunStateRow} (digest : String)
    (hrow : s.getRunState run = some row) (run' : Uuid) :
    ((s.wrote { row with replyDigest := some digest }).getRunState run').map
      RunStateRow.lifecycle = (s.getRunState run').map RunStateRow.lifecycle := by
  have hself : row.SameRun { row with replyDigest := some digest } := ⟨rfl, rfl, rfl, rfl, rfl⟩
  by_cases h : run' = run
  · subst h
    rw [Store.getRunState_wrote_self hrow hself, hrow]
    rfl
  · rw [Store.getRunState_wrote_of_ne]
    rw [show RunStateRow.runId _ = run from (getRunState_mem hrow).2]
    exact h

/-- A current run with a row accepts no reply but its owner's. -/
theorem appName_of_refuses {row : RunStateRow} {doc : ReplyDocument} {appName : String}
    {newState : RunState} (h : row.refuses doc appName newState = none) :
    appName = row.appName := by
  unfold RunStateRow.refuses at h
  by_contra hne
  rw [if_pos hne] at h
  cases h

section

variable [Calendar] {cfg : FireConfig}

/-- **Owners are recorded**: a run has a lifecycle row exactly when its
fire recorded an owner, and the row keeps the owner recorded. -/
theorem owned_iff_row {tr : List (System.Event ReplyState Commit)} {r : ReplyState}
    (h : (gated cfg).Run {} tr r) (run : Uuid) (appName : String) :
    OwnedAtFire tr run appName ↔
      ∃ row, r.store.getRunState run = some row ∧ row.appName = appName := by
  refine story_induction (J := fun tr r => OwnedAtFire tr run appName ↔
    ∃ row, r.store.getRunState run = some row ∧ row.appName = appName) h ?_ ?_
  · constructor
    · rintro ⟨e, he, -⟩
      cases he
    · rintro ⟨row, hrow, -⟩
      cases hrow
  · intro tr r c hrun hs hg hstory ih
    have hrun := hstory run
    constructor
    · rintro ⟨e, he, f, hf, howner, hold, hnew⟩
      rcases List.mem_append.mp he with he | he
      · obtain ⟨row, hrow, happ⟩ := ih.mp ⟨e, he, f, hf, howner, hold, hnew⟩
        rw [hrow] at hrun
        obtain ⟨row', hrow', -, happ'⟩ := hrun.kept
        exact ⟨row', hrow', happ'.trans happ⟩
      · obtain rfl := List.mem_singleton.mp he
        obtain rfl : c = .fire f := hf
        rcases Commit.fired cfg hs hg with hsame | ⟨claim, hfired, hfs⟩
        · rw [hsame, hold] at hnew
          cases hnew
        · obtain rfl := hfired.runId_eq hold hnew
          exact hfs.opens appName howner
    · rintro ⟨row, hrow, happ⟩
      cases hbefore : r.store.getRunState run with
      | some row₀ =>
        rw [hbefore] at hrun
        obtain ⟨row', hrow', -, happ'⟩ := hrun.kept
        obtain rfl := Option.some.inj (hrow.symm.trans hrow')
        exact (ih.mpr ⟨row₀, hbefore, happ'.symm.trans happ⟩).append _
      | none =>
        rw [hbefore, hrow] at hrun
        generalize linesOf run _ = ls at hrun
        cases hrun with
        | @opened f app row hf howner hclaim _ happ' _ _ _ _ =>
          subst hf
          refine ⟨_, List.mem_append_right _ List.mem_cons_self, f, rfl, ?_, hclaim, ?_⟩
          · rw [howner, ← happ', happ]
          · rcases Commit.fired cfg hs hg with hsame | ⟨claim, hfired, hfs⟩
            · rw [hsame, hbefore] at hrow
              cases hrow
            · obtain rfl := hfs.fresh run hbefore (by rw [hrow]; rfl)
              rw [hfired.claimed.1]
              rfl

/-- A reply that is applied, or that changes a lifecycle field of any run,
carries the name of the app that the fire of its run recorded. -/
def OwnerOnly (cfg : FireConfig) (timer : Timer) (doc : ReplyDocument) (digest : String)
    (nowWall monoNow utc : Int) (tr : List (System.Event ReplyState Commit)) (r : ReplyState) :
    Prop :=
  ∀ out r', (ingest cfg.reply timer doc digest nowWall monoNow utc).run r = (.ok out, r') →
    (out = .applied ∨ ∃ run, (r'.store.getRunState run).map RunStateRow.lifecycle ≠
      (r.store.getRunState run).map RunStateRow.lifecycle) →
    ∃ run appName, doc.runId = some run ∧ doc.appName = some appName ∧
      OwnedAtFire tr run appName

/-- **Replies belong to the owner** for exactly the replies that are
accepted by a run with a lifecycle row, or by none. -/
theorem owner_only_iff {timer : Timer} {doc : ReplyDocument} {digest : String}
    {nowWall monoNow utc : Int} {tr : List (System.Event ReplyState Commit)} {r : ReplyState}
    (h : (gated cfg).Run {} tr r) :
    OwnerOnly cfg timer doc digest nowWall monoNow utc tr r ↔
      ∀ run, Accepted cfg.reply timer doc nowWall monoNow r.store run →
        (r.store.getRunState run).isSome := by
  have hs := wf_of_reached (ledger_of_gated h)
  constructor
  · intro honly run haccepted
    by_contra hnone
    rw [Option.not_isSome_iff_eq_none] at hnone
    obtain ⟨out, r', -, hrun, -, -, -, happlied⟩ :=
      @ingest_rowless cfg.reply timer doc digest nowWall monoNow utc run r hs hnone
        (.inr haccepted)
    obtain ⟨newState, appName, claim, haddr, hcur, -⟩ := haccepted
    obtain ⟨run', appName', hdoc, -, howned⟩ := honly out r' hrun (.inl (happlied hcur))
    obtain rfl := Option.some.inj (hdoc.symm.trans (runId_of_validate haddr.valid).1)
    obtain ⟨row, hrow, -⟩ := (owned_iff_row h _ _).mp howned
    rw [hnone] at hrow
    cases hrow
  · intro hrows out r' hrun hchange
    obtain ⟨hing, -⟩ := wp_ok (ingest_ingested hs utc) hrun
    generalize r'.store = s' at hing hchange
    -- Apart from an applied reply, lifecycle fields stay as they are.
    have hsame : ∀ {P : Prop}, out ≠ .applied → (∀ run', (s'.getRunState run').map
        RunStateRow.lifecycle = (r.store.getRunState run').map RunStateRow.lifecycle) → P := by
      intro P hout hkeep
      rcases hchange with happ | ⟨run', hne⟩
      · exact absurd happ hout
      · exact absurd (hkeep run') hne
    cases hing with
    | unaddressed _ _ => exact hsame nofun fun _ => rfl
    | refused _ _ _ _ => exact hsame nofun fun _ => rfl
    | known _ _ _ => exact hsame nofun fun _ => rfl
    | duplicate _ _ _ _ => exact hsame nofun fun _ => rfl
    | lateRowless _ _ _ _ => exact hsame nofun fun _ => rfl
    | @late run newState appName claim row evs _ _ hrow _ _ =>
      exact hsame nofun (lifecycle_wrote_digest (s := r.store.logged evs) digest hrow)
    | @applied run newState appName claim row evs watchdog haddr hcur hbuilt hok _ harm _ =>
      obtain ⟨stored, hrow⟩ := Option.isSome_iff_exists.mp
        (hrows run ⟨newState, appName, claim, haddr, hcur, hbuilt ▸ hok, hbuilt ▸ harm⟩)
      rw [currentRow_of_some (haddr.runId_eq ▸ hrow)] at hbuilt
      subst hbuilt
      obtain ⟨hdoc, happ⟩ := runId_of_validate haddr.valid
      exact ⟨run, appName, hdoc, happ,
        (owned_iff_row h run appName).mpr ⟨row, hrow, (appName_of_refuses hok).symm⟩⟩

end

section Sample

attribute [local instance] Calendar.utcOnly

/-- A fire of a timer that an app owns, and the reply of that app. -/
theorem owner_only_owned :
    let cs := [.createTimer (.sample .skip) 0, .setTimerOwner ⟨0⟩ "app", .fire (.owned (60 * NS))]
    OwnerOnly .sample (.sample .skip) doneReply "digest" (61 * NS) (61 * NS) (61 * NS)
      (System.trace (fun r c => Commit.after .sample c r) {} cs)
      (cs.foldl (fun r c => Commit.after .sample c r) {}) := by
  have hrun := @run_gated _ .sample {} [.createTimer (.sample .skip) 0,
    .setTimerOwner ⟨0⟩ "app", .fire (.owned (60 * NS))]
    ⟨trivial, trivial, Firing.gated_of_barrier rfl (by decide +kernel), trivial⟩
  refine (owner_only_iff hrun).mpr fun run h => ?_
  obtain ⟨_, _, _, haddr, -⟩ := h
  obtain rfl : run = ⟨1⟩ := (Option.some.inj (runId_of_validate haddr.valid).1).symm
  decide +kernel

/-- A timer that no app owns fires, and a reply in the name of "app" is
applied to its run. -/
theorem not_owner_only :
    ¬∀ (timer : Timer) (doc : ReplyDocument) (digest : String) (nowWall monoNow utc : Int) tr r,
      (gated .sample).Run {} tr r →
        OwnerOnly .sample timer doc digest nowWall monoNow utc tr r := by
  intro h
  have hrun := @run_gated _ .sample {} [.createTimer (.sample .skip) 0,
    .fire (.sample .skip (60 * NS))]
    ⟨trivial, Firing.gated_of_barrier rfl (by decide +kernel), trivial⟩
  obtain ⟨run, appName, -, -, e, he, f, hf, howner, -⟩ :=
    h (.sample .skip) doneReply "digest" (61 * NS) (61 * NS) (61 * NS) _ _ hrun .applied _
      (Prod.ext (by decide +kernel) rfl) (.inl rfl)
  rcases List.mem_cons.mp he with rfl | he
  · cases hf
  · rcases List.mem_cons.mp he with rfl | he
    · obtain rfl := Commit.fire.inj hf
      cases howner
    · cases he

end Sample

end Bellman

/-
Bellman/Outcome.lean

The outcome of a claim and the event that reports it.

A claim is finished in six places.  Five of them enqueue its outcome event
in the transaction that finishes it; `finish_run` by itself enqueues none.
Over a whole run every claim has one outcome, once and for good, reported
by one event of the same transaction — exactly when no commit of the run
finishes an open claim by `finish_run` alone.

Main results: `outcomes_reported_iff`, and a run in which the pump closes
the pending claim of a deleted timer and nothing reports it.
-/
import Bellman.Commit

namespace Bellman

open ProgramLogic Prog ReplyM

/-- The events that one step put in the outbox. -/
def enqueued (e : System.Event ReplyState Commit) : List EventRecord :=
  e.post.store.eventOutbox.drop e.pre.store.eventOutbox.length

/-- The step moves the claim from having no outcome to having one. -/
def finishes (run : Uuid) (e : System.Event ReplyState Commit) : Bool :=
  (e.pre.store.outcomeOf run).isNone && (e.post.store.outcomeOf run).isSome

/-- Every claim finishes at most once and keeps its outcome, and the
transaction that finishes it enqueues one outcome event for it, of the kind
of the outcome; no other transaction enqueues any. -/
structure OutcomesReported (tr : List (System.Event ReplyState Commit)) (s : ReplyState) :
    Prop where
  same_tx : ∀ e ∈ tr, ∀ run,
    outcomesOf run (enqueued e) = owed e.pre.store e.post.store run
  lasting : ∀ e ∈ tr, ∀ run r, e.post.store.getRun run = some r → r.status = .finished →
    s.store.getRun run = some r
  transitions : ∀ run, tr.countP (finishes run) = (s.store.outcomeOf run).toList.length
  once : ∀ run, tr.flatMap (fun e => outcomesOf run (enqueued e)) =
    (s.store.outcomeOf run).toList.map RunOutcome.event

section

variable [Calendar] {cfg : FireConfig}

/-- A step that finishes nothing bare keeps finished claims, and enqueues
the events owed. -/
theorem step_reported (cfg : FireConfig) {r : ReplyState} {c : Commit} (hs : r.store.Wf)
    (hc : c.finishesBare r.store = false) :
    (∀ run q, r.store.getRun run = some q → q.status = .finished →
      (c.after cfg r).store.getRun run = some q) ∧
    ∀ run, outcomesOf run (enqueued ⟨r, c, c.after cfg r⟩) =
      owed r.store (c.after cfg r).store run := by
  by_cases hpub : ∃ id, c = .markEventPublished id
  · obtain ⟨id, rfl⟩ := hpub
    have hout : (Commit.after cfg (.markEventPublished id) r).store.eventOutbox =
      r.store.eventOutbox.filter fun e => e.eventId ≠ id := rfl
    have hdrop :
        enqueued ⟨r, .markEventPublished id, Commit.after cfg (.markEventPublished id) r⟩ = [] := by
      unfold enqueued
      rw [hout]
      exact List.drop_eq_nil_of_le (List.length_filter_le _ _)
    refine ⟨fun run q h _ => h, fun run => ?_⟩
    rw [hdrop]
    exact (owed_eq_nil rfl).symm
  · have a := Commit.audited cfg hc (fun id h => hpub ⟨id, h⟩) hs
    obtain ⟨evs, he, hk⟩ := a.events
    refine ⟨a.frozen, fun run => ?_⟩
    have hevs : enqueued ⟨r, c, c.after cfg r⟩ = evs := by
      unfold enqueued
      rw [he, List.drop_left]
    rw [hevs, hk]

/-- A claim finished bare is owed an event, and gets none. -/
theorem not_reported_of_finishRun {r : ReplyState} (hs : r.store.Wf) (how : BareClose)
    {run : Uuid} (utc : Int) (ho : r.store.isOpen run = true) :
    outcomesOf run (enqueued ⟨r, .finishRun how run utc,
        Commit.after cfg (.finishRun how run utc) r⟩) ≠
      owed r.store (Commit.after cfg (.finishRun how run utc) r).store run := by
  obtain ⟨q, hq, hu⟩ := Store.isOpen_iff.mp ho
  have hafter : (Commit.after cfg (.finishRun how run utc) r).store =
      { r.store with runs := r.store.runs.map (finishRow run how.outcome how.reason utc) } := by
    refine after_of_wp (P := fun r' => r'.store = _) ?_
    simp only [Commit.prog, wp_bind, wp_pure, wp_onStore]
    exact finishRun_spec hs run _ _ utc
  have hnone : r.store.outcomeOf run = none := by
    by_contra h
    have hf := (Store.outcomeOf_isSome_iff hs).mp (Option.isSome_iff_ne_none.mpr h)
    rw [hq] at hf
    obtain ⟨_, he, hf⟩ := hf
    obtain rfl := Option.some.inj he
    simp [RunClaim.isUnfinished, hf] at hu
  have hsome : (Commit.after cfg (.finishRun how run utc) r).store.outcomeOf run =
      some how.outcome := by
    rw [hafter]
    refine (congrArg (Option.bind · RunClaim.outcome)
      (Store.getRun_map (key_finishRow run how.outcome how.reason utc) run)).trans ?_
    simp [hq, finishRow, (Store.getRun_mem hq).2, hu, RunClaim.finish]
  have hnil : enqueued ⟨r, .finishRun how run utc, Commit.after cfg (.finishRun how run utc) r⟩ =
      [] := by
    unfold enqueued
    rw [hafter, List.drop_length]
  rw [hnil, owed, hnone, hsome]
  simp [outcomesOf]

theorem OutcomesReported.snoc {tr : List (System.Event ReplyState Commit)} {r : ReplyState}
    {c : Commit} (h : OutcomesReported tr r) (hs : r.store.Wf)
    (hc : c.finishesBare r.store = false) :
    OutcomesReported (tr ++ [⟨r, c, c.after cfg r⟩]) (c.after cfg r) := by
  obtain ⟨hfrozen, hsame⟩ := step_reported cfg hs hc
  have hkeep : ∀ run o, r.store.outcomeOf run = some o →
      (c.after cfg r).store.outcomeOf run = some o := by
    intro run o ho
    obtain ⟨q, hq, hf⟩ := (Store.outcomeOf_isSome_iff hs).mp (by rw [ho]; rfl)
    unfold Store.outcomeOf at ho ⊢
    rwa [hfrozen run q hq hf, ← hq]
  constructor
  · intro e he run
    rcases List.mem_append.mp he with he | he
    · exact h.same_tx e he run
    · obtain rfl := List.mem_singleton.mp he
      exact hsame run
  · intro e he run q hq hf
    rcases List.mem_append.mp he with he | he
    · exact hfrozen run q (h.lasting e he run q hq hf) hf
    · obtain rfl := List.mem_singleton.mp he
      exact hq
  · intro run
    rw [List.countP_append, h.transitions, List.countP_singleton]
    unfold finishes
    cases ho : r.store.outcomeOf run with
    | some o => simp [hkeep run o ho]
    | none => cases (c.after cfg r).store.outcomeOf run <;> simp
  · intro run
    rw [List.flatMap_append, h.once, List.flatMap_singleton, hsame, owed]
    cases ho : r.store.outcomeOf run with
    | some o => simp [hkeep run o ho]
    | none => cases (c.after cfg r).store.outcomeOf run <;> simp

/-- **Outcomes are reported** in exactly the runs that never finish an open
claim by `finish_run` alone. -/
theorem outcomes_reported_iff {tr : List (System.Event ReplyState Commit)} {r : ReplyState}
    (h : (ledger cfg).Run {} tr r) :
    OutcomesReported tr r ↔ ∀ e ∈ tr, e.label.finishesBare e.pre.store = false := by
  constructor
  · intro hrep e he
    obtain ⟨hstep, tr', hpre, _⟩ := h.mem he
    obtain ⟨pre, label, post⟩ := e
    obtain rfl : post = label.after cfg pre := hstep
    cases label with
    | finishRun how run utc =>
      by_contra ho
      exact not_reported_of_finishRun (wf_of_reached hpre) how utc (Bool.eq_true_of_not_eq_false ho)
        (hrep.same_tx _ he run)
    | _ => rfl
  · refine h.trace_induction (J := fun tr r =>
      (∀ e ∈ tr, e.label.finishesBare e.pre.store = false) → OutcomesReported tr r) ?_ ?_
    · exact fun _ => ⟨by simp, by simp, fun _ => rfl, fun _ => rfl⟩
    · intro tr r c r' hrun hstep ih hbare
      obtain rfl : r' = c.after cfg r := hstep
      have hprev := ih fun e he => hbare e (List.mem_append_left _ he)
      exact hprev.snoc (wf_of_reached hrun)
        (hbare _ (List.mem_append_right _ (List.mem_singleton.mpr rfl)))

end

section Sample

attribute [local instance] Calendar.utcOnly

/-- A run whose worker delivers its claim. -/
theorem outcomes_reported_delivered :
    let cs := [.createTimer (.sample .skip) 0, .fire (.sample .skip (60 * NS)), .activateRun ⟨1⟩,
      .finishClaim ((Store.newClaim {} ⟨1⟩ ⟨0⟩ (60 * NS) (60 * NS))) "tick" (.delivered "ok" 1)
        (61 * NS)]
    OutcomesReported (System.trace (fun r c => Commit.after .sample c r) {} cs)
      (cs.foldl (fun r c => Commit.after .sample c r) {}) :=
  (outcomes_reported_iff (run_commits .sample _)).mpr (by decide +kernel)

/-- A timer is deleted while its claim is pending, and the pump closes the
claim: it is finished, and no event says so. -/
theorem not_outcomes_reported : ¬∀ tr r, (ledger .sample).Run {} tr r → OutcomesReported tr r := by
  intro h
  have hrun := run_commits .sample [.createTimer (.sample .skip) 0,
    .fire (.sample .skip (60 * NS)), .deleteTimerLifecycle (.sample .skip) none (61 * NS),
    .finishRun .timerDeleted ⟨1⟩ (62 * NS)]
  have honce := (h _ _ hrun).once ⟨1⟩
  revert honce
  decide +kernel

end Sample

end Bellman

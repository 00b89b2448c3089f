/-
Bellman/Stranded.lean

Active claims and their workers.

Recovery at startup puts every active claim back to pending.  After it, as
long as the owner lives, a claim is active because a worker has won it, and
the worker ends with one transaction on it: its result, or the claim put
back to pending after a panic or a failed read of the timer.  That
transaction may fail; the failure is logged or dropped, and the worker
leaves the lane all the same.  The pump reads pending claims only, so that
nobody looks at the claim again.

    Attended d    each active claim has a worker that is yet to commit on it
    Loses d a     the step is the last of a worker, its transaction fails,
                  and the claim is still active

Main result: in the life of one owner, every active claim is attended, and
every claim whose worker leaves its lane is finished or pending, if and only
if no step loses a claim (`no_claim_stranded`).  A result that cannot be
committed once leaves its claim active for good (`claim_stranded`).
-/
import Bellman.Order

namespace Bellman

open ProgramLogic

/-! ### The life of an owner -/

namespace Dispatch

/-- A step of the dispatcher while its owner lives. -/
def live [Calendar] (cfg : DispatchConfig) (d : Dispatch) : Act → Option Dispatch
  | .die | .startup => none
  | a => d.next cfg a

/-- The runs that a worker has won and is yet to commit on. -/
def working (d : Dispatch) : List Uuid := d.executing.map (·.runId)

/-- Every active claim has a worker that is yet to commit on it. -/
def Attended (d : Dispatch) : Prop :=
  ∀ r ∈ d.reply.store.runs, r.status = .active → r.runId ∈ d.working

instance {d : Dispatch} : Decidable d.Attended :=
  inferInstanceAs (Decidable (∀ r ∈ d.reply.store.runs, _))

/-- The claim of a worker whose last transaction fails. -/
def givesUp (d : Dispatch) : Act → Option RunClaim
  | .finish i _ false _ | .panic i false =>
    match d.jobs[i]? with
    | some (.executing claim _) => some claim
    | _ => none
  | .loadTimer i ok false _ =>
    match d.jobs[i]? with
    | some (.entered claim) =>
      if ok && (d.reply.store.getTimer claim.timerId).isSome then none else some claim
    | _ => none
  | _ => none

/-- The last transaction of a worker fails, and its claim is active. -/
def loses (d : Dispatch) (a : Act) : Bool :=
  (d.givesUp a).any fun claim =>
    (d.reply.store.getRun claim.runId).any (·.status == .active)

end Dispatch

/-- The life of one owner, from any well-formed database: recovery has put
the active claims back to pending. -/
def owner [Calendar] (cfg : DispatchConfig) : System Dispatch Act where
  init d := ∃ store : Store, store.Wf ∧
    d = ({ reply := { store } } : Dispatch).after cfg .rependAllActive
  step d a d' := d.live cfg a = some d'

/-- After the step each active claim has a worker that is yet to commit on
it; and the claim of a worker that leaves its lane is finished or pending. -/
structure NotStranded (e : System.Event Dispatch Act) : Prop where
  attended : e.post.Attended
  released : ∀ i claim, e.label = .leave i → e.pre.jobs[i]? = some (.leaving claim) →
    ∀ row, e.post.reply.store.getRun claim.runId = some row →
      row.status = .finished ∨ row.status = .pending

/-! ### What a commit leaves active -/

/-- The commit is the last of a worker on the run. -/
inductive Commit.Ends (run : Uuid) : Commit → Prop
  | finish (claim : RunClaim) (name : String) (e : JobEnd) (utc : Int) : claim.runId = run →
      Ends run (.finishClaim claim name e utc)
  | repend : Ends run (.rependRun run)

section Active

variable [Calendar]

omit [Calendar] in
theorem Commit.Ends.status {c : Commit} {r : RunClaim} (h : c.Ends r.runId) :
    (c.row r).status ≠ .active := by
  cases h with
  | finish claim name e utc hid =>
    show (if r.runId == claim.runId && r.isUnfinished then _ else r).status ≠ _
    split
    · intro hst
      cases hst
    · next hcond =>
      intro hst
      rw [RunClaim.isUnfinished, hst, hid] at hcond
      simp at hcond
  | repend =>
    show (if r.runId == r.runId && r.status == .active then _ else r).status ≠ _
    split
    · intro hst
      cases hst
    · next hcond =>
      intro hst
      simp [hst] at hcond

/-- A row that a commit leaves active was active before, and the commit is
not the last of its worker; or it has just been activated. -/
theorem active_after (cfg : FireConfig) (c : Commit) {r : ReplyState} (hs : r.store.Wf)
    {q' : RunClaim} (hq' : q' ∈ (c.after cfg r).store.runs) (hst : q'.status = .active) :
    ∃ q ∈ r.store.runs, q.runId = q'.runId ∧
      (q.status = .active ∧ ¬c.Ends q.runId ∨ q.status = .pending ∧ c = .activateRun q.runId) := by
  have heff := Commit.effect cfg c hs
  have hsame : (∀ run, ¬c.Ends run) → q' ∈ r.store.runs → ∃ q ∈ r.store.runs,
      q.runId = q'.runId ∧
      (q.status = .active ∧ ¬c.Ends q.runId ∨ q.status = .pending ∧ c = .activateRun q.runId) :=
    fun hc hq => ⟨q', hq, rfl, .inl ⟨hst, hc _⟩⟩
  -- A commit that claims nothing changes each row by itself.
  have hrow : (c.after cfg r).store.runs = r.store.runs.map c.row → ∃ q ∈ r.store.runs,
      q.runId = q'.runId ∧
      (q.status = .active ∧ ¬c.Ends q.runId ∨
        q.status = .pending ∧ c = .activateRun q.runId) := by
    intro hruns
    rw [hruns] at hq'
    obtain ⟨q, hq, rfl⟩ := List.mem_map.mp hq'
    have hends : ¬c.Ends q.runId := fun he => he.status hst
    refine ⟨q, hq, (RunClaim.runId_of_key (key_row c q)).symm, ?_⟩
    have hstep := rowStep_row c q
    generalize c.row q = q₁ at hstep hst
    cases hstep with
    | stay => exact .inl ⟨hst, hends⟩
    | activate hc hpending => exact .inr ⟨hpending, hc⟩
    | repend _ _ => cases hst
    | finish _ _ _ _ => cases hst
  cases c with
  | claimRun timerId scheduledFor now =>
    rcases heff with hruns | ⟨_, hruns⟩
    · exact hsame nofun (hruns ▸ hq')
    · rw [hruns] at hq'
      rcases List.mem_append.mp hq' with hq' | hq'
      · exact hsame nofun hq'
      · obtain rfl := List.mem_singleton.mp hq'
        cases hst
  | fire f =>
    rcases heff with hruns | ⟨claim, hfired⟩
    · exact hsame nofun (hruns ▸ hq')
    · obtain ⟨u, _, _, hruns⟩ := hfired.ledger
      rw [hruns] at hq'
      obtain ⟨x, hx, rfl⟩ := List.mem_map.mp hq'
      have hkey := key_dispose f.timer u (r.store.openClaims f.timer.id).length f.utc x
      have hactive : x.status = .active := status_dispose nofun hst
      rcases List.mem_append.mp hx with hx | hx
      · exact ⟨x, hx, (RunClaim.runId_of_key hkey).symm, .inl ⟨hactive, nofun⟩⟩
      · -- The claim of the fire comes in pending.
        obtain rfl := List.mem_singleton.mp hx
        cases hactive
  | _ => exact hrow heff

end Active

/-! ### The invariant, step by step -/

namespace Dispatch

variable {d : Dispatch} {i : Nat} {job job' : Job}

theorem working_perm (hjob : d.jobs[i]? = some job) :
    d.working.Perm (((job :: d.jobs.eraseIdx i).filterMap Job.running).map (·.runId)) :=
  ((perm_of_job hjob).filterMap Job.running).map _

theorem working_become_perm : (d.become i job').working.Perm
    (((job' :: d.jobs.eraseIdx i).filterMap Job.running).map (·.runId)) :=
  ((perm_become i job').filterMap Job.running).map _

/-- A worker that goes on with the same claim. -/
theorem mem_working_become (hjob : d.jobs[i]? = some job) (h : job'.running = job.running)
    {run : Uuid} : run ∈ (d.become i job').working ↔ run ∈ d.working := by
  rw [working_become_perm.mem_iff, (working_perm hjob).mem_iff, List.filterMap_cons,
    List.filterMap_cons, h]

/-- A worker that starts on a claim. -/
theorem mem_working_start (hjob : d.jobs[i]? = some job) (hidle : job.running = none)
    {c : RunClaim} (h : job'.running = some c) {run : Uuid} :
    run ∈ (d.become i job').working ↔ run = c.runId ∨ run ∈ d.working := by
  rw [working_become_perm.mem_iff, (working_perm hjob).mem_iff, List.filterMap_cons,
    List.filterMap_cons, h, hidle, List.map_cons, List.mem_cons]

/-- A worker that is done with its claim. -/
theorem mem_working_stop (hjob : d.jobs[i]? = some job) {c : RunClaim}
    (hrun : job.running = some c) (h : job'.running = none) {run : Uuid} :
    run ∈ d.working ↔ run = c.runId ∨ run ∈ (d.become i job').working := by
  rw [working_become_perm.mem_iff, (working_perm hjob).mem_iff, List.filterMap_cons,
    List.filterMap_cons, h, hrun, List.map_cons, List.mem_cons]

theorem mem_working_retire (hjob : d.jobs[i]? = some job) (h : job.running = none) {run : Uuid} :
    run ∈ (d.retire i).working ↔ run ∈ d.working := by
  rw [(working_perm hjob).mem_iff, List.filterMap_cons, h]
  exact Iff.rfl

end Dispatch

namespace Dispatch.Attended

variable {d d' : Dispatch}

/-- Where no claim becomes active and no worker stops. -/
theorem mono (h : d.Attended) (hruns : ∀ r ∈ d'.reply.store.runs, r.status = .active →
      ∃ q ∈ d.reply.store.runs, q.runId = r.runId ∧ q.status = .active)
    (hwork : ∀ run ∈ d.working, run ∈ d'.working) : d'.Attended := by
  intro r hr hst
  obtain ⟨q, hq, hid, hqst⟩ := hruns r hr hst
  exact hid ▸ hwork _ (h q hq hqst)

/-- The store is as it was. -/
theorem of_working (h : d.Attended) (hreply : d'.reply = d.reply)
    (hwork : ∀ run ∈ d.working, run ∈ d'.working) : d'.Attended :=
  h.mono (fun r hr hst => ⟨r, hreply ▸ hr, rfl, hst⟩) hwork

/-- A worker goes on with the same claim, or without one. -/
theorem become (h : d.Attended) {i : Nat} {job job' : Job} (hjob : d.jobs[i]? = some job)
    (hrun : job'.running = job.running) : (d.become i job').Attended :=
  h.of_working rfl fun _ => (Dispatch.mem_working_become hjob hrun).mpr

theorem retire (h : d.Attended) {i : Nat} {job : Job} (hjob : d.jobs[i]? = some job)
    (hrun : job.running = none) : (d.retire i).Attended :=
  h.of_working rfl fun _ => (Dispatch.mem_working_retire hjob hrun).mpr

/-- An idle worker takes a hint. -/
theorem recv (h : d.Attended) (run : Uuid) (queue : List Uuid) :
    Attended { d with queue, jobs := d.jobs ++ [.hinted run] } := by
  have hrunning : (d.jobs ++ [Job.hinted run]).filterMap Job.running = d.executing := by
    rw [List.filterMap_append]
    exact List.append_nil _
  refine h.of_working rfl fun r hr => ?_
  show r ∈ ((d.jobs ++ [Job.hinted run]).filterMap Job.running).map (·.runId)
  rwa [hrunning]

end Dispatch.Attended

section Steps

variable [Calendar] {cfg : DispatchConfig} {d d' : Dispatch}

namespace Dispatch.Attended

/-- A commit that activates nothing. -/
theorem after (h : d.Attended) (hl : LaneInv d) (c : Commit)
    (hc : ∀ run, c ≠ .activateRun run) : (d.after cfg c).Attended := by
  refine h.mono (fun r hr hst => ?_) fun _ hrun => hrun
  obtain ⟨q, hq, hid, ⟨hqst, -⟩ | ⟨-, he⟩⟩ := active_after cfg.fire c hl.wf hr hst
  · exact ⟨q, hq, hid, hqst⟩
  · exact absurd he (hc _)

theorem afterIf (h : d.Attended) (hl : LaneInv d) (ok : Bool) (c : Commit)
    (hc : ∀ run, c ≠ .activateRun run) : (d.afterIf cfg ok c).Attended := by
  cases ok with
  | false => exact h
  | true => exact h.after hl c hc

/-- The swap, won: the worker starts on the claim that became active. -/
theorem won (h : d.Attended) (hl : LaneInv d) {i : Nat} {claim : RunClaim}
    (hjob : d.jobs[i]? = some (.loaded claim)) :
    ((d.after cfg (.activateRun claim.runId)).become i (.won claim)).Attended := by
  intro r hr hst
  refine (Dispatch.mem_working_start (d := d.after cfg (.activateRun claim.runId)) hjob rfl
    rfl).mpr ?_
  obtain ⟨q, hq, hid, ⟨hqst, -⟩ | ⟨-, he⟩⟩ := active_after cfg.fire _ hl.wf hr hst
  · exact .inr (hid ▸ h q hq hqst)
  · exact .inl (hid.symm.trans (Commit.activateRun.inj he).symm)

/-- The swap, lost: the claim was not pending. -/
theorem lost (h : d.Attended) (hl : LaneInv d) {run : Uuid}
    (hrow : ∀ row, d.reply.store.getRun run = some row → row.status ≠ .pending) :
    (d.after cfg (.activateRun run)).Attended := by
  refine h.mono (fun r hr hst => ?_) fun _ hrun => hrun
  obtain ⟨q, hq, hid, ⟨hqst, -⟩ | ⟨hqst, he⟩⟩ := active_after cfg.fire _ hl.wf hr hst
  · exact ⟨q, hq, hid, hqst⟩
  · rw [Commit.activateRun.inj he] at hrow
    exact absurd hqst (hrow q (hl.wf.getRun_of_mem hq))

/-- The last transaction of a worker: committed, it takes the claim out of
active; and one that fails must not find it active. -/
theorem leaving (h : d.Attended) (hl : LaneInv d) {i : Nat} {job : Job} {claim : RunClaim}
    (hjob : d.jobs[i]? = some job) (hrun : job.running = some claim) {ok : Bool} {c : Commit}
    (hends : c.Ends claim.runId)
    (hkeeps : ok = false → ∀ row, d.reply.store.getRun claim.runId = some row →
      row.status ≠ .active) :
    ((d.afterIf cfg ok c).become i (.leaving claim)).Attended := by
  have hstop : ∀ {run}, run ∈ d.working → run ≠ claim.runId →
      run ∈ (d.become i (.leaving claim)).working := fun hmem hne =>
    ((Dispatch.mem_working_stop hjob hrun rfl).mp hmem).resolve_left hne
  intro r hr hst
  cases ok with
  | false =>
    refine hstop (h r hr hst) fun hid => ?_
    exact hkeeps rfl r (hid ▸ hl.wf.getRun_of_mem hr) hst
  | true =>
    obtain ⟨q, hq, hid, ⟨hqst, hnot⟩ | ⟨-, he⟩⟩ := active_after cfg.fire c hl.wf hr hst
    · rw [← hid]
      exact hstop (h q hq hqst) fun he => hnot (he ▸ hends)
    · rw [he] at hends
      cases hends

end Dispatch.Attended

theorem Dispatch.next_of_live {a : Act} (h : d.live cfg a = some d') : d.next cfg a = some d' := by
  cases a <;> first | exact h | cases h

omit [Calendar] in
theorem Dispatch.loses_of_givesUp {a : Act} {claim row : RunClaim}
    (h : d.givesUp a = some claim) (hrow : d.reply.store.getRun claim.runId = some row) :
    d.loses a = true ↔ row.status = .active := by
  rw [loses, h, Option.any_some, hrow, Option.any_some, beq_iff_eq]

/-- **Step.**  A step that loses no claim keeps every active claim
attended. -/
theorem Dispatch.Attended.next (h : d.Attended) (hl : LaneInv d) {a : Act}
    (hstep : d.live cfg a = some d') (hkeeps : d.loses a = false) : d'.Attended := by
  -- A worker gives its claim up with the row not active.
  have hrow {claim} (hgives : d.givesUp a = some claim) :
      ∀ row, d.reply.store.getRun claim.runId = some row → row.status ≠ .active := by
    intro row hrow hst
    rw [(loses_of_givesUp hgives hrow).mpr hst] at hkeeps
    cases hkeeps
  cases step_of_next (next_of_live hstep) with
  | commit c hc _ => exact h.after hl c fun run => (hc run).1
  | die => cases hstep
  | startup => cases hstep
  | @orphan _ claim _ _ ok utc _ _ =>
    have hafter : (d.afterIf cfg ok (.finishRun .timerDeleted claim.runId utc)).Attended :=
      h.afterIf hl ok _ nofun
    cases ok <;> exact hafter
  | recv _ => exact h.recv _ _
  | load i ok hjob _ _ => exact h.become hjob rfl
  | loadStale i ok hjob => exact h.become hjob rfl
  | won i hjob _ _ => exact h.won hl hjob
  | @lost claim i hjob hlost =>
    have hafter : (d.after cfg (.activateRun claim.runId)).Attended := h.lost hl hlost
    exact hafter.become hjob rfl
  | activateError i hjob => exact h.become hjob rfl
  | release i hjob _ => exact h.retire hjob rfl
  | enter i hjob _ => exact h.become hjob rfl
  | execute i committed utc hjob _ => exact h.become hjob rfl
  | deleted i committed utc hjob hnone =>
    refine h.leaving hl hjob rfl (.finish _ _ _ _ rfl) fun hfail => hrow ?_
    subst hfail
    simp [givesUp, hjob, hnone]
  | reloadError i committed utc hjob =>
    refine h.leaving hl hjob rfl .repend fun hfail => hrow ?_
    subst hfail
    simp [givesUp, hjob]
  | finish i e ok utc hjob =>
    refine h.leaving hl hjob rfl (.finish _ _ _ _ rfl) fun hfail => hrow ?_
    subst hfail
    simp [givesUp, hjob]
  | panic i ok hjob =>
    refine h.leaving hl hjob rfl .repend fun hfail => hrow ?_
    subst hfail
    simp [givesUp, hjob]
  | leave i hjob _ => exact h.retire hjob rfl
  | _ => exact h.of_working rfl fun _ hrun => hrun

/-- A transaction that fails leaves the store as it is, and the worker is on
its way out. -/
theorem Dispatch.next_givesUp {a : Act} {claim : RunClaim} (h : d.givesUp a = some claim)
    (hstep : d.live cfg a = some d') : ∃ i job, d.jobs[i]? = some job ∧
      job.running = some claim ∧ d' = d.become i (.leaving claim) := by
  cases step_of_next (next_of_live hstep) with
  | execute i committed utc hjob hsome =>
    cases committed <;> simp [givesUp, hjob, hsome] at h
  | deleted i committed utc hjob hnone =>
    cases committed with
    | true => cases h
    | false =>
      obtain rfl : _ = claim := by simpa [givesUp, hjob, hnone] using h
      exact ⟨i, _, hjob, rfl, rfl⟩
  | reloadError i committed utc hjob =>
    cases committed with
    | true => cases h
    | false =>
      obtain rfl : _ = claim := by simpa [givesUp, hjob] using h
      exact ⟨i, _, hjob, rfl, rfl⟩
  | finish i e ok utc hjob =>
    cases ok with
    | true => cases h
    | false =>
      obtain rfl : _ = claim := by simpa [givesUp, hjob] using h
      exact ⟨i, _, hjob, rfl, rfl⟩
  | panic i ok hjob =>
    cases ok with
    | true => cases h
    | false =>
      obtain rfl : _ = claim := by simpa [givesUp, hjob] using h
      exact ⟨i, _, hjob, rfl, rfl⟩
  | _ => cases h

/-- After a step that loses a claim, no worker has it. -/
theorem LaneInv.not_attended (hl : LaneInv d) {a : Act} (hstep : d.live cfg a = some d')
    (hloses : d.loses a = true) : ¬d'.Attended := by
  obtain ⟨claim, hgives, hactive⟩ := (Option.any_eq_true _ _).mp hloses
  obtain ⟨row, hrow, hst⟩ := (Option.any_eq_true _ _).mp hactive
  obtain ⟨hmem, hid⟩ := Store.getRun_mem hrow
  obtain ⟨i, job, hjob, hrun, rfl⟩ := Dispatch.next_givesUp hgives hstep
  intro hatt
  have hin := hatt row hmem (by simpa using hst)
  have hnd := hl.executing_nodup
  have hperm := Dispatch.working_perm hjob
  have hbecome : (d.become i (.leaving claim)).working.Perm _ := Dispatch.working_become_perm
  rw [List.filterMap_cons, hrun, List.map_cons] at hperm
  have hnot := (List.nodup_cons.mp (hperm.nodup_iff.mp hnd)).1
  exact hnot (hid ▸ hbecome.mem_iff.mp hin)

/-- The claim of a worker that leaves is no other worker's. -/
theorem LaneInv.not_working_of_leave (hl : LaneInv d) {i : Nat} {claim : RunClaim}
    (hstep : d.live cfg (.leave i) = some d') (hjob : d.jobs[i]? = some (.leaving claim)) :
    claim.runId ∉ d'.working := by
  obtain ⟨other, -, rfl⟩ : ∃ c, d.jobs[i]? = some (.leaving c) ∧
      d' = { d.retire i with lanes := d.lanes.finishLane c.timerId c.runId } := by
    cases step_of_next (Dispatch.next_of_live hstep) with
    | leave _ hjob' _ => exact ⟨_, hjob', rfl⟩
  have hnd := ((perm_of_job hjob).map Job.run).nodup_iff.mp hl.runs_nodup
  rw [List.map_cons] at hnd
  exact fun hmem => (List.nodup_cons.mp hnd).1 ((Job.sublist_run _).subset hmem)

end Steps

/-! ### The life of an owner -/

section Runs

variable [Calendar] {cfg : DispatchConfig} {d₀ d : Dispatch}
  {tr : List (System.Event Dispatch Act)}

theorem LaneInv.of_owner (h : (owner cfg).init d) : LaneInv d := by
  obtain ⟨store, hs, rfl⟩ := h
  exact (LaneInv.initial hs).after _

/-- Recovery leaves no claim active. -/
theorem attended_of_owner (h : (owner cfg).init d) : d.Attended := by
  obtain ⟨store, hs, rfl⟩ := h
  intro r hr hst
  have hruns : r ∈ (store.runs.map (Commit.row .rependAllActive)) :=
    Commit.effect (r := { store }) cfg.fire .rependAllActive hs ▸ hr
  obtain ⟨q, -, rfl⟩ := List.mem_map.mp hruns
  exfalso
  revert hst
  show (if q.status == .active then _ else q).status ≠ _
  split
  · exact nofun
  · next hnot => exact fun hst => hnot (by simp [hst])

theorem laneInv_of_owner_run (h : (owner cfg).Run d₀ tr d) (h0 : (owner cfg).init d₀) :
    LaneInv d :=
  h.invariant (G := fun _ => True) (fun _ _ => trivial) (LaneInv.of_owner h0)
    fun _ _ _ hstep _ hinv => hinv.next (Dispatch.next_of_live hstep)

/-- **No claim is stranded**, if no worker loses its last transaction: in
the life of an owner every active claim has a worker, and a worker that
leaves its lane leaves its claim finished or pending, if and only if no
step is a failed last transaction on a claim that is active. -/
theorem no_claim_stranded (h : (owner cfg).Run d₀ tr d) (h0 : (owner cfg).init d₀) :
    (∀ e ∈ tr, NotStranded e) ↔ ∀ e ∈ tr, e.pre.loses e.label = false := by
  constructor
  · intro hall e he
    obtain ⟨hstep, tr', hpre, -⟩ := h.mem he
    have hl := laneInv_of_owner_run hpre h0
    exact Bool.eq_false_iff.mpr fun hloses => hl.not_attended hstep hloses (hall e he).attended
  · intro hkeeps e he
    have hinv := h.invariant_steps (I := fun d => LaneInv d ∧ d.Attended) hkeeps
      ⟨LaneInv.of_owner h0, attended_of_owner h0⟩
      fun s a t hstep hkeep hI =>
        ⟨hI.1.next (Dispatch.next_of_live hstep), hI.2.next hI.1 hstep hkeep⟩
    obtain ⟨hstep, ⟨hl, -⟩, -, hatt⟩ := hinv e he
    refine ⟨hatt, fun i claim hlabel hjob row hrow => ?_⟩
    rw [hlabel] at hstep
    cases hst : row.status with
    | pending => exact .inr rfl
    | finished => exact .inl rfl
    | active =>
      -- The row would have another worker.
      obtain ⟨hmem, hid⟩ := Store.getRun_mem hrow
      exact absurd (hid ▸ hatt row hmem hst) (hl.not_working_of_leave hstep hjob)

end Runs

section Sample

attribute [local instance] Calendar.utcOnly

/-- An owner of an empty database. -/
def Dispatch.fresh : Dispatch :=
  ({ reply := { store := {} } } : Dispatch).after .sample .rependAllActive

theorem init_fresh : (owner .sample).init .fresh := ⟨{}, Store.wf_empty, rfl⟩

/-- A timer fires, and a worker takes the claim to its action. -/
def toAction : List Act :=
  [.commit (.createTimer (.sample .skip) 0), .commit (.fire (.sample .skip (60 * NS))),
    .scan [⟨0⟩], .lock, .claim true 0, .unlock, .recv, .load 0 true, .activate 0 true, .enter 0,
    .loadTimer 0 true true 0]

/-- The trace of these steps, from an empty database. -/
def ownerTrace (as : List Act) : List (System.Event Dispatch Act) :=
  System.traceEnabled (fun d a => d.live .sample a) .fresh as

theorem run_owner (as : List Act) : ∃ d, (owner .sample).Run .fresh (ownerTrace as) d :=
  ⟨_, System.run_traceEnabled (fun _ _ _ h => h) _ as⟩

/-- An action that panics, with its claim put back. -/
theorem no_claim_stranded_panicked :
    (ownerTrace (toAction ++ [.panic 0 true, .leave 0])).isEmpty = false ∧
      ∀ e ∈ ownerTrace (toAction ++ [.panic 0 true, .leave 0]), NotStranded e := by
  refine ⟨by decide +kernel, ?_⟩
  obtain ⟨d, hrun⟩ := run_owner (toAction ++ [.panic 0 true, .leave 0])
  exact (no_claim_stranded hrun init_fresh).mpr (by decide +kernel)

/-- The action is done, its result is not committed, and the worker leaves
the lane: the claim is active, no worker is left, and nothing is pending. -/
theorem claim_stranded :
    (¬∀ d₀ tr d, (owner .sample).init d₀ → (owner .sample).Run d₀ tr d →
      ∀ e ∈ tr, NotStranded e) ∧
    ∃ e ∈ ownerTrace (toAction ++ [.finish 0 (.delivered "" 1) false 0, .leave 0]),
      e.post.reply.store.runs.map (·.status) = [.active] ∧ e.post.jobs = [] ∧
        e.post.queue = [] ∧ e.post.reply.store.pendingClaims = [] := by
  refine ⟨fun h => ?_, by decide +kernel⟩
  obtain ⟨d, hrun⟩ := run_owner (toAction ++ [.finish 0 (.delivered "" 1) false 0, .leave 0])
  have hatt : ∀ e ∈ ownerTrace (toAction ++ [.finish 0 (.delivered "" 1) false 0, .leave 0]),
      e.post.Attended := fun e he => (h _ _ _ init_fresh hrun e he).attended
  revert hatt
  decide +kernel

end Sample

end Bellman

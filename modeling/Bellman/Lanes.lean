/-
Bellman/Lanes.lean

Lane mutual exclusion.

The lane book is what keeps executions apart; the status in the ledger is
not needed for it.  A run id is reserved by at most one lane, that of its
claim's timer, and there at most once.  Every hint on its way — in the
queue or in a worker's hands — holds a queued reservation of its own, and
every claim being executed holds an active one.  `LaneInv` says so, and
every step of the system keeps it.

Main results: no claim is executed by two workers at once
(`executing_nodup`), and a timer never has more claims executing than its
policy allows (`executing_le_limit`).
-/
import Bellman.Dispatcher
import Mathlib.Data.List.Perm.Basic

namespace Bellman

open ProgramLogic

/-! ### What the jobs hold -/

namespace Job

/-- The run whose hint is in the worker's hands. -/
def hint : Job → Option Uuid
  | hinted run | stale run => some run
  | loaded claim | won claim => some claim.runId
  | _ => none

/-- The claim whose reservation is active. -/
def inside : Job → Option RunClaim
  | entered claim | executing claim _ | leaving claim => some claim
  | _ => none

/-- The claim that was read. -/
def claim? : Job → Option RunClaim
  | loaded claim | won claim | entered claim | executing claim _ | leaving claim => some claim
  | _ => none

/-- The claim being executed, from the swap to the commit of its result. -/
def running : Job → Option RunClaim
  | won claim | entered claim | executing claim _ => some claim
  | _ => none

end Job

/-- The reservations of a lane. -/
def Lane.all (l : Lane) : List Uuid := l.queued ++ l.active

/-- The timer of a run. -/
def Store.timerOf (s : Store) (run : Uuid) : Option Uuid := (s.getRun run).map (·.timerId)

/-- The claim was read from the ledger, which still has its row. -/
def Store.Knows (s : Store) (c : RunClaim) : Prop :=
  ∃ row, s.getRun c.runId = some row ∧ row.key = c.key

theorem Store.Knows.timerOf {s : Store} {c : RunClaim} (h : s.Knows c) :
    s.timerOf c.runId = some c.timerId := by
  obtain ⟨row, hrow, hkey⟩ := h
  rw [Store.timerOf, hrow, Option.map_some, RunClaim.timerId_of_key hkey]

namespace Dispatch

/-- The hints on their way. -/
def hints (d : Dispatch) : List Uuid := d.queue ++ d.jobs.filterMap Job.hint

/-- The claims inside a lane. -/
def insiders (d : Dispatch) : List RunClaim := d.jobs.filterMap Job.inside

/-- What the pump has read and not yet dealt with. -/
def todo (d : Dispatch) : List (Uuid × List RunClaim) :=
  match d.pump with
  | .idle => []
  | .scanned todo | .locked todo => todo

end Dispatch

/-- Each reservation is in the lane of its timer, once, and stands for one
hint or one insider. -/
structure LaneInv (d : Dispatch) : Prop where
  wf : d.reply.store.Wf
  home : ∀ t, ∀ run ∈ (d.lanes.laneOf t).all, d.reply.store.timerOf run = some t
  nodup : ∀ t, (d.lanes.laneOf t).all.Nodup
  hints_nodup : d.hints.Nodup
  hints_queued : ∀ run ∈ d.hints, ∃ t, run ∈ (d.lanes.laneOf t).queued
  insiders_nodup : (d.insiders.map (·.runId)).Nodup
  insiders_active : ∀ c ∈ d.insiders, c.runId ∈ (d.lanes.laneOf c.timerId).active
  claims : ∀ job ∈ d.jobs, ∀ c, job.claim? = some c →
    d.reply.store.Knows c
  todo : ∀ g ∈ d.todo, ∀ c ∈ g.2, d.reply.store.Knows c ∧ c.timerId = g.1

/-! ### The lane book -/

namespace LaneBook

variable (b : LaneBook) (t run : Uuid)

@[simp] theorem laneOf_empty : laneOf ∅ t = {} := rfl

theorem laneOf_insert (t' : Uuid) (l : Lane) :
    laneOf (b.insert t' l) t = if t = t' then l else b.laneOf t := by
  unfold laneOf
  split
  · next h => rw [h, AList.lookup_insert, Option.getD_some]
  · next h => rw [AList.lookup_insert_ne h]

theorem laneOf_enter (t' : Uuid) :
    (b.enter t' run).laneOf t = if t = t' then (b.laneOf t').enter run else b.laneOf t :=
  laneOf_insert b t t' _

theorem laneOf_enqueue (t' : Uuid) :
    (b.enqueue t' run).laneOf t =
      if t = t' then { b.laneOf t' with queued := (b.laneOf t').queued ++ [run] }
      else b.laneOf t :=
  laneOf_insert b t t' _

theorem laneOf_finishLane (t' : Uuid) :
    (b.finishLane t' run).laneOf t = if t = t' then (b.laneOf t').leave run else b.laneOf t := by
  unfold finishLane
  split
  · next hnone =>
    have hempty : b.laneOf t' = {} := by rw [laneOf, hnone, Option.getD_none]
    split
    · next h =>
      rw [h, hempty]
      rfl
    · rfl
  · next lane hsome =>
    have hlane : b.laneOf t' = lane := by rw [laneOf, hsome, Option.getD_some]
    rw [hlane]
    split
    · next hzero =>
      -- The lane is empty, and loses its entry.
      have hempty : lane.leave run = {} := by
        unfold Lane.inLane at hzero
        have hq := List.eq_nil_of_length_eq_zero (Nat.eq_zero_of_add_eq_zero_right hzero)
        have ha := List.eq_nil_of_length_eq_zero (Nat.eq_zero_of_add_eq_zero_left hzero)
        cases hl : lane.leave run
        simp_all
      unfold laneOf
      split
      · next h => rw [h, AList.lookup_erase, hempty, Option.getD_none]
      · next h => rw [AList.lookup_erase_ne h]
    · exact laneOf_insert b t t' _

/-- The one lane that queues the run lets it go. -/
theorem laneOf_releaseQueued {t₀ : Uuid} (h : run ∈ (b.laneOf t₀).queued)
    (huniq : ∀ t, run ∈ (b.laneOf t).queued → t = t₀) :
    (b.releaseQueued run).laneOf t =
      if t = t₀ then (b.laneOf t₀).unqueue run else b.laneOf t := by
  have hentry : ∀ e ∈ b.entries, b.laneOf e.1 = e.2 := by
    intro e he
    have hlook : e.2 ∈ b.lookup e.1 := AList.mem_lookup_iff.mpr he
    rw [laneOf, Option.mem_def.mp hlook, Option.getD_some]
  have hmem : ∃ e ∈ b.entries, e.2.queued.contains run = true := by
    cases hlook : b.lookup t₀ with
    | none =>
      rw [laneOf, hlook] at h
      cases h
    | some lane =>
      rw [laneOf, hlook, Option.getD_some] at h
      exact ⟨⟨t₀, lane⟩, AList.mem_lookup_iff.mp hlook, by simpa using h⟩
  unfold releaseQueued
  cases hfind : b.entries.find? (fun e => e.2.queued.contains run) with
  | none =>
    obtain ⟨e, he, hq⟩ := hmem
    exact absurd hq (List.find?_eq_none.mp hfind e he)
  | some e =>
    have he := List.mem_of_find?_eq_some hfind
    have hq : run ∈ e.2.queued := by simpa using List.find?_some hfind
    have heq : e.1 = t₀ := by
      apply huniq
      rw [hentry e he]
      exact hq
    show laneOf (b.insert e.1 (e.2.unqueue run)) t = _
    rw [laneOf_insert, heq, ← hentry e he, heq]

end LaneBook

/-! ### The invariant, step by step -/

theorem perm_of_job {jobs : List Job} {i : Nat} {job : Job} (h : jobs[i]? = some job) :
    jobs.Perm (job :: jobs.eraseIdx i) := by
  obtain ⟨hi, rfl⟩ := List.getElem?_eq_some_iff.mp h
  exact (List.getElem_cons_eraseIdx_perm hi).symm

/-- The jobs after one of them went on. -/
theorem perm_become {jobs : List Job} (i : Nat) (job : Job) :
    (jobs.eraseIdx i ++ [job]).Perm (job :: jobs.eraseIdx i) :=
  List.perm_append_singleton job _

section Invariant

variable {d : Dispatch}

/-- The invariant looks at the hints and the insiders in any order. -/
theorem LaneInv.of_perm {d' : Dispatch} (h : LaneInv d) (hstore : d'.reply = d.reply)
    (hlanes : d'.lanes = d.lanes) (hhints : d'.hints.Perm d.hints)
    (hinsiders : d'.insiders.Perm d.insiders)
    (hclaims : ∀ job ∈ d'.jobs, ∀ c, job.claim? = some c →
      d.reply.store.Knows c)
    (htodo : ∀ g ∈ d'.todo, ∀ c ∈ g.2, d.reply.store.Knows c ∧ c.timerId = g.1) :
    LaneInv d' where
  wf := by rw [hstore]; exact h.wf
  home t run hr := by rw [hlanes] at hr; rw [hstore]; exact h.home t run hr
  nodup t := by rw [hlanes]; exact h.nodup t
  hints_nodup := hhints.nodup_iff.mpr h.hints_nodup
  hints_queued run hr := by
    rw [hlanes]
    exact h.hints_queued run (hhints.mem_iff.mp hr)
  insiders_nodup := (hinsiders.map _).nodup_iff.mpr h.insiders_nodup
  insiders_active c hc := by
    rw [hlanes]
    exact h.insiders_active c (hinsiders.mem_iff.mp hc)
  claims job hj c hc := by rw [hstore]; exact hclaims job hj c hc
  todo g hg c hc := by rw [hstore]; exact htodo g hg c hc

/-- A worker goes on, with the same hint and the same claim inside. -/
theorem LaneInv.become (h : LaneInv d) {i : Nat} {job job' : Job} (hjob : d.jobs[i]? = some job)
    (hhint : job'.hint = job.hint) (hinside : job'.inside = job.inside)
    (hclaim : ∀ c, job'.claim? = some c → d.reply.store.Knows c) :
    LaneInv (d.become i job') := by
  have hperm := perm_of_job hjob
  refine h.of_perm rfl rfl ?_ ?_ ?_ h.todo
  · refine List.Perm.append_left _ ?_
    refine ((perm_become i job').filterMap _).trans (((hperm.filterMap _).trans ?_).symm)
    rw [List.filterMap_cons, List.filterMap_cons, hhint]
  · refine ((perm_become i job').filterMap _).trans (((hperm.filterMap _).trans ?_).symm)
    rw [List.filterMap_cons, List.filterMap_cons, hinside]
  · intro q hq c hc
    rcases List.mem_append.mp hq with hq | hq
    · exact h.claims q (List.mem_of_mem_eraseIdx hq) c hc
    · obtain rfl := List.mem_singleton.mp hq
      exact hclaim c hc

/-- The ledger knows the claim a worker read. -/
theorem LaneInv.claim_of_job (h : LaneInv d) {i : Nat} {job : Job} {c : RunClaim}
    (hjob : d.jobs[i]? = some job) (hc : job.claim? = some c) : d.reply.store.Knows c :=
  h.claims job (List.mem_of_getElem? hjob) c hc

/-- The pump moves on in what it has read. -/
theorem LaneInv.pump (h : LaneInv d) {pump : Pump}
    (htodo : ∀ g ∈ ({ d with pump } : Dispatch).todo, g ∈ d.todo ∨
      ∃ c, (g.1, c :: g.2) ∈ d.todo) : LaneInv { d with pump } := by
  refine h.of_perm rfl rfl (List.Perm.refl _) (List.Perm.refl _) h.claims ?_
  intro g hg c hc
  rcases htodo g hg with hg | ⟨c', hg⟩
  · exact h.todo g hg c hc
  · exact h.todo _ hg c (List.mem_cons_of_mem _ hc)

theorem Dispatch.todo_locked {todo : List (Uuid × List RunClaim)} (h : d.pump = .locked todo) :
    d.todo = todo := by
  rw [Dispatch.todo, h]

/-- The pump drops a timer. -/
theorem LaneInv.drop (h : LaneInv d) {g : Uuid × List RunClaim}
    {rest : List (Uuid × List RunClaim)} (hpump : d.pump = .locked (g :: rest)) :
    LaneInv { d with pump := .locked rest } := by
  refine h.pump fun g hg => .inl ?_
  rw [Dispatch.todo_locked hpump]
  exact List.mem_cons_of_mem _ hg

/-- The pump passes over a claim. -/
theorem LaneInv.pass (h : LaneInv d) {t : Uuid} {claim : RunClaim} {claims : List RunClaim}
    {rest : List (Uuid × List RunClaim)} (hpump : d.pump = .locked ((t, claim :: claims) :: rest)) :
    LaneInv { d with pump := .locked ((t, claims) :: rest) } := by
  refine h.pump fun g hg => ?_
  rw [Dispatch.todo_locked hpump]
  rcases List.mem_cons.mp hg with rfl | hg
  · exact .inr ⟨claim, List.mem_cons_self⟩
  · exact .inl (List.mem_cons_of_mem _ hg)

section Commits

variable [Calendar] {cfg : DispatchConfig}

theorem timerOf_after (cfg : DispatchConfig) (hs : d.reply.store.Wf) (c : Commit)
    {run t : Uuid} (h : d.reply.store.timerOf run = some t) :
    (d.after cfg c).reply.store.timerOf run = some t := by
  obtain ⟨q, hq, rfl⟩ := Option.map_eq_some_iff.mp h
  obtain ⟨q', hq', hkey⟩ := Commit.getRun_key cfg.fire c hs hq
  show ((c.after cfg.fire d.reply).store.getRun run).map _ = _
  rw [hq', Option.map_some, RunClaim.timerId_of_key hkey]

theorem knows_after (cfg : DispatchConfig) (hs : d.reply.store.Wf) (c : Commit) {q : RunClaim}
    (h : d.reply.store.Knows q) : (d.after cfg c).reply.store.Knows q := by
  obtain ⟨row, hrow, hkey⟩ := h
  obtain ⟨row', hrow', hkey'⟩ := Commit.getRun_key cfg.fire c hs hrow
  exact ⟨row', hrow', hkey'.trans hkey⟩

theorem LaneInv.after (h : LaneInv d) (c : Commit) : LaneInv (d.after cfg c) where
  wf := Commit.wf h.wf
  home t run hr := timerOf_after cfg h.wf c (h.home t run hr)
  nodup := h.nodup
  hints_nodup := h.hints_nodup
  hints_queued := h.hints_queued
  insiders_nodup := h.insiders_nodup
  insiders_active := h.insiders_active
  claims job hj q hq := knows_after cfg h.wf c (h.claims job hj q hq)
  todo g hg q hq := (h.todo g hg q hq).imp_left (knows_after cfg h.wf c)

theorem LaneInv.afterIf (h : LaneInv d) (ok : Bool) (c : Commit) :
    LaneInv (d.afterIf cfg ok c) := by
  unfold Dispatch.afterIf
  split
  · exact h.after c
  · exact h

/-- A claim may be committed on, and its lane is to be left. -/
theorem LaneInv.leaving (h : LaneInv d) (ok : Bool) (c : Commit) {i : Nat} {job : Job}
    {claim : RunClaim} (hjob : d.jobs[i]? = some job) (hinside : job.inside = some claim) :
    LaneInv ((d.afterIf cfg ok c).become i (.leaving claim)) := by
  have hclaim : job.claim? = some claim ∧ job.hint = none := by
    cases job <;> first | exact ⟨hinside, rfl⟩ | cases hinside
  have hrow := h.claim_of_job hjob hclaim.1
  cases ok with
  | true =>
    refine (h.after c).become hjob hclaim.2.symm hinside.symm fun q hq => ?_
    cases hq
    exact knows_after cfg h.wf c hrow
  | false =>
    refine h.become hjob hclaim.2.symm hinside.symm fun q hq => ?_
    cases hq
    exact hrow

end Commits

/-- The hints on their way, when a worker has one of them in its hands. -/
theorem hints_perm {i : Nat} {job : Job} {run : Uuid} (hjob : d.jobs[i]? = some job)
    (hhint : job.hint = some run) :
    d.hints.Perm (run :: (d.queue ++ (d.jobs.eraseIdx i).filterMap Job.hint)) := by
  have hperm := (perm_of_job hjob).filterMap Job.hint
  rw [List.filterMap_cons, hhint] at hperm
  exact (List.Perm.append_left d.queue hperm).trans List.perm_middle

/-- A claim inside, and the others. -/
theorem insiders_perm {i : Nat} {job : Job} {c : RunClaim} (hjob : d.jobs[i]? = some job)
    (hinside : job.inside = some c) :
    d.insiders.Perm (c :: (d.jobs.eraseIdx i).filterMap Job.inside) := by
  have hperm := (perm_of_job hjob).filterMap Job.inside
  rwa [List.filterMap_cons, hinside] at hperm

theorem insiders_perm_of_none {i : Nat} {job : Job} (hjob : d.jobs[i]? = some job)
    (hinside : job.inside = none) :
    d.insiders.Perm ((d.jobs.eraseIdx i).filterMap Job.inside) := by
  have hperm := (perm_of_job hjob).filterMap Job.inside
  rwa [List.filterMap_cons, hinside] at hperm

theorem hints_perm_of_none {i : Nat} {job : Job} (hjob : d.jobs[i]? = some job)
    (hhint : job.hint = none) :
    d.hints.Perm (d.queue ++ (d.jobs.eraseIdx i).filterMap Job.hint) := by
  have hperm := (perm_of_job hjob).filterMap Job.hint
  rw [List.filterMap_cons, hhint] at hperm
  exact List.Perm.append_left d.queue hperm

namespace LaneInv

theorem home_queued (h : LaneInv d) {t run : Uuid} (hr : run ∈ (d.lanes.laneOf t).queued) :
    d.reply.store.timerOf run = some t :=
  h.home t run (List.mem_append_left _ hr)

theorem home_active (h : LaneInv d) {t run : Uuid} (hr : run ∈ (d.lanes.laneOf t).active) :
    d.reply.store.timerOf run = some t :=
  h.home t run (List.mem_append_right _ hr)

/-- No run is queued and active at once. -/
theorem not_active (h : LaneInv d) {t t' run : Uuid} (hq : run ∈ (d.lanes.laneOf t).queued) :
    run ∉ (d.lanes.laneOf t').active := by
  intro ha
  obtain rfl : t = t' := Option.some.inj ((h.home_queued hq).symm.trans (h.home_active ha))
  exact List.disjoint_of_nodup_append (h.nodup t) hq ha

/-- The lane that a hint is queued in, when the timer of the run is known. -/
theorem queued_of_hint (h : LaneInv d) {t run : Uuid} (hr : run ∈ d.hints)
    (ht : d.reply.store.timerOf run = some t) : run ∈ (d.lanes.laneOf t).queued := by
  obtain ⟨t', hq⟩ := h.hints_queued run hr
  obtain rfl : t' = t := Option.some.inj ((h.home_queued hq).symm.trans ht)
  exact hq

/-- The reservation of a stale hint is in one lane, which lets it go. -/
theorem laneOf_release (h : LaneInv d) {i : Nat} {run : Uuid}
    (hjob : d.jobs[i]? = some (.stale run)) :
    ∃ t₀, run ∈ (d.lanes.laneOf t₀).queued ∧ ∀ t, (d.lanes.releaseQueued run).laneOf t =
      if t = t₀ then (d.lanes.laneOf t₀).unqueue run else d.lanes.laneOf t := by
  obtain ⟨t₀, hq⟩ := h.hints_queued run
    ((hints_perm hjob rfl).mem_iff.mpr List.mem_cons_self)
  refine ⟨t₀, hq, fun t => LaneBook.laneOf_releaseQueued d.lanes t run hq fun t' hq' => ?_⟩
  exact Option.some.inj ((h.home_queued hq').symm.trans (h.home_queued hq))

/-- A stale hint is dropped with its reservation. -/
theorem release (h : LaneInv d) {i : Nat} {run : Uuid} (hjob : d.jobs[i]? = some (.stale run)) :
    LaneInv { d.retire i with lanes := d.lanes.releaseQueued run } := by
  have hperm := hints_perm hjob rfl
  have hnd := hperm.nodup_iff.mp h.hints_nodup
  rw [List.nodup_cons] at hnd
  obtain ⟨t₀, hq, hlane⟩ := h.laneOf_release hjob
  have hall : ∀ t, ((d.lanes.releaseQueued run).laneOf t).all.Sublist (d.lanes.laneOf t).all := by
    intro t
    rw [hlane]
    split
    · next e =>
      rw [e]
      exact List.filter_sublist.append_right _
    · exact List.Sublist.refl _
  have hins := insiders_perm_of_none hjob rfl
  constructor
  · exact h.wf
  · exact fun t r hr => h.home t r ((hall t).subset hr)
  · exact fun t => (h.nodup t).sublist (hall t)
  · exact hnd.2
  · intro r hr
    obtain ⟨t, hq'⟩ := h.hints_queued r (hperm.mem_iff.mpr (List.mem_cons_of_mem _ hr))
    refine ⟨t, ?_⟩
    rw [hlane]
    split
    · next e =>
      refine List.mem_filter.mpr ⟨e ▸ hq', ?_⟩
      simpa using fun e' : r = run => hnd.1 (e' ▸ hr)
    · exact hq'
  · exact (hins.map _).nodup_iff.mp h.insiders_nodup
  · intro c hc
    have hact := h.insiders_active c (hins.mem_iff.mpr hc)
    rw [hlane]
    split
    · next e =>
      rw [e] at hact
      exact hact
    · exact hact
  · exact fun job hj => h.claims job (List.mem_of_mem_eraseIdx hj)
  · exact h.todo

/-- A claim won goes inside, with its reservation. -/
theorem enter (h : LaneInv d) {i : Nat} {claim : RunClaim}
    (hjob : d.jobs[i]? = some (.won claim)) :
    LaneInv { d.become i (.entered claim) with
      lanes := d.lanes.enter claim.timerId claim.runId } := by
  set run := claim.runId with hrun
  have hperm := hints_perm hjob rfl
  have hnd := hperm.nodup_iff.mp h.hints_nodup
  rw [List.nodup_cons] at hnd
  have hclaim := (h.claim_of_job hjob rfl).timerOf
  have hq := h.queued_of_hint (hperm.mem_iff.mpr List.mem_cons_self) hclaim
  have hact : run ∉ (d.lanes.laneOf claim.timerId).active := h.not_active hq
  have henter : (d.lanes.laneOf claim.timerId).enter run =
      { queued := (d.lanes.laneOf claim.timerId).queued.filter fun id => id ≠ run
        active := (d.lanes.laneOf claim.timerId).active ++ [run] } := by
    unfold Lane.enter
    rw [if_neg (by simpa using hact)]
  have hlane := fun t => LaneBook.laneOf_enter d.lanes t run claim.timerId
  simp only [henter] at hlane
  have hins := insiders_perm_of_none hjob rfl
  have hins' : (d.become i (.entered claim)).insiders.Perm
      (claim :: (d.jobs.eraseIdx i).filterMap Job.inside) :=
    ((perm_become i _).filterMap Job.inside).trans (List.Perm.refl _)
  have hhints' : (d.become i (.entered claim)).hints.Perm
      (d.queue ++ (d.jobs.eraseIdx i).filterMap Job.hint) :=
    List.Perm.append_left _ (((perm_become i _).filterMap Job.hint).trans (List.Perm.refl _))
  constructor
  · exact h.wf
  · intro t r hr
    rw [hlane] at hr
    split at hr
    · next e =>
      rw [e]
      rcases List.mem_append.mp hr with hr | hr
      · exact h.home_queued (List.mem_filter.mp hr).1
      · rcases List.mem_append.mp hr with hr | hr
        · exact h.home_active hr
        · rw [List.mem_singleton.mp hr]
          exact hclaim
    · exact h.home t r hr
  · intro t
    rw [hlane]
    split
    · next e =>
      show (_ ++ (_ ++ [run])).Nodup
      rw [← List.append_assoc, List.nodup_append]
      refine ⟨(h.nodup claim.timerId).sublist (List.filter_sublist.append_right _), by simp, ?_⟩
      intro a ha b hb
      rw [List.mem_singleton.mp hb]
      rcases List.mem_append.mp ha with ha | ha
      · simpa using (List.mem_filter.mp ha).2
      · exact fun e' => hact (e' ▸ ha)
    · exact h.nodup t
  · exact hhints'.nodup_iff.mpr hnd.2
  · intro r hr
    have hr := hhints'.mem_iff.mp hr
    obtain ⟨t, hq'⟩ := h.hints_queued r (hperm.mem_iff.mpr (List.mem_cons_of_mem _ hr))
    refine ⟨t, ?_⟩
    rw [hlane]
    split
    · next e =>
      refine List.mem_filter.mpr ⟨e ▸ hq', ?_⟩
      have hne : r ≠ run := fun e' => hnd.1 (show run ∈ _ from e' ▸ hr)
      simpa using hne
    · exact hq'
  · refine (hins'.map _).nodup_iff.mpr ?_
    rw [List.map_cons, List.nodup_cons]
    refine ⟨fun hmem => ?_, (hins.map _).nodup_iff.mp h.insiders_nodup⟩
    -- A claim inside has an active reservation, and this one has not.
    obtain ⟨c, hc, he⟩ := List.mem_map.mp hmem
    have hc := h.insiders_active c (hins.mem_iff.mpr hc)
    rw [he] at hc
    exact h.not_active hq hc
  · intro c hc
    rw [hlane]
    rcases List.mem_cons.mp (hins'.mem_iff.mp hc) with rfl | hc
    · rw [if_pos rfl]
      exact List.mem_append_right _ (List.mem_singleton.mpr rfl)
    · have hc := h.insiders_active c (hins.mem_iff.mpr hc)
      split
      · next e => exact List.mem_append_left _ (e ▸ hc)
      · exact hc
  · intro job hj c hc
    rcases List.mem_append.mp hj with hj | hj
    · exact h.claims job (List.mem_of_mem_eraseIdx hj) c hc
    · obtain rfl := List.mem_singleton.mp hj
      cases hc
      exact h.claim_of_job hjob rfl
  · exact h.todo

/-- A claim goes out of its lane. -/
theorem leave (h : LaneInv d) {i : Nat} {claim : RunClaim}
    (hjob : d.jobs[i]? = some (.leaving claim)) :
    LaneInv { d.retire i with lanes := d.lanes.finishLane claim.timerId claim.runId } := by
  set run := claim.runId with hrun
  have hins := insiders_perm hjob rfl
  have hnd := (hins.map (·.runId)).nodup_iff.mp h.insiders_nodup
  rw [List.map_cons, List.nodup_cons] at hnd
  have hact : run ∈ (d.lanes.laneOf claim.timerId).active :=
    h.insiders_active claim (hins.mem_iff.mpr List.mem_cons_self)
  have hlane := fun t => LaneBook.laneOf_finishLane d.lanes t run claim.timerId
  have hhints := hints_perm_of_none hjob rfl
  have hall : ∀ t, ((d.lanes.finishLane claim.timerId run).laneOf t).all.Sublist
      (d.lanes.laneOf t).all := by
    intro t
    rw [hlane]
    split
    · next e =>
      rw [e]
      exact List.filter_sublist.append List.filter_sublist
    · exact List.Sublist.refl _
  constructor
  · exact h.wf
  · exact fun t r hr => h.home t r ((hall t).subset hr)
  · exact fun t => (h.nodup t).sublist (hall t)
  · exact hhints.nodup_iff.mp h.hints_nodup
  · intro r hr
    obtain ⟨t, hq⟩ := h.hints_queued r (hhints.mem_iff.mpr hr)
    refine ⟨t, ?_⟩
    rw [hlane]
    split
    · next e =>
      refine List.mem_filter.mpr ⟨e ▸ hq, ?_⟩
      simpa using fun e' : r = run => h.not_active hq (e'.symm ▸ hact)
    · exact hq
  · exact hnd.2
  · intro c hc
    have hmem := h.insiders_active c (hins.mem_iff.mpr (List.mem_cons_of_mem _ hc))
    rw [hlane]
    split
    · next e =>
      refine List.mem_filter.mpr ⟨e ▸ hmem, ?_⟩
      have hne : c.runId ≠ run := fun e' => hnd.1 (List.mem_map.mpr ⟨c, hc, e'⟩)
      simpa using hne
    · exact hmem
  · exact fun job hj => h.claims job (List.mem_of_mem_eraseIdx hj)
  · exact h.todo

/-- A hint passes from the queue to a worker. -/
theorem recv (h : LaneInv d) {run : Uuid} {queue : List Uuid} (hqueue : d.queue = run :: queue) :
    LaneInv { d with queue, jobs := d.jobs ++ [.hinted run] } := by
  refine h.of_perm rfl rfl ?_ ?_ ?_ h.todo
  · unfold Dispatch.hints
    rw [hqueue, List.filterMap_append]
    show (queue ++ (d.jobs.filterMap Job.hint ++ [run])).Perm (run :: queue ++ _)
    rw [← List.append_assoc]
    exact List.perm_append_singleton run _
  · unfold Dispatch.insiders
    rw [List.filterMap_append]
    show (d.jobs.filterMap Job.inside ++ []).Perm _
    rw [List.append_nil]
  · intro job hj c hc
    rcases List.mem_append.mp hj with hj | hj
    · exact h.claims job hj c hc
    · obtain rfl := List.mem_singleton.mp hj
      cases hc

/-- A hint is sent for a claim that is not reserved. -/
theorem send (h : LaneInv d) {t run : Uuid} (ht : d.reply.store.timerOf run = some t)
    (hfree : (d.lanes.laneOf t).reserves run = false) {pump : Pump}
    (htodo : ∀ g ∈ ({ d with pump } : Dispatch).todo, ∀ c ∈ g.2,
      d.reply.store.Knows c ∧ c.timerId = g.1) :
    LaneInv { d with pump, queue := d.queue ++ [run], lanes := d.lanes.enqueue t run } := by
  have hlane := fun t' => LaneBook.laneOf_enqueue d.lanes t' run t
  obtain ⟨hnq, hna⟩ : run ∉ (d.lanes.laneOf t).queued ∧ run ∉ (d.lanes.laneOf t).active := by
    simpa [Lane.reserves] using hfree
  have hhints : ({ d with pump, queue := d.queue ++ [run], lanes := d.lanes.enqueue t run } :
      Dispatch).hints.Perm (run :: d.hints) := by
    show (d.queue ++ [run] ++ _).Perm (run :: (d.queue ++ _))
    rw [List.append_assoc]
    exact List.perm_middle
  have hmem : ∀ t' r, r ∈ (d.lanes.laneOf t').queued →
      r ∈ ((d.lanes.enqueue t run).laneOf t').queued := by
    intro t' r hr
    rw [hlane]
    split
    · next e => exact List.mem_append_left _ (e ▸ hr)
    · exact hr
  constructor
  · exact h.wf
  · intro t' r hr
    rw [hlane] at hr
    split at hr
    · next e =>
      rw [e]
      rcases List.mem_append.mp hr with hr | hr
      · rcases List.mem_append.mp hr with hr | hr
        · exact h.home_queued hr
        · rw [List.mem_singleton.mp hr]
          exact ht
      · exact h.home_active hr
    · exact h.home t' r hr
  · intro t'
    rw [hlane]
    split
    · next e =>
      show ((_ ++ [run]) ++ _).Nodup
      rw [List.append_assoc]
      refine (List.perm_middle).nodup_iff.mpr (List.nodup_cons.mpr ⟨?_, h.nodup t⟩)
      rw [List.mem_append, not_or]
      exact ⟨hnq, hna⟩
    · exact h.nodup t'
  · refine hhints.nodup_iff.mpr (List.nodup_cons.mpr ⟨fun hr => ?_, h.hints_nodup⟩)
    exact hnq (h.queued_of_hint hr ht)
  · intro r hr
    rcases List.mem_cons.mp (hhints.mem_iff.mp hr) with rfl | hr
    · refine ⟨t, ?_⟩
      rw [hlane, if_pos rfl]
      exact List.mem_append_right _ (List.mem_singleton.mpr rfl)
    · obtain ⟨t', hq⟩ := h.hints_queued r hr
      exact ⟨t', hmem t' r hq⟩
  · exact h.insiders_nodup
  · intro c hc
    have hact := h.insiders_active c hc
    rw [hlane]
    split
    · next e => exact e ▸ hact
    · exact hact
  · exact h.claims
  · exact htodo

/-- What the pump scans is pending, by timer. -/
theorem scan (h : LaneInv d) (order : List Uuid) :
    LaneInv { d with pump := .scanned (Dispatch.pendingByTimer d.reply.store order) } := by
  refine h.of_perm rfl rfl (List.Perm.refl _) (List.Perm.refl _) h.claims ?_
  intro g hg c hc
  obtain ⟨t, _, rfl⟩ := List.mem_map.mp hg
  rw [List.mem_insertionSort, List.mem_filter, beq_iff_eq] at hc
  obtain ⟨hpending, ht⟩ := hc
  have hrow : c ∈ d.reply.store.runs := by
    unfold Store.pendingClaims at hpending
    rw [List.mem_insertionSort] at hpending
    exact List.mem_of_mem_filter hpending
  exact ⟨⟨c, h.wf.getRun_of_mem hrow, rfl⟩, ht⟩

theorem initial {store : Store} (hs : store.Wf) : LaneInv { reply := { store } } where
  wf := hs
  home := by simp [Lane.all]
  nodup := by simp [Lane.all]
  hints_nodup := List.nodup_nil
  hints_queued := by simp [Dispatch.hints]
  insiders_nodup := List.nodup_nil
  insiders_active := by simp [Dispatch.insiders]
  claims := by simp
  todo := by simp [Dispatch.todo]

end LaneInv

end Invariant

section Steps

variable [Calendar] {cfg : DispatchConfig} {d d' : Dispatch}

/-- **Reservations.**  Every step of the system keeps them in order. -/
theorem LaneInv.next (h : LaneInv d) {a : Act} (hstep : d.next cfg a = some d') :
    LaneInv d' := by
  cases step_of_next hstep with
  | commit c _ _ => exact h.after c
  | die => exact LaneInv.initial h.wf
  | startup => exact h.after _
  | scan order _ => exact h.scan order
  | lock hpump =>
    refine h.pump fun g hg => .inl ?_
    rw [Dispatch.todo, hpump]
    exact hg
  | timerError hpump => exact h.drop hpump
  | emptied ok utc hpump => exact h.drop hpump
  | reserved ok utc hpump _ => exact h.pass hpump
  | orphan ok utc hpump _ => exact (h.pass hpump).afterIf ok _
  | noLane ok utc hpump _ _ => exact h.pass hpump
  | busy ok utc hpump => exact h.drop hpump
  | send ok utc hpump hfree _ _ =>
    refine h.send ?_ hfree (h.pass hpump).todo
    obtain ⟨hknows, ht⟩ := h.todo _
      (Dispatch.todo_locked hpump ▸ List.mem_cons_self) _ List.mem_cons_self
    exact hknows.timerOf.trans (congrArg some ht)
  | full ok utc _ => exact h.pump fun g hg => absurd hg List.not_mem_nil
  | unlock _ => exact h.pump fun g hg => absurd hg List.not_mem_nil
  | recv hqueue => exact h.recv hqueue
  | load i ok hjob hget _ =>
    refine h.become hjob rfl rfl fun c hc => ?_
    cases hc
    exact ⟨_, hget, rfl⟩
  | loadStale i ok hjob => exact h.become hjob rfl rfl nofun
  | won i hjob _ _ =>
    refine (h.after _).become hjob rfl rfl fun c hc => ?_
    cases hc
    exact knows_after cfg h.wf _ (h.claim_of_job hjob rfl)
  | lost i hjob _ => exact (h.after _).become hjob rfl rfl nofun
  | activateError i hjob => exact h.become hjob rfl rfl nofun
  | release i hjob _ => exact h.release hjob
  | enter i hjob _ => exact h.enter hjob
  | execute i committed utc hjob _ =>
    refine h.become hjob rfl rfl fun c hc => ?_
    cases hc
    exact h.claim_of_job hjob rfl
  | deleted i committed utc hjob _ => exact h.leaving committed _ hjob rfl
  | reloadError i committed utc hjob => exact h.leaving committed _ hjob rfl
  | finish i e ok utc hjob => exact h.leaving ok _ hjob rfl
  | panic i ok hjob => exact h.leaving ok _ hjob rfl
  | leave i hjob _ => exact h.leave hjob

end Steps

/-! ### Executions -/

section Executions

variable {d : Dispatch}

namespace Dispatch

/-- The claims being executed. -/
def executing (d : Dispatch) : List RunClaim := d.jobs.filterMap Job.running

end Dispatch

namespace Job

/-- The run a job is about. -/
def run : Job → Uuid
  | hinted run | stale run => run
  | loaded claim | won claim | entered claim | executing claim _ | leaving claim => claim.runId

/-- A job is about a hint, or about a claim inside. -/
theorem perm_run (jobs : List Job) :
    (jobs.map run).Perm (jobs.filterMap hint ++ (jobs.filterMap inside).map (·.runId)) := by
  induction jobs with
  | nil => exact List.Perm.refl _
  | cons job jobs ih =>
    cases job with
    | entered | executing | leaving => exact (List.Perm.cons _ ih).trans List.perm_middle.symm
    | _ => exact List.Perm.cons _ ih

theorem sublist_run (jobs : List Job) :
    ((jobs.filterMap running).map (·.runId)).Sublist (jobs.map run) := by
  induction jobs with
  | nil => exact List.Sublist.refl _
  | cons job jobs ih =>
    cases job with
    | won | entered | executing => exact List.Sublist.cons_cons _ ih
    | _ => exact List.Sublist.cons _ ih

end Job

/-- Two jobs are about two runs. -/
theorem LaneInv.runs_nodup (h : LaneInv d) : (d.jobs.map Job.run).Nodup := by
  rw [(Job.perm_run d.jobs).nodup_iff, List.nodup_append]
  refine ⟨(List.nodup_append.mp h.hints_nodup).2.1, h.insiders_nodup, ?_⟩
  rintro run hr _ hr' rfl
  obtain ⟨c, hc, rfl⟩ := List.mem_map.mp hr'
  obtain ⟨t, hq⟩ := h.hints_queued _ (List.mem_append_right _ hr)
  exact h.not_active hq (h.insiders_active c hc)

theorem LaneInv.executing_nodup (h : LaneInv d) : (d.executing.map (·.runId)).Nodup :=
  h.runs_nodup.sublist (Job.sublist_run d.jobs)

/-- A claim being executed holds a reservation in the lane of its timer. -/
theorem LaneInv.executing_reserved (h : LaneInv d) {c : RunClaim} (hc : c ∈ d.executing) :
    c.runId ∈ (d.lanes.laneOf c.timerId).all := by
  obtain ⟨job, hj, hrun⟩ := List.mem_filterMap.mp hc
  have hinside : job.inside = some c → c.runId ∈ (d.lanes.laneOf c.timerId).all := fun hi =>
    List.mem_append_right _ (h.insiders_active c (List.mem_filterMap.mpr ⟨job, hj, hi⟩))
  cases job with
  | won claim =>
    obtain rfl := Option.some.inj hrun
    refine List.mem_append_left _ (h.queued_of_hint ?_ (h.claims _ hj _ rfl).timerOf)
    exact List.mem_append_right _ (List.mem_filterMap.mpr ⟨_, hj, rfl⟩)
  | entered claim => exact hinside hrun
  | executing claim timer => exact hinside hrun
  | _ => cases hrun

/-- No more claims of a timer are executed than its lane reserves. -/
theorem LaneInv.executing_le (h : LaneInv d) (t : Uuid) :
    (d.executing.filter (·.timerId = t)).length ≤ (d.lanes.laneOf t).inLane := by
  have hnd : ((d.executing.filter (·.timerId = t)).map (·.runId)).Nodup :=
    h.executing_nodup.sublist (List.filter_sublist.map _)
  have hsub : (d.executing.filter (·.timerId = t)).map (·.runId) ⊆ (d.lanes.laneOf t).all := by
    intro run hr
    obtain ⟨c, hc, rfl⟩ := List.mem_map.mp hr
    obtain ⟨hc, ht⟩ := List.mem_filter.mp hc
    have ht : c.timerId = t := by simpa using ht
    exact ht ▸ h.executing_reserved hc
  calc (d.executing.filter (·.timerId = t)).length
      = ((d.executing.filter (·.timerId = t)).map (·.runId)).length := (List.length_map _).symm
    _ ≤ (d.lanes.laneOf t).all.length := (List.subperm_of_subset hnd hsub).length_le
    _ = (d.lanes.laneOf t).inLane := List.length_append

namespace Lane

variable (l : Lane) (run : Uuid)

theorem inLane_unqueue_le : (l.unqueue run).inLane ≤ l.inLane :=
  Nat.add_le_add_right (List.length_filter_le _ _) _

theorem inLane_leave_le : (l.leave run).inLane ≤ l.inLane :=
  Nat.add_le_add (List.length_filter_le _ _) (List.length_filter_le _ _)

variable {run}

/-- A run that was queued does not take a second place. -/
theorem inLane_enter_le (hq : run ∈ l.queued) : (l.enter run).inLane ≤ l.inLane := by
  have hlt : (l.queued.filter fun id => id ≠ run).length < l.queued.length :=
    List.length_filter_lt_length_iff_exists.mpr ⟨run, hq, by simp⟩
  unfold inLane enter
  dsimp only
  split
  · omega
  · rw [List.length_append, List.length_singleton]
    omega

end Lane

end Executions

section Bound

variable [Calendar] {cfg : DispatchConfig} {d d' : Dispatch}

/-- **Lane bound.**  A step takes a lane over a bound only against the
policy of its timer. -/
theorem LaneInv.inLane_le (h : LaneInv d) {t : Uuid} {n : Nat}
    (hn : (d.lanes.laneOf t).inLane ≤ n)
    (hlimit : ∀ timer, d.reply.store.getTimer t = some timer → timer.overlap.limit ≤ n)
    {a : Act} (hstep : d.next cfg a = some d') : (d'.lanes.laneOf t).inLane ≤ n := by
  cases step_of_next hstep with
  | die => exact Nat.zero_le n
  | orphan ok utc _ _ => cases ok <;> exact hn
  | deleted i committed utc _ _ => cases committed <;> exact hn
  | reloadError i committed utc _ => cases committed <;> exact hn
  | finish i e ok utc _ => cases ok <;> exact hn
  | panic i ok _ => cases ok <;> exact hn
  | @send t' claim claims rest timer ok utc _ _ htimer hlt =>
    rw [LaneBook.laneOf_enqueue]
    split
    · next e =>
      rw [e] at hlimit
      have hle := hlimit timer htimer
      show (_ ++ [claim.runId]).length + (d.lanes.laneOf t').active.length ≤ n
      have hlt : _ + (d.lanes.laneOf t').active.length < timer.overlap.limit := hlt
      rw [List.length_append, List.length_singleton]
      omega
    · exact hn
  | @release run i hjob _ =>
    obtain ⟨t₀, _, hlane⟩ := h.laneOf_release hjob
    rw [hlane]
    split
    · next e => exact (Lane.inLane_unqueue_le _ run).trans (e ▸ hn)
    · exact hn
  | @enter claim i hjob _ =>
    have hq := h.queued_of_hint ((hints_perm hjob rfl).mem_iff.mpr List.mem_cons_self)
      (h.claim_of_job hjob rfl).timerOf
    rw [LaneBook.laneOf_enter]
    split
    · next e => exact (Lane.inLane_enter_le _ hq).trans (e ▸ hn)
    · exact hn
  | @leave claim i _ _ =>
    rw [LaneBook.laneOf_finishLane]
    split
    · next e => exact (Lane.inLane_leave_le _ claim.runId).trans (e ▸ hn)
    · exact hn
  | _ => exact hn

end Bound

/-! ### Lane mutual exclusion -/

section Runs

variable [Calendar] {cfg : DispatchConfig} {d₀ d : Dispatch}
  {tr : List (System.Event Dispatch Act)}

theorem LaneInv.of_init (h : (dispatcher cfg).init d₀) : LaneInv d₀ := by
  obtain ⟨store, hs, rfl⟩ := h
  exact LaneInv.initial hs

theorem LaneInv.of_run (h : (dispatcher cfg).Run d₀ tr d) (h0 : (dispatcher cfg).init d₀) :
    LaneInv d :=
  h.invariant (G := fun _ => True) (fun _ _ => trivial) (LaneInv.of_init h0)
    fun _ _ _ hstep _ hinv => hinv.next hstep

/-- The timer of the run, wherever it is stored, has the policy. -/
def KeepsPolicy (tr : List (System.Event Dispatch Act)) (t : Uuid) (policy : OverlapPolicy) :
    Prop :=
  ∀ e ∈ tr, ∀ timer ∈ e.pre.reply.store.getTimer t, timer.overlap = policy

instance {t policy} : Decidable (KeepsPolicy tr t policy) :=
  inferInstanceAs (Decidable (∀ e ∈ tr, ∀ timer ∈ e.pre.reply.store.getTimer t, _))

theorem inLane_le_limit (h : (dispatcher cfg).Run d₀ tr d) (h0 : (dispatcher cfg).init d₀)
    {t : Uuid} {policy : OverlapPolicy} (hpolicy : KeepsPolicy tr t policy) :
    (d.lanes.laneOf t).inLane ≤ policy.limit := by
  refine (h.invariant (I := fun d => LaneInv d ∧ (d.lanes.laneOf t).inLane ≤ policy.limit)
    hpolicy ⟨LaneInv.of_init h0, ?_⟩ ?_).2
  · obtain ⟨store, _, rfl⟩ := h0
    exact Nat.zero_le _
  · rintro d a d' hstep hkeep ⟨hinv, hle⟩
    refine ⟨hinv.next hstep, hinv.inLane_le hle (fun timer htimer => ?_) hstep⟩
    rw [hkeep timer htimer]

/-- **Lane mutual exclusion.**  In any run of the dispatcher beside the rest
of the system, no claim is executed by two workers at once, and as long as
the policy of a timer is not edited, no more of its claims are executed at
once than the policy allows: one under the serial policies, `cap` under
`parallel cap`. -/
theorem lanes_exclusive (h : (dispatcher cfg).Run d₀ tr d) (h0 : (dispatcher cfg).init d₀) :
    (d.executing.map (·.runId)).Nodup ∧
    ∀ t policy, KeepsPolicy tr t policy →
      (d.executing.filter (·.timerId = t)).length ≤
        match policy with
        | .skip | .queueOne | .replace => 1
        | .parallel cap => cap := by
  have hinv := LaneInv.of_run h h0
  refine ⟨hinv.executing_nodup, fun t policy hpolicy => ?_⟩
  calc (d.executing.filter (·.timerId = t)).length
      ≤ (d.lanes.laneOf t).inLane := hinv.executing_le t
    _ ≤ policy.limit := inLane_le_limit h h0 hpolicy
    _ = _ := by cases policy <;> rfl

end Runs

section Sample

attribute [local instance] Calendar.utcOnly

/-- The second claim of a timer waits while the first is executed. -/
theorem lanes_exclusive_queueOne :
    let d := Dispatch.sampleRun [.commit (.createTimer (.sample .queueOne) 0),
      .commit (.fire (.sample .queueOne (60 * NS))), .scan [⟨0⟩], .lock, .claim true 0, .unlock,
      .recv, .load 0 true, .activate 0 true, .enter 0, .loadTimer 0 true true 0,
      .commit (.fire (.sample .queueOne (120 * NS))), .scan [⟨0⟩], .lock, .claim true 0]
    d.reply.store.pendingClaims.length = 1 ∧ d.executing.map (·.runId) = [⟨1⟩] ∧
      (d.executing.filter (·.timerId = ⟨0⟩)).length ≤ 1 :=
  ⟨by decide +kernel, by decide +kernel,
    (lanes_exclusive (run_dispatch _) init_empty).2 ⟨0⟩ .queueOne (by decide +kernel)⟩

end Sample

end Bellman

/-
Bellman/Ledger.lean

What each operation does to the run ledger.

Statements that change rows in place map a function over the rows that
keeps every row's key; a claim appends one row.  The rules here say so for
each operation, and the main result puts them together for the fire
transaction:

    runs after = (runs before ++ [claim]).map (disposition)

where the disposition finishes the new claim, finishes and cancels the
older ones of its timer, or does nothing, as the overlap policy says
(`fireTx_spec`).

Alongside, `Audit` relates two stores when finished claims are untouched
and the outbox has grown by exactly the outcome events of the claims that
became finished: one for each, of the kind of its outcome.  It is a
preorder on well-formed stores, and the units that finish a claim together
with its event are in it.
-/
import Bellman.Frame

namespace Bellman

open ProgramLogic Prog ReplyM

/-! ### Rows and keys -/

/-- The columns that no statement ever changes. -/
def RunClaim.key (r : RunClaim) : Uuid × Uuid × Int × Int × Nat :=
  (r.runId, r.timerId, r.scheduledFor, r.claimedAt, r.eventSequence)

namespace RunClaim

variable {r r' : RunClaim}

theorem runId_of_key (h : r.key = r'.key) : r.runId = r'.runId := congrArg Prod.fst h

theorem timerId_of_key (h : r.key = r'.key) : r.timerId = r'.timerId :=
  congrArg (·.2.1) h

theorem scheduledFor_of_key (h : r.key = r'.key) : r.scheduledFor = r'.scheduledFor :=
  congrArg (·.2.2.1) h

theorem eventSequence_of_key (h : r.key = r'.key) : r.eventSequence = r'.eventSequence :=
  congrArg (·.2.2.2.2) h

@[simp] theorem key_finish (outcome : RunOutcome) (reason : Option String) (now : Int)
    (r : RunClaim) : (r.finish outcome reason now).key = r.key := rfl

@[simp] theorem isUnfinished_finish (outcome : RunOutcome) (reason : Option String) (now : Int)
    (r : RunClaim) : (r.finish outcome reason now).isUnfinished = false := rfl

end RunClaim

/-- A row function that keeps every key, switched on by a condition. -/
theorem key_ite {p : RunClaim → Bool} {f : RunClaim → RunClaim} (hf : ∀ r, (f r).key = r.key)
    (r : RunClaim) : (if p r then f r else r).key = r.key := by
  split
  · exact hf r
  · rfl

namespace Store

variable {s : Store} {f : RunClaim → RunClaim}

theorem getRun_mem {run : Uuid} {r : RunClaim} (h : s.getRun run = some r) :
    r ∈ s.runs ∧ r.runId = run :=
  ⟨List.mem_of_find?_eq_some h, by simpa using List.find?_some h⟩

theorem Wf.getRun_of_mem (h : s.Wf) {r : RunClaim} (hr : r ∈ s.runs) :
    s.getRun r.runId = some r := by
  have hnd := h.run_nodup
  unfold getRun
  generalize s.runs = l at hr hnd
  induction l with
  | nil => simp at hr
  | cons a l ih =>
    rw [List.map_cons, List.nodup_cons] at hnd
    rcases List.mem_cons.mp hr with rfl | hr
    · simp
    · have hne : a.runId ≠ r.runId := fun e =>
        hnd.1 (List.mem_map.mpr ⟨r, hr, e.symm⟩)
      rw [List.find?_cons_of_neg (by simpa using hne)]
      exact ih hr hnd.2

/-- Two rows with one id are one row. -/
theorem Wf.eq_of_runId (h : s.Wf) {r r' : RunClaim} (hr : r ∈ s.runs) (hr' : r' ∈ s.runs)
    (he : r.runId = r'.runId) : r = r' := by
  have h1 := h.getRun_of_mem hr
  rw [he, h.getRun_of_mem hr'] at h1
  exact (Option.some.inj h1).symm

theorem getRun_map (hf : ∀ r, (f r).key = r.key) (run : Uuid) :
    ({ s with runs := s.runs.map f }).getRun run = (s.getRun run).map f := by
  have hid : (fun r : RunClaim => (f r).runId == run) = fun r => r.runId == run := by
    funext r
    rw [RunClaim.runId_of_key (hf r)]
  unfold getRun
  rw [List.find?_map]
  exact congrArg (fun p => (s.runs.find? p).map f) hid

theorem getRun_append (c : RunClaim) (run : Uuid) :
    ({ s with runs := s.runs ++ [c] }).getRun run =
      (s.getRun run).or (if c.runId = run then some c else none) := by
  unfold getRun
  rw [List.find?_append]
  by_cases h : c.runId = run <;> simp [h]

/-- Statements that keep keys keep the constraints of the schema. -/
theorem Wf.map (h : s.Wf) (hf : ∀ r, (f r).key = r.key)
    (ho : ∀ r ∈ s.runs, (f r).outcome.isSome ↔ (f r).status = .finished) :
    Wf { s with runs := s.runs.map f } where
  run_lt r hr := by
    obtain ⟨r₀, hr₀, rfl⟩ := List.mem_map.mp hr
    rw [RunClaim.runId_of_key (hf r₀)]
    exact h.run_lt r₀ hr₀
  event_lt := h.event_lt
  run_nodup := by
    have e : (s.runs.map f).map (·.runId) = s.runs.map (·.runId) := by
      rw [List.map_map]
      exact List.map_congr_left fun r _ => RunClaim.runId_of_key (hf r)
    simpa only [e] using h.run_nodup
  slot_ne := List.pairwise_map.mpr (h.slot_ne.imp fun {a b} hab ht => by
    rw [RunClaim.timerId_of_key (hf a), RunClaim.timerId_of_key (hf b)] at ht
    rw [RunClaim.scheduledFor_of_key (hf a), RunClaim.scheduledFor_of_key (hf b)]
    exact hab ht)
  seq_lt := List.pairwise_map.mpr (h.seq_lt.imp fun {a b} hab ht => by
    rw [RunClaim.timerId_of_key (hf a), RunClaim.timerId_of_key (hf b)] at ht
    rw [RunClaim.eventSequence_of_key (hf a), RunClaim.eventSequence_of_key (hf b)]
    exact hab ht)
  outcome_iff r hr := by
    obtain ⟨r₀, hr₀, rfl⟩ := List.mem_map.mp hr
    exact ho r₀ hr₀

/-- Every claim of the timer has a smaller event sequence than the next. -/
theorem lt_nextSequence {timerId : Uuid} {r : RunClaim} (hr : r ∈ s.runs)
    (ht : r.timerId = timerId) : r.eventSequence < s.nextSequence timerId := by
  have hmax : ∀ (l : List Nat) (a : Nat), a ≤ l.foldl max a ∧ ∀ n ∈ l, n ≤ l.foldl max a := by
    intro l
    induction l with
    | nil => simp
    | cons b l ih =>
      intro a
      obtain ⟨h1, h2⟩ := ih (max a b)
      refine ⟨by simp only [List.foldl_cons]; omega, fun n hn => ?_⟩
      rcases List.mem_cons.mp hn with rfl | hn
      · simp only [List.foldl_cons]; omega
      · exact h2 n hn
  have hmem : r.eventSequence ∈ (s.runs.filter (·.timerId == timerId)).map (·.eventSequence) :=
    List.mem_map.mpr ⟨r, List.mem_filter.mpr ⟨hr, by simpa using ht⟩, rfl⟩
  exact Nat.lt_succ_of_le ((hmax _ 0).2 _ hmem)

theorem getClaimFor_eq_none {timerId : Uuid} {scheduledFor : Int} :
    s.getClaimFor timerId scheduledFor = none ↔
      ∀ r ∈ s.runs, r.timerId = timerId → r.scheduledFor ≠ scheduledFor := by
  simp [getClaimFor]

/-- The claim of an unclaimed slot keeps the constraints. -/
theorem Wf.claim (h : s.Wf) {timerId : Uuid} {scheduledFor : Int} (now : Int)
    (hslot : s.getClaimFor timerId scheduledFor = none) :
    Wf { s with
      nextUuid := s.nextUuid + 1
      runs := s.runs ++ [s.newClaim ⟨s.nextUuid⟩ timerId scheduledFor now] } where
  run_lt r hr := by
    rcases List.mem_append.mp hr with hr | hr
    · exact Nat.lt_succ_of_lt (h.run_lt r hr)
    · obtain rfl := List.mem_singleton.mp hr
      exact Nat.lt_succ_self _
  event_lt e he := Nat.lt_succ_of_lt (h.event_lt e he)
  run_nodup := by
    rw [List.map_append, List.nodup_append]
    refine ⟨h.run_nodup, by simp, ?_⟩
    intro a ha b hb
    obtain ⟨r, hr, rfl⟩ := List.mem_map.mp ha
    have hlt := h.run_lt r hr
    rintro rfl
    simp only [List.map_cons, List.map_nil, List.mem_singleton] at hb
    rw [hb] at hlt
    exact Nat.lt_irrefl _ hlt
  slot_ne := by
    refine List.pairwise_append.mpr ⟨h.slot_ne, by simp, fun a ha b hb ht => ?_⟩
    obtain rfl := List.mem_singleton.mp hb
    exact getClaimFor_eq_none.mp hslot a ha ht
  seq_lt := by
    refine List.pairwise_append.mpr ⟨h.seq_lt, by simp, fun a ha b hb ht => ?_⟩
    obtain rfl := List.mem_singleton.mp hb
    exact lt_nextSequence ha ht
  outcome_iff r hr := by
    rcases List.mem_append.mp hr with hr | hr
    · exact h.outcome_iff r hr
    · obtain rfl := List.mem_singleton.mp hr
      simp [newClaim]

end Store

/-! ### The statements -/

section Statements

variable {Q : Nat → Store → Prop} {E : Abort → Store → Prop} {s : Store}

theorem wp_updateRuns {p : RunClaim → Bool} {f : RunClaim → RunClaim} :
    wp (updateRuns p f) Q E s ↔
      Q (s.runs.filter p).length { s with runs := s.runs.map fun r => if p r then f r else r } :=
  Iff.rfl

/-- Whether a claim is there and not finished. -/
def Store.isOpen (s : Store) (run : Uuid) : Bool := (s.getRun run).any (·.isUnfinished)

theorem Store.isOpen_iff {s : Store} {run : Uuid} :
    s.isOpen run = true ↔ ∃ r, s.getRun run = some r ∧ r.isUnfinished = true := by
  unfold Store.isOpen
  cases s.getRun run <;> simp

theorem Store.Wf.count_open {s : Store} (h : s.Wf) (run : Uuid) :
    ((s.runs.filter fun r => r.runId == run && r.isUnfinished).length == 1) = s.isOpen run := by
  have hnd := h.run_nodup
  unfold Store.isOpen Store.getRun
  generalize s.runs = l at hnd
  induction l with
  | nil => simp
  | cons a l ih =>
    rw [List.map_cons, List.nodup_cons] at hnd
    by_cases ha : a.runId = run
    · have hl : l.filter (fun r => r.runId == run && r.isUnfinished) = [] := by
        rw [List.filter_eq_nil_iff]
        intro r hr
        have : r.runId ≠ run := fun e => hnd.1 (List.mem_map.mpr ⟨r, hr, e.trans ha.symm⟩)
        simp [this]
      rw [List.find?_cons_of_pos (by simpa using ha)]
      by_cases hu : a.isUnfinished = true
      · simp [ha, hu, hl]
      · simp [hu, hl]
    · rw [List.find?_cons_of_neg (by simpa using ha), List.filter_cons]
      simp only [ha, beq_eq_false_iff_ne.mpr, ne_eq, not_false_eq_true, Bool.false_and,
        Bool.false_eq_true, if_false]
      exact ih hnd.2

/-- The rows after the finish of one claim. -/
def finishRow (run : Uuid) (outcome : RunOutcome) (reason : Option String) (now : Int)
    (r : RunClaim) : RunClaim :=
  if r.runId == run && r.isUnfinished then r.finish outcome reason now else r

theorem key_finishRow (run : Uuid) (outcome : RunOutcome) (reason : Option String) (now : Int)
    (r : RunClaim) : (finishRow run outcome reason now r).key = r.key :=
  key_ite (f := RunClaim.finish outcome reason now)
    (p := fun r => r.runId == run && r.isUnfinished) (fun _ => rfl) r

theorem finishRow_outcome_iff {run : Uuid} {outcome : RunOutcome} {reason : Option String}
    {now : Int} {r : RunClaim} (h : r.outcome.isSome ↔ r.status = .finished) :
    (finishRow run outcome reason now r).outcome.isSome ↔
      (finishRow run outcome reason now r).status = .finished := by
  unfold finishRow
  split
  · simp [RunClaim.finish]
  · exact h

theorem wp_finishRunConn {Q : Bool → Store → Prop} (h : s.Wf) {run : Uuid}
    {outcome : RunOutcome} {reason : Option String} {now : Int} :
    wp (finishRunConn run outcome reason now) Q E s ↔
      Q (s.isOpen run) { s with runs := s.runs.map (finishRow run outcome reason now) } := by
  unfold finishRunConn
  rw [wp_bind, wp_updateRuns, wp_pure, h.count_open]
  rfl

theorem Store.Wf.finish {s : Store} (h : s.Wf) (run : Uuid) (outcome : RunOutcome)
    (reason : Option String) (now : Int) :
    Store.Wf { s with runs := s.runs.map (finishRow run outcome reason now) } :=
  h.map (key_finishRow run outcome reason now) fun r hr =>
    finishRow_outcome_iff (h.outcome_iff r hr)

theorem wp_claimRunConn {Q : RunClaim → Store → Prop} (h : s.Wf) {timerId : Uuid}
    {scheduledFor now : Int} :
    wp (claimRunConn timerId scheduledFor now) Q E s ↔
      if (s.getClaimFor timerId scheduledFor).isSome then
        E (.error (.alreadyClaimed timerId scheduledFor)) { s with nextUuid := s.nextUuid + 1 }
      else
        Q (s.newClaim ⟨s.nextUuid⟩ timerId scheduledFor now) { s with
          nextUuid := s.nextUuid + 1
          runs := s.runs ++ [s.newClaim ⟨s.nextUuid⟩ timerId scheduledFor now] } := by
  have hfresh : s.getRun ⟨s.nextUuid⟩ = none := by
    rw [Store.getRun, List.find?_eq_none]
    intro r hr he
    have hlt := h.run_lt r hr
    rw [show r.runId = ⟨s.nextUuid⟩ by simpa using he] at hlt
    exact Nat.lt_irrefl _ hlt
  have hrun : ({ s with nextUuid := s.nextUuid + 1 } : Store).getRun ⟨s.nextUuid⟩ = none := hfresh
  unfold claimRunConn newUuid fail
  simp only [wp_bind, wp_modifyGet, wp_get, hrun, Option.isSome_none, Bool.false_eq_true,
    false_or]
  by_cases hslot : (s.getClaimFor timerId scheduledFor).isSome = true
  · have hslot' : ({ s with nextUuid := s.nextUuid + 1 } : Store).getClaimFor timerId
      scheduledFor |>.isSome := hslot
    simp only [hslot, hslot', if_true, wp_throw]
  · have hslot' : ¬(({ s with nextUuid := s.nextUuid + 1 } : Store).getClaimFor timerId
      scheduledFor |>.isSome) := hslot
    simp only [hslot, hslot']
    exact Iff.rfl

end Statements

/-- Finishing a claim that is not open changes no row. -/
theorem Store.Wf.map_finishRow_eq {s : Store} (h : s.Wf) {run : Uuid} (ho : s.isOpen run = false)
    (outcome : RunOutcome) (reason : Option String) (now : Int) :
    s.runs.map (finishRow run outcome reason now) = s.runs := by
  have hid : ∀ r ∈ s.runs, finishRow run outcome reason now r = id r := by
    intro r hr
    unfold finishRow
    by_cases hrun : r.runId = run
    · have hget := h.getRun_of_mem hr
      rw [hrun] at hget
      have hu : r.isUnfinished = false := by simpa [Store.isOpen, hget] using ho
      simp [hu]
    · simp [hrun]
  rw [List.map_congr_left hid, List.map_id]

/-! ### The audit of outcomes -/

/-- The kinds of the outcome events about a run. -/
def outcomesOf (run : Uuid) (evs : List EventRecord) : List RunState :=
  (evs.filter fun e => e.kind.isOutcome && e.runId == some run).map (·.kind)

theorem outcomesOf_append (run : Uuid) (evs evs' : List EventRecord) :
    outcomesOf run (evs ++ evs') = outcomesOf run evs ++ outcomesOf run evs' := by
  simp [outcomesOf]

theorem outcomesOf_eq_nil {run : Uuid} {evs : List EventRecord}
    (h : ∀ e ∈ evs, e.reportsOutcome = false) : outcomesOf run evs = [] := by
  have : evs.filter (fun e => e.kind.isOutcome && e.runId == some run) = [] := by
    refine List.filter_eq_nil_iff.mpr fun e he hrun => ?_
    rw [Bool.and_eq_true, beq_iff_eq] at hrun
    have hno := h e he
    rw [EventRecord.reportsOutcome, hrun.1, hrun.2] at hno
    cases hno
  rw [outcomesOf, this, List.map_nil]

/-- The outcome of a claim, if it has one. -/
def Store.outcomeOf (s : Store) (run : Uuid) : Option RunOutcome :=
  (s.getRun run).bind (·.outcome)

/-- The events owed for a claim by a change from `s` to `s'`: one, of the
kind of its outcome, when it became finished. -/
def owed (s s' : Store) (run : Uuid) : List RunState :=
  match s.outcomeOf run, s'.outcomeOf run with
  | none, some o => [o.event]
  | _, _ => []

theorem Store.outcomeOf_isSome_iff {s : Store} (h : s.Wf) {run : Uuid} :
    (s.outcomeOf run).isSome ↔ ∃ r, s.getRun run = some r ∧ r.status = .finished := by
  unfold Store.outcomeOf
  cases hg : s.getRun run with
  | none => simp
  | some r => simpa using h.outcome_iff r (Store.getRun_mem hg).1

/-- Finished claims are untouched, and the new events are those owed. -/
structure Audit (s s' : Store) : Prop where
  wf : s'.Wf
  frozen : ∀ run r, s.getRun run = some r → r.status = .finished → s'.getRun run = some r
  events : ∃ evs, s'.eventOutbox = s.eventOutbox ++ evs ∧
    ∀ run, outcomesOf run evs = owed s s' run

/-- `Audit` of a well-formed store. -/
def Audited (s s' : Store) : Prop := s.Wf → Audit s s'

/-- A finished claim keeps its outcome. -/
theorem Audit.outcomeOf_eq {s s' : Store} (h : Audit s s') (hs : s.Wf) {run : Uuid}
    {o : RunOutcome} (ho : s.outcomeOf run = some o) : s'.outcomeOf run = some o := by
  have hsome : (s.outcomeOf run).isSome := by rw [ho]; rfl
  obtain ⟨r, hr, hf⟩ := (Store.outcomeOf_isSome_iff hs).mp hsome
  have hr' := h.frozen run r hr hf
  unfold Store.outcomeOf at ho ⊢
  rwa [hr', ← hr]

instance : Std.Refl Audited :=
  ⟨fun s hs => ⟨hs, fun _ _ h _ => h, [], by simp, fun run => by
    unfold owed
    cases s.outcomeOf run <;> rfl⟩⟩

instance : IsTrans Store Audited where
  trans s s' s'' h h' hs := by
    have a := h hs
    have a' := h' a.wf
    obtain ⟨evs, he, hk⟩ := a.events
    obtain ⟨evs', he', hk'⟩ := a'.events
    refine ⟨a'.wf, fun run r hr hf => a'.frozen run r (a.frozen run r hr hf) hf,
      evs ++ evs', by rw [he', he, List.append_assoc], fun run => ?_⟩
    rw [outcomesOf_append, hk, hk']
    unfold owed
    cases ho : s.outcomeOf run with
    | some o =>
      rw [a.outcomeOf_eq hs ho]
      simp
    | none =>
      cases ho' : s'.outcomeOf run with
      | none => simp
      | some o' =>
        rw [a'.outcomeOf_eq a.wf ho']
        simp

/-- What only logs owes nothing. -/
theorem Audited.of_logs {γ : Type} {proj : Store → γ} {s s' : Store} (h : Logs proj s s')
    (hr : s'.runs = s.runs) : Audited s s' := by
  intro hs
  have hget : ∀ run, s'.getRun run = s.getRun run := fun run => by
    unfold Store.getRun
    rw [hr]
  obtain ⟨evs, he, hk⟩ := h.events
  refine ⟨h.wf hs, fun run r hr _ => (hget run).trans hr, evs, he, fun run => ?_⟩
  rw [outcomesOf_eq_nil hk]
  unfold owed Store.outcomeOf
  rw [hget]
  cases (s.getRun run).bind (·.outcome) <;> rfl

theorem owed_eq_nil {s s' : Store} {run : Uuid} (h : s'.outcomeOf run = s.outcomeOf run) :
    owed s s' run = [] := by
  unfold owed
  rw [h]
  cases s.outcomeOf run <;> rfl

/-- A statement that leaves outcomes and finished rows alone. -/
theorem Audited.of_map {s : Store} {f : RunClaim → RunClaim} (hf : ∀ r, (f r).key = r.key)
    (hfin : ∀ r, r.status = .finished → f r = r)
    (hopen : ∀ r, r.status ≠ .finished →
      (f r).status ≠ .finished ∧ (f r).outcome = r.outcome) :
    Audited s { s with runs := s.runs.map f } := by
  intro hs
  have ho : ∀ r, (f r).outcome = r.outcome := fun r => by
    by_cases h : r.status = .finished
    · rw [hfin r h]
    · exact (hopen r h).2
  refine ⟨hs.map hf fun r hr => ?_, fun run r hr h => ?_, [], by simp, fun run => ?_⟩
  · by_cases h : r.status = .finished
    · rw [hfin r h]
      exact hs.outcome_iff r hr
    · rw [ho, hs.outcome_iff r hr]
      exact ⟨fun h' => absurd h' h, fun h' => absurd h' (hopen r h).1⟩
  · rw [Store.getRun_map hf, hr, Option.map_some, hfin r h]
  · refine (owed_eq_nil ?_).symm
    unfold Store.outcomeOf
    rw [Store.getRun_map hf]
    cases s.getRun run <;> simp [ho]

/-- Moving claims between the two open states. -/
theorem Audited.of_move {s : Store} {p : RunClaim → Bool} {st : ClaimStatus}
    (hst : st ≠ .finished) (hp : ∀ r, p r = true → r.status ≠ .finished) :
    Audited s
      { s with runs := s.runs.map fun r => if p r then { r with status := st } else r } := by
  refine Audited.of_map (key_ite (f := fun r => { r with status := st }) fun _ => rfl)
    (fun r hr => if_neg fun h => hp r h hr) fun r hr => ?_
  split
  · exact ⟨hst, rfl⟩
  · exact ⟨hr, rfl⟩

/-- The claim of an unclaimed slot. -/
theorem Audited.of_claim {s : Store} {timerId : Uuid} {scheduledFor : Int} (now : Int)
    (hslot : s.getClaimFor timerId scheduledFor = none) :
    Audited s { s with
      nextUuid := s.nextUuid + 1
      runs := s.runs ++ [s.newClaim ⟨s.nextUuid⟩ timerId scheduledFor now] } := by
  intro hs
  refine ⟨hs.claim now hslot, fun run r hr _ => ?_, [], by simp, fun run => ?_⟩
  · exact (Store.getRun_append _ run).trans (by rw [hr, Option.some_or])
  · refine (owed_eq_nil ?_).symm
    unfold Store.outcomeOf
    refine (congrArg (Option.bind · RunClaim.outcome)
      (Store.getRun_append (s := s) (s.newClaim ⟨s.nextUuid⟩ timerId scheduledFor now) run)).trans
      ?_
    cases s.getRun run with
    | some r => rfl
    | none =>
      rw [Option.none_or]
      split <;> rfl

/-- An open claim finished together with its event. -/
theorem Audited.of_finish {s : Store} {run : Uuid} (ho : s.isOpen run = true)
    (outcome : RunOutcome) (reason : Option String) (now : Int) {e : EventRecord}
    (hid : e.eventId = ⟨s.nextUuid⟩) (hkind : e.kind = outcome.event)
    (hrun : e.runId = some run) :
    Audited s { s with
      runs := s.runs.map (finishRow run outcome reason now)
      nextUuid := s.nextUuid + 1
      eventOutbox := s.eventOutbox ++ [e] } := by
  intro hs
  have hget (run' : Uuid) := Store.getRun_map (s := s) (key_finishRow run outcome reason now) run'
  have hev : outcome.event.isOutcome = true := by cases outcome <;> rfl
  refine ⟨(hs.finish run outcome reason now).emit e hid, fun run' r hr h => ?_, [e], rfl,
    fun run' => ?_⟩
  · refine (hget run').trans ?_
    rw [hr, Option.map_some, finishRow]
    simp [RunClaim.isUnfinished, h]
  · obtain ⟨r, hr, hu⟩ := Store.isOpen_iff.mp ho
    by_cases h : run' = run
    · subst h
      have hnone : r.outcome = none := by
        have := (hs.outcome_iff r (Store.getRun_mem hr).1).not
        rw [Option.isSome_iff_ne_none, not_not] at this
        exact this.mpr (by simpa [RunClaim.isUnfinished] using hu)
      have h1 : s.outcomeOf run' = none := by simp [Store.outcomeOf, hr, hnone]
      have h2 : Store.outcomeOf { s with
          runs := s.runs.map (finishRow run' outcome reason now)
          nextUuid := s.nextUuid + 1
          eventOutbox := s.eventOutbox ++ [e] } run' = some outcome := by
        refine (congrArg (Option.bind · RunClaim.outcome) (hget run')).trans ?_
        simp [hr, finishRow, (Store.getRun_mem hr).2, hu, RunClaim.finish]
      simp [outcomesOf, owed, h1, h2, hkind, hev, hrun]
    · have hne : (some run == some run') = false := by simpa using fun h' => h h'.symm
      rw [owed_eq_nil]
      · simp [outcomesOf, hrun, hne]
      · refine (congrArg (Option.bind · RunClaim.outcome) (hget run')).trans ?_
        unfold Store.outcomeOf
        cases hr' : s.getRun run' with
        | none => rfl
        | some r' =>
          have : r'.runId ≠ run := fun e => h ((Store.getRun_mem hr').2.symm.trans e)
          simp [finishRow, this]

end Bellman

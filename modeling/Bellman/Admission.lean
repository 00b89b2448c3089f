/-
Bellman/Admission.lean

The overlap policies over whole runs.

Admission is decided once, in the fire transaction, from the older claims
of the timer that are executable.  Under Skip, QueueOne and Parallel the
number of executable claims then stays within the bound of the policy,
whatever else commits in between: no other commit makes a claim executable.

Under Replace a fire finishes the older pending claims, and an older active
one it can only ask to cancel.  Such a claim carries `cancel_requested` for
good (`Superseding`); what the ledger does not rule out is that a re-pend
makes it pending again, and an activation starts it over.

Main results: the bounds hold in every state of a run exactly when no step
re-pends a claim that was asked to cancel (`admitted_iff`), and no
superseded claim is activated exactly when no activation takes a claim that
was asked to cancel (`replace_final_iff`).
-/
import Bellman.Commit

namespace Bellman

open ProgramLogic Prog ReplyM

/-! ### Newer claims -/

/-- A newer claim of the same timer has been committed. -/
def Store.superseded (s : Store) (r : RunClaim) : Bool :=
  s.runs.any fun r' => r'.timerId == r.timerId && decide (r.eventSequence < r'.eventSequence)

theorem Store.superseded_iff {s : Store} {r : RunClaim} : s.superseded r = true ↔
    ∃ r' ∈ s.runs, r'.timerId = r.timerId ∧ r.eventSequence < r'.eventSequence := by
  simp [Store.superseded]

/-- The commits that keep a timer under one policy: its fires read the
policy, and each of its claims goes through the fire transaction. -/
def Commit.underPolicy (policy : OverlapPolicy) (timerId : Uuid) : Commit → Bool
  | fire f => f.timer.id != timerId || f.timer.overlap == policy
  | claimRun id _ _ => id != timerId
  | _ => true

/-- What every commit under a policy does to the rows: each changes by
itself, and at most one goes in. -/
inductive Admits (policy : OverlapPolicy) (timerId : Uuid) (c : Commit) (s s' : Store) : Prop
  /-- Nothing goes in. -/
  | rows : s'.runs = s.runs.map c.row → Admits policy timerId c s s'
  /-- A claim of another timer goes in, and no row of this one changes. -/
  | other (f : RunClaim → RunClaim) (claim : RunClaim) :
      claim.timerId ≠ timerId → (∀ r, (f r).key = r.key) →
      (∀ r ∈ s.runs, r.timerId = timerId → f r = r) →
      s'.runs = (s.runs ++ [claim]).map f → Admits policy timerId c s s'
  /-- A fire of the timer commits. -/
  | fired (f : Firing) (claim : RunClaim) :
      f.timer.id = timerId → f.timer.overlap = policy → Fired f claim s s' →
      Admits policy timerId c s s'

theorem dispose_of_other {timer : Timer} {new : Uuid} {older : Nat} {utc : Int} {r : RunClaim}
    (ht : r.timerId ≠ timer.id) (hnew : r.runId ≠ new) :
    dispose timer new older utc r = r := by
  unfold dispose replaceRow
  split
  · rw [if_neg fun h => ht h.1]
  · split
    · rfl
    · simp [finishRow, hnew]

section

variable [Calendar] {cfg : FireConfig} {policy : OverlapPolicy} {timerId : Uuid}

theorem Commit.admits (cfg : FireConfig) {c : Commit} {r : ReplyState} (hs : r.store.Wf)
    (hc : c.underPolicy policy timerId = true) :
    Admits policy timerId c r.store (c.after cfg r).store := by
  have heff := Commit.effect cfg c hs
  cases c with
  | claimRun id scheduledFor now =>
    rcases heff with h | ⟨_, h⟩
    · exact .rows (h.trans (List.map_id _).symm)
    · have hne : id ≠ timerId := bne_iff_ne.mp hc
      exact .other (fun q => q) (r.store.newClaim ⟨r.store.nextUuid⟩ _ scheduledFor now) hne
        (fun _ => rfl) (fun _ _ _ => rfl) (h.trans (List.map_id _).symm)
  | fire f =>
    rcases heff with h | ⟨claim, h⟩
    · exact .rows (h.trans (List.map_id _).symm)
    · by_cases ht : f.timer.id = timerId
      · have hpol : (f.timer.id != timerId || f.timer.overlap == policy) = true := hc
        exact .fired f claim ht (by simpa [ht] using hpol) h
      · obtain ⟨u, hu, _, hruns⟩ := h.ledger
        refine .other _ _ ht (key_dispose f.timer u _ f.utc) (fun q hq hqt => ?_) hruns
        apply dispose_of_other
        · rw [hqt]
          exact fun e => ht e.symm
        · exact hu q hq
  | _ => exact .rows heff

end

/-! ### How the rows of a timer change -/

section Rows

variable {s s' : Store} {timerId : Uuid} {f : RunClaim → RunClaim}

/-- Rewriting rows under their keys supersedes nothing and revives
nothing. -/
theorem superseded_map (hf : ∀ r, (f r).key = r.key) (hruns : s'.runs = s.runs.map f)
    (r : RunClaim) : s'.superseded (f r) = s.superseded r := by
  unfold Store.superseded
  rw [hruns, List.any_map]
  refine congrArg (s.runs.any ·) (funext fun q => ?_)
  rw [Function.comp_apply, RunClaim.timerId_of_key (hf q), RunClaim.timerId_of_key (hf r),
    RunClaim.eventSequence_of_key (hf q), RunClaim.eventSequence_of_key (hf r)]

/-- The claim of another timer supersedes nothing of this one. -/
theorem superseded_append {claim : RunClaim} (hc : claim.timerId ≠ timerId) {r : RunClaim}
    (hr : r.timerId = timerId) :
    ({ s with runs := s.runs ++ [claim] } : Store).superseded r = s.superseded r := by
  have hne : (claim.timerId == r.timerId) = false := by
    rw [hr]
    simpa using hc
  simp [Store.superseded, hne]

/-- No claim is made executable by a row function that opens none. -/
theorem openClaims_length_map_le (hf : ∀ r, (f r).key = r.key)
    (hopen : ∀ r, (f r).isUnfinished = true → r.isUnfinished = true)
    (hruns : s'.runs = s.runs.map f) :
    (s'.openClaims timerId).length ≤ (s.openClaims timerId).length := by
  unfold Store.openClaims
  rw [← List.countP_eq_length_filter, ← List.countP_eq_length_filter, hruns, List.countP_map]
  refine List.countP_mono_left fun r _ hr => ?_
  rw [Function.comp_apply, RunClaim.timerId_of_key (hf r), Bool.and_eq_true] at hr
  rw [Bool.and_eq_true]
  exact ⟨hr.1, hopen r hr.2⟩

/-- The executable claims of a timer whose rows stay as they are. -/
theorem openClaims_other {claim : RunClaim} (hc : claim.timerId ≠ timerId)
    (hf : ∀ r, (f r).key = r.key) (hsame : ∀ r ∈ s.runs, r.timerId = timerId → f r = r)
    (hruns : s'.runs = (s.runs ++ [claim]).map f) :
    s'.openClaims timerId = s.openClaims timerId := by
  have hlast : ((f claim).timerId == timerId) = false := by
    rw [RunClaim.timerId_of_key (hf claim)]
    simpa using hc
  have hold : (s.runs.map f).filter (fun r => r.timerId == timerId && r.isUnfinished) =
      s.runs.filter (fun r => r.timerId == timerId && r.isUnfinished) := by
    generalize s.runs = l at hsame
    induction l with
    | nil => rfl
    | cons a l ih =>
      have ih := ih fun r hr => hsame r (List.mem_cons_of_mem a hr)
      rw [List.map_cons, List.filter_cons, List.filter_cons, ih]
      by_cases ht : a.timerId = timerId
      · rw [hsame a List.mem_cons_self ht]
      · have hfa : (f a).timerId ≠ timerId := by
          rw [RunClaim.timerId_of_key (hf a)]
          exact ht
        simp [ht, hfa]
  unfold Store.openClaims
  rw [hruns, List.map_append, List.filter_append, hold]
  simp [hlast]

end Rows

/-! ### The counting policies -/

/-- The most executable claims of a timer that a policy lets be; Replace
bounds them another way. -/
def OverlapPolicy.bound : OverlapPolicy → Option Nat
  | .skip => some 1
  | .queueOne => some 2
  | .parallel cap => some cap
  | .replace => none

theorem skipReason_eq_none {policy : OverlapPolicy} {b n : Nat} (hb : policy.bound = some b) :
    skipReason policy n = none ↔ n < b := by
  cases policy <;> simp_all [OverlapPolicy.bound, skipReason]

section Fires

variable {s s' : Store} {f : Firing} {claim : RunClaim}

/-- Under a counting policy a fire leaves the older rows alone, and its own
claim stays executable only when there is room for it. -/
theorem Fired.openClaims_length_le (h : Fired f claim s s') {b : Nat}
    (hb : f.timer.overlap.bound = some b) (hle : (s.openClaims f.timer.id).length ≤ b) :
    (s'.openClaims f.timer.id).length ≤ b := by
  obtain ⟨u, hu, _, hruns⟩ := h.ledger
  set n := (s.openClaims f.timer.id).length with hn
  set c₀ := s.newClaim u f.timer.id f.scheduledFor f.utc with hc₀
  have hrep : f.timer.overlap ≠ .replace := by
    intro e
    rw [e] at hb
    cases hb
  have hold : s.runs.map (dispose f.timer u n f.utc) = s.runs := by
    have : ∀ r ∈ s.runs, dispose f.timer u n f.utc r = id r := by
      intro r hr
      unfold dispose
      rw [if_neg hrep]
      split
      · rfl
      · simp [finishRow, hu r hr]
    rw [List.map_congr_left this, List.map_id]
  have hopen : (s'.openClaims f.timer.id).length = n +
      ([dispose f.timer u n f.utc c₀].filter fun r =>
        r.timerId == f.timer.id && r.isUnfinished).length := by
    unfold Store.openClaims
    rw [hruns, List.map_append, hold, List.filter_append, List.length_append]
    rfl
  rw [hopen]
  unfold dispose
  rw [if_neg hrep]
  cases hskip : skipReason f.timer.overlap n with
  | none =>
    -- There is room: one more claim is executable.
    have hlt := (skipReason_eq_none hb).mp hskip
    have hone := List.length_filter_le
      (fun r : RunClaim => r.timerId == f.timer.id && r.isUnfinished) [c₀]
    simp only [List.length_singleton] at hone
    dsimp only
    omega
  | some reason =>
    -- The claim went in finished.
    have hu₀ : c₀.runId = u := rfl
    have ho₀ : c₀.isUnfinished = true := rfl
    have hfin : finishRow u .skippedMisfire (some reason) f.utc c₀ =
        c₀.finish .skippedMisfire (some reason) f.utc := by
      simp [finishRow, hu₀, ho₀]
    simp only [hfin, List.filter_cons, RunClaim.isUnfinished_finish, Bool.and_false,
      Bool.false_eq_true, if_false, List.filter_nil, List.length_nil]
    omega

end Fires

section

variable [Calendar] {cfg : FireConfig} {policy : OverlapPolicy} {timerId : Uuid}

/-- **Counting.**  The bound of a counting policy survives every commit. -/
theorem openClaims_length_step {c : Commit} {r : ReplyState} {b : Nat} (hs : r.store.Wf)
    (hc : c.underPolicy policy timerId = true) (hb : policy.bound = some b)
    (hle : (r.store.openClaims timerId).length ≤ b) :
    ((c.after cfg r).store.openClaims timerId).length ≤ b := by
  rcases Commit.admits cfg hs hc with hruns | ⟨f, claim, hne, hf, hsame, hruns⟩ |
    ⟨f, claim, rfl, rfl, hfired⟩
  · exact le_trans (openClaims_length_map_le (key_row c) (fun _ => isUnfinished_of_row) hruns) hle
  · rw [openClaims_other hne hf hsame hruns]
    exact hle
  · exact hfired.openClaims_length_le hb hle

end

/-! ### Replace -/

/-- Under Replace the superseded claims that can still execute are asked to
cancel, and only superseded claims ever are. -/
structure Superseding (timerId : Uuid) (s : Store) : Prop where
  marked : ∀ r ∈ s.runs, r.timerId = timerId → r.isUnfinished = true → s.superseded r = true →
    r.cancelRequested = true
  older : ∀ r ∈ s.runs, r.timerId = timerId → r.cancelRequested = true → s.superseded r = true

/-- No claim that was asked to cancel waits to be activated. -/
def HeldBack (timerId : Uuid) (s : Store) : Prop :=
  ∀ r ∈ s.runs, r.timerId = timerId → r.cancelRequested = true → r.status ≠ .pending

theorem cancelRequested_row (c : Commit) (r : RunClaim) :
    (c.row r).cancelRequested = r.cancelRequested := by
  have hstep := rowStep_row c r
  generalize c.row r = q at hstep ⊢
  cases hstep <;> rfl

/-- What a Replace fire makes of an older claim. -/
inductive Replaced (r : RunClaim) : RunClaim → Prop
  | finished (outcome : RunOutcome) (reason : Option String) (now : Int) :
      r.status = .pending → Replaced r (r.finish outcome reason now)
  | cancelled : r.status = .active → Replaced r { r with cancelRequested := true }
  | kept : r.status = .finished → Replaced r r

theorem replaced_replaceRow {timerId new : Uuid} {utc : Int} {r : RunClaim}
    (ht : r.timerId = timerId) (hnew : r.runId ≠ new) :
    Replaced r (replaceRow timerId new utc r) := by
  unfold replaceRow
  rw [if_pos ⟨ht, hnew⟩]
  split
  · next hst => exact .finished _ _ _ hst
  · next hst => exact .cancelled hst
  · next hst => exact .kept hst

section Fires

variable {s s' : Store} {f : Firing} {claim : RunClaim}

/-- After a fire under Replace the rows of the timer are the images of the
older ones, all of them superseded now, and the new claim, which is not. -/
theorem Fired.replace_cases (h : Fired f claim s s') (hrep : f.timer.overlap = .replace)
    {q : RunClaim} (hq : q ∈ s'.runs) (hqt : q.timerId = f.timer.id) :
    (∃ r ∈ s.runs, r.timerId = f.timer.id ∧ Replaced r q ∧ s'.superseded q = true) ∨
      q.status = .pending ∧ q.cancelRequested = false ∧ s'.superseded q = false := by
  obtain ⟨u, hu, _, hruns⟩ := h.ledger
  set c₀ := s.newClaim u f.timer.id f.scheduledFor f.utc with hc₀
  have hg : dispose f.timer u (s.openClaims f.timer.id).length f.utc =
      replaceRow f.timer.id u f.utc := funext fun r => if_pos hrep
  rw [hg] at hruns
  have hsup : ∀ r, s'.superseded (replaceRow f.timer.id u f.utc r) =
      ({ s with runs := s.runs ++ [c₀] } : Store).superseded r := by
    intro r
    exact superseded_map (key_replaceRow f.timer.id u f.utc) hruns r
  rw [hruns] at hq
  obtain ⟨r, hr, rfl⟩ := List.mem_map.mp hq
  rw [RunClaim.timerId_of_key (key_replaceRow f.timer.id u f.utc r)] at hqt
  rw [hsup r]
  rcases List.mem_append.mp hr with hr | hr
  · left
    refine ⟨r, hr, hqt, replaced_replaceRow hqt (hu r hr), Store.superseded_iff.mpr ?_⟩
    exact ⟨c₀, by simp, hqt.symm, Store.lt_nextSequence hr hqt⟩
  · right
    obtain rfl := List.mem_singleton.mp hr
    have hkeep : replaceRow f.timer.id u f.utc c₀ = c₀ := if_neg fun h => h.2 rfl
    rw [hkeep]
    refine ⟨rfl, rfl, ?_⟩
    rw [Bool.eq_false_iff, Ne, Store.superseded_iff]
    rintro ⟨r', hr', ht', hlt⟩
    -- Nothing is newer than the newest sequence.
    rcases List.mem_append.mp hr' with hr' | hr'
    · exact Nat.lt_asymm hlt (Store.lt_nextSequence hr' ht')
    · rw [List.mem_singleton.mp hr'] at hlt
      exact Nat.lt_irrefl _ hlt

end Fires

/-- A row of the timer that a claim of another timer leaves as it was. -/
theorem mem_of_other {timerId : Uuid} {s s' : Store} {claim : RunClaim} {f : RunClaim → RunClaim}
    (hne : claim.timerId ≠ timerId) (hf : ∀ r, (f r).key = r.key)
    (hsame : ∀ r ∈ s.runs, r.timerId = timerId → f r = r)
    (hruns : s'.runs = (s.runs ++ [claim]).map f) {q : RunClaim} (hq : q ∈ s'.runs)
    (hqt : q.timerId = timerId) : q ∈ s.runs ∧ s'.superseded q = s.superseded q := by
  rw [hruns] at hq
  obtain ⟨r, hr, rfl⟩ := List.mem_map.mp hq
  rw [RunClaim.timerId_of_key (hf r)] at hqt
  rcases List.mem_append.mp hr with hr | hr
  · rw [superseded_map (s := { s with runs := s.runs ++ [claim] }) hf hruns r,
      superseded_append hne hqt, hsame r hr hqt]
    exact ⟨hr, rfl⟩
  · rw [List.mem_singleton.mp hr] at hqt
    exact absurd hqt hne

/-- The commit makes pending again a claim that was asked to cancel. -/
def Commit.rependsCancelled (c : Commit) (timerId : Uuid) (s : Store) : Bool :=
  let asked (r : RunClaim) := r.timerId == timerId && r.status == .active && r.cancelRequested
  match c with
  | .rependRun runId => s.runs.any fun r => r.runId == runId && asked r
  | .rependAllActive => s.runs.any asked
  | _ => false

/-- The row that such a re-pend finds. -/
theorem exists_of_rependsCancelled {timerId : Uuid} {c : Commit} {s : Store}
    (h : c.rependsCancelled timerId s = true) :
    ∃ r ∈ s.runs, r.timerId = timerId ∧ r.cancelRequested = true ∧
      c.row r = { r with status := .pending } := by
  cases c with
  | rependRun runId =>
    obtain ⟨r, hr, hp⟩ := List.any_eq_true.mp h
    simp only [Bool.and_eq_true, beq_iff_eq] at hp
    obtain ⟨hid, ⟨ht, hst⟩, hcancel⟩ := hp
    refine ⟨r, hr, ht, hcancel, if_pos ?_⟩
    simp [hid, hst]
  | rependAllActive =>
    obtain ⟨r, hr, hp⟩ := List.any_eq_true.mp h
    simp only [Bool.and_eq_true, beq_iff_eq] at hp
    obtain ⟨⟨ht, hst⟩, hcancel⟩ := hp
    refine ⟨r, hr, ht, hcancel, if_pos ?_⟩
    simp [hst]
  | _ => cases h

theorem rependsCancelled_of_row {timerId : Uuid} {c : Commit} {s : Store} {r : RunClaim}
    (hr : r ∈ s.runs) (ht : r.timerId = timerId) (hcancel : r.cancelRequested = true)
    (hst : r.status = .active) (hc : c = .rependRun r.runId ∨ c = .rependAllActive) :
    c.rependsCancelled timerId s = true := by
  rcases hc with rfl | rfl
  · exact List.any_eq_true.mpr ⟨r, hr, by simp [ht, hst, hcancel]⟩
  · exact List.any_eq_true.mpr ⟨r, hr, by simp [ht, hst, hcancel]⟩

section

variable [Calendar] {cfg : FireConfig} {timerId : Uuid}

/-- The marks survive every commit. -/
theorem Superseding.step {c : Commit} {r : ReplyState} (h : Superseding timerId r.store)
    (hs : r.store.Wf) (hc : c.underPolicy .replace timerId = true) :
    Superseding timerId (c.after cfg r).store := by
  rcases Commit.admits cfg hs hc with hruns | ⟨f, claim, hne, hf, hsame, hruns⟩ |
    ⟨f, claim, rfl, hrep, hfired⟩
  · constructor
    · intro q hq hqt hu hsup
      rw [hruns] at hq
      obtain ⟨p, hp, rfl⟩ := List.mem_map.mp hq
      rw [superseded_map (key_row c) hruns] at hsup
      rw [RunClaim.timerId_of_key (key_row c p)] at hqt
      rw [cancelRequested_row]
      exact h.marked p hp hqt (isUnfinished_of_row hu) hsup
    · intro q hq hqt hcancel
      rw [hruns] at hq
      obtain ⟨p, hp, rfl⟩ := List.mem_map.mp hq
      rw [superseded_map (key_row c) hruns]
      rw [RunClaim.timerId_of_key (key_row c p)] at hqt
      rw [cancelRequested_row] at hcancel
      exact h.older p hp hqt hcancel
  · constructor
    · intro q hq hqt hu hsup
      obtain ⟨hq, he⟩ := mem_of_other hne hf hsame hruns hq hqt
      exact h.marked q hq hqt hu (he ▸ hsup)
    · intro q hq hqt hcancel
      obtain ⟨hq, he⟩ := mem_of_other hne hf hsame hruns hq hqt
      exact he ▸ h.older q hq hqt hcancel
  · constructor
    · intro q hq hqt hu hsup
      rcases hfired.replace_cases hrep hq hqt with ⟨r, hr, hrt, hrepl, _⟩ | ⟨_, _, hno⟩
      · -- A pending claim was finished, an active one marked.
        cases hrepl with
        | finished => cases hu
        | cancelled => rfl
        | kept hst => simp [RunClaim.isUnfinished, hst] at hu
      · rw [hno] at hsup
        cases hsup
    · intro q hq hqt hcancel
      rcases hfired.replace_cases hrep hq hqt with ⟨r, hr, hrt, _, hsup⟩ | ⟨_, hno, _⟩
      · exact hsup
      · rw [hno] at hcancel
        cases hcancel

/-- Only such a re-pend lets a claim that was asked to cancel wait for an
activation again. -/
theorem heldBack_step_iff {c : Commit} {r : ReplyState} (h : HeldBack timerId r.store)
    (hs : r.store.Wf) (hc : c.underPolicy .replace timerId = true) :
    HeldBack timerId (c.after cfg r).store ↔ c.rependsCancelled timerId r.store = false := by
  constructor
  · intro hafter
    by_contra hrep
    rw [Bool.not_eq_false] at hrep
    obtain ⟨q, hq, hqt, hcancel, hrow⟩ := exists_of_rependsCancelled hrep
    have hruns : (c.after cfg r).store.runs = r.store.runs.map c.row := by
      have heff := Commit.effect cfg c hs
      cases c with
      | rependRun runId => exact heff
      | rependAllActive => exact heff
      | _ => cases hrep
    refine hafter (c.row q) ?_ ?_ ?_ ?_
    · rw [hruns]
      exact List.mem_map_of_mem hq
    · rw [hrow]
      exact hqt
    · rw [hrow]
      exact hcancel
    · rw [hrow]
  · intro hrep q hq hqt hcancel
    rcases Commit.admits cfg hs hc with hruns | ⟨f, claim, hne, hf, hsame, hruns⟩ |
      ⟨f, claim, rfl, hpol, hfired⟩
    · rw [hruns] at hq
      obtain ⟨p, hp, rfl⟩ := List.mem_map.mp hq
      rw [RunClaim.timerId_of_key (key_row c p)] at hqt
      rw [cancelRequested_row] at hcancel
      have hheld := h p hp hqt hcancel
      have hstep := rowStep_row c p
      generalize c.row p = q at hstep ⊢
      cases hstep with
      | stay => exact hheld
      | activate => exact ClaimStatus.noConfusion
      | repend hc hst =>
        rw [rependsCancelled_of_row hp hqt hcancel hst hc] at hrep
        cases hrep
      | finish => exact ClaimStatus.noConfusion
    · exact h q (mem_of_other hne hf hsame hruns hq hqt).1 hqt hcancel
    · rcases hfired.replace_cases hpol hq hqt with ⟨p, hp, hpt, hrepl, _⟩ | ⟨_, hno, _⟩
      · cases hrepl with
        | finished => exact ClaimStatus.noConfusion
        | cancelled hst => simp [hst]
        | kept hst => simp [hst]
      · rw [hno] at hcancel
        cases hcancel

end

/-- The commit activates a claim of the timer when a newer one has been
committed. -/
def Commit.activatesOlder (c : Commit) (timerId : Uuid) (s : Store) : Bool :=
  match c with
  | .activateRun runId => (s.getRun runId).any fun q =>
      q.timerId == timerId && q.status == .pending && s.superseded q
  | _ => false

/-- The commit activates a claim of the timer that was asked to cancel. -/
def Commit.activatesCancelled (c : Commit) (timerId : Uuid) (s : Store) : Bool :=
  match c with
  | .activateRun runId => (s.getRun runId).any fun q =>
      q.timerId == timerId && q.status == .pending && q.cancelRequested
  | _ => false

/-- On a claim that can still execute, the mark and the newer claim are
found together. -/
theorem Superseding.activatesOlder_eq {timerId : Uuid} {s : Store} (h : Superseding timerId s)
    (c : Commit) : c.activatesOlder timerId s = c.activatesCancelled timerId s := by
  cases c with
  | activateRun runId =>
    show (s.getRun runId).any _ = (s.getRun runId).any _
    cases hget : s.getRun runId with
    | none => rfl
    | some q =>
      have hq := (Store.getRun_mem hget).1
      rw [Option.any_some, Option.any_some, Bool.eq_iff_iff]
      simp only [Bool.and_eq_true, beq_iff_eq]
      constructor
      · rintro ⟨⟨ht, hst⟩, hsup⟩
        exact ⟨⟨ht, hst⟩, h.marked q hq ht (RunClaim.isUnfinished_iff.mpr (.inl hst)) hsup⟩
      · rintro ⟨⟨ht, hst⟩, hcancel⟩
        exact ⟨⟨ht, hst⟩, h.older q hq ht hcancel⟩
  | _ => rfl

/-! ### The policies over whole runs -/

/-- What a policy promises of a timer in every state. -/
def Admitted (policy : OverlapPolicy) (timerId : Uuid) (s : Store) : Prop :=
  match policy.bound with
  | some b => (s.openClaims timerId).length ≤ b
  | none => ∀ r ∈ s.openClaims timerId, s.superseded r = true →
      r.status = .active ∧ r.cancelRequested = true

instance (policy : OverlapPolicy) (timerId : Uuid) (s : Store) :
    Decidable (Admitted policy timerId s) := by
  unfold Admitted
  exact match policy.bound with
    | some b => inferInstanceAs (Decidable (_ ≤ b))
    | none => inferInstanceAs (Decidable (∀ r ∈ _, _ → _))

theorem mem_openClaims {s : Store} {timerId : Uuid} {r : RunClaim} :
    r ∈ s.openClaims timerId ↔ r ∈ s.runs ∧ r.timerId = timerId ∧ r.isUnfinished = true := by
  simp [Store.openClaims]

theorem admitted_replace_iff {timerId : Uuid} {s : Store} (h : Superseding timerId s) :
    Admitted .replace timerId s ↔ HeldBack timerId s := by
  constructor
  · intro hadm r hr ht hcancel hst
    have hopen : r ∈ s.openClaims timerId :=
      mem_openClaims.mpr ⟨hr, ht, RunClaim.isUnfinished_iff.mpr (.inl hst)⟩
    have hact := (hadm r hopen (h.older r hr ht hcancel)).1
    rw [hst] at hact
    cases hact
  · intro hheld r hopen hsup
    obtain ⟨hr, ht, hu⟩ := mem_openClaims.mp hopen
    have hcancel := h.marked r hr ht hu hsup
    refine ⟨?_, hcancel⟩
    rcases RunClaim.isUnfinished_iff.mp hu with hst | hst
    · exact absurd hst (hheld r hr ht hcancel)
    · exact hst

section

variable [Calendar] {cfg : FireConfig} {policy : OverlapPolicy} {timerId : Uuid}
  {tr : List (System.Event ReplyState Commit)} {r : ReplyState}

theorem superseding_of_run (h : (ledger cfg).Run {} tr r)
    (hpol : ∀ e ∈ tr, e.label.underPolicy .replace timerId = true) :
    Superseding timerId r.store := by
  refine (h.invariant (I := fun r => r.store.Wf ∧ Superseding timerId r.store) hpol ?_ ?_).2
  · exact ⟨Store.wf_empty, by simp, by simp⟩
  · rintro s c t rfl hc ⟨hs, hsup⟩
    exact ⟨Commit.wf hs, hsup.step hs hc⟩

/-- A step of the run, with the run that led to it. -/
theorem run_to_post (h : (ledger cfg).Run {} tr r) {e : System.Event ReplyState Commit}
    (he : e ∈ tr) : ∃ tr', (ledger cfg).Run {} tr' e.post ∧ ∀ d ∈ tr', d ∈ tr := by
  obtain ⟨hstep, tr', hpre, hsub⟩ := h.mem he
  refine ⟨_, hpre.snoc hstep, fun d hd => ?_⟩
  rcases List.mem_append.mp hd with hd | hd
  · exact hsub d hd
  · rwa [List.mem_singleton.mp hd]

/-- **Overlap admission.**  In a run that keeps a timer under one policy,
what the policy promises holds in every state reached exactly when no step
under Replace re-pends a claim that was asked to cancel. -/
theorem admitted_iff (h : (ledger cfg).Run {} tr r)
    (hpol : ∀ e ∈ tr, e.label.underPolicy policy timerId = true) :
    (∀ e ∈ tr, Admitted policy timerId e.post.store) ↔
      (policy = .replace → ∀ e ∈ tr, e.label.rependsCancelled timerId e.pre.store = false) := by
  cases hb : policy.bound with
  | some b =>
    constructor
    · rintro - rfl
      cases hb
    · intro _ e he
      unfold Admitted
      rw [hb]
      refine (h.invariant_steps
        (I := fun r => r.store.Wf ∧ (r.store.openClaims timerId).length ≤ b) hpol
        ⟨Store.wf_empty, Nat.zero_le b⟩ ?_ e he).2.2.2
      rintro s c t rfl hc ⟨hs, hle⟩
      exact ⟨Commit.wf hs, openClaims_length_step hs hc hb hle⟩
  | none =>
    obtain rfl : policy = .replace := by cases policy <;> first | rfl | cases hb
    have hiff : ∀ e ∈ tr, Admitted .replace timerId e.post.store ↔
        HeldBack timerId e.post.store := by
      intro e he
      obtain ⟨tr', hrun, hsub⟩ := run_to_post h he
      exact admitted_replace_iff (superseding_of_run hrun fun d hd => hpol d (hsub d hd))
    constructor
    · rintro hadm - e he
      obtain ⟨hstep, tr', hpre, hsub⟩ := h.mem he
      have hheld : HeldBack timerId e.pre.store := by
        -- The state before is the empty one or the one after another step.
        refine hpre.invariant (G := fun d => HeldBack timerId d.post.store)
          (I := fun r => HeldBack timerId r.store) ?_ (by simp [HeldBack])
          fun _ _ _ _ hpost _ => hpost
        exact fun d hd => (hiff d (hsub d hd)).mp (hadm d (hsub d hd))
      have hpost := (hiff e he).mp (hadm e he)
      rw [show e.post = e.label.after cfg e.pre from hstep] at hpost
      exact (heldBack_step_iff hheld (wf_of_reached hpre) (hpol e he)).mp hpost
    · intro hrep e he
      refine (hiff e he).mpr ?_
      refine (h.invariant_steps (I := fun r => r.store.Wf ∧ HeldBack timerId r.store)
        (fun e he => And.intro (hpol e he) (hrep rfl e he))
        ⟨Store.wf_empty, by simp [HeldBack]⟩ ?_ e he).2.2.2
      rintro s c t rfl ⟨hc, hno⟩ ⟨hs, hheld⟩
      exact ⟨Commit.wf hs, (heldBack_step_iff hheld hs hc).mpr hno⟩

/-- **Supersession is final** in exactly the runs under Replace that never
activate a claim that was asked to cancel. -/
theorem replace_final_iff (h : (ledger cfg).Run {} tr r)
    (hpol : ∀ e ∈ tr, e.label.underPolicy .replace timerId = true) :
    (∀ e ∈ tr, e.label.activatesOlder timerId e.pre.store = false) ↔
      ∀ e ∈ tr, e.label.activatesCancelled timerId e.pre.store = false := by
  refine forall₂_congr fun e he => ?_
  obtain ⟨_, tr', hpre, hsub⟩ := h.mem he
  have hsup := superseding_of_run hpre fun d hd => hpol d (hsub d hd)
  rw [hsup.activatesOlder_eq]

end

section Sample

attribute [local instance] Calendar.utcOnly

/-- The commits of a Replace timer whose first claim is active when the
second one commits, and is put back and activated again after a restart. -/
def restartedReplace : List Commit :=
  [.createTimer (.sample .replace) 0, .fire (.sample .replace (60 * NS)), .activateRun ⟨1⟩,
    .fire (.sample .replace (120 * NS)), .crash, .rependAllActive, .activateRun ⟨1⟩]

/-- Up to the restart the promise of Replace holds. -/
theorem admitted_replaced :
    let tr := System.trace (fun r c => Commit.after .sample c r) {} (restartedReplace.take 5)
    tr.length = 5 ∧ ∀ e ∈ tr, Admitted .replace ⟨0⟩ e.post.store :=
  ⟨rfl, (admitted_iff (run_commits .sample _) (by decide +kernel)).mpr fun _ =>
    by decide +kernel⟩

/-- After it the first claim is pending, and superseded. -/
theorem not_admitted_restarted : ¬∀ tr r, (ledger .sample).Run {} tr r →
    (∀ e ∈ tr, e.label.underPolicy .replace ⟨0⟩ = true) →
      ∀ e ∈ tr, Admitted .replace ⟨0⟩ e.post.store := by
  intro h
  have hadm := h _ _ (run_commits .sample restartedReplace) (by decide +kernel)
  revert hadm
  decide +kernel

/-- Up to the restart only the newest claim has been activated. -/
theorem replace_final_replaced :
    let tr := System.trace (fun r c => Commit.after .sample c r) {} (restartedReplace.take 5)
    tr.length = 5 ∧ ∀ e ∈ tr, e.label.activatesOlder ⟨0⟩ e.pre.store = false :=
  ⟨rfl, (replace_final_iff (run_commits .sample _) (by decide +kernel)).mpr (by decide +kernel)⟩

/-- After it the first claim is activated once more. -/
theorem not_replace_final : ¬∀ tr r, (ledger .sample).Run {} tr r →
    (∀ e ∈ tr, e.label.underPolicy .replace ⟨0⟩ = true) →
      ∀ e ∈ tr, e.label.activatesOlder ⟨0⟩ e.pre.store = false := by
  intro h
  have hact := h _ _ (run_commits .sample restartedReplace) (by decide +kernel)
  revert hact
  decide +kernel

end Sample

end Bellman

/-
Bellman/Order.lean

Lane order.

The pump reads the pending claims first and takes the lock of the lane book
later, so that it works on a snapshot.  A snapshot is safe as long as the
claims of a timer only go: what is sent is then the oldest one pending.  A
claim that is put back to pending after the snapshot was read, or while a
newer claim of its timer holds a hint, has been *passed*: the newer claim
goes first.

Main results: in a run that puts no passed claim back, no claim of a timer
under a serial policy is activated while an older one is pending
(`lane_ordered`); a worker that panics after the pump has read the claims
puts a passed claim back (`not_lane_ordered`).
-/
import Bellman.Lanes

namespace Bellman

open ProgramLogic

/-! ### Older claims -/

namespace Store

/-- The pending claims of a timer before an event sequence. -/
def pendingBefore (s : Store) (timerId : Uuid) (sequence : Nat) : List RunClaim :=
  s.runs.filter fun q =>
    q.status == .pending && q.timerId == timerId && decide (q.eventSequence < sequence)

theorem mem_pendingBefore {s : Store} {timerId : Uuid} {sequence : Nat} {q : RunClaim} :
    q ∈ s.pendingBefore timerId sequence ↔ q ∈ s.runs ∧ q.status = .pending ∧
      q.timerId = timerId ∧ q.eventSequence < sequence := by
  simp [pendingBefore, and_assoc]

/-- The row of a known claim has its event sequence. -/
theorem Knows.row {s : Store} {c : RunClaim} (h : s.Knows c) :
    ∃ row ∈ s.runs, row.key = c.key := by
  obtain ⟨row, hrow, hkey⟩ := h
  exact ⟨row, (Store.getRun_mem hrow).1, hkey⟩

theorem Knows.eventSequence_eq {s : Store} (hs : s.Wf) {c q : RunClaim} (h : s.Knows c)
    (hq : q ∈ s.runs) (he : q.runId = c.runId) : q.eventSequence = c.eventSequence := by
  obtain ⟨row, hrow, hkey⟩ := h.row
  obtain rfl := hs.eq_of_runId hq hrow (he.trans (RunClaim.runId_of_key hkey).symm)
  exact RunClaim.eventSequence_of_key hkey

end Store

namespace Dispatch

/-- The row that a step moves from pending to active. -/
def wins (d : Dispatch) : Act → Option RunClaim
  | .activate i true =>
    match d.jobs[i]? with
    | some (.loaded claim) => (d.reply.store.getRun claim.runId).filter (·.status == .pending)
    | _ => none
  | _ => none

/-- The step puts the active claim back to pending. -/
def putsBack (d : Dispatch) (q : RunClaim) : Act → Bool
  | .startup => q.status == .active
  | .panic i true =>
    match d.jobs[i]? with
    | some (.executing claim _) => q.status == .active && claim.runId == q.runId
    | _ => false
  | .loadTimer i false true _ =>
    match d.jobs[i]? with
    | some (.entered claim) => q.status == .active && claim.runId == q.runId
    | _ => false
  | _ => false

/-- What the pump has read lets a newer claim go before this one: it does
not hold this one, and nothing else keeps the pump from sending. -/
def passedByPump (d : Dispatch) (q : RunClaim) : Bool :=
  (d.reply.store.getTimer q.timerId).isSome &&
    (d.lanesFree || (d.lanes.laneOf q.timerId).inLane == 0) &&
    d.todo.any fun g => g.1 == q.timerId && !(g.2.map (·.runId)).contains q.runId &&
      g.2.any fun r => decide (q.eventSequence < r.eventSequence)

/-- A newer claim of the timer holds a hint. -/
def passedByHint (d : Dispatch) (q : RunClaim) : Bool :=
  d.reply.store.runs.any fun r => (d.lanes.laneOf q.timerId).queued.contains r.runId &&
    decide (q.eventSequence < r.eventSequence)

/-- A newer claim of the timer will go first. -/
def passed (d : Dispatch) (q : RunClaim) : Bool := d.passedByPump q || d.passedByHint q

end Dispatch

/-- **Lane order**: what a run activates is the oldest pending claim of the
timer. -/
def LaneOrdered (tr : List (System.Event Dispatch Act)) (t : Uuid) : Prop :=
  ∀ e ∈ tr, ∀ claim ∈ e.pre.wins e.label, claim.timerId = t →
    e.pre.reply.store.pendingBefore t claim.eventSequence = []

/-- No passed claim of the timer is put back. -/
def KeepsPlace (tr : List (System.Event Dispatch Act)) (t : Uuid) : Prop :=
  ∀ e ∈ tr, ∀ q ∈ e.pre.reply.store.runs, q.timerId = t → e.pre.putsBack q e.label = true →
    e.pre.passed q = false

/-- The id of a timer with claims is not given to another timer. -/
def NotReused (tr : List (System.Event Dispatch Act)) (t : Uuid) : Prop :=
  ∀ e ∈ tr, (∃ q ∈ e.pre.reply.store.runs, q.timerId = t) →
    e.pre.reply.store.getTimer t = none → e.post.reply.store.getTimer t = none

/-! ### What a commit leaves pending -/

section Pending

variable [Calendar]

omit [Calendar] in
theorem status_replaceRow {timerId new : Uuid} {utc : Int} {r : RunClaim} {st : ClaimStatus}
    (hst : st ≠ .finished) (h : (replaceRow timerId new utc r).status = st) : r.status = st := by
  unfold replaceRow at h
  split at h
  · split at h
    · exact absurd h.symm hst
    · exact h
    · exact h
  · exact h

omit [Calendar] in
theorem status_finishRow {run : Uuid} {outcome : RunOutcome} {reason : Option String}
    {now : Int} {r : RunClaim} {st : ClaimStatus} (hst : st ≠ .finished)
    (h : (finishRow run outcome reason now r).status = st) : r.status = st := by
  unfold finishRow at h
  split at h
  · exact absurd h.symm hst
  · exact h

omit [Calendar] in
/-- The overlap policy only ever finishes a claim. -/
theorem status_dispose {timer : Timer} {new : Uuid} {older : Nat} {utc : Int} {r : RunClaim}
    {st : ClaimStatus} (hst : st ≠ .finished) (h : (dispose timer new older utc r).status = st) :
    r.status = st := by
  unfold dispose at h
  split at h
  · exact status_replaceRow hst h
  · split at h
    · exact h
    · exact status_finishRow hst h

/-- A row that a commit leaves pending was pending before, or was active
and is put back, or is the newest claim of its timer. -/
theorem pending_after (cfg : FireConfig) (c : Commit) {r : ReplyState} (hs : r.store.Wf)
    {q' : RunClaim} (hq' : q' ∈ (c.after cfg r).store.runs) (hst : q'.status = .pending) :
    (∃ q ∈ r.store.runs, q.key = q'.key ∧ (q.status = .pending ∨
      q.status = .active ∧ (c = .rependRun q.runId ∨ c = .rependAllActive))) ∨
    ∀ q ∈ r.store.runs, q.timerId = q'.timerId → q.eventSequence < q'.eventSequence := by
  have heff := Commit.effect cfg c hs
  -- A commit that claims nothing changes each row by itself.
  have hrow : (c.after cfg r).store.runs = r.store.runs.map c.row →
      ∃ q ∈ r.store.runs, q.key = q'.key ∧ (q.status = .pending ∨
        q.status = .active ∧ (c = .rependRun q.runId ∨ c = .rependAllActive)) := by
    intro hruns
    rw [hruns] at hq'
    obtain ⟨q, hq, rfl⟩ := List.mem_map.mp hq'
    refine ⟨q, hq, (key_row c q).symm, ?_⟩
    have hstep := rowStep_row c q
    generalize c.row q = q₁ at hstep hst
    cases hstep with
    | stay => exact .inl hst
    | activate _ _ => cases hst
    | repend hc hactive => exact .inr ⟨hactive, hc⟩
    | finish _ _ _ _ => cases hst
  have hsame : (c.after cfg r).store.runs = r.store.runs →
      ∃ q ∈ r.store.runs, q.key = q'.key ∧ (q.status = .pending ∨
        q.status = .active ∧ (c = .rependRun q.runId ∨ c = .rependAllActive)) := fun hruns =>
    ⟨q', hruns ▸ hq', rfl, .inl hst⟩
  cases c with
  | claimRun timerId scheduledFor now =>
    rcases heff with hruns | ⟨_, hruns⟩
    · exact .inl (hsame hruns)
    · rw [hruns] at hq'
      rcases List.mem_append.mp hq' with hq' | hq'
      · exact .inl ⟨q', hq', rfl, .inl hst⟩
      · obtain rfl := List.mem_singleton.mp hq'
        exact .inr fun q hq ht => Store.lt_nextSequence hq ht
  | fire f =>
    rcases heff with hruns | ⟨claim, hfired⟩
    · exact .inl (hsame hruns)
    · obtain ⟨u, _, _, hruns⟩ := hfired.ledger
      rw [hruns] at hq'
      obtain ⟨x, hx, rfl⟩ := List.mem_map.mp hq'
      have hkey := key_dispose f.timer u (r.store.openClaims f.timer.id).length f.utc x
      rcases List.mem_append.mp hx with hx | hx
      · exact .inl ⟨x, hx, hkey.symm, .inl (status_dispose nofun hst)⟩
      · obtain rfl := List.mem_singleton.mp hx
        refine .inr fun q hq ht => ?_
        rw [RunClaim.eventSequence_of_key hkey]
        exact Store.lt_nextSequence hq (ht.trans (RunClaim.timerId_of_key hkey))
  | _ => exact .inl (hrow heff)

end Pending

/-! ### The invariant -/

/-- In what the pump has read of the timer, whatever is older than a claim
is there with it, or the pump will not send; and nothing pending is older
than a claim with a hint. -/
structure OrderInv (t : Uuid) (d : Dispatch) : Prop where
  lanes : LaneInv d
  serial : (d.lanes.laneOf t).inLane ≤ 1
  sorted : ∀ claims, (t, claims) ∈ d.todo →
    claims.Pairwise fun a b => a.eventSequence ≤ b.eventSequence
  snapshot : ∀ claims, (t, claims) ∈ d.todo → ∀ c ∈ claims,
    ∀ q ∈ d.reply.store.pendingBefore t c.eventSequence,
      q.runId ∈ claims.map (·.runId) ∨ d.reply.store.getTimer t = none ∨
        d.lanesFree = false ∧ (d.lanes.laneOf t).inLane ≠ 0
  hinted : ∀ r ∈ d.reply.store.runs, r.runId ∈ (d.lanes.laneOf t).queued →
    d.reply.store.pendingBefore t r.eventSequence = []

section Invariant

variable {t : Uuid} {d : Dispatch}

/-- The lanes of the timer lose reservations while the pump does not hold
the lane book, or nothing changes but the workers. -/
theorem OrderInv.of_lanes (h : OrderInv t d) {d' : Dispatch} (hl : LaneInv d')
    (hreply : d'.reply = d.reply) (hpump : d'.pump = d.pump)
    (hqueued : ∀ r ∈ (d'.lanes.laneOf t).queued, r ∈ (d.lanes.laneOf t).queued)
    (hle : (d'.lanes.laneOf t).inLane ≤ 1)
    (hheld : d.lanesFree = false → (d'.lanes.laneOf t) = d.lanes.laneOf t) :
    OrderInv t d' := by
  have htodo : d'.todo = d.todo := by rw [Dispatch.todo, hpump, ← Dispatch.todo]
  have hfree : d'.lanesFree = d.lanesFree := by
    rw [Dispatch.lanesFree, hpump, ← Dispatch.lanesFree]
  constructor
  · exact hl
  · exact hle
  · rw [htodo]
    exact h.sorted
  · rw [htodo, hreply, hfree]
    intro claims hc c hcm q hq
    refine (h.snapshot claims hc c hcm q hq).imp_right (Or.imp_right ?_)
    rintro ⟨hf, hne⟩
    rw [hheld hf]
    exact ⟨hf, hne⟩
  · rw [hreply]
    exact fun r hr hq => h.hinted r hr (hqueued _ hq)

/-- A worker goes on. -/
theorem OrderInv.of_jobs (h : OrderInv t d) {d' : Dispatch} (hl : LaneInv d')
    (hreply : d'.reply = d.reply) (hpump : d'.pump = d.pump) (hlanes : d'.lanes = d.lanes) :
    OrderInv t d' := by
  refine h.of_lanes hl hreply hpump ?_ ?_ ?_ <;> rw [hlanes]
  · exact fun _ => id
  · exact h.serial
  · exact fun _ => rfl

/-- The pump goes on; what it keeps of the timer it had read, and a pump
that held the lane book holds it still. -/
theorem OrderInv.of_pump (h : OrderInv t d) {pump : Pump} (hl : LaneInv { d with pump })
    (htodo : ∀ claims, (t, claims) ∈ ({ d with pump } : Dispatch).todo → (t, claims) ∈ d.todo)
    (hheld : d.lanesFree = false → pump ≠ .idle →
      ({ d with pump } : Dispatch).lanesFree = false) : OrderInv t { d with pump } := by
  constructor
  · exact hl
  · exact h.serial
  · exact fun claims hc => h.sorted claims (htodo claims hc)
  · intro claims hc c hcm q hq
    refine (h.snapshot claims (htodo claims hc) c hcm q hq).imp_right
      (Or.imp_right fun ⟨hf, hne⟩ => ⟨hheld hf ?_, hne⟩)
    rintro rfl
    cases hc
  · exact h.hinted

/-- The pump passes over a claim of the timer, when it will not send. -/
theorem OrderInv.pass (h : OrderInv t d) {t' : Uuid} {c : RunClaim} {claims : List RunClaim}
    {rest : List (Uuid × List RunClaim)} (hpump : d.pump = .locked ((t', c :: claims) :: rest))
    (hl : LaneInv { d with pump := .locked ((t', claims) :: rest) })
    (hshut : t' = t → d.reply.store.getTimer t = none ∨ (d.lanes.laneOf t).inLane ≠ 0) :
    OrderInv t { d with pump := .locked ((t', claims) :: rest) } := by
  have htodo := Dispatch.todo_locked hpump
  have hfree : d.lanesFree = false := by rw [Dispatch.lanesFree, hpump]
  constructor
  · exact hl
  · exact h.serial
  · intro cs hcs
    rcases List.mem_cons.mp hcs with he | hcs
    · cases he
      exact (List.pairwise_cons.mp (h.sorted _ (htodo ▸ List.mem_cons_self))).2
    · exact h.sorted cs (htodo ▸ List.mem_cons_of_mem _ hcs)
  · intro cs hcs r hr q hq
    rcases List.mem_cons.mp hcs with he | hcs
    · cases he
      exact .inr ((hshut rfl).imp_right fun hne => ⟨rfl, hne⟩)
    · refine (h.snapshot cs (htodo ▸ List.mem_cons_of_mem _ hcs) r hr q hq).imp_right
        (Or.imp_right fun ⟨_, hne⟩ => ⟨rfl, hne⟩)
  · exact h.hinted

/-- What the pump reads of a timer is all that is pending, oldest first. -/
theorem OrderInv.scan (h : OrderInv t d) (order : List Uuid) :
    OrderInv t { d with pump := .scanned (Dispatch.pendingByTimer d.reply.store order) } := by
  have hgroup : ∀ claims, (t, claims) ∈ Dispatch.pendingByTimer d.reply.store order →
      claims = (d.reply.store.pendingClaims.filter (·.timerId == t)).insertionSort
        fun a b => a.eventSequence ≤ b.eventSequence := by
    intro claims hc
    obtain ⟨t', _, he⟩ := List.mem_map.mp hc
    cases he
    rfl
  constructor
  · exact h.lanes.scan order
  · exact h.serial
  · intro claims hc
    rw [hgroup claims hc]
    exact List.pairwise_insertionSort _ _
  · intro claims hc r _ q hq
    obtain ⟨hmem, hst, ht, _⟩ := Store.mem_pendingBefore.mp hq
    refine .inl (List.mem_map.mpr ⟨q, ?_, rfl⟩)
    rw [hgroup claims hc, List.mem_insertionSort, List.mem_filter]
    refine ⟨?_, by simpa using ht⟩
    unfold Store.pendingClaims
    rw [List.mem_insertionSort, List.mem_filter]
    exact ⟨hmem, by simpa using hst⟩
  · exact h.hinted

/-- The oldest claim that was read is sent into a free lane. -/
theorem OrderInv.send (h : OrderInv t d) {t' : Uuid} {c : RunClaim} {claims : List RunClaim}
    {rest : List (Uuid × List RunClaim)} (hpump : d.pump = .locked ((t', c :: claims) :: rest))
    (hl : LaneInv { d with
      pump := .locked ((t', claims) :: rest)
      queue := d.queue ++ [c.runId]
      lanes := d.lanes.enqueue t' c.runId })
    (hfree : t' = t → (d.lanes.laneOf t).inLane = 0 ∧ d.reply.store.getTimer t ≠ none) :
    OrderInv t { d with
      pump := .locked ((t', claims) :: rest)
      queue := d.queue ++ [c.runId]
      lanes := d.lanes.enqueue t' c.runId } := by
  have htodo := Dispatch.todo_locked hpump
  have hmem : (t', c :: claims) ∈ d.todo := htodo ▸ List.mem_cons_self
  by_cases he : t' = t
  · subst he
    obtain ⟨hzero, htimer⟩ := hfree rfl
    have hlane : (d.lanes.enqueue t' c.runId).laneOf t' =
        { queued := [c.runId], active := [] } := by
      unfold Lane.inLane at hzero
      have hq := List.eq_nil_of_length_eq_zero (Nat.eq_zero_of_add_eq_zero_right hzero)
      have ha := List.eq_nil_of_length_eq_zero (Nat.eq_zero_of_add_eq_zero_left hzero)
      rw [LaneBook.laneOf_enqueue, if_pos rfl, hq]
      exact congrArg (Lane.mk [c.runId]) ha
    have hbusy : ((d.lanes.enqueue t' c.runId).laneOf t').inLane = 1 := by
      rw [hlane]
      rfl
    constructor
    · exact hl
    · exact Nat.le_of_eq hbusy
    · intro cs hcs
      rcases List.mem_cons.mp hcs with he | hcs
      · cases he
        exact (List.pairwise_cons.mp (h.sorted _ hmem)).2
      · exact h.sorted cs (htodo ▸ List.mem_cons_of_mem _ hcs)
    · intro cs hcs r hr q hq
      exact .inr (.inr ⟨rfl, by rw [hbusy]; exact Nat.one_ne_zero⟩)
    · intro r hr hq
      have hrun : r.runId = c.runId := by
        rw [hlane] at hq
        exact List.mem_singleton.mp hq
      have hknows := (h.lanes.todo _ hmem c List.mem_cons_self).1
      show d.reply.store.pendingBefore t' r.eventSequence = []
      rw [hknows.eventSequence_eq h.lanes.wf hr hrun]
      refine List.eq_nil_iff_forall_not_mem.mpr fun q hq => ?_
      obtain ⟨hqr, _, _, hlt⟩ := Store.mem_pendingBefore.mp hq
      rcases h.snapshot _ hmem c List.mem_cons_self q hq with hin | hnone | ⟨_, hne⟩
      · -- Older than the head of a sorted list, and in it.
        obtain ⟨x, hx, hxq⟩ := List.mem_map.mp hin
        have hknows := (h.lanes.todo _ hmem x hx).1
        have hseq := hknows.eventSequence_eq h.lanes.wf hqr hxq.symm
        have hsorted := List.pairwise_cons.mp (h.sorted _ hmem)
        rcases List.mem_cons.mp hx with rfl | hx
        · omega
        · have hle := hsorted.1 x hx
          omega
      · exact htimer hnone
      · exact hne hzero
  · have hlane : (d.lanes.enqueue t' c.runId).laneOf t = d.lanes.laneOf t := by
      rw [LaneBook.laneOf_enqueue, if_neg (Ne.symm he)]
    have hrest : ∀ cs, (t, cs) ∈ (t', claims) :: rest → (t, cs) ∈ d.todo := by
      intro cs hcs
      rcases List.mem_cons.mp hcs with hcs | hcs
      · exact absurd (congrArg Prod.fst hcs).symm he
      · exact htodo ▸ List.mem_cons_of_mem _ hcs
    constructor
    · exact hl
    · show ((d.lanes.enqueue t' c.runId).laneOf t).inLane ≤ 1
      rw [hlane]
      exact h.serial
    · exact fun cs hcs => h.sorted cs (hrest cs hcs)
    · intro cs hcs r hr q hq
      refine (h.snapshot cs (hrest cs hcs) r hr q hq).imp_right
        (Or.imp_right fun ⟨_, hne⟩ => ⟨rfl, ?_⟩)
      show ((d.lanes.enqueue t' c.runId).laneOf t).inLane ≠ 0
      rw [hlane]
      exact hne
    · intro r hr hq
      have hq : r.runId ∈ ((d.lanes.enqueue t' c.runId).laneOf t).queued := hq
      rw [hlane] at hq
      exact h.hinted r hr hq

theorem OrderInv.initial {store : Store} (hs : store.Wf) : OrderInv t { reply := { store } } where
  lanes := LaneInv.initial hs
  serial := Nat.zero_le _
  sorted := by simp [Dispatch.todo]
  snapshot := by simp [Dispatch.todo]
  hinted := by simp

/-- A claim that is not passed keeps its place before the claims read. -/
theorem inFront_of_not_passed {q c : RunClaim} (hq : d.passed q = false) (ht : q.timerId = t)
    {claims : List RunClaim} (hc : (t, claims) ∈ d.todo) (hcm : c ∈ claims)
    (hlt : q.eventSequence < c.eventSequence) :
    q.runId ∈ claims.map (·.runId) ∨ d.reply.store.getTimer t = none ∨
      d.lanesFree = false ∧ (d.lanes.laneOf t).inLane ≠ 0 := by
  by_contra hne
  obtain ⟨hin, htimer, hheld⟩ : q.runId ∉ claims.map (·.runId) ∧
      d.reply.store.getTimer t ≠ none ∧
      (d.lanesFree = false → (d.lanes.laneOf t).inLane = 0) := by
    simpa only [not_or, not_and, not_not] using hne
  have hpump : d.passedByPump q = true := by
    unfold Dispatch.passedByPump
    rw [ht, Bool.and_eq_true, Bool.and_eq_true, Bool.or_eq_true, beq_iff_eq]
    refine ⟨⟨Option.isSome_iff_ne_none.mpr htimer, ?_⟩, ?_⟩
    · cases hf : d.lanesFree with
      | true => exact .inl rfl
      | false => exact .inr (hheld hf)
    · refine List.any_eq_true.mpr ⟨_, hc, ?_⟩
      rw [Bool.and_eq_true, Bool.and_eq_true, List.any_eq_true]
      exact ⟨⟨by simp, by simpa using hin⟩, c, hcm, by simpa using hlt⟩
  rw [Dispatch.passed, hpump] at hq
  cases hq

/-- A claim that is not passed is not older than one with a hint. -/
theorem le_of_not_passed {q r : RunClaim} (hq : d.passed q = false) (ht : q.timerId = t)
    (hr : r ∈ d.reply.store.runs) (hqueued : r.runId ∈ (d.lanes.laneOf t).queued) :
    r.eventSequence ≤ q.eventSequence := by
  by_contra hlt
  have hhint : d.passedByHint q = true := by
    refine List.any_eq_true.mpr ⟨r, hr, ?_⟩
    rw [ht, Bool.and_eq_true]
    exact ⟨by simpa using hqueued, by simpa using Nat.lt_of_not_le hlt⟩
  rw [Dispatch.passed, hhint, Bool.or_true] at hq
  cases hq

/-- The winner of a swap is a pending row whose hint a worker holds. -/
theorem OrderInv.wins (h : OrderInv t d) {a : Act} {claim : RunClaim}
    (hwins : claim ∈ d.wins a) (ht : claim.timerId = t) :
    d.reply.store.pendingBefore t claim.eventSequence = [] := by
  unfold Dispatch.wins at hwins
  split at hwins
  · split at hwins
    · next read hjob =>
      obtain ⟨hrow, _⟩ := Option.filter_eq_some_iff.mp hwins
      obtain ⟨hmem, hid⟩ := Store.getRun_mem hrow
      refine h.hinted claim hmem ?_
      have hhint : read.runId ∈ d.hints := by
        refine List.mem_append_right _ (List.mem_filterMap.mpr ?_)
        exact ⟨_, List.mem_of_getElem? hjob, rfl⟩
      refine hid ▸ h.lanes.queued_of_hint hhint ?_
      rw [Store.timerOf, hrow, Option.map_some, ht]
    · cases hwins
  · cases hwins

end Invariant

section Steps

variable [Calendar] {cfg : DispatchConfig} {t : Uuid} {d d' : Dispatch}

/-- What a commit leaves pending before a claim of the timer was pending
before it, or was put back and not passed. -/
theorem pendingBefore_after (hs : d.reply.store.Wf) (c : Commit)
    (hback : ∀ q ∈ d.reply.store.runs, q.timerId = t → q.status = .active →
      (c = .rependRun q.runId ∨ c = .rependAllActive) → d.passed q = false)
    {r q' : RunClaim} (hr : r ∈ d.reply.store.runs) (ht : r.timerId = t)
    (hq' : q' ∈ (d.after cfg c).reply.store.pendingBefore t r.eventSequence) :
    ∃ q ∈ d.reply.store.runs, q.runId = q'.runId ∧ q.timerId = t ∧
      q.eventSequence < r.eventSequence ∧
      (q ∈ d.reply.store.pendingBefore t r.eventSequence ∨ d.passed q = false) := by
  obtain ⟨hrow, hst, ht', hlt⟩ := Store.mem_pendingBefore.mp hq'
  rcases pending_after cfg.fire c hs hrow hst with ⟨q, hq, hkey, hwas⟩ | hnew
  · have htq : q.timerId = t := (RunClaim.timerId_of_key hkey).trans ht'
    have hltq : q.eventSequence < r.eventSequence :=
      (RunClaim.eventSequence_of_key hkey).trans_lt hlt
    refine ⟨q, hq, RunClaim.runId_of_key hkey, htq, hltq, ?_⟩
    rcases hwas with hpending | ⟨hactive, hc⟩
    · exact .inl (Store.mem_pendingBefore.mpr ⟨hq, hpending, htq, hltq⟩)
    · exact .inr (hback q hq htq hactive hc)
  · have hgt := hnew r hr (ht.trans ht'.symm)
    omega

/-- A commit that puts back no passed claim keeps the order. -/
theorem OrderInv.after (cfg : DispatchConfig) (h : OrderInv t d) (c : Commit)
    (hback : ∀ q ∈ d.reply.store.runs, q.timerId = t → q.status = .active →
      (c = .rependRun q.runId ∨ c = .rependAllActive) → d.passed q = false)
    (hgone : (∃ q ∈ d.reply.store.runs, q.timerId = t) → d.reply.store.getTimer t = none →
      (d.after cfg c).reply.store.getTimer t = none) : OrderInv t (d.after cfg c) := by
  have hs := h.lanes.wf
  constructor
  · exact h.lanes.after c
  · exact h.serial
  · exact h.sorted
  · intro claims hc x hx q' hq'
    obtain ⟨hknows, htx⟩ := h.lanes.todo _ hc x hx
    obtain ⟨row, hrow, hkey⟩ := hknows.row
    rw [← RunClaim.eventSequence_of_key hkey] at hq'
    obtain ⟨q, hq, hid, ht, hlt, hwas⟩ := pendingBefore_after hs c hback hrow
      ((RunClaim.timerId_of_key hkey).trans htx) hq'
    rw [RunClaim.eventSequence_of_key hkey] at hwas hlt
    rw [← hid]
    refine Or.imp_right (Or.imp_left (hgone ⟨q, hq, ht⟩)) ?_
    rcases hwas with hwas | hwas
    · exact h.snapshot claims hc x hx q hwas
    · exact inFront_of_not_passed hwas ht hc hx hlt
  · intro r' hr' hqueued
    obtain ⟨r, hr, htr⟩ := Option.map_eq_some_iff.mp (h.lanes.home_queued hqueued)
    obtain ⟨r₁, hr₁, hkey⟩ := Commit.getRun_key cfg.fire c hs hr
    obtain rfl : r' = r₁ :=
      Option.some.inj (((h.lanes.after c).wf.getRun_of_mem hr').symm.trans hr₁)
    obtain ⟨hmem, hid⟩ := Store.getRun_mem hr
    rw [RunClaim.eventSequence_of_key hkey]
    refine List.eq_nil_iff_forall_not_mem.mpr fun q' hq' => ?_
    obtain ⟨q, _, _, ht, hlt, hwas⟩ := pendingBefore_after hs c hback hmem htr hq'
    have hqueued : r.runId ∈ (d.lanes.laneOf t).queued := hid ▸ hqueued
    rcases hwas with hwas | hwas
    · rw [h.hinted r hmem hqueued] at hwas
      cases hwas
    · have hle := le_of_not_passed hwas ht hmem hqueued
      omega

/-- A commit that puts nothing back. -/
theorem OrderInv.after_quiet (cfg : DispatchConfig) (h : OrderInv t d) (c : Commit)
    (hc : ∀ run, c ≠ .rependRun run) (hall : c ≠ .rependAllActive)
    (hgone : (∃ q ∈ d.reply.store.runs, q.timerId = t) → d.reply.store.getTimer t = none →
      (d.after cfg c).reply.store.getTimer t = none) : OrderInv t (d.after cfg c) :=
  h.after cfg c (fun _ _ _ _ hq => hq.elim (fun e => absurd e (hc _)) fun e => absurd e hall) hgone

/-- A step whose put-back claims are not passed keeps the order. -/
theorem OrderInv.next (h : OrderInv t d) {a : Act} (hstep : d.next cfg a = some d')
    (hlimit : ∀ timer, d.reply.store.getTimer t = some timer → timer.overlap.limit = 1)
    (hplace : ∀ q ∈ d.reply.store.runs, q.timerId = t → d.putsBack q a = true →
      d.passed q = false)
    (hgone : (∃ q ∈ d.reply.store.runs, q.timerId = t) → d.reply.store.getTimer t = none →
      d'.reply.store.getTimer t = none) : OrderInv t d' := by
  have hl := h.lanes.next hstep
  have hle := h.lanes.inLane_le h.serial (fun timer ht => (hlimit timer ht).le) hstep
  cases step_of_next hstep with
  | commit c hc hall => exact h.after_quiet cfg c (fun run => (hc run).2) hall hgone
  | die => exact OrderInv.initial h.lanes.wf
  | startup =>
    refine h.after cfg _ (fun q hq ht hst _ => hplace q hq ht ?_) hgone
    simpa [Dispatch.putsBack] using hst
  | scan order _ => exact h.scan order
  | lock hpump =>
    refine h.of_pump hl (fun claims hc => ?_) fun _ _ => rfl
    rw [Dispatch.todo, hpump]
    exact hc
  | timerError hpump =>
    refine h.of_pump hl (fun claims hc => ?_) fun _ _ => rfl
    rw [Dispatch.todo_locked hpump]
    exact List.mem_cons_of_mem _ hc
  | emptied ok utc hpump =>
    refine h.of_pump hl (fun claims hc => ?_) fun _ _ => rfl
    rw [Dispatch.todo_locked hpump]
    exact List.mem_cons_of_mem _ hc
  | busy ok utc hpump =>
    refine h.of_pump hl (fun claims hc => ?_) fun _ _ => rfl
    rw [Dispatch.todo_locked hpump]
    exact List.mem_cons_of_mem _ hc
  | full ok utc _ => exact h.of_pump hl (by intro _ hc; cases hc) fun _ hne => absurd rfl hne
  | unlock _ => exact h.of_pump hl (by intro _ hc; cases hc) fun _ hne => absurd rfl hne
  | @reserved t' claim claims rest ok utc hpump hres =>
    refine h.pass hpump hl fun he => .inr fun hzero => ?_
    subst he
    unfold Lane.inLane at hzero
    have hq := List.eq_nil_of_length_eq_zero (Nat.eq_zero_of_add_eq_zero_right hzero)
    have ha := List.eq_nil_of_length_eq_zero (Nat.eq_zero_of_add_eq_zero_left hzero)
    rw [Lane.reserves, hq, ha] at hres
    cases hres
  | orphan ok utc hpump hnone =>
    have hpass := h.pass hpump (h.lanes.pass hpump) fun he => .inl (he ▸ hnone)
    cases ok with
    | false => exact hpass
    | true => exact hpass.after_quiet cfg _ (by intro _ hc; cases hc) (by intro hc; cases hc) hgone
  | noLane ok utc hpump hsome hzero =>
    refine h.pass hpump hl fun he => ?_
    subst he
    rw [hlimit _ hsome] at hzero
    cases hzero
  | send ok utc hpump _ hsome hlt =>
    refine h.send hpump hl fun he => ?_
    subst he
    rw [hlimit _ hsome] at hlt
    exact ⟨Nat.lt_one_iff.mp hlt, by rw [hsome]; intro hc; cases hc⟩
  | recv _ => exact h.of_jobs hl rfl rfl rfl
  | load i ok _ _ _ => exact h.of_jobs hl rfl rfl rfl
  | loadStale i ok _ => exact h.of_jobs hl rfl rfl rfl
  | activateError i _ => exact h.of_jobs hl rfl rfl rfl
  | execute i committed utc _ _ => exact h.of_jobs hl rfl rfl rfl
  | @won claim row i _ _ _ =>
    exact (h.after_quiet cfg (.activateRun claim.runId) (by intro _ hc; cases hc)
      (by intro hc; cases hc) hgone).of_jobs hl rfl rfl rfl
  | @lost claim i _ _ =>
    exact (h.after_quiet cfg (.activateRun claim.runId) (by intro _ hc; cases hc)
      (by intro hc; cases hc) hgone).of_jobs hl rfl rfl rfl
  | @deleted claim i committed utc _ _ =>
    cases committed with
    | false => exact h.of_jobs hl rfl rfl rfl
    | true =>
      exact (h.after_quiet cfg (.finishClaim claim _ .timerDeleted utc) (by intro _ hc; cases hc)
        (by intro hc; cases hc) hgone).of_jobs hl rfl rfl rfl
  | @reloadError claim i committed utc hjob =>
    cases committed with
    | false => exact h.of_jobs hl rfl rfl rfl
    | true =>
      refine (h.after cfg (.rependRun claim.runId) (fun q hq ht hst he => hplace q hq ht ?_)
        hgone).of_jobs hl rfl rfl rfl
      obtain he | he := he
      · simp [Dispatch.putsBack, hjob, hst, Commit.rependRun.inj he]
      · cases he
  | @finish claim timer i e ok utc _ =>
    cases ok with
    | false => exact h.of_jobs hl rfl rfl rfl
    | true =>
      exact (h.after_quiet cfg (.finishClaim claim timer.name e utc) (by intro _ hc; cases hc)
        (by intro hc; cases hc) hgone).of_jobs hl rfl rfl rfl
  | @panic claim timer i ok hjob =>
    cases ok with
    | false => exact h.of_jobs hl rfl rfl rfl
    | true =>
      refine (h.after cfg (.rependRun claim.runId) (fun q hq ht hst he => hplace q hq ht ?_)
        hgone).of_jobs hl rfl rfl rfl
      obtain he | he := he
      · simp [Dispatch.putsBack, hjob, hst, Commit.rependRun.inj he]
      · cases he
  | @release run i hjob hfree =>
    obtain ⟨t₀, _, hlane⟩ := h.lanes.laneOf_release hjob
    refine h.of_lanes hl rfl rfl (fun r hr => ?_) hle fun hheld => ?_
    · have hr : r ∈ ((d.lanes.releaseQueued run).laneOf t).queued := hr
      rw [hlane] at hr
      split at hr
      · next he => exact he ▸ (List.mem_filter.mp hr).1
      · exact hr
    · rw [hfree] at hheld
      cases hheld
  | @enter claim i _ hfree =>
    refine h.of_lanes hl rfl rfl (fun r hr => ?_) hle fun hheld => ?_
    · have hr : r ∈ ((d.lanes.enter claim.timerId claim.runId).laneOf t).queued := hr
      rw [LaneBook.laneOf_enter] at hr
      split at hr
      · next he => exact he ▸ (List.mem_filter.mp hr).1
      · exact hr
    · rw [hfree] at hheld
      cases hheld
  | @leave claim i _ hfree =>
    refine h.of_lanes hl rfl rfl (fun r hr => ?_) hle fun hheld => ?_
    · have hr : r ∈ ((d.lanes.finishLane claim.timerId claim.runId).laneOf t).queued := hr
      rw [LaneBook.laneOf_finishLane] at hr
      split at hr
      · next he => exact he ▸ (List.mem_filter.mp hr).1
      · exact hr
    · rw [hfree] at hheld
      cases hheld

end Steps

/-! ### Lane order -/

section Runs

variable [Calendar] {cfg : DispatchConfig} {d₀ d : Dispatch}
  {tr : List (System.Event Dispatch Act)}

/-- **Lane order.**  In a run that puts no passed claim of a serial timer
back to pending, no claim of the timer is activated while an older one is
pending. -/
theorem lane_ordered (h : (dispatcher cfg).Run d₀ tr d) (h0 : (dispatcher cfg).init d₀)
    {t : Uuid} {policy : OverlapPolicy} (hpolicy : KeepsPolicy tr t policy)
    (hserial : ∀ cap, policy ≠ .parallel cap) (hgone : NotReused tr t)
    (hplace : KeepsPlace tr t) : LaneOrdered tr t := by
  have hlimit : policy.limit = 1 := by
    cases policy with
    | parallel cap => exact absurd rfl (hserial cap)
    | _ => rfl
  have hinv := h.invariant_steps (I := OrderInv t)
    (G := fun e => (∀ timer ∈ e.pre.reply.store.getTimer t, timer.overlap = policy) ∧
      ((∃ q ∈ e.pre.reply.store.runs, q.timerId = t) → e.pre.reply.store.getTimer t = none →
        e.post.reply.store.getTimer t = none) ∧
      ∀ q ∈ e.pre.reply.store.runs, q.timerId = t → e.pre.putsBack q e.label = true →
        e.pre.passed q = false)
    (fun e he => ⟨hpolicy e he, hgone e he, hplace e he⟩) ?_ ?_
  · intro e he claim hwins ht
    exact (hinv e he).2.1.wins hwins ht
  · obtain ⟨store, hs, rfl⟩ := h0
    exact OrderInv.initial hs
  · rintro d a d' hstep ⟨hkeep, hgone, hplace⟩ hinv
    refine hinv.next hstep (fun timer htimer => ?_) hplace hgone
    rw [hkeep timer htimer, hlimit]

end Runs

section Sample

attribute [local instance] Calendar.utcOnly

instance {tr : List (System.Event Dispatch Act)} {t} : Decidable (LaneOrdered tr t) :=
  inferInstanceAs (Decidable (∀ e ∈ tr, ∀ claim ∈ e.pre.wins e.label, _))

instance {tr : List (System.Event Dispatch Act)} {t} : Decidable (KeepsPlace tr t) :=
  inferInstanceAs (Decidable (∀ e ∈ tr, ∀ q ∈ e.pre.reply.store.runs, _))

instance {tr : List (System.Event Dispatch Act)} {t} : Decidable (NotReused tr t) :=
  inferInstanceAs (Decidable (∀ e ∈ tr, _))

/-- A timer, two of its fires, and the pump and a worker that take the first
claim to its action. -/
def firstClaimRuns : List Act :=
  [.commit (.createTimer (.sample .queueOne) 0), .commit (.fire (.sample .queueOne (60 * NS))),
    .scan [⟨0⟩], .lock, .claim true 0, .unlock, .recv, .load 0 true, .activate 0 true, .enter 0,
    .loadTimer 0 true true 0, .commit (.fire (.sample .queueOne (120 * NS)))]

/-- The pump goes on from what it has read, and a worker takes the hint. -/
def nextClaimRuns : List Act :=
  [.lock, .claim true 0, .unlock, .recv, .load 0 true, .activate 0 true]

/-- The action panics before the pump reads, and the claim is taken again. -/
theorem lane_ordered_panicked :
    LaneOrdered (System.traceEnabled (fun d a => d.next .sample a) {}
      (firstClaimRuns ++ [.panic 0 true, .leave 0, .scan [⟨0⟩]] ++ nextClaimRuns)) ⟨0⟩ :=
  lane_ordered (run_dispatch _) init_empty
    (show KeepsPolicy _ _ .queueOne by decide +kernel) nofun (by decide +kernel)
    (by decide +kernel)

/-- The action panics after the pump has read, and the newer claim is
activated. -/
theorem not_lane_ordered :
    ¬∀ d₀ tr d t policy, (dispatcher .sample).init d₀ → (dispatcher .sample).Run d₀ tr d →
      KeepsPolicy tr t policy → (∀ cap, policy ≠ .parallel cap) → NotReused tr t →
      LaneOrdered tr t := by
  intro h
  have hrun := run_dispatch (firstClaimRuns ++ [.scan [⟨0⟩], .panic 0 true, .leave 0] ++
    nextClaimRuns)
  have hord := h _ _ _ ⟨0⟩ .queueOne init_empty hrun (by decide +kernel) nofun
    (by decide +kernel)
  revert hord
  decide +kernel

end Sample

end Bellman

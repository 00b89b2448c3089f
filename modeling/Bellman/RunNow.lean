/-
Bellman/RunNow.lean

A manual fire.

`run_now` fires a timer as the scheduler does, and then goes on: it advances
the timer, hands the claim to a dispatcher and waits for the action.  Others
commit to the store all the while.

    get_timer       NotFound
    fire            Other("fire transaction: ..")
    ------------    the claim is committed
    update_timer    Store
    dispatch, wait  Other("dispatcher spawn: .."), Store
    get_run         Store, Action if the wake has failed

An error of the last kind is one of the action, which has run.

Main result: nothing of a call that ends above the line is in the store; a
call that returns, or reports a failed wake, has committed one claim; and
nobody who tries again only after errors above the line claims twice
(`runNow_accounts`).
-/
import Bellman.Commit

namespace Bellman

open ProgramLogic Prog ReplyM

/-! ### The call -/

/-- Why `run_now` fails.  (`fireTransaction` and `dispatcherSpawn` are the
two texts of `Other`.) -/
inductive RunNowError where
  | notFound (timerId : Uuid)
  | store (e : StoreError)
  | action (s : String)
  | fireTransaction (s : String)
  | dispatcherSpawn (s : String)
  deriving Repr, DecidableEq

/-- Why a call does not return. -/
inductive RunNowAbort where
  | error (e : RunNowError)
  | panic (p : Panic)
  deriving Repr, DecidableEq

structure RunNowOutcome where
  timer : Timer
  runId : Uuid
  scheduledFor : Int
  message : String

/-- What happens around a call: the clocks, the choice of the transport, the
reply that the barrier finds, what others commit before each of its steps,
and what fails.  (The dispatcher is one of the others, and so is the log of a
reply that the barrier condemns.) -/
structure RunNowEnv where
  scheduledFor : Int
  now : Int
  monoNow : Int
  utc : Int
  updatedAt : Int
  selected : SelectedTransport := .json
  barrier : Option (ReplyDocument × String) := none
  others : Nat → List Commit := fun _ => []
  readTimer : Option StoreError := none
  /-- The gate, the folder or a read before the transaction. -/
  prepare : Option String := none
  transaction : Option StoreError := none
  update : Option StoreError := none
  spawn : Option String := none
  wait : Option StoreError := none
  readRun : Option StoreError := none

/-- The installation, and the transactions that the call itself has made,
each with what it found and what it left. -/
structure RunNowState where
  reply : ReplyState
  own : List (ReplyState × ReplyState) := []

abbrev RunNowM (α : Type) : Type := Prog RunNowState RunNowAbort α

namespace RunNow

/-- A step before a failure, if it fails. -/
def failing {α : Type} (fault : Option α) (wrap : α → RunNowError) : RunNowM Unit :=
  match fault with
  | some e => throw (.error (wrap e))
  | none => pure ()

/-- What an operation on the installation ends in, for the call. -/
def wrapAbort (wrap : StoreError → RunNowError) : Abort → RunNowAbort
  | .error e => .error (wrap e)
  | .panic p => .panic p

/-- A transaction of the call. -/
def transaction {α : Type} (wrap : StoreError → RunNowError) (m : ReplyM α) : RunNowM α :=
  fun s => match m.run s.reply with
    | (.ok a, r) => (.ok a, { reply := r, own := s.own ++ [(s.reply, r)] })
    | (.error e, r) => (.error (wrapAbort wrap e), { reply := r, own := s.own ++ [(s.reply, r)] })

/-- What the call does in memory after the fire. -/
def memory (wrap : StoreError → RunNowError) (m : ReplyM Unit) : RunNowM Unit :=
  mapError (wrapAbort wrap) (zoom (·.reply) (fun r s => { s with reply := r }) m)

/-- The countdown of an owned run. -/
def startCountdown (cfg : FireConfig) (f : Firing) (runId : Uuid) : ReplyM Unit :=
  if f.owner.isSome then registerFire cfg.reply runId f.now f.monoNow else pure ()

/-- The end of those of the run before. -/
def stopCountdowns : Option Uuid → ReplyM Unit
  | some prev => clearDeadlines prev
  | none => pure ()

variable [Calendar]

/-- Others commit. -/
def interleave (cfg : FireConfig) (cs : List Commit) : RunNowM Unit :=
  modify fun s => { s with reply := cs.foldl (fun r c => c.after cfg r) s.reply }

/-- `project_fire`, of a manual fire: the reads, the transaction, and the
countdowns. -/
def fire (cfg : FireConfig) (env : RunNowEnv) (display : StoreError → String) (timer : Timer) :
    RunNowM RunClaim := do
  failing env.prepare .fireTransaction
  let store := (← get).reply.store
  let owner := store.getTimerOwner timer.id
  let prev := (store.runsForTimer timer.id).getLast?
  interleave cfg (env.others 1)
  failing env.transaction fun e => .fireTransaction (display e)
  let f : Firing :=
    { timer, scheduledFor := env.scheduledFor, kind := .onTime, owner, prev
      barrier := env.barrier, selected := env.selected
      now := env.now, monoNow := env.monoNow, utc := env.utc }
  let (claim, superseded) ← transaction (fun e => .fireTransaction (display e)) (fireTx cfg f)
  memory .store (startCountdown cfg f claim.runId >>= fun _ => stopCountdowns superseded)
  return claim

/-- Move the timer past the slot. -/
def advance (env : RunNowEnv) (timer : Timer) : RunNowM Timer := do
  failing env.update .store
  transaction .store (onStore (updateTimerTx
    { id := timer.id
      expectedRevision := timer.revision
      patch :=
        { lastFired := some (some env.scheduledFor)
          occurrence := some timer.occurrence.recordRun } } env.updatedAt))

/-- What `dispatch_and_wait` says of the claim when the wait is over. -/
def summary (runId : String) (claim : Option RunClaim) : String :=
  match claim.filter (·.status == .finished) with
  | none => s!"dispatched run_id={runId} (still running; result lands in the claim ledger)"
  | some c =>
    match c.outcome with
    | some .wakeDelivered => c.outcomeReason.getD "action completed"
    | some .wakeFailed => "FAILED: " ++ c.outcomeReason.getD "unknown"
    | some .skippedMisfire => c.outcomeReason.getD "overlap policy skip"
    | none => "action completed"

/-- `dispatch_and_wait`. -/
def dispatchAndWait (cfg : FireConfig) (env : RunNowEnv) (display : Uuid → String)
    (claim : RunClaim) : RunNowM String := do
  failing env.spawn .dispatcherSpawn
  interleave cfg (env.others 3)
  failing env.wait .store
  return summary (display claim.runId) ((← get).reply.store.getRun claim.runId)

/-- The message of the call: a claim that the overlap policy has finished is
not dispatched. -/
def message (cfg : FireConfig) (env : RunNowEnv) (displayId : Uuid → String)
    (claim : RunClaim) : RunNowM String :=
  if claim.status == .finished then return claim.outcomeReason.getD "overlap policy skip"
  else dispatchAndWait cfg env displayId claim

/-- The result of the call: a failed wake is an error. -/
def report (env : RunNowEnv) (timer : Timer) (runId : Uuid) (message : String)
    (claim : Option RunClaim) : RunNowM RunNowOutcome :=
  match claim.filter (·.outcome == some .wakeFailed) with
  | some c => throw (.error (.action (c.outcomeReason.getD "FAILED")))
  | none => return { timer, runId, scheduledFor := env.scheduledFor, message }

end RunNow

open RunNow

/-- `run_now`. -/
def runNow [Calendar] (cfg : FireConfig) (display : StoreError → String)
    (displayId : Uuid → String) (env : RunNowEnv) (timerId : Uuid) : RunNowM RunNowOutcome := do
  failing env.readTimer .store
  match (← get).reply.store.getTimer timerId with
  | none => throw (.error (.notFound timerId))
  | some timer =>
    interleave cfg (env.others 0)
    let claim ← fire cfg env display timer
    interleave cfg (env.others 2)
    let timer ← advance env timer
    let message ← message cfg env displayId claim
    interleave cfg (env.others 4)
    failing env.readRun .store
    report env timer claim.runId message ((← get).reply.store.getRun claim.runId)

/-! ### What a call leaves -/

/-- The claims that a transaction has put in. -/
def newClaims (p : ReplyState × ReplyState) : List RunClaim :=
  p.2.store.runs.filter fun c => (p.1.store.getRun c.runId).isNone

/-- The claims that the transactions of a call have put in. -/
def RunNowState.claims (s : RunNowState) : List RunClaim := s.own.flatMap newClaims

/-- The call has ended before its commit. -/
def beforeCommit : Except RunNowAbort RunNowOutcome → Bool
  | .error (.error (.notFound _)) | .error (.error (.fireTransaction _)) => true
  | _ => false

/-- The call reports a run: it returns, or the wake has failed. -/
def reportsRun : Except RunNowAbort RunNowOutcome → Bool
  | .ok _ | .error (.error (.action _)) => true
  | _ => false

/-- One claim of a slot is in the store, and it is of this call. -/
structure Committed (timerId : Uuid) (slot : Int) (runId : Uuid) (s : RunNowState) : Prop where
  claims : ∃ c, s.claims = [c] ∧ c.runId = runId ∧ c.timerId = timerId ∧ c.scheduledFor = slot
  kept : (s.reply.store.getRun runId).isSome = true

/-- The result of a call tells what it has committed. -/
structure CallAccounted (timerId : Uuid) (slot : Int) (result : Except RunNowAbort RunNowOutcome)
    (s : RunNowState) : Prop where
  wf : s.reply.store.Wf
  nothing : beforeCommit result = true → ∀ p ∈ s.own, p.2.store = p.1.store
  one : reportsRun result = true → ∃ runId, Committed timerId slot runId s ∧
    ∀ out, result = .ok out → out.runId = runId
  atMostOne : s.claims.length ≤ 1

/-- Calls for one request, with what others commit before each: the next is
made if the one before has ended before its commit. -/
def retryNow [Calendar] (cfg : FireConfig) (display : StoreError → String)
    (displayId : Uuid → String) (timerId : Uuid) :
    List (List Commit × RunNowEnv) → ReplyState → List RunNowState
  | [], _ => []
  | (cs, env) :: calls, r =>
    let (result, s) := (runNow cfg display displayId env timerId).run
      { reply := cs.foldl (fun r c => c.after cfg r) r }
    s :: if beforeCommit result then retryNow cfg display displayId timerId calls s.reply else []

namespace RunNow

section Rules

variable {α : Type} {Q : α → RunNowState → Prop} {E : RunNowAbort → RunNowState → Prop}
  {s : RunNowState} {wrap : StoreError → RunNowError}

theorem wp_failing {β : Type} {fault : Option β} {wrap : β → RunNowError}
    {Q : Unit → RunNowState → Prop} (hok : Q () s) (herror : ∀ e, E (.error (wrap e)) s) :
    wp (failing fault wrap) Q E s := by
  cases fault with
  | none => exact hok
  | some e => exact herror e

theorem wp_transaction {m : ReplyM α}
    (h : wp m (fun a r => Q a { reply := r, own := s.own ++ [(s.reply, r)] })
      (fun e r => E (wrapAbort wrap e) { reply := r, own := s.own ++ [(s.reply, r)] }) s.reply) :
    wp (transaction wrap m) Q E s := by
  unfold wp transaction Prog.run at *
  rcases hm : m s.reply with ⟨e | a, r⟩ <;> rw [hm] at h <;> exact h

end Rules

section Claims

variable [Calendar] {cfg : FireConfig} {r : ReplyState} {s : RunNowState} {timerId : Uuid}
  {slot : Int} {claim : RunClaim}

theorem wf_foldl (cfg : FireConfig) (cs : List Commit) (hs : r.store.Wf) :
    (cs.foldl (fun r c => c.after cfg r) r).store.Wf := by
  induction cs generalizing r with
  | nil => exact hs
  | cons c cs ih => exact ih (Commit.wf hs)

theorem getRun_foldl (cfg : FireConfig) (cs : List Commit) (hs : r.store.Wf) {run : Uuid}
    (h : (r.store.getRun run).isSome = true) :
    ((cs.foldl (fun r c => c.after cfg r) r).store.getRun run).isSome = true := by
  induction cs generalizing r with
  | nil => exact h
  | cons c cs ih =>
    obtain ⟨q, hq⟩ := Option.isSome_iff_exists.mp h
    obtain ⟨q', hq', -⟩ := Commit.getRun_key cfg c hs hq
    exact ih (Commit.wf hs) (Option.isSome_iff_exists.mpr ⟨q', hq'⟩)

omit [Calendar] in
/-- A row that is there before is not new. -/
theorem not_new {c : RunClaim} (hc : c ∈ r.store.runs) :
    (r.store.getRun c.runId).isNone = false := by
  rw [Option.isNone_eq_false_iff]
  exact List.find?_isSome.mpr ⟨c, hc, beq_self_eq_true _⟩

omit [Calendar] in
theorem newClaims_of_runs {r' : ReplyState} (h : r'.store.runs = r.store.runs) :
    newClaims (r, r') = [] := by
  unfold newClaims
  rw [List.filter_eq_nil_iff]
  intro c hc
  rw [h] at hc
  rw [not_new hc]
  exact Bool.false_ne_true

omit [Calendar] in
/-- A fire puts in its claim, and no other. -/
theorem newClaims_of_fired {f : Firing} {r' : ReplyState}
    (h : Fired f claim r.store r'.store) : newClaims (r, r') = [claim] := by
  obtain ⟨u, hu, hclaim, hruns⟩ := h.ledger
  have hkey := key_dispose f.timer u (r.store.openClaims f.timer.id).length f.utc
  unfold newClaims
  rw [hruns, List.map_append, List.filter_append, List.map_singleton, ← hclaim]
  have hold : (r.store.runs.map (dispose f.timer u (r.store.openClaims f.timer.id).length
      f.utc)).filter (fun c => (r.store.getRun c.runId).isNone) = [] := by
    rw [List.filter_eq_nil_iff]
    rintro c hc
    obtain ⟨q, hq, rfl⟩ := List.mem_map.mp hc
    rw [RunClaim.runId_of_key (hkey q), not_new hq]
    exact Bool.false_ne_true
  have hnew : (r.store.getRun claim.runId).isNone = true := by
    have hid : claim.runId = u := by
      rw [hclaim, RunClaim.runId_of_key (hkey _)]
      rfl
    rw [hid, Option.isNone_iff_eq_none]
    exact List.find?_eq_none.mpr fun q hq => by simpa using hu q hq
  rw [hold, List.nil_append]
  exact List.filter_cons_of_pos (p := fun c : RunClaim => (r.store.getRun c.runId).isNone) hnew

omit [Calendar] in
theorem getTimer_id {t : Timer} {store : Store} (h : store.getTimer timerId = some t) :
    t.id = timerId := by
  have hid := List.find?_some h
  exact eq_of_beq hid

end Claims

/-! ### Before the commit, and after it -/

section Steps

variable [Calendar] {cfg : FireConfig} {env : RunNowEnv} {display : StoreError → String}
  {s : RunNowState} {timerId runId : Uuid} {slot : Int} {e : RunNowAbort}

omit [Calendar] in
/-- A call that has made no transaction may end in any failure but that of
the action. -/
theorem accounted_idle (hs : s.reply.store.Wf) (hown : s.own = [])
    (h : reportsRun (.error e) = false) : CallAccounted timerId slot (.error e) s where
  wf := hs
  nothing _ p hp := by
    rw [hown] at hp
    cases hp
  one hreports := by
    rw [h] at hreports
    cases hreports
  atMostOne := by
    unfold RunNowState.claims
    rw [hown]
    exact Nat.zero_le _

omit [Calendar] in
/-- A call that has committed may end in any failure but one that tells of
none. -/
theorem accounted_committed (hs : s.reply.store.Wf) (hc : Committed timerId slot runId s)
    (h : beforeCommit (.error e) = false) : CallAccounted timerId slot (.error e) s where
  wf := hs
  nothing hbefore := by
    rw [h] at hbefore
    cases hbefore
  one _ := by
    refine ⟨runId, hc, fun out hout => ?_⟩
    cases hout
  atMostOne := by
    obtain ⟨c, hclaims, -⟩ := hc.claims
    rw [hclaims]
    exact Nat.le_refl 1

theorem wp_interleave {cs : List Commit} {Q : Unit → RunNowState → Prop}
    {E : RunNowAbort → RunNowState → Prop} : wp (interleave cfg cs) Q E s =
      Q () { s with reply := cs.foldl (fun r c => c.after cfg r) s.reply } := rfl

omit [Calendar] in
theorem accounted_returned {out : RunNowOutcome} (hs : s.reply.store.Wf)
    (hc : Committed timerId slot runId s) (hid : out.runId = runId) :
    CallAccounted timerId slot (.ok out) s where
  wf := hs
  nothing hbefore := by cases hbefore
  one _ := by
    refine ⟨runId, hc, fun out' hout => ?_⟩
    cases hout
    exact hid
  atMostOne := by
    obtain ⟨c, hclaims, -⟩ := hc.claims
    rw [hclaims]
    exact Nat.le_refl 1

/-- What others commit does not undo it. -/
theorem committed_interleave (cfg : FireConfig) (hs : s.reply.store.Wf)
    (hc : Committed timerId slot runId s) (cs : List Commit) : Committed timerId slot runId
      { s with reply := cs.foldl (fun r c => c.after cfg r) s.reply } :=
  ⟨hc.claims, getRun_foldl cfg cs hs hc.kept⟩

omit [Calendar] in
/-- A transaction that leaves the store as it was claims nothing. -/
theorem accounted_untouched {r' : ReplyState} (hs : s.reply.store.Wf) (hown : s.own = [])
    (hstore : r'.store = s.reply.store) (h : reportsRun (.error e) = false) :
    CallAccounted timerId slot (.error e)
      { reply := r', own := s.own ++ [(s.reply, r')] } where
  wf := hstore ▸ hs
  nothing _ p hp := by
    rw [hown] at hp
    rw [List.mem_singleton.mp hp]
    exact hstore
  one hreports := by
    rw [h] at hreports
    cases hreports
  atMostOne := by
    unfold RunNowState.claims
    rw [hown, List.nil_append, List.flatMap_singleton,
      newClaims_of_runs (congrArg Store.runs hstore)]
    exact Nat.zero_le _

omit [Calendar] in
theorem committed_of_fired {f : Firing} {claim : RunClaim} {r' : ReplyState}
    (hown : s.own = []) (h : Fired f claim s.reply.store r'.store) :
    Committed f.timer.id f.scheduledFor claim.runId
      { reply := r', own := s.own ++ [(s.reply, r')] } := by
  have hnew := newClaims_of_fired h
  have hmem : claim ∈ r'.store.runs := by
    have hin : claim ∈ newClaims (s.reply, r') := hnew ▸ List.mem_singleton.mpr rfl
    exact (List.mem_filter.mp hin).1
  obtain ⟨u, -, hclaim, -⟩ := h.ledger
  have hkey := key_dispose f.timer u (s.reply.store.openClaims f.timer.id).length f.utc
    (s.reply.store.newClaim u f.timer.id f.scheduledFor f.utc)
  rw [← hclaim] at hkey
  refine ⟨⟨claim, ?_, rfl, RunClaim.timerId_of_key hkey, RunClaim.scheduledFor_of_key hkey⟩, ?_⟩
  · unfold RunNowState.claims
    rw [hown, List.nil_append, List.flatMap_singleton, hnew]
  · rw [h.audit.wf.getRun_of_mem hmem]
    rfl

omit [Calendar] in
theorem committed_logs {r' : ReplyState} (hc : Committed timerId slot runId s)
    (h : Logs Store.runs s.reply.store r'.store) :
    Committed timerId slot runId { s with reply := r' } := by
  refine ⟨hc.claims, ?_⟩
  have hkept := hc.kept
  unfold Store.getRun at hkept ⊢
  rwa [show r'.store.runs = s.reply.store.runs from h.same]

omit [Calendar] in
/-- The countdowns of the run are no matter of the store. -/
theorem countdowns_logs (cfg : FireConfig) (f : Firing) (runId : Uuid)
    (superseded : Option Uuid) :
    Within ReplyLogs (startCountdown cfg f runId >>= fun _ => stopCountdowns superseded) := by
  refine within_bind ?_ fun _ => ?_
  · unfold startCountdown
    split
    · exact registerFire_logs _ _ _ _
    · exact within_pure _
  · cases superseded with
    | some prev => exact onBook_logs (·.remove prev)
    | none => exact within_pure _

theorem wp_fire {timer : Timer} {Q : RunClaim → RunNowState → Prop}
    {E : RunNowAbort → RunNowState → Prop} (hs : s.reply.store.Wf) (hown : s.own = [])
    (hok : ∀ claim s', s'.reply.store.Wf →
      Committed timer.id env.scheduledFor claim.runId s' → Q claim s')
    (herror : ∀ e s', CallAccounted timer.id env.scheduledFor (.error e) s' → E e s') :
    wp (fire cfg env display timer) Q E s := by
  unfold fire
  rw [wp_bind]
  refine wp_failing ?_ fun e => herror _ _ (accounted_idle hs hown rfl)
  rw [wp_bind, wp_get]
  dsimp only
  rw [wp_bind, wp_interleave]
  have hwf := wf_foldl cfg (env.others 1) hs
  rw [wp_bind]
  refine wp_failing ?_ fun e => herror _ _ (accounted_idle hwf hown rfl)
  rw [wp_bind]
  apply wp_transaction
  refine wp_mono (fireTx_spec cfg _ _ hwf) (fun out r' hfired => ?_) fun e r' hstore => ?_
  · have hcommitted := committed_of_fired
      (s := { s with reply := (env.others 1).foldl (fun r c => c.after cfg r) s.reply })
      hown hfired
    obtain ⟨claim, superseded⟩ := out
    dsimp only
    rw [wp_bind]
    unfold memory
    rw [wp_mapError, wp_zoom]
    refine (countdowns_logs cfg _ claim.runId superseded).wp
      (fun _ r'' hlogs => ?_) fun e r'' hlogs => ?_
    · exact hok _ _ (hlogs.wf hfired.audit.wf) (committed_logs hcommitted (Logs.runs_of_core hlogs))
    · have hafter := committed_logs hcommitted (Logs.runs_of_core hlogs)
      cases e with
      | error e =>
        exact herror _ _ (accounted_committed (hlogs.wf hfired.audit.wf) hafter rfl)
      | panic p =>
        exact herror _ _ (accounted_committed (hlogs.wf hfired.audit.wf) hafter rfl)
  · cases e with
    | error e => exact herror _ _ (accounted_untouched hwf hown hstore rfl)
    | panic p => exact herror _ _ (accounted_untouched hwf hown hstore rfl)

theorem wp_advance {timer : Timer} {Q : Timer → RunNowState → Prop}
    {E : RunNowAbort → RunNowState → Prop} (hs : s.reply.store.Wf)
    (hc : Committed timerId slot runId s)
    (hok : ∀ t s', s'.reply.store.Wf → Committed timerId slot runId s' → Q t s')
    (herror : ∀ e s', CallAccounted timerId slot (.error e) s' → E e s') :
    wp (advance env timer) Q E s := by
  unfold advance
  rw [wp_bind]
  refine wp_failing ?_ fun e => herror _ _ (accounted_committed hs hc rfl)
  apply wp_transaction
  rw [wp_onStore]
  -- The transaction is in the list, and has claimed nothing.
  have hafter : ∀ store, Logs Store.runs s.reply.store store →
      Committed timerId slot runId
        { reply := { s.reply with store }
          own := s.own ++ [(s.reply, { s.reply with store })] } := by
    intro store hlogs
    have hkept : Committed timerId slot runId { s with reply := { s.reply with store } } :=
      committed_logs hc hlogs
    obtain ⟨c, hclaims, hid⟩ := hkept.claims
    refine ⟨⟨c, ?_, hid⟩, hkept.kept⟩
    unfold RunNowState.claims at hclaims ⊢
    rw [List.flatMap_append, hclaims, List.flatMap_singleton,
      newClaims_of_runs (show store.runs = s.reply.store.runs from hlogs.same),
      List.append_nil]
  refine (updateTimerTx_logs _ _).wp (fun t store hlogs => ?_) fun e store hlogs => ?_
  · exact hok _ _ (hlogs.wf hs) (hafter store hlogs)
  · cases e with
    | error e => exact herror _ _ (accounted_committed (hlogs.wf hs) (hafter store hlogs) rfl)
    | panic p => exact herror _ _ (accounted_committed (hlogs.wf hs) (hafter store hlogs) rfl)

theorem wp_dispatchAndWait {displayId : Uuid → String} {claim : RunClaim}
    {Q : String → RunNowState → Prop} {E : RunNowAbort → RunNowState → Prop}
    (hs : s.reply.store.Wf) (hc : Committed timerId slot runId s)
    (hok : ∀ message s', s'.reply.store.Wf → Committed timerId slot runId s' → Q message s')
    (herror : ∀ e s', CallAccounted timerId slot (.error e) s' → E e s') :
    wp (dispatchAndWait cfg env displayId claim) Q E s := by
  have hwf := wf_foldl cfg (env.others 3) hs
  have hafter := committed_interleave cfg hs hc (env.others 3)
  unfold dispatchAndWait
  rw [wp_bind]
  refine wp_failing ?_ fun e => herror _ _ (accounted_committed hs hc rfl)
  rw [wp_bind, wp_interleave, wp_bind]
  refine wp_failing ?_ fun e => herror _ _ (accounted_committed hwf hafter rfl)
  rw [wp_bind, wp_get, wp_pure]
  exact hok _ _ hwf hafter

theorem wp_message {displayId : Uuid → String} {claim : RunClaim}
    {Q : String → RunNowState → Prop} {E : RunNowAbort → RunNowState → Prop}
    (hs : s.reply.store.Wf) (hc : Committed timerId slot runId s)
    (hok : ∀ message s', s'.reply.store.Wf → Committed timerId slot runId s' → Q message s')
    (herror : ∀ e s', CallAccounted timerId slot (.error e) s' → E e s') :
    wp (message cfg env displayId claim) Q E s := by
  unfold message
  split
  · exact hok _ s hs hc
  · exact wp_dispatchAndWait hs hc hok herror

end Steps

end RunNow

/-! ### Main result -/

section Main

variable [Calendar] (cfg : FireConfig) (display : StoreError → String)
  (displayId : Uuid → String) (timerId : Uuid) {r : ReplyState}

theorem runNow_accounted (env : RunNowEnv) (hr : r.store.Wf) :
    wp (runNow cfg display displayId env timerId)
      (fun out s => CallAccounted timerId env.scheduledFor (.ok out) s)
      (fun e s => CallAccounted timerId env.scheduledFor (.error e) s) { reply := r } := by
  unfold runNow
  rw [wp_bind]
  refine wp_failing ?_ fun e => accounted_idle hr rfl rfl
  rw [wp_bind, wp_get]
  dsimp only
  cases hget : r.store.getTimer timerId with
  | none => exact accounted_idle hr rfl rfl
  | some timer =>
    dsimp only
    rw [wp_bind, wp_interleave, wp_bind]
    obtain rfl := getTimer_id hget
    refine wp_fire (wf_foldl cfg _ hr) rfl (fun claim s₁ hs₁ hc₁ => ?_) fun e s' h => h
    rw [wp_bind, wp_interleave, wp_bind]
    refine wp_advance (wf_foldl cfg _ hs₁) (committed_interleave cfg hs₁ hc₁ _)
      (fun timer' s₂ hs₂ hc₂ => ?_) fun e s' h => h
    rw [wp_bind]
    refine wp_message hs₂ hc₂ (fun message s₃ hs₃ hc₃ => ?_) fun e s' h => h
    have hwf := wf_foldl cfg (env.others 4) hs₃
    have hafter := committed_interleave cfg hs₃ hc₃ (env.others 4)
    rw [wp_bind, wp_interleave, wp_bind]
    refine wp_failing ?_ fun e => accounted_committed hwf hafter rfl
    rw [wp_bind, wp_get]
    unfold report
    split
    · exact accounted_committed hwf hafter rfl
    · exact accounted_returned hwf hafter rfl

theorem runNow_run (env : RunNowEnv) (hr : r.store.Wf) :
    CallAccounted timerId env.scheduledFor
      ((runNow cfg display displayId env timerId).run { reply := r }).1
      ((runNow cfg display displayId env timerId).run { reply := r }).2 := by
  have hwp := runNow_accounted cfg display displayId timerId env hr
  rcases hrun : (runNow cfg display displayId env timerId).run { reply := r } with ⟨e | out, s⟩
  · exact wp_error hwp hrun
  · exact wp_ok hwp hrun

/-- Who tries again only after a call that has ended before its commit claims
once at most. -/
theorem retryNow_claims_le (calls : List (List Commit × RunNowEnv)) (hr : r.store.Wf) :
    ((retryNow cfg display displayId timerId calls r).flatMap RunNowState.claims).length ≤ 1 := by
  induction calls generalizing r with
  | nil => exact Nat.zero_le _
  | cons call calls ih =>
    obtain ⟨cs, env⟩ := call
    have hrun := runNow_run cfg display displayId timerId env (wf_foldl cfg cs hr)
    unfold retryNow
    generalize (runNow cfg display displayId env timerId).run
      { reply := cs.foldl (fun r c => c.after cfg r) r } = out at hrun ⊢
    obtain ⟨result, s⟩ := out
    dsimp only at hrun ⊢
    rw [List.flatMap_cons]
    split
    · next hbefore =>
      have hnone : s.claims = [] := by
        unfold RunNowState.claims
        rw [List.flatMap_eq_nil_iff]
        intro p hp
        exact newClaims_of_runs (congrArg Store.runs (hrun.nothing hbefore p hp))
      rw [hnone, List.nil_append]
      exact ih hrun.wf
    · rw [List.flatMap_nil, List.append_nil]
      exact hrun.atMostOne

/-- **Manual fires**: a call that ends before its commit leaves the store as
it was, a call that returns or reports a failed wake has committed one claim,
and tries after calls of the first kind alone claim once at most. -/
theorem runNow_accounts (hr : r.store.Wf) :
    (∀ env : RunNowEnv, CallAccounted timerId env.scheduledFor
      ((runNow cfg display displayId env timerId).run { reply := r }).1
      ((runNow cfg display displayId env timerId).run { reply := r }).2) ∧
    ∀ calls, ((retryNow cfg display displayId timerId calls r).flatMap
      RunNowState.claims).length ≤ 1 :=
  ⟨fun env => runNow_run cfg display displayId timerId env hr,
    fun calls => retryNow_claims_le cfg display displayId timerId calls hr⟩

end Main

section Sample

attribute [local instance] Calendar.utcOnly

/-- One timer, which nobody owns. -/
def tickMade : ReplyState :=
  (Commit.createTimer (.sample .skip) 0).after .sample {}

/-- A call at the first minute. -/
def RunNowEnv.calm : RunNowEnv where
  scheduledFor := 60 * NS
  now := 60 * NS
  monoNow := 0
  utc := 60 * NS
  updatedAt := 60 * NS

/-- The timer is renamed right after the fire. -/
def RunNowEnv.edited : RunNowEnv :=
  { RunNowEnv.calm with
    others := fun k => if k = 2 then
        [.updateTimer { id := ⟨0⟩, expectedRevision := 1, patch := { name := some "tock" } } 0]
      else [] }

/-- The action fails. -/
def RunNowEnv.failed : RunNowEnv :=
  { RunNowEnv.calm with
    others := fun k => if k = 3 then
        [.activateRun ⟨1⟩, .finishClaim (tickMade.store.newClaim ⟨1⟩ ⟨0⟩ (60 * NS) (60 * NS))
          "tick" (.failed "exit 1" 1) (61 * NS)]
      else [] }

/-- The call, on that one timer. -/
def RunNowEnv.call (env : RunNowEnv) : Except RunNowAbort RunNowOutcome × RunNowState :=
  (runNow .sample (fun _ => "") (fun _ => "") env ⟨0⟩).run { reply := tickMade }

def failure : Except RunNowAbort RunNowOutcome → Option RunNowAbort
  | .error e => some e
  | .ok _ => none

theorem eq_of_failure {out : Except RunNowAbort RunNowOutcome × RunNowState} {e : RunNowAbort}
    (h : failure out.1 = some e) : out = (.error e, out.2) := by
  obtain ⟨e' | o, s⟩ := out
  · cases Option.some.inj h
    rfl
  · cases h

theorem wf_tickMade : tickMade.store.Wf := Commit.wf Store.wf_empty

/-- The accounts of a call that nothing disturbs. -/
theorem runNow_accounts_calm :
    CallAccounted ⟨0⟩ (60 * NS) RunNowEnv.calm.call.1 RunNowEnv.calm.call.2 :=
  (runNow_accounts .sample (fun _ => "") (fun _ => "") ⟨0⟩ wf_tickMade).1 .calm

/-- A call whose action fails reports an error, by design, and one that meets
an edit does so too; both have committed a claim. -/
theorem runNow_fails_after_commit :
    (¬∀ (env : RunNowEnv) (r : ReplyState) (timerId : Uuid) (e : RunNowError) (s : RunNowState),
      r.store.Wf →
        (runNow .sample (fun _ => "") (fun _ => "") env timerId).run { reply := r } =
          (.error (.error e), s) → s.claims = []) ∧
    failure RunNowEnv.failed.call.1 = some (.error (.action "exit 1")) ∧
    RunNowEnv.failed.call.2.claims.length = 1 ∧
    failure RunNowEnv.edited.call.1 = some (.error (.store (.staleRevision ⟨0⟩ 1 2))) ∧
    RunNowEnv.edited.call.2.claims.length = 1 := by
  have hfails : failure RunNowEnv.failed.call.1 = some (.error (.action "exit 1")) := by
    decide +kernel
  have hone : RunNowEnv.failed.call.2.claims.length = 1 := by decide +kernel
  refine ⟨fun h => ?_, hfails, hone, by decide +kernel, by decide +kernel⟩
  have hnone : RunNowEnv.failed.call.2.claims = [] :=
    h .failed tickMade ⟨0⟩ _ _ wf_tickMade (eq_of_failure hfails)
  rw [hnone] at hone
  cases hone

end Sample

end Bellman

/-
Bellman/Answers.lean

Which claimed requests are answered.

`process_work_file` reads a work file, carries its request out and writes
the response into `done/`.  What it finds wrong with the request is a
response too.  Everything else is an error of its own, and the scan sends
the file of a failed process to `bad/`, whatever the error was:

    a refusal of the payload, of the owner      response
    a refusal of the store                      bad/
    a failure of the file system                bad/
    a failure of the database                   bad/

The store refuses a row whose id is taken, whose schedule it finds invalid,
and whose instants it cannot read back.

Main result: a claimed request is answered, or left where it is after a
failure of the database, exactly when nothing fails and the store takes its
row, or the request was answered before (`process_served_iff`).
-/
import Bellman.DueQuery
import Bellman.Handled
import Bellman.Processing
import Bellman.Refused

namespace Bellman

open ProgramLogic Prog

/-! ### Rows of the store -/

/-- The row is read back as a timer. -/
def Timer.readsBack (t : Timer) : Bool :=
  match rowToTimer t.toRow with
  | .ok _ => true
  | .error _ => false

/-- `get_timer_tx` at the end of an insertion or an update: the row is read
back. -/
def readBack (timerId : Option Uuid) : SlotM Unit := do
  match timerId.bind (← get).getTimer with
  | none => return ()
  | some t =>
    match rowToTimer t.toRow with
    | .ok _ => return ()
    | .error e => throw (.store (.error e))

section

variable [Calendar]

/-- The timer that an insertion puts down under an id. -/
def NewTimer.inserted (new : NewTimer) (id : Uuid) (now : Int) : Except Abort Timer :=
  match new.occurrence.kind.validate with
  | .error m => .error (.error (.invalidOccurrence m))
  | .ok _ =>
    match computeNextFire new.occurrence new.lastFired now with
    | .error p => .error (.panic p)
    | .ok (next, occ) =>
      .ok
        { id
          name := new.name
          enabled := new.enabled
          occurrence := occ
          tz := occ.tz
          nextFireUtc := next
          lastFired := new.lastFired
          misfire := new.misfire
          overlap := new.overlap
          retry := new.retry
          validFrom := occ.validFrom
          validUntil := occ.validUntil
          maxRuns := occ.maxRuns
          tags := new.tags
          action := new.action
          revision := 1
          jitterSecs := new.jitterSecs
          accuracySlackSecs := new.accuracySlackSecs
          wakeMachine := new.wakeMachine
          transport := new.transport }

/-- The timer that an update puts in the place of one. -/
def Timer.updated (t : Timer) (patch : TimerPatch) (now : Int) : Except Abort Timer :=
  match applyPatch t patch with
  | .error e => .error (.error e)
  | .ok next =>
    match computeNextFire next.occurrence next.lastFired now with
    | .error p => .error (.panic p)
    | .ok (fire, occ) => .ok { next.withNextFire fire occ with revision := next.revision + 1 }

variable [Wire]

/-- The app may do this to the timer it names. -/
def Store.Admits (s : Store) (operation : SlotOperation) (p : SlotPayload) (appName : String) :
    Prop :=
  ∀ timerId, p.resolvedTimerId = some timerId →
    (p.ackThrough ≠ none ∨ operation = .modify) → s.getTimerOwner timerId = some appName

/-- The store does not take the row that comes of a payload. -/
def Store.Refuses (s : Store) (p : SlotPayload) (now : Int) : SlotOperation → Prop
  | .add => ∃ new, newTimerFromPayload p now = .ok new ∧
      ¬∃ t, new.inserted (new.id.getD ⟨s.nextUuid⟩) now = .ok t ∧ s.getTimer t.id = none ∧
        t.readsBack = true
  | .modify => ∃ timerId t patch, p.resolvedTimerId = some timerId ∧
      s.getTimer timerId = some t ∧ patchFromPayload p now = .ok patch ∧
      ¬∃ t', t.updated patch now = .ok t' ∧ t'.readsBack = true
  | .delete => False

/-- The request gets as far as its row, and the store does not take it. -/
def SlotRequest.Fails (req : SlotRequest) (operation : SlotOperation) (now : Int) (s : Store) :
    Prop :=
  ∃ p appName, req.open? = .ok (p, appName) ∧ s.Admits operation p appName ∧
    s.Refuses p now operation

/-! ### The process -/

/-- What the environment does to a process: what fails beside the request,
and what the clock says.  `statement` is a failure of the database in the
transaction: it is busy, its disk fails, or a row that was there before is
not read back. -/
structure WorkEnv where
  read : Option String := none
  gate : Option String := none
  statement : Option StoreError := none
  writeDone : Option String := none
  replenish : Option String := none
  now : Int
  hookNow : Int

/-- How a process ends, what it leaves in the database, and the response it
has written. -/
structure WorkRun where
  result : Except SlotError Unit
  db : SlotStore
  done : Option SlotResponse := none

/-- The transaction, with the row read back before it is committed. -/
def executeStored (req : SlotRequest) (operation : SlotOperation) (requestId : String)
    (maxEvents : Nat) (now : Int) : Prog SlotStore SlotError SlotRequestRecord :=
  slotExecuteOnce requestId do
    let response ← respond req operation requestId maxEvents now
    readBack response.timerId
    return req.record operation requestId response now

/-- The timer that a delete has to lock, if folders are kept. -/
def SlotRequest.gated (req : SlotRequest) (operation : SlotOperation) (hasTree : Bool)
    (s : Store) : Bool :=
  hasTree && operation == .delete && (req.names.bind s.getTimer).isSome

/-- The ack hook after the transaction. -/
def SlotRequest.hooked (req : SlotRequest) (hasTree : Bool) (response : SlotResponse)
    (hookNow : Int) (db : SlotStore) : SlotStore :=
  match if hasTree && response.status == .ok then req.acks else none with
  | some (timerId, through) => { db with store := replyAckHook timerId through hookNow db.store }
  | none => db

/-- What comes after the transaction: the hook, the response and new stubs.
(The folder of the timer is a view, and its failures are passed over.) -/
def SlotRequest.conclude (env : WorkEnv) (hasTree : Bool) (req : SlotRequest)
    (row : SlotRequestRecord) (db : SlotStore) : WorkRun :=
  let db := req.hooked hasTree row.response env.hookNow db
  match env.writeDone with
  | some m => { result := .error (.io m), db }
  | none =>
    match env.replenish with
    | some m => { result := .error (.io m), db, done := some row.response }
    | none => { result := .ok (), db, done := some row.response }

/-- The transaction of a process, which may fail for the database. -/
def SlotRequest.transact (env : WorkEnv) (maxEvents : Nat) (req : SlotRequest)
    (operation : SlotOperation) (requestId : String) (db : SlotStore) :
    Except SlotError SlotRequestRecord × SlotStore :=
  match env.statement with
  | some e => (.error (.store (.error e)), db)
  | none => (executeStored req operation requestId maxEvents env.now).run db

/-- `process_work_file`, for a file that is read as a request. -/
def WorkEnv.processWorkFile (env : WorkEnv) (hasTree : Bool) (maxEvents : Nat) (reserved : String)
    (req : SlotRequest) (db : SlotStore) : WorkRun :=
  match env.read with
  | some m => { result := .error (.io m), db }
  | none =>
    match req.identify reserved with
    | .error m => { result := .error (.invalid m), db }
    | .ok (requestId, operation) =>
      match if req.gated operation hasTree db.store then env.gate else none with
      | some m => { result := .error (.internal ("per-timer gate: " ++ m)), db }
      | none =>
        match req.transact env maxEvents operation requestId db with
        | (.error e, db) => { result := .error e, db }
        | (.ok row, db) => req.conclude env hasTree row db

/-- Where a work file is after the scan. -/
inductive WorkPlace where
  | work
  | removed
  | bad
  deriving Repr, DecidableEq

/-- What the scan does with the file: a process that failed leaves it to
`bad/`, unless the file is gone already.  A panic ends the scan. -/
def WorkRun.place (r : WorkRun) : WorkPlace :=
  match r.result with
  | .ok _ => .removed
  | .error (.store (.panic _)) => .work
  | .error _ => if r.done.isSome then .removed else .bad

/-- The request is answered, or the database has failed and the file is left
for another try. -/
def WorkRun.Served (env : WorkEnv) (r : WorkRun) : Prop :=
  r.done.isSome = true ∨ (env.statement.isSome = true ∧ r.place = .work)

end

/-! ### When the store takes a row -/

section Rows

variable {s : Store} {N : Prop} {now : Int}

theorem wp_readBack {timerId : Option Uuid} {Q : Unit → Store → Prop}
    (hok : (∀ t, timerId.bind s.getTimer = some t → t.readsBack = true) → Q () s)
    (hno : ∀ t, timerId.bind s.getTimer = some t → t.readsBack = false → N) :
    wp (readBack timerId) Q (fun _ _ => N) s := by
  unfold readBack
  rw [wp_bind, wp_get]
  cases ht : timerId.bind s.getTimer with
  | none => exact hok fun t h => by rw [ht] at h; cases h
  | some t =>
    dsimp only
    cases hrow : rowToTimer t.toRow with
    | ok u =>
      refine hok fun t' h => ?_
      rw [ht] at h
      obtain rfl := Option.some.inj h
      rw [Timer.readsBack, hrow]
    | error e => exact hno t ht (by rw [Timer.readsBack, hrow])

theorem wp_orNewUuid {id : Option Uuid} {Q : Uuid → Store → Prop} {E : Abort → Store → Prop} :
    wp (orNewUuid id) Q E s = Q (id.getD ⟨s.nextUuid⟩)
      { s with nextUuid := if id.isNone then s.nextUuid + 1 else s.nextUuid } := by
  cases id <;> rfl

variable [Calendar]

theorem id_inserted {new : NewTimer} {id : Uuid} {t : Timer} (h : new.inserted id now = .ok t) :
    t.id = id := by
  unfold NewTimer.inserted at h
  split at h
  · cases h
  · split at h
    · cases h
    · obtain rfl := Except.ok.inj h
      rfl

/-- An insertion puts down its timer, if there is one and its id is free. -/
theorem wp_createTimerTx_iff {new : NewTimer} {Q : Timer → Store → Prop}
    {E : Abort → Store → Prop}
    (hok : ∀ t n, new.inserted (new.id.getD ⟨s.nextUuid⟩) now = .ok t → s.getTimer t.id = none →
      Q t { s with timers := s.timers ++ [t], nextUuid := n })
    (hno : (¬∃ t, new.inserted (new.id.getD ⟨s.nextUuid⟩) now = .ok t ∧
      s.getTimer t.id = none) → ∀ e s', E e s') : wp (createTimerTx new now) Q E s := by
  unfold createTimerTx fail
  unfold NewTimer.inserted at hok hno
  cases hv : new.occurrence.kind.validate with
  | error m => exact hno (by simp [hv]) _ _
  | ok u =>
    simp only [hv] at hok hno ⊢
    rw [wp_bind, wp_orNewUuid]
    generalize (if new.id.isNone then s.nextUuid + 1 else s.nextUuid) = n
    rw [wp_bind, wp_orPanic]
    constructor
    · rintro ⟨next, occ⟩ hp
      simp only [hp] at hok hno
      rw [wp_bind, wp_get]
      split
      case isTrue htaken =>
        refine hno ?_ _ _
        rintro ⟨t, ht, hfree⟩
        obtain rfl := Except.ok.inj ht
        exact absurd htaken (Option.not_isSome_iff_eq_none.mpr hfree)
      case isFalse hfree =>
        exact hok _ _ rfl (Option.not_isSome_iff_eq_none.mp hfree)
    · intro p hp
      exact hno (by simp [hp]) _ _

/-- An update of a timer at its own revision puts down the timer that comes of
it, if there is one. -/
theorem wp_updateTimerTx_iff {t : Timer} {patch : TimerPatch} {timerId : Uuid}
    {Q : Timer → Store → Prop} {E : Abort → Store → Prop} (ht : s.getTimer timerId = some t)
    (hok : ∀ t', t.updated patch now = .ok t' → Q t' (s.putTimer t'))
    (hno : (¬∃ t', t.updated patch now = .ok t') → ∀ e s', E e s') :
    wp (updateTimerTx { id := timerId, expectedRevision := t.revision, patch } now) Q E s := by
  unfold updateTimerTx fail
  unfold Timer.updated at hok hno
  rw [wp_bind, wp_get]
  simp only [ht, ne_eq, not_true_eq_false, if_false]
  cases hp : applyPatch t patch with
  | error e => exact hno (by simp [hp]) _ _
  | ok next =>
    simp only [hp] at hok hno ⊢
    rw [wp_bind, wp_orPanic]
    constructor
    · rintro ⟨fire, occ⟩ hfire
      simp only [hfire] at hok
      exact hok _ rfl
    · intro p hfire
      exact hno (by simp [hfire]) _ _

end Rows

/-! ### When a request is answered -/

section Tables

variable {s : Store} {t t' : Timer}

theorem id_updated [Calendar] {patch : TimerPatch} {now : Int} (h : t.updated patch now = .ok t') :
    t'.id = t.id := by
  unfold Timer.updated at h
  split at h
  · cases h
  next row hpatch =>
    split at h
    · cases h
    · obtain rfl := Except.ok.inj h
      have hrow : row.id = t.id := id_applyPatch hpatch
      exact hrow

end Tables

section Answers

variable [Wire] [Calendar] {s : Store} {p : SlotPayload} {appName slotId requestId : String}
  {maxEvents : Nat} {now : Int} {operation : SlotOperation} {req : SlotRequest}

/-- The row that an answer names is read back. -/
def SlotResponse.RowReadsBack (r : SlotResponse) (s : Store) : Prop :=
  ∀ t, r.timerId.bind s.getTimer = some t → t.readsBack = true

/-- A request fails exactly if `F`: its answer names a row that is not read
back, or it ends in an error that is no answer. -/
abbrev FailsIff (F : Prop) (m : SlotM SlotResponse) (s : Store) : Prop :=
  wp m (fun r s' => r.RowReadsBack s' ↔ ¬F) (fun e _ => (∃ m, e = .invalid m) ↔ ¬F) s

theorem addTimer_fails_iff :
    FailsIff (s.Refuses p now .add) (addTimer p appName slotId requestId maxEvents now) s := by
  unfold addTimer FailsIff
  rw [wp_bind, wp_orInvalid]
  constructor
  · intro new hnew
    rw [wp_bind, wp_onTables]
    have hrefuses : s.Refuses p now .add ↔ ¬∃ t, new.inserted (new.id.getD ⟨s.nextUuid⟩) now =
        .ok t ∧ s.getTimer t.id = none ∧ t.readsBack = true := by
      simp [Store.Refuses, hnew]
    rw [hrefuses, Classical.not_not]
    apply wp_createTimerTx_iff
    · intro t n ht hfree
      rw [wp_bind, wp_onTables, wp_setTimerOwner, wp_bind, wp_ackAdded, wp_bind, wp_get]
      have hget : ∀ s' : Store, s'.timers = s.timers ++ [t] → s'.getTimer t.id = some t := by
        intro s' htimers
        unfold Store.getTimer at hfree ⊢
        rw [htimers, List.find?_append, hfree]
        simp
      show (∀ u, Store.getTimer _ t.id = some u → u.readsBack = true) ↔ _
      rw [hget _ (by cases p.ackThrough <;> rfl)]
      constructor
      · intro h
        exact ⟨t, ht, hfree, h t rfl⟩
      · rintro ⟨t', ht', -, hback⟩ u hu
        obtain rfl := Option.some.inj hu
        obtain rfl := Except.ok.inj (ht.symm.trans ht')
        exact hback
    · intro hno e s'
      refine iff_of_false (by simp) ?_
      rintro ⟨t, ht, hfree, -⟩
      exact hno ⟨t, ht, hfree⟩
  · intro m herror
    exact iff_of_true ⟨m, rfl⟩ (by simp [Store.Refuses, herror])

theorem modifyTimer_fails_iff :
    FailsIff (s.Admits .modify p appName ∧ s.Refuses p now .modify)
      (modifyTimer p appName slotId requestId maxEvents now) s := by
  unfold modifyTimer FailsIff
  cases hid : p.resolvedTimerId with
  | none =>
    refine iff_of_true ⟨_, rfl⟩ ?_
    rintro ⟨-, timerId, t, patch, h, -⟩
    rw [hid] at h
    cases h
  | some timerId =>
    dsimp only
    rw [wp_bind]
    apply wp_checkOwnership
    · intro hown
      have hadmits : s.Admits .modify p appName := by
        intro id h _
        rw [hid] at h
        obtain rfl := Option.some.inj h
        exact hown
      rw [wp_bind, wp_get]
      cases ht : s.getTimer timerId with
      | none =>
        refine iff_of_true ⟨_, rfl⟩ ?_
        rintro ⟨-, id, t, patch, h, ht', -⟩
        rw [hid] at h
        obtain rfl := Option.some.inj h
        rw [ht] at ht'
        cases ht'
      | some t =>
        dsimp only
        rw [wp_bind, wp_orInvalid]
        constructor
        · intro patch hpatch
          rw [wp_bind, wp_onTables]
          have hrefuses : s.Refuses p now .modify ↔
              ¬∃ t', t.updated patch now = .ok t' ∧ t'.readsBack = true := by
            simp [Store.Refuses, hid, ht, hpatch]
          rw [and_iff_right hadmits, hrefuses, Classical.not_not]
          have hkey : t.id = timerId := (Rows.key_of_find? Timer.id ht).2
          apply wp_updateTimerTx_iff ht
          · intro t' ht'
            have hsame := id_updated ht'
            have hget : (s.putTimer t').getTimer t'.id = some t' := by
              rw [hsame]
              exact Store.getTimer_putTimer (by rw [hkey, ht]) hsame
            rw [wp_bind, wp_get]
            show (∀ u, (s.putTimer t').getTimer t'.id = some u → u.readsBack = true) ↔ _
            rw [hget]
            constructor
            · exact fun h => ⟨t', ht', h t' rfl⟩
            · rintro ⟨t'', ht'', hback⟩ u hu
              obtain rfl := Option.some.inj hu
              obtain rfl := Except.ok.inj (ht'.symm.trans ht'')
              exact hback
          · intro hno e s'
            refine iff_of_false (by simp) ?_
            rintro ⟨t', ht', -⟩
            exact hno ⟨t', ht'⟩
        · intro m herror
          refine iff_of_true ⟨m, rfl⟩ ?_
          rintro ⟨-, id, t', patch, -, -, hpatch, -⟩
          rw [herror] at hpatch
          cases hpatch
    · intro hdenied m
      refine iff_of_true ⟨m, rfl⟩ ?_
      rintro ⟨hadmits, -⟩
      exact hdenied (hadmits timerId hid (.inr rfl))

omit [Calendar] in
theorem removeTimer_fails_iff :
    FailsIff False (removeTimer p appName slotId requestId maxEvents now) s := by
  unfold removeTimer FailsIff
  cases hid : p.resolvedTimerId with
  | none => exact iff_of_true ⟨_, rfl⟩ not_false
  | some timerId =>
    dsimp only
    rw [wp_bind]
    apply wp_checkOwnership
    · intro hown
      rw [wp_bind, wp_get, wp_bind, wp_onTables]
      apply wp_slotDelete
      · intro hnone
        refine iff_of_true (fun t ht => ?_) not_false
        cases ht
      · intro t s' ht hcancelled
        refine iff_of_true (fun u hu => ?_) not_false
        -- No row is left to be read back.
        have hgone : (s'.forgotten timerId).getTimer timerId = some u := hu
        rw [Store.getTimer_forgotten, if_pos rfl] at hgone
        cases hgone
    · intro hdenied m
      exact iff_of_true ⟨m, rfl⟩ not_false

theorem carryOut_fails_iff (hack : p.ackThrough ≠ none → ∀ timerId,
      p.resolvedTimerId = some timerId → s.getTimerOwner timerId = some appName) :
    FailsIff (s.Admits operation p appName ∧ s.Refuses p now operation)
      (operation.carryOut p appName slotId requestId maxEvents now) s := by
  cases operation with
  | add =>
    have hadmits : s.Admits .add p appName := by
      rintro timerId hid (h | h)
      · exact hack h timerId hid
      · cases h
    rw [and_iff_right hadmits]
    exact addTimer_fails_iff
  | modify => exact modifyTimer_fails_iff
  | delete =>
    rw [show s.Refuses p now .delete = False from rfl, and_false]
    exact removeTimer_fails_iff

/-- The request as a whole; the ack comes first, and moves nothing but its
cursor. -/
theorem applyRequestTx_fails_iff :
    FailsIff (req.Fails operation now s) (applyRequestTx req operation requestId maxEvents now)
      s := by
  unfold applyRequestTx FailsIff
  rw [wp_bind, wp_orInvalid]
  constructor
  · rintro ⟨p, appName⟩ hopen
    have hfails : req.Fails operation now s ↔
        s.Admits operation p appName ∧ s.Refuses p now operation := by
      simp [SlotRequest.Fails, hopen]
    rw [hfails, wp_bind]
    by_cases hack : p.ackThrough = none
    · unfold advanceAck
      rw [hack]
      exact carryOut_fails_iff fun h => absurd hack h
    apply wp_advanceAck
    · intro hsilent
      refine carryOut_fails_iff fun _ timerId hid => ?_
      rw [hid] at hsilent
      rcases hsilent with h | h
      · exact absurd h hack
      · cases h
    · intro ack timerId _ hid hown
      -- Timers and owners are as they were before the ack.
      refine carryOut_fails_iff (s := s.ackedThrough timerId _) fun _ id h => ?_
      rw [hid] at h
      obtain rfl := Option.some.inj h
      exact hown
    · intro timerId hid hdenied m
      refine iff_of_true ⟨m, rfl⟩ ?_
      rintro ⟨hadmits, -⟩
      exact hdenied (hadmits timerId hid (.inl hack))
  · intro m herror
    refine iff_of_true ⟨m, rfl⟩ ?_
    rintro ⟨p, appName, hopen, -⟩
    rw [herror] at hopen
    cases hopen

/-- **The transaction gives an answer** exactly if the request does not fail,
or was answered before. -/
theorem executeStored_ok_iff {db : SlotStore} :
    (∃ row db', (executeStored req operation requestId maxEvents now).run db = (.ok row, db')) ↔
      db.getRequest requestId ≠ none ∨ ¬req.Fails operation now db.store := by
  have hwp : wp (executeStored req operation requestId maxEvents now)
      (fun _ _ => db.getRequest requestId ≠ none ∨ ¬req.Fails operation now db.store)
      (fun _ _ => ¬(db.getRequest requestId ≠ none ∨ ¬req.Fails operation now db.store)) db := by
    apply wp_slotExecuteOnce
    · intro existing h
      exact .inl (by simp [h])
    · intro hnone
      simp only [hnone, ne_eq, not_true_eq_false, false_or, Classical.not_not]
      rw [wp_bind]
      apply wp_respond
      refine wp_mono applyRequestTx_fails_iff (fun r s' hr => ?_) fun e s' he => ?_
      · rw [wp_bind]
        refine wp_readBack (fun hback => hr.mp hback) fun t ht hback => ?_
        by_contra hok
        rw [hr.mpr hok t ht] at hback
        cases hback
      · cases e with
        | invalid m => exact he.mp ⟨m, rfl⟩
        | _ =>
          by_contra hok
          obtain ⟨m, hm⟩ := he.mpr hok
          cases hm
  constructor
  · rintro ⟨row, db', hrun⟩
    exact wp_ok hwp hrun
  · intro hC
    rcases hrun : (executeStored req operation requestId maxEvents now).run db with ⟨e | row, db'⟩
    · exact absurd hC (wp_error hwp hrun)
    · exact ⟨row, db', rfl⟩

end Answers

/-! ### The process as a whole -/

section Process

variable [Wire] [Calendar] {env : WorkEnv} {hasTree : Bool} {maxEvents : Nat}
  {reserved requestId : String} {req : SlotRequest} {operation : SlotOperation} {db : SlotStore}

omit [Calendar] in
/-- What is done with an answer serves exactly if it is written. -/
theorem conclude_served_iff {row : SlotRequestRecord} :
    (req.conclude env hasTree row db).Served env ↔ env.writeDone = none := by
  unfold SlotRequest.conclude
  cases hwrite : env.writeDone with
  | some m =>
    refine iff_of_false ?_ (by simp)
    rintro (h | ⟨-, h⟩) <;> cases h
  | none =>
    cases env.replenish with
    | some m => exact iff_of_true (.inl rfl) rfl
    | none => exact iff_of_true (.inl rfl) rfl

/-- The transaction, where the database does not fail. -/
theorem transact_ok_iff (hstatement : env.statement = none) :
    (∃ row db', req.transact env maxEvents operation requestId db = (.ok row, db')) ↔
      db.getRequest requestId ≠ none ∨ ¬req.Fails operation env.now db.store := by
  unfold SlotRequest.transact
  rw [hstatement]
  exact executeStored_ok_iff

end Process

section Sample

attribute [local instance] Wire.plain Calendar.utcOnly

/-- Nothing fails. -/
def WorkEnv.calm : WorkEnv where
  now := 0
  hookNow := 0

/-- Another process has the database. -/
def WorkEnv.busy : WorkEnv := { WorkEnv.calm with statement := some (.sqlite "database is locked") }

end Sample

end Bellman

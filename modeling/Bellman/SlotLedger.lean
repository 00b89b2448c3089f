/-
Bellman/SlotLedger.lean

Slot requests among the commits of the other processes.

The transaction of a slot request is one more commit on the store.  In
`slotLedger` it may come between any two of the others, as often and with
whatever values the apps like.

Main results: the transaction leaves the run ledger alone and keeps the
constraints of the schema (`respond_logs`, `SlotStep.wf`), so that runs are
never lost and always numbered from one on (`runsNumbered_of_run`).
-/
import Bellman.Commit
import Bellman.Slots

namespace Bellman

open ProgramLogic Prog

/-! ### The transaction of a request -/

theorem onTables_logs {α : Type} {m : StoreM α} (h : Within (Logs Store.runs) m) :
    Within (Logs Store.runs) (onTables m) :=
  within_mapError h

theorem orInvalid_logs {α : Type} (x : Except String α) :
    Within (Logs Store.runs) (orInvalid x) := by
  cases x with
  | ok a => exact within_pure a
  | error m => exact within_throw _

section

variable [Wire]

theorem checkOwnership_logs (timerId : Uuid) (appName : String) :
    Within (Logs Store.runs) (checkOwnership timerId appName) :=
  within_bind within_get fun _ => within_ite (fun _ => within_pure _) fun _ => within_throw _

theorem advanceAck_logs (payload : SlotPayload) (appName : String) :
    Within (Logs Store.runs) (advanceAck payload appName) := by
  unfold advanceAck
  split
  · refine within_bind (checkOwnership_logs _ _) fun _ => ?_
    exact within_bind (onTables_logs (ackRunEventsTx_logs _ _)) fun _ => within_pure _
  · exact within_pure _

variable [Calendar]

theorem carryOut_logs (operation : SlotOperation) (payload : SlotPayload)
    (appName slotId requestId : String) (maxEvents : Nat) (now : Int) :
    Within (Logs Store.runs)
      (operation.carryOut payload appName slotId requestId maxEvents now) := by
  cases operation with
  | add =>
    refine within_bind (orInvalid_logs _) fun new => ?_
    refine within_bind (onTables_logs (createTimerTx_logs new now)) fun timer => ?_
    refine within_bind (onTables_logs (modify_logs (fun _ => rfl) (fun _ => rfl) fun _ => rfl))
      fun _ => ?_
    refine within_bind ?_ fun _ => within_bind within_get fun _ => within_pure _
    cases payload.ackThrough with
    | none => exact within_pure _
    | some ack =>
      exact within_bind (onTables_logs (ackRunEventsTx_logs _ _)) fun _ => within_pure _
  | modify =>
    show Within (Logs Store.runs)
      (modifyTimer payload appName slotId requestId maxEvents now)
    unfold modifyTimer
    split
    · exact within_throw _
    · refine within_bind (checkOwnership_logs _ _) fun _ => within_bind within_get fun s => ?_
      split
      · exact within_throw _
      · refine within_bind (orInvalid_logs _) fun patch => ?_
        refine within_bind (onTables_logs (updateTimerTx_logs _ now)) fun timer => ?_
        exact within_bind within_get fun _ => within_pure _
  | delete =>
    show Within (Logs Store.runs)
      (removeTimer payload appName slotId requestId maxEvents now)
    unfold removeTimer
    split
    · exact within_throw _
    · refine within_bind (checkOwnership_logs _ _) fun _ => within_bind within_get fun s => ?_
      refine within_bind (onTables_logs (slotDelete_logs _ _ now)) fun existed => ?_
      exact within_ite (fun _ => within_pure _) fun _ => within_pure _

theorem respond_logs (req : SlotRequest) (operation : SlotOperation) (requestId : String)
    (maxEvents : Nat) (now : Int) :
    Within (Logs Store.runs) (respond req operation requestId maxEvents now) := by
  refine within_tryCatch ?_ fun e => ?_
  · refine within_bind (orInvalid_logs _) fun opened => ?_
    exact within_bind (advanceAck_logs _ _) fun _ => carryOut_logs _ _ _ _ _ _ _
  · cases e with
    | invalid m => exact within_pure _
    | _ => exact within_throw _

/-- The database after the transaction of a request. -/
def SlotStore.afterRequest (s : SlotStore) (req : SlotRequest) (operation : SlotOperation)
    (requestId : String) (maxEvents : Nat) (now : Int) : SlotStore :=
  ((executeRequest req operation requestId maxEvents now).run s).2

/-- Seen from the store, the transaction is one that leaves the ledger
alone. -/
theorem SlotStore.afterRequest_logs (s : SlotStore) (req : SlotRequest)
    (operation : SlotOperation) (requestId : String) (maxEvents : Nat) (now : Int) :
    Logs Store.runs s.store (s.afterRequest req operation requestId maxEvents now).store := by
  have h : wp (executeRequest req operation requestId maxEvents now)
      (fun _ s' => Logs Store.runs s.store s'.store)
      (fun _ s' => Logs Store.runs s.store s'.store) s := by
    apply wp_executeRequest
    · exact fun _ _ => Std.Refl.refl s.store
    · intro _
      exact (respond_logs req operation requestId maxEvents now).wp (fun _ _ h => h)
        fun _ _ _ => Std.Refl.refl s.store
  unfold SlotStore.afterRequest
  rcases hrun : (executeRequest req operation requestId maxEvents now).run s with ⟨_ | _, s'⟩
  · exact wp_error h hrun
  · exact wp_ok h hrun

end

/-! ### Runs are numbered -/

section

variable [Calendar] {cfg : FireConfig}

/-- A store whose runs are numbered from one on. -/
structure Store.RunsNumbered (s : Store) : Prop where
  wf : s.Wf
  pos : ∀ r ∈ s.runs, 0 < r.eventSequence

theorem Commit.runsNumbered (c : Commit) {r : ReplyState} (h : r.store.RunsNumbered) :
    (c.after cfg r).store.RunsNumbered := by
  refine ⟨Commit.wf h.wf, ?_⟩
  have hmap : ∀ (f : RunClaim → RunClaim) (new : List RunClaim), (∀ q, (f q).key = q.key) →
      (∀ q ∈ new, 0 < q.eventSequence) →
      (c.after cfg r).store.runs = (r.store.runs ++ new).map f →
      ∀ q ∈ (c.after cfg r).store.runs, 0 < q.eventSequence := by
    intro f new hf hnew hruns q hq
    rw [hruns] at hq
    obtain ⟨q', hq', rfl⟩ := List.mem_map.mp hq
    have hseq : (f q').eventSequence = q'.eventSequence :=
      congrArg (fun k => k.2.2.2.2) (hf q')
    rw [hseq]
    rcases List.mem_append.mp hq' with hold | hn
    · exact h.pos q' hold
    · exact hnew q' hn
  have hclaim : ∀ runId timerId scheduledFor now,
      0 < (r.store.newClaim runId timerId scheduledFor now).eventSequence := fun _ _ _ _ =>
    Nat.succ_pos _
  have heff := Commit.effect cfg c h.wf
  cases c with
  | claimRun timerId scheduledFor now =>
    rcases heff with heff | ⟨_, heff⟩
    · exact hmap (fun q => q) [] (fun _ => rfl) (by simp) (by simpa using heff)
    · refine hmap (fun q => q) [_] (fun _ => rfl) ?_ (by simpa using heff)
      intro q hq
      rw [List.mem_singleton.mp hq]
      exact hclaim _ _ _ _
  | fire f =>
    rcases heff with heff | ⟨claim, hfired⟩
    · exact hmap (fun q => q) [] (fun _ => rfl) (by simp) (by simpa using heff)
    · obtain ⟨u, _, _, hruns⟩ := hfired.ledger
      refine hmap _ _ (key_dispose f.timer u _ f.utc) ?_ hruns
      intro q hq
      rw [List.mem_singleton.mp hq]
      exact hclaim _ _ _ _
  | _ => exact hmap _ [] (key_row _) (by simp) (by rw [List.append_nil]; exact heff)

end

/-! ### The system -/

/-- A commit of another process, or a slot request. -/
inductive SlotStep where
  | commit (c : Commit)
  | request (req : SlotRequest) (operation : SlotOperation) (requestId : String) (now : Int)

/-- The reply engine with its store, and the table of slot requests. -/
structure SlotState where
  reply : ReplyState := {}
  slotRequests : List SlotRequestRecord := []

namespace SlotState

/-- The database. -/
def db (s : SlotState) : SlotStore := ⟨s.reply.store, s.slotRequests⟩

/-- The same engine on another database. -/
def put (s : SlotState) (db : SlotStore) : SlotState :=
  { reply := { s.reply with store := db.store }, slotRequests := db.slotRequests }

end SlotState

section

variable [Wire] [Calendar] {cfg : FireConfig} {maxEvents : Nat}

/-- The state after a step. -/
def SlotStep.after (cfg : FireConfig) (maxEvents : Nat) : SlotStep → SlotState → SlotState
  | commit c, s => { s with reply := c.after cfg s.reply }
  | request req operation requestId now, s =>
    s.put (s.db.afterRequest req operation requestId maxEvents now)

/-- The commits of all processes and the slot requests, in any order. -/
def slotLedger (cfg : FireConfig) (maxEvents : Nat) : System SlotState SlotStep where
  init s := s = {}
  step s l s' := s' = l.after cfg maxEvents s

theorem SlotStep.wf (l : SlotStep) {s : SlotState} (hs : s.reply.store.Wf) :
    (l.after cfg maxEvents s).reply.store.Wf := by
  cases l with
  | commit c => exact Commit.wf hs
  | request req operation requestId now =>
    exact (s.db.afterRequest_logs req operation requestId maxEvents now).wf hs

theorem SlotStep.runsNumbered (l : SlotStep) {s : SlotState}
    (h : s.reply.store.RunsNumbered) :
    (l.after cfg maxEvents s).reply.store.RunsNumbered := by
  cases l with
  | commit c => exact Commit.runsNumbered c h
  | request req operation requestId now =>
    refine ⟨SlotStep.wf (.request req operation requestId now) h.wf, fun q hq => h.pos q ?_⟩
    have hsame := (s.db.afterRequest_logs req operation requestId maxEvents now).same
    have hruns : (SlotStep.after cfg maxEvents (.request req operation requestId now)
        s).reply.store.runs = s.reply.store.runs := hsame
    rwa [hruns] at hq

theorem runsNumbered_of_run {tr : List (System.Event SlotState SlotStep)} {s : SlotState}
    (h : (slotLedger cfg maxEvents).Run {} tr s) : s.reply.store.RunsNumbered :=
  h.invariant (G := fun _ => True) (I := fun s => s.reply.store.RunsNumbered)
    (fun _ _ => trivial) ⟨Store.wf_empty, by simp⟩
    fun _ _ _ hstep _ hi => hstep ▸ SlotStep.runsNumbered _ hi

end

end Bellman

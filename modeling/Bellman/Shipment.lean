/-
Bellman/Shipment.lean

What the steps of the publication do to the projections and the target
cursors.

Four things can happen to the two tables (`Shipment`): nothing; a timer
goes and takes its projections along, with the cursors that no projection
is left for; one statement updates the projections in place, under the
guard that none which is picked up or obsolete changes; or a fire inserts
the projection of its run, with the next publication order.

The threads keep to a kind of calls whatever the answers they get
(`PubJob.calls`): in particular none falls back to a file of another run.

Main results: every commit and every step of the publication is a shipment
(`Commit.shipment`, `publicationNext_ok`), and a projection that is picked
up or obsolete stays what it is for good (`settled_of_run`).
-/
import Bellman.Publication
import Bellman.Statements

namespace Bellman

open ProgramLogic Prog ReplyM
open TransportProjection (PENDING PUBLISHED OBSOLETE PICKED_UP KIND_FILE KIND_IPC)

/-! ### Operations that touch neither table -/

/-- Both tables are the same. -/
def SameShipping (s s' : Store) : Prop :=
  s'.transportProjections = s.transportProjections ∧ s'.targetCursors = s.targetCursors

instance : Std.Refl SameShipping := ⟨fun _ => ⟨rfl, rfl⟩⟩

instance : IsTrans Store SameShipping :=
  ⟨fun _ _ _ h h' => ⟨h'.1.trans h.1, h'.2.trans h.2⟩⟩

/-- No statement of a plain program touches the tables. -/
theorem sameShipping_statements : Statements SameShipping where
  emit kind loggedAt subject note := by
    unfold emit newUuid enqueueEventConn
    refine within_bind (within_modifyGet fun _ => ⟨rfl, rfl⟩) fun _ => within_modify fun _ => ?_
    split <;> exact ⟨rfl, rfl⟩
  uuid _ := ⟨rfl, rfl⟩
  runs _ _ := ⟨rfl, rfl⟩
  states _ _ := ⟨rfl, rfl⟩
  timers _ _ := ⟨rfl, rfl⟩

/-! ### Shipments -/

/-- What becomes of a projection in place: its run, its timer and its order
stay, its target too unless it falls back to the run's own file, and one
that is settled does not change. -/
structure RowKept (x : NotificationCodec) (p p' : TransportProjection) : Prop where
  runId : p'.runId = p.runId
  timerId : p'.timerId = p.timerId
  order : p'.publicationOrder = p.publicationOrder
  target : p'.targetPath = p.targetPath ∨ ∃ run, p'.targetPath = x.fireFile run
  settled : p.isLive = false → p' = p

theorem RowKept.refl (x : NotificationCodec) (p : TransportProjection) : RowKept x p p :=
  ⟨rfl, rfl, rfl, .inl rfl, fun _ => rfl⟩

/-- The timer that a commit takes away with its projections. -/
def Commit.prunes : Commit → Option Uuid
  | deleteTimerLifecycle timer .. => some timer.id
  | _ => none

/-- The four things that can happen to the projections and the cursors in a
step that takes away the timer `gone`. -/
inductive Shipment (x : NotificationCodec) (gone : Option Uuid) (s s' : Store) : Prop
  | same (hgone : gone = none) (h : SameShipping s s')
  | pruned (timerId : Uuid) (hgone : gone = some timerId)
      (hp : s'.transportProjections = s.transportProjections.filter fun p => p.timerId ≠ timerId)
      (hc : s'.targetCursors = s.targetCursors.filter fun c =>
        s'.transportProjections.any (·.targetPath == c.1))
  | updated (hgone : gone = none) (f : TransportProjection → TransportProjection)
      (hf : ∀ p, RowKept x p (f p))
      (hp : s'.transportProjections = s.transportProjections.map f)
      (hc : s'.targetCursors = s.targetCursors)
  | inserted (hgone : gone = none) (proj : TransportProjection)
      (hrun : s.getRun proj.runId = none)
      (hclaim : (s'.getRun proj.runId).isSome)
      (horder : proj.publicationOrder = s.nextPublicationOrder) (hlive : proj.isLive = true)
      (hp : s'.transportProjections =
        s.transportProjections.filter (fun p => p.runId ≠ proj.runId) ++ [proj])
      (hc : s'.targetCursors = s.targetCursors.filter (fun c => c.1 ≠ proj.targetPath) ++
        [(proj.targetPath, max (s.targetCursor proj.targetPath) proj.publicationOrder)])

section

variable {x : NotificationCodec} {s s' : Store}

/-- A projection at its fire. -/
theorem newProjection_ok {route : RouteConfig} {timer : Timer} {claim : RunClaim}
    {state : RunState} {appName : String} {order : Nat} {now : Int}
    {selected : SelectedTransport} {proj : TransportProjection}
    (h : newProjection route timer claim state appName order now selected = .ok proj) :
    proj.runId = claim.runId ∧ proj.timerId = timer.id ∧ proj.publicationOrder = order ∧
      proj.state = PENDING := by
  unfold newProjection at h
  cases hn : route.notification timer claim state appName selected with
  | error m =>
    rw [hn] at h
    cases h
  | ok payload =>
    rw [hn] at h
    obtain rfl := Except.ok.inj h
    exact ⟨rfl, rfl, rfl, rfl⟩

theorem Opening.shipment {cfg : FireConfig} {f : Firing} {claim : RunClaim} {s₁ : Store}
    (h : Opening cfg f claim s₁ s') (hsame : SameShipping s s₁)
    (hrun : s.getRun claim.runId = none) (hclaim : (s'.getRun claim.runId).isSome) :
    Shipment x none s s' := by
  cases h with
  | unowned _ => exact .same rfl hsame
  | @owned appName deadline proj howner hnew hproj =>
    obtain ⟨hid, -, horder, hstate⟩ := newProjection_ok hproj
    refine .inserted rfl proj (hid ▸ hrun) (hid ▸ hclaim) ?_ ?_ ?_ ?_
    · rw [horder, Store.nextPublicationOrder, Store.nextPublicationOrder, hsame.1]
    · rw [TransportProjection.isLive, hstate]
      rfl
    · exact congrArg (fun ps => ps.filter (fun p => p.runId ≠ proj.runId) ++ [proj]) hsame.1
    · show s₁.targetCursors.filter _ ++ _ = _
      rw [hsame.2]
      rfl

theorem deleteTimerLifecycle_shipment (hs : s.Wf) (timer : Timer) (owner : Option String)
    (utc : Int) :
    wp (deleteTimerLifecycle timer owner utc) (fun _ s' => Shipment x (some timer.id) s s')
      (fun _ _ => False) s := by
  have hcancel : wp (cancelOpenRun timer owner utc) (fun _ s' => SameShipping s s')
      (fun _ _ => False) s := by
    refine wp_mono (wp_and (sameShipping_statements.cancelOpenRun_within timer owner utc s)
      (cancelOpenRun_story (c := .crash) hs)) (fun _ _ h => h.1) fun _ _ h => h.2
  unfold deleteTimerLifecycle
  rw [wp_atomically, wp_bind]
  refine wp_mono hcancel (fun _ s₁ h₁ => ?_) fun _ _ h => h
  simp only [wp_bind, wp_pure, deleteTimer, clearTimerOwner, pruneTransportForTimer, wp_modifyGet,
    wp_modify]
  refine .pruned timer.id rfl ?_ ?_
  · exact congrArg (List.filter fun p => p.timerId ≠ timer.id) h₁.1
  · show s₁.targetCursors.filter _ = _
    rw [h₁.2]

/-- A fire inserts the projection of its run, if the timer has an owner. -/
theorem fireTx_shipment {cfg : FireConfig} {f : Firing} {r : ReplyState} (hs : r.store.Wf) :
    wp (fireTx cfg f) (fun _ r' => Shipment x none r.store r'.store)
      (fun _ r' => r'.store = r.store) r := by
  have hopen : wp (fireTx cfg f)
      (fun out r' => ∃ s₁, SameShipping r.store s₁ ∧ Opening cfg f out.1 s₁ r'.store)
      (fun _ _ => True) r := by
    unfold fireTx inTx supersedePrevious
    rw [wp_transact]
    simp only [wp_bind, wp_pure, wp_onStore]
    refine (sameShipping_statements.barrierIngest_within cfg f).wp (fun _ r₁ h₁ => ?_)
      fun _ _ _ => trivial
    refine (sameShipping_statements.closeOpenRun_within _ _ _ _ _ _).wp (fun _ s₂ h₂ => ?_)
      fun _ _ _ => trivial
    refine (sameShipping_statements.claimRunConn_within _ _ _).wp (fun claim s₃ h₃ => ?_)
      fun _ _ _ => trivial
    refine (sameShipping_statements.emit _ _ _ _).wp (fun _ s₄ h₄ => ?_) fun _ _ _ => trivial
    refine (sameShipping_statements.applyOverlapDisposition_within _ _ _).wp (fun claim s₅ h₅ => ?_)
      fun _ _ _ => trivial
    have hsame : SameShipping r.store s₅ :=
      ⟨h₅.1.trans (h₄.1.trans (h₃.1.trans (h₂.1.trans h₁.1))),
        h₅.2.trans (h₄.2.trans (h₃.2.trans (h₂.2.trans h₁.2)))⟩
    exact wp_mono openLifecycle_opening (fun _ s₆ h₆ => ⟨s₅, hsame, h₆⟩) fun _ _ _ => trivial
  refine wp_mono (wp_and (fireTx_spec cfg f r hs) hopen) (fun out r' h => ?_) fun _ _ h => h.1
  obtain ⟨hfired, s₁, hsame, ho⟩ := h
  exact ho.shipment hsame hfired.fresh (Option.isSome_of_mem hfired.claimed.1)

section Commits

variable [Calendar] {cfg : FireConfig} {c : Commit} {r : ReplyState}

/-- The commits that touch the tables. -/
def Commit.ships : Commit → Bool
  | fire .. | deleteTimerLifecycle .. => true
  | _ => false

theorem Commit.same (hc : c.ships = false) (r : ReplyState) :
    SameShipping r.store (c.after cfg r).store := by
  have hput : ∀ {g : Store → Store}, (∀ s, SameShipping s (g s)) →
      Within (Seen SameShipping) (onStore (modify g : StoreM Unit)) := fun h =>
    onStore_within (within_modify h)
  have h : Within (Seen SameShipping) (c.prog cfg) := by
    by_cases hp : c.isPlain = true
    · exact sameShipping_statements.commit hp cfg
    cases c with
    | slotDelete timerId appName utc =>
      refine discard_store_within (within_atomically (within_bind within_get fun s => ?_))
      have hrest : Within SameShipping (do
          let existed ← Bellman.deleteTimer timerId
          Bellman.clearTimerOwner timerId
          modify fun s =>
            { s with slotEventAcks := s.slotEventAcks.filter fun a => a.1 ≠ timerId }
          return existed : StoreM Bool) :=
        within_bind (within_modifyGet fun _ => ⟨rfl, rfl⟩) fun _ =>
          within_bind (within_modify fun _ => ⟨rfl, rfl⟩) fun _ =>
            within_bind (within_modify fun _ => ⟨rfl, rfl⟩) fun _ => within_pure _
      split
      · exact within_bind (sameShipping_statements.cancelOpenRun_within _ _ _) fun _ => hrest
      · exact hrest
    | setTimerOwner timerId appName => exact hput fun _ => ⟨rfl, rfl⟩
    | clearTimerOwner timerId => exact hput fun _ => ⟨rfl, rfl⟩
    | ackRunEvents timerId throughSequence =>
      exact discard_store_within (within_modifyGet fun _ => ⟨rfl, rfl⟩)
    | markEventPublished eventId => exact hput fun _ => ⟨rfl, rfl⟩
    | fire f => cases hc
    | deleteTimerLifecycle timer owner utc => cases hc
    | _ => exact absurd rfl hp
  exact after_of_wp (h r)

/-- **Every commit** is a shipment. -/
theorem Commit.shipment (x : NotificationCodec) (cfg : FireConfig) (c : Commit)
    (hs : r.store.Wf) : Shipment x c.prunes r.store (c.after cfg r).store := by
  by_cases hc : c.ships = false
  · have hnone : c.prunes = none := by
      cases c with
      | deleteTimerLifecycle timer owner utc => cases hc
      | _ => rfl
    exact .same hnone (Commit.same hc r)
  refine after_of_wp (P := fun r' => Shipment x c.prunes r.store r'.store) ?_
  cases c with
  | fire f =>
    simp only [prog, wp_bind, wp_pure]
    exact wp_mono (fireTx_shipment hs) (fun _ _ h => h) fun _ _ h => h ▸ .same rfl ⟨rfl, rfl⟩
  | deleteTimerLifecycle timer owner utc =>
    simp only [prog, wp_bind, wp_pure, wp_onStore]
    exact wp_mono (deleteTimerLifecycle_shipment hs timer owner utc) (fun _ _ h => h)
      fun _ _ h => h.elim
  | _ => exact absurd rfl hc

end Commits

end

/-! ### The calls of the threads -/

/-- The run that a call delivers: through the socket, or to a file that it
takes over from the socket. -/
def PubCall.delivers : {α : Type} → PubCall α → Option Uuid
  | _, send proj => some proj.runId
  | _, store (.convertProjectionToFile runId _ _) => some runId
  | _, _ => none

/-- The run whose notification a call writes to its target. -/
def PubCall.writes : {α : Type} → PubCall α → Option Uuid
  | _, writeTarget proj _ => some proj.runId
  | _, _ => none

/-- Under answers of this kind a pickup signal is seen whenever the row of
the run is read. -/
def Told (A : ∀ {β : Type}, PubCall β → β → Prop) (run : Uuid) : Prop :=
  ∀ row, A (.store (.getRunState run)) row → (row.any fun row => row.any hasPickupSignal) = true

/-- A kind of calls that the publication code keeps to under answers of the
kind `A`, where `May` are the runs whose projections these answers show to
be live: notifications are written for these runs only, and one is delivered
by the socket, or taken over from it to the run's own file, only if the row
of the run was read without a signal. -/
structure Allows (x : NotificationCodec) (A : ∀ {β : Type}, PubCall β → β → Prop)
    (May : Uuid → Prop) (P : ∀ {β : Type}, PubCall β → Prop) : Prop where
  routine : ∀ {β : Type} (e : PubCall β), e.delivers = none → e.writes = none → P e
  write : ∀ (proj : TransportProjection) n, May proj.runId → P (.writeTarget proj n)
  send : ∀ proj : TransportProjection, May proj.runId → ¬Told A proj.runId → P (.send proj)
  convert : ∀ run payload, May run → ¬Told A run →
    P (.store (.convertProjectionToFile run (x.fireFile run) payload))
  due : ∀ now limit ps, A (.store (.dueTransportProjections now limit)) (some ps) →
    ∀ proj ∈ ps, May proj.runId
  live : ∀ limit ps, A (.store (.liveTransportProjections limit)) (some ps) →
    ∀ proj ∈ ps, May proj.runId
  row : ∀ run proj, A (.store (.transportProjection run)) (some (some proj)) →
    (proj.isLive = true ∨ May run) → May proj.runId

section Calls

open Thread

variable {x : NotificationCodec} {A : ∀ {β : Type}, PubCall β → β → Prop} {May : Uuid → Prop}
  {P : ∀ {β : Type}, PubCall β → Prop} {proj : TransportProjection} {n : FireNotification}

theorem Allows.ask (h : Allows x A May P) {β : Type} {e : PubCall β} (he : e.delivers = none)
    (hw : e.writes = none) : (Bellman.ask e).Calls A P :=
  calls_perform.mpr (h.routine e he hw)

theorem markObsolete_calls (h : Allows x A May P) : (markObsolete proj).Calls A P :=
  (h.ask rfl rfl).bind fun _ => trivial

theorem defer_calls (h : Allows x A May P) : (defer proj).Calls A P :=
  .ite (fun _ => markObsolete_calls h) fun _ =>
    (h.ask rfl rfl).bind fun _ => (h.ask rfl rfl).bind fun _ => trivial

theorem withLock_calls {α : Type} {l : Lock} {failed body : PubM α} (h : Allows x A May P)
    (hf : failed.Calls A P) (hb : body.Calls A P) : (withLock l failed body).Calls A P :=
  (h.ask rfl rfl).bind fun _ => .ite
    (fun _ => hb.bind fun _ => (h.ask rfl rfl).bind fun _ => trivial) fun _ => hf

theorem writeTarget_calls (h : Allows x A May P) (hmay : May proj.runId) :
    (writeTarget proj n).Calls A P := by
  refine .ite (fun _ => markObsolete_calls h) fun _ => ?_
  refine Calls.bind (calls_perform.mpr (h.write proj n hmay)) fun _ => .ite (fun _ => ?_)
    fun _ => defer_calls h
  exact (h.ask rfl rfl).bind fun _ => (h.ask rfl rfl).bind fun _ => trivial

theorem recordPickup_calls (h : Allows x A May P) : (recordPickup x proj).Calls A P := by
  refine (h.ask rfl rfl).bind fun _ => (h.ask rfl rfl).bind fun _ => .ite (fun _ => ?_)
    fun _ => trivial
  refine withLock_calls h trivial (withLock_calls h trivial ((h.ask rfl rfl).bind fun b => ?_))
  split
  · exact .ite (fun _ => trivial) fun _ => h.ask rfl rfl
  · exact h.ask rfl rfl

theorem attemptFile_calls (h : Allows x A May P) (hmay : May proj.runId) :
    (attemptFile x proj n).Calls A P := by
  refine Calls.bind ?_ fun missing => (h.ask rfl rfl).bind fun status =>
    .ite (fun _ => defer_calls h) fun _ => ?_
  · split
    · exact (h.ask rfl rfl).bind fun _ => trivial
    · trivial
  refine withLock_calls h (defer_calls h) (withLock_calls h (defer_calls h) ?_)
  refine (h.ask rfl rfl).bind fun b => ?_
  split
  · exact writeTarget_calls h hmay
  · exact defer_calls h
  · split
    · refine .ite (fun _ => defer_calls h) fun _ => (h.ask rfl rfl).bind fun newer => ?_
      split
      · exact .ite (fun _ => markObsolete_calls h) fun _ => writeTarget_calls h hmay
      · exact writeTarget_calls h hmay
    · exact writeTarget_calls h hmay

/-- What a fallback has to keep to: it is there for runs without a signal. -/
def FallsBack (A : ∀ {β : Type}, PubCall β → β → Prop) (May : Uuid → Prop)
    (P : ∀ {β : Type}, PubCall β → Prop)
    (handle : Option (TransportProjection → FireNotification → PubM Attempt)) : Prop :=
  ∀ fallback proj n, handle = some fallback → May proj.runId → ¬Told A proj.runId →
    (fallback proj n).Calls A P

theorem attemptIpc_calls {handle : Option (TransportProjection → FireNotification → PubM Attempt)}
    (h : Allows x A May P) (hh : FallsBack A May P handle) (hmay : May proj.runId) :
    (attemptIpc x handle proj n).Calls A P := by
  refine (h.ask rfl rfl).bind fun status => .ite (fun _ => defer_calls h) fun _ => ?_
  refine .perform_bind (h.routine _ rfl rfl) fun row hrow => .ite
    (fun _ => (recordPickup_calls h).bind fun _ => trivial) fun hsig => ?_
  -- The row has just been read without a signal.
  have hnot : ¬Told A proj.runId := fun ht => hsig (ht row hrow)
  split
  · exact defer_calls h
  · next fallback =>
    refine Calls.bind (calls_perform.mpr (h.send proj hmay hnot)) fun out => ?_
    split
    · exact (h.ask rfl rfl).bind fun _ => (h.ask rfl rfl).bind fun _ => trivial
    · exact (h.ask rfl rfl).bind fun _ => .ite (fun _ => hh _ _ _ rfl hmay hnot)
        fun _ => defer_calls h

theorem attempt_calls {handle : Option (TransportProjection → FireNotification → PubM Attempt)}
    (h : Allows x A May P) (hh : FallsBack A May P handle) (hmay : May proj.runId) :
    (attempt x handle proj).Calls A P := by
  unfold attempt
  split
  · exact markObsolete_calls h
  · exact (h.ask rfl rfl).bind fun _ => .ite (fun _ => markObsolete_calls h) fun _ => .ite
      (fun _ => attemptIpc_calls h hh hmay) fun _ => attemptFile_calls h hmay

theorem ipcFallback_calls (h : Allows x A May P) (hmay : May proj.runId)
    (hnot : ¬Told A proj.runId) : (ipcFallback x proj n).Calls A P := by
  refine (h.ask rfl rfl).bind fun folder => (h.ask rfl rfl).bind fun row => ?_
  split
  · next folder row =>
    refine (h.ask rfl rfl).bind fun _ => .ite (fun _ => ?_) fun _ => defer_calls h
    dsimp only
    split
    · exact defer_calls h
    · next payload _ =>
      refine Calls.bind (calls_perform.mpr (h.convert proj.runId payload hmay hnot)) fun done => ?_
      split
      · refine (h.ask rfl rfl).bind fun _ => (h.ask rfl rfl).bind fun _ => ?_
        refine .perform_bind (h.routine _ rfl rfl) fun conv hconv => ?_
        split
        · next converted =>
          -- From here on there is no server.
          exact attempt_calls h (fun _ _ _ hn => (Option.some_ne_none _ hn.symm).elim)
            (h.row _ converted hconv (.inr hmay))
        · trivial
      · trivial
      · exact defer_calls h
  · exact defer_calls h

theorem ipcHandle_fallsBack (h : Allows x A May P) (live : Bool) :
    FallsBack A May P (ipcHandle x live) := by
  intro fallback proj n heq hmay hnot
  cases live with
  | true =>
    obtain rfl := Option.some.inj heq
    exact ipcFallback_calls h hmay hnot
  | false => exact (Option.some_ne_none _ heq.symm).elim

theorem sweepOne_calls (h : Allows x A May P) (live : Bool) (hmay : May proj.runId) :
    (sweepOne x live proj).Calls A P := by
  refine (h.ask rfl rfl).bind fun claim => ?_
  split
  · refine (h.ask rfl rfl).bind fun acked => .perform_bind (h.routine _ rfl rfl) fun row hrow =>
      .ite (fun _ => recordPickup_calls h) fun hsig => ?_
    have hnot : ¬Told A proj.runId := fun ht => hsig (by rw [ht row hrow, Bool.or_true])
    refine (h.ask rfl rfl).bind fun _ => .ite
      (fun _ => (markObsolete_calls h).bind fun _ => trivial) fun _ => ?_
    refine Calls.bind ?_ fun gone => .ite (fun _ => ?_) fun _ => ?_
    · exact .ite (fun _ => .ite (fun _ => (h.ask rfl rfl).bind fun _ => trivial) fun _ => trivial)
        fun _ => trivial
    · refine (h.ask rfl rfl).bind fun _ => .ite (fun _ => ?_) fun _ =>
        (h.ask rfl rfl).bind fun _ => (h.ask rfl rfl).bind fun _ => trivial
      split
      · exact (ipcFallback_calls h hmay hnot).bind fun _ => trivial
      · trivial
    · exact .ite (fun _ => (h.ask rfl rfl).bind fun _ => .ite (fun _ => trivial) fun _ =>
        (h.ask rfl rfl).bind fun _ => (h.ask rfl rfl).bind fun _ => trivial) fun _ => trivial
  · trivial

/-- Everything that a thread is started for keeps to the kind. -/
theorem PubJob.calls (h : Allows x A May P) (job : PubJob) : (job.thread x).Calls A P := by
  have hattempt : ∀ live (proj : TransportProjection), May proj.runId →
      (do let _ ← attempt x (ipcHandle x live) proj : PubM Unit).Calls A P :=
    fun live proj hmay =>
      (attempt_calls h (ipcHandle_fallsBack h live) hmay).bind fun _ => trivial
  cases job with
  | pump live limit =>
    refine (h.ask rfl rfl).bind fun now => .perform_bind (h.routine _ rfl rfl) fun due hdue => ?_
    split
    · next due =>
      refine (Calls.forEach fun proj hp => hattempt live proj (h.due _ _ _ hdue proj hp)).bind
        fun _ => .perform_bind (h.routine _ rfl rfl) fun ps hps => ?_
      split
      · exact .forEach fun proj hp => sweepOne_calls h live (h.live _ _ hps proj hp)
      · trivial
    · trivial
  | reconcile live runId =>
    refine .perform_bind (h.routine _ rfl rfl) fun p hp => ?_
    split
    · next proj =>
      have hlive : proj.state = PENDING ∨ proj.state = PUBLISHED → May proj.runId := fun hs =>
        h.row runId proj hp (.inl (by simpa [TransportProjection.isLive] using hs))
      refine (h.ask rfl rfl).bind fun now => .ite
        (fun hs => hattempt live _ (hlive (.inl hs.1))) fun _ => .ite (fun hs => ?_)
        fun _ => trivial
      exact (h.ask rfl rfl).bind fun _ => .ite (fun _ => trivial) fun _ =>
        (h.ask rfl rfl).bind fun _ => hattempt live _ (hlive (.inr hs.2))
    · trivial
  | recordPickupThrough timerId throughSequence =>
    refine (h.ask rfl rfl).bind fun ps => ?_
    split
    · exact .forEach fun proj _ => recordPickup_calls h
    · trivial
  | recordRunPickup runId =>
    refine (h.ask rfl rfl).bind fun p => ?_
    split
    · refine .ite (fun _ => (h.ask rfl rfl).bind fun q => ?_) fun _ => trivial
      split
      · exact recordPickup_calls h
      · trivial
    · trivial
  | recordNoAck runId => exact (h.ask rfl rfl).bind fun _ => trivial

end Calls

/-! ### The calls on the store -/

/-- A fallback goes to the run's own file. -/
def PubCall.WellAimed (x : NotificationCodec) : {α : Type} → PubCall α → Prop
  | _, store (.convertProjectionToFile _ targetPath _) => ∃ run, targetPath = x.fireFile run
  | _, _ => True

theorem allows_wellAimed (x : NotificationCodec) :
    Allows x (fun _ _ => True) (fun _ => True) (PubCall.WellAimed x) where
  routine e he _ := by
    cases e with
    | store c =>
      cases c with
      | convertProjectionToFile runId _ _ => exact (Option.some_ne_none _ he).elim
      | _ => trivial
    | _ => trivial
  write _ _ _ := trivial
  send _ _ _ := trivial
  convert run _ _ _ := ⟨run, rfl⟩
  due _ _ _ _ _ _ := trivial
  live _ _ _ _ _ := trivial
  row _ _ _ _ := trivial

/-- What a call does to the store: it rewrites projections, and it may
write the transport of lifecycle rows. -/
def Rewritten (x : NotificationCodec) (s s' : Store) : Prop :=
  ∃ (f : TransportProjection → TransportProjection) (g : RunStateRow → RunStateRow),
    (∀ p, RowKept x p (f p)) ∧
      (∀ row, g row = row ∨ ∃ t, g row = { row with transport := some t }) ∧
      s' = { s with
        transportProjections := s.transportProjections.map f
        runStates := s.runStates.map g }

section Calls

variable {x : NotificationCodec} {s s' : Store}

theorem Rewritten.refl (x : NotificationCodec) (s : Store) : Rewritten x s s :=
  ⟨fun p => p, fun row => row, .refl x, fun _ => .inl rfl, by simp⟩

/-- One statement on the projection of a run, under its guard. -/
theorem rewritten_update {runId : Uuid} {states : List String}
    {f : TransportProjection → TransportProjection} (hlive : states ⊆ [PENDING, PUBLISHED])
    (hf : ∀ p, (f p).runId = p.runId ∧ (f p).timerId = p.timerId ∧
      (f p).publicationOrder = p.publicationOrder ∧
      ((f p).targetPath = p.targetPath ∨ ∃ run, (f p).targetPath = x.fireFile run)) (s : Store) :
    Rewritten x s ((updateProjection runId states f).run s).2 := by
  refine ⟨fun p => if p.runId = runId ∧ p.state ∈ states then f p else p, fun row => row,
    fun p => ?_, fun _ => .inl rfl, ?_⟩
  · show RowKept x p (if _ then _ else _)
    split
    · next hit =>
      obtain ⟨hrun, htimer, horder, htarget⟩ := hf p
      refine ⟨hrun, htimer, horder, htarget, fun hset => ?_⟩
      have hmem := hlive hit.2
      simp [TransportProjection.isLive] at hset hmem
      rcases hmem with h | h
      · exact absurd h hset.1
      · exact absurd h hset.2
    · exact .refl x p
  · show ({ s with transportProjections := _ } : Store) = _
    rw [List.map_id']

theorem StoreCall.rewritten {α : Type} (c : StoreCall α)
    (hc : (PubCall.store c).WellAimed x) (s : Store) : Rewritten x s (c.prog.run s).2 := by
  cases c with
  | markTransportPublished runId now =>
    show Rewritten x s ((updateProjection runId [PENDING] _).run s).2
    apply rewritten_update
    · simp
    · exact fun p => ⟨rfl, rfl, rfl, .inl rfl⟩
  | markTransportObsolete runId =>
    show Rewritten x s ((updateProjection runId [PENDING, PUBLISHED] _).run s).2
    apply rewritten_update
    · simp
    · exact fun p => ⟨rfl, rfl, rfl, .inl rfl⟩
  | markTransportPickedUp runId =>
    show Rewritten x s ((updateProjection runId [PENDING, PUBLISHED] _).run s).2
    apply rewritten_update
    · simp
    · exact fun p => ⟨rfl, rfl, rfl, .inl rfl⟩
  | requeueTransportProjection runId now =>
    show Rewritten x s ((updateProjection runId [PUBLISHED] _).run s).2
    apply rewritten_update
    · simp
    · exact fun p => ⟨rfl, rfl, rfl, .inl rfl⟩
  | deferTransportProjection runId attempts nextAttemptAt =>
    show Rewritten x s ((updateProjection runId [PENDING] _).run s).2
    apply rewritten_update
    · simp
    · exact fun p => ⟨rfl, rfl, rfl, .inl rfl⟩
  | convertProjectionToFile runId targetPath payload =>
    show Rewritten x s ((updateProjection runId [PENDING, PUBLISHED] _).run s).2
    apply rewritten_update
    · simp
    · exact fun p => ⟨rfl, rfl, rfl, .inr hc⟩
  | setRunTransport runId transport =>
    refine ⟨fun p => p, fun row =>
      if row.runId = runId then { row with transport := some transport } else row, .refl x,
      fun row => ?_, ?_⟩
    · by_cases hrow : row.runId = runId
      · exact .inr ⟨transport, if_pos hrow⟩
      · exact .inl (if_neg hrow)
    · show ({ s with runStates := _ } : Store) = _
      rw [List.map_id']
  | _ => exact .refl x s

/-- A call, whatever its answer, rewrites the store. -/
theorem PubCall.answer_rewritten {β : Type} {e : PubCall β} {l : Luck} {w w' : PubWorld} {b : β}
    (he : e.WellAimed x) (h : e.answer x l w = some (b, w')) :
    Rewritten x w.memory.store w'.memory.store := by
  have hsame : w'.memory = w.memory → Rewritten x w.memory.store w'.memory.store := by
    intro hm
    rw [hm]
    exact .refl x _
  cases e with
  | store c =>
    have hc := c.rewritten he w.memory.store
    simp only [answer] at h
    split at h
    · obtain ⟨-, rfl⟩ := Prod.mk.inj (Option.some.inj h)
      exact .refl x _
    · split at h
      · next a s' hrun =>
        obtain ⟨-, rfl⟩ := Prod.mk.inj (Option.some.inj h)
        rwa [hrun] at hc
      · obtain ⟨-, rfl⟩ := Prod.mk.inj (Option.some.inj h)
        exact .refl x _
  | lock k =>
    simp only [answer] at h
    split at h
    · exact hsame (by rw [← (Prod.mk.inj (Option.some.inj h)).2])
    · split at h
      · cases h
      · exact hsame (by rw [← (Prod.mk.inj (Option.some.inj h)).2])
  | _ =>
    refine hsame ?_
    simp only [answer] at h
    first
      | (split at h <;> (rw [← (Prod.mk.inj (Option.some.inj h)).2]; try rfl))
      | (rw [← (Prod.mk.inj (Option.some.inj h)).2]; try rfl)

end Calls

/-! ### The states of the publication -/

/-- Every projection is of a run that was claimed, and of no other
projection's run; orders start at 1. -/
structure Store.ProjectionsOk (s : Store) : Prop where
  nodup : (s.transportProjections.map (·.runId)).Nodup
  claimed : ∀ p ∈ s.transportProjections, (s.getRun p.runId).isSome
  positive : ∀ p ∈ s.transportProjections, 0 < p.publicationOrder

/-- Claims stay. -/
def ClaimsKept (s s' : Store) : Prop := ∀ run, (s.getRun run).isSome → (s'.getRun run).isSome

section

variable {x : NotificationCodec} {s s' : Store}

theorem Rewritten.shipment (h : Rewritten x s s') : Shipment x none s s' := by
  obtain ⟨f, g, hf, -, rfl⟩ := h
  exact .updated rfl f hf rfl rfl

theorem Rewritten.wf (h : Rewritten x s s') (hs : s.Wf) : s'.Wf := by
  obtain ⟨f, g, -, -, rfl⟩ := h
  have hlogs : Logs Store.runs s { s with
      transportProjections := s.transportProjections.map f
      runStates := s.runStates.map g } := .of_silent rfl rfl rfl rfl
  exact hlogs.wf hs

theorem Rewritten.rowsNodup (h : Rewritten x s s') (hs : s.RowsNodup) : s'.RowsNodup := by
  obtain ⟨f, g, -, hg, rfl⟩ := h
  have hid : (fun row => row.runId) ∘ g = fun row : RunStateRow => row.runId := by
    funext row
    rcases hg row with h | ⟨t, h⟩ <;> rw [Function.comp, h]
  show ((s.runStates.map g).map fun row => row.runId).Nodup
  rw [List.map_map, hid]
  exact hs

theorem Rewritten.claimsKept (h : Rewritten x s s') : ClaimsKept s s' := by
  obtain ⟨f, g, -, -, rfl⟩ := h
  exact fun run hrun => hrun

theorem Shipment.projectionsOk {gone : Option Uuid} (h : Shipment x gone s s')
    (hs : s.ProjectionsOk) (hk : ClaimsKept s s') : s'.ProjectionsOk := by
  cases h with
  | same _ h =>
    exact ⟨h.1 ▸ hs.nodup, fun p hp => hk _ (hs.claimed p (h.1 ▸ hp)), h.1 ▸ hs.positive⟩
  | pruned timerId _ hp hc =>
    have hmem : ∀ p ∈ s'.transportProjections, p ∈ s.transportProjections := fun p hmem =>
      List.mem_of_mem_filter (hp ▸ hmem)
    refine ⟨?_, fun p h => hk _ (hs.claimed p (hmem p h)), fun p h => hs.positive p (hmem p h)⟩
    rw [hp]
    exact hs.nodup.sublist (List.filter_sublist.map _)
  | updated _ f hf hp hc =>
    have hid : (fun p => p.runId) ∘ f = fun p : TransportProjection => p.runId := by
      funext p
      exact (hf p).runId
    refine ⟨?_, fun p hmem => ?_, fun p hmem => ?_⟩
    · rw [hp, List.map_map, hid]
      exact hs.nodup
    · rw [hp] at hmem
      obtain ⟨q, hq, rfl⟩ := List.mem_map.mp hmem
      rw [(hf q).runId]
      exact hk _ (hs.claimed q hq)
    · rw [hp] at hmem
      obtain ⟨q, hq, rfl⟩ := List.mem_map.mp hmem
      rw [(hf q).order]
      exact hs.positive q hq
  | inserted _ proj hrun hclaim horder hlive hp hc =>
    refine ⟨?_, fun p hmem => ?_, fun p hmem => ?_⟩
    · rw [hp, List.map_append]
      refine List.nodup_append.mpr ⟨hs.nodup.sublist (List.filter_sublist.map _), by simp, ?_⟩
      intro a ha b hb
      obtain ⟨q, hq, rfl⟩ := List.mem_map.mp ha
      simp at hb hq
      exact hb ▸ hq.2
    · rw [hp] at hmem
      rcases List.mem_append.mp hmem with hmem | hmem
      · exact hk _ (hs.claimed p (List.mem_of_mem_filter hmem))
      · obtain rfl := List.mem_singleton.mp hmem
        exact hclaim
    · rw [hp] at hmem
      rcases List.mem_append.mp hmem with hmem | hmem
      · exact hs.positive p (List.mem_of_mem_filter hmem)
      · obtain rfl := List.mem_singleton.mp hmem
        rw [horder]
        exact Nat.succ_pos _

/-- The run of the projection is claimed, and its projection, if it is
still there, is this one. -/
def Store.HasOnly (s : Store) (p : TransportProjection) : Prop :=
  (s.getRun p.runId).isSome ∧ ∀ q ∈ s.transportProjections, q.runId = p.runId → q = p

theorem Store.ProjectionsOk.hasOnly (h : s.ProjectionsOk) {p : TransportProjection}
    (hp : p ∈ s.transportProjections) : s.HasOnly p :=
  ⟨h.claimed p hp, fun _ hq heq => List.inj_on_of_nodup_map h.nodup hq hp heq⟩

/-- A projection that is picked up or obsolete does not change. -/
theorem Shipment.hasOnly {gone : Option Uuid} (h : Shipment x gone s s')
    (hk : ClaimsKept s s') {p : TransportProjection} (hp : s.HasOnly p)
    (hset : p.isLive = false) : s'.HasOnly p := by
  refine ⟨hk _ hp.1, fun q hq heq => ?_⟩
  cases h with
  | same _ h => exact hp.2 q (h.1 ▸ hq) heq
  | pruned timerId _ hps hc =>
    rw [hps] at hq
    exact hp.2 q (List.mem_of_mem_filter hq) heq
  | updated _ f hf hps hc =>
    rw [hps] at hq
    obtain ⟨o, ho, rfl⟩ := List.mem_map.mp hq
    rw [(hf o).runId] at heq
    obtain rfl := hp.2 o ho heq
    exact (hf o).settled hset
  | inserted _ proj hrun hclaim horder hlive hps hc =>
    rw [hps] at hq
    rcases List.mem_append.mp hq with hq | hq
    · exact hp.2 q (List.mem_of_mem_filter hq) heq
    · obtain rfl := List.mem_singleton.mp hq
      have hclaimed := hp.1
      rw [← heq, hrun] at hclaimed
      cases hclaimed

end

/-- The store of a publication. -/
def Publication.store (s : Publication) : Store := s.world.memory.store

/-- The timer that a step takes away with its projections. -/
def PubStep.prunes : PubStep → Option Uuid
  | commit c => c.prunes
  | _ => none

/-- What every step keeps. -/
structure Publication.Ok (x : NotificationCodec) (s : Publication) : Prop where
  wf : s.store.Wf
  rows : s.store.RowsNodup
  projections : s.store.ProjectionsOk
  aimed : ∀ t ∈ s.threads, t.Calls (fun _ _ => True) (PubCall.WellAimed x)

theorem publication_ok_init (x : NotificationCodec) : Publication.Ok x {} where
  wf := Store.wf_empty
  rows := List.nodup_nil
  projections := ⟨List.nodup_nil, fun _ hp => (List.not_mem_nil hp).elim,
    fun _ hp => (List.not_mem_nil hp).elim⟩
  aimed := fun _ ht => (List.not_mem_nil ht).elim

section Threads

variable {cfg : FireConfig} {x : NotificationCodec} {A : ∀ {β : Type}, PubCall β → β → Prop}
  {May : Uuid → Prop} {P : ∀ {β : Type}, PubCall β → Prop}

/-- The attempt of a fire is on a run that had no claim before. -/
theorem firedThreads_calls (h : Allows x A May P) {r : ReplyState} (hs : r.store.Wf)
    (hmay : ∀ run, r.store.getRun run = none → May run) (f : Firing) (live : Bool) :
    ∀ t ∈ firedThreads cfg x f live r, t.Calls A P := by
  intro t ht
  unfold firedThreads at ht
  split at ht
  · next claim prev r' hrun =>
    split at ht
    · next proj hproj =>
      obtain rfl := List.mem_singleton.mp ht
      have hfired : Fired f claim r.store r'.store := wp_ok (fireTx_spec cfg f r hs) hrun
      have hid : proj.runId = claim.runId := by simpa using List.find?_some hproj
      exact (attempt_calls h (ipcHandle_fallsBack h live)
        (hid ▸ hmay _ hfired.fresh)).bind fun _ => trivial
    · exact (List.not_mem_nil ht).elim
  · exact (List.not_mem_nil ht).elim

/-- **The threads keep to a kind of calls** that the code allows, and so
does the call made next, as long as it is answered accordingly. -/
theorem publicationNext_threads [Calendar] {s s' : Publication} {i : PubStep}
    (h : Allows x A May P) (hthreads : ∀ t ∈ s.threads, t.Calls A P) (hs : s.store.Wf)
    (hmay : ∀ run, s.store.getRun run = none → May run)
    (hans : ∀ {β : Type} (e : PubCall β) b j l w', i = .call j l →
      madeCall ⟨s, i, s'⟩ = some ⟨β, e⟩ → e.answer x l s.world = some (b, w') → A e b)
    (hstep : publicationNext cfg x s i = some s') :
    (∀ t ∈ s'.threads, t.Calls A P) ∧
      ∀ {β : Type} (e : PubCall β), madeCall ⟨s, i, s'⟩ = some ⟨β, e⟩ → P e := by
  have hnone : madeCall ⟨s, i, s'⟩ = none →
      ∀ {β : Type} (e : PubCall β), madeCall ⟨s, i, s'⟩ = some ⟨β, e⟩ → P e := by
    intro hn β e he
    rw [hn] at he
    exact (Option.some_ne_none _ he.symm).elim
  cases i with
  | commit c =>
    simp only [publicationNext] at hstep
    split at hstep
    · cases hstep
    · obtain rfl := Option.some.inj hstep
      exact ⟨hthreads, hnone rfl⟩
  | fire f live =>
    simp only [publicationNext] at hstep
    split at hstep
    · cases hstep
    · obtain rfl := Option.some.inj hstep
      refine ⟨fun t ht => ?_, hnone rfl⟩
      rcases List.mem_append.mp ht with ht | ht
      · exact hthreads t ht
      · exact firedThreads_calls h hs hmay f live t ht
  | start job =>
    obtain rfl := Option.some.inj hstep
    refine ⟨fun t ht => ?_, hnone rfl⟩
    rcases List.mem_append.mp ht with ht | ht
    · exact hthreads t ht
    · obtain rfl := List.mem_singleton.mp ht
      exact PubJob.calls h job
  | call j l =>
    obtain ⟨⟨w', ts'⟩, hnext, rfl⟩ := Option.map_eq_some_iff.mp hstep
    have hmade : ∀ {β : Type} (e : PubCall β) k, s.threads[j]? = some (.call e k) →
        madeCall ⟨s, .call j l, { world := w', threads := ts' }⟩ = some ⟨β, e⟩ := by
      intro β e k hcall
      simp only [madeCall, hcall]
    obtain ⟨⟨β, e, k, b, hcall, -, he⟩, hkept⟩ :=
      Pool.next_calls hnext hthreads fun e k b hcall hb => hans e b j l w' rfl (hmade e k hcall) hb
    refine ⟨hkept, fun {β'} e' he' => ?_⟩
    rw [hmade e k hcall] at he'
    cases he'
    exact he
  | disk path content =>
    obtain rfl := Option.some.inj hstep
    exact ⟨hthreads, hnone rfl⟩
  | crash =>
    obtain rfl := Option.some.inj hstep
    exact ⟨fun t ht => (List.not_mem_nil ht).elim, hnone rfl⟩

end Threads

section

variable [Calendar] {cfg : FireConfig} {x : NotificationCodec} {s s' : Publication}
  {i : PubStep}

theorem Commit.claimsKept (cfg : FireConfig) (c : Commit) {r : ReplyState} (hs : r.store.Wf) :
    ClaimsKept r.store (c.after cfg r).store := by
  intro run hrun
  obtain ⟨q, hq⟩ := Option.isSome_iff_exists.mp hrun
  obtain ⟨q', hq', -⟩ := Commit.getRun_key cfg c hs hq
  exact Option.isSome_of_mem hq'

/-- What a commit leaves of an orderly publication, whatever the threads. -/
theorem Publication.Ok.commit (h : s.Ok x) (c : Commit)
    (hmem : s'.world.memory = c.after cfg s.world.memory)
    (haimed : ∀ t ∈ s'.threads, t.Calls (fun _ _ => True) (PubCall.WellAimed x)) :
    s'.Ok x ∧ Shipment x c.prunes s.store s'.store ∧ ClaimsKept s.store s'.store := by
  have hship : Shipment x c.prunes s.store s'.store := by
    rw [Publication.store, Publication.store, hmem]
    exact Commit.shipment x cfg c h.wf
  have hk : ClaimsKept s.store s'.store := by
    rw [Publication.store, Publication.store, hmem]
    exact Commit.claimsKept cfg c h.wf
  refine ⟨⟨?_, ?_, hship.projectionsOk h.projections hk, haimed⟩, hship, hk⟩
  · rw [Publication.store, hmem]
    exact Commit.wf h.wf
  · rw [Publication.store, hmem]
    exact (Commit.keeps c s.world.memory h.rows).1

/-- **Every step** of the publication is a shipment, and keeps the
publication in order. -/
theorem publicationNext_ok (h : s.Ok x) (hstep : publicationNext cfg x s i = some s') :
    s'.Ok x ∧ Shipment x i.prunes s.store s'.store ∧ ClaimsKept s.store s'.store := by
  have haimed := (publicationNext_threads (allows_wellAimed x) h.aimed h.wf
    (fun _ _ => trivial) (fun _ _ _ _ _ _ _ _ => trivial) hstep).1
  cases i with
  | commit c =>
    simp only [publicationNext] at hstep
    split at hstep
    · cases hstep
    · obtain rfl := Option.some.inj hstep
      exact h.commit c rfl haimed
  | fire f live =>
    simp only [publicationNext] at hstep
    split at hstep
    · cases hstep
    · obtain rfl := Option.some.inj hstep
      exact h.commit (.fire f) rfl haimed
  | start job =>
    obtain rfl := Option.some.inj hstep
    exact ⟨⟨h.wf, h.rows, h.projections, haimed⟩, .same rfl ⟨rfl, rfl⟩, fun _ hr => hr⟩
  | call i l =>
    obtain ⟨⟨w', ts'⟩, hnext, rfl⟩ := Option.map_eq_some_iff.mp hstep
    obtain ⟨⟨β, e, k, b, -, hans, he⟩, -⟩ :=
      Pool.next_calls hnext h.aimed fun _ _ _ _ _ => trivial
    have hrw : Rewritten x s.store w'.memory.store := PubCall.answer_rewritten he hans
    exact ⟨⟨hrw.wf h.wf, hrw.rowsNodup h.rows,
      hrw.shipment.projectionsOk h.projections hrw.claimsKept, haimed⟩,
      hrw.shipment, hrw.claimsKept⟩
  | disk path content =>
    obtain rfl := Option.some.inj hstep
    exact ⟨⟨h.wf, h.rows, h.projections, haimed⟩, .same rfl ⟨rfl, rfl⟩, fun _ hr => hr⟩
  | crash =>
    obtain rfl := Option.some.inj hstep
    exact @Publication.Ok.commit _ cfg x s _ h .crash rfl haimed

/-- Every state reached is in order. -/
theorem publication_ok {tr : List (System.Event Publication PubStep)}
    (h : (publication cfg x).Run {} tr s) : s.Ok x :=
  h.invariant (G := fun _ => True) (fun _ _ => trivial) (publication_ok_init x)
    fun _ _ _ hstep _ hok => (publicationNext_ok hok hstep.1).1

/-- Trace induction over the publication, with what each step does to the
tables. -/
theorem publication_induction {tr : List (System.Event Publication PubStep)}
    {J : List (System.Event Publication PubStep) → Publication → Prop}
    (h : (publication cfg x).Run {} tr s) (h0 : J [] {})
    (hstep : ∀ tr s i s', (publication cfg x).Run {} tr s → s.Ok x →
      Shipment x i.prunes s.store s'.store → ClaimsKept s.store s'.store →
      (publication cfg x).step s i s' → J tr s → J (tr ++ [⟨s, i, s'⟩]) s') : J tr s := by
  refine h.trace_induction h0 fun tr s i s' hrun hs hJ => ?_
  have hok := publication_ok hrun
  obtain ⟨-, hship, hk⟩ := publicationNext_ok hok hs.1
  exact hstep tr s i s' hrun hok hship hk hs hJ

/-- **A projection that is picked up or obsolete stays what it is**, until
its timer goes; no other projection of its run is ever made. -/
theorem settled_of_run {tr : List (System.Event Publication PubStep)}
    (h : (publication cfg x).Run s tr s') (hs : s.Ok x) {p : TransportProjection}
    (hp : p ∈ s.store.transportProjections) (hset : p.isLive = false) : s'.store.HasOnly p := by
  have hall : s'.Ok x ∧ s'.store.HasOnly p := by
    refine h.invariant (G := fun _ => True) (I := fun s => s.Ok x ∧ s.store.HasOnly p)
      (fun _ _ => trivial) ⟨hs, hs.projections.hasOnly hp⟩ ?_
    rintro s i s' hstep - ⟨hok, honly⟩
    obtain ⟨hok', hship, hk⟩ := publicationNext_ok hok hstep.1
    exact ⟨hok', hship.hasOnly hk honly hset⟩
  exact hall.2

end

end Bellman

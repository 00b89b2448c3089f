/-
Bellman/Delivery.lean

The delivery of fire frames to the clients at the socket.

A client connects and claims a timer in the name of an app.  The server looks
the owner of the timer up, and when it is that app, enters the connection into
a registry, under the id of the timer.  From then on every frame of the timer
goes to the connection, whichever thread sends it: the fire itself, the pump,
the reconciler, or the replay at another client's claim.  The entry stays
until the connection is over.

The registry keeps no name of an app and no send reads the owner.  So the
timer may be deleted, added again under the same id, and given to another app,
while the first app's connection goes on taking its frames.

Here the programs of the publication and those of the connections work side
by side, call by call, with the commits of all processes in between.

Main result: the frames of a run go only to clients of the owner of the moment
exactly when, for every client that takes a frame, the owner is still the one
that was found at its claim (`delivery_confined_iff`).
-/
import Bellman.PublicationOrder

namespace Bellman

open ProgramLogic Thread
open TransportProjection (KIND_IPC)

/-! ### The registry -/

/-- Frames that wait for the writer of one client. -/
def OUT_QUEUE_DEPTH : Nat := 16

def CLAIM_SCHEMA_V1 : String := "bellman-claim/1"

/-- A client: its id in the registry, and its end of the queue.  Of the
connection behind the queue the registry knows nothing; it is given here by
its number and by the name under which it has claimed the timer. -/
structure ClientEntry where
  id : Nat
  conn : Nat
  appName : String
  queue : List String := []
  /-- The writer has not given up. -/
  receiving : Bool := true
  deriving Repr, DecidableEq

namespace ClientEntry

/-- `try_send` succeeds. -/
def accepts (c : ClientEntry) : Bool := c.receiving && c.queue.length < OUT_QUEUE_DEPTH

def push (frame : String) (c : ClientEntry) : ClientEntry :=
  { c with queue := c.queue ++ [frame] }

/-- What is left of a client after a `try_send`: when its queue is full it
stays, when its writer is gone it goes. -/
def trySend (frame : String) (c : ClientEntry) : Option ClientEntry :=
  if !c.receiving then none else if c.accepts then some (c.push frame) else some c

end ClientEntry

structure Registry where
  clients : Uuid → List ClientEntry := fun _ => []
  nextId : Nat := 0

namespace Registry

def withClients (reg : Registry) (timerId : Uuid) (list : List ClientEntry) : Registry :=
  { reg with clients := fun t => if t = timerId then list else reg.clients t }

def hasClient (reg : Registry) (timerId : Uuid) : Bool := !(reg.clients timerId).isEmpty

/-- To every client that holds the timer. -/
def send (reg : Registry) (timerId : Uuid) (frame : String) : SendOutcome × Registry :=
  let list := reg.clients timerId
  (if list.any (·.accepts) then .queued else .noClient,
    reg.withClients timerId (list.filterMap (·.trySend frame)))

def register (reg : Registry) (timerId : Uuid) (conn : Nat) (appName : String) :
    Nat × Registry :=
  let id := (reg.nextId + 1) % 2 ^ 64
  let client : ClientEntry := { id, conn, appName }
  (id, { reg.withClients timerId (reg.clients timerId ++ [client]) with nextId := id })

def unregister (reg : Registry) (timerId : Uuid) (id : Nat) : Registry :=
  reg.withClients timerId ((reg.clients timerId).filter fun c => c.id ≠ id)

/-- Something happens to the queue of one client. -/
def onClient (reg : Registry) (timerId : Uuid) (id : Nat) (f : ClientEntry → ClientEntry) :
    Registry :=
  reg.withClients timerId ((reg.clients timerId).map fun c => if c.id = id then f c else c)

end Registry

/-! ### The connections -/

/-- The claim frame. -/
structure ClaimDoc where
  schema : Option String := none
  appName : Option String := none
  timerId : Option Uuid := none

/-- What a client is told about its claim. -/
inductive ClaimAnswer where
  | ok (timerId : Uuid) (appName : String)
  | error (error : String)
  deriving Repr, DecidableEq

/-- The calls of the publication and of the connections. -/
inductive IpcCall : Type → Type 1 where
  | pub {α : Type} (c : PubCall α) : IpcCall α
  | send (timerId : Uuid) (frame : String) : IpcCall SendOutcome
  | hasClient (timerId : Uuid) : IpcCall Bool
  | openStore : IpcCall Bool
  /-- The look-up of the owner at a claim. -/
  | getTimerOwner (timerId : Uuid) : IpcCall (Option String)
  | logRejection (timer : Timer) (reason : String) : IpcCall Unit
  | register (timerId : Uuid) (conn : Nat) (appName : String) : IpcCall Nat
  | unregister (timerId : Uuid) (id : Nat) : IpcCall Unit
  | currentClaim (timerId : Uuid) : IpcCall (Option RunClaim)
  | tell (answer : ClaimAnswer) : IpcCall Unit
  /-- The reply loop, to its end.  The replies are commits. -/
  | replies : IpcCall Unit

abbrev IpcM (α : Type) : Type 1 := Thread IpcCall α

/-- A call of the publication code: what it asks of the clients goes to the
registry. -/
def IpcCall.ofPub : {α : Type} → PubCall α → IpcCall α
  | _, .send proj => send proj.timerId proj.payload
  | _, .hasClient timerId => hasClient timerId
  | _, c => pub c

def PubM.overIpc {α : Type} (m : PubM α) : IpcM α := m.lift IpcCall.ofPub

def askRow {α : Type} (c : StoreCall α) : IpcM (Option α) := perform (.pub (.store c))

/-- `replay_current_ipc_run`. -/
def replayCurrentIpcRun (timer : Timer) : IpcM Unit := do
  if timer.transport ≠ .ipc then return ()
  else
    match ← perform (.currentClaim timer.id) with
    | none => return ()
    | some claim =>
      match ← askRow (.getRunState claim.runId) with
      | some (some row) =>
        if row.selectedTransport ≠ some SelectedTransport.ipc.asStr then return ()
        else if hasPickupSignal row || row.isAppAuthoredTerminal then return ()
        else
          match ← askRow (.transportProjection claim.runId) with
          | some (some proj) =>
            if proj.kind = KIND_IPC then
              let _ ← perform (.send timer.id proj.payload)
            else return ()
          | _ => return ()
      | _ => return ()

/-- The claim phase of `serve_client`: the timer and the name, when the frame
is a claim. -/
def ClaimDoc.read (claim : Option ClaimDoc) : Except String (Uuid × String) := do
  match claim with
  | none => throw "invalid_claim"
  | some claim =>
    if claim.schema ≠ some CLAIM_SCHEMA_V1 then throw "bad_schema"
    else
      match claim.timerId with
      | none => throw "missing_timer_id"
      | some timerId =>
        match claim.appName.filter (· ≠ "") with
        | none => throw "missing_app_name"
        | some appName => return (timerId, appName)

/-- `serve_client`, for connection number `conn`. -/
def serveClient (conn : Nat) (claim : Option ClaimDoc) : IpcM Unit := do
  match ClaimDoc.read claim with
  | .error e => perform (.tell (.error e))
  | .ok (timerId, appName) =>
    if ← perform .openStore then
      match ← askRow (.getTimer timerId) with
      | some (some timer) =>
        let owner ← perform (.getTimerOwner timerId)
        if owner ≠ some appName then
          perform (.logRejection timer ReplyRejection.wrongAppName.asStr)
          perform (.tell (.error ReplyRejection.wrongAppName.asStr))
        else
          let id ← perform (.register timerId conn appName)
          perform (.tell (.ok timerId appName))
          replayCurrentIpcRun timer
          perform .replies
          perform (.unregister timerId id)
      | _ => perform (.tell (.error "unknown_timer"))
    else perform (.tell (.error "internal"))

/-! ### The system -/

/-- The store and the files, with the registry; `ended` are the clients whose
writer has given up and has not yet taken them out. -/
structure IpcWorld where
  pub : PubWorld := {}
  registry : Registry := {}
  ended : List (Uuid × Nat) := []

def IpcWorld.store (w : IpcWorld) : Store := w.pub.memory.store

section

variable [Calendar]

/-- How a call is answered. -/
def IpcCall.answer (cfg : FireConfig) (x : NotificationCodec) : {α : Type} → IpcCall α → Luck →
    IpcWorld → Option (α × IpcWorld)
  | _, pub c, l, w => (c.answer x l w.pub).map fun out => (out.1, { w with pub := out.2 })
  | _, send timerId frame, _, w =>
    let out := w.registry.send timerId frame
    some (out.1, { w with registry := out.2 })
  | _, hasClient timerId, _, w => some (w.registry.hasClient timerId, w)
  | _, openStore, l, w => some (!l.fails, w)
  | _, getTimerOwner timerId, l, w =>
    some (if l.fails then none else w.store.getTimerOwner timerId, w)
  | _, logRejection timer reason, l, w =>
    if l.fails then some ((), w)
    else
      let memory := Commit.after cfg (.logRejection timer none reason l.clock) w.pub.memory
      some ((), { w with pub := { w.pub with memory } })
  | _, register timerId conn appName, _, w =>
    let out := w.registry.register timerId conn appName
    some (out.1, { w with registry := out.2 })
  | _, unregister timerId id, _, w =>
    some ((), { w with registry := w.registry.unregister timerId id })
  | _, currentClaim timerId, l, w =>
    some (if l.fails then none else (w.store.runsForTimer timerId).getLast?, w)
  | _, tell _, _, w => some ((), w)
  | _, replies, _, w => some ((), w)

def ipcMachine (cfg : FireConfig) (x : NotificationCodec) : Machine IpcCall IpcWorld Luck where
  answer := IpcCall.answer cfg x

end

/-- The world and the threads at work.  A connection has the number of its
thread. -/
structure Delivery where
  world : IpcWorld := {}
  threads : List (IpcM Unit) := []

def Delivery.store (s : Delivery) : Store := s.world.store

inductive DeliveryStep where
  /-- A commit of any process, other than a fire. -/
  | commit (c : Commit)
  /-- A fire, under the gate of its timer, and its immediate attempt. -/
  | fire (f : Firing) (live : Bool)
  | start (job : PubJob)
  /-- A client connects, and sends this as its first frame. -/
  | connect (claim : Option ClaimDoc)
  /-- A thread makes its next call. -/
  | call (i : Nat) (l : Luck)
  /-- The writer of a client takes a frame from the queue, -/
  | write (timerId : Uuid) (id : Nat)
  /-- fails and gives up, -/
  | writeFails (timerId : Uuid) (id : Nat)
  /-- and takes the client out of the registry. -/
  | writerEnds (timerId : Uuid) (id : Nat)
  | disk (path : String) (content : Option String)
  | crash

section

variable [Calendar] (cfg : FireConfig) (x : NotificationCodec)

/-- One step of the delivery. -/
def deliveryNext (s : Delivery) : DeliveryStep → Option Delivery
  | .commit c =>
    if c.claims then none
    else
      let memory := c.after cfg s.world.pub.memory
      some { s with world := { s.world with pub := { s.world.pub with memory } } }
  | .fire f live =>
    if .timer f.timer.id ∈ s.world.pub.locks then none
    else
      let memory := Commit.after cfg (.fire f) s.world.pub.memory
      some
        { world := { s.world with pub := { s.world.pub with memory } }
          threads := s.threads ++
            (firedThreads cfg x f live s.world.pub.memory).map PubM.overIpc }
  | .start job => some { s with threads := s.threads ++ [(job.thread x).overIpc] }
  | .connect claim =>
    some { s with threads := s.threads ++ [serveClient s.threads.length claim] }
  | .call i l =>
    (Pool.next (ipcMachine cfg x) s.world s.threads i l).map fun next =>
      { world := next.1, threads := next.2 }
  | .write timerId id =>
    let registry := s.world.registry.onClient timerId id fun c => { c with queue := c.queue.tail }
    some { s with world := { s.world with registry } }
  | .writeFails timerId id =>
    let registry := s.world.registry.onClient timerId id fun c => { c with receiving := false }
    some { s with
      world := { s.world with registry, ended := (timerId, id) :: s.world.ended } }
  | .writerEnds timerId id =>
    if (timerId, id) ∈ s.world.ended then
      let registry := s.world.registry.unregister timerId id
      some { s with
        world := { s.world with registry, ended := s.world.ended.erase (timerId, id) } }
    else none
  | .disk path content =>
    some { s with world := { s.world with pub := s.world.pub.withFile path content } }
  | .crash =>
    let memory := Commit.crash.after cfg s.world.pub.memory
    some { s with world := { pub := { s.world.pub with memory, locks := [] } } }

/-- The delivery of notifications, from an empty database. -/
def delivery : System Delivery DeliveryStep where
  init s := s = {}
  step s i s' := deliveryNext cfg x s i = some s' ∧ ∀ f live, i = .fire f live → f.Gated s.store

end

/-- The look-up of an owner that a step makes: the connection and the timer. -/
def lookedUp (e : System.Event Delivery DeliveryStep) : Option (Nat × Uuid) :=
  match e.label with
  | .call i l =>
    match e.pre.threads[i]? with
    | some (.call (.getTimerOwner timerId) _) => if l.fails then none else some (i, timerId)
    | _ => none
  | _ => none

/-- The clients whose queues take a frame in a step, each with the timer of
the frame. -/
def receivers (e : System.Event Delivery DeliveryStep) : List (Uuid × ClientEntry) :=
  match e.label with
  | .call i _ =>
    match e.pre.threads[i]? with
    | some (.call (.send timerId _) _) =>
      ((e.pre.world.registry.clients timerId).filter (·.accepts)).map (timerId, ·)
    | _ => []
  | _ => []

/-- A frame that the step sends goes to clients of the owner only. -/
def Confined (e : System.Event Delivery DeliveryStep) : Prop :=
  ∀ r ∈ receivers e, e.pre.store.getTimerOwner r.1 = some r.2.appName

/-! ### The registry only loses clients -/

namespace Registry

/-- Each client was there before, with the same connection and name. -/
def Within (reg' reg : Registry) : Prop :=
  ∀ timerId, ∀ c' ∈ reg'.clients timerId,
    ∃ c ∈ reg.clients timerId, c.conn = c'.conn ∧ c.appName = c'.appName

variable {reg : Registry} {timerId : Uuid} {id : Nat}

theorem within_refl : reg.Within reg := fun _ c hc => ⟨c, hc, rfl, rfl⟩

theorem within_withClients {list : List ClientEntry}
    (h : ∀ c' ∈ list, ∃ c ∈ reg.clients timerId, c.conn = c'.conn ∧ c.appName = c'.appName) :
    (reg.withClients timerId list).Within reg := by
  intro t c' hc'
  by_cases ht : t = timerId
  · subst ht
    apply h
    simpa [withClients] using hc'
  · exact ⟨c', by simpa [withClients, ht] using hc', rfl, rfl⟩

theorem unregister_within : (reg.unregister timerId id).Within reg :=
  within_withClients fun c hc => ⟨c, (List.mem_filter.mp hc).1, rfl, rfl⟩

theorem onClient_within {f : ClientEntry → ClientEntry}
    (hf : ∀ c, (f c).conn = c.conn ∧ (f c).appName = c.appName) :
    (reg.onClient timerId id f).Within reg := by
  apply within_withClients
  intro c' hc'
  obtain ⟨c, hc, rfl⟩ := List.mem_map.mp hc'
  refine ⟨c, hc, ?_⟩
  split
  · exact ⟨(hf c).1.symm, (hf c).2.symm⟩
  · exact ⟨rfl, rfl⟩

theorem send_within (frame : String) : (reg.send timerId frame).2.Within reg := by
  apply within_withClients
  intro c' hc'
  obtain ⟨c, hc, hsent⟩ := List.mem_filterMap.mp hc'
  refine ⟨c, hc, ?_⟩
  unfold ClientEntry.trySend at hsent
  split at hsent
  · cases hsent
  split at hsent
  · obtain rfl := Option.some.inj hsent
    exact ⟨rfl, rfl⟩
  · obtain rfl := Option.some.inj hsent
    exact ⟨rfl, rfl⟩

/-- A registration adds one client. -/
theorem mem_register {conn : Nat} {appName : String} {t : Uuid} {c : ClientEntry}
    (h : c ∈ (reg.register timerId conn appName).2.clients t) :
    c ∈ reg.clients t ∨ t = timerId ∧ c.conn = conn ∧ c.appName = appName := by
  by_cases ht : t = timerId
  · subst ht
    have hc : c ∈ reg.clients t ++
        [{ id := (reg.nextId + 1) % 2 ^ 64, conn := conn, appName := appName }] := by
      simpa [register, withClients] using h
    rcases List.mem_append.mp hc with hc | hc
    · exact .inl hc
    · obtain rfl := List.mem_singleton.mp hc
      exact .inr ⟨rfl, rfl, rfl⟩
  · exact .inl (by simpa [register, withClients, ht] using h)

end Registry

/-! ### What a connection does -/

/-- Neither a look-up of an owner nor a registration. -/
def IpcCall.Quiet : {β : Type} → IpcCall β → Prop
  | _, .getTimerOwner _ => False
  | _, .register .. => False
  | _, _ => True

/-- The look-up of an owner. -/
def IpcCall.isLookUp : {β : Type} → IpcCall β → Bool
  | _, .getTimerOwner _ => true
  | _, _ => false

theorem IpcCall.Quiet.isLookUp {β : Type} {c : IpcCall β} (h : c.Quiet) : c.isLookUp = false := by
  cases c with
  | getTimerOwner timerId => exact h.elim
  | _ => rfl

/-- The calls of a connection that has looked up this timer, and found this
owner. -/
def IpcCall.PastLookUp (conn : Nat) (timerId : Uuid) (owner : Option String) :
    {β : Type} → IpcCall β → Prop
  | _, .getTimerOwner _ => False
  | _, .register t c appName => t = timerId ∧ c = conn ∧ owner = some appName
  | _, _ => True

/-- The look-up, and what comes after it. -/
def IpcCall.LooksUp (conn : Nat) : {β : Type} → IpcCall β → β → IpcM Unit → Prop
  | _, .getTimerOwner timerId, owner, m =>
    m.Calls (fun _ _ => True) (IpcCall.PastLookUp conn timerId owner)
  | _, _, _, _ => False

/-- Up to one look-up a thread is quiet, and then it registers the connection
for the owner that it has found. -/
def LooksUpOnce (conn : Nat) (m : IpcM Unit) : Prop :=
  m.Until IpcCall.Quiet (IpcCall.LooksUp conn)

variable {conn : Nat}

theorem quiet_ofPub {β : Type} (c : PubCall β) : (IpcCall.ofPub c).Quiet := by
  cases c <;> trivial

theorem overIpc_looksUpOnce (m : PubM Unit) : LooksUpOnce conn m.overIpc :=
  .of_calls (calls_lift quiet_ofPub m)

theorem replay_pastLookUp {timer : Timer} {timerId : Uuid} {owner : Option String} :
    (replayCurrentIpcRun timer).Calls (fun _ _ => True)
      (IpcCall.PastLookUp conn timerId owner) := by
  refine Calls.ite (fun _ => trivial) fun _ => Calls.perform_bind trivial fun claim _ => ?_
  cases claim with
  | none => trivial
  | some claim =>
    refine Calls.perform_bind trivial fun row _ => ?_
    split
    · refine Calls.ite (fun _ => trivial) fun _ => Calls.ite (fun _ => trivial) fun _ => ?_
      refine Calls.perform_bind trivial fun proj _ => ?_
      split
      · exact Calls.ite (fun _ => Calls.perform_bind trivial fun _ _ => trivial) fun _ => trivial
      · trivial
    · trivial

/-- **A connection** looks the owner up once, and registers only if it is the
app of the claim. -/
theorem serveClient_looksUpOnce (claim : Option ClaimDoc) :
    LooksUpOnce conn (serveClient conn claim) := by
  have htell : ∀ answer, LooksUpOnce conn (perform (.tell answer)) := fun answer =>
    .of_calls ⟨trivial, fun _ _ => trivial⟩
  unfold serveClient
  split
  · exact htell _
  · next timerId appName _ =>
    refine Until.perform_bind trivial fun opened => Until.ite (fun _ => ?_) fun _ => htell _
    refine Until.perform_bind trivial fun timer => ?_
    split
    · refine Until.turn_bind fun owner => ?_
      refine Calls.ite (fun _ => ?_) fun hne => ?_
      · exact Calls.perform_bind trivial fun _ _ => ⟨trivial, fun _ _ => trivial⟩
      · have howner : owner = some appName := Classical.not_not.mp hne
        refine Calls.perform_bind ⟨rfl, rfl, howner⟩ fun id _ => ?_
        refine Calls.perform_bind trivial fun _ _ => replay_pastLookUp.bind fun _ => ?_
        exact Calls.perform_bind trivial fun _ _ => ⟨trivial, fun _ _ => trivial⟩
    · exact htell _

/-! ### The look-ups of a run -/

/-- In these steps the connection has looked up this timer and no other, and
the app was its owner. -/
structure LetIn (tr : List (System.Event Delivery DeliveryStep)) (conn : Nat) (timerId : Uuid)
    (appName : String) : Prop where
  found : ∃ d ∈ tr, lookedUp d = some (conn, timerId)
  owned : ∀ d ∈ tr, ∀ t, lookedUp d = some (conn, t) →
    t = timerId ∧ d.pre.store.getTimerOwner timerId = some appName

/-- How far a connection is: before its look-up, or past it. -/
def Stage (tr : List (System.Event Delivery DeliveryStep)) (conn : Nat) (m : IpcM Unit) : Prop :=
  ((∀ d ∈ tr, ∀ t, lookedUp d ≠ some (conn, t)) ∧ LooksUpOnce conn m) ∨
  ∃ timerId owner, m.Calls (fun _ _ => True) (IpcCall.PastLookUp conn timerId owner) ∧
    ∀ appName, owner = some appName → LetIn tr conn timerId appName

/-- Each thread is at a stage, and each client of the registry was let in. -/
structure Tracked (tr : List (System.Event Delivery DeliveryStep)) (s : Delivery) : Prop where
  bounded : ∀ d ∈ tr, ∀ conn t, lookedUp d = some (conn, t) → conn < s.threads.length
  staged : ∀ conn m, s.threads[conn]? = some m → Stage tr conn m
  letIn : ∀ timerId, ∀ c ∈ s.world.registry.clients timerId, LetIn tr c.conn timerId c.appName

section Runs

variable {tr : List (System.Event Delivery DeliveryStep)}
  {e : System.Event Delivery DeliveryStep} {timerId : Uuid} {appName : String} {m : IpcM Unit}
  {s s' : Delivery}

/-- A step in which the connection looks nothing up. -/
theorem LetIn.snoc (h : LetIn tr conn timerId appName)
    (he : ∀ t, lookedUp e ≠ some (conn, t)) : LetIn (tr ++ [e]) conn timerId appName := by
  refine ⟨?_, fun d hd t ht => ?_⟩
  · obtain ⟨d, hd, hfound⟩ := h.found
    exact ⟨d, List.mem_append_left _ hd, hfound⟩
  · rcases List.mem_append.mp hd with hd | hd
    · exact h.owned d hd t ht
    · obtain rfl := List.mem_singleton.mp hd
      exact absurd ht (he t)

theorem Stage.snoc (h : Stage tr conn m) (he : ∀ t, lookedUp e ≠ some (conn, t)) :
    Stage (tr ++ [e]) conn m := by
  rcases h with ⟨hnone, honce⟩ | ⟨timerId, owner, hpast, hin⟩
  · refine .inl ⟨fun d hd => ?_, honce⟩
    rcases List.mem_append.mp hd with hd | hd
    · exact hnone d hd
    · obtain rfl := List.mem_singleton.mp hd
      exact he
  · exact .inr ⟨timerId, owner, hpast, fun appName h => (hin appName h).snoc he⟩

/-- A step without a look-up, after which the registry has no new client. -/
theorem Tracked.quiet (h : Tracked tr s) (he : lookedUp e = none)
    (hreg : s'.world.registry.Within s.world.registry)
    (hlen : s.threads.length ≤ s'.threads.length)
    (hthreads : ∀ conn m, s'.threads[conn]? = some m → Stage (tr ++ [e]) conn m) :
    Tracked (tr ++ [e]) s' := by
  have hnot : ∀ conn t, lookedUp e ≠ some (conn, t) := fun conn t heq => by
    rw [he] at heq
    cases heq
  refine ⟨fun d hd conn t ht => ?_, hthreads, fun timerId c' hc' => ?_⟩
  · rcases List.mem_append.mp hd with hd | hd
    · exact Nat.lt_of_lt_of_le (h.bounded d hd conn t ht) hlen
    · obtain rfl := List.mem_singleton.mp hd
      exact absurd ht (hnot conn t)
  · obtain ⟨c, hc, hconn, happ⟩ := hreg timerId c' hc'
    rw [← hconn, ← happ]
    exact (h.letIn timerId c hc).snoc (hnot c.conn)

/-- A step that starts threads, each before its look-up. -/
theorem Tracked.starts (h : Tracked tr s) (he : lookedUp e = none)
    (hreg : s'.world.registry.Within s.world.registry) {ms : List (IpcM Unit)}
    (hthreads : s'.threads = s.threads ++ ms)
    (hms : ∀ i m, ms[i]? = some m → LooksUpOnce (s.threads.length + i) m) :
    Tracked (tr ++ [e]) s' := by
  have hnot : ∀ conn t, lookedUp e ≠ some (conn, t) := fun conn t heq => by
    rw [he] at heq
    cases heq
  refine h.quiet he hreg (by simp [hthreads]) fun conn m hm => ?_
  rw [hthreads] at hm
  by_cases hold : conn < s.threads.length
  · rw [List.getElem?_append_left hold] at hm
    exact (h.staged conn m hm).snoc (hnot conn)
  · -- The number is new, so nothing was looked up under it.
    rw [List.getElem?_append_right (Nat.le_of_not_lt hold)] at hm
    have honce := hms _ m hm
    rw [Nat.add_sub_cancel' (Nat.le_of_not_lt hold)] at honce
    have hstage : Stage tr conn m :=
      .inl ⟨fun d hd t ht => hold (h.bounded d hd conn t ht), honce⟩
    exact hstage.snoc (hnot conn)

variable [Calendar] {cfg : FireConfig} {x : NotificationCodec}

/-- A quiet call brings no new client. -/
theorem answer_within {β : Type} {c : IpcCall β} (hc : c.Quiet) {l : Luck} {w w' : IpcWorld}
    {b : β} (h : c.answer cfg x l w = some (b, w')) : w'.registry.Within w.registry := by
  cases c with
  | pub c =>
    obtain ⟨out, -, heq⟩ := Option.map_eq_some_iff.mp h
    rw [← (Prod.mk.inj heq).2]
    exact Registry.within_refl
  | send timerId frame =>
    rw [← (Prod.mk.inj (Option.some.inj h)).2]
    exact Registry.send_within frame
  | logRejection timer reason =>
    simp only [IpcCall.answer] at h
    split at h
    · rw [← (Prod.mk.inj (Option.some.inj h)).2]
      exact Registry.within_refl
    · rw [← (Prod.mk.inj (Option.some.inj h)).2]
      exact Registry.within_refl
  | unregister timerId id =>
    rw [← (Prod.mk.inj (Option.some.inj h)).2]
    exact Registry.unregister_within
  | register timerId conn appName => exact hc.elim
  | getTimerOwner timerId => exact hc.elim
  | _ =>
    rw [← (Prod.mk.inj (Option.some.inj h)).2]
    exact Registry.within_refl

omit [Calendar] in
/-- A call other than the look-up. -/
theorem lookedUp_eq_none {i : Nat} {β : Type} {c : IpcCall β} {k : β → IpcM Unit} (l : Luck)
    (s' : Delivery) (hi : s.threads[i]? = some (.call c k)) (hc : c.isLookUp = false) :
    lookedUp ⟨s, .call i l, s'⟩ = none := by
  unfold lookedUp
  dsimp only
  rw [hi]
  cases c with
  | getTimerOwner timerId => cases hc
  | _ => rfl

omit [Calendar] in
theorem lookedUp_getTimerOwner {i : Nat} {k : Option String → IpcM Unit} (l : Luck)
    (s' : Delivery) (hi : s.threads[i]? = some (.call (.getTimerOwner timerId) k)) :
    lookedUp ⟨s, .call i l, s'⟩ = if l.fails then none else some (i, timerId) := by
  unfold lookedUp
  dsimp only
  rw [hi]

omit [Calendar] in
/-- One thread moves, and only it may have looked something up. -/
theorem Tracked.moves (h : Tracked tr s) {i : Nat} {m' : IpcM Unit} (hi : i < s.threads.length)
    (he : ∀ conn t, lookedUp e = some (conn, t) → conn = i)
    (hthreads : s'.threads = s.threads.set i m') (hstage : Stage (tr ++ [e]) i m')
    (hclients : ∀ timerId, ∀ c ∈ s'.world.registry.clients timerId,
      LetIn (tr ++ [e]) c.conn timerId c.appName) : Tracked (tr ++ [e]) s' := by
  refine ⟨fun d hd conn t ht => ?_, fun conn m hm => ?_, hclients⟩
  · rw [hthreads, List.length_set]
    rcases List.mem_append.mp hd with hd | hd
    · exact h.bounded d hd conn t ht
    · obtain rfl := List.mem_singleton.mp hd
      rwa [he conn t ht]
  · rw [hthreads] at hm
    by_cases hci : conn = i
    · subst hci
      rw [List.getElem?_set_self hi] at hm
      obtain rfl := Option.some.inj hm
      exact hstage
    · rw [List.getElem?_set_ne (Ne.symm hci)] at hm
      exact (h.staged conn m hm).snoc fun t ht => hci (he conn t ht)

/-- **The step of a thread.** -/
theorem Tracked.call (h : Tracked tr s) {i : Nat} {l : Luck}
    (hnext : deliveryNext cfg x s (.call i l) = some s') :
    Tracked (tr ++ [⟨s, .call i l, s'⟩]) s' := by
  obtain ⟨⟨w', threads'⟩, hpool, rfl⟩ := Option.map_eq_some_iff.mp hnext
  obtain ⟨β, c, k, b, hi, ha, rfl⟩ := Pool.next_eq_some hpool
  have hlen : i < s.threads.length := (List.getElem?_eq_some_iff.mp hi).1
  -- All calls but the look-up: nobody looks anything up.
  have hquiet (hc : c.isLookUp = false) (hstage : Stage tr i (k b))
      (hclients : ∀ timerId, ∀ c' ∈ w'.registry.clients timerId,
        LetIn tr c'.conn timerId c'.appName) :
      Tracked (tr ++ [⟨s, .call i l, ⟨w', s.threads.set i (k b)⟩⟩])
        ⟨w', s.threads.set i (k b)⟩ := by
    have hl := lookedUp_eq_none l ⟨w', s.threads.set i (k b)⟩ hi hc
    have hnot : ∀ conn t, lookedUp ⟨s, .call i l, ⟨w', s.threads.set i (k b)⟩⟩ ≠
        some (conn, t) := fun conn t ht => by
      rw [hl] at ht
      cases ht
    refine h.moves hlen (fun conn t ht => absurd ht (hnot conn t)) rfl
      (hstage.snoc (hnot i)) fun timerId c' hc' => ?_
    exact (hclients timerId c' hc').snoc (hnot c'.conn)
  -- A quiet call brings no client, and those that are left were let in.
  have hwithin (hc : c.Quiet) :
      ∀ timerId, ∀ c' ∈ w'.registry.clients timerId, LetIn tr c'.conn timerId c'.appName := by
    intro timerId c' hc'
    obtain ⟨c, hc, hconn, happ⟩ := answer_within hc ha timerId c' hc'
    rw [← hconn, ← happ]
    exact h.letIn timerId c hc
  rcases h.staged i _ hi with ⟨hnone, honce⟩ | ⟨timerId, owner, hpast, hin⟩
  · cases honce with
    | wait hc hrest =>
      exact hquiet hc.isLookUp (.inl ⟨hnone, hrest b⟩) (hwithin hc)
    | turn hturn =>
      cases c with
      | getTimerOwner timerId =>
        obtain ⟨hb, hw⟩ := Prod.mk.inj (Option.some.inj ha)
        have hl := lookedUp_getTimerOwner l ⟨w', s.threads.set i (k b)⟩ hi
        have hother : ∀ conn t, lookedUp ⟨s, .call i l, ⟨w', s.threads.set i (k b)⟩⟩ =
            some (conn, t) → conn = i ∧ t = timerId := by
          intro conn t ht
          rw [hl] at ht
          split at ht
          · cases ht
          · obtain ⟨rfl, rfl⟩ := Prod.mk.inj (Option.some.inj ht)
            exact ⟨rfl, rfl⟩
        refine h.moves hlen (fun conn t ht => (hother conn t ht).1) rfl ?_ ?_
        · -- The look-up lets the owner in, if there is one.
          refine .inr ⟨timerId, b, hturn b, fun appName happ => ?_⟩
          have hfails : l.fails = false := by
            cases hf : l.fails with
            | false => rfl
            | true =>
              rw [← hb, hf] at happ
              cases happ
          refine ⟨⟨_, List.mem_append_right _ (List.mem_singleton_self _), ?_⟩, ?_⟩
          · rw [hl, hfails]
            rfl
          · intro d hd t ht
            rcases List.mem_append.mp hd with hd | hd
            · exact absurd ht (hnone d hd t)
            · obtain rfl := List.mem_singleton.mp hd
              refine ⟨(hother i t ht).2, ?_⟩
              rw [← hb, hfails] at happ
              exact happ
        · intro t c' hc'
          have hmem : c' ∈ s.world.registry.clients t := by rwa [← hw] at hc'
          have hold := h.letIn t c' hmem
          refine hold.snoc fun t' ht' => ?_
          obtain ⟨d, hd, hfound⟩ := hold.found
          rw [(hother _ _ ht').1] at hfound
          exact hnone d hd t hfound
      | _ => exact (hturn b).elim
  · have hstage : Stage tr i (k b) := .inr ⟨timerId, owner, hpast.2 b trivial, hin⟩
    cases c with
    | getTimerOwner t => exact hpast.1.elim
    | register t n appName =>
      obtain ⟨rfl, rfl, howner⟩ := hpast.1
      refine hquiet rfl hstage fun t' c' hc' => ?_
      rw [← (Prod.mk.inj (Option.some.inj ha)).2] at hc'
      rcases Registry.mem_register hc' with hc' | ⟨rfl, rfl, rfl⟩
      · exact h.letIn t' c' hc'
      · exact hin c'.appName howner
    | _ =>
      refine hquiet rfl hstage (hwithin ?_)
      trivial

/-- **The step.** -/
theorem Tracked.next (h : Tracked tr s) {step : DeliveryStep}
    (hnext : deliveryNext cfg x s step = some s') : Tracked (tr ++ [⟨s, step, s'⟩]) s' := by
  have hnone : ∀ i m, ([] : List (IpcM Unit))[i]? = some m →
      LooksUpOnce (s.threads.length + i) m := fun i m hm => by simp at hm
  cases step with
  | call i l => exact h.call hnext
  | commit c =>
    simp only [deliveryNext] at hnext
    split at hnext
    · cases hnext
    · obtain rfl := Option.some.inj hnext
      exact h.starts rfl Registry.within_refl (List.append_nil _).symm hnone
  | fire f live =>
    simp only [deliveryNext] at hnext
    split at hnext
    · cases hnext
    · obtain rfl := Option.some.inj hnext
      refine h.starts rfl Registry.within_refl rfl fun i m hm => ?_
      rw [List.getElem?_map] at hm
      obtain ⟨m, -, rfl⟩ := Option.map_eq_some_iff.mp hm
      exact overIpc_looksUpOnce m
  | start job =>
    obtain rfl := Option.some.inj hnext
    refine h.starts rfl Registry.within_refl rfl fun i m hm => ?_
    obtain rfl := List.mem_singleton.mp (List.mem_of_getElem? hm)
    exact overIpc_looksUpOnce _
  | connect claim =>
    obtain rfl := Option.some.inj hnext
    refine h.starts rfl Registry.within_refl rfl fun i m hm => ?_
    obtain ⟨hlt, rfl⟩ := List.getElem?_eq_some_iff.mp hm
    obtain rfl := Nat.lt_one_iff.mp hlt
    exact serveClient_looksUpOnce claim
  | write timerId id =>
    obtain rfl := Option.some.inj hnext
    exact h.starts rfl (Registry.onClient_within fun _ => ⟨rfl, rfl⟩)
      (List.append_nil _).symm hnone
  | writeFails timerId id =>
    obtain rfl := Option.some.inj hnext
    exact h.starts rfl (Registry.onClient_within fun _ => ⟨rfl, rfl⟩)
      (List.append_nil _).symm hnone
  | writerEnds timerId id =>
    simp only [deliveryNext] at hnext
    split at hnext
    · obtain rfl := Option.some.inj hnext
      exact h.starts rfl Registry.unregister_within (List.append_nil _).symm hnone
    · cases hnext
  | disk path content =>
    obtain rfl := Option.some.inj hnext
    exact h.starts rfl Registry.within_refl (List.append_nil _).symm hnone
  | crash =>
    obtain rfl := Option.some.inj hnext
    exact h.starts rfl (fun _ c hc => (List.not_mem_nil hc).elim)
      (List.append_nil _).symm hnone

/-- **The run**: each client in the registry was let in by its one look-up. -/
theorem tracked_of_run (h : (delivery cfg x).Run {} tr s) : Tracked tr s := by
  refine h.trace_induction (J := Tracked) ⟨?_, ?_, ?_⟩ fun tr s i t _ hstep ih => ih.next hstep.1
  · exact fun d hd => (List.not_mem_nil hd).elim
  · intro conn m hm
    simp at hm
  · exact fun _ c hc => (List.not_mem_nil hc).elim

omit [Calendar] in
/-- A client that takes a frame is in the registry. -/
theorem mem_of_receivers {r : Uuid × ClientEntry} (h : r ∈ receivers e) :
    r.2 ∈ e.pre.world.registry.clients r.1 := by
  unfold receivers at h
  split at h
  · split at h
    · obtain ⟨c, hc, rfl⟩ := List.mem_map.mp h
      exact (List.mem_filter.mp hc).1
    · cases h
  · cases h

/-- **Frames go only to clients of the owner exactly when the owner is still
the one of the look-up, for each client that takes a frame.** -/
theorem delivery_confined_iff (h : (delivery cfg x).Run {} tr s) :
    (∀ e ∈ tr, Confined e) ↔
      ∀ a e b, tr = a ++ e :: b → ∀ r ∈ receivers e, ∀ d ∈ a,
        lookedUp d = some (r.2.conn, r.1) →
        d.pre.store.getTimerOwner r.1 = e.pre.store.getTimerOwner r.1 := by
  -- At each step, the clients that take a frame were let in before it.
  have hin : ∀ a e b, tr = a ++ e :: b → ∀ r ∈ receivers e,
      LetIn a r.2.conn r.1 r.2.appName := by
    rintro a e b rfl r hr
    exact (tracked_of_run h.split.1).letIn r.1 r.2 (mem_of_receivers hr)
  constructor
  · intro hall a e b hsplit r hr d hd hlooked
    have howner := hall e (by simp [hsplit]) r hr
    rw [howner]
    exact ((hin a e b hsplit r hr).owned d hd r.1 hlooked).2
  · intro hkept e he r hr
    obtain ⟨a, b, hsplit⟩ := List.append_of_mem he
    have hlet := hin a e b hsplit r hr
    obtain ⟨d, hd, hlooked⟩ := hlet.found
    rw [← hkept a e b hsplit r hr d hd hlooked]
    exact (hlet.owned d hd r.1 hlooked).2

end Runs

/-! ### A timer that changes hands -/

section Sample

attribute [local instance] Calendar.utcOnly

/-- Every payload is read as a notification. -/
def NotificationCodec.lenient : NotificationCodec :=
  { NotificationCodec.sample with fromStr := fun _ => some (.sample ⟨0⟩) }

/-- One step of the delivery, if it is enabled; a fire finds no reply. -/
def deliveryNextGated (s : Delivery) (i : DeliveryStep) : Option Delivery :=
  match i with
  | .fire f live =>
    if f.barrier.isNone ∧ f.prev.map (·.runId) = s.store.newest f.timer.id then
      deliveryNext .sample .lenient s (.fire f live)
    else none
  | i => deliveryNext .sample .lenient s i

def deliveryTrace (steps : List DeliveryStep) : List (System.Event Delivery DeliveryStep) :=
  System.traceEnabled deliveryNextGated {} steps

theorem deliveryTrace_run (steps : List DeliveryStep) :
    (delivery .sample .lenient).Run {} (deliveryTrace steps)
      (steps.foldl (fun s i => (deliveryNextGated s i).getD s) {}) := by
  apply System.run_traceEnabled
  intro s i s' h
  cases i with
  | fire f live =>
    simp only [deliveryNextGated] at h
    split at h
    · next hg =>
      refine ⟨h, fun f' live' heq => ?_⟩
      obtain ⟨rfl, -⟩ := DeliveryStep.fire.inj heq
      exact Firing.gated_of_barrier (Option.isNone_iff_eq_none.mp hg.1) hg.2
    · cases h
  | _ => exact ⟨h, fun _ _ heq => by cases heq⟩

/-- An app adds the lamp. -/
def DeliveryStep.lampAdded (app : String) : List DeliveryStep :=
  [.commit (.createTimer { NewTimer.sample .skip with id := some ⟨7⟩, transport := .ipc } 0),
    .commit (.setTimerOwner ⟨7⟩ app)]

/-- The lamp fires, and its frame is sent. -/
def DeliveryStep.lampSent (app : String) : List DeliveryStep :=
  let timer : Timer := { Timer.sample .skip with id := ⟨7⟩, transport := .ipc }
  [.disk "status" (some ""),
    .fire { Firing.sample .skip (60 * NS) with timer, owner := some app, selected := .ipc } true] ++
    List.replicate 4 (.call 1 {})

/-- An app adds the lamp, and connects. -/
def DeliveryStep.lampClaimed : List DeliveryStep :=
  DeliveryStep.lampAdded "lamp" ++
    .connect (some { schema := some CLAIM_SCHEMA_V1, appName := some "lamp",
                     timerId := some ⟨7⟩ }) :: List.replicate 6 (.call 0 {})

/-- It deletes the lamp, and another app adds one with the same id. -/
def DeliveryStep.lampTaken : List DeliveryStep :=
  DeliveryStep.lampClaimed ++ .commit (.slotDelete ⟨7⟩ "lamp" 0) ::
    DeliveryStep.lampAdded "clock"

instance (e : System.Event Delivery DeliveryStep) : Decidable (Confined e) :=
  inferInstanceAs (Decidable (∀ r ∈ receivers e, _))

/-- Up to a frame that the app gets, the lamp is its own. -/
theorem delivery_confined_lampSent :
    (∃ e ∈ deliveryTrace (DeliveryStep.lampClaimed ++ DeliveryStep.lampSent "lamp"),
      receivers e ≠ []) ∧
    ∀ a e b, deliveryTrace (DeliveryStep.lampClaimed ++ DeliveryStep.lampSent "lamp") =
        a ++ e :: b → ∀ r ∈ receivers e, ∀ d ∈ a, lookedUp d = some (r.2.conn, r.1) →
        d.pre.store.getTimerOwner r.1 = e.pre.store.getTimerOwner r.1 :=
  ⟨by decide +kernel, (delivery_confined_iff (deliveryTrace_run _)).mp (by decide +kernel)⟩

/-- **The frames of a timer that changed hands go to its first owner**, whose
connection is still registered under the id. -/
theorem retaken_timer_leaks : ¬∀ tr s, (delivery .sample .lenient).Run {} tr s →
    ∀ e ∈ tr, Confined e := by
  intro h
  have hleak : ∃ e ∈ deliveryTrace (DeliveryStep.lampTaken ++ DeliveryStep.lampSent "clock"),
      ¬Confined e := by decide +kernel
  obtain ⟨e, he, hnot⟩ := hleak
  exact hnot (h _ _ (deliveryTrace_run _) e he)

end Sample

end Bellman

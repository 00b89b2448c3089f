/-
Bellman/Transports.lean

The two ways of a reply: over the socket, and in a file.

A client claims a timer, and from then on sends frames, each a reply and a
newline.  The frames are taken one by one off what the socket gives, up to
one that is too long.  A reply file is read whole by the watcher.

    socket  ──►  frames  ──►  ─┐
                               ├──►  ingest  ──►  rows, events
    file    ──►  stub, name ──►┘

Both come to one ingest.  It is told the timer, which the watcher reads at
each poll; the socket has it from the time of the claim, so what is logged of
a reply has the name that the timer had then.  And what is refused goes to
the quarantine and is logged once, or is logged at once.

Main result: the two leave the same rows of runs, and the same events exactly
when `SameLines` holds (`transports_agree_iff`).
-/
import Bellman.Lib.Alike
import Bellman.Lib.Chunks
import Bellman.Watcher

namespace Bellman

open ProgramLogic Prog ReplyM Chunks

/-! ### Frames -/

namespace Ipc

def NEWLINE : UInt8 := 10

/-- `read_frame`: a frame with its newline; or the end, before which
something without a newline is not looked at; or an error. -/
def readFrame (src : Source UInt8) : Except String (Option (List UInt8)) × Source UInt8 :=
  let (buf, src) := readUntil NEWLINE (MAX_REPLY_FILE_BYTES + 1) src.buf src.chunks
  if buf.length = 0 then (.ok none, src)
  else if buf.getLast? ≠ some NEWLINE then
    if buf.length > MAX_REPLY_FILE_BYTES then (.error "frame exceeds the 64 KB reply cap", src)
    else (.ok none, src)
  else (.ok (some buf), src)

/-- `frame_body`. -/
def frameBody (buf : List UInt8) : List UInt8 :=
  if buf.getLast? = some NEWLINE then buf.dropLast else buf

/-- What is read for a frame, and what is left. -/
theorem read_fst (src : Source UInt8) :
    (readUntil NEWLINE (MAX_REPLY_FILE_BYTES + 1) src.buf src.chunks).1 =
      upTo NEWLINE (src.rest.take (MAX_REPLY_FILE_BYTES + 1)) := readUntil_fst

theorem read_rest (src : Source UInt8) :
    (readUntil NEWLINE (MAX_REPLY_FILE_BYTES + 1) src.buf src.chunks).2.rest =
      src.rest.drop (readUntil NEWLINE (MAX_REPLY_FILE_BYTES + 1) src.buf src.chunks).1.length :=
  rest_readUntil

theorem rest_readFrame {src src' : Source UInt8} {buf : List UInt8}
    (h : readFrame src = (.ok (some buf), src')) : src'.rest.length < src.rest.length := by
  have hbuf : (readUntil NEWLINE (MAX_REPLY_FILE_BYTES + 1) src.buf src.chunks).1 = buf ∧
      (readUntil NEWLINE (MAX_REPLY_FILE_BYTES + 1) src.buf src.chunks).2 = src' ∧
      buf.length ≠ 0 := by
    unfold readFrame at h
    dsimp only at h
    split at h
    · cases h
    · next hne =>
      split at h
      · split at h <;> cases h
      · injection h with hfst hsnd
        have hbuf := Option.some.inj (Except.ok.inj hfst)
        exact ⟨hbuf, hsnd, hbuf ▸ hne⟩
  obtain ⟨hfst, rfl, hne⟩ := hbuf
  have hrest := read_fst src
  rw [read_rest, List.length_drop, hfst]
  have hpos : 0 < src.rest.length := by
    apply Nat.pos_of_ne_zero
    intro hzero
    rw [List.length_eq_zero_iff.mp hzero, List.take_nil, hfst] at hrest
    exact hne (by rw [hrest]; rfl)
  omega

/-- The reply loop of `serve_client`. -/
def replyLoop {σ ε : Type} (handle : List UInt8 → Prog σ ε Unit) (src : Source UInt8) :
    Prog σ ε Unit :=
  match _h : readFrame src with
  | (.ok (some buf), src') => do
    handle (frameBody buf)
    replyLoop handle src'
  | _ => return ()
termination_by src.rest.length
decreasing_by exact rest_readFrame _h

/-- What comes of the accesses for one frame. -/
structure FrameLuck where
  gate : AccessLuck := .fine
  commit : AccessLuck := .fine
  log : AccessLuck := .fine
  deriving Repr, DecidableEq

/-- `handle_reply_frame`; `timer` is the one of the claim. -/
def handleReplyFrame (parse : List UInt8 → Option ReplyFileDocument) (cfg : ReplyConfig)
    (l : FrameLuck) (timer : Timer) (at_ : Receipt) (bytes : List UInt8) :
    Prog ReplyState BadStop Unit := do
  let digest := fnv1a64Hex bytes
  match parse bytes with
  | none => tellRejection l.log timer none "invalid JSON" at_
  | some doc =>
    match ← tryIo (access l.gate (return ())) with
    | none => return ()
    | some () =>
      match ← takeIn l.commit cfg timer doc.toReplyDocument digest at_ with
      | some (.rejected why) => tellRejection l.log timer doc.runId why.asStr at_
      | _ => return ()

end Ipc

/-! ### The property -/

section Property

variable (parse : List UInt8 → Option ReplyFileDocument) (cfg : ReplyConfig) (w : WatchState)

/-- The store after a reply came over the socket. -/
def viaIpc (claimed : Timer) (src : Source UInt8) (at_ : Receipt) : Store :=
  ((Ipc.replyLoop (Ipc.handleReplyFrame parse cfg {} claimed at_) src).run w.reply).2.store

/-- The store after it was found in its file. -/
def viaFile (timer : Timer) (path : String) (run : Uuid) (body : List UInt8) (at_ : Receipt) :
    Store :=
  ((Watcher.pollFile parse cfg {} timer path run (.regular body) at_).run w).2.reply.store

/-- The reply is not one, or its run refuses it. -/
def Refused (s : Store) (timer : Timer) (doc : ReplyDocument) (nowWall : Int) : Prop :=
  ∀ run newState appName claim, Addressed s timer doc run newState appName claim →
    s.newest timer.id = some run ∧
      (currentRow s timer claim appName nowWall).refuses doc appName newState ≠ none

/-- Nothing is logged of the reply: it is known, or there is nothing new in
it, or its watchdog cannot be armed. -/
def Unlogged (s : Store) (timer : Timer) (doc : ReplyDocument) (digest : String)
    (at_ : Receipt) : Prop :=
  ∃ run newState appName claim, Addressed s timer doc run newState appName claim ∧
    (s.newest timer.id ≠ some run → (s.getRunState run).bind (·.replyDigest) = some digest) ∧
    (s.newest timer.id = some run → ∀ row, row = currentRow s timer claim appName at_.nowWall →
      row.replyDigest = some digest ∨
        ¬Arms cfg (row.report doc newState at_.nowWall) newState at_.nowWall at_.monoNow ∨
        replyLines row doc newState at_.nowWall = [])

/-- When the two transports log the same.  Of a reply that is too long the
file alone is logged, if it is new to the quarantine; one that is refused is
logged by both if it is no stub and new to the quarantine; and whatever is
logged by both has the same name of the timer. -/
structure SameLines (claimed timer : Timer) (path : String) (run : Uuid) (body : List UInt8)
    (doc : ReplyFileDocument) (at_ : Receipt) : Prop where
  oversize : MAX_REPLY_FILE_BYTES < body.length → ¬w.bad.Fresh (.unread path body.length)
  refused : body.length ≤ MAX_REPLY_FILE_BYTES →
    Refused w.reply.store timer doc.toReplyDocument at_.nowWall →
    claimed.name = timer.name ∧ w.bad.Fresh (.bytes path body) ∧
      isUntouchedStub doc run (expectedOwner w.reply.store timer run) = false
  taken : body.length ≤ MAX_REPLY_FILE_BYTES →
    ¬Refused w.reply.store timer doc.toReplyDocument at_.nowWall →
    claimed.name = timer.name ∨
      Unlogged cfg w.reply.store timer doc.toReplyDocument (fnv1a64Hex body) at_

end Property

/-! ### The frames of a stream -/

namespace Ipc

variable {src : Source UInt8} {r t : List UInt8}

/-- The next frame, or one that is too long. -/
theorem readFrame_record (h : src.rest = r ++ NEWLINE :: t) (hr : NEWLINE ∉ r) :
    (r.length ≤ MAX_REPLY_FILE_BYTES → ∃ src', readFrame src = (.ok (some (r ++ [NEWLINE])), src') ∧
      src'.rest = t) ∧
    (MAX_REPLY_FILE_BYTES < r.length → ∃ e, (readFrame src).1 = .error e) := by
  have hfst := read_fst src
  rw [h, upTo_take hr] at hfst
  have hleft := read_rest src
  rw [h] at hleft
  constructor
  · intro hle
    rw [if_pos hle] at hfst
    rw [hfst] at hleft
    refine ⟨_, ?_, hleft.trans ?_⟩
    · unfold readFrame
      dsimp only
      rw [hfst, if_neg (by simp), if_neg (by simp)]
    · rw [show r ++ NEWLINE :: t = (r ++ [NEWLINE]) ++ t by simp, List.drop_left]
  · intro hlt
    rw [if_neg (Nat.not_le.mpr hlt)] at hfst
    have hlen : (r.take (MAX_REPLY_FILE_BYTES + 1)).length = MAX_REPLY_FILE_BYTES + 1 :=
      List.length_take_of_le hlt
    have hlast : (r.take (MAX_REPLY_FILE_BYTES + 1)).getLast? ≠ some NEWLINE := fun hlast =>
      hr (List.mem_of_mem_take (List.mem_of_getLast? hlast))
    refine ⟨"frame exceeds the 64 KB reply cap", ?_⟩
    unfold readFrame
    dsimp only
    rw [hfst, if_neg (by omega), if_pos hlast, if_pos (by omega)]

/-- Without a newline there is no frame. -/
theorem readFrame_rest (h : NEWLINE ∉ src.rest) (buf : List UInt8) :
    (readFrame src).1 ≠ .ok (some buf) := by
  have hfst := read_fst src
  have hnot : NEWLINE ∉ src.rest.take (MAX_REPLY_FILE_BYTES + 1) := fun hmem =>
    h (List.mem_of_mem_take hmem)
  rw [upTo_of_not_mem hnot] at hfst
  have hlast : (src.rest.take (MAX_REPLY_FILE_BYTES + 1)).getLast? ≠ some NEWLINE := fun hlast =>
    hnot (List.mem_of_getLast? hlast)
  unfold readFrame
  dsimp only
  rw [hfst, if_pos hlast]
  split
  · exact nofun
  · split <;> exact nofun

theorem frameBody_concat (r : List UInt8) : frameBody (r ++ [NEWLINE]) = r := by
  unfold frameBody
  rw [List.getLast?_concat, if_pos rfl, List.dropLast_concat]

/-- **The loop takes the records of the stream**, one after the other, however
they come. -/
theorem replyLoop_eq {σ ε : Type} (handle : List UInt8 → Prog σ ε Unit) (src : Source UInt8) :
    replyLoop handle src = forM (records NEWLINE MAX_REPLY_FILE_BYTES src.rest) handle := by
  induction hn : src.rest.length using Nat.strong_induction_on generalizing src with
  | _ n ih =>
    unfold replyLoop
    by_cases hmem : NEWLINE ∈ src.rest
    · obtain ⟨r, t, hr, hrest⟩ := exists_record hmem
      obtain ⟨hfits, hlong⟩ := readFrame_record hrest hr
      rw [hrest, records_append hr]
      by_cases hle : r.length ≤ MAX_REPLY_FILE_BYTES
      · obtain ⟨src', hread, rfl⟩ := hfits hle
        rw [if_pos hle, List.forM_cons]
        have hlt : src'.rest.length < n := hn ▸ rest_readFrame hread
        split
        · next buf src'' heq =>
          rw [hread] at heq
          injection heq with hbuf hsrc
          obtain rfl := Option.some.inj (Except.ok.inj hbuf)
          subst hsrc
          rw [frameBody_concat, ih _ hlt _ rfl]
        · next hno => exact absurd hread (hno _ _)
      · obtain ⟨e, hread⟩ := hlong (Nat.not_le.mp hle)
        rw [if_neg hle]
        split
        · next heq =>
          rw [heq] at hread
          cases hread
        · rfl
    · rw [records_of_not_mem hmem]
      split
      · next heq => exact absurd (congrArg Prod.fst heq) (readFrame_rest hmem _)
      · rfl

/-- One frame, however it comes. -/
theorem replyLoop_single {σ ε : Type} {handle : List UInt8 → Prog σ ε Unit} {body : List UInt8}
    (h : src.rest = body ++ [NEWLINE]) (hbody : NEWLINE ∉ body) (s : σ) :
    ((replyLoop handle src).run s).2 =
      if body.length ≤ MAX_REPLY_FILE_BYTES then ((handle body).run s).2 else s := by
  rw [replyLoop_eq, h, records_append hbody, records_of_not_mem List.not_mem_nil]
  split
  · rw [List.forM_cons, run_bind]
    rcases (handle body).run s with ⟨e | ⟨⟩, s'⟩ <;> rfl
  · rfl

end Ipc

/-! ### What a name is not read for -/

/-- The event with another name of its timer. -/
def EventRecord.named (name : String) (e : EventRecord) : EventRecord :=
  { e with timerName := some name }

/-- The stores are the same but for the names in events of runs that came
after `base`. -/
def Renamed (base : List EventRecord) (a b : String) (s s' : Store) : Prop :=
  ∃ evs : List EventRecord, (∀ e ∈ evs, e.kind.isLifecycle = true ∧ e.runId.isSome = true) ∧
    s.eventOutbox = base ++ evs.map (·.named a) ∧
    s' = { s with eventOutbox := base ++ evs.map (·.named b) }

/-- So are the states of the engine. -/
def RenamedReply (base : List EventRecord) (a b : String) (r r' : ReplyState) : Prop :=
  Renamed base a b r.store r'.store ∧ r' = { r with store := r'.store }

section Alike

variable {base : List EventRecord} {claimed timer : Timer} {α : Type}

theorem Renamed.refl (a b : String) (s : Store) : Renamed s.eventOutbox a b s s :=
  ⟨[], fun _ h => absurd h List.not_mem_nil, (List.append_nil _).symm, by simp⟩

theorem RenamedReply.refl (a b : String) (r : ReplyState) :
    RenamedReply r.store.eventOutbox a b r r :=
  ⟨Renamed.refl a b r.store, rfl⟩

theorem Renamed.eq_of (f : Store → α)
    (hf : ∀ (s : Store) evs, f { s with eventOutbox := evs } = f s) {a b : String} {s s' : Store}
    (h : Renamed base a b s s') : f s = f s' := by
  obtain ⟨evs, -, -, rfl⟩ := h
  exact (hf s _).symm

/-- A program that neither reads nor writes events. -/
theorem alike_modify_store {a b : String} {f : Store → Store}
    (hf : ∀ (s : Store) evs, f { s with eventOutbox := evs } = { f s with eventOutbox := evs })
    (hkeeps : ∀ s, (f s).eventOutbox = s.eventOutbox) :
    Alike (Renamed base a b) (modify f : StoreM PUnit) (modify f) := by
  apply alike_modify
  rintro s s' ⟨evs, hevs, hbase, rfl⟩
  exact ⟨evs, hevs, (hkeeps s).trans hbase, hf s _⟩

theorem any_named (f : Uuid → Bool) (name : String) (evs : List EventRecord) :
    (evs.map (·.named name)).any (fun e => f e.eventId) = evs.any fun e => f e.eventId := by
  rw [List.any_map]
  rfl

/-- **An event is logged under the one name or the other.** -/
theorem alike_emit (hid : claimed.id = timer.id) {kind : RunState} (hk : kind.isLifecycle = true)
    (loggedAt : Int) (claim : RunClaim) (note : EventNote) :
    Alike (Renamed base claimed.name timer.name)
      (emit kind loggedAt (.ofRun claimed claim) note)
      (emit kind loggedAt (.ofRun timer claim) note) := by
  unfold emit
  apply alike_bind
  · unfold newUuid
    apply alike_modifyGet
    rintro s s' ⟨evs, hevs, hbase, rfl⟩
    exact ⟨rfl, evs, hevs, hbase, rfl⟩
  · intro eventId
    unfold enqueueEventConn
    apply alike_modify
    rintro s s' ⟨evs, hevs, hbase, rfl⟩
    have hany : ∀ name, (base ++ evs.map (·.named name)).any (fun e => e.eventId == eventId) =
        (base.any (fun e => e.eventId == eventId) || evs.any fun e => e.eventId == eventId) := by
      intro name
      rw [List.any_append, any_named (· == eventId)]
    dsimp only
    rw [hbase, hany, hany]
    split
    · exact ⟨evs, hevs, hbase, rfl⟩
    · refine ⟨evs ++ [{ EventSubject.ofRun timer claim, note with kind, loggedAt, eventId }],
        fun e he => ?_, ?_, ?_⟩
      · rcases List.mem_append.mp he with he | he
        · exact hevs e he
        · rw [List.mem_singleton.mp he]
          exact ⟨hk, rfl⟩
      · rw [List.map_append, ← List.append_assoc]
        unfold EventSubject.ofRun
        rw [hid]
        rfl
      · rw [List.map_append, ← List.append_assoc]
        rfl

theorem alike_onStore {a b : String} {m m' : StoreM α} (h : Alike (Renamed base a b) m m') :
    Alike (RenamedReply base a b) (onStore m) (onStore m') := by
  apply alike_zoom h
  · exact fun r r' hr => hr.1
  · rintro r r' s s' ⟨-, hr⟩ hs
    rw [hr]
    exact ⟨hs, rfl⟩

theorem alike_read {a b : String} {f : Store → α}
    (hf : ∀ (s : Store) evs, f { s with eventOutbox := evs } = f s) :
    Alike (RenamedReply base a b) (ReplyM.read f) (ReplyM.read f) := by
  unfold ReplyM.read
  apply alike_get_bind
  intro r r' hr
  rw [hr.1.eq_of f hf]
  exact alike_pure _ r r' hr

theorem alike_onBook {a b : String} (f : DeadlineBook → DeadlineBook) :
    Alike (RenamedReply base a b) (onBook f) (onBook f) := by
  apply alike_modify
  rintro r r' ⟨hs, hr⟩
  refine ⟨hs, ?_⟩
  rw [hr]

theorem alike_orPanic {a b : String} (x : Except Panic α) :
    Alike (Renamed base a b) (orPanic x) (orPanic x) := by
  cases x with
  | ok v => exact alike_pure v
  | error p => exact alike_throw _

theorem alike_updateRunState {a b : String} (row : RunStateRow) :
    Alike (Renamed base a b) (updateRunStateConn row) (updateRunStateConn row) :=
  alike_modify_store (fun _ _ => rfl) fun _ => rfl

end Alike

/-! ### One ingest for two timers of one id -/

section Ingest

variable {base : List EventRecord} {claimed timer : Timer} {cfg : ReplyConfig}
  {claim : RunClaim} {row : RunStateRow} {doc : ReplyDocument} {newState : RunState}
  {digest : String} {nowWall monoNow utc : Int}

theorem alike_logAcknowledged (hid : claimed.id = timer.id) :
    Alike (Renamed base claimed.name timer.name) (logAcknowledged claimed claim row nowWall)
      (logAcknowledged timer claim row nowWall) := by
  unfold logAcknowledged
  refine alike_ite (fun _ => ?_) fun _ => alike_pure _
  exact alike_bind (alike_emit hid rfl _ _ _) fun _ => alike_pure _

theorem alike_logRunning (hid : claimed.id = timer.id) :
    Alike (Renamed base claimed.name timer.name)
      (logRunning claimed claim row doc newState nowWall)
      (logRunning timer claim row doc newState nowWall) := by
  unfold logRunning
  refine alike_ite (fun _ => ?_) fun _ => alike_pure _
  exact alike_bind (alike_emit hid rfl _ _ _) fun _ => alike_pure _

theorem alike_durationMs {a b : String} (runId : Uuid) (firedAt : Int) :
    Alike (RenamedReply base a b) (durationMs runId firedAt nowWall monoNow)
      (durationMs runId firedAt nowWall monoNow) := by
  unfold durationMs
  apply alike_modifyGet
  rintro r r' ⟨hs, hr⟩
  have hanchors : r'.anchors = r.anchors := by rw [hr]
  rw [hanchors]
  cases r.anchors.find? (·.1 == runId) with
  | none => exact ⟨rfl, hs, hr⟩
  | some anchor =>
    refine ⟨rfl, hs, ?_⟩
    rw [hr]

theorem alike_logVerdict (hid : claimed.id = timer.id) (curState : RunState) :
    Alike (RenamedReply base claimed.name timer.name)
      (logVerdict claimed claim row doc curState newState nowWall monoNow utc)
      (logVerdict timer claim row doc curState newState nowWall monoNow utc) := by
  unfold logVerdict
  refine alike_ite (fun hterm => ?_) fun _ => alike_pure _
  have hlife : newState.isLifecycle = true := by
    have hterm := hterm.1
    cases newState <;> simp_all [RunState.isLifecycle, RunState.isTerminal]
  refine alike_bind (alike_durationMs _ _) fun duration => ?_
  exact alike_onStore (alike_emit hid hlife _ _ _)

theorem alike_armWatchdog {a b : String} (runId : Uuid) (expectedSecs : Nat) :
    Alike (RenamedReply base a b) (armWatchdog cfg runId expectedSecs nowWall monoNow)
      (armWatchdog cfg runId expectedSecs nowWall monoNow) := by
  unfold armWatchdog
  refine alike_bind (alike_onStore (alike_orPanic _)) fun span => ?_
  refine alike_bind (alike_onStore (alike_orPanic _)) fun at_ => ?_
  refine alike_bind (alike_onBook _) fun _ => ?_
  refine alike_bind (alike_onStore (alike_orPanic _)) fun wall => ?_
  exact alike_bind (alike_onBook _) fun _ => alike_pure _

theorem alike_rearm {a b : String} :
    Alike (RenamedReply base a b) (rearm cfg row newState nowWall monoNow)
      (rearm cfg row newState nowWall monoNow) := by
  unfold rearm
  refine alike_bind (alike_onBook _) fun _ => alike_ite (fun _ => ?_) fun _ =>
    alike_ite (fun _ => ?_) fun _ => ?_
  · exact alike_bind (alike_onBook _) fun _ => alike_pure _
  · exact alike_bind (alike_armWatchdog _ _) fun _ => alike_pure _
  · exact alike_bind (alike_onBook _) fun _ => alike_pure _

theorem alike_apply (hid : claimed.id = timer.id) :
    Alike (RenamedReply base claimed.name timer.name)
      (apply cfg claimed claim row doc newState digest nowWall monoNow utc)
      (apply cfg timer claim row doc newState digest nowWall monoNow utc) := by
  unfold apply
  refine alike_bind alike_rearm fun row => ?_
  refine alike_bind (alike_onStore (alike_logAcknowledged hid)) fun row => ?_
  refine alike_bind (alike_onStore (alike_logRunning hid)) fun row => ?_
  exact alike_bind (alike_logVerdict hid _) fun _ => alike_onStore (alike_updateRunState _)

theorem alike_ingestStale (hid : claimed.id = timer.id) :
    Alike (Renamed base claimed.name timer.name) (ingestStale claimed claim digest utc)
      (ingestStale timer claim digest utc) := by
  unfold ingestStale
  apply alike_get_bind
  intro s s' hs
  rw [hs.eq_of (·.getRunState claim.runId) fun _ _ => rfl]
  dsimp only
  refine Alike.alikeAt (alike_ite (fun _ => alike_pure _) fun _ => ?_) hs
  refine alike_bind (alike_emit hid rfl _ _ _) fun _ => ?_
  cases s'.getRunState claim.runId with
  | none => exact alike_pure _
  | some row => exact alike_bind (alike_updateRunState _) fun _ => alike_pure _

/-- **One ingest**, told of a timer before and after it was edited, does the
same but for the name in what it logs. -/
theorem alike_ingestInner (hid : claimed.id = timer.id) :
    Alike (RenamedReply base claimed.name timer.name)
      (ingestInner cfg claimed doc digest nowWall monoNow utc none)
      (ingestInner cfg timer doc digest nowWall monoNow utc none) := by
  unfold ingestInner
  rw [hid]
  cases doc.validate with
  | error why => exact alike_pure _
  | ok valid =>
    obtain ⟨runId, newState, appName⟩ := valid
    refine alike_bind (alike_read fun _ _ => rfl) fun found => ?_
    cases found with
    | none => exact alike_pure _
    | some claim =>
      refine alike_ite (fun _ => alike_pure _) fun _ => ?_
      refine alike_bind (alike_read fun _ _ => rfl) fun newest => ?_
      refine alike_ite (fun _ => alike_onStore (alike_ingestStale hid)) fun _ => ?_
      have hrow : (currentRow · claimed claim appName nowWall) =
          (currentRow · timer claim appName nowWall) := by
        unfold currentRow
        rw [hid]
      rw [hrow]
      refine alike_bind (alike_read fun _ _ => rfl) fun row => ?_
      cases row.refuses doc appName newState with
      | some why => exact alike_pure _
      | none =>
        refine alike_ite (fun _ => alike_pure _) fun _ => ?_
        exact alike_bind (alike_apply hid) fun _ => alike_pure _

theorem alike_ingest (hid : claimed.id = timer.id) :
    Alike (RenamedReply base claimed.name timer.name)
      (ingest cfg claimed doc digest nowWall monoNow utc)
      (ingest cfg timer doc digest nowWall monoNow utc) := by
  apply alike_transact (alike_ingestInner hid)
  rintro r r' t t' ⟨hs, -⟩ ⟨-, ht⟩
  refine ⟨hs, ?_⟩
  rw [ht]

end Ingest

/-! ### What comes of one reply -/

section Outcome

variable {parse : List UInt8 → Option ReplyFileDocument} {cfg : ReplyConfig}
  {claimed timer : Timer} {doc : ReplyFileDocument} {body : List UInt8} {at_ : Receipt}
  {r : ReplyState} {w : WatchState} {run : Uuid} {path : String}

/-- The ingest of a reply. -/
def ingested (cfg : ReplyConfig) (timer : Timer) (doc : ReplyFileDocument) (body : List UInt8)
    (at_ : Receipt) (r : ReplyState) : Except Abort IngestOutcome × ReplyState :=
  (ingest cfg timer doc.toReplyDocument (fnv1a64Hex body) at_.nowWall at_.monoNow at_.utc).run r

/-- What the transport makes of an ingest: it does the rest, or its thread
ends with the ingest. -/
theorem wp_takeIn {Q : Option IngestOutcome → ReplyState → Prop}
    {E : BadStop → ReplyState → Prop}
    (hok : ∀ out, (ingested cfg timer doc body at_ r).1 = .ok out →
      Q (some out) (ingested cfg timer doc body at_ r).2)
    (hnot : ∀ e, (ingested cfg timer doc body at_ r).1 = .error e →
      Q none (ingested cfg timer doc body at_ r).2 ∧
        E .dies (ingested cfg timer doc body at_ r).2) :
    wp (takeIn .fine cfg timer doc.toReplyDocument (fnv1a64Hex body) at_) Q E r := by
  unfold takeIn
  rw [wp_bind, wp_mapError, wp_attempt, wp_iff]
  constructor
  · intro out r' hrun
    have heq : ingested cfg timer doc body at_ r = (.ok out, r') := hrun
    have h := hok out (by rw [heq])
    rw [heq] at h
    exact h
  · intro e r' hrun
    have heq : ingested cfg timer doc body at_ r = (.error e, r') := hrun
    have h := hnot e (by rw [heq])
    rw [heq] at h
    cases e with
    | error e => exact h.1
    | panic p => exact h.2

/-- **Over the socket** a reply is taken in, and told of if it is refused. -/
theorem handleReplyFrame_store (hparse : parse body = some doc) :
    (∀ why, (ingested cfg timer doc body at_ r).1 = .ok (.rejected why) →
      ((Ipc.handleReplyFrame parse cfg {} timer at_ body).run r).2.store =
        (ingested cfg timer doc body at_ r).2.store.told timer doc.runId why.asStr at_.utc) ∧
    ((∀ why, (ingested cfg timer doc body at_ r).1 ≠ .ok (.rejected why)) →
      ((Ipc.handleReplyFrame parse cfg {} timer at_ body).run r).2.store =
        (ingested cfg timer doc body at_ r).2.store) := by
  refine run_snd (P := fun r' : ReplyState =>
    (∀ why, (ingested cfg timer doc body at_ r).1 = .ok (.rejected why) → r'.store =
      (ingested cfg timer doc body at_ r).2.store.told timer doc.runId why.asStr at_.utc) ∧
    ((∀ why, (ingested cfg timer doc body at_ r).1 ≠ .ok (.rejected why)) →
      r'.store = (ingested cfg timer doc body at_ r).2.store)) ?_
  unfold Ipc.handleReplyFrame tryIo access
  rw [hparse]
  dsimp only
  rw [wp_bind, wp_tryCatch, wp_map, wp_pure, wp_bind]
  refine wp_takeIn (fun out hout => ?_) fun e he => ?_
  · rw [hout]
    cases out with
    | rejected why =>
      rw [wp_tellRejection]
      refine ⟨fun why' heq => ?_, fun hno => absurd rfl (hno why)⟩
      injection Except.ok.inj heq with heq
      rw [heq]
    | _ => exact ⟨fun why heq => absurd (Except.ok.inj heq) nofun, fun _ => rfl⟩
  · rw [he]
    exact ⟨⟨nofun, fun _ => rfl⟩, nofun, fun _ => rfl⟩

/-- The stub that was written for the app is nothing to the watcher. -/
theorem handleBytes_stub (hparse : parse body = some doc)
    (hstub : isUntouchedStub doc run (expectedOwner w.reply.store timer run) = true) :
    ((Watcher.handleBytes parse cfg {} timer path run body at_).run w).2.reply.store =
      w.reply.store := by
  refine run_snd (P := fun w' : WatchState => w'.reply.store = w.reply.store) ?_
  unfold Watcher.handleBytes
  rw [hparse, wp_bind, wp_modify, wp_bind, wp_get]
  rw [show (w.forget path).reply.store = w.reply.store from rfl, if_pos hstub]
  rfl

/-- **In its file** a reply is taken in, and condemned if it is refused. -/
theorem handleBytes_store (path : String) (hparse : parse body = some doc)
    (hrun : doc.runId = some run)
    (hstub : isUntouchedStub doc run (expectedOwner w.reply.store timer run) = false) :
    (∀ why, (ingested cfg timer doc body at_ w.reply).1 = .ok (.rejected why) →
      Condemns { w.forget path with reply := (ingested cfg timer doc body at_ w.reply).2 }
        (.bytes path body) timer run why.asStr at_
        ((Watcher.handleBytes parse cfg {} timer path run body at_).run w).2) ∧
    ((∀ why, (ingested cfg timer doc body at_ w.reply).1 ≠ .ok (.rejected why)) →
      ((Watcher.handleBytes parse cfg {} timer path run body at_).run w).2.reply.store =
        (ingested cfg timer doc body at_ w.reply).2.store) := by
  refine run_snd (P := fun w' : WatchState =>
    (∀ why, (ingested cfg timer doc body at_ w.reply).1 = .ok (.rejected why) →
      Condemns { w.forget path with reply := (ingested cfg timer doc body at_ w.reply).2 }
        (.bytes path body) timer run why.asStr at_ w') ∧
    ((∀ why, (ingested cfg timer doc body at_ w.reply).1 ≠ .ok (.rejected why)) →
      w'.reply.store = (ingested cfg timer doc body at_ w.reply).2.store)) ?_
  unfold Watcher.handleBytes
  rw [hparse]
  have hnamed : ¬(doc.runId.isSome ∧ doc.runId ≠ some run) := fun h => h.2 hrun
  rw [wp_bind, wp_modify, wp_bind, wp_get,
    show (w.forget path).reply.store = w.reply.store from rfl]
  dsimp only
  rw [hstub, if_neg Bool.false_ne_true, if_neg hnamed, wp_bind, wp_onReply]
  refine wp_takeIn (fun out hout => ?_) fun e he => ?_
  · have hout' : (ingested cfg timer doc body at_ w.reply).1 = .ok out := hout
    rw [hout']
    cases out with
    | rejected why =>
      refine wp_imp (wp_condemn (.bytes path body)) fun w' hcondemns =>
        ⟨fun why' heq => ?_, fun hno => absurd rfl (hno why)⟩
      injection Except.ok.inj heq with heq
      rw [← heq]
      exact hcondemns
    | _ => exact ⟨fun why heq => absurd (Except.ok.inj heq) nofun, fun _ => rfl⟩
  · have he' : (ingested cfg timer doc body at_ w.reply).1 = .error e := he
    rw [he']
    exact ⟨⟨nofun, fun _ => rfl⟩, nofun, fun _ => rfl⟩

end Outcome

/-! ### What is logged of a reply -/

section Logged

variable {cfg : ReplyConfig} {timer : Timer} {doc : ReplyFileDocument} {body : List UInt8}
  {at_ : Receipt} {r : ReplyState} {s : Store} {run : Uuid} {newState : RunState}
  {appName digest : String} {claim : RunClaim} {rep : ReplyDocument} {nowWall : Int}

theorem refused_iff (h : Addressed s timer rep run newState appName claim) :
    Refused s timer rep nowWall ↔ s.newest timer.id = some run ∧
      (currentRow s timer claim appName nowWall).refuses rep appName newState ≠ none := by
  constructor
  · exact fun hall => hall _ _ _ _ h
  · intro hboth run' newState' appName' claim' h'
    obtain ⟨rfl, rfl, rfl, rfl⟩ := h.unique h'
    exact hboth

theorem unlogged_iff (h : Addressed s timer rep run newState appName claim) :
    Unlogged cfg s timer rep digest at_ ↔
      (s.newest timer.id ≠ some run → (s.getRunState run).bind (·.replyDigest) = some digest) ∧
      (s.newest timer.id = some run → ∀ row, row = currentRow s timer claim appName at_.nowWall →
        row.replyDigest = some digest ∨
          ¬Arms cfg (row.report rep newState at_.nowWall) newState at_.nowWall at_.monoNow ∨
          replyLines row rep newState at_.nowWall = []) := by
  constructor
  · rintro ⟨run', newState', appName', claim', h', hboth⟩
    obtain ⟨rfl, rfl, rfl, rfl⟩ := h.unique h'
    exact hboth
  · exact fun hboth => ⟨_, _, _, _, h, hboth⟩

/-- Events of runs that are no lines of any run are none. -/
theorem eq_nil_of_lines {evs : List EventRecord}
    (hevs : ∀ e ∈ evs, e.kind.isLifecycle = true ∧ e.runId.isSome = true)
    (h : ∀ run, linesOf run evs = []) : evs = [] := by
  cases evs with
  | nil => rfl
  | cons e evs =>
    obtain ⟨hlife, hsome⟩ := hevs e List.mem_cons_self
    obtain ⟨run, hrun⟩ := Option.isSome_iff_exists.mp hsome
    have hline := h run
    unfold linesOf at hline
    rw [List.filter_cons_of_pos (by simp [hlife, hrun])] at hline
    cases hline

theorem eq_nil_iff_of_lines {evs : List EventRecord} {ls : List Line}
    (hevs : ∀ e ∈ evs, e.kind.isLifecycle = true ∧ e.runId.isSome = true)
    (h : Lines run ls evs) : evs = [] ↔ ls = [] := by
  constructor
  · rintro rfl
    exact h.self.symm
  · rintro rfl
    refine eq_nil_of_lines hevs fun run' => ?_
    rw [h run', ite_self]

/-- All that an ingest logs are lines of runs. -/
theorem ingested_lines : ∃ evs : List EventRecord,
    (∀ e ∈ evs, e.kind.isLifecycle = true ∧ e.runId.isSome = true) ∧
      (ingested cfg timer doc body at_ r).2.store.eventOutbox = r.store.eventOutbox ++ evs := by
  have halike : Alike (RenamedReply r.store.eventOutbox timer.name timer.name)
      (ingest cfg timer doc.toReplyDocument (fnv1a64Hex body) at_.nowWall at_.monoNow at_.utc)
      (ingest cfg timer doc.toReplyDocument (fnv1a64Hex body) at_.nowWall at_.monoNow at_.utc) :=
    alike_ingest rfl
  obtain ⟨-, ⟨evs, hevs, hbox, -⟩, -⟩ := halike r r (RenamedReply.refl _ _ r)
  refine ⟨evs.map (EventRecord.named timer.name), fun e he => ?_, hbox⟩
  obtain ⟨e', he', rfl⟩ := List.mem_map.mp he
  exact hevs e' he'

/-- **What comes of an ingest**: the reply is refused, and nothing is done; or
it is not, and something is logged unless there is nothing to log. -/
theorem ingested_cases (cfg : ReplyConfig) (timer : Timer) (doc : ReplyFileDocument)
    (body : List UInt8) (at_ : Receipt) (hs : r.store.Wf) :
    (∃ why, (ingested cfg timer doc body at_ r).1 = .ok (.rejected why) ∧
      (ingested cfg timer doc body at_ r).2.store = r.store ∧
      Refused r.store timer doc.toReplyDocument at_.nowWall) ∨
    ((∀ why, (ingested cfg timer doc body at_ r).1 ≠ .ok (.rejected why)) ∧
      ¬Refused r.store timer doc.toReplyDocument at_.nowWall ∧
      ((ingested cfg timer doc body at_ r).2.store.eventOutbox = r.store.eventOutbox ↔
        Unlogged cfg r.store timer doc.toReplyDocument (fnv1a64Hex body) at_)) := by
  have hlines : ∃ evs : List EventRecord,
      (∀ e ∈ evs, e.kind.isLifecycle = true ∧ e.runId.isSome = true) ∧
        (ingested cfg timer doc body at_ r).2.store.eventOutbox = r.store.eventOutbox ++ evs :=
    ingested_lines
  obtain ⟨evs, hevs, hbox⟩ := hlines
  have hwp : wp (ingest cfg timer doc.toReplyDocument (fnv1a64Hex body) at_.nowWall at_.monoNow
      at_.utc) (fun out r' => Ingested cfg timer doc.toReplyDocument (fnv1a64Hex body) at_.nowWall
        at_.monoNow (r.store.newest timer.id) r.store out r'.store)
      (fun _ r' => r'.store = r.store ∧ Unarmed cfg timer doc.toReplyDocument (fnv1a64Hex body)
        at_.nowWall at_.monoNow (r.store.newest timer.id) r.store) r := by
    unfold ingest inTx
    rw [wp_transact]
    exact wp_mono (ingestInner_ingested hs at_.utc none) (fun _ _ h => h.1) fun _ _ h => ⟨rfl, h.2⟩
  rcases hrun : ingested cfg timer doc body at_ r with ⟨e | out, r'⟩
  · obtain ⟨hstore, run, newState, appName, claim, row, haddr, hcur, hrow, hok, hdigest, harm⟩ :=
      wp_error hwp hrun
    refine .inr ⟨nofun, fun hrefused => ?_, ?_⟩
    · rw [refused_iff haddr, ← hrow] at hrefused
      exact hrefused.2 hok
    · rw [unlogged_iff haddr]
      refine iff_of_true (congrArg Store.eventOutbox hstore)
        ⟨fun hne => absurd hcur hne, fun _ row' hrow' => ?_⟩
      subst hrow hrow'
      exact .inr (.inl harm)
  · have hingested := wp_ok hwp hrun
    rw [hrun] at hbox
    dsimp only at hbox ⊢
    generalize r'.store = s' at hingested hbox ⊢
    cases hingested with
    | unaddressed why hno =>
      exact .inl ⟨why, rfl, rfl, fun _ _ _ _ h => absurd h (hno _ _ _ _)⟩
    | refused why haddr hcur hwhy =>
      refine .inl ⟨why, rfl, rfl, (refused_iff haddr).mpr ⟨hcur, ?_⟩⟩
      rw [hwhy]
      exact nofun
    | known haddr hcur hdigest =>
      refine .inr ⟨nofun, fun hrefused => hcur ((refused_iff haddr).mp hrefused).1, ?_⟩
      rw [unlogged_iff haddr]
      exact iff_of_true rfl ⟨fun _ => hdigest, fun heq => absurd heq hcur⟩
    | @late run _ _ _ row evs' haddr hcur hrow hdigest hlines =>
      refine .inr ⟨nofun, fun hrefused => hcur ((refused_iff haddr).mp hrefused).1, ?_⟩
      obtain rfl : evs' = evs := List.append_cancel_left hbox
      rw [hbox, List.append_right_eq_self, eq_nil_iff_of_lines hevs hlines, unlogged_iff haddr]
      refine iff_of_false nofun fun hboth => hdigest ?_
      have hknown := hboth.1 hcur
      rw [hrow] at hknown
      exact hknown
    | @lateRowless run _ _ _ evs' haddr hcur hrow hlines =>
      refine .inr ⟨nofun, fun hrefused => hcur ((refused_iff haddr).mp hrefused).1, ?_⟩
      obtain rfl : evs' = evs := List.append_cancel_left hbox
      rw [hbox, List.append_right_eq_self, eq_nil_iff_of_lines hevs hlines, unlogged_iff haddr]
      refine iff_of_false nofun fun hboth => ?_
      have hknown := hboth.1 hcur
      rw [hrow] at hknown
      cases hknown
    | duplicate haddr hcur hok hdigest =>
      refine .inr ⟨nofun, fun hrefused => ((refused_iff haddr).mp hrefused).2 hok, ?_⟩
      rw [unlogged_iff haddr]
      refine iff_of_true rfl ⟨fun hne => absurd hcur hne, fun _ row hrow => .inl ?_⟩
      rw [hrow]
      exact hdigest
    | @applied run newState _ _ row evs' watchdog haddr hcur hrow hok hdigest harm hlines =>
      refine .inr ⟨nofun, fun hrefused => ?_, ?_⟩
      · rw [refused_iff haddr, ← hrow] at hrefused
        exact hrefused.2 hok
      obtain rfl : evs' = evs := List.append_cancel_left hbox
      rw [hbox, List.append_right_eq_self, eq_nil_iff_of_lines hevs hlines, unlogged_iff haddr]
      constructor
      · intro hnil
        refine ⟨fun hne => absurd hcur hne, fun _ row' hrow' => .inr (.inr ?_)⟩
        rw [hrow', ← hrow]
        exact hnil
      · intro hboth
        rcases hboth.2 hcur row hrow with hknown | hunarmed | hnil
        · exact absurd hknown hdigest
        · exact absurd harm hunarmed
        · exact hnil

end Logged

/-! ### The two transports -/

/-- The events of runs, without those of replies that were refused. -/
def Store.lifecycle (s : Store) : List EventRecord :=
  s.eventOutbox.filter (·.kind.isLifecycle)

section Told

variable {s : Store} {timer : Timer} {runId : Option Uuid} {reason : String} {utc : Int}

theorem Store.told_eq (hs : s.Wf) : s.told timer runId reason utc = { s with
    nextUuid := s.nextUuid + 1
    eventOutbox := s.eventOutbox ++
      [{ kind := .replyRejected, loggedAt := utc, eventId := ⟨s.nextUuid⟩,
         timerId := some timer.id, timerName := some timer.name, runId,
         message := some reason }] } :=
  run_emit hs.event_lt

theorem Store.told_runStates (hs : s.Wf) :
    (s.told timer runId reason utc).runStates = s.runStates := by
  rw [Store.told_eq hs]

theorem Store.told_lifecycle (hs : s.Wf) :
    (s.told timer runId reason utc).lifecycle = s.lifecycle := by
  rw [Store.told_eq hs]
  unfold Store.lifecycle
  rw [List.filter_append]
  exact List.append_nil _

/-- A rejection is told by name. -/
theorem Store.told_outbox_inj (hs : s.Wf) {claimed : Timer} :
    (s.told claimed runId reason utc).eventOutbox = (s.told timer runId reason utc).eventOutbox →
      claimed.name = timer.name := by
  rw [Store.told_eq hs, Store.told_eq hs]
  intro heq
  have hlast := List.singleton_inj.mp (List.append_cancel_left heq)
  exact Option.some.inj (congrArg (fun e : EventRecord => e.timerName) hlast)

theorem Store.told_ne (hs : s.Wf) :
    (s.told timer runId reason utc).eventOutbox ≠ s.eventOutbox := by
  rw [Store.told_eq hs]
  intro heq
  rw [List.append_right_eq_self] at heq
  cases heq

theorem told_congr {claimed : Timer} (hid : claimed.id = timer.id)
    (hname : claimed.name = timer.name) :
    s.told claimed runId reason utc = s.told timer runId reason utc := by
  unfold Store.told logRejection
  rw [hid, hname]

end Told

theorem named_eq_iff {a b : String} {evs : List EventRecord} :
    evs.map (·.named a) = evs.map (·.named b) ↔ a = b ∨ evs = [] := by
  constructor
  · intro heq
    cases evs with
    | nil => exact .inr rfl
    | cons e evs =>
      rw [List.map_cons, List.map_cons] at heq
      injection heq with hfst
      have hname : (e.named a).timerName = (e.named b).timerName := by rw [hfst]
      exact .inl (Option.some.inj hname)
  · rintro (rfl | rfl) <;> rfl

section Transports

variable {parse : List UInt8 → Option ReplyFileDocument} {cfg : ReplyConfig} {w : WatchState}
  {claimed timer : Timer} {path : String} {run : Uuid} {body : List UInt8}
  {doc : ReplyFileDocument} {at_ : Receipt} {src : Source UInt8}

/-- The stub is no reply. -/
theorem refused_of_stub {s : Store} {nowWall : Int}
    (hstub : isUntouchedStub doc run (expectedOwner s timer run) = true) :
    Refused s timer doc.toReplyDocument nowWall := by
  intro run' newState appName claim haddr
  have hnone : doc.state = none := by
    unfold isUntouchedStub at hstub
    simp only [Bool.and_eq_true, Option.isNone_iff_eq_none] at hstub
    exact hstub.1.1.1.1.2
  have hvalid := haddr.valid
  unfold ReplyDocument.validate at hvalid
  rw [hnone] at hvalid
  exfalso
  split at hvalid
  · cases hvalid
  · split at hvalid
    · cases hvalid
    · split at hvalid <;> cases hvalid

/-- Of a reply that is too long, the file alone is logged. -/
theorem oversize_stores (parse : List UInt8 → Option ReplyFileDocument) (cfg : ReplyConfig)
    (claimed timer : Timer) (path : String) (run : Uuid) (at_ : Receipt)
    (hsrc : src.rest = body ++ [Ipc.NEWLINE]) (hbody : Ipc.NEWLINE ∉ body)
    (hlong : MAX_REPLY_FILE_BYTES < body.length) :
    viaIpc parse cfg w claimed src at_ = w.reply.store ∧
    (w.bad.Fresh (.unread path body.length) → viaFile parse cfg w timer path run body at_ =
      w.reply.store.told timer (some run) "oversize" at_.utc) ∧
    (¬w.bad.Fresh (.unread path body.length) →
      viaFile parse cfg w timer path run body at_ = w.reply.store) := by
  constructor
  · unfold viaIpc
    rw [Ipc.replyLoop_single hsrc hbody, if_neg (Nat.not_le.mpr hlong)]
  · have hread : readReplyFile (.regular body) = .ok (.oversize body.length) := if_pos hlong
    unfold viaFile Watcher.pollFile
    rw [hread]
    have hcondemns : Condemns w (.unread path body.length) timer run "oversize" at_ _ :=
      run_snd (wp_condemn (.unread path body.length))
    exact ⟨hcondemns.fresh, hcondemns.known⟩

theorem viaIpc_fits (hsrc : src.rest = body ++ [Ipc.NEWLINE]) (hbody : Ipc.NEWLINE ∉ body)
    (hfits : body.length ≤ MAX_REPLY_FILE_BYTES) : viaIpc parse cfg w claimed src at_ =
      ((Ipc.handleReplyFrame parse cfg {} claimed at_ body).run w.reply).2.store := by
  unfold viaIpc
  rw [Ipc.replyLoop_single hsrc hbody, if_pos hfits]

theorem viaFile_fits (hfits : body.length ≤ MAX_REPLY_FILE_BYTES) :
    viaFile parse cfg w timer path run body at_ =
      ((Watcher.handleBytes parse cfg {} timer path run body at_).run w).2.reply.store := by
  have hread : readReplyFile (.regular body) = .ok (.bytes body) := if_neg (Nat.not_lt.mpr hfits)
  unfold viaFile Watcher.pollFile
  rw [hread]

/-- The two ingests come to the same, but for the names. -/
theorem ingested_alike (hid : claimed.id = timer.id) (r : ReplyState) :
    (ingested cfg claimed doc body at_ r).1 = (ingested cfg timer doc body at_ r).1 ∧
      RenamedReply r.store.eventOutbox claimed.name timer.name
        (ingested cfg claimed doc body at_ r).2 (ingested cfg timer doc body at_ r).2 :=
  alike_ingest hid _ _ (RenamedReply.refl _ _ r)

/-- One that is refused, the socket logs; the file too, if it is no stub and
new. -/
theorem refused_stores (cfg : ReplyConfig) (path : String) (hs : w.reply.store.Wf)
    (hparse : parse body = some doc)
    (hrun : doc.runId = some run) (hid : claimed.id = timer.id)
    (hsrc : src.rest = body ++ [Ipc.NEWLINE]) (hbody : Ipc.NEWLINE ∉ body)
    (hfits : body.length ≤ MAX_REPLY_FILE_BYTES)
    (hrefused : Refused w.reply.store timer doc.toReplyDocument at_.nowWall) :
    ∃ why : ReplyRejection, viaIpc parse cfg w claimed src at_ =
        w.reply.store.told claimed (some run) why.asStr at_.utc ∧
      (w.bad.Fresh (.bytes path body) ∧
          isUntouchedStub doc run (expectedOwner w.reply.store timer run) = false →
        viaFile parse cfg w timer path run body at_ =
          w.reply.store.told timer (some run) why.asStr at_.utc) ∧
      (¬(w.bad.Fresh (.bytes path body) ∧
          isUntouchedStub doc run (expectedOwner w.reply.store timer run) = false) →
        viaFile parse cfg w timer path run body at_ = w.reply.store) := by
  have hfst : (ingested cfg claimed doc body at_ w.reply).1 =
      (ingested cfg timer doc body at_ w.reply).1 := (ingested_alike hid w.reply).1
  rcases ingested_cases cfg timer doc body at_ hs
    with ⟨why, hwhy, hstore, -⟩ | ⟨-, htaken, -⟩
  swap
  · exact absurd hrefused htaken
  have hclaimed : (ingested cfg claimed doc body at_ w.reply).1 = .ok (.rejected why) :=
    hfst.trans hwhy
  have hkept : (ingested cfg claimed doc body at_ w.reply).2.store = w.reply.store := by
    rcases ingested_cases cfg claimed doc body at_ hs with ⟨_, -, hkept, -⟩ | ⟨hno, -⟩
    · exact hkept
    · exact absurd hclaimed (hno why)
  refine ⟨why, ?_, ?_⟩
  · rw [viaIpc_fits hsrc hbody hfits, (handleReplyFrame_store hparse).1 why hclaimed, hkept, hrun]
  rw [viaFile_fits hfits]
  cases hstub : isUntouchedStub doc run (expectedOwner w.reply.store timer run) with
  | true => exact ⟨fun h => absurd h.2 nofun, fun _ => handleBytes_stub hparse hstub⟩
  | false =>
    have hcondemns := (handleBytes_store path hparse hrun hstub).1 why hwhy
    refine ⟨fun h => ?_, fun h => ?_⟩
    · rw [hcondemns.fresh h.1, hstore]
    · rw [hcondemns.known fun hfresh => h ⟨hfresh, rfl⟩, hstore]

/-- One that is not is logged alike, but for the name. -/
theorem taken_stores (path : String) (hs : w.reply.store.Wf) (hparse : parse body = some doc)
    (hrun : doc.runId = some run) (hid : claimed.id = timer.id)
    (hsrc : src.rest = body ++ [Ipc.NEWLINE]) (hbody : Ipc.NEWLINE ∉ body)
    (hfits : body.length ≤ MAX_REPLY_FILE_BYTES)
    (htaken : ¬Refused w.reply.store timer doc.toReplyDocument at_.nowWall) :
    ∃ evs : List EventRecord, (∀ e ∈ evs, e.kind.isLifecycle = true) ∧
      (viaIpc parse cfg w claimed src at_).eventOutbox =
        w.reply.store.eventOutbox ++ evs.map (·.named claimed.name) ∧
      (viaFile parse cfg w timer path run body at_).eventOutbox =
        w.reply.store.eventOutbox ++ evs.map (·.named timer.name) ∧
      (viaIpc parse cfg w claimed src at_).runStates =
        (viaFile parse cfg w timer path run body at_).runStates ∧
      (evs = [] ↔
        Unlogged cfg w.reply.store timer doc.toReplyDocument (fnv1a64Hex body) at_) := by
  have halike : (ingested cfg claimed doc body at_ w.reply).1 =
      (ingested cfg timer doc body at_ w.reply).1 ∧ _ := ingested_alike hid w.reply
  obtain ⟨hfst, hrenamed, -⟩ := halike
  rcases ingested_cases cfg timer doc body at_ hs
    with ⟨_, -, -, hrefused⟩ | ⟨hno, -, hunlogged⟩
  · exact absurd hrefused htaken
  have hstub : isUntouchedStub doc run (expectedOwner w.reply.store timer run) = false := by
    apply Bool.eq_false_iff.mpr
    exact fun hstub => htaken (refused_of_stub hstub)
  rw [viaIpc_fits hsrc hbody hfits, viaFile_fits hfits,
    (handleReplyFrame_store hparse).2 (hfst ▸ hno),
    (handleBytes_store path hparse hrun hstub).2 hno]
  obtain ⟨evs, hevs, hclaimed, htimer⟩ := hrenamed
  have hbox := congrArg Store.eventOutbox htimer
  refine ⟨evs, fun e he => (hevs e he).1, hclaimed, hbox, ?_, ?_⟩
  · exact (congrArg Store.runStates htimer).symm
  · rw [← hunlogged, hbox, List.append_right_eq_self, List.map_eq_nil_iff]

end Transports

theorem filter_lifecycle {evs : List EventRecord} (h : ∀ e ∈ evs, e.kind.isLifecycle = true)
    (name : String) (base : List EventRecord) :
    (base ++ evs.map (·.named name)).filter (·.kind.isLifecycle) =
      base.filter (·.kind.isLifecycle) ++ evs.map (·.named name) := by
  have hall : (evs.map (·.named name)).filter (·.kind.isLifecycle) = evs.map (·.named name) := by
    apply List.filter_eq_self.mpr
    intro e he
    obtain ⟨e', he', rfl⟩ := List.mem_map.mp he
    exact h e' he'
  rw [List.filter_append, hall]

section Agree

variable {parse : List UInt8 → Option ReplyFileDocument} {cfg : ReplyConfig} {w : WatchState}
  {claimed timer : Timer} {path : String} {run : Uuid} {body : List UInt8}
  {doc : ReplyFileDocument} {at_ : Receipt} {src : Source UInt8}

/-- What the two leave, in each of the three cases. -/
theorem agree_oversize (hs : w.reply.store.Wf) (hsrc : src.rest = body ++ [Ipc.NEWLINE])
    (hbody : Ipc.NEWLINE ∉ body) (hlong : MAX_REPLY_FILE_BYTES < body.length) :
    (viaIpc parse cfg w claimed src at_).runStates =
      (viaFile parse cfg w timer path run body at_).runStates ∧
    (viaIpc parse cfg w claimed src at_).lifecycle =
      (viaFile parse cfg w timer path run body at_).lifecycle ∧
    ((viaIpc parse cfg w claimed src at_).eventOutbox =
        (viaFile parse cfg w timer path run body at_).eventOutbox ↔
      ¬w.bad.Fresh (.unread path body.length)) := by
  obtain ⟨hipc, hfresh, hknown⟩ := oversize_stores parse cfg claimed timer path run at_ hsrc hbody
    hlong
  rw [hipc]
  by_cases hnew : w.bad.Fresh (.unread path body.length)
  · rw [hfresh hnew, Store.told_runStates hs, Store.told_lifecycle hs]
    exact ⟨rfl, rfl, iff_of_false (Store.told_ne hs).symm fun hnot => hnot hnew⟩
  · rw [hknown hnew]
    exact ⟨rfl, rfl, iff_of_true rfl hnew⟩

theorem agree_refused (hs : w.reply.store.Wf) (hparse : parse body = some doc)
    (hrun : doc.runId = some run) (hid : claimed.id = timer.id)
    (hsrc : src.rest = body ++ [Ipc.NEWLINE]) (hbody : Ipc.NEWLINE ∉ body)
    (hfits : body.length ≤ MAX_REPLY_FILE_BYTES)
    (hrefused : Refused w.reply.store timer doc.toReplyDocument at_.nowWall) :
    (viaIpc parse cfg w claimed src at_).runStates =
      (viaFile parse cfg w timer path run body at_).runStates ∧
    (viaIpc parse cfg w claimed src at_).lifecycle =
      (viaFile parse cfg w timer path run body at_).lifecycle ∧
    ((viaIpc parse cfg w claimed src at_).eventOutbox =
        (viaFile parse cfg w timer path run body at_).eventOutbox ↔
      claimed.name = timer.name ∧ w.bad.Fresh (.bytes path body) ∧
        isUntouchedStub doc run (expectedOwner w.reply.store timer run) = false) := by
  obtain ⟨why, hipc, hfresh, hknown⟩ := refused_stores cfg path hs hparse hrun
    hid hsrc hbody hfits hrefused
  rw [hipc, Store.told_runStates hs, Store.told_lifecycle hs]
  by_cases hnew : w.bad.Fresh (.bytes path body) ∧
      isUntouchedStub doc run (expectedOwner w.reply.store timer run) = false
  · rw [hfresh hnew, Store.told_runStates hs, Store.told_lifecycle hs]
    refine ⟨rfl, rfl, fun heq => ⟨Store.told_outbox_inj hs heq, hnew⟩, fun h => ?_⟩
    rw [told_congr hid h.1]
  · rw [hknown hnew]
    exact ⟨rfl, rfl, iff_of_false (Store.told_ne hs) fun h => hnew h.2⟩

theorem agree_taken (hs : w.reply.store.Wf) (hparse : parse body = some doc)
    (hrun : doc.runId = some run) (hid : claimed.id = timer.id)
    (hsrc : src.rest = body ++ [Ipc.NEWLINE]) (hbody : Ipc.NEWLINE ∉ body)
    (hfits : body.length ≤ MAX_REPLY_FILE_BYTES)
    (htaken : ¬Refused w.reply.store timer doc.toReplyDocument at_.nowWall) :
    (viaIpc parse cfg w claimed src at_).runStates =
      (viaFile parse cfg w timer path run body at_).runStates ∧
    ((viaIpc parse cfg w claimed src at_).lifecycle =
        (viaFile parse cfg w timer path run body at_).lifecycle ↔
      claimed.name = timer.name ∨
        Unlogged cfg w.reply.store timer doc.toReplyDocument (fnv1a64Hex body) at_) ∧
    ((viaIpc parse cfg w claimed src at_).eventOutbox =
        (viaFile parse cfg w timer path run body at_).eventOutbox ↔
      claimed.name = timer.name ∨
        Unlogged cfg w.reply.store timer doc.toReplyDocument (fnv1a64Hex body) at_) := by
  obtain ⟨evs, hevs, hipc, hfile, hrows, hnil⟩ := taken_stores path hs hparse hrun hid
    hsrc hbody hfits htaken
  refine ⟨hrows, ?_, ?_⟩
  · unfold Store.lifecycle
    rw [hipc, hfile, filter_lifecycle hevs, filter_lifecycle hevs, List.append_cancel_left_eq,
      named_eq_iff, hnil]
  · rw [hipc, hfile, List.append_cancel_left_eq, named_eq_iff, hnil]

end Agree

/-- **The two transports of one reply**: the rows of the runs are the same;
the events of runs are the same unless the timer was renamed after the claim
and there is something to log; and the whole outbox is the same exactly in
`SameLines`.  What the socket gives is cut into its records, in whatever
chunks it comes. -/
theorem transports_agree_iff (parse : List UInt8 → Option ReplyFileDocument) (cfg : ReplyConfig) :
    (∀ (w : WatchState) (claimed timer : Timer) (path : String) (run : Uuid) (body : List UInt8)
      (doc : ReplyFileDocument) (at_ : Receipt) (src : Source UInt8),
      w.reply.store.Wf → parse body = some doc → doc.runId = some run → claimed.id = timer.id →
      src.rest = body ++ [Ipc.NEWLINE] → Ipc.NEWLINE ∉ body →
      (viaIpc parse cfg w claimed src at_).runStates =
        (viaFile parse cfg w timer path run body at_).runStates ∧
      ((viaIpc parse cfg w claimed src at_).lifecycle =
          (viaFile parse cfg w timer path run body at_).lifecycle ↔
        (body.length ≤ MAX_REPLY_FILE_BYTES →
          ¬Refused w.reply.store timer doc.toReplyDocument at_.nowWall →
          claimed.name = timer.name ∨
            Unlogged cfg w.reply.store timer doc.toReplyDocument (fnv1a64Hex body) at_)) ∧
      ((viaIpc parse cfg w claimed src at_).eventOutbox =
          (viaFile parse cfg w timer path run body at_).eventOutbox ↔
        SameLines cfg w claimed timer path run body doc at_)) ∧
    (∀ (src : Source UInt8) (handle : List UInt8 → Prog ReplyState BadStop Unit),
      Ipc.replyLoop handle src =
        forM (records Ipc.NEWLINE MAX_REPLY_FILE_BYTES src.rest) handle) := by
  refine ⟨?_, fun src handle => Ipc.replyLoop_eq handle src⟩
  intro w claimed timer path run body doc at_ src hs hparse hrun hid hsrc hbody
  by_cases hlong : MAX_REPLY_FILE_BYTES < body.length
  · have hnot : ¬body.length ≤ MAX_REPLY_FILE_BYTES := Nat.not_le.mpr hlong
    obtain ⟨hrows, hlines, hbox⟩ := agree_oversize hs hsrc hbody hlong
    refine ⟨hrows, iff_of_true hlines fun hfits => absurd hfits hnot, hbox.trans ?_⟩
    exact ⟨fun h => ⟨fun _ => h, fun hfits => absurd hfits hnot, fun hfits => absurd hfits hnot⟩,
      fun h => h.oversize hlong⟩
  have hfits : body.length ≤ MAX_REPLY_FILE_BYTES := Nat.not_lt.mp hlong
  by_cases hrefused : Refused w.reply.store timer doc.toReplyDocument at_.nowWall
  · obtain ⟨hrows, hlines, hbox⟩ := agree_refused hs hparse hrun hid hsrc hbody hfits hrefused
    refine ⟨hrows, iff_of_true hlines fun _ hnot => absurd hrefused hnot, hbox.trans ?_⟩
    exact ⟨fun h => ⟨fun h => absurd h hlong, fun _ _ => h, fun _ hnot => absurd hrefused hnot⟩,
      fun h => h.refused hfits hrefused⟩
  · obtain ⟨hrows, hlines, hbox⟩ := agree_taken hs hparse hrun hid hsrc hbody hfits hrefused
    refine ⟨hrows, hlines.trans ⟨fun h _ _ => h, fun h => h hfits hrefused⟩, hbox.trans ?_⟩
    exact ⟨fun h => ⟨fun h => absurd h hlong, fun _ h => absurd h hrefused, fun _ _ => h⟩,
      fun h => h.taken hfits hrefused⟩

section Sample

attribute [local instance] Calendar.utcOnly

/-- The timer of a run that was just fired has got another name. -/
def ReplyState.renamed : ReplyState :=
  Commit.after .sample (.updateTimer
    { id := ⟨0⟩, expectedRevision := 1, patch := { name := some "renamed" } } (61 * NS)) .fired

def Timer.renamed : Timer := (ReplyState.renamed.store.getTimer ⟨0⟩).getD (.sample .skip)

def Receipt.sample : Receipt :=
  { nowWall := 62 * NS, monoNow := 62 * NS, utc := 62 * NS, stamp := "1970-01-01T00:01:02Z" }

theorem wf_renamed : ReplyState.renamed.store.Wf :=
  Commit.wf (Commit.wf (Commit.wf (Commit.wf Store.wf_empty)))

/-- A reply to it leaves the same rows, and is logged under the one name or
the other. -/
theorem transports_agree_renamed :
    (viaIpc parseSample FireConfig.sample.reply { reply := .renamed } (.sample .skip)
        ⟨completedFile ++ [Ipc.NEWLINE], []⟩ .sample).runStates =
      (viaFile parseSample FireConfig.sample.reply { reply := .renamed } .renamed "reply" ⟨1⟩
        completedFile .sample).runStates :=
  ((transports_agree_iff parseSample FireConfig.sample.reply).1 { reply := .renamed }
    (.sample .skip) .renamed "reply" ⟨1⟩ completedFile completedReply .sample
    ⟨completedFile ++ [Ipc.NEWLINE], []⟩ wf_renamed parseSample_completedFile rfl
    (by decide +kernel) (List.append_nil _) (by decide +kernel)).1

/-- **The name is the one of the claim** in what the socket logs. -/
theorem not_transports_agree :
    ¬∀ (parse : List UInt8 → Option ReplyFileDocument) (cfg : ReplyConfig) (w : WatchState)
      (claimed timer : Timer) (path : String) (run : Uuid) (body : List UInt8)
      (doc : ReplyFileDocument) (at_ : Receipt) (src : Source UInt8),
      w.reply.store.Wf → w.reply.store.getTimer timer.id = some timer → parse body = some doc →
      doc.runId = some run → claimed.id = timer.id → src.rest = body ++ [Ipc.NEWLINE] →
      Ipc.NEWLINE ∉ body →
      (viaIpc parse cfg w claimed src at_).lifecycle =
        (viaFile parse cfg w timer path run body at_).lifecycle := by
  intro h
  have hsame := h parseSample FireConfig.sample.reply { reply := .renamed } (.sample .skip)
    .renamed "reply" ⟨1⟩ completedFile completedReply .sample
    ⟨completedFile ++ [Ipc.NEWLINE], []⟩ wf_renamed (by decide +kernel) parseSample_completedFile
    rfl (by decide +kernel) (List.append_nil _) (by decide +kernel)
  rw [viaIpc_fits (List.append_nil _) (by decide +kernel) (by decide +kernel),
    viaFile_fits (by decide +kernel)] at hsame
  have hnames := congrArg (List.map fun e => e.timerName) hsame
  revert hnames
  decide +kernel

end Sample

end Bellman

/-
Bellman/Watcher.lean

The watcher of the reply files, as far as one file goes.

What a poll finds at the path of a reply is the stub that was written for the
app, or a reply, or something to be condemned:

    not a file, or too long     by what is seen of it, at once
    bytes that do not parse     when they are seen again after a while
    a reply that is refused     at once

What is condemned gets an artifact in the quarantine, and an event if the
artifact is new.  The tracker keeps for each path which bytes did not parse;
it is memory, and the artifact and the event are made one after the other.

Which replies are there is not asked here: the tree of folders is left out,
and so is what is written to `status.json` of a reply that was taken in.
-/
import Bellman.Folders
import Bellman.Quarantine

namespace Bellman

open ProgramLogic Prog ReplyM

/-! ### The state -/

def DEFAULT_DEBOUNCE : Int := 200 * 1000000

/-- The bytes at a path that did not parse, and since when. -/
structure InvalidEntry where
  digest : String
  since : Int
  condemned : Bool
  deriving Repr, DecidableEq

/-- The store with the memory of the engine, the quarantine, and the tracker,
in which each path has at most one entry. -/
structure WatchState where
  reply : ReplyState := {}
  bad : BadDir := fun _ => none
  tracker : List (String × InvalidEntry) := []

namespace WatchState

def tracked (w : WatchState) (path : String) : Option InvalidEntry :=
  (w.tracker.find? (·.1 == path)).map Prod.snd

def forget (w : WatchState) (path : String) : WatchState :=
  { w with tracker := w.tracker.filter fun e => e.1 ≠ path }

def track (w : WatchState) (path : String) (entry : InvalidEntry) : WatchState :=
  { w with tracker := w.tracker.filter (fun e => e.1 ≠ path) ++ [(path, entry)] }

end WatchState

abbrev WatchM (α : Type) : Type := Prog WatchState BadStop α

/-- What the clocks show at the receipt of a reply; `stamp` is the time in the
sidecar of an artifact. -/
structure Receipt where
  nowWall : Int
  monoNow : Int
  utc : Int
  stamp : String

/-- What comes of the accesses of one poll. -/
structure PollLuck where
  lock : AccessLuck := .fine
  files : QuarantineLuck := {}
  commit : AccessLuck := .fine
  log : AccessLuck := .fine
  deriving Repr, DecidableEq

/-- Whether a failed access is looked at; one that the process dies of is
not. -/
def tryIo {σ α : Type} (m : Prog σ BadStop α) : Prog σ BadStop (Option α) :=
  tryCatch (some <$> m) fun
    | .io => return none
    | .dies => throw .dies

def onReply {α : Type} (m : Prog ReplyState BadStop α) : WatchM α :=
  zoom WatchState.reply (fun r w => { w with reply := r }) m

def onBad {α : Type} (m : BadM α) : WatchM α :=
  zoom WatchState.bad (fun bad w => { w with bad := bad }) m

/-! ### The engine, as transports call it -/

/-- `ingest`: nothing comes of it when the store fails, and a panic ends the
thread. -/
def takeIn (l : AccessLuck) (cfg : ReplyConfig) (timer : Timer) (doc : ReplyDocument)
    (digest : String) (at_ : Receipt) : Prog ReplyState BadStop (Option IngestOutcome) :=
  match l with
  | .fails => return none
  | .dies => throw .dies
  | .fine => do
    match ← mapError (fun _ => .dies)
        (Prog.attempt (ingest cfg timer doc digest at_.nowWall at_.monoNow at_.utc)) with
    | .ok out => return some out
    | .error (.error _) => return none
    | .error (.panic _) => throw .dies

/-- `log_rejection`, a transaction of its own. -/
def tellRejection (l : AccessLuck) (timer : Timer) (runId : Option Uuid) (reason : String)
    (at_ : Receipt) : Prog ReplyState BadStop Unit :=
  bestEffort l (mapError (fun _ => .dies) (onStore (logRejection timer runId reason at_.utc)))

/-! ### Condemning -/

namespace Watcher

/-- `quarantine_locked`. -/
def quarantineLocked (l : PollLuck) (r : Rejected) (note : BadNote) : WatchM (Option Bool) :=
  tryIo do
    access l.lock (return ())
    let out ← onBad (r.quarantine l.files note)
    return out.created

/-- An artifact, and one event for it if it is new. -/
def condemn (l : PollLuck) (r : Rejected) (timer : Timer) (runId : Uuid) (reason : String)
    (at_ : Receipt) : WatchM Unit := do
  let detail : Json := .obj
    [("run_id", .str (String.ofList runId.hyphenated)),
      ("timer_id", .str (String.ofList timer.id.hyphenated))]
  match ← quarantineLocked l r { reason, detail, quarantinedAt := at_.stamp } with
  | some true => onReply (tellRejection l.log timer (some runId) reason at_)
  | _ => return ()

/-- `condemn_bytes`. -/
def condemnBytes (l : PollLuck) (timer : Timer) (path : String) (runId : Uuid)
    (bytes : List UInt8) (reason : String) (at_ : Receipt) : WatchM Unit :=
  condemn l (.bytes path bytes) timer runId reason at_

/-- `condemn_unread`. -/
def condemnUnread (l : PollLuck) (timer : Timer) (path : String) (runId : Uuid)
    (observedLen : Nat) (reason : String) (at_ : Receipt) : WatchM Unit :=
  condemn l (.unread path observedLen) timer runId reason at_

/-- `track_invalid`. -/
def trackInvalid (l : PollLuck) (timer : Timer) (path : String) (runId : Uuid)
    (bytes : List UInt8) (digest : String) (at_ : Receipt) : WatchM Unit := do
  match (← get).tracked path with
  | some entry =>
    if entry.digest = digest then
      if entry.condemned then return ()
      else if DEFAULT_DEBOUNCE ≤ at_.nowWall - entry.since then
        condemnBytes l timer path runId bytes "invalid JSON" at_
        -- Whether the artifact was made is not looked at.
        modify fun w => w.track path { entry with condemned := true }
      else return ()
    else modify fun w => w.track path { digest, since := at_.nowWall, condemned := false }
  | none => modify fun w => w.track path { digest, since := at_.nowWall, condemned := false }

section

-- The JSON parser of reply documents.
variable (parse : List UInt8 → Option ReplyFileDocument) (cfg : ReplyConfig)

/-- `handle_bytes`. -/
def handleBytes (l : PollLuck) (timer : Timer) (path : String) (fileRunId : Uuid)
    (bytes : List UInt8) (at_ : Receipt) : WatchM Unit := do
  let digest := fnv1a64Hex bytes
  match parse bytes with
  | none => trackInvalid l timer path fileRunId bytes digest at_
  | some doc =>
    modify fun w => w.forget path
    let owner := expectedOwner (← get).reply.store timer fileRunId
    if isUntouchedStub doc fileRunId owner then return ()
    else if doc.runId.isSome ∧ doc.runId ≠ some fileRunId then
      condemnBytes l timer path fileRunId bytes "run_id does not match the reply filename" at_
    else
      match ← onReply (takeIn l.commit cfg timer doc.toReplyDocument digest at_) with
      | some (.rejected why) => condemnBytes l timer path fileRunId bytes why.asStr at_
      -- A reply to a run that is no longer current is removed.
      | _ => return ()

/-- What `poll_timer` does with one reply file. -/
def pollFile (l : PollLuck) (timer : Timer) (path : String) (fileRunId : Uuid) (file : ReplyPath)
    (at_ : Receipt) : WatchM Unit :=
  match readReplyFile file with
  | .ok .missing => return ()
  | .ok (.oversize len) => condemnUnread l timer path fileRunId len "oversize" at_
  | .ok (.special kind) => condemnUnread l timer path fileRunId 0 kind at_
  | .ok (.bytes bytes) => handleBytes parse cfg l timer path fileRunId bytes at_
  | .error _ => return ()

end

end Watcher

/-! ### New artifacts -/

section New

variable {bad : BadDir} {r : Rejected} {payload sidecar : BadFile} {note : BadNote}

/-- A call for an artifact makes one. -/
def BadDir.Fresh (bad : BadDir) : Rejected → Prop
  | r@(.bytes ..) => bad r.payload.tmp = none ∧ bad r.sidecar.tmp = none ∧ bad r.payload = none
  | r@(.unread ..) => bad r.sidecar.tmp = none ∧ bad r.sidecar = none

theorem pairCall_created (hp : bad r.payload.tmp = none) (hs : bad r.sidecar.tmp = none) :
    wp (pairCall {} r payload sidecar)
      (fun out _ => out.created = true ↔ bad r.payload = none) (fun _ _ => False) bad := by
  unfold pairCall access
  rw [wp_bind, wp_pure, wp_bind]
  refine writeTmp_fine rfl rfl hp ?_
  rw [wp_bind]
  refine writeTmp_fine rfl rfl ?_ ?_
  · rw [Function.update_of_ne (sidecar_ne_payload r), hs]
  have hptmp : Function.update (Function.update bad r.payload.tmp (some payload)) r.sidecar.tmp
      (some sidecar) r.payload.tmp = some payload := by
    rw [Function.update_of_ne (payload_ne_sidecar r), Function.update_self]
  have hsame : Function.update (Function.update bad r.payload.tmp (some payload)) r.sidecar.tmp
      (some sidecar) r.payload = bad r.payload := by
    rw [Function.update_of_ne (tmp_ne rfl).symm, Function.update_of_ne (tmp_ne rfl).symm]
  rw [wp_bind]
  refine installNoReplace_fine rfl rfl hptmp (fun hnone bad₂ _ _ hrest => ?_)
    fun hsome bad₂ _ _ => ?_
  · rw [hsame] at hnone
    rw [if_pos rfl, wp_bind]
    have hstmp : bad₂ r.sidecar.tmp = some sidecar := by
      rw [hrest r.sidecar.tmp nofun nofun, Function.update_self]
    refine installNoReplace_fine rfl rfl hstmp (fun _ _ _ _ _ => ?_) fun _ _ _ _ => ?_ <;>
      exact iff_of_true rfl hnone
  · rw [hsame] at hsome
    refine iff_of_false Bool.false_ne_true fun hnone => ?_
    rw [hnone] at hsome
    cases hsome

theorem soleCall_created (hs : bad r.sidecar.tmp = none) :
    wp (soleCall {} r sidecar)
      (fun out _ => out.created = true ↔ bad r.sidecar = none) (fun _ _ => False) bad := by
  unfold soleCall access
  rw [wp_bind, wp_pure, wp_bind]
  refine writeTmp_fine rfl rfl hs ?_
  have hsame : Function.update bad r.sidecar.tmp (some sidecar) r.sidecar = bad r.sidecar :=
    Function.update_of_ne (tmp_ne rfl).symm ..
  rw [wp_bind]
  refine installNoReplace_fine rfl rfl (Function.update_self ..) (fun hnone _ _ _ _ => ?_)
    fun hsome _ _ _ => ?_
  · exact iff_of_true rfl (hsame.symm.trans hnone)
  · rw [hsame] at hsome
    refine iff_of_false Bool.false_ne_true fun hnone => ?_
    rw [hnone] at hsome
    cases hsome

/-- **A call that is not cut short** makes an artifact exactly if nothing of it
is there. -/
theorem quarantine_created (r : Rejected) : wp (r.quarantine {} note)
    (fun out _ => out.created = true ↔ bad.Fresh r) (fun _ _ => ¬bad.Fresh r) bad := by
  cases r with
  | bytes source body =>
    rw [quarantine_bytes]
    by_cases htemps : bad (Rejected.bytes source body).payload.tmp = none ∧
        bad (Rejected.bytes source body).sidecar.tmp = none
    · refine wp_mono (pairCall_created htemps.1 htemps.2) (fun out _ h => ?_) fun _ _ h => h.elim
      exact h.trans ⟨fun hnone => ⟨htemps.1, htemps.2, hnone⟩, fun h => h.2.2⟩
    · refine wp_mono (pairCall_blocked ?_) (fun _ _ h => h.elim) fun _ _ _ h =>
        htemps ⟨h.1, h.2.1⟩
      rw [← Option.ne_none_iff_isSome, ← Option.ne_none_iff_isSome, ← not_and_or]
      exact htemps
  | unread source len =>
    rw [quarantine_unread]
    by_cases htemp : bad (Rejected.unread source len).sidecar.tmp = none
    · refine wp_mono (soleCall_created htemp) (fun out _ h => ?_) fun _ _ h => h.elim
      exact h.trans ⟨fun hnone => ⟨htemp, hnone⟩, fun h => h.2⟩
    · refine wp_mono (soleCall_blocked (Option.ne_none_iff_isSome.mp htemp))
        (fun _ _ h => h.elim) fun _ _ _ h => htemp h.1

end New

/-! ### What is logged of a condemned reply -/

section Condemn

variable {w : WatchState} {timer : Timer} {runId : Uuid} {reason : String} {at_ : Receipt}

@[simp] theorem wp_onReply {α : Type} {m : Prog ReplyState BadStop α} {Q : α → WatchState → Prop}
    {E : BadStop → WatchState → Prop} : wp (onReply m) Q E w =
      wp m (fun a r => Q a { w with reply := r }) (fun e r => E e { w with reply := r }) w.reply :=
  wp_zoom

@[simp] theorem wp_onBad {α : Type} {m : BadM α} {Q : α → WatchState → Prop}
    {E : BadStop → WatchState → Prop} : wp (onBad m) Q E w =
      wp m (fun a bad => Q a { w with bad := bad }) (fun e bad => E e { w with bad := bad })
        w.bad :=
  wp_zoom

/-- The store with the rejection told. -/
def Store.told (s : Store) (timer : Timer) (runId : Option Uuid) (reason : String) (utc : Int) :
    Store := ((logRejection timer runId reason utc).run s).2

theorem wp_tellRejection {r : ReplyState} {runId : Option Uuid} {Q : Unit → ReplyState → Prop}
    {E : BadStop → ReplyState → Prop} : wp (tellRejection .fine timer runId reason at_) Q E r =
      Q () { r with store := r.store.told timer runId reason at_.utc } := rfl

/-- What becomes of the store: the rejection is told if the artifact is new. -/
structure Condemns (w : WatchState) (r : Rejected) (timer : Timer) (runId : Uuid)
    (reason : String) (at_ : Receipt) (w' : WatchState) : Prop where
  fresh : w.bad.Fresh r →
    w'.reply.store = w.reply.store.told timer (some runId) reason at_.utc
  known : ¬w.bad.Fresh r → w'.reply.store = w.reply.store

/-- **What is condemned is logged if its artifact is new.** -/
theorem wp_condemn (r : Rejected) : wp (Watcher.condemn {} r timer runId reason at_)
    (fun _ => Condemns w r timer runId reason at_)
    (fun _ => Condemns w r timer runId reason at_) w := by
  unfold Watcher.condemn Watcher.quarantineLocked tryIo access
  rw [wp_bind, wp_tryCatch, wp_map, wp_bind, wp_pure, wp_bind, wp_onBad]
  refine wp_mono (quarantine_created r) (fun out bad hcreated => ?_) fun e bad hnot => ?_
  · rw [wp_pure]
    cases hout : out.created with
    | true =>
      exact ⟨fun _ => rfl, fun hnot => absurd (hcreated.mp hout) hnot⟩
    | false =>
      refine ⟨fun hfresh => ?_, fun _ => rfl⟩
      rw [hcreated.mpr hfresh] at hout
      cases hout
  · cases e with
    | io => exact ⟨fun hfresh => absurd hfresh hnot, fun _ => rfl⟩
    | dies => exact ⟨fun hfresh => absurd hfresh hnot, fun _ => rfl⟩

end Condemn

end Bellman

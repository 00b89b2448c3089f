/-
Bellman/Truth.lean

What the calendar says has happened, and what it says will.

Before the present instant only what was recorded is shown; after it, what
the schedules say.  The records are events and claims of runs.  Those of one
run belong together, and so do those of one timer and one second, so they are
gathered in buckets that are found by two indexes:

    byRun        run             → bucket
    byTimerSec   timer, second   → bucket

What is found there is relied upon (`Records.Wf`).

Main result: when the truth window aborts (`faultless_buildTruthWindow_iff`),
and with it the calendar as a whole (`neverPanics_iff`).
-/
import Bellman.Lib.Rows
import Bellman.Models
import Bellman.Snapshot
import Mathlib.Logic.Function.Basic

namespace Bellman

open ProgramLogic

inductive TruthSource where
  | recorded
  | upcoming
  deriving Repr, DecidableEq

inductive OutcomeLabel where
  | delivered
  | failed
  | skipped
  | late
  | coalesced
  | unknown
  | upcoming
  deriving Repr, DecidableEq

structure TruthEntry where
  timerId : Option Text
  runId : Option Text
  name : Text
  scheduledFor : Int
  date : Text
  time : Text
  timeSecs : Nat
  source : TruthSource
  outcome : OutcomeLabel
  kind : Option String
  enabled : Option Bool
  deriving Repr, DecidableEq

structure TruthWindow where
  from_ : Text
  to_ : Text
  timezone : String
  nowUtc : Int
  entries : List TruthEntry
  warnings : List String
  deriving Repr, DecidableEq

structure TruthBuildOptions where
  from_ : Int
  to_ : Int
  timezone : String
  nowUtc : Int
  caps : Snapshot.CalendarCaps := {}
  deriving Repr, DecidableEq

namespace Truth

open Windows Snapshot

/-! ### Buckets -/

/-- The key of a bucket: `run:…`, `ts:…:…` or `anon:…`. -/
inductive BucketId where
  | run (runId : Text)
  | ts (timerId : Text) (sec : Int)
  | anon (nanos : Int)
  deriving Repr, DecidableEq

structure RecordBucket where
  timerId : Option Text
  runId : Option Text
  scheduledFor : Int
  name : Option Text := none
  kinds : List RunState := []
  hasOutcomeEvents : Bool := false
  deriving Repr, DecidableEq

/-- The buckets and their indexes. -/
structure Records where
  buckets : List (BucketId × RecordBucket) := []
  byRun : Text → Option BucketId := fun _ => none
  byTimerSec : Text × Int → Option BucketId := fun _ => none

namespace Records

def insert (r : Records) (bid : BucketId) (b : RecordBucket) : Records :=
  { r with buckets := r.buckets.filter (·.1 ≠ bid) ++ [(bid, b)] }

def modify (r : Records) (bid : BucketId) (f : RecordBucket → RecordBucket) : Records :=
  { r with buckets := r.buckets.map fun p => if p.1 = bid then (p.1, f p.2) else p }

def get? (r : Records) (bid : BucketId) : Option RecordBucket :=
  (r.buckets.find? (·.1 == bid)).map Prod.snd

def noteRun (r : Records) (runId : Option Text) (bid : BucketId) : Records :=
  match runId with
  | some rid => { r with byRun := Function.update r.byRun rid (some bid) }
  | none => r

def noteTimer (r : Records) (timerId : Option Text) (sec : Int) (bid : BucketId) : Records :=
  match timerId with
  | some tid => { r with byTimerSec := Function.update r.byTimerSec (tid, sec) (some bid) }
  | none => r

def values (r : Records) : List RecordBucket := r.buckets.map Prod.snd

end Records

/-- `timestamp`. -/
def timestamp (t : Int) : Int := t / NS

/-- `timestamp_nanos_opt`. -/
def timestampNanosOpt (t : Int) : Option Int := Occurrence.checkedI64 t

def newBucketId (timerId runId : Option Text) (when : Int) : BucketId :=
  match runId, timerId with
  | some rid, _ => .run rid
  | none, some tid => .ts tid (timestamp when)
  | none, none => .anon ((timestampNanosOpt when).getD (timestamp when))

/-- `resolve_or_create_bucket`. -/
def resolveOrCreateBucket (r : Records) (timerId runId : Option Text) (when : Int) :
    BucketId × Records :=
  let sec := timestamp when
  match runId.bind r.byRun with
  | some bid => (bid, r.noteTimer timerId sec bid)
  | none =>
    match timerId.bind fun tid => r.byTimerSec (tid, sec) with
    -- Where no run is named, neither of the two changes anything.
    | some bid => (bid, (r.noteRun runId bid).modify bid
        fun b => { b with runId := b.runId.or runId })
    | none =>
      let bid := newBucketId timerId runId when
      let bucket : RecordBucket := { timerId, runId, scheduledFor := when }
      (bid, ((r.insert bid bucket).noteRun runId bid).noteTimer timerId sec bid)

/-! ### The records of a window -/

def isOutcomeEvent : RunState → Bool
  | .fired | .firedLate | .skippedMisfire | .coalesced | .wakeDelivered | .wakeFailed | .noAck =>
    true
  | _ => false

/-- Before the present instant and within the window. -/
def IsPast (w : Span) (when : Int) : Prop := when < w.after ∧ w.start ≤ when ∧ when < w.end_

instance (w : Span) (when : Int) : Decidable (IsPast w when) :=
  inferInstanceAs (Decidable (_ ∧ _ ∧ _))

/-- When an event took place. -/
def eventWhen (ev : EventRecord) : Int := ev.scheduledFor.getD ev.loggedAt

/-- What an event adds to its bucket. -/
def addEvent (ev : EventRecord) (b : RecordBucket) : RecordBucket where
  timerId := b.timerId.or (ev.timerId.map Uuid.hyphenated)
  runId := b.runId.or (ev.runId.map Uuid.hyphenated)
  scheduledFor := if eventWhen ev < b.scheduledFor then eventWhen ev else b.scheduledFor
  name := b.name.or ((ev.timerName.map String.toList).filter (· ≠ []))
  kinds := b.kinds ++ [ev.kind]
  hasOutcomeEvents := true

/-- The turn of the loop for an event. -/
def recordEvent (w : Span) (r : Records) (ev : EventRecord) : Except Panic Records :=
  if isOutcomeEvent ev.kind ∧ IsPast w (eventWhen ev) then
    let (bid, r) := resolveOrCreateBucket r (ev.timerId.map Uuid.hyphenated)
      (ev.runId.map Uuid.hyphenated) (eventWhen ev)
    match r.get? bid with
    | some _ => .ok (r.modify bid (addEvent ev))
    | none => .error (.expected "bucket just ensured")
  else .ok r

/-- The turn of the loop for a claim. -/
def recordClaim (w : Span) (r : Records) (claim : RunClaim) : Except Panic Records :=
  if claim.outcome = some .wakeDelivered ∧ IsPast w claim.scheduledFor then
    let rid := claim.runId.hyphenated
    let tid := claim.timerId.hyphenated
    let sec := timestamp claim.scheduledFor
    match (r.byRun rid).or (r.byTimerSec (tid, sec)) with
    | some bid =>
      match r.get? bid with
      | some b =>
        let r := r.modify bid
          fun b => { b with runId := b.runId.or (some rid), timerId := b.timerId.or (some tid) }
        let r := if b.runId = none then r.noteRun (some rid) bid else r
        .ok (r.noteTimer (some tid) sec bid)
      | none => .error (.expected "indexed bucket")
    | none =>
      let bid := .run rid
      let bucket : RecordBucket :=
        { timerId := some tid, runId := some rid, scheduledFor := claim.scheduledFor }
      .ok (((r.insert bid bucket).noteRun (some rid) bid).noteTimer (some tid) sec bid)
  else .ok r

/-- The two loops. -/
def recordsOf (w : Span) (events : List EventRecord) (claims : List RunClaim) :
    Except Panic Records := do
  let r ← events.foldlM (recordEvent w) {}
  claims.foldlM (recordClaim w) r

/-! ### Recorded entries -/

def outcomeFromKinds (kinds : List RunState) : OutcomeLabel :=
  if kinds.any fun k => k = .wakeFailed ∨ k = .noAck then .failed
  else if kinds.any (· = .skippedMisfire) then .skipped
  else if kinds.any (· = .coalesced) then .coalesced
  else if kinds.any (· = .firedLate) then .late
  else .delivered

def outcomeFromBucket (b : RecordBucket) : OutcomeLabel :=
  if b.hasOutcomeEvents = false ∨ b.kinds = [] then .unknown else outcomeFromKinds b.kinds

structure DedupeKey where
  timerId : Text
  scheduledNanos : Int
  deriving Repr, DecidableEq

def scheduledNanos (t : Int) : Int := (timestampNanosOpt t).getD 0

def dedupeKey (b : RecordBucket) : Option DedupeKey :=
  b.timerId.map fun tid => ⟨tid, scheduledNanos b.scheduledFor⟩

def shortId (id : Text) : Except Panic Text :=
  if 8 < byteLen id then (sliceTo 8 id).map (· ++ ['…']) else .ok id

/-- The name that was recorded, or a part of the id. -/
def bucketName (b : RecordBucket) : Except Panic Text :=
  match b.name, b.timerId with
  | some n, _ => .ok n
  | none, some tid => shortId tid
  | none, none => .ok "(unknown)".toList

/-- `{:02}:{:02}:{:02}` of the hour, the minute and the second. -/
def fmtHourMinuteSecond (l : Int) : Text :=
  fmtHourMinute l ++ ':' :: numeral 2 (secondOfDay l % 60)

/-- The entry of a bucket, with the day it is shown on. -/
def recordedEntry (z : Zone) (b : RecordBucket) (date : Int) : Except Panic TruthEntry := do
  let name ← bucketName b
  return {
    timerId := b.timerId
    runId := b.runId
    name
    scheduledFor := b.scheduledFor
    date := fmtDate date
    time := fmtHourMinuteSecond (z.toLocal b.scheduledFor)
    timeSecs := secondOfDay (z.toLocal b.scheduledFor)
    source := .recorded
    outcome := outcomeFromBucket b
    kind := none
    enabled := none }

/-- The loop over the buckets: their entries, and what these cover. -/
def recordedPart (w : Span) (buckets : List RecordBucket) :
    Except Panic (List TruthEntry × List DedupeKey) := do
  let dated ← buckets.mapM fun b => do return (b, ← dateNaive w.zone b.scheduledFor)
  let shown := dated.filter fun p => w.from_ ≤ p.2 ∧ p.2 ≤ w.to_
  let entries ← shown.mapM fun p => recordedEntry w.zone p.1 p.2
  return (entries, shown.filterMap fun p => dedupeKey p.1)

/-! ### Upcoming entries -/

/-- A recorded entry covers the fire: the same instant, or the same second. -/
def covered (keys : List DedupeKey) (id : Text) (fire : Int) : Bool :=
  keys.any fun k => k.timerId = id ∧ (k.scheduledNanos = scheduledNanos fire ∨
    k.scheduledNanos.tdiv NS = (scheduledNanos fire).tdiv NS)

def upcomingEntry (z : Zone) (task : ExpandableTask) (row : Int × Int) : TruthEntry where
  timerId := some task.id
  runId := none
  name := task.name
  scheduledFor := row.1
  date := fmtDate row.2
  time := fmtHourMinuteSecond (z.toLocal row.1)
  timeSecs := secondOfDay (z.toLocal row.1)
  source := .upcoming
  outcome := .upcoming
  kind := some task.occurrence.kind.kindLabel
  enabled := some task.enabled

def sourceStr : TruthSource → Text
  | .recorded => "recorded".toList
  | .upcoming => "upcoming".toList

/-- What entries are sorted by. -/
def truthKey (e : TruthEntry) : Text ×ₗ Nat ×ₗ Text ×ₗ Text ×ₗ Text :=
  toLex (e.date, toLex (e.timeSecs, toLex (e.name, toLex (e.timerId.getD [], sourceStr e.source))))

def TruthLe (a b : TruthEntry) : Prop := truthKey a ≤ truthKey b

instance : DecidableRel TruthLe := fun a b => inferInstanceAs (Decidable (truthKey a ≤ truthKey b))

section

variable [Calendar]

/-- The rows of a task: its fires after the present instant, sifted, without
those that are covered. -/
def upcomingRows (w : Span) (keys : List DedupeKey) (cap : Nat) (task : ExpandableTask) :
    Except Panic (List (Int × Int)) := do
  let _ ← task.occurrence.timezone
  let fires ← task.occurrence.preview cap w.after
  let rows ← windowRows w.zone w.from_ w.to_ w.start w.end_ (fires.filter (w.after < ·))
  return rows.filter fun row => ¬covered keys task.id row.1

/-- `build_truth_window`; `arrange` is the order in which a hash map hands
out its values. -/
def buildTruthWindow (arrange : List RecordBucket → List RecordBucket)
    (tasks : List ExpandableTask) (events : List EventRecord) (claims : List RunClaim)
    (opts : TruthBuildOptions) : Built TruthWindow :=
  if opts.to_ < opts.from_ then rangeError opts.from_ opts.to_
  else do
    let z ← parseTz opts.timezone
    let (start, end_) ← localRangeBounds z opts.from_ opts.to_
    let w : Span := ⟨z, opts.from_, opts.to_, start, end_, opts.nowUtc⟩
    let records ← recordsOf w events claims
    let (recorded, keys) ← recordedPart w (arrange records.values)
    let (considered, warnings) := capTasks opts.caps tasks
    let (entries, warnings) ←
      expandTasks (upcomingRows w keys) opts.caps (upcomingEntry z) considered recorded warnings
    return {
      from_ := fmtDate opts.from_
      to_ := fmtDate opts.to_
      timezone := opts.timezone
      nowUtc := opts.nowUtc
      entries := entries.insertionSort TruthLe
      warnings }

end

/-! ### The indexes -/

/-- The id of a timer or a run. -/
def IsUuid (id : Option Text) : Prop := ∀ s, id = some s → ∃ u : Uuid, s = u.hyphenated

theorem isUuid_map (u : Option Uuid) : IsUuid (u.map Uuid.hyphenated) := by
  intro s hs
  obtain ⟨u, -, rfl⟩ := Option.map_eq_some_iff.mp hs
  exact ⟨u, rfl⟩

theorem isUuid_or {a b : Option Text} (ha : IsUuid a) (hb : IsUuid b) : IsUuid (a.or b) := by
  intro s hs
  rcases Option.or_eq_some_iff.mp hs with h | ⟨-, h⟩
  · exact ha s h
  · exact hb s h

namespace Records

variable {r : Records} {bid k : BucketId} {b : RecordBucket} {f : RecordBucket → RecordBucket}
  {timerId runId : Option Text} {sec : Int}

theorem get?_insert : (r.insert bid b).get? k = if k = bid then some b else r.get? k := by
  unfold get? insert
  rw [Rows.find?_put Prod.fst (bid, b) k, apply_ite (Option.map Prod.snd)]
  rfl

theorem get?_modify :
    (r.modify bid f).get? k = (r.get? k).map fun b => if k = bid then f b else b := by
  have hkey : ∀ p : BucketId × RecordBucket, (if p.1 = bid then (p.1, f p.2) else p).1 = p.1 := by
    intro p
    split <;> rfl
  unfold get? modify
  rw [Rows.find?_map hkey, Option.map_map, Option.map_map]
  refine Option.map_congr fun p hp => ?_
  obtain rfl := (Rows.key_of_find? Prod.fst hp).2
  show Prod.snd (if p.1 = bid then _ else _) = if p.1 = bid then _ else _
  split <;> rfl

@[simp] theorem get?_noteRun : (r.noteRun runId bid).get? k = r.get? k := by
  cases runId <;> rfl

@[simp] theorem get?_noteTimer : (r.noteTimer timerId sec bid).get? k = r.get? k := by
  cases timerId <;> rfl

theorem byRun_noteRun {rid rid' : Text} :
    (r.noteRun (some rid) bid).byRun rid' = if rid' = rid then some bid else r.byRun rid' :=
  Function.update_apply ..

theorem byTimerSec_noteTimer {tid : Text} {key : Text × Int} :
    (r.noteTimer (some tid) sec bid).byTimerSec key =
      if key = (tid, sec) then some bid else r.byTimerSec key :=
  Function.update_apply ..

/-- What the indexes name is there, and the timers of the buckets have ids. -/
structure Wf (r : Records) : Prop where
  byRun : ∀ rid bid, r.byRun rid = some bid → (r.get? bid).isSome
  byTimerSec : ∀ key bid, r.byTimerSec key = some bid → (r.get? bid).isSome
  timerIds : ∀ b ∈ r.values, IsUuid b.timerId

theorem Wf.empty : Wf {} := ⟨nofun, nofun, nofun⟩

theorem Wf.insert (h : r.Wf) (hb : IsUuid b.timerId) : (r.insert bid b).Wf := by
  have hkeep : ∀ k, (r.get? k).isSome → ((r.insert bid b).get? k).isSome := by
    intro k hk
    rw [get?_insert]
    split
    · rfl
    · exact hk
  refine ⟨fun rid k hk => hkeep k (h.byRun rid k hk),
    fun key k hk => hkeep k (h.byTimerSec key k hk), fun b' hmem => ?_⟩
  simp only [values, Records.insert, List.map_append, List.mem_append, List.mem_map,
    List.mem_filter] at hmem
  rcases hmem with ⟨p, ⟨hp, -⟩, rfl⟩ | ⟨p, hp, rfl⟩
  · exact h.timerIds _ (List.mem_map_of_mem hp)
  · obtain rfl := List.mem_singleton.mp hp
    exact hb

theorem Wf.modify (h : r.Wf) (hf : ∀ b, IsUuid b.timerId → IsUuid (f b).timerId) :
    (r.modify bid f).Wf := by
  have hkeep : ∀ k, (r.get? k).isSome → ((r.modify bid f).get? k).isSome := by
    intro k hk
    rwa [get?_modify, Option.isSome_map]
  refine ⟨fun rid k hk => hkeep k (h.byRun rid k hk),
    fun key k hk => hkeep k (h.byTimerSec key k hk), fun b' hmem => ?_⟩
  obtain ⟨_, hp', rfl⟩ := List.mem_map.mp hmem
  obtain ⟨p, hp, rfl⟩ := List.mem_map.mp hp'
  have hold := h.timerIds _ (List.mem_map_of_mem hp)
  split
  · exact hf _ hold
  · exact hold

theorem Wf.noteRun (h : r.Wf) (hbid : (r.get? bid).isSome) : (r.noteRun runId bid).Wf := by
  cases runId with
  | none => exact h
  | some rid =>
    refine ⟨fun rid' k hk => ?_, h.byTimerSec, h.timerIds⟩
    rw [get?_noteRun]
    rw [byRun_noteRun] at hk
    split at hk
    · cases hk
      exact hbid
    · exact h.byRun rid' k hk

theorem Wf.noteTimer (h : r.Wf) (hbid : (r.get? bid).isSome) :
    (r.noteTimer timerId sec bid).Wf := by
  cases timerId with
  | none => exact h
  | some tid =>
    refine ⟨h.byRun, fun key k hk => ?_, h.timerIds⟩
    rw [get?_noteTimer]
    rw [byTimerSec_noteTimer] at hk
    split at hk
    · cases hk
      exact hbid
    · exact h.byTimerSec key k hk

/-- The bucket that is found or made is there. -/
theorem Wf.resolveOrCreateBucket (h : r.Wf) (htimer : IsUuid timerId) (runId : Option Text)
    (when : Int) :
    (Truth.resolveOrCreateBucket r timerId runId when).2.Wf ∧
      ((Truth.resolveOrCreateBucket r timerId runId when).2.get?
        (Truth.resolveOrCreateBucket r timerId runId when).1).isSome := by
  unfold Truth.resolveOrCreateBucket
  dsimp only
  split
  · next bid hrun =>
    obtain ⟨rid, -, hrid⟩ := Option.bind_eq_some_iff.mp hrun
    have hbid := h.byRun rid bid hrid
    exact ⟨h.noteTimer hbid, by simpa using hbid⟩
  · split
    · next bid hts =>
      obtain ⟨tid, -, htid⟩ := Option.bind_eq_some_iff.mp hts
      have hbid := h.byTimerSec _ bid htid
      refine ⟨?_, ?_⟩
      · dsimp only
        exact (h.noteRun hbid).modify fun _ hb => hb
      · rw [get?_modify, Option.isSome_map, get?_noteRun]
        exact hbid
    · have hbid : ∀ bid b, ((r.insert bid b).get? bid).isSome := by
        intro bid b
        rw [get?_insert, if_pos rfl]
        rfl
      refine ⟨((h.insert htimer).noteRun (hbid _ _)).noteTimer ?_, ?_⟩
      · simpa using hbid _ _
      · simpa using hbid _ _

/-- A turn for an event finds its bucket. -/
theorem Wf.recordEvent (h : r.Wf) (w : Span) (ev : EventRecord) :
    ∃ r', Truth.recordEvent w r ev = .ok r' ∧ r'.Wf := by
  unfold Truth.recordEvent
  split
  · obtain ⟨hwf, hbid⟩ := h.resolveOrCreateBucket (isUuid_map ev.timerId)
      (ev.runId.map Uuid.hyphenated) (eventWhen ev)
    obtain ⟨b, hb⟩ := Option.isSome_iff_exists.mp hbid
    dsimp only
    rw [hb]
    refine ⟨_, rfl, hwf.modify fun b hb => ?_⟩
    exact isUuid_or hb (isUuid_map ev.timerId)
  · exact ⟨r, rfl, h⟩

/-- A turn for a claim finds its bucket, where there is one. -/
theorem Wf.recordClaim (h : r.Wf) (w : Span) (claim : RunClaim) :
    ∃ r', Truth.recordClaim w r claim = .ok r' ∧ r'.Wf := by
  have htimer : IsUuid (some claim.timerId.hyphenated) := isUuid_map (some claim.timerId)
  unfold Truth.recordClaim
  split
  · dsimp only
    split
    · next bid hfound =>
      have hbid : (r.get? bid).isSome := by
        rcases Option.or_eq_some_iff.mp hfound with hrun | ⟨-, hts⟩
        · exact h.byRun _ bid hrun
        · exact h.byTimerSec _ bid hts
      obtain ⟨b, hb⟩ := Option.isSome_iff_exists.mp hbid
      rw [hb]
      refine ⟨_, rfl, ?_⟩
      have hmodified : ∀ f : RecordBucket → RecordBucket, ((r.modify bid f).get? bid).isSome := by
        intro f
        rwa [get?_modify, Option.isSome_map]
      have hwf : (r.modify bid fun b => { b with
          runId := b.runId.or (some claim.runId.hyphenated)
          timerId := b.timerId.or (some claim.timerId.hyphenated) }).Wf :=
        h.modify fun b hb => isUuid_or hb htimer
      split
      · exact (hwf.noteRun (hmodified _)).noteTimer (by simpa using hmodified _)
      · exact hwf.noteTimer (hmodified _)
    · have hbid : ∀ bid b, ((r.insert bid b).get? bid).isSome := by
        intro bid b
        rw [get?_insert, if_pos rfl]
        rfl
      exact ⟨_, rfl, ((h.insert htimer).noteRun (hbid _ _)).noteTimer (by simpa using hbid _ _)⟩
  · exact ⟨r, rfl, h⟩

theorem recordsOf_wf (w : Span) (events : List EventRecord) (claims : List RunClaim) :
    ∃ r, recordsOf w events claims = .ok r ∧ r.Wf := by
  unfold recordsOf
  obtain ⟨r, hr, hwf⟩ := foldlM_rule (fun r ev h => Wf.recordEvent h w ev) events Wf.empty
  rw [hr]
  exact foldlM_rule (fun r claim h => Wf.recordClaim h w claim) claims hwf

end Records

/-! ### What may abort -/

/-- A part of an id can be cut off. -/
theorem shortId_ok (u : Uuid) : ∃ s, shortId u.hyphenated = .ok s := by
  unfold shortId
  split
  · have hprefix : u.simple.take 8 <+: u.hyphenated := by
      unfold Uuid.hyphenated
      simp only [List.append_assoc]
      exact List.prefix_append ..
    have hlen : byteLen (u.simple.take 8) = 8 := by
      rw [byteLen_of_hex fun c hc => u.hex_of_mem (List.mem_of_mem_take hc), List.length_take,
        u.length_simple]
      rfl
    obtain ⟨s, hs⟩ := sliceTo_ok_iff.mpr ⟨_, hprefix, hlen⟩
    rw [hs]
    exact ⟨_, rfl⟩
  · exact ⟨_, rfl⟩

theorem recordedEntry_ok (z : Zone) {b : RecordBucket} (date : Int) (h : IsUuid b.timerId) :
    ∃ e, recordedEntry z b date = .ok e := by
  have hname : ∃ name, bucketName b = .ok name := by
    unfold bucketName
    split
    · exact ⟨_, rfl⟩
    · next tid _ htid =>
      obtain ⟨u, rfl⟩ := h tid htid
      exact shortId_ok u
    · exact ⟨_, rfl⟩
  obtain ⟨name, hname⟩ := hname
  exact exists_bind_iff.mpr ⟨name, hname, _, rfl⟩

theorem recordedPart_ok_iff {w : Span} {buckets : List RecordBucket}
    (h : ∀ b ∈ buckets, IsUuid b.timerId) :
    (∃ r, recordedPart w buckets = .ok r) ↔ ∀ b ∈ buckets, OnClock w.zone b.scheduledFor := by
  have hdated : ∀ b, (∃ p, (do return (b, ← dateNaive w.zone b.scheduledFor) :
      Except Panic (RecordBucket × Int)) = .ok p) ↔ OnClock w.zone b.scheduledFor := by
    intro b
    rw [exists_bind_iff]
    constructor
    · rintro ⟨date, hdate, -⟩
      exact (dateNaive_eq_ok.mp hdate).1
    · exact fun hclock => ⟨_, dateNaive_eq_ok.mpr ⟨hclock, rfl⟩, _, rfl⟩
  unfold recordedPart
  rw [exists_bind_iff]
  simp only [← hdated, ← exists_mapM_iff]
  constructor
  · rintro ⟨dated, hrun, -⟩
    exact ⟨dated, hrun⟩
  · rintro ⟨dated, hrun⟩
    refine ⟨dated, hrun, exists_bind_iff.mpr ?_⟩
    -- What is dated are buckets.
    have hmem : ∀ p ∈ dated, p.1 ∈ buckets := by
      intro p hp
      obtain ⟨b, hb, hpair⟩ := exists_of_mem_mapM hrun hp
      cases hdate : dateNaive w.zone b.scheduledFor with
      | error e =>
        rw [hdate] at hpair
        cases hpair
      | ok date =>
        rw [hdate] at hpair
        cases hpair
        exact hb
    obtain ⟨entries, hentries⟩ := exists_mapM_iff.mpr fun p (hp : p ∈ dated.filter _) =>
      recordedEntry_ok w.zone p.2 (h _ (hmem p (List.mem_of_mem_filter hp)))
    exact ⟨entries, hentries, _, rfl⟩

section

variable [Calendar]

/-- The schedule of the task can be run, and the fires that the window looks
at are on its clock. -/
def UpcomingFits (w : Span) (cap : Nat) (task : ExpandableTask) : Prop :=
  (∃ z, Calendar.zone task.occurrence.tz = some z) ∧
  ∃ fires, task.occurrence.preview cap w.after = .ok fires ∧
    ∀ t ∈ (fires.filter (w.after < ·)).takeWhile (· < w.end_), w.start ≤ t → OnClock w.zone t

theorem upcomingRows_ok_iff (w : Span) (keys : List DedupeKey) (cap : Nat)
    (task : ExpandableTask) :
    (∃ rows, upcomingRows w keys cap task = .ok rows) ↔ UpcomingFits w cap task := by
  unfold upcomingRows UpcomingFits
  rw [← timezone_ok_iff]
  simp only [exists_bind_iff]
  constructor
  · rintro ⟨z, hz, fires, hfires, rows, hrows, -⟩
    exact ⟨⟨z, hz⟩, fires, hfires, windowRows_ok_iff.mp ⟨rows, hrows⟩⟩
  · rintro ⟨⟨z, hz⟩, fires, hfires, hclock⟩
    obtain ⟨rows, hrows⟩ := windowRows_ok_iff.mpr hclock
    exact ⟨z, hz, fires, hfires, rows, hrows, _, rfl⟩

/-- The window does not lead past the calendar: the day after it, the records
on its clock and the tasks. -/
def TruthFits (arrange : List RecordBucket → List RecordBucket) (tasks : List ExpandableTask)
    (events : List EventRecord) (claims : List RunClaim) (opts : TruthBuildOptions) : Prop :=
  opts.from_ ≤ opts.to_ → ∀ z, Calendar.zone opts.timezone = some z →
  ∀ start, midnight z opts.from_ = some start → Period.IsDate (opts.to_ + 1) ∧
  ∀ end_, midnight z (opts.to_ + 1) = some end_ →
    let w : Span := ⟨z, opts.from_, opts.to_, start, end_, opts.nowUtc⟩
    ∀ records, recordsOf w events claims = .ok records →
      (∀ b ∈ records.values, OnClock z b.scheduledFor) ∧
      ∀ recorded keys, recordedPart w (arrange records.values) = .ok (recorded, keys) →
        TasksFit (UpcomingFits w) (upcomingRows w keys) opts.caps
          (tasks.take opts.caps.maxTasks) recorded.length

/-- **The truth window** aborts only when the window, one of its records or
one of its tasks leads past the calendar. -/
theorem faultless_buildTruthWindow_iff {arrange : List RecordBucket → List RecordBucket}
    (harrange : ∀ l, (arrange l).Perm l) {tasks : List ExpandableTask}
    {events : List EventRecord} {claims : List RunClaim} {opts : TruthBuildOptions} :
    Faultless (buildTruthWindow arrange tasks events claims opts) ↔
      TruthFits arrange tasks events claims opts := by
  unfold buildTruthWindow TruthFits rangeError parseTz capTasks localRangeBounds
  rw [faultless_ite_iff, and_iff_right (fun _ => faultless_throw _), Int.not_lt]
  refine imp_congr_right fun _ => ?_
  rw [faultless_okOr_bind_iff]
  refine forall₂_congr fun z _ => ?_
  simp only [bind_assoc]
  rw [faultless_okOr_bind_iff]
  refine forall₂_congr fun start _ => ?_
  rw [faultless_addDays_bind_iff]
  refine and_congr_right fun _ => ?_
  rw [faultless_okOr_bind_iff]
  refine forall₂_congr fun end_ _ => ?_
  rw [pure_bind]
  dsimp only
  set w : Span := ⟨z, opts.from_, opts.to_, start, end_, opts.nowUtc⟩
  obtain ⟨records, hrecords, hwf⟩ := Records.recordsOf_wf w events claims
  have hperm := harrange records.values
  have hpart : (∃ r, recordedPart w (arrange records.values) = .ok r) ↔
      ∀ b ∈ records.values, OnClock z b.scheduledFor := by
    rw [recordedPart_ok_iff fun b hb => hwf.timerIds b (hperm.mem_iff.mp hb)]
    exact forall_congr' fun b => imp_congr_left hperm.mem_iff
  have hexpand : ∀ keys recorded warnings, (∃ r, expandTasks (upcomingRows w keys) opts.caps
      (upcomingEntry z) (tasks.take opts.caps.maxTasks) recorded warnings = .ok r) ↔
        TasksFit (UpcomingFits w) (upcomingRows w keys) opts.caps
          (tasks.take opts.caps.maxTasks) recorded.length :=
    fun keys _ _ => expandTasks_ok_iff (upcomingRows_ok_iff w keys)
  rw [faultless_lift_bind_iff, hrecords]
  constructor
  · rintro ⟨_, ⟨⟩, h⟩
    rintro _ ⟨⟩
    obtain ⟨⟨recorded, keys⟩, hrecorded, h⟩ := faultless_lift_bind_iff.mp h
    refine ⟨hpart.mp ⟨_, hrecorded⟩, fun recorded' keys' hsame => ?_⟩
    obtain ⟨rfl, rfl⟩ := Prod.mk.inj (Except.ok.inj (hrecorded.symm.trans hsame))
    obtain ⟨r, hr, -⟩ := faultless_lift_bind_iff.mp h
    exact (hexpand _ _ _).mp ⟨r, hr⟩
  · intro h
    obtain ⟨hclock, htasks⟩ := h records rfl
    obtain ⟨⟨recorded, keys⟩, hrecorded⟩ := hpart.mpr hclock
    refine ⟨records, rfl, faultless_lift_bind_iff.mpr ⟨_, hrecorded, ?_⟩⟩
    obtain ⟨⟨entries, warnings⟩, hr⟩ := (hexpand _ _ _).mpr (htasks recorded keys hrecorded)
    exact faultless_lift_bind_iff.mpr ⟨_, hr, faultless_pure _⟩

end

/-! ### The calendar as a whole -/

/-- What a calendar is asked for, and how it is to be shown. -/
structure CalendarRequest where
  asked : Period.Asked
  timezone : String
  weekStart : WeekStart
  showCommands : Bool
  nowUtc : Int
  caps : CalendarCaps := {}
  deriving Repr, DecidableEq

/-- A window: its days, and the month that it is. -/
abbrev AskedWindow : Type := Int × Int × Option (Int × Nat)

def CalendarRequest.snapshotOptions (req : CalendarRequest) (window : AskedWindow) :
    CalendarBuildOptions where
  from_ := window.1
  to_ := window.2.1
  month := window.2.2
  timezone := req.timezone
  weekStart := req.weekStart
  showCommands := req.showCommands
  nowUtc := req.nowUtc
  caps := req.caps

def CalendarRequest.truthOptions (req : CalendarRequest) (window : AskedWindow) :
    TruthBuildOptions where
  from_ := window.1
  to_ := window.2.1
  timezone := req.timezone
  nowUtc := req.nowUtc
  caps := req.caps

/-- What a calendar is made from. -/
structure Sources where
  timers : List Timer
  discovered : List Discovery
  events : List EventRecord
  claims : List RunClaim

section

variable [Calendar] (strptime : Text → Except String Int)
  (arrange : List RecordBucket → List RecordBucket) (sources : Sources) (req : CalendarRequest)

/-- The window, counted from the present day (`local_date`). -/
def resolveWindow : Built AskedWindow := do
  let z ← parseTz req.timezone
  let nowLocal ← dateNaive z req.nowUtc
  Period.resolveRange strptime nowLocal req.asked

/-- Finding the window, converting the tasks, building the snapshot and
building the truth window each return a value or an error. -/
structure NeverPanics : Prop where
  resolved : Faultless (resolveWindow strptime req)
  converted : ∃ tasks, tasksOf sources.timers sources.discovered = .ok tasks
  snapshot : ∀ window tasks, Returns (resolveWindow strptime req) window →
    tasksOf sources.timers sources.discovered = .ok tasks →
    Faultless (buildSnapshot tasks (req.snapshotOptions window))
  truth : ∀ window tasks, Returns (resolveWindow strptime req) window →
    tasksOf sources.timers sources.discovered = .ok tasks →
    Faultless (buildTruthWindow arrange tasks sources.events sources.claims
      (req.truthOptions window))

/-- The present day and the window are within the calendar, and every label
is cut between two characters. -/
structure WithinCalendar : Prop where
  asked : ∀ z, Calendar.zone req.timezone = some z → OnClock z req.nowUtc ∧
    ∀ phrase, req.asked = .phrase phrase →
      Period.PhraseFits strptime phrase (day z req.nowUtc)
  labels : LabelsFit sources.discovered
  snapshot : ∀ window tasks, Returns (resolveWindow strptime req) window →
    tasksOf sources.timers sources.discovered = .ok tasks →
    SnapshotFits tasks (req.snapshotOptions window)
  truth : ∀ window tasks, Returns (resolveWindow strptime req) window →
    tasksOf sources.timers sources.discovered = .ok tasks →
    TruthFits arrange tasks sources.events sources.claims (req.truthOptions window)

variable {strptime arrange sources req}

omit [Calendar] in
/-- The day of an instant on the clock is a date. -/
theorem isDate_day {z : Zone} {t : Int} (h : OnClock z t) : Period.IsDate (day z t) := by
  have hmin : minUtc = Date.min * DAY := by decide +kernel
  have hmax : Occurrence.maxUtc + 1 = (Date.max + 1) * DAY := by decide +kernel
  obtain ⟨hlow, hhigh⟩ := h
  unfold DAY at hmin hmax
  unfold Period.IsDate day Local.date DAY
  omega

theorem faultless_resolveWindow_iff : Faultless (resolveWindow strptime req) ↔
    ∀ z, Calendar.zone req.timezone = some z → OnClock z req.nowUtc ∧
      ∀ phrase, req.asked = .phrase phrase →
        Period.PhraseFits strptime phrase (day z req.nowUtc) := by
  unfold resolveWindow parseTz
  rw [faultless_okOr_bind_iff]
  refine forall₂_congr fun z _ => ?_
  rw [faultless_lift_bind_iff]
  constructor
  · rintro ⟨date, hdate, h⟩
    obtain ⟨hclock, rfl⟩ := dateNaive_eq_ok.mp hdate
    exact ⟨hclock, (Period.faultless_resolveRange_iff (isDate_day hclock) _).mp h⟩
  · rintro ⟨hclock, h⟩
    exact ⟨_, dateNaive_eq_ok.mpr ⟨hclock, rfl⟩,
      (Period.faultless_resolveRange_iff (isDate_day hclock) _).mpr h⟩

end

section Sample

attribute [local instance] Calendar.utcOnly

/-- A job of a crontab. -/
def cronTask (command : String) : Discovery where
  id := "t1"
  sourceKind := .cronUser
  source := "crontab -l"
  command := command.toList
  stdinPayload := none
  scheduleExpr := "0 9 * * *".toList
  enabled := true
  writable := true
  writeBlockReason := none
  lineNo := some 1
  rawLine := none
  disabledOriginal := none
  timezone := none
  lastResult := .unknown

/-- The parser of dates, as far as the first of January 1970. -/
def strptimeSample (s : Text) : Except String Int :=
  if s = "1970-01-01".toList then .ok 0 else .error "input contains invalid characters"

/-- The first of January 1970. -/
def firstDay : CalendarRequest where
  asked := .day "1970-01-01".toList
  timezone := "UTC"
  weekStart := .mon
  showCommands := false
  nowUtc := 0

theorem returns_firstDay : Returns (resolveWindow strptimeSample firstDay) (0, 0, none) := by
  unfold Returns
  decide +kernel

/-- The task that the job becomes. -/
def expandedTask : ExpandableTask where
  id := "t1".toList
  name := "éééééééééééééé".toList
  enabled := true
  occurrence := { kind := .cron "0 9 * * *", tz := "UTC" }
  pastStatus := .unknown
  command := some "éééééééééééééé".toList
  sourceKind := "cron_user"

theorem taskFits_expandedTask {w : Span} {cap : Nat} (h : cap = 500) (hafter : w.after = -1) :
    TaskFits w cap expandedTask := by
  refine ⟨⟨Zone.utc, rfl⟩, [], ?_, fun _ hmem => absurd hmem List.not_mem_nil⟩
  rw [h, hafter]
  decide +kernel

end Sample

end Truth

end Bellman

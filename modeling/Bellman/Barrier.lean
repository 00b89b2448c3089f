/-
Bellman/Barrier.lean

The barrier of a fire: the reply file of the run about to be superseded is
read first, and a valid reply found there is ingested in the transaction of
the fire.

* `barrier_read` reads the file, and once more after a debounce window when
  its bytes do not parse; a document that names another run, or bytes that
  stay invalid, are condemned and logged at once, outside the transaction;
* the transaction ingests the reply as of the current run, supersedes the
  run if it is then still open, and claims the next one.  A fire that fails
  leaves every table as it was.

A reply is told from its repetition by a digest of 64 bits.  A final report
whose digest the row has already, from *another* reply, is taken for a
repetition and not applied: the fire supersedes a run whose file says that
it is completed.  That is the only way (`barrier_sound_iff`), and
`not_barrier_sound` gives two replies with one digest.
-/
import Bellman.Provisional

namespace Bellman

open ProgramLogic Prog ReplyM

/-! ### Reading a reply file -/

/-- One parsed reply, with the hint that marks the stub. -/
structure ReplyFileDocument extends ReplyDocument where
  hint : Option String := none

/-- What is at a reply path. -/
inductive ReplyPath where
  | regular (bytes : List UInt8)
  | special (what : String)
  | missing
  | unreadable (message : String)

/-- What the safe reader found at a reply path. -/
inductive ReplyRead where
  | bytes (bytes : List UInt8)
  | oversize (len : Nat)
  | special (what : String)
  | missing

def MAX_REPLY_FILE_BYTES : Nat := 64 * 1024

/-- `read_reply_file`. -/
def readReplyFile : ReplyPath → Except String ReplyRead
  | .regular bytes =>
    if bytes.length > MAX_REPLY_FILE_BYTES then .ok (.oversize bytes.length) else .ok (.bytes bytes)
  | .special what => .ok (.special what)
  | .missing => .ok .missing
  | .unreadable message => .error message

/-- The digest of the bytes of a reply: 64-bit FNV-1a. -/
def fnv1a64 (bytes : List UInt8) : UInt64 :=
  bytes.foldl (fun hash b => (hash ^^^ b.toUInt64) * 0x00000100000001b3) 0xcbf29ce484222325

/-- Sixteen hexadecimal digits. -/
def hex16 (n : UInt64) : String :=
  String.ofList ((Nat.toDigits 16 n.toNat).leftpad 16 '0')

def fnv1a64Hex (bytes : List UInt8) : String := hex16 (fnv1a64 bytes)

/-- The owner that a reply file is held to: the one in the lifecycle row,
or else the timer's. -/
def expectedOwner (s : Store) (timer : Timer) (runId : Uuid) : Option String :=
  match s.getRunState runId with
  | some row => some row.appName
  | none => s.getTimerOwner timer.id

/-- Exactly the stub that was written for the app. -/
def isUntouchedStub (doc : ReplyFileDocument) (fileRunId : Uuid) (owner : Option String) : Bool :=
  doc.schema == some REPLY_SCHEMA_V1 && doc.state.isNone && doc.hint.isSome &&
    doc.runId == some fileRunId && owner.isSome && doc.appName == owner

/-- What the barrier read found. -/
inductive BarrierRead where
  | valid (doc : ReplyDocument) (digest : String) (bytes : List UInt8)
  | rejected
  | none

/-- What the barrier meets outside the store: the reply path before and
after the debounce window, and whether condemned bytes get a new artifact
in the quarantine. -/
structure BarrierFiles where
  first : ReplyPath
  second : ReplyPath
  quarantine : List UInt8 → String → Except String Bool

/-- `condemn_bytes`: one log line for each artifact. -/
def condemnBytes (io : BarrierFiles) (timer : Timer) (runId : Uuid) (bytes : List UInt8)
    (reason : String) (utc : Int) : StoreM Unit :=
  match io.quarantine bytes reason with
  | .ok true => logRejection timer (some runId) reason utc
  | _ => return ()

section Read

-- The JSON parser of reply documents.
variable (parse : List UInt8 → Option ReplyFileDocument)

/-- A parsed document must name the run of its file, if it names one. -/
def identify (io : BarrierFiles) (timer : Timer) (prevRunId : Uuid) (doc : ReplyFileDocument)
    (bytes : List UInt8) (utc : Int) : StoreM BarrierRead := do
  if doc.runId.isSome ∧ doc.runId ≠ some prevRunId then
    condemnBytes io timer prevRunId bytes "run_id does not match the reply filename" utc
    return .rejected
  else return .valid doc.toReplyDocument (fnv1a64Hex bytes) bytes

/-- `barrier_read`. -/
def barrierRead (io : BarrierFiles) (timer : Timer) (prevRunId : Uuid) (utc : Int) :
    StoreM BarrierRead := do
  match readReplyFile io.first with
  | .ok (.bytes bytes) =>
    match parse bytes with
    | some doc =>
      if isUntouchedStub doc prevRunId (expectedOwner (← get) timer prevRunId) then return .none
      else identify io timer prevRunId doc bytes utc
    | none =>
      -- A writer may be at work: one debounce window.
      match readReplyFile io.second with
      | .ok (.bytes second) =>
        match parse second with
        | some doc => identify io timer prevRunId doc second utc
        | none =>
          if second = bytes then
            condemnBytes io timer prevRunId second "invalid JSON" utc
            return .rejected
          else return .none
      | _ => return .none
  | _ => return .none

/-- The part of `project_fire` before the transaction: owner and previous
run, then the barrier. -/
def Firing.readFiles (io : BarrierFiles) (f : Firing) : ReplyM Firing := do
  let f ← f.prepare
  match f.prev with
  | none => return { f with barrier := none }
  | some prev =>
    match ← onStore (barrierRead parse io f.timer prev.runId f.utc) with
    | .valid doc digest _ => return { f with barrier := some (doc, digest) }
    | _ => return { f with barrier := none }

end Read

/-- The fire as it was read, with a report that the barrier found. -/
def Firing.informed (f : Firing) (s : Store) (doc : ReplyDocument) (digest : String) : Firing :=
  { f.prepared s with barrier := some (doc, digest) }

/-! ### The property -/

/-- The reply file holds a valid final report of the current run, in the
name of its owner. -/
structure HoldsReport (parse : List UInt8 → Option ReplyFileDocument) (io : BarrierFiles)
    (s : Store) (timer : Timer) (run : Uuid) (row : RunStateRow) (bytes : List UInt8) : Prop where
  file : io.first = .regular bytes
  fits : bytes.length ≤ MAX_REPLY_FILE_BYTES
  current : s.newest timer.id = some run
  owned : s.getRunState run = some row
  report : ∃ doc newState, parse bytes = some doc ∧
    doc.validate = .ok (run, newState, row.appName) ∧ newState.isTerminal = true ∧
    ¬(doc.errorDetection = some true ∧ (doc.expectedSecs.or row.expectedSecs).getD 0 = 0)

/-- The verdict of the run is the app's, and no event says that the run was
superseded. -/
def KeepsVerdict (run : Uuid) (s s' : Store) : Prop :=
  (∃ row, s'.getRunState run = some row ∧ row.isAppAuthoredTerminal = true) ∧
    ⟨.superseded, none⟩ ∉ linesOf run (s'.eventOutbox.drop s.eventOutbox.length)

/-- The reply in the file is taken for one that the row has already, though
the row has no final report. -/
def Mistaken (row : RunStateRow) (bytes : List UInt8) : Prop :=
  row.replyDigest = some (fnv1a64Hex bytes) ∧ row.isAppAuthoredTerminal = false

/-! ### The barrier -/

/-- An accepted reply is not logged as superseded. -/
theorem superseded_not_mem_replyLines {row : RunStateRow} {doc : ReplyDocument}
    {newState : RunState} {nowWall : Int} (hw : newState.isAppWritable = true) :
    ⟨.superseded, none⟩ ∉ replyLines row doc newState nowWall := by
  have hack : ∀ row, (⟨.superseded, none⟩ : Line) ∉ ackLines row := by
    intro row
    unfold ackLines
    split <;> simp
  have hrunning : ∀ row, (⟨.superseded, none⟩ : Line) ∉ runningLines row newState := by
    intro row
    unfold runningLines
    split <;> simp
  have hverdict : (⟨.superseded, none⟩ : Line) ∉ verdictLines row.state newState := by
    unfold verdictLines
    split
    · rw [List.mem_singleton]
      intro h
      exact (not_isFired_of_isAppWritable hw).2.1 (congrArg Line.kind h).symm
    · exact List.not_mem_nil
  simp only [replyLines, List.mem_append, not_or]
  exact ⟨hack _, hrunning _, hverdict⟩

/-- An accepted final report is the verdict of the app. -/
theorem isAppAuthoredTerminal_folded {row : RunStateRow} {doc : ReplyDocument}
    {newState : RunState} {digest : String} {nowWall : Int} {watchdog : Option Int}
    (hw : newState.isAppWritable = true) (hterm : newState.isTerminal = true) :
    (row.folded doc newState digest nowWall watchdog).isAppAuthoredTerminal = true := by
  cases newState with
  | completed => rfl
  | failed => rfl
  | acknowledged => cases hterm
  | running => cases hterm
  | _ => cases hw

section Barrier

variable [Calendar] {cfg : FireConfig} {f : Firing} {r : ReplyState} {run : Uuid}
  {row : RunStateRow}

omit [Calendar] in
/-- The barrier finds the report that the file holds, and changes nothing. -/
theorem readFiles_of_holds {parse : List UInt8 → Option ReplyFileDocument} {io : BarrierFiles}
    {bytes : List UInt8} (h : HoldsReport parse io r.store f.timer run row bytes) :
    ∃ doc newState, parse bytes = some doc ∧
      doc.validate = .ok (run, newState, row.appName) ∧ newState.isTerminal = true ∧
      row.refuses doc.toReplyDocument row.appName newState = none ∧
      (f.readFiles parse io).run r =
        (.ok (f.informed r.store doc.toReplyDocument (fnv1a64Hex bytes)), r) := by
  obtain ⟨hfile, hfits, hcur, howned, doc, newState, hparse, hvalid, hterm, hestimate⟩ := h
  refine ⟨doc, newState, hparse, hvalid, hterm, ?_, ?_⟩
  · have hforward : ¬(row.isAppAuthoredTerminal = true ∧
        (newState = .acknowledged ∨ newState = .running)) := by
      rintro ⟨-, rfl | rfl⟩ <;> cases hterm
    rw [RunStateRow.refuses, if_neg (not_not.mpr rfl), if_neg hforward, if_neg hestimate]
  · obtain ⟨prev, hprev, hid⟩ := Option.map_eq_some_iff.mp hcur
    have hp : (f.prepared r.store).prev = some prev := hprev
    have hstub : isUntouchedStub doc prev.runId
        (expectedOwner r.store (f.prepared r.store).timer prev.runId) = false := by
      have hstate := state_of_validate hvalid
      unfold isUntouchedStub
      rw [show doc.toReplyDocument.state = _ from hstate]
      simp
    have hnamed : ¬(doc.runId.isSome ∧ doc.runId ≠ some prev.runId) := by
      rintro ⟨-, hne⟩
      exact hne (hid ▸ (runId_of_validate hvalid).1)
    have hwp : wp (f.readFiles parse io) (fun f' r₁ => r₁ = r ∧
        f' = f.informed r.store doc.toReplyDocument (fnv1a64Hex bytes)) (fun _ _ => False) r := by
      unfold Firing.readFiles
      rw [wp_bind, Firing.wp_prepare, hp]
      dsimp only
      rw [wp_bind, wp_onStore, barrierRead, hfile, readReplyFile, if_neg (Nat.not_lt.mpr hfits)]
      dsimp only
      rw [hparse]
      dsimp only
      rw [wp_bind, wp_get, hstub, if_neg Bool.false_ne_true, identify, if_neg hnamed, wp_pure]
      refine ⟨rfl, ?_⟩
      rw [Firing.informed, ← hp]
    rcases hrun : (f.readFiles parse io).run r with ⟨e | f', r₁⟩
    · exact (wp_error hwp hrun).elim
    · obtain ⟨rfl, rfl⟩ := wp_ok hwp hrun
      rfl

omit [Calendar] in
/-- What the barrier's ingest makes of a final report: the row has the
app's verdict afterwards, unless the report was taken for a repetition. -/
theorem barrierIngest_final {doc : ReplyDocument} {digest : String} {newState : RunState}
    (hs : r.store.Wf) (hprev : f.prev.map (·.runId) = some run)
    (hbarrier : f.barrier = some (doc, digest)) (hcur : r.store.newest f.timer.id = some run)
    (hrow : r.store.getRunState run = some row)
    (hvalid : doc.validate = .ok (run, newState, row.appName)) (hterm : newState.isTerminal = true)
    (hok : row.refuses doc row.appName newState = none) :
    wp (barrierIngest cfg f) (fun _ r' => r'.store.Wf ∧ ∃ row' evs,
        r'.store.eventOutbox = r.store.eventOutbox ++ evs ∧
        r'.store.getRunState run = some row' ∧ ⟨.superseded, none⟩ ∉ linesOf run evs ∧
        (row'.isAppAuthoredTerminal = true ↔
          ¬(row.replyDigest = some digest ∧ row.isAppAuthoredTerminal = false)))
      (fun _ _ => False) r := by
  obtain ⟨prev, hp, rfl⟩ := Option.map_eq_some_iff.mp hprev
  obtain ⟨claim, hclaim, htimer⟩ := hs.getRun_newest hcur
  have haddr : Addressed r.store f.timer doc prev.runId newState row.appName claim :=
    ⟨hvalid, hclaim, htimer⟩
  have hbuilt : ∀ appName, currentRow r.store f.timer claim appName f.now = row := fun appName =>
    currentRow_of_some (haddr.runId_eq ▸ hrow)
  unfold barrierIngest ingestAsCurrent
  rw [hp, hbarrier]
  dsimp only
  rw [wp_bind]
  refine wp_mono (ingestInner_ingested hs f.utc (some prev.runId)) (fun out r' h => ?_)
    fun e r' h => ?_
  · obtain ⟨h, hwf⟩ := h
    generalize hstore : r'.store = s' at h hwf
    rw [Option.some_or] at h
    cases h with
    | unaddressed why hno => exact absurd haddr (hno _ _ _ _)
    | refused why haddr' _ hwhy =>
      obtain ⟨-, rfl, rfl, rfl⟩ := haddr.unique haddr'
      rw [hbuilt, hok] at hwhy
      cases hwhy
    | known haddr' hne _ => exact absurd (congrArg some (haddr.unique haddr').1.symm) hne
    | late haddr' hne _ _ _ => exact absurd (congrArg some (haddr.unique haddr').1.symm) hne
    | lateRowless haddr' hne _ _ => exact absurd (congrArg some (haddr.unique haddr').1.symm) hne
    | duplicate haddr' _ _ hdigest =>
      obtain ⟨-, rfl, rfl, rfl⟩ := haddr.unique haddr'
      rw [hbuilt] at hdigest
      rw [wp_pure, hstore]
      refine ⟨hwf, row, [], (List.append_nil _).symm, hrow, List.not_mem_nil, ?_⟩
      rw [hdigest]
      simp
    | @applied _ _ _ _ row' evs watchdog haddr' _ hrow' _ hdigest _ hlines =>
      obtain ⟨rfl, rfl, rfl, rfl⟩ := haddr.unique haddr'
      rw [hbuilt] at hrow'
      subst hrow'
      have hw := isAppWritable_of_validate hvalid
      rw [wp_pure, hstore]
      refine ⟨hwf, _, evs, rfl,
        Store.getRunState_wrote_self (s := r.store.logged evs) hrow row'.sameRun_folded, ?_, ?_⟩
      · rw [hlines.self]
        exact superseded_not_mem_replyLines hw
      · exact ⟨fun _ hboth => hdigest hboth.1, fun _ => isAppAuthoredTerminal_folded hw hterm⟩
  · obtain ⟨-, _, _, _, _, _, haddr', -, rfl, -, -, harm⟩ := h
    obtain ⟨-, rfl, rfl, rfl⟩ := haddr.unique haddr'
    refine harm fun hopen => ?_
    rw [hterm] at hopen
    cases hopen

/-! ### The fire -/

omit [Calendar] in
/-- The opening of a lifecycle logs nothing and keeps the rows there are. -/
theorem Opening.kept {claim : RunClaim} {s s' : Store} (h : Opening cfg f claim s s') :
    s'.eventOutbox = s.eventOutbox ∧
      ∀ run row, s.getRunState run = some row → s'.getRunState run = some row := by
  cases h with
  | unowned _ => exact ⟨rfl, fun _ _ h => h⟩
  | @owned appName deadline proj _ _ _ =>
    refine ⟨rfl, fun run row hrow => ?_⟩
    refine (Store.getRunState_append (s := s) (f.openRow claim appName deadline) run).trans ?_
    rw [hrow, Option.some_or]

omit [Calendar] in
/-- The fire closes what the barrier left open, and nothing else. -/
theorem fireTx_final {doc : ReplyDocument} {digest : String} {newState : RunState}
    (hs : r.store.Wf) (hprev : f.prev.map (·.runId) = some run)
    (hbarrier : f.barrier = some (doc, digest)) (hcur : r.store.newest f.timer.id = some run)
    (hrow : r.store.getRunState run = some row)
    (hvalid : doc.validate = .ok (run, newState, row.appName)) (hterm : newState.isTerminal = true)
    (hok : row.refuses doc row.appName newState = none) :
    wp (fireTx cfg f) (fun _ r' => KeepsVerdict run r.store r'.store ↔
        ¬(row.replyDigest = some digest ∧ row.isAppAuthoredTerminal = false))
      (fun _ r' => r'.store = r.store) r := by
  unfold fireTx inTx supersedePrevious
  rw [wp_transact]
  simp only [wp_bind, wp_pure, wp_onStore]
  refine wp_mono (barrierIngest_final hs hprev hbarrier hcur hrow hvalid hterm hok)
    (fun _ r₁ h₁ => ?_) fun _ _ h => h.elim
  obtain ⟨hwf₁, row₁, evs, he, hrow₁, hlines, hiff⟩ := h₁
  refine wp_mono (closeOpenRun_closing (E := fun _ _ => False) rfl (by decide) hwf₁)
    (fun superseded s₂ h₂ => ?_) fun _ _ _ => trivial
  obtain ⟨hclosing, hwf₂⟩ := h₂
  refine wp_fireTail hwf₂ fun claim s₃ s₄ hstill _ hopening => ?_
  obtain ⟨evs', he', hk'⟩ := hstill
  obtain ⟨he'', hkept⟩ := hopening.kept
  obtain ⟨prev, hp, rfl⟩ := Option.map_eq_some_iff.mp hprev
  rw [← hiff]
  -- After the closing nothing more happens to the run.
  have hend : ∀ {row₂ closing}, s₂.getRunState prev.runId = some row₂ →
      s₂.eventOutbox = r₁.store.eventOutbox ++ closing →
      s₄.getRunState prev.runId = some row₂ ∧
        linesOf prev.runId (s₄.eventOutbox.drop r.store.eventOutbox.length) =
          linesOf prev.runId evs ++ linesOf prev.runId closing := by
    intro row₂ closing hrow₂ hout
    refine ⟨hkept _ _ ((hk' prev.runId).1.trans hrow₂), ?_⟩
    rw [he'', he', hout, he, List.append_assoc, List.append_assoc, List.drop_left,
      linesOf_append, linesOf_append, (hk' prev.runId).2, List.append_nil]
  cases hclosing with
  | resolved _ =>
    obtain ⟨hrow₄, hout⟩ := hend hrow₁ (List.append_nil _).symm
    rw [KeepsVerdict, hout, linesOf_nil, List.append_nil]
    constructor
    · rintro ⟨⟨row₂, hrow₂, happ⟩, -⟩
      obtain rfl := Option.some.inj (hrow₄.symm.trans hrow₂)
      exact happ
    · exact fun happ => ⟨⟨row₁, hrow₄, happ⟩, hlines⟩
  | @closed p row₂ closing hp' hrow₂ hopen _ =>
    obtain rfl := Option.some.inj (hp.symm.trans hp')
    obtain rfl := Option.some.inj (hrow₁.symm.trans hrow₂)
    obtain ⟨hrow₄, -⟩ := hend (Store.getRunState_wrote_self (s := r₁.store.logged closing) hrow₁
      (row₁.sameRun_closed .superseded)) rfl
    constructor
    · rintro ⟨⟨row₂, hrow₂, happ⟩, -⟩
      obtain rfl := Option.some.inj (hrow₄.symm.trans hrow₂)
      cases happ
    · intro happ
      rw [RunStateRow.isTerminal_of_isAppAuthoredTerminal happ] at hopen
      cases hopen
  | rowless hp' hnone _ =>
    obtain rfl := Option.some.inj (hp.symm.trans hp')
    rw [hrow₁] at hnone
    cases hnone

/-- **The barrier**: a fire that fails leaves the tables as its transaction
found them, and one that commits keeps the verdict that the reply file
holds, unless the report in the file is taken for a repetition of another
one. -/
theorem barrier_sound_iff {parse : List UInt8 → Option ReplyFileDocument} {io : BarrierFiles}
    {tr : List (System.Event ReplyState Commit)} {f' : Firing} {r₁ : ReplyState}
    (h : (gated cfg).Run {} tr r) (hread : (f.readFiles parse io).run r = (.ok f', r₁)) :
    (∀ e r', (fireTx cfg f').run r₁ = (.error e, r') → r'.store = r₁.store) ∧
    ∀ run row bytes, HoldsReport parse io r.store f.timer run row bytes →
      ∀ out r', (fireTx cfg f').run r₁ = (.ok out, r') →
        (KeepsVerdict run r.store r'.store ↔ ¬Mistaken row bytes) := by
  constructor
  · intro e r' hrun
    have hfails : wp (fireTx cfg f') (fun _ _ => True) (fun _ r' => r'.store = r₁.store) r₁ := by
      unfold fireTx inTx
      rw [wp_transact]
      exact wp_iff.mpr ⟨fun _ _ _ => trivial, fun _ _ _ => rfl⟩
    exact wp_error hfails hrun
  · intro run row bytes hholds out r' hrun
    obtain ⟨doc, newState, -, hvalid, hterm, hok, hread'⟩ := readFiles_of_holds hholds
    rw [hread] at hread'
    obtain ⟨hf, hr⟩ := Prod.mk.inj hread'
    subst hr
    obtain rfl := Except.ok.inj hf
    have hprev : (f.informed r₁.store doc.toReplyDocument (fnv1a64Hex bytes)).prev.map (·.runId) =
        some run := hholds.current
    exact wp_ok (fireTx_final (wf_of_reached (ledger_of_gated h)) hprev rfl hholds.current
      hholds.owned hvalid hterm hok) hrun

end Barrier

section Sample

attribute [local instance] Calendar.utcOnly

/-- A reply file of the first run, as the app writes it. -/
def replyFile (state progress : String) : List UInt8 :=
  ("\x7b\"schema\":\"bellman-reply/1\"," ++
    "\"run_id\":\"00000000-0000-0000-0000-000000000001\",\"app_name\":\"app\"," ++
    "\"state\":\"" ++ state ++ "\",\"progress\":\"" ++ progress ++ "\"\x7d").toUTF8.toList

def runningFile : List UInt8 := replyFile "running" "5caaab1b5a971755"

def completedFile : List UInt8 := replyFile "completed" "d9795d2fdd025f4e"

/-- Two files with one digest. -/
theorem fnv1a64_runningFile : fnv1a64 runningFile = fnv1a64 completedFile := by
  decide +kernel

/-- What is in it. -/
def replyIn (state progress : String) : ReplyFileDocument where
  schema := some REPLY_SCHEMA_V1
  runId := some ⟨1⟩
  appName := some "app"
  state := some state
  progress := some progress

def runningReply : ReplyFileDocument := replyIn "running" "5caaab1b5a971755"

def completedReply : ReplyFileDocument := replyIn "completed" "d9795d2fdd025f4e"

/-- The parser, on these files. -/
def parseSample (bytes : List UInt8) : Option ReplyFileDocument :=
  if bytes = runningFile then some runningReply
  else if bytes = completedFile then some completedReply
  else none

/-- The file of the first run when its timer fires again. -/
def BarrierFiles.sample (file : List UInt8) : BarrierFiles where
  first := .regular file
  second := .missing
  quarantine _ _ := .ok true

/-- The fire of the next slot, after the barrier has read the report. -/
def Firing.second (r : ReplyState) : Firing :=
  (Firing.sample .skip (120 * NS)).informed r.store completedReply.toReplyDocument
    (fnv1a64Hex completedFile)

theorem parseSample_completedFile : parseSample completedFile = some completedReply := by
  have hne : completedFile ≠ runningFile := by decide +kernel
  rw [parseSample, if_neg hne, if_pos rfl]

/-- The state of an owned run that was just fired. -/
def ReplyState.fired : ReplyState :=
  [.createTimer (.sample .skip) 0, .setTimerOwner ⟨0⟩ "app", .fire (.owned (60 * NS))].foldl
    (fun r c => Commit.after .sample c r) {}

/-- The app reports that it runs. -/
def Commit.running : Commit :=
  .ingest (.sample .skip) runningReply.toReplyDocument (fnv1a64Hex runningFile) (61 * NS)
    (61 * NS) (61 * NS)

theorem run_fired : ∃ tr, (gated .sample).Run {} tr .fired :=
  ⟨_, run_gated ⟨trivial, trivial, Firing.gated_of_barrier rfl (by decide +kernel), trivial⟩⟩

theorem holdsReport_sample {s : Store} {row : RunStateRow}
    (hcur : s.newest (Timer.sample .skip).id = some ⟨1⟩) (hrow : s.getRunState ⟨1⟩ = some row)
    (happ : row.appName = "app") :
    HoldsReport parseSample (.sample completedFile) s (Timer.sample .skip) ⟨1⟩ row
      completedFile := by
  refine ⟨rfl, by decide +kernel, hcur, hrow, completedReply, .completed,
    parseSample_completedFile, ?_, rfl, fun h => ?_⟩
  · rw [happ]
    decide +kernel
  · cases h.1

/-- The file of a run that was just fired says that it is done, and the
next fire keeps to it. -/
theorem barrier_sound_completed :
    KeepsVerdict ⟨1⟩ ReplyState.fired.store
      ((fireTx .sample (.second .fired)).run .fired).2.store := by
  obtain ⟨tr, hrun⟩ := run_fired
  obtain ⟨row, hrow⟩ := Option.isSome_iff_exists.mp
    (by decide +kernel : (ReplyState.fired.store.getRunState ⟨1⟩).isSome = true)
  have hfacts : (ReplyState.fired.store.getRunState ⟨1⟩).all
      (fun row => row.appName == "app" && row.replyDigest.isNone) = true := by
    decide +kernel
  rw [hrow, Option.all_some, Bool.and_eq_true, beq_iff_eq] at hfacts
  have hholds := holdsReport_sample (by decide +kernel) hrow hfacts.1
  obtain ⟨doc, newState, hparse, -, -, -, hread⟩ :=
    @readFiles_of_holds (.sample .skip (120 * NS)) .fired _ _ _ _ _ hholds
  obtain rfl := Option.some.inj (hparse.symm.trans parseSample_completedFile)
  have hcommits : ((fireTx .sample (.second .fired)).run .fired).1.isOk = true := by
    decide +kernel
  rcases hfire : (fireTx .sample (.second .fired)).run .fired with ⟨e | out, r'⟩
  · rw [hfire] at hcommits
    cases hcommits
  · refine ((barrier_sound_iff hrun hread).2 _ _ _ hholds out r' hfire).mpr fun hmistaken => ?_
    rw [hmistaken.1] at hfacts
    cases hfacts.2

/-- The app reports that it runs, and then that it is done; the barrier
takes the second report for the first, and the fire supersedes the run. -/
theorem not_barrier_sound :
    ¬∀ parse io tr r f f' r₁, (gated .sample).Run {} tr r →
      (Firing.readFiles parse io f).run r = (.ok f', r₁) →
      ∀ run row bytes, HoldsReport parse io r.store f.timer run row bytes →
        ∀ out r', (fireTx .sample f').run r₁ = (.ok out, r') →
          KeepsVerdict run r.store r'.store := by
  intro h
  obtain ⟨tr, hrun⟩ := run_fired
  have hrun := hrun.snoc (⟨trivial, rfl⟩ : (gated .sample).step .fired .running _)
  obtain ⟨row, hrow⟩ := Option.isSome_iff_exists.mp (by decide +kernel :
    ((Commit.running.after .sample .fired).store.getRunState ⟨1⟩).isSome = true)
  have happ : ((Commit.running.after .sample .fired).store.getRunState ⟨1⟩).all
      (fun row => row.appName == "app") = true := by
    decide +kernel
  rw [hrow, Option.all_some, beq_iff_eq] at happ
  have hholds := holdsReport_sample (by decide +kernel) hrow happ
  obtain ⟨doc, newState, hparse, -, -, -, hread⟩ :=
    @readFiles_of_holds (.sample .skip (120 * NS)) _ _ _ _ _ _ hholds
  obtain rfl := Option.some.inj (hparse.symm.trans parseSample_completedFile)
  have hsuperseded : (match (fireTx .sample (.second (Commit.running.after .sample .fired))).run
      (Commit.running.after .sample .fired) with
      | (.ok _, r') => (r'.store.getRunState ⟨1⟩).all fun row => !row.isAppAuthoredTerminal
      | (.error _, _) => false) = true := by
    decide +kernel
  rcases hfire : (fireTx .sample (.second (Commit.running.after .sample .fired))).run
      (Commit.running.after .sample .fired) with ⟨e | out, r'⟩
  · rw [hfire] at hsuperseded
    cases hsuperseded
  · obtain ⟨⟨row', hrow', happ'⟩, -⟩ := h _ _ _ _ _ _ _ hrun hread _ _ _ hholds out r' hfire
    rw [hfire] at hsuperseded
    dsimp only at hsuperseded
    rw [hrow', Option.all_some, happ'] at hsuperseded
    cases hsuperseded

end Sample

end Bellman

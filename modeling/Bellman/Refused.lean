/-
Bellman/Refused.lean

What a refused request leaves behind.

A request that is answered with an error should have changed nothing but
its own record.  Two things go wrong.  The ack cursor is moved first, before
the request is looked at any further, and stays moved when the rest of the
request is refused.  And a delete request for a timer that is gone clears
its owner and its cursor before it is answered with "timer not found".

Main results: a refused request leaves every row as it was exactly when it
is *inert*: it does not pass for the owner of the timer it names, or it is
no delete and acknowledges nothing that is not acknowledged already
(`refusal_changes_nothing_iff`); a patch that is refused, with an ack that
is not (`refused_patch_acknowledges`).
-/
import Bellman.Slots

namespace Bellman

open ProgramLogic Prog

/-- The same rows in every table. -/
structure Store.SameRows (s s' : Store) : Prop where
  timers : s'.timers = s.timers
  owners : ∀ t, s'.getTimerOwner t = s.getTimerOwner t
  cursors : ∀ t, s'.ackCursor t = s.ackCursor t
  runs : s'.runs = s.runs
  runStates : s'.runStates = s.runStates
  eventOutbox : s'.eventOutbox = s.eventOutbox
  transportProjections : s'.transportProjections = s.transportProjections
  targetCursors : s'.targetCursors = s.targetCursors

theorem Store.SameRows.refl (s : Store) : s.SameRows s :=
  ⟨rfl, fun _ => rfl, fun _ => rfl, rfl, rfl, rfl, rfl, rfl⟩

/-- An ack changes nothing exactly when the cursor is there and not behind
it. -/
theorem sameRows_ackedThrough {s : Store} {timerId : Uuid} {n : Nat} :
    s.SameRows (s.ackedThrough timerId n) ↔
      ∃ cursor, s.ackCursor timerId = some cursor ∧ n ≤ cursor := by
  constructor
  · intro h
    have hc := h.cursors timerId
    rw [Store.ackCursor_ackedThrough, if_pos rfl, Store.lastAckedSequence_eq] at hc
    refine ⟨_, hc.symm, ?_⟩
    omega
  · rintro ⟨cursor, hc, hn⟩
    refine ⟨rfl, fun _ => rfl, fun t => ?_, rfl, rfl, rfl, rfl, rfl⟩
    rw [Store.ackCursor_ackedThrough]
    split
    · next ht =>
      rw [ht, hc, Store.lastAckedSequence_eq, hc, Option.getD_some, Nat.max_eq_left hn]
    · rfl

section

variable [Wire]

/-- The request has nothing to take back when it is refused: it names no
timer of its app, or it is no delete and its ack is behind the cursor. -/
def SlotRequest.Inert (req : SlotRequest) (operation : SlotOperation) (s : Store) : Prop :=
  ∀ payload appName timerId, req.open? = .ok (payload, appName) →
    payload.resolvedTimerId = some timerId → s.getTimerOwner timerId = some appName →
    operation ≠ .delete ∧ ∀ ack, payload.ackThrough = some ack →
      ∃ cursor, s.ackCursor timerId = some cursor ∧ ackSequence ack ≤ cursor

/-- The ways a request is refused: before anything is written, after its
ack, or as the delete of a timer that is gone. -/
inductive Refusal (req : SlotRequest) (operation : SlotOperation) (s : Store) : Store → Prop
  | early (h : ∀ payload appName timerId, req.open? = .ok (payload, appName) →
      payload.resolvedTimerId = some timerId → s.getTimerOwner timerId = some appName →
      operation ≠ .delete ∧ payload.ackThrough = none) : Refusal req operation s s
  | acked {payload appName timerId ack} (hopen : req.open? = .ok (payload, appName))
      (hid : payload.resolvedTimerId = some timerId)
      (howner : s.getTimerOwner timerId = some appName) (hack : payload.ackThrough = some ack)
      (hop : operation ≠ .delete) :
      Refusal req operation s (s.ackedThrough timerId (ackSequence ack))
  | gone {payload appName timerId s'} (hopen : req.open? = .ok (payload, appName))
      (hid : payload.resolvedTimerId = some timerId)
      (howner : s.getTimerOwner timerId = some appName) (hop : operation = .delete)
      (hclear : s'.getTimerOwner timerId = none) : Refusal req operation s s'

theorem Refusal.sameRows_iff {req : SlotRequest} {operation : SlotOperation} {s s' : Store}
    (h : Refusal req operation s s') : s.SameRows s' ↔ req.Inert operation s := by
  cases h with
  | early h =>
    refine ⟨fun _ payload appName timerId hopen hid howner => ?_, fun _ => .refl s⟩
    obtain ⟨hop, hack⟩ := h payload appName timerId hopen hid howner
    refine ⟨hop, fun ack h => ?_⟩
    rw [hack] at h
    cases h
  | @acked payload appName timerId ack hopen hid howner hack hop =>
    rw [sameRows_ackedThrough]
    constructor
    · rintro hc payload' appName' timerId' hopen' hid' -
      rw [hopen] at hopen'
      cases hopen'
      rw [hid] at hid'
      cases hid'
      refine ⟨hop, fun ack' hack' => ?_⟩
      rw [hack] at hack'
      cases hack'
      exact hc
    · intro h
      exact (h payload appName timerId hopen hid howner).2 ack hack
  | @gone payload appName timerId _ hopen hid howner hop hclear =>
    constructor
    · intro h
      have ho := h.owners timerId
      rw [hclear, howner] at ho
      cases ho
    · intro h
      exact absurd hop (h payload appName timerId hopen hid howner).1

variable {payload : SlotPayload} {appName slotId requestId : String} {maxEvents : Nat}
  {now : Int} {s : Store}

/-- A delete is refused before anything is written, or when the timer is
gone: then its owner is gone too. -/
theorem removeTimer_refused :
    wp (removeTimer payload appName slotId requestId maxEvents now)
      (fun response s' => response.status = .error → ∃ timerId,
        payload.resolvedTimerId = some timerId ∧ s.getTimerOwner timerId = some appName ∧
          s'.getTimerOwner timerId = none)
      (fun e s' => ∀ m, e = .invalid m → s' = s ∧ ∀ timerId,
        payload.resolvedTimerId = some timerId → s.getTimerOwner timerId ≠ some appName) s := by
  unfold removeTimer
  split
  · next hid =>
    intro m _
    refine ⟨rfl, fun timerId h => ?_⟩
    rw [hid] at h
    cases h
  · next timerId hid =>
    rw [wp_bind]
    apply wp_checkOwnership
    · intro hown
      rw [wp_bind, wp_get, wp_bind, wp_onTables]
      apply wp_slotDelete
      · intro _ _
        refine ⟨timerId, hid, hown, ?_⟩
        rw [Store.getTimerOwner_forgotten, if_pos rfl]
      · intro timer s' _ _ herr
        cases herr
    · intro hne _ _ _
      refine ⟨rfl, fun timerId' h => ?_⟩
      rw [hid] at h
      cases h
      exact hne

variable [Calendar]

/-- A refused addition wrote nothing. -/
theorem addTimer_refused :
    wp (addTimer payload appName slotId requestId maxEvents now)
      (fun response _ => response.status = .ok)
      (fun e s' => ∀ m, e = .invalid m → s' = s) s := by
  unfold addTimer
  rw [wp_bind, wp_orInvalid]
  refine ⟨fun new _ => ?_, fun m _ m' _ => rfl⟩
  rw [wp_bind, wp_onTables]
  refine wp_mono (wp_iff.mpr ⟨fun _ _ _ => trivial, fun _ _ _ => trivial⟩) (fun timer s' _ => ?_)
    fun e _ _ m h => nomatch h
  rw [wp_bind, wp_onTables, wp_setTimerOwner, wp_bind, wp_ackAdded]
  rfl

/-- A refused change wrote nothing. -/
theorem modifyTimer_refused :
    wp (modifyTimer payload appName slotId requestId maxEvents now)
      (fun response _ => response.status = .ok)
      (fun e s' => ∀ m, e = .invalid m → s' = s) s := by
  unfold modifyTimer
  split
  · exact fun _ _ => rfl
  · next timerId _ =>
    rw [wp_bind]
    apply wp_checkOwnership
    · intro _
      rw [wp_bind, wp_get]
      split
      · exact fun _ _ => rfl
      · rw [wp_bind, wp_orInvalid]
        refine ⟨fun patch _ => ?_, fun m _ m' _ => rfl⟩
        rw [wp_bind, wp_onTables]
        refine wp_mono (wp_iff.mpr ⟨fun _ _ _ => trivial, fun _ _ _ => trivial⟩)
          (fun timer s' _ => rfl) fun e _ _ m h => nomatch h
    · exact fun _ _ _ _ => rfl

/-- Whatever a request does after its ack, it is refused in one of the three
ways. -/
theorem carryOut_refused {req : SlotRequest} {operation : SlotOperation} {s₀ : Store}
    (slotId requestId : String) (maxEvents : Nat) (now : Int)
    (hopen : req.open? = .ok (payload, appName))
    (hs : (payload.ackThrough = none ∨ payload.resolvedTimerId = none) ∧ s = s₀ ∨
      ∃ ack timerId, payload.ackThrough = some ack ∧ payload.resolvedTimerId = some timerId ∧
        s₀.getTimerOwner timerId = some appName ∧
        s = s₀.ackedThrough timerId (ackSequence ack)) :
    wp (operation.carryOut payload appName slotId requestId maxEvents now)
      (fun response s' => response.status = .error → Refusal req operation s₀ s')
      (fun e s' => ∀ m, e = .invalid m → Refusal req operation s₀ s') s := by
  have howner : ∀ t, s.getTimerOwner t = s₀.getTimerOwner t := by
    rcases hs with ⟨-, rfl⟩ | ⟨ack, timerId, -, -, -, rfl⟩ <;> exact fun _ => rfl
  -- Refused after the ack and nothing else.
  have hacked : operation ≠ .delete → Refusal req operation s₀ s := by
    intro hop
    rcases hs with ⟨hsilent, rfl⟩ | ⟨ack, timerId, hack, hid, how, rfl⟩
    · refine .early fun payload' appName' timerId' hopen' hid' _ => ⟨hop, ?_⟩
      rw [hopen] at hopen'
      cases hopen'
      rcases hsilent with h | h
      · exact h
      · rw [hid'] at h
        cases h
    · exact .acked hopen hid how hack hop
  cases operation with
  | add =>
    refine wp_mono addTimer_refused (fun response s' hok herr => ?_) fun e s' h m he => ?_
    · rw [hok] at herr
      cases herr
    · rw [h m he]
      exact hacked (by decide)
  | modify =>
    refine wp_mono modifyTimer_refused (fun response s' hok herr => ?_) fun e s' h m he => ?_
    · rw [hok] at herr
      cases herr
    · rw [h m he]
      exact hacked (by decide)
  | delete =>
    refine wp_mono removeTimer_refused (fun response s' h herr => ?_) fun e s' h m he => ?_
    · obtain ⟨timerId, hid, how, hclear⟩ := h herr
      rw [howner] at how
      exact .gone hopen hid how rfl hclear
    · obtain ⟨rfl, hne⟩ := h m he
      rcases hs with ⟨-, rfl⟩ | ⟨ack, timerId, -, hid, how, rfl⟩
      · refine .early fun payload' appName' timerId' hopen' hid' how' => ?_
        rw [hopen] at hopen'
        cases hopen'
        exact absurd how' (hne timerId' hid')
      · exact absurd how (hne timerId hid)

theorem respond_refused {req : SlotRequest} {operation : SlotOperation} :
    wp (respond req operation requestId maxEvents now)
      (fun response s' => response.status = .error → Refusal req operation s s')
      (fun _ _ => True) s := by
  apply wp_respond
  unfold applyRequestTx
  rw [wp_bind, wp_orInvalid]
  refine ⟨fun opened hopen => ?_, fun m hopen _ => ?_⟩
  · obtain ⟨payload, appName⟩ := opened
    dsimp only
    rw [wp_bind]
    apply wp_advanceAck
    · intro h
      refine wp_mono (carryOut_refused req.slotId requestId maxEvents now hopen (.inl ⟨h, rfl⟩))
        (fun _ _ hq => hq) fun e s' h => ?_
      cases e with
      | invalid m => exact fun _ => h m rfl
      | _ => trivial
    · intro ack timerId hack hid how
      refine wp_mono (carryOut_refused req.slotId requestId maxEvents now hopen
        (.inr ⟨ack, timerId, hack, hid, how, rfl⟩)) (fun _ _ hq => hq) fun e s' h => ?_
      cases e with
      | invalid m => exact fun _ => h m rfl
      | _ => trivial
    · intro timerId hid hne m _
      refine .early fun payload' appName' timerId' hopen' hid' how' => ?_
      rw [hopen] at hopen'
      cases hopen'
      rw [hid] at hid'
      cases hid'
      exact absurd how' hne
  · refine .early fun payload' appName' timerId' hopen' _ _ => ?_
    rw [hopen] at hopen'
    cases hopen'

/-- **A refused request changes nothing exactly when it is inert.**  It adds
its own record, and a duplicate of an answered request adds nothing. -/
theorem refusal_changes_nothing_iff {req : SlotRequest} {operation : SlotOperation}
    {s s' : SlotStore} {answer : SlotRequestRecord}
    (hrun : (executeRequest req operation requestId maxEvents now).run s = (.ok answer, s'))
    (herror : answer.response.status = .error) :
    (s'.slotRequests = s.slotRequests ∨ s'.slotRequests = s.slotRequests ++ [answer]) ∧
      (s.store.SameRows s'.store ↔
        s.getRequest requestId ≠ none ∨ req.Inert operation s.store) := by
  have h : wp (executeRequest req operation requestId maxEvents now)
      (fun answer s' => answer.response.status = .error →
        (s'.slotRequests = s.slotRequests ∨ s'.slotRequests = s.slotRequests ++ [answer]) ∧
          (s.store.SameRows s'.store ↔
            s.getRequest requestId ≠ none ∨ req.Inert operation s.store))
      (fun _ _ => True) s := by
    apply wp_executeRequest
    · intro existing hold _
      refine ⟨.inl rfl, fun _ => .inl ?_, fun _ => .refl s.store⟩
      rw [hold]
      exact Option.some_ne_none existing
    · intro hnone
      refine wp_mono respond_refused (fun response t hr herr => ?_) fun _ _ _ => trivial
      have hiff := (hr herr).sameRows_iff
      refine ⟨.inr rfl, fun hsame => .inr (hiff.mp hsame), ?_⟩
      rintro (hsome | hinert)
      · exact absurd hnone hsome
      · exact hiff.mpr hinert
  exact wp_ok h hrun herror

end

/-! ### A refused patch -/

section Sample

attribute [local instance] Wire.plain Calendar.utcOnly

/-- The timer of an app, just added. -/
def addedLamp : SlotStore :=
  ((executeRequest (.sampleAdd "a" "lamp") .add "a" 64 0).run {}).2

/-- A patch with a policy that there is not, and an ack. -/
def badPatch : SlotRequest :=
  .sample "m" "lamp" .modify [("misfire_policy", .str "never"), ("ack_through", .num 5)]

/-- The run of the bad patch. -/
def patchedLamp : Except SlotError SlotRequestRecord × SlotStore :=
  (executeRequest badPatch .modify "m" 64 0).run addedLamp

theorem badPatch_refused : patchedLamp.1.toOption.map (·.response.status) = some .error := by
  decide +kernel

theorem refusal_changes_nothing_badPatch :
    ∃ answer, patchedLamp = (.ok answer, patchedLamp.2) ∧
      (patchedLamp.2.slotRequests = addedLamp.slotRequests ∨
        patchedLamp.2.slotRequests = addedLamp.slotRequests ++ [answer]) ∧
      (addedLamp.store.SameRows patchedLamp.2.store ↔
        addedLamp.getRequest "m" ≠ none ∨ badPatch.Inert .modify addedLamp.store) := by
  obtain ⟨answer, hrun, herr⟩ := run_of_map badPatch_refused
  exact ⟨answer, hrun, refusal_changes_nothing_iff hrun herr⟩

/-- **A patch is refused, and acknowledges five runs.** -/
theorem refused_patch_acknowledges :
    ¬∀ (_ : Wire) (_ : Calendar) (req : SlotRequest) (operation : SlotOperation)
      (requestId : String) (maxEvents : Nat) (now : Int) (s s' : SlotStore)
      (answer : SlotRequestRecord),
      (executeRequest req operation requestId maxEvents now).run s = (.ok answer, s') →
      answer.response.status = .error → s.store.SameRows s'.store := by
  intro h
  obtain ⟨answer, hrun, herr⟩ := run_of_map badPatch_refused
  have hsame := h _ _ badPatch .modify "m" 64 0 addedLamp _ answer hrun herr
  have hbefore : addedLamp.store.ackCursor SlotRequest.sampleId = none := by decide +kernel
  have hafter : patchedLamp.2.store.ackCursor SlotRequest.sampleId = some 5 := by
    decide +kernel
  have hc := hsame.cursors SlotRequest.sampleId
  rw [hbefore] at hc
  exact absurd (hafter.symm.trans hc) (by decide)

end Sample

end Bellman

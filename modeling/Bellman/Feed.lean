/-
Bellman/Feed.lean

The run feed is delivered at least once.

A successful response for a timer carries the runs of the timer that lie
above its ack cursor, oldest first and at most `max_events` of them.  A run
is thus shown again and again until the cursor has passed it, and the cursor
is only ever moved by an ack:

    lastAckedSequence t = 0   or   some ack sent for t is at least as large

Nothing ties an ack to the runs there are.  An app that acknowledges a
sequence which is still to come has acknowledged the run that gets it.

Main results: the cursors are held up by acks alone (`acked_of_run`); each
run of a timer is in every answer for the timer, unless older runs fill it or
the app has acknowledged the run (`feed_at_least_once`); an early ack hides a
run that is claimed later, and older runs hide one that is not acknowledged
(`feed_hides_run`).
-/
import Bellman.SlotLedger
import Bellman.Statements

namespace Bellman

open ProgramLogic Prog ReplyM

/-! ### Cursors -/

/-- The cursors are no further than they were, or than acks take them. -/
def Advanced (acks : Uuid → Nat → Prop) (s s' : Store) : Prop :=
  ∀ t, s'.lastAckedSequence t ≤ s.lastAckedSequence t ∨
    ∃ n, acks t n ∧ s'.lastAckedSequence t ≤ n

section

variable {acks : Uuid → Nat → Prop} {s s' : Store}

instance : Std.Refl (Advanced acks) := ⟨fun _ _ => .inl (Nat.le_refl _)⟩

instance : IsTrans Store (Advanced acks) where
  trans _ _ _ h h' t := by
    rcases h' t with h' | h'
    · rcases h t with h | ⟨n, hn, h⟩
      · exact .inl (Nat.le_trans h' h)
      · exact .inr ⟨n, hn, Nat.le_trans h' h⟩
    · exact .inr h'

theorem Advanced.mono {acks' : Uuid → Nat → Prop} (h : Advanced acks s s')
    (hacks : ∀ t n, acks t n → acks' t n) : Advanced acks' s s' :=
  fun t => (h t).imp_right fun ⟨n, hn, hle⟩ => ⟨n, hacks t n hn, hle⟩

theorem advanced_of_same (h : s'.slotEventAcks = s.slotEventAcks) : Advanced acks s s' := by
  intro t
  unfold Store.lastAckedSequence
  rw [h]
  exact .inl (Nat.le_refl _)

theorem advanced_ackedThrough {timerId : Uuid} {n k : Nat} (h : acks timerId k) (hk : n ≤ k) :
    Advanced acks s (s.ackedThrough timerId n) := by
  intro t
  rw [Store.lastAckedSequence_eq, Store.ackCursor_ackedThrough]
  by_cases ht : t = timerId
  · subst ht
    rw [if_pos rfl, Option.getD_some]
    rcases Nat.le_total n (s.lastAckedSequence t) with hle | hle
    · left
      rw [Nat.max_eq_left hle]
    · right
      refine ⟨k, h, ?_⟩
      rwa [Nat.max_eq_right hle]
  · rw [if_neg ht]
    exact .inl (Nat.le_refl _)

/-- A cursor that is taken out starts again at zero. -/
theorem advanced_of_erased {timerId : Uuid}
    (h : s'.slotEventAcks = s.slotEventAcks.filter fun a => a.1 ≠ timerId) :
    Advanced acks s s' := by
  intro t
  have hcursor : s'.ackCursor t = (s.forgotten timerId).ackCursor t := by
    unfold Store.ackCursor
    rw [h]
    rfl
  rw [Store.lastAckedSequence_eq, hcursor, Store.ackCursor_forgotten]
  left
  split
  · exact Nat.zero_le _
  · exact Nat.le_refl _

theorem advanced_forgotten {timerId : Uuid} : Advanced acks s (s.forgotten timerId) :=
  advanced_of_erased rfl

theorem advanced_statements : Statements (Advanced acks) where
  emit kind loggedAt subject note := by
    unfold emit newUuid enqueueEventConn
    refine within_bind (within_modifyGet fun _ => advanced_of_same rfl) fun _ =>
      within_modify fun _ => advanced_of_same ?_
    split <;> rfl
  uuid _ := advanced_of_same rfl
  runs _ _ := advanced_of_same rfl
  states _ _ := advanced_of_same rfl
  timers _ _ := advanced_of_same rfl

theorem slotDelete_advanced (timerId : Uuid) (appName : String) (utc : Int) :
    Within (Advanced acks) (slotDelete timerId appName utc) := by
  intro s
  apply wp_slotDelete
  · intro _
    exact advanced_forgotten
  · intro timer s' _ hc
    exact IsTrans.trans (r := Advanced acks) _ _ _ (advanced_of_same hc.slotEventAcks)
      advanced_forgotten

end

/-! ### The feed of a timer -/

/-- The order of the feed is total. -/
theorem feedLe_total (a b : RunClaim) : Store.feedLe a b ∨ Store.feedLe b a := by
  unfold Store.feedLe
  omega

theorem feedLe_trans {a b c : RunClaim} (h : Store.feedLe a b) (h' : Store.feedLe b c) :
    Store.feedLe a c := by
  unfold Store.feedLe at *
  omega

instance : Std.Total Store.feedLe := ⟨feedLe_total⟩

instance : IsTrans RunClaim Store.feedLe := ⟨fun _ _ _ => feedLe_trans⟩

/-- A run of the timer is in its feed, unless the feed is filled by older
runs or the cursor has passed it. -/
theorem mem_eventsFor_or {s : Store} {r : RunClaim} (hr : r ∈ s.runs) (maxEvents : Nat) :
    SlotRunEvent.fromClaim r ∈ s.eventsFor r.timerId maxEvents ∨
      ((s.eventsFor r.timerId maxEvents).length = maxEvents ∧
        ∀ e ∈ s.eventsFor r.timerId maxEvents,
          e.timerId = r.timerId ∧ e.eventSequence ≤ r.eventSequence) ∨
      r.eventSequence ≤ s.lastAckedSequence r.timerId := by
  rcases Nat.lt_or_ge (s.lastAckedSequence r.timerId) r.eventSequence with hlt | hle
  · have hmem : r ∈ s.feedAbove r.timerId (s.lastAckedSequence r.timerId) := by
      unfold Store.feedAbove
      rw [List.mem_insertionSort, List.mem_filter]
      simp [hr, hlt]
    have hsorted : (s.feedAbove r.timerId (s.lastAckedSequence r.timerId)).Pairwise
        Store.feedLe := List.pairwise_insertionSort _ _
    rcases Rows.mem_take_or hsorted hmem maxEvents with hin | ⟨hlen, hbefore⟩
    · exact .inl (List.mem_map_of_mem hin)
    · refine .inr (.inl ⟨?_, ?_⟩)
      · unfold Store.eventsFor
        rw [List.length_map]
        exact hlen
      · intro e he
        obtain ⟨q, hq, rfl⟩ := List.mem_map.mp he
        have hq' := List.mem_of_mem_take hq
        unfold Store.feedAbove at hq'
        rw [List.mem_insertionSort, List.mem_filter] at hq'
        refine ⟨eq_of_beq (Bool.and_eq_true_iff.mp hq'.2).1, ?_⟩
        rcases hbefore q hq with h | h
        · exact Nat.le_of_lt h
        · exact Nat.le_of_eq h.1
  · exact .inr (.inr hle)

/-! ### Acks -/

/-- The ack that a commit of another process makes. -/
def Commit.acks (c : Commit) (t : Uuid) (n : Nat) : Prop := c = .ackRunEvents t n

section

variable [Calendar] {cfg : FireConfig}

theorem Commit.advanced (c : Commit) (r : ReplyState) :
    Advanced c.acks r.store (c.after cfg r).store := by
  have hput : ∀ {g : Store → Store}, (∀ s, Advanced c.acks s (g s)) →
      Within (Seen (Advanced c.acks)) (onStore (modify g : StoreM Unit)) := fun h =>
    onStore_within (within_modify h)
  have h : Within (Seen (Advanced c.acks)) (c.prog cfg) := by
    by_cases hp : c.isPlain = true
    · exact advanced_statements.commit hp cfg
    cases c with
    | deleteTimerLifecycle timer owner utc =>
      refine discard_store_within (within_atomically (within_bind
        (advanced_statements.cancelOpenRun_within timer owner utc) fun _ => ?_))
      refine within_bind (within_modifyGet fun _ => advanced_of_same rfl) fun _ => ?_
      refine within_bind (within_modify fun _ => advanced_of_same rfl) fun _ => ?_
      refine within_bind (within_modify fun _ => advanced_of_erased rfl) fun _ => ?_
      exact within_bind (within_modify fun _ => advanced_of_same rfl) fun _ => within_pure _
    | slotDelete timerId appName utc =>
      exact discard_store_within (slotDelete_advanced timerId appName utc)
    | setTimerOwner timerId appName => exact hput fun _ => advanced_of_same rfl
    | clearTimerOwner timerId => exact hput fun _ => advanced_of_same rfl
    | ackRunEvents timerId n =>
      refine discard_store_within (within_modifyGet fun s => ?_)
      exact advanced_ackedThrough (s := s) rfl (Nat.le_refl n)
    | fire f =>
      refine discard_within (advanced_statements.fireTx_within (fun _ => ?_) cfg f)
      exact within_modify fun _ => advanced_of_same rfl
    | markEventPublished eventId => exact hput fun _ => advanced_of_same rfl
    | _ => exact absurd rfl hp
  exact after_of_wp (h r)

end

/-- The step sends an ack through `n` for the timer: a request of its owner
that names it, the request that adds it, or another process. -/
inductive Acks [Wire] (s : SlotState) : SlotStep → Uuid → Nat → Prop
  | named {req operation requestId now payload appName t n}
      (hopen : req.open? = .ok (payload, appName)) (hid : payload.resolvedTimerId = some t)
      (howner : s.reply.store.getTimerOwner t = some appName)
      (hack : payload.ackThrough = some n) : Acks s (.request req operation requestId now) t n
  | added {req requestId now payload appName t n} (hopen : req.open? = .ok (payload, appName))
      (hid : payload.resolvedTimerId.getD ⟨s.reply.store.nextUuid⟩ = t)
      (hack : payload.ackThrough = some n) : Acks s (.request req .add requestId now) t n
  | direct {t n} : Acks s (.commit (.ackRunEvents t n)) t n

theorem ackSequence_le (n : Nat) : ackSequence n ≤ n := by
  unfold ackSequence
  split
  · exact Nat.le_refl n
  · exact Nat.zero_le n

/-! ### Answers -/

/-- The response carries the feed of its timer, from a store with the runs of
`s` and no cursor further than in `s`, or than acks take it. -/
def Feeds (acks : Uuid → Nat → Prop) (maxEvents : Nat) (s : Store) (response : SlotResponse) :
    Prop :=
  response.status = .ok → ∃ t s', response.timerId = some t ∧ s'.runs = s.runs ∧
    Advanced acks s s' ∧ response.events = s'.eventsFor t maxEvents

section

variable [Wire] [Calendar] {cfg : FireConfig} {maxEvents : Nat} {s : SlotState}
  {req : SlotRequest} {requestId : String} {now : Int} {payload : SlotPayload}
  {appName : String}

/-- What a request that gets this far does to the cursors, and what it
answers. -/
theorem carryOut_feeds (operation : SlotOperation) {acks : Uuid → Nat → Prop} {s₀ s₁ : Store}
    (hruns : s₁.runs = s₀.runs) (hadv : Advanced acks s₀ s₁)
    (hadded : operation = .add → ∀ n, payload.ackThrough = some n →
      acks (payload.resolvedTimerId.getD ⟨s₁.nextUuid⟩) n) (slotId : String) :
    wp (operation.carryOut payload appName slotId requestId maxEvents now)
      (fun response s' => Feeds acks maxEvents s₀ response ∧ Advanced acks s₀ s')
      (fun _ s' => Advanced acks s₀ s') s₁ := by
  have hsame : ∀ {s'}, s'.slotEventAcks = s₁.slotEventAcks → Advanced acks s₀ s' := fun h =>
    IsTrans.trans (r := Advanced acks) _ _ _ hadv (advanced_of_same h)
  cases operation with
  | add =>
    show wp (addTimer payload appName slotId requestId maxEvents now) _ _ s₁
    unfold addTimer
    rw [wp_bind, wp_orInvalid]
    refine ⟨fun new hnew => ?_, fun _ _ => hadv⟩
    rw [wp_bind, wp_onTables]
    refine wp_createTimerTx (fun timer n _ hid _ => ?_) fun _ _ => hsame rfl
    rw [id_newTimerFromPayload hnew] at hid
    simp only [wp_bind, wp_onTables, wp_setTimerOwner, wp_ackAdded, wp_get, wp_pure]
    -- The timer and its owner are there; what is left is the ack.
    generalize hs₂ : Store.ownedBy _ timer.id appName = s₂
    have h₂ : Advanced acks s₀ s₂ := by
      subst hs₂
      exact hsame rfl
    have hruns₂ : s₂.runs = s₀.runs := by
      subst hs₂
      exact hruns
    have h₃ : Advanced acks s₀ (s₂.ackedOnAdd timer.id payload.ackThrough) ∧
        (s₂.ackedOnAdd timer.id payload.ackThrough).runs = s₀.runs := by
      cases hack : payload.ackThrough with
      | none => exact ⟨h₂, hruns₂⟩
      | some ack =>
        refine ⟨IsTrans.trans (r := Advanced acks) _ _ _ h₂ ?_, hruns₂⟩
        refine advanced_ackedThrough ?_ (ackSequence_le ack)
        rw [hid]
        exact hadded rfl ack hack
    exact ⟨fun _ => ⟨timer.id, _, rfl, h₃.2, h₃.1, rfl⟩, h₃.1⟩
  | modify =>
    show wp (modifyTimer payload appName slotId requestId maxEvents now) _ _ s₁
    unfold modifyTimer
    split
    · exact hadv
    · next timerId _ =>
      rw [wp_bind]
      refine wp_checkOwnership (fun _ => ?_) fun _ _ => hadv
      rw [wp_bind, wp_get]
      split
      · exact hadv
      · next current _ =>
        rw [wp_bind, wp_orInvalid]
        refine ⟨fun patch _ => ?_, fun _ _ => hadv⟩
        rw [wp_bind, wp_onTables]
        have hplain : Statements (Advanced acks) := advanced_statements
        have h := wp_and (hplain.updateTimerTx_within
          { id := timerId, expectedRevision := current.revision, patch } now s₁)
          (updateTimerTx_logs _ now s₁)
        refine wp_mono h (fun timer s' hs' => ?_) fun _ s' hs' =>
          IsTrans.trans (r := Advanced acks) _ _ _ hadv hs'.1
        have h' : Advanced acks s₀ s' := IsTrans.trans (r := Advanced acks) _ _ _ hadv hs'.1
        exact ⟨fun _ => ⟨timer.id, s', rfl, hs'.2.same.trans hruns, h', rfl⟩, h'⟩
  | delete =>
    show wp (removeTimer payload appName slotId requestId maxEvents now) _ _ s₁
    unfold removeTimer
    split
    · exact hadv
    · next timerId _ =>
      rw [wp_bind]
      refine wp_checkOwnership (fun _ => ?_) fun _ _ => hadv
      rw [wp_bind, wp_get, wp_bind, wp_onTables]
      have hdelete : Within (Advanced acks) (slotDelete timerId appName now) :=
        slotDelete_advanced timerId appName now
      refine hdelete.wp (fun existed s' hs' => ?_)
        fun _ s' hs' => IsTrans.trans (r := Advanced acks) _ _ _ hadv hs'
      have h' : Advanced acks s₀ s' := IsTrans.trans (r := Advanced acks) _ _ _ hadv hs'
      split
      · exact ⟨fun _ => ⟨timerId, s₁, rfl, hruns, hadv, rfl⟩, h'⟩
      · exact ⟨(fun h => nomatch h), h'⟩

/-- What a request does to the cursors, and what it answers. -/
theorem respond_feeds (operation : SlotOperation) :
    wp (respond req operation requestId maxEvents now)
      (fun response s' =>
        Feeds (Acks s (.request req operation requestId now)) maxEvents s.reply.store response ∧
          Advanced (Acks s (.request req operation requestId now)) s.reply.store s')
      (fun _ s' => Advanced (Acks s (.request req operation requestId now)) s.reply.store s')
      s.reply.store := by
  generalize hacks : Acks s (.request req operation requestId now) = acks
  generalize hs₀ : s.reply.store = s₀
  apply wp_respond
  unfold applyRequestTx
  rw [wp_bind, wp_orInvalid]
  have hrefused : ∀ (m : String) s', Advanced acks s₀ s' →
      Feeds acks maxEvents s₀ (.err req.slotId requestId m) ∧ Advanced acks s₀ s' := by
    intro m s' h
    refine ⟨?_, h⟩
    intro hok
    cases hok
  refine ⟨fun opened hopen => ?_, fun m _ => hrefused m _ (Std.Refl.refl s₀)⟩
  obtain ⟨payload, appName⟩ := opened
  have hadded : operation = .add → ∀ n, payload.ackThrough = some n →
      acks (payload.resolvedTimerId.getD ⟨s₀.nextUuid⟩) n := by
    rintro rfl n hack
    rw [← hacks, ← hs₀]
    exact .added hopen rfl hack
  dsimp only
  rw [wp_bind]
  apply wp_advanceAck
  · intro _
    refine wp_mono (carryOut_feeds operation rfl (Std.Refl.refl s₀) hadded req.slotId)
      (fun _ _ h => h) fun e s' h => ?_
    cases e with
    | invalid m => exact hrefused m s' h
    | _ => exact h
  · intro ack timerId hack hid howner
    have h₁ : Advanced acks s₀ (s₀.ackedThrough timerId (ackSequence ack)) := by
      refine advanced_ackedThrough ?_ (ackSequence_le ack)
      rw [← hacks]
      rw [← hs₀] at howner
      exact .named hopen hid howner hack
    have hruns : (s₀.ackedThrough timerId (ackSequence ack)).runs = s₀.runs := rfl
    refine wp_mono (carryOut_feeds operation hruns h₁ hadded req.slotId) (fun _ _ h => h)
      fun e s' h => ?_
    cases e with
    | invalid m => exact hrefused m s' h
    | _ => exact h
  · intro _ _ _ m
    exact hrefused m _ (Std.Refl.refl s₀)

/-- **The cursors are held up by acks alone**, step by step. -/
theorem SlotStep.advanced (l : SlotStep) (s : SlotState) :
    Advanced (Acks s l) s.reply.store (l.after cfg maxEvents s).reply.store := by
  cases l with
  | commit c =>
    have h : Advanced c.acks s.reply.store (c.after cfg s.reply).store := c.advanced s.reply
    refine h.mono fun t n h => ?_
    obtain rfl : c = .ackRunEvents t n := h
    exact .direct
  | request req operation requestId now =>
    generalize hacks : Acks s (.request req operation requestId now) = acks
    have h : wp (executeRequest req operation requestId maxEvents now)
        (fun _ db => Advanced acks s.reply.store db.store)
        (fun _ db => Advanced acks s.reply.store db.store) s.db := by
      apply wp_executeRequest
      · exact fun _ _ => Std.Refl.refl s.reply.store
      · intro _
        subst hacks
        exact wp_mono (respond_feeds operation) (fun _ _ h => h.2) fun _ _ _ =>
          Std.Refl.refl s.reply.store
    show Advanced _ _ ((executeRequest req operation requestId maxEvents now).run s.db).2.store
    rcases hrun : (executeRequest req operation requestId maxEvents now).run s.db with ⟨_ | _, db⟩
    · exact wp_error h hrun
    · exact wp_ok h hrun

/-- In every run, a cursor stands at zero or some ack was sent that is at
least as large. -/
theorem acked_of_run {tr : List (System.Event SlotState SlotStep)}
    (h : (slotLedger cfg maxEvents).Run {} tr s) (t : Uuid) :
    s.reply.store.lastAckedSequence t = 0 ∨
      ∃ d ∈ tr, ∃ n, Acks d.pre d.label t n ∧ s.reply.store.lastAckedSequence t ≤ n := by
  refine h.trace_induction (J := fun tr s => s.reply.store.lastAckedSequence t = 0 ∨
      ∃ d ∈ tr, ∃ n, Acks d.pre d.label t n ∧ s.reply.store.lastAckedSequence t ≤ n)
    (.inl rfl) ?_
  rintro tr s l _ _ rfl ih
  have hadv : Advanced (Acks s l) s.reply.store (l.after cfg maxEvents s).reply.store :=
    l.advanced s
  rcases hadv t with hle | ⟨n, hn, hle⟩
  · rcases ih with h0 | ⟨d, hd, n, hn, hn'⟩
    · left
      omega
    · exact .inr ⟨d, List.mem_append_left _ hd, n, hn, Nat.le_trans hle hn'⟩
  · exact .inr ⟨_, List.mem_append_right _ (List.mem_singleton_self _), n, hn, hle⟩

/-- **The run feed is at-least-once.**  Each run of a timer is in every
response that is computed for the timer, unless older runs fill it, or an
ack was sent for the timer that is at least the run's sequence. -/
theorem feed_at_least_once {tr : List (System.Event SlotState SlotStep)}
    (h : (slotLedger cfg maxEvents).Run {} tr s) {operation : SlotOperation}
    {answer : SlotRequestRecord} {db : SlotStore}
    (hfresh : s.db.getRequest requestId = none)
    (hrun : (executeRequest req operation requestId maxEvents now).run s.db = (.ok answer, db))
    (hok : answer.response.status = .ok) {r : RunClaim} (hr : r ∈ s.reply.store.runs)
    (ht : answer.response.timerId = some r.timerId) :
    .fromClaim r ∈ answer.response.events ∨
      (answer.response.events.length = maxEvents ∧ ∀ e ∈ answer.response.events,
        e.timerId = r.timerId ∧ e.eventSequence ≤ r.eventSequence) ∨
      ∃ n, r.eventSequence ≤ n ∧
        (Acks s (.request req operation requestId now) r.timerId n ∨
          ∃ d ∈ tr, Acks d.pre d.label r.timerId n) := by
  have hfeeds : wp (executeRequest req operation requestId maxEvents now)
      (fun answer _ => Feeds (Acks s (.request req operation requestId now)) maxEvents
        s.reply.store answer.response) (fun _ _ => True) s.db := by
    apply wp_executeRequest
    · intro existing hold
      rw [hfresh] at hold
      cases hold
    · intro _
      exact wp_mono (respond_feeds operation) (fun _ _ h => h.1) fun _ _ _ => trivial
  obtain ⟨t, s', ht', hruns, hadv, hevents⟩ := wp_ok hfeeds hrun hok
  obtain rfl : r.timerId = t := Option.some.inj (ht.symm.trans ht')
  rw [← hruns] at hr
  rw [hevents]
  refine (mem_eventsFor_or hr maxEvents).imp_right (Or.imp_right fun hle => ?_)
  rcases hadv r.timerId with hle' | ⟨n, hn, hle'⟩
  · rcases acked_of_run h r.timerId with h0 | ⟨d, hd, n, hn, hle''⟩
    · rw [hruns] at hr
      have hpos := (runsNumbered_of_run h).pos r hr
      omega
    · exact ⟨n, by omega, .inr ⟨d, hd, hn⟩⟩
  · exact ⟨n, by omega, .inl hn⟩

end

/-! ### Runs that are not shown -/

section Sample

attribute [local instance] Wire.plain Calendar.utcOnly

/-- A fire of the lamp at a slot. -/
def lampFire (slot : Int) : SlotStep :=
  .commit (.fire { Firing.sample .queueOne slot with
    timer := { Timer.sample .queueOne with id := SlotRequest.sampleId }, owner := some "lamp" })

/-- An app adds its lamp. -/
def lampAdd : SlotStep := .request (.sampleAdd "a" "lamp") .add "a" 0

/-- A change that only acknowledges a run, which is still to come. -/
def lampAck : SlotStep :=
  .request (.sample "k" "lamp" .modify [("ack_through", .num 1)]) .modify "k" 0

/-- The steps, one after another. -/
def lampTrace (maxEvents : Nat) (steps : List SlotStep) :
    List (System.Event SlotState SlotStep) :=
  System.trace (fun s l => l.after .sample maxEvents s) {} steps

def lampState (maxEvents : Nat) (steps : List SlotStep) : SlotState :=
  steps.foldl (fun s l => l.after .sample maxEvents s) {}

theorem lamp_run (maxEvents : Nat) (steps : List SlotStep) :
    (slotLedger .sample maxEvents).Run {} (lampTrace maxEvents steps)
      (lampState maxEvents steps) :=
  System.run_trace (fun _ _ => rfl) _ steps

/-- A change that asks for nothing but the feed. -/
def lampAsk : SlotRequest := .sample "m" "lamp" .modify []

/-- The answer to it. -/
def lampAnswer (maxEvents : Nat) (steps : List SlotStep) :
    Except SlotError SlotRequestRecord × SlotStore :=
  (executeRequest lampAsk .modify "m" maxEvents 0).run (lampState maxEvents steps).db

/-- The status, the timer and the runs of the answer. -/
def lampFeed (maxEvents : Nat) (steps : List SlotStep) :
    Option (SlotStatus × Option Uuid × List Nat) :=
  (lampAnswer maxEvents steps).1.toOption.map fun a =>
    (a.response.status, a.response.timerId, a.response.events.map (·.eventSequence))

/-- An answer that shows the run. -/
theorem lampFeed_one :
    lampFeed 64 [lampAdd, lampFire 60] = some (.ok, some SlotRequest.sampleId, [1]) := by
  decide +kernel

theorem feed_at_least_once_lamp :
    ∃ answer r, lampAnswer 64 [lampAdd, lampFire 60] =
        (.ok answer, (lampAnswer 64 [lampAdd, lampFire 60]).2) ∧
      r ∈ (lampState 64 [lampAdd, lampFire 60]).reply.store.runs ∧
      (.fromClaim r ∈ answer.response.events ∨
        (answer.response.events.length = 64 ∧ ∀ e ∈ answer.response.events,
          e.timerId = r.timerId ∧ e.eventSequence ≤ r.eventSequence) ∨
        ∃ n, r.eventSequence ≤ n ∧
          (Acks (lampState 64 [lampAdd, lampFire 60]) (.request lampAsk .modify "m" 0)
              r.timerId n ∨
            ∃ d ∈ lampTrace 64 [lampAdd, lampFire 60], Acks d.pre d.label r.timerId n)) := by
  obtain ⟨answer, hrun, h⟩ := run_of_map lampFeed_one
  obtain ⟨hok, htimer, -⟩ : answer.response.status = .ok ∧
      answer.response.timerId = some SlotRequest.sampleId ∧
      answer.response.events.map (·.eventSequence) = [1] := by simpa using h
  obtain ⟨r, hr, ht⟩ : ∃ r ∈ (lampState 64 [lampAdd, lampFire 60]).reply.store.runs,
      r.timerId = SlotRequest.sampleId := by decide +kernel
  refine ⟨answer, r, hrun, hr, ?_⟩
  exact feed_at_least_once (lamp_run 64 _) (by decide +kernel) hrun hok hr (ht ▸ htimer)

/-- In every answer that is computed, every run of its timer is as `shown`
says. -/
def EveryAnswer (shown : ∀ [Wire], Nat → List (System.Event SlotState SlotStep) → SlotState →
    SlotStep → SlotResponse → RunClaim → Prop) : Prop :=
  ∀ (_ : Wire) (_ : Calendar) (cfg : FireConfig) (maxEvents : Nat)
    (tr : List (System.Event SlotState SlotStep)) (s : SlotState) (req : SlotRequest)
    (operation : SlotOperation) (requestId : String) (now : Int) (answer : SlotRequestRecord)
    (db : SlotStore) (r : RunClaim),
    (slotLedger cfg maxEvents).Run {} tr s → s.db.getRequest requestId = none →
    (executeRequest req operation requestId maxEvents now).run s.db = (.ok answer, db) →
    answer.response.status = .ok → r ∈ s.reply.store.runs →
    answer.response.timerId = some r.timerId →
    shown maxEvents tr s (.request req operation requestId now) answer.response r

theorem not_acks_lampAdd {s : SlotState} {t : Uuid} {n : Nat} : ¬Acks s lampAdd t n := by
  have hnone : (SlotRequest.sampleAdd "a" "lamp").open?.toOption.map (·.1.ackThrough) =
      some none := by decide +kernel
  intro h
  cases h with
  | named hopen _ _ hack | added hopen _ hack =>
    rw [hopen] at hnone
    exact absurd ((Option.some.inj hnone).symm.trans hack) (by simp)

theorem not_acks_lampAsk {s : SlotState} {t : Uuid} {n : Nat} :
    ¬Acks s (.request lampAsk .modify "m" 0) t n := by
  have hnone : lampAsk.open?.toOption.map (·.1.ackThrough) = some none := by decide +kernel
  intro h
  cases h with
  | named hopen _ _ hack =>
    rw [hopen] at hnone
    exact absurd ((Option.some.inj hnone).symm.trans hack) (by simp)

theorem not_acks_lampFire {s : SlotState} {t : Uuid} {n : Nat} {slot : Int} :
    ¬Acks s (lampFire slot) t n := nofun

/-- **Two ways to miss a run.**  The app acknowledges a run before it is
there; or it acknowledges nothing, and the answer is full of older runs. -/
theorem feed_hides_run :
    (¬EveryAnswer fun maxEvents tr s l response r =>
      .fromClaim r ∈ response.events ∨ response.events.length = maxEvents ∨
        ∃ n, r.eventSequence ≤ n ∧ (Acks s l r.timerId n ∨
          ∃ d ∈ tr, Acks d.pre d.label r.timerId n ∧
            ∃ q ∈ d.pre.reply.store.runs, q.runId = r.runId)) ∧
    ¬EveryAnswer fun _ tr s l response r =>
      .fromClaim r ∈ response.events ∨
        ∃ n, r.eventSequence ≤ n ∧ (Acks s l r.timerId n ∨
          ∃ d ∈ tr, Acks d.pre d.label r.timerId n) := by
  constructor
  · intro h
    have hfeed : lampFeed 64 [lampAdd, lampAck, lampFire 60] =
        some (.ok, some SlotRequest.sampleId, []) := by decide +kernel
    obtain ⟨answer, hrun, hfeed⟩ := run_of_map hfeed
    simp only [Prod.mk.injEq, List.map_eq_nil_iff] at hfeed
    obtain ⟨r, hr, ht⟩ : ∃ r ∈ (lampState 64 [lampAdd, lampAck, lampFire 60]).reply.store.runs,
        r.timerId = SlotRequest.sampleId := by decide +kernel
    have hnone : (lampState 64 [lampAdd]).reply.store.runs = [] := by decide +kernel
    rcases h _ _ .sample 64 _ _ lampAsk .modify "m" 0 answer _ r (lamp_run 64 _) (by decide +kernel)
      hrun hfeed.1 hr (ht ▸ hfeed.2.1) with hin | hfull | ⟨n, -, hack | ⟨d, hd, hack, q, hq, -⟩⟩
    · rw [hfeed.2.2] at hin
      cases hin
    · rw [hfeed.2.2] at hfull
      cases hfull
    · exact not_acks_lampAsk hack
    · -- The ack was sent before there was any run.
      rcases List.mem_cons.mp hd with rfl | hd
      · exact not_acks_lampAdd hack
      · rcases List.mem_cons.mp hd with rfl | hd
        · have hq' : q ∈ (lampState 64 [lampAdd]).reply.store.runs := hq
          rw [hnone] at hq'
          cases hq'
        · rw [List.mem_singleton.mp hd] at hack
          exact not_acks_lampFire hack
  · intro h
    have hfeed : lampFeed 1 [lampAdd, lampFire 60, lampFire 120] =
        some (.ok, some SlotRequest.sampleId, [1]) := by decide +kernel
    obtain ⟨answer, hrun, hfeed⟩ := run_of_map hfeed
    simp only [Prod.mk.injEq] at hfeed
    obtain ⟨r, hr, ht, hseq⟩ :
        ∃ r ∈ (lampState 1 [lampAdd, lampFire 60, lampFire 120]).reply.store.runs,
          r.timerId = SlotRequest.sampleId ∧ r.eventSequence = 2 := by decide +kernel
    rcases h _ _ .sample 1 _ _ lampAsk .modify "m" 0 answer _ r (lamp_run 1 _) (by decide +kernel)
      hrun hfeed.1 hr (ht ▸ hfeed.2.1) with hin | ⟨n, -, hack | ⟨d, hd, hack⟩⟩
    · have hseq' : r.eventSequence ∈ answer.response.events.map (·.eventSequence) :=
        List.mem_map_of_mem hin
      rw [hfeed.2.2, hseq] at hseq'
      exact absurd hseq' (by decide)
    · exact not_acks_lampAsk hack
    · rcases List.mem_cons.mp hd with rfl | hd
      · exact not_acks_lampAdd hack
      · rcases List.mem_cons.mp hd with rfl | hd
        · exact not_acks_lampFire hack
        · rw [List.mem_singleton.mp hd] at hack
          exact not_acks_lampFire hack

end Sample

end Bellman

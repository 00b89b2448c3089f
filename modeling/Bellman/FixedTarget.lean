/-
Bellman/FixedTarget.lean

The notifications written to a fixed target.

An attempt compares the cursor of its target with the order of its
projection first, and takes the locks and writes much later; the cursor is
not read again under the target lock.  An attempt that was overtaken in
between finds, when the app has consumed the file, nothing that would tell
it so, and writes the older notification after the newer one.

Main result: where every write to a fixed target finds its projection still
there and not behind the cursor, and no order is issued twice, the orders
written to each fixed target never go down (`target_never_regresses`).  The
invariant is that the cursor of a target, as long as some projection goes
there, is past everything written to it.
-/
import Bellman.PublicationOrder

namespace Bellman

open ProgramLogic Numbering

/-- A target that is no run's own file. -/
def Fixed (x : NotificationCodec) (targetPath : String) : Prop :=
  ∀ run, targetPath ≠ x.fireFile run

/-- What was written to a target, oldest first. -/
def writtenTo (targetPath : String) (tr : List (System.Event Publication PubStep)) :
    List TransportProjection :=
  (tr.filterMap wrote).filter (·.targetPath = targetPath)

/-- No notification is written to a fixed target after one with a greater
order. -/
def NeverRegresses (x : NotificationCodec) (tr : List (System.Event Publication PubStep)) : Prop :=
  ∀ targetPath, Fixed x targetPath →
    (writtenTo targetPath tr).Pairwise fun p q => p.publicationOrder ≤ q.publicationOrder

/-- A write to a fixed target is in time: the projection that the attempt
works from is still in the table, and not behind the cursor. -/
def InTime (x : NotificationCodec) (e : System.Event Publication PubStep) : Prop :=
  ∀ q, wrote e = some q → Fixed x q.targetPath →
    e.pre.store.targetCursor q.targetPath ≤ q.publicationOrder ∧
      ∃ p ∈ e.pre.store.transportProjections, p.runId = q.runId ∧ p.targetPath = q.targetPath ∧
        p.publicationOrder = q.publicationOrder

theorem mem_writtenTo {targetPath : String} {tr : List (System.Event Publication PubStep)}
    {w : TransportProjection} :
    w ∈ writtenTo targetPath tr ↔ (∃ e ∈ tr, wrote e = some w) ∧ w.targetPath = targetPath := by
  simp [writtenTo, List.mem_filter]

theorem writtenTo_append (targetPath : String) (tr tr' : List (System.Event Publication PubStep)) :
    writtenTo targetPath (tr ++ tr') = writtenTo targetPath tr ++ writtenTo targetPath tr' := by
  rw [writtenTo, List.filterMap_append, List.filter_append]
  rfl

section

variable {x : NotificationCodec} {e : System.Event Publication PubStep} {gone : Option Uuid}

/-- Where a projection comes from. -/
theorem Shipment.origin (h : Shipment x gone e.pre.store e.post.store)
    (hok : e.pre.store.ProjectionsOk) {p : TransportProjection}
    (hp : p ∈ e.post.store.transportProjections) (hfixed : Fixed x p.targetPath) :
    p ∈ newProjections e ∨ ∃ o ∈ e.pre.store.transportProjections,
      o.targetPath = p.targetPath ∧ o.publicationOrder = p.publicationOrder := by
  cases h with
  | same _ h => exact .inr ⟨p, h.1 ▸ hp, rfl, rfl⟩
  | pruned timerId _ hps hc => exact .inr ⟨p, List.mem_of_mem_filter (hps ▸ hp), rfl, rfl⟩
  | updated _ f hf hps hc =>
    rw [hps] at hp
    obtain ⟨o, ho, rfl⟩ := List.mem_map.mp hp
    rcases (hf o).target with hsame | ⟨run, hown⟩
    · exact .inr ⟨o, ho, hsame.symm, (hf o).order.symm⟩
    · exact absurd hown (hfixed run)
  | inserted _ proj hrun hclaim horder hlive hps hc =>
    have hfresh := fresh_of_getRun hok hrun
    rw [filter_of_fresh hfresh] at hps
    rw [newProjections_of_append hfresh hps]
    rw [hps] at hp
    rcases List.mem_append.mp hp with hold | hnew
    · exact .inr ⟨p, hold, rfl, rfl⟩
    · exact .inl hnew

theorem find?_filter_of_imp {α : Type} {p q : α → Bool} (h : ∀ a, p a = true → q a = true)
    (l : List α) : (l.filter q).find? p = l.find? p := by
  induction l with
  | nil => rfl
  | cons a l ih =>
    by_cases hp : p a = true
    · simp [h a hp, hp]
    · by_cases hq : q a = true
      · simpa [hq, hp] using ih
      · simpa [hq, hp] using ih

/-- A cursor does not go back while a projection is left for its target. -/
theorem Shipment.cursor_le (h : Shipment x gone e.pre.store e.post.store)
    {p : TransportProjection} (hp : p ∈ e.post.store.transportProjections) :
    e.pre.store.targetCursor p.targetPath ≤ e.post.store.targetCursor p.targetPath := by
  cases h with
  | same _ h =>
    rw [Store.targetCursor, Store.targetCursor, h.2]
  | pruned timerId _ hps hc =>
    have hkept : ∀ c : String × Nat, (c.1 == p.targetPath) = true →
        (e.post.store.transportProjections.any (·.targetPath == c.1)) = true := by
      intro c hcp
      rw [beq_iff_eq] at hcp
      exact List.any_eq_true.mpr ⟨p, hp, by rw [hcp, beq_self_eq_true]⟩
    rw [Store.targetCursor, Store.targetCursor, hc, find?_filter_of_imp hkept]
  | updated _ f hf hps hc =>
    rw [Store.targetCursor, Store.targetCursor, hc]
  | inserted _ proj hrun hclaim horder hlive hps hc =>
    rw [targetCursor_put hc]
    split
    · next ht =>
      rw [ht]
      exact Nat.le_max_left _ _
    · exact Nat.le_refl _

end

/-! ### Runs -/

section

variable {x : NotificationCodec} {tr : List (System.Event Publication PubStep)} {s : Publication}

/-- The cursor of a fixed target, while a projection is left for it, is past
that projection and everything written to the target. -/
def CursorAhead (x : NotificationCodec) (tr : List (System.Event Publication PubStep))
    (s : Publication) : Prop :=
  ∀ p ∈ s.store.transportProjections, Fixed x p.targetPath →
    p.publicationOrder ≤ s.store.targetCursor p.targetPath ∧
      ∀ w ∈ writtenTo p.targetPath tr, w.publicationOrder ≤ s.store.targetCursor p.targetPath

theorem CursorAhead.step {i : PubStep} {s' : Publication} (h : CursorAhead x tr s)
    (hok : s.store.ProjectionsOk) (hship : Shipment x i.prunes s.store s'.store)
    (hin : InTime x ⟨s, i, s'⟩)
    (hnew : ∀ p ∈ newProjections ⟨s, i, s'⟩, Fixed x p.targetPath →
      ∀ w ∈ writtenTo p.targetPath (tr ++ [⟨s, i, s'⟩]),
        w.publicationOrder ≤ p.publicationOrder) :
    CursorAhead x (tr ++ [⟨s, i, s'⟩]) s' := by
  intro p hp hfixed
  have hle : s.store.targetCursor p.targetPath ≤ s'.store.targetCursor p.targetPath :=
    @Shipment.cursor_le x ⟨s, i, s'⟩ _ hship p hp
  rcases @Shipment.origin x ⟨s, i, s'⟩ _ hship hok p hp hfixed with hborn | ⟨o, ho, htarget, horder⟩
  · -- A projection just inserted is past everything, and raised the cursor.
    obtain ⟨-, -, -, hcursor⟩ := @insertion_of_mem x ⟨s, i, s'⟩ _ hship hok p hborn
    have hself : p.publicationOrder ≤ s'.store.targetCursor p.targetPath := by
      rw [hcursor, if_pos rfl]
      exact Nat.le_max_right _ _
    exact ⟨hself, fun w hw => Nat.le_trans (hnew p hborn hfixed w hw) hself⟩
  · obtain ⟨hself, hwritten⟩ := h o ho (htarget ▸ hfixed)
    rw [htarget] at hself hwritten
    refine ⟨horder ▸ Nat.le_trans hself hle, fun w hw => ?_⟩
    rw [writtenTo_append] at hw
    rcases List.mem_append.mp hw with hw | hw
    · exact Nat.le_trans (hwritten w hw) hle
    · -- What is written now is still in the table.
      obtain ⟨⟨e, he, hwrote⟩, hwt⟩ := mem_writtenTo.mp hw
      obtain rfl := List.mem_singleton.mp he
      obtain ⟨-, q, hq, -, hqt, hqo⟩ := hin w hwrote (hwt ▸ hfixed)
      obtain ⟨hqself, -⟩ := h q hq (by rw [hqt, hwt]; exact hfixed)
      rw [hqt, hqo, hwt] at hqself
      exact Nat.le_trans hqself hle

theorem MonotoneOrders.init {e : System.Event Publication PubStep}
    (h : MonotoneOrders (tr ++ [e])) : MonotoneOrders tr :=
  fun a d b htr => h a d (b ++ [e]) (by simp [htr])

theorem pairwise_writtenTo_singleton (targetPath : String)
    (e : System.Event Publication PubStep) (R : TransportProjection → TransportProjection → Prop) :
    (writtenTo targetPath [e]).Pairwise R := by
  apply List.Pairwise.filter
  cases h : wrote e with
  | none => simp [h]
  | some w => simp [h]

theorem NeverRegresses.step {e : System.Event Publication PubStep} (h : NeverRegresses x tr)
    (ha : CursorAhead x tr e.pre) (hin : InTime x e) : NeverRegresses x (tr ++ [e]) := by
  intro targetPath hfixed
  rw [writtenTo_append]
  refine List.pairwise_append.mpr ⟨h targetPath hfixed,
    pairwise_writtenTo_singleton targetPath e _, fun a hw b hb => ?_⟩
  obtain ⟨⟨d, hd, hwrote⟩, rfl⟩ := mem_writtenTo.mp hb
  obtain rfl := List.mem_singleton.mp hd
  obtain ⟨hcursor, q, hq, -, hqt, -⟩ := hin b hwrote hfixed
  obtain ⟨-, hwritten⟩ := ha q hq (hqt ▸ hfixed)
  rw [hqt] at hwritten
  exact Nat.le_trans (hwritten a hw) hcursor

end

section

variable [Calendar] {cfg : FireConfig} {x : NotificationCodec}
  {tr : List (System.Event Publication PubStep)} {s : Publication}

/-- Everything written to a fixed target in time was issued. -/
theorem issued_of_written (h : (publication cfg x).Run {} tr s) (hin : ∀ e ∈ tr, InTime x e)
    {targetPath : String} (hfixed : Fixed x targetPath) {w : TransportProjection}
    (hw : w ∈ writtenTo targetPath tr) : ∃ d ∈ tr, w.publicationOrder ∈ issued d := by
  obtain ⟨⟨e, he, hwrote⟩, rfl⟩ := mem_writtenTo.mp hw
  obtain ⟨-, q, hq, -, -, hqo⟩ := hin e he w hwrote hfixed
  obtain ⟨-, tr', hrun, hsub⟩ := h.mem he
  have hused : w.publicationOrder ∈ e.pre.orders := List.mem_map.mpr ⟨q, hq, hqo⟩
  rcases given_of_used hrun (fun d hd => (publication_events hrun d hd).2.2) hused with h0 | hd
  · exact (List.not_mem_nil h0).elim
  · obtain ⟨d, hd, hgiven⟩ := hd
    exact ⟨d, hsub d hd, hgiven⟩

/-- What has been written when a projection is inserted is older. -/
theorem written_le_new {i : PubStep} {s' : Publication} (h : (publication cfg x).Run {} tr s)
    (hok : s.store.ProjectionsOk) (hship : Shipment x i.prunes s.store s'.store)
    (hin : ∀ e ∈ tr ++ [⟨s, i, s'⟩], InTime x e) (hmono : MonotoneOrders (tr ++ [⟨s, i, s'⟩])) :
    ∀ p ∈ newProjections ⟨s, i, s'⟩, Fixed x p.targetPath →
      ∀ w ∈ writtenTo p.targetPath (tr ++ [⟨s, i, s'⟩]),
        w.publicationOrder ≤ p.publicationOrder := by
  intro p hp hfixed w hw
  rw [writtenTo_append] at hw
  rcases List.mem_append.mp hw with hw | hw
  · obtain ⟨d, hd, hissued⟩ :=
      issued_of_written h (fun e he => hin e (List.mem_append_left _ he)) hfixed hw
    exact Nat.le_of_lt ((hmono tr ⟨s, i, s'⟩ [] rfl p hp).1 d hd _ hissued)
  · obtain ⟨⟨e, he, hwrote⟩, hwt⟩ := mem_writtenTo.mp hw
    obtain rfl := List.mem_singleton.mp he
    obtain ⟨-, q, hq, -, -, hqo⟩ := hin _ (by simp) w hwrote (hwt ▸ hfixed)
    obtain ⟨horder, -⟩ := @insertion_of_mem x ⟨s, i, s'⟩ _ hship hok p hp
    have hle : w.publicationOrder ≤ top s.orders := le_top (List.mem_map.mpr ⟨q, hq, hqo⟩)
    rw [horder]
    exact Nat.le_succ_of_le hle

/-- **A fixed target never regresses** where every write to it is in time
and no projection is inserted after the timer with the greatest order was
deleted. -/
theorem target_never_regresses (h : (publication cfg x).Run {} tr s)
    (hin : ∀ e ∈ tr, InTime x e)
    (hkept : ∀ a d b e c, tr = a ++ d :: (b ++ e :: c) → DropsTop d → newProjections e = []) :
    NeverRegresses x tr := by
  have hmono := monotone_orders_of_increasing h ((increasing_issued_iff h).mpr hkept)
  have hall : (∀ e ∈ tr, InTime x e) → MonotoneOrders tr →
      CursorAhead x tr s ∧ NeverRegresses x tr := by
    refine publication_induction (J := fun tr s => (∀ e ∈ tr, InTime x e) → MonotoneOrders tr →
      CursorAhead x tr s ∧ NeverRegresses x tr) h ?_ ?_
    · intro _ _
      exact ⟨fun p hp => (List.not_mem_nil hp).elim, fun _ _ => .nil⟩
    · intro tr s i s' hrun hok hship hk hstep hJ hin hmono
      obtain ⟨ha, hn⟩ := hJ (fun e he => hin e (List.mem_append_left _ he)) hmono.init
      have hlast : InTime x ⟨s, i, s'⟩ := hin _ (by simp)
      exact ⟨ha.step hok.projections hship hlast
        (written_le_new hrun hok.projections hship hin hmono), hn.step ha hlast⟩
  exact (hall hin hmono).2

end

section Sample

attribute [local instance] Calendar.utcOnly

/-- A thread makes its next `n` calls, and none fails. -/
def PubStep.calls (i n : Nat) : List PubStep := List.replicate n (.call i {})

/-- Two timers, and the run files that every attempt looks for. -/
def PubStep.installed : List PubStep :=
  [.commit (.createTimer (.sample .skip) 0), .commit (.createTimer (.sample .skip) 0),
    .disk "status" (some ""), .disk "reply" (some "")]

/-- Both fire, and each attempt runs to its end. -/
def PubStep.inTurn : List PubStep :=
  PubStep.installed ++ .fired 0 (60 * NS) none :: PubStep.calls 0 11 ++
    .fired 1 (60 * NS) none :: PubStep.calls 1 12

/-- The first attempt has read the cursor when the second timer fires, and
goes on when the app has consumed the notification of the second. -/
def PubStep.overtaken : List PubStep :=
  PubStep.installed ++ .fired 0 (60 * NS) none :: PubStep.calls 0 1 ++
    .fired 1 (60 * NS) none :: PubStep.calls 1 11 ++
    .disk "fires/fire.json" none :: PubStep.calls 0 11

theorem target_never_regresses_inTurn : NeverRegresses .sample
    (System.traceEnabled (publicationNextGated .shared .sample) {} PubStep.inTurn) := by
  refine target_never_regresses (run_publication .shared .sample PubStep.inTurn) ?_ ?_
  · have hall : (System.traceEnabled (publicationNextGated .shared .sample) {}
        PubStep.inTurn).all (fun e => (wrote e).all fun q =>
          e.pre.store.targetCursor q.targetPath ≤ q.publicationOrder ∧
            ∃ p ∈ e.pre.store.transportProjections, p.runId = q.runId ∧
              p.targetPath = q.targetPath ∧ p.publicationOrder = q.publicationOrder) = true := by
      decide +kernel
    intro e he q hq hfixed
    have hone := List.all_eq_true.mp hall e he
    rw [hq] at hone
    exact of_decide_eq_true hone
  · intro a d b e c htr hdrop
    have hkept : (System.traceEnabled (publicationNextGated .shared .sample) {}
        PubStep.inTurn).all (fun d => d.label.prunes.isNone) = true := by
      decide +kernel
    have hd := List.all_eq_true.mp hkept d (by simp [htr])
    obtain ⟨timerId, hgone, -⟩ := hdrop
    rw [hgone] at hd
    cases hd

/-- The second notification is written, and then the first. -/
theorem not_target_never_regresses : ¬∀ tr s, (publication .shared .sample).Run {} tr s →
    NeverRegresses .sample tr := by
  intro h
  have hfixed : Fixed .sample "fires/fire.json" := fun run heq => by
    revert heq
    show ¬"fires/fire.json" = "run"
    decide
  have hsorted := h _ _ (run_publication .shared .sample PubStep.overtaken) _ hfixed
  have horders : (writtenTo "fires/fire.json" (System.traceEnabled
      (publicationNextGated .shared .sample) {} PubStep.overtaken)).map (·.publicationOrder) =
        [2, 1] := by
    decide +kernel
  have hmap := List.pairwise_map.mpr hsorted
  rw [horders] at hmap
  simp at hmap

end Sample

end Bellman

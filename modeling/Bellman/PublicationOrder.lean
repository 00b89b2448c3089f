/-
Bellman/PublicationOrder.lean

The publication order.

A fire gives its projection the order after the greatest one in the table.
The table remembers no order that has left it, so when the timer that holds
the greatest order is deleted with its projections, the next fire is given
an order that was issued before; and since the cursor of a target outlives
the projections as long as another one goes to the same target, the new
projection can even be born behind its own cursor.

Main results: the orders of a run are increasing, each above the cursor of
its target, exactly when no projection is inserted after the timer with the
greatest order was deleted (`monotone_orders_iff`).  The numbers themselves
are the business of `Lib/Numbering.lean`.
-/
import Bellman.Lib.Numbering
import Bellman.Shipment

namespace Bellman

open ProgramLogic Numbering
open TransportProjection (PENDING PUBLISHED OBSOLETE PICKED_UP KIND_FILE KIND_IPC)

/-- The publication orders in the table. -/
def Publication.orders (s : Publication) : List Nat :=
  s.store.transportProjections.map (·.publicationOrder)

/-- The projections that a step inserts. -/
def newProjections (e : System.Event Publication PubStep) : List TransportProjection :=
  e.post.store.transportProjections.filter fun p =>
    e.pre.store.transportProjections.all fun q => q.runId ≠ p.runId

/-- The orders that a step issues. -/
def issued (e : System.Event Publication PubStep) : List Nat :=
  (newProjections e).map (·.publicationOrder)

/-- Every projection is inserted with an order above all that were issued
before, and above the cursor of its target, so that the cursor it leaves
does not make it obsolete. -/
def MonotoneOrders (tr : List (System.Event Publication PubStep)) : Prop :=
  ∀ a e b, tr = a ++ e :: b → ∀ p ∈ newProjections e,
    (∀ d ∈ a, ∀ n ∈ issued d, n < p.publicationOrder) ∧
      e.pre.store.targetCursor p.targetPath < p.publicationOrder ∧
      ¬ p.publicationOrder < e.post.store.targetCursor p.targetPath

/-- The step deletes, with its projections, the timer that holds the
greatest order. -/
def DropsTop (e : System.Event Publication PubStep) : Prop :=
  ∃ timerId, e.label.prunes = some timerId ∧
    ∃ p ∈ e.pre.store.transportProjections, p.timerId = timerId ∧
      ∀ q ∈ e.pre.store.transportProjections, q.timerId ≠ timerId →
        q.publicationOrder < p.publicationOrder

/-! ### What a step issues -/

section

variable {x : NotificationCodec} {e : System.Event Publication PubStep} {gone : Option Uuid}

theorem newProjections_eq_nil (h : ∀ p ∈ e.post.store.transportProjections,
    ∃ q ∈ e.pre.store.transportProjections, q.runId = p.runId) : newProjections e = [] := by
  refine List.filter_eq_nil_iff.mpr fun p hp hall => ?_
  obtain ⟨q, hq, heq⟩ := h p hp
  have hne := List.all_eq_true.mp hall q hq
  simp [heq] at hne

theorem newProjections_of_append {proj : TransportProjection}
    (hfresh : ∀ q ∈ e.pre.store.transportProjections, q.runId ≠ proj.runId)
    (hp : e.post.store.transportProjections = e.pre.store.transportProjections ++ [proj]) :
    newProjections e = [proj] := by
  have hold : e.pre.store.transportProjections.filter (fun p =>
      e.pre.store.transportProjections.all fun q => q.runId ≠ p.runId) = [] := by
    refine List.filter_eq_nil_iff.mpr fun p hp hall => ?_
    have hne := List.all_eq_true.mp hall p hp
    simp at hne
  rw [newProjections, hp, List.filter_append, hold, List.nil_append]
  have hnew : (e.pre.store.transportProjections.all fun q => q.runId ≠ proj.runId) = true := by
    simpa using hfresh
  rw [List.filter_singleton, hnew]
  rfl

/-- The run of a projection that goes in has no projection yet. -/
theorem fresh_of_getRun {s : Store} (hok : s.ProjectionsOk) {run : Uuid}
    (hrun : s.getRun run = none) : ∀ q ∈ s.transportProjections, q.runId ≠ run := by
  rintro q hq rfl
  have hclaimed := hok.claimed q hq
  rw [hrun] at hclaimed
  cases hclaimed

/-- The insertion keeps what is there. -/
theorem filter_of_fresh {ps : List TransportProjection} {run : Uuid}
    (h : ∀ q ∈ ps, q.runId ≠ run) : ps.filter (fun p => p.runId ≠ run) = ps :=
  List.filter_eq_self.mpr fun q hq => by simpa using h q hq

theorem map_publicationOrder {f : TransportProjection → TransportProjection}
    (hf : ∀ p, RowKept x p (f p)) (ps : List TransportProjection) :
    (ps.map f).map (·.publicationOrder) = ps.map (·.publicationOrder) := by
  rw [List.map_map]
  exact List.map_congr_left fun p _ => (hf p).order

/-- **A step on the table is a step on its numbers.** -/
theorem gives_of_shipment (h : Shipment x gone e.pre.store e.post.store)
    (hok : e.pre.store.ProjectionsOk) : Gives e.pre.orders e.post.orders (issued e) := by
  cases h with
  | same _ h =>
    rw [issued, newProjections_eq_nil fun p hp => ⟨p, h.1 ▸ hp, rfl⟩]
    apply Gives.none
    intro n hn
    rwa [Publication.orders, h.1] at hn
  | pruned timerId _ hp hc =>
    rw [issued, newProjections_eq_nil fun p hmem => ⟨p, List.mem_of_mem_filter (hp ▸ hmem), rfl⟩]
    apply Gives.none
    intro n hn
    rw [Publication.orders, hp] at hn
    exact (List.filter_sublist.map _).mem hn
  | updated _ f hf hp hc =>
    rw [issued, newProjections_eq_nil fun p hmem => ?_]
    · apply Gives.none
      intro n hn
      rwa [Publication.orders, hp, map_publicationOrder hf] at hn
    · rw [hp] at hmem
      obtain ⟨q, hq, rfl⟩ := List.mem_map.mp hmem
      exact ⟨q, hq, (hf q).runId.symm⟩
  | inserted _ proj hrun hclaim horder hlive hp hc =>
    have hfresh := fresh_of_getRun hok hrun
    rw [filter_of_fresh hfresh] at hp
    rw [issued, newProjections_of_append hfresh hp, List.map_singleton, horder]
    apply Gives.next
    intro n
    rw [Publication.orders, hp, List.map_append, List.mem_append, List.map_singleton,
      List.mem_singleton, horder]
    rfl

/-- The greatest order goes down only with its timer. -/
theorem lowers_iff (h : Shipment x e.label.prunes e.pre.store e.post.store)
    (hok : e.pre.store.ProjectionsOk) : Lowers Publication.orders e ↔ DropsTop e := by
  have hgives := gives_of_shipment h hok
  constructor
  · intro hlow
    have hkept : ¬∀ n ∈ e.pre.orders, n ∈ e.post.orders := fun hall =>
      Nat.not_lt.mpr (top_le fun n hn => le_top (hall n hn)) hlow
    cases h with
    | same _ h =>
      refine absurd (fun n hn => ?_) hkept
      rwa [Publication.orders, h.1]
    | pruned timerId hgone hp hc =>
      refine ⟨timerId, hgone, ?_⟩
      by_contra hnone
      refine Nat.not_lt.mpr (top_le fun n hn => ?_) hlow
      obtain ⟨p, hmem, rfl⟩ := List.mem_map.mp hn
      -- A projection of another timer is at least as high, and it stays.
      obtain ⟨q, hq, hne, hle⟩ : ∃ q ∈ e.pre.store.transportProjections, q.timerId ≠ timerId ∧
          p.publicationOrder ≤ q.publicationOrder := by
        by_cases hp : p.timerId = timerId
        · by_contra hq
          refine hnone ⟨p, hmem, hp, fun q hq' hne => ?_⟩
          by_contra hlt
          exact hq ⟨q, hq', hne, Nat.not_lt.mp hlt⟩
        · exact ⟨p, hmem, hp, Nat.le_refl _⟩
      refine Nat.le_trans hle (le_top (List.mem_map.mpr ⟨q, ?_, rfl⟩))
      rw [hp]
      exact List.mem_filter.mpr ⟨hq, by simpa using hne⟩
    | updated _ f hf hp hc =>
      refine absurd (fun n hn => ?_) hkept
      rwa [Publication.orders, hp, map_publicationOrder hf]
    | inserted _ proj hrun hclaim horder hlive hp hc =>
      refine absurd (fun n hn => ?_) hkept
      rw [filter_of_fresh (fresh_of_getRun hok hrun)] at hp
      rw [Publication.orders, hp, List.map_append]
      exact List.mem_append_left _ hn
  · rintro ⟨timerId, hgone, p, hp, rfl, hall⟩
    rw [hgone] at h
    cases h with
    | pruned timerId heq hps hc =>
      obtain rfl := Option.some.inj heq
      refine Nat.lt_of_lt_of_le ?_ (le_top (List.mem_map.mpr ⟨p, hp, rfl⟩))
      have hpos := hok.positive p hp
      have hle : top e.post.orders ≤ p.publicationOrder - 1 := by
        apply top_le
        intro n hn
        obtain ⟨q, hq, rfl⟩ := List.mem_map.mp hn
        rw [hps] at hq
        have hlt := hall q (List.mem_of_mem_filter hq) (by simpa using (List.mem_filter.mp hq).2)
        omega
      omega
    | same hno _ => cases hno
    | updated hno _ _ _ _ => cases hno
    | inserted hno _ _ _ _ _ _ _ => cases hno

/-! ### Cursors -/

theorem targetCursor_mem (s : Store) (targetPath : String) :
    s.targetCursor targetPath = 0 ∨
      (targetPath, s.targetCursor targetPath) ∈ s.targetCursors := by
  unfold Store.targetCursor
  cases hfind : s.targetCursors.find? (·.1 == targetPath) with
  | none => exact .inl rfl
  | some c =>
    obtain rfl : c.1 = targetPath := by simpa using List.find?_some hfind
    exact .inr (List.mem_of_find?_eq_some hfind)

theorem find?_without (cs : List (String × Nat)) (targetPath t : String) :
    (cs.filter fun c => c.1 ≠ targetPath).find? (·.1 == t) =
      if t = targetPath then none else cs.find? (·.1 == t) := by
  induction cs with
  | nil => simp
  | cons c cs ih =>
    by_cases hc : c.1 = targetPath
    · by_cases ht : t = targetPath
      · simp [hc, ht]
      · simpa [hc, ht, Ne.symm ht] using ih
    · by_cases hct : c.1 = t
      · simp [← hct, hc]
      · simpa [hc, hct] using ih

/-- The cursor of a target after it was written. -/
theorem targetCursor_put {s s' : Store} {targetPath : String} {n : Nat}
    (hc : s'.targetCursors = s.targetCursors.filter (fun c => c.1 ≠ targetPath) ++
      [(targetPath, n)]) (t : String) :
    s'.targetCursor t = if t = targetPath then n else s.targetCursor t := by
  unfold Store.targetCursor
  rw [hc, List.find?_append, find?_without]
  by_cases ht : t = targetPath
  · simp [ht]
  · simp [ht, Ne.symm ht]

/-- What it takes to be inserted. -/
theorem insertion_of_mem (h : Shipment x gone e.pre.store e.post.store)
    (hok : e.pre.store.ProjectionsOk) {p : TransportProjection} (hp : p ∈ newProjections e) :
    p.publicationOrder = top e.pre.orders + 1 ∧ p.isLive = true ∧
      e.post.store.transportProjections = e.pre.store.transportProjections ++ [p] ∧
      ∀ t, e.post.store.targetCursor t = if t = p.targetPath then
        max (e.pre.store.targetCursor p.targetPath) p.publicationOrder
        else e.pre.store.targetCursor t := by
  have hnew : ∀ q ∈ e.pre.store.transportProjections, q.runId ≠ p.runId := by
    have hall := (List.mem_filter.mp hp).2
    simpa using hall
  have hpost := List.mem_of_mem_filter hp
  cases h with
  | same _ h => exact absurd rfl (hnew p (h.1 ▸ hpost))
  | pruned timerId _ hps hc => exact absurd rfl (hnew p (List.mem_of_mem_filter (hps ▸ hpost)))
  | updated _ f hf hps hc =>
    rw [hps] at hpost
    obtain ⟨q, hq, rfl⟩ := List.mem_map.mp hpost
    exact absurd (hf q).runId.symm (hnew q hq)
  | inserted _ proj hrun hclaim horder hlive hps hc =>
    rw [filter_of_fresh (fresh_of_getRun hok hrun)] at hps
    obtain rfl : p = proj := by
      rw [hps] at hpost
      rcases List.mem_append.mp hpost with hold | hold
      · exact absurd rfl (hnew p hold)
      · exact List.mem_singleton.mp hold
    exact ⟨horder, hlive, hps, targetCursor_put hc⟩

theorem MonotoneOrders.increasing {tr : List (System.Event Publication PubStep)}
    (h : MonotoneOrders tr) : Increasing issued tr := by
  intro a e b htr n hn d hd m hm
  obtain ⟨p, hp, rfl⟩ := List.mem_map.mp hn
  exact (h a e b htr p hp).1 d hd m hm

end

/-! ### Runs -/

section

variable [Calendar] {cfg : FireConfig} {x : NotificationCodec}
  {tr : List (System.Event Publication PubStep)} {s : Publication}

theorem publication_events (h : (publication cfg x).Run {} tr s) : ∀ e ∈ tr, e.pre.Ok x ∧
    Shipment x e.label.prunes e.pre.store e.post.store ∧
    Gives e.pre.orders e.post.orders (issued e) := by
  intro e he
  obtain ⟨hstep, tr', hrun, -⟩ := h.mem he
  have hok := publication_ok hrun
  obtain ⟨-, hship, -⟩ := publicationNext_ok hok hstep.1
  exact ⟨hok, hship, gives_of_shipment hship hok.projections⟩

/-- A cursor is never past all orders issued. -/
theorem cursor_issued (h : (publication cfg x).Run {} tr s) :
    ∀ c ∈ s.store.targetCursors, ∃ d ∈ tr, ∃ n ∈ issued d, c.2 ≤ n := by
  refine publication_induction (J := fun tr s => ∀ c ∈ s.store.targetCursors,
    ∃ d ∈ tr, ∃ n ∈ issued d, c.2 ≤ n) h (fun c hc => (List.not_mem_nil hc).elim) ?_
  intro tr s i s' hrun hok hship hk hstep hJ c hc
  have hold : c ∈ s.store.targetCursors →
      ∃ d ∈ tr ++ [⟨s, i, s'⟩], ∃ n ∈ issued d, c.2 ≤ n := by
    intro hc
    obtain ⟨d, hd, n, hn, hle⟩ := hJ c hc
    exact ⟨d, List.mem_append_left _ hd, n, hn, hle⟩
  cases hship with
  | same _ h => exact hold (h.2 ▸ hc)
  | pruned timerId _ hps hcs => exact hold (List.mem_of_mem_filter (hcs ▸ hc))
  | updated _ f hf hps hcs => exact hold (hcs ▸ hc)
  | inserted _ proj hrun' hclaim horder hlive hps hcs =>
    rw [hcs] at hc
    rcases List.mem_append.mp hc with hc | hc
    · exact hold (List.mem_of_mem_filter hc)
    · obtain rfl := List.mem_singleton.mp hc
      -- Either the old cursor stays, or the order just issued is the cursor.
      rcases Nat.le_total (s.store.targetCursor proj.targetPath) proj.publicationOrder
        with hle | hle
      · have hfresh := fresh_of_getRun hok.projections hrun'
        rw [filter_of_fresh hfresh] at hps
        refine ⟨⟨s, i, s'⟩, by simp, proj.publicationOrder, ?_, ?_⟩
        · rw [issued, newProjections_of_append hfresh hps]
          exact List.mem_cons_self
        · exact Nat.max_le.mpr ⟨hle, Nat.le_refl _⟩
      · rcases targetCursor_mem s.store proj.targetPath with hzero | hmem
        · have hpos : 0 < proj.publicationOrder := horder ▸ Nat.succ_pos _
          omega
        · obtain ⟨d, hd, n, hn, hcn⟩ := hJ _ hmem
          exact ⟨d, List.mem_append_left _ hd, n, hn, Nat.max_le.mpr ⟨hcn, Nat.le_trans hle hcn⟩⟩

theorem increasing_issued_iff (h : (publication cfg x).Run {} tr s) :
    Increasing issued tr ↔
      ∀ a d b e c, tr = a ++ d :: (b ++ e :: c) → DropsTop d → newProjections e = [] := by
  have hevents := publication_events h
  refine (increasing_iff h rfl fun e he => (hevents e he).2.2).trans ?_
  have hlowers : ∀ d ∈ tr, Lowers Publication.orders d ↔ DropsTop d := fun d hd =>
    lowers_iff (hevents d hd).2.1 (hevents d hd).1.projections
  constructor
  · intro hnil a d b e c htr hdrop
    have hd : d ∈ tr := by simp [htr]
    exact List.map_eq_nil_iff.mp (hnil a d b e c htr ((hlowers d hd).mpr hdrop))
  · intro hnil a d b e c htr hlow
    have hd : d ∈ tr := by simp [htr]
    exact List.map_eq_nil_iff.mpr (hnil a d b e c htr ((hlowers d hd).mp hlow))

/-- Orders that increase are above the cursors. -/
theorem monotone_orders_of_increasing (h : (publication cfg x).Run {} tr s)
    (hinc : Increasing issued tr) : MonotoneOrders tr := by
  intro a e b htr p hp
  have hlt := hinc a e b htr p.publicationOrder (List.mem_map.mpr ⟨p, hp, rfl⟩)
  obtain ⟨hok, hship, -⟩ := publication_events h e (by simp [htr])
  obtain ⟨horder, -, -, hcursor⟩ := insertion_of_mem hship hok.projections hp
  have hbehind : e.pre.store.targetCursor p.targetPath < p.publicationOrder := by
    rcases targetCursor_mem e.pre.store p.targetPath with hzero | hmem
    · omega
    · subst htr
      obtain ⟨d, hd, n, hn, hle⟩ := cursor_issued h.split.1 _ hmem
      exact Nat.lt_of_le_of_lt hle (hlt d hd n hn)
  refine ⟨hlt, hbehind, ?_⟩
  rw [hcursor, if_pos rfl]
  omega

/-- **The publication order is monotone exactly when** no projection is
inserted after the timer that held the greatest order was deleted. -/
theorem monotone_orders_iff (h : (publication cfg x).Run {} tr s) :
    MonotoneOrders tr ↔
      ∀ a d b e c, tr = a ++ d :: (b ++ e :: c) → DropsTop d → newProjections e = [] :=
  ⟨fun hmono => (increasing_issued_iff h).mp hmono.increasing,
    fun hkept => monotone_orders_of_increasing h ((increasing_issued_iff h).mpr hkept)⟩

end

section Sample

/-- All notifications go to one file, and say which run they are of. -/
def FireConfig.shared : FireConfig where
  reply := FireConfig.sample.reply
  route :=
    { firesDir := "fires"
      fireSlotFile := some "fire.json"
      notification := fun _ claim _ _ _ => .ok (if claim.runId = ⟨2⟩ then "first" else "later") }

/-- A notification, as far as an attempt looks at it. -/
def FireNotification.sample (run : Uuid) : FireNotification where
  schema := ""
  kind := "fire"
  occurrenceKind := ""
  timerId := ⟨0⟩
  timerName := "tick"
  appName := "app"
  runId := run
  scheduledFor := 0
  firedAt := 0
  statusPath := "status"
  replyPath := some "reply"
  ipc := none

def NotificationCodec.sample : NotificationCodec where
  fromStr payload :=
    if payload = "first" then some (.sample ⟨2⟩)
    else if payload = "later" then some (.sample ⟨4⟩)
    else none
  toStr _ := none
  toStrPretty n := if n.runId = ⟨2⟩ then "first" else "later"
  fireFile _ := "run"
  replyFile _ _ := "reply"

/-- One step of the publication, if it is enabled; a fire finds no reply. -/
def publicationNextGated [Calendar] (cfg : FireConfig) (x : NotificationCodec) (s : Publication)
    (i : PubStep) : Option Publication :=
  match i with
  | .fire f live =>
    if f.barrier.isNone ∧ f.prev.map (·.runId) = s.store.newest f.timer.id then
      publicationNext cfg x s (.fire f live)
    else none
  | i => publicationNext cfg x s i

theorem run_publication [Calendar] (cfg : FireConfig) (x : NotificationCodec)
    (steps : List PubStep) :
    (publication cfg x).Run {} (System.traceEnabled (publicationNextGated cfg x) {} steps)
      (steps.foldl (fun s i => (publicationNextGated cfg x s i).getD s) {}) := by
  apply System.run_traceEnabled
  intro s i s' h
  cases i with
  | fire f live =>
    simp only [publicationNextGated] at h
    split at h
    · next hg =>
      refine ⟨h, fun f' live' heq => ?_⟩
      obtain ⟨rfl, -⟩ := PubStep.fire.inj heq
      exact Firing.gated_of_barrier (Option.isNone_iff_eq_none.mp hg.1) hg.2
    · cases h
  | _ => exact ⟨h, fun _ _ heq => by cases heq⟩

/-- A fire of the timer with the given id, after the given run. -/
def PubStep.fired (id : Nat) (slot : Int) (prev : Option Nat) : PubStep :=
  .fire { Firing.owned slot with
    timer := { Timer.sample .skip with id := ⟨id⟩ }
    prev := prev.map fun run => Store.newClaim {} ⟨run⟩ ⟨id⟩ 0 0 } false

/-- Two timers fire, the second of them twice. -/
def PubStep.threeFires : List PubStep :=
  [.commit (.createTimer (.sample .skip) 0), .commit (.createTimer (.sample .skip) 0),
    .fired 0 (60 * NS) none, .fired 1 (60 * NS) none, .fired 1 (120 * NS) (some 4)]

/-- Then the second is deleted, and the first fires again. -/
def PubStep.reissued : List PubStep :=
  PubStep.threeFires ++
    [.commit (.deleteTimerLifecycle { Timer.sample .skip with id := ⟨1⟩ } (some "app") 0),
      .fired 0 (120 * NS) (some 2)]

section

attribute [local instance] Calendar.utcOnly

/-- While no timer is deleted, the orders are monotone. -/
theorem monotone_orders_three : MonotoneOrders
    (System.traceEnabled (publicationNextGated .shared .sample) {} PubStep.threeFires) := by
  refine (monotone_orders_iff (run_publication .shared .sample PubStep.threeFires)).mpr ?_
  intro a d b e c htr hdrop
  have hkept : (System.traceEnabled (publicationNextGated .shared .sample) {}
      PubStep.threeFires).all (fun d => d.label.prunes.isNone) = true := by
    decide +kernel
  have hd := List.all_eq_true.mp hkept d (by simp [htr])
  obtain ⟨timerId, hgone, -⟩ := hdrop
  rw [hgone] at hd
  cases hd

/-- A trace goes through the event at a position. -/
theorem split_of_getElem? {α : Type*} {l : List α} {k : Nat} {a : α} (h : l[k]? = some a) :
    l = l.take k ++ a :: l.drop (k + 1) := by
  obtain ⟨hk, rfl⟩ := List.getElem?_eq_some_iff.mp h
  rw [List.getElem_cons_drop, List.take_append_drop]

theorem MonotoneOrders.getElem? {tr : List (System.Event Publication PubStep)}
    (h : MonotoneOrders tr) {k : Nat} {e : System.Event Publication PubStep}
    (he : tr[k]? = some e) {p : TransportProjection} (hp : p ∈ newProjections e) :
    (∀ d ∈ tr.take k, ∀ n ∈ issued d, n < p.publicationOrder) ∧
      e.pre.store.targetCursor p.targetPath < p.publicationOrder := by
  obtain ⟨hlt, hcursor, -⟩ := h _ _ _ (split_of_getElem? he) p hp
  exact ⟨hlt, hcursor⟩

/-- The third order was issued and has gone; the next projection gets the
second once more, and is behind the cursor of its target. -/
theorem not_monotone_orders : ¬∀ tr s, (publication .shared .sample).Run {} tr s →
    MonotoneOrders tr := by
  intro h
  have hmono := h _ _ (run_publication .shared .sample PubStep.reissued)
  have hlast : ((System.traceEnabled (publicationNextGated .shared .sample) {}
      PubStep.reissued)[6]?.map fun e => (newProjections e).map fun p =>
        (p.publicationOrder, e.pre.store.targetCursor p.targetPath)) = some [(2, 3)] := by
    decide +kernel
  obtain ⟨e, he, hins⟩ := Option.map_eq_some_iff.mp hlast
  obtain ⟨p, hp, heq⟩ := List.mem_map.mp (hins ▸ List.mem_cons_self)
  obtain ⟨horder, hcursor⟩ := Prod.mk.inj heq
  have hbehind := (hmono.getElem? he hp).2
  omega

end

end Sample

end Bellman

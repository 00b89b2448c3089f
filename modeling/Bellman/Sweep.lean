/-
Bellman/Sweep.lean

How far the pickup sweep gets.

A pass of the publication pump attempts what is due and then looks at the
oldest live projections, as many as the limit says, and settles those whose
run has a pickup signal, is covered by the ack cursor or has a `no_ack`:

    q₁  q₂  …  qₙ  | p  …        in publication order, n the limit

If none of `q₁ … qₙ` can be settled, the pass looks at them in vain.  Where
they stay live, because their runs were superseded before any verdict, so
does the next pass, and `p` is never looked at.

Main result: as many passes as there are live projections leave none that
could be settled, if none is held up at the start; and where delivery is at
rest, one that is held up is never settled (`sweep_reaches`).
-/
import Bellman.Lib.Alone
import Bellman.Pickup

namespace Bellman

open ProgramLogic Thread
open TransportProjection (PENDING PUBLISHED OBSOLETE PICKED_UP KIND_FILE KIND_IPC)

/-! ### Projections that can be settled -/

namespace Store

/-- The run of the projection is covered by the ack cursor, or has a pickup
signal or a `no_ack`. -/
def settleable (s : Store) (p : TransportProjection) : Bool :=
  (s.getRun p.runId).any fun claim =>
    decide (claim.eventSequence ≤ s.lastAckedSequence p.timerId) ||
      (s.getRunState p.runId).any fun row => hasPickupSignal row || row.noAckAt.isSome

/-- No live projection can be settled. -/
def NoneLeft (s : Store) : Prop :=
  ∀ p ∈ s.transportProjections, p.isLive = true → s.settleable p = false

/-- `q` is before `p` in the sweep, and there to stay. -/
def holdsUp (s : Store) (p q : TransportProjection) : Bool :=
  q.isLive && !s.settleable q && decide (q.publicationOrder < p.publicationOrder)

/-- Before each projection that can be settled there are fewer than `limit`
others that cannot. -/
def Clear (limit : Nat) (s : Store) : Prop :=
  ∀ p ∈ s.transportProjections, p.isLive = true → s.settleable p = true →
    s.transportProjections.countP (s.holdsUp p) < limit

/-- The number of live projections. -/
def liveCount (s : Store) : Nat := s.transportProjections.countP (·.isLive)

/-- The number of those that can be settled. -/
def leftCount (s : Store) : Nat := s.transportProjections.countP fun p => p.isLive && s.settleable p

end Store

/-! ### Passes -/

/-- The clock stands still and no operation fails. -/
def Luck.IsQuiet (now : Int) (l : Luck) : Prop := l.fails = false ∧ l.clock = now

/-- So many passes of the pump, alone, come to their end in `Q`. -/
def Passes (x : NotificationCodec) (live : Bool) (limit : Nat) (now : Int) :
    Nat → (PubWorld → Prop) → PubWorld → Prop
  | 0, Q, w => Q w
  | n + 1, Q, w =>
    (pump x live limit).Runs (pubMachine x) (Luck.IsQuiet now)
      (fun _ w' => Passes x live limit now n Q w') w

def PubWorld.store (w : PubWorld) : Store := w.memory.store

/-- Nobody is at work: no lock is held, and the rows are as they are in every
state that is reached. -/
structure PubWorld.Idle (w : PubWorld) : Prop where
  locks : w.locks = []
  rows : w.store.ProjectionsOk
  orders : (w.store.transportProjections.map (·.publicationOrder)).Nodup

/-- The delivery has come to rest: nothing is due, and what is published and
cannot be settled is a file that is still there. -/
structure PubWorld.AtRest (x : NotificationCodec) (now : Int) (w : PubWorld) : Prop where
  pending : ∀ p ∈ w.store.transportProjections, p.state = PENDING → now < p.nextAttemptAt
  published : ∀ p ∈ w.store.transportProjections, p.state = PUBLISHED →
    w.store.settleable p = false → p.kind ≠ KIND_IPC ∧
      ∃ content n, w.files p.targetPath = some content ∧ x.fromStr content = some n ∧
        n.runId = p.runId

/-! ### What moves in a pass -/

section Rows

variable {x : NotificationCodec} {s s' s'' : Store} {p p' p'' : TransportProjection} {limit : Nat}

theorem RowKept.trans (h : RowKept x p p') (h' : RowKept x p' p'') : RowKept x p p'' where
  runId := h'.runId.trans h.runId
  timerId := h'.timerId.trans h.timerId
  order := h'.order.trans h.order
  target := by
    rcases h'.target with heq | hfile
    · rw [heq]
      exact h.target
    · exact .inr hfile
  settled hset := by
    have heq := h.settled hset
    rw [h'.settled (heq ▸ hset), heq]

theorem Rewritten.trans (h : Rewritten x s s') (h' : Rewritten x s' s'') : Rewritten x s s'' := by
  obtain ⟨f, g, hf, hg, rfl⟩ := h
  obtain ⟨f', g', hf', hg', rfl⟩ := h'
  refine ⟨fun p => f' (f p), fun row => g' (g row), fun p => (hf p).trans (hf' (f p)),
    fun row => ?_, ?_⟩
  · show g' (g row) = row ∨ ∃ t, g' (g row) = { row with transport := some t }
    rcases hg row with heq | ⟨t, heq⟩
    · rw [heq]
      exact hg' row
    · rcases hg' (g row) with heq' | ⟨t', heq'⟩
      · exact .inr ⟨t, heq'.trans heq⟩
      · exact .inr ⟨t', by rw [heq', heq]⟩
  · show ({ s with transportProjections := _, runStates := _ } : Store) = _
    rw [List.map_map, List.map_map]
    rfl

/-- Whether a projection can be settled does not change in a pass. -/
theorem Rewritten.settleable (h : Rewritten x s s') (hk : RowKept x p p') :
    s'.settleable p' = s.settleable p := by
  obtain ⟨f, g, -, hg, rfl⟩ := h
  have hid : ∀ row : RunStateRow, (g row).runId = row.runId := by
    intro row
    rcases hg row with h | ⟨t, h⟩ <;> rw [h]
  have hsays : ∀ row : RunStateRow, (hasPickupSignal (g row) || (g row).noAckAt.isSome) =
      (hasPickupSignal row || row.noAckAt.isSome) := by
    intro row
    rcases hg row with h | ⟨t, h⟩
    · rw [h]
    · rw [h]
      rfl
  have hrow : (s.runStates.map g).find? (·.runId == p.runId) =
      (s.getRunState p.runId).map g := getRunState_map (s := s) hid p.runId
  simp only [Store.settleable, hk.runId, hk.timerId, Store.getRun, Store.getRunState,
    Store.lastAckedSequence] at hrow ⊢
  rw [hrow]
  simp only [Option.any_map, hsays]
  rfl

/-- A live projection has been live. -/
theorem RowKept.isLive (h : RowKept x p p') (hp : p'.isLive = true) : p.isLive = true := by
  by_contra hno
  rw [Bool.not_eq_true] at hno
  rw [h.settled hno, hno] at hp
  cases hp

theorem Rewritten.holdsUp {f : TransportProjection → TransportProjection}
    (h : Rewritten x s s') (hf : ∀ p, RowKept x p (f p)) {q : TransportProjection}
    (hq : s'.holdsUp (f p) (f q) = true) : s.holdsUp p q = true := by
  simp only [Store.holdsUp, Bool.and_eq_true, Bool.not_eq_true', decide_eq_true_eq] at hq ⊢
  obtain ⟨⟨hlive, hset⟩, hlt⟩ := hq
  rw [h.settleable (hf q)] at hset
  rw [(hf q).order, (hf p).order] at hlt
  exact ⟨⟨(hf q).isLive hlive, hset⟩, hlt⟩

/-- Nobody is held up who was not. -/
theorem Rewritten.clear (h : Rewritten x s s') (hclear : s.Clear limit) : s'.Clear limit := by
  obtain ⟨f, g, hf, hg, heq⟩ := id h
  have hrows : s'.transportProjections = s.transportProjections.map f := by rw [heq]
  intro p' hp' hlive hset
  rw [hrows] at hp'
  obtain ⟨p, hp, rfl⟩ := List.mem_map.mp hp'
  rw [h.settleable (hf p)] at hset
  refine Nat.lt_of_le_of_lt ?_ (hclear p hp ((hf p).isLive hlive) hset)
  rw [hrows, List.countP_map]
  exact List.countP_mono_left fun q _ hq => h.holdsUp hf hq

theorem Rewritten.of_mem (h : Rewritten x s s') (hp : p' ∈ s'.transportProjections) :
    ∃ p ∈ s.transportProjections, RowKept x p p' := by
  obtain ⟨f, g, hf, -, rfl⟩ := h
  obtain ⟨p, hmem, rfl⟩ := List.mem_map.mp hp
  exact ⟨p, hmem, hf p⟩

/-- No projection of the run is live. -/
def Store.Gone (s : Store) (run : Uuid) : Prop :=
  ∀ q ∈ s.transportProjections, q.runId = run → q.isLive = false

theorem Rewritten.gone (h : Rewritten x s s') {run : Uuid} (hgone : s.Gone run) :
    s'.Gone run := by
  obtain ⟨f, g, hf, hg, rfl⟩ := h
  intro q' hq' hrun
  obtain ⟨q, hq, rfl⟩ := List.mem_map.mp hq'
  have hno := hgone q hq ((hf q).runId.symm.trans hrun)
  rw [(hf q).settled hno, hno]

theorem Rewritten.leftCount_le (h : Rewritten x s s') : s'.leftCount ≤ s.leftCount := by
  obtain ⟨f, g, hf, hg, heq⟩ := id h
  have hrows : s'.transportProjections = s.transportProjections.map f := by rw [heq]
  rw [Store.leftCount, hrows, List.countP_map]
  refine List.countP_mono_left fun q _ hq => ?_
  simp only [Function.comp, Bool.and_eq_true] at hq ⊢
  rw [h.settleable (hf q)] at hq
  exact ⟨(hf q).isLive hq.1, hq.2⟩

/-- Fewer are left once one of them is settled. -/
theorem Rewritten.leftCount_lt (h : Rewritten x s s') (hp : p ∈ s.transportProjections)
    (hlive : p.isLive = true) (hset : s.settleable p = true) (hgone : s'.Gone p.runId) :
    s'.leftCount < s.leftCount := by
  obtain ⟨f, g, hf, hg, heq⟩ := id h
  have hrows : s'.transportProjections = s.transportProjections.map f := by rw [heq]
  have hno : (f p).isLive = false :=
    hgone (f p) (hrows ▸ List.mem_map_of_mem hp) (hf p).runId
  rw [Store.leftCount, Store.leftCount, hrows, List.countP_map]
  obtain ⟨pre, post, hsplit⟩ := List.append_of_mem hp
  have hmono : ∀ l : List TransportProjection,
      l.countP ((fun p => p.isLive && s'.settleable p) ∘ f) ≤
        l.countP fun p => p.isLive && s.settleable p := by
    intro l
    refine List.countP_mono_left fun q _ hq => ?_
    simp only [Function.comp, Bool.and_eq_true] at hq ⊢
    rw [h.settleable (hf q)] at hq
    exact ⟨(hf q).isLive hq.1, hq.2⟩
  have hpre := hmono pre
  have hpost := hmono post
  rw [hsplit, List.countP_append, List.countP_append, List.countP_cons, List.countP_cons]
  simp only [Function.comp, hno, hlive, hset, Bool.false_and, Bool.and_self, if_true]
    at hpre hpost ⊢
  simp only [Bool.false_eq_true, if_false]
  omega

end Rows

/-! ### What a pass looks at -/

section Window

variable {ps : List TransportProjection} {s : Store} {p : TransportProjection} {limit : Nat}

theorem inOrder_perm (ps : List TransportProjection) : (Store.inOrder ps).Perm ps :=
  List.mergeSort_perm _ _

theorem inOrder_sorted (ps : List TransportProjection) :
    (Store.inOrder ps).Pairwise fun p q => p.publicationOrder ≤ q.publicationOrder := by
  refine (List.pairwise_mergeSort (fun p q r hpq hqr => ?_) (fun p q => ?_) ps).imp fun h => ?_
  · simp only [decide_eq_true_eq] at hpq hqr ⊢
    exact Nat.le_trans hpq hqr
  · simpa using Nat.le_total p.publicationOrder q.publicationOrder
  · simpa using h

/-- The live projections, in order. -/
def Store.live (s : Store) : List TransportProjection :=
  Store.inOrder (s.transportProjections.filter (·.isLive))

theorem Store.mem_live : p ∈ s.live ↔ p ∈ s.transportProjections ∧ p.isLive = true := by
  rw [Store.live, (inOrder_perm _).mem_iff, List.mem_filter]

theorem countP_live (f : TransportProjection → Bool) (hf : ∀ q, f q = true → q.isLive = true) :
    s.live.countP f = s.transportProjections.countP f := by
  rw [Store.live, (inOrder_perm _).countP_eq, List.countP_filter]
  refine List.countP_congr fun q _ => ?_
  rw [Bool.and_eq_true]
  exact ⟨fun h => h.1, fun h => ⟨h, hf q h⟩⟩

theorem holdsUp_isLive {q : TransportProjection} (h : s.holdsUp p q = true) : q.isLive = true := by
  simp only [Store.holdsUp, Bool.and_eq_true] at h
  exact h.1.1

/-- While there is a projection that can be settled and none is held up, the
sweep looks at one. -/
theorem Store.Clear.exists_mem (hclear : s.Clear limit)
    (horders : (s.transportProjections.map (·.publicationOrder)).Nodup)
    (hleft : 0 < s.leftCount) :
    ∃ p ∈ s.liveTransportProjections limit, s.settleable p = true := by
  obtain ⟨p, hp, hset⟩ : ∃ p ∈ s.live, s.settleable p = true := by
    obtain ⟨p, hp, hset⟩ := List.countP_pos_iff.mp hleft
    rw [Bool.and_eq_true] at hset
    exact ⟨p, Store.mem_live.mpr ⟨hp, hset.1⟩, hset.2⟩
  -- The first of them has only those before it that hold it up.
  obtain ⟨first, hfirst⟩ := Option.isSome_iff_exists.mp (List.find?_isSome.mpr ⟨p, hp, hset⟩)
  obtain ⟨hset, pre, post, hsplit, hpre⟩ := List.find?_eq_some_iff_append.mp hfirst
  have hmem : first ∈ s.live := List.mem_of_find?_eq_some hfirst
  have hsorted : (pre ++ first :: post).Pairwise
      fun p q => p.publicationOrder ≤ q.publicationOrder := hsplit ▸ inOrder_sorted _
  obtain ⟨hrow, hlive⟩ := Store.mem_live.mp hmem
  have hbefore : ∀ q ∈ pre, s.holdsUp first q = true := by
    intro q hq
    have hqlive : q ∈ s.live := hsplit ▸ List.mem_append_left _ hq
    have hle : q.publicationOrder ≤ first.publicationOrder :=
      (List.pairwise_append.mp hsorted).2.2 q hq first List.mem_cons_self
    have hne : q.publicationOrder ≠ first.publicationOrder := by
      intro heq
      have hsame := List.inj_on_of_nodup_map horders (Store.mem_live.mp hqlive).1 hrow heq
      have hno := hpre q hq
      rw [hsame, hset] at hno
      cases hno
    simp only [Store.holdsUp, Bool.and_eq_true, decide_eq_true_eq]
    exact ⟨⟨(Store.mem_live.mp hqlive).2, hpre q hq⟩, Nat.lt_of_le_of_ne hle hne⟩
  have hlen : pre.length < limit := by
    calc pre.length = pre.countP (s.holdsUp first) := (List.countP_eq_length.mpr hbefore).symm
      _ ≤ s.live.countP (s.holdsUp first) := by
        rw [hsplit, List.countP_append]
        exact Nat.le_add_right _ _
      _ = s.transportProjections.countP (s.holdsUp first) :=
        countP_live _ fun q hq => holdsUp_isLive hq
      _ < limit := hclear first hrow hlive hset
  refine ⟨first, ?_, hset⟩
  show first ∈ s.live.take limit
  rw [hsplit, List.take_append]
  refine List.mem_append_right _ ?_
  obtain ⟨k, hk⟩ : ∃ k, limit - pre.length = k + 1 := ⟨limit - pre.length - 1, by omega⟩
  rw [hk, List.take_succ_cons]
  exact List.mem_cons_self

/-- One with so many before it is not looked at. -/
theorem not_mem_window
    (hmany : limit ≤ s.transportProjections.countP (s.holdsUp p)) :
    p ∉ s.liveTransportProjections limit := by
  intro hp
  have hp : p ∈ s.live.take limit := hp
  let before (q : TransportProjection) : Bool :=
    q.isLive && decide (q.publicationOrder < p.publicationOrder)
  have hle : s.transportProjections.countP (s.holdsUp p) ≤ s.live.countP before := by
    rw [countP_live before fun q hq => (Bool.and_eq_true_iff.mp hq).1]
    refine List.countP_mono_left fun q _ hq => ?_
    simp only [Store.holdsUp, Bool.and_eq_true, before] at hq ⊢
    exact ⟨hq.1.1, hq.2⟩
  have hsorted : (s.live.take limit ++ s.live.drop limit).Pairwise
      fun p q => p.publicationOrder ≤ q.publicationOrder := by
    rw [List.take_append_drop]
    exact inOrder_sorted _
  have hrest : (s.live.drop limit).countP before = 0 := by
    refine List.countP_eq_zero.mpr fun q hq hbefore => ?_
    have hpq := (List.pairwise_append.mp hsorted).2.2 p hp q hq
    simp only [before, Bool.and_eq_true, decide_eq_true_eq] at hbefore
    omega
  have hwindow : (s.live.take limit).countP before < (s.live.take limit).length := by
    refine Nat.lt_of_le_of_ne List.countP_le_length fun heq => ?_
    have hself := List.countP_eq_length.mp heq p hp
    simp [before] at hself
  have hsum : s.live.countP before =
      (s.live.take limit).countP before + (s.live.drop limit).countP before := by
    rw [← List.countP_append, List.take_append_drop]
  have hlen := List.length_take_le limit s.live
  omega

end Window

/-! ### The threads alone -/

/-- Neither taken nor left as a lock. -/
def PubCall.isPlain : {α : Type} → PubCall α → Bool
  | _, lock _ => false
  | _, unlock _ => false
  | _, _ => true

/-- Alone, with these locks held, the thread comes to its end, with the same
locks held and the store rewritten. -/
def Carries (x : NotificationCodec) (now : Int) (ks : List Lock) {α : Type} (t : PubM α) : Prop :=
  ∀ w : PubWorld, w.locks = ks → t.Runs (pubMachine x) (Luck.IsQuiet now)
    (fun _ w' => Rewritten x w.store w'.store ∧ w'.locks = ks) w

section Rules

variable {x : NotificationCodec} {now : Int} {ks : List Lock} {k : Lock} {α β : Type}
  {w : PubWorld}

/-- A call that is not about locks is answered at once. -/
theorem PubCall.isPlain.answered {e : PubCall α} (he : e.isPlain = true) {l : Luck}
    (w : PubWorld) : ∃ b w', e.answer x l w = some (b, w') ∧ w'.locks = w.locks := by
  cases e with
  | lock _ => cases he
  | unlock _ => cases he
  | store c =>
    simp only [answer]
    split
    · exact ⟨_, _, rfl, rfl⟩
    · split
      · exact ⟨_, _, rfl, rfl⟩
      · exact ⟨_, _, rfl, rfl⟩
  | readFile _ | writeTarget _ _ | removeFile _ | createReplyStub _ _ _ =>
    simp only [answer]
    split
    · exact ⟨_, _, rfl, rfl⟩
    · exact ⟨_, _, rfl, rfl⟩
  | _ => exact ⟨_, _, rfl, rfl⟩

theorem Carries.ret (a : α) : Carries x now ks (pure a : PubM α) :=
  fun w hw => ⟨.refl x w.store, hw⟩

theorem Carries.ask {e : PubCall α} (he : e.isPlain = true) (haim : e.WellAimed x) :
    Carries x now ks (ask e) := by
  intro w hw l _
  obtain ⟨b, w', hans, hlocks⟩ := PubCall.isPlain.answered (x := x) (l := l) he w
  exact ⟨b, w', hans, PubCall.answer_rewritten haim hans, hlocks.trans hw⟩

theorem Carries.bind {m : PubM α} {f : α → PubM β} (hm : Carries x now ks m)
    (hf : ∀ a, Carries x now ks (f a)) : Carries x now ks (m >>= f) := by
  intro w hw
  refine runs_bind.mpr ((hm w hw).mono fun a w' h => ?_)
  exact (hf a w' h.2).mono fun b w'' h' => ⟨h.1.trans h'.1, h'.2⟩

theorem Carries.ite {c : Prop} [Decidable c] {m m' : PubM α} (hm : c → Carries x now ks m)
    (hm' : ¬c → Carries x now ks m') : Carries x now ks (if c then m else m') :=
  fun w hw => runs_ite (fun hc => hm hc w hw) fun hc => hm' hc w hw

theorem Carries.forEach {γ : Type} {f : γ → PubM Unit} {cs : List γ}
    (hf : ∀ c ∈ cs, Carries x now ks (f c)) : Carries x now ks (Thread.forEach f cs) := by
  intro w hw
  refine runs_forEach (fun _ (w' : PubWorld) => Rewritten x w.store w'.store ∧ w'.locks = ks) ?_
    ⟨.refl x w.store, hw⟩
  rintro c rest w' ⟨pre, rfl⟩ h
  exact (hf c (by simp) w' h.2).mono fun _ w'' h' => ⟨h.1.trans h'.1, h'.2⟩

/-- Nobody else has the lock: the body runs under it. -/
theorem runs_withLock {failed body : PubM α} {Q : α → PubWorld → Prop} (hk : k ∉ w.locks)
    (h : body.Runs (pubMachine x) (Luck.IsQuiet now)
      (fun a w' => w'.locks = k :: w.locks ∧ Q a { w' with locks := w.locks })
      { w with locks := k :: w.locks }) :
    (withLock k failed body).Runs (pubMachine x) (Luck.IsQuiet now) Q w := by
  intro l hl
  refine ⟨true, { w with locks := k :: w.locks }, ?_, ?_⟩
  · show PubCall.answer x (.lock k) l w = _
    simp [PubCall.answer, hl.1, hk]
  show Runs (pubMachine x) (Luck.IsQuiet now) (if true = true then _ else failed) Q _
  rw [if_pos rfl]
  refine runs_bind.mpr (h.mono fun a w' h' => ?_)
  intro l' _
  refine ⟨(), { w' with locks := w'.locks.erase k }, rfl, ?_⟩
  rw [h'.1, List.erase_cons_head]
  exact h'.2

theorem Carries.withLock {failed body : PubM α} (hk : k ∉ ks) (hb : Carries x now (k :: ks) body) :
    Carries x now ks (withLock k failed body) := by
  intro w hw
  subst hw
  refine runs_withLock hk ((hb { w with locks := k :: w.locks } rfl).mono fun a w' h => ?_)
  exact ⟨h.2, h.1, rfl⟩

/-- A statement that is run, and its result. -/
theorem runs_onDb {c : StoreCall α} {f : Option α → PubM β} {Q : β → PubWorld → Prop} {a : α}
    {s : Store} (hc : c.prog.run w.store = (.ok a, s))
    (h : (f (some a)).Runs (pubMachine x) (Luck.IsQuiet now) Q
      { w with memory := { w.memory with store := s } }) :
    (onDb c >>= f).Runs (pubMachine x) (Luck.IsQuiet now) Q w := by
  intro l hl
  refine ⟨some a, { w with memory := { w.memory with store := s } }, ?_, h⟩
  show PubCall.answer x (.store c) l w = _
  rw [PubWorld.store] at hc
  simp [PubCall.answer, hl.1, hc]

end Rules

/-- The file of a projection that was picked up goes, unless it is another
run's. -/
def takeAway (x : NotificationCodec) (proj : TransportProjection) : PubM Unit := do
  if ← ask (.fileExists proj.targetPath) then
    withLock (.timer proj.timerId) (return ()) <| withLock (.target proj.targetPath) (return ()) do
      match ← ask (.readFile proj.targetPath) with
      | .bytes content =>
        if (x.fromStr content).any fun cur => cur.runId ≠ proj.runId then return ()
        else ask (.removeFile proj.targetPath)
      | _ => ask (.removeFile proj.targetPath)
  else return ()

/-- What the sweep does with a projection that cannot be settled. -/
def redeliver (x : NotificationCodec) (live : Bool) (proj : TransportProjection) : PubM Unit := do
  let gone ← (if proj.kind = KIND_IPC ∧ proj.state = PUBLISHED then
      if live then do return !(← ask (.hasClient proj.timerId)) else return true
    else return false : PubM Bool)
  if gone then
    let timer ← onDb (.getTimer proj.timerId)
    if timer.any fun timer => timer.any fun timer => timer.transport = .auto then
      match x.fromStr proj.payload with
      | some n => let _ ← ipcFallback x proj n
      | none => return ()
    else
      let now ← ask .now
      let _ ← onDb (.requeueTransportProjection proj.runId now)
  else if proj.kind = KIND_FILE ∧ proj.state = PUBLISHED then
    if ← ask (.fileExists proj.targetPath) then return ()
    else
      let now ← ask .now
      let _ ← onDb (.requeueTransportProjection proj.runId now)
  else return ()

section Programs

variable {x : NotificationCodec} {now : Int} {ks : List Lock} {proj : TransportProjection}
  {n : FireNotification}
  {handle : Option (TransportProjection → FireNotification → PubM Attempt)}

theorem carries_markObsolete : Carries x now ks (markObsolete proj) :=
  .bind (.ask rfl trivial) fun _ => .ret _

theorem carries_defer : Carries x now ks (defer proj) :=
  .ite (fun _ => carries_markObsolete) fun _ =>
    .bind (.ask rfl trivial) fun _ => .bind (.ask rfl trivial) fun _ => .ret _

theorem carries_writeTarget : Carries x now ks (writeTarget proj n) := by
  refine .ite (fun _ => carries_markObsolete) fun _ => .bind (.ask rfl trivial) fun _ =>
    .ite (fun _ => ?_) fun _ => carries_defer
  exact .bind (.ask rfl trivial) fun _ => .bind (.ask rfl trivial) fun _ => .ret _

theorem carries_takeAway : Carries x now [] (takeAway x proj) := by
  refine .bind (.ask rfl trivial) fun _ => .ite (fun _ => ?_) fun _ => .ret _
  refine .withLock (by simp) (.withLock (by simp) (.bind (.ask rfl trivial) fun b => ?_))
  split
  · exact .ite (fun _ => .ret _) fun _ => .ask rfl trivial
  · exact .ask rfl trivial

theorem carries_recordPickup : Carries x now [] (recordPickup x proj) :=
  .bind (.ask rfl trivial) fun _ => carries_takeAway

theorem carries_attemptFile : Carries x now [] (attemptFile x proj n) := by
  refine .bind ?_ fun missing => .bind (.ask rfl trivial) fun status =>
    .ite (fun _ => carries_defer) fun _ => ?_
  · split
    · exact .bind (.ask rfl trivial) fun _ => .ret _
    · exact .ret _
  refine .withLock (by simp) (.withLock (by simp) (.bind (.ask rfl trivial) fun b => ?_))
  split
  · exact carries_writeTarget
  · exact carries_defer
  · split
    · refine .ite (fun _ => carries_defer) fun _ => .bind (.ask rfl trivial) fun newer => ?_
      split
      · exact .ite (fun _ => carries_markObsolete) fun _ => carries_writeTarget
      · exact carries_writeTarget
    · exact carries_writeTarget

theorem carries_attemptIpc
    (hh : ∀ fallback proj n, handle = some fallback → Carries x now [] (fallback proj n)) :
    Carries x now [] (attemptIpc x handle proj n) := by
  refine .bind (.ask rfl trivial) fun status => .ite (fun _ => carries_defer) fun _ =>
    .bind (.ask rfl trivial) fun row => .ite
      (fun _ => .bind carries_recordPickup fun _ => .ret _) fun _ => ?_
  split
  · exact carries_defer
  · refine .bind (.ask rfl trivial) fun out => ?_
    split
    · exact .bind (.ask rfl trivial) fun _ => .bind (.ask rfl trivial) fun _ => .ret _
    · exact .bind (.ask rfl trivial) fun _ => .ite (fun _ => hh _ _ _ rfl) fun _ => carries_defer

theorem carries_attempt
    (hh : ∀ fallback proj n, handle = some fallback → Carries x now [] (fallback proj n)) :
    Carries x now [] (attempt x handle proj) := by
  unfold attempt
  split
  · exact carries_markObsolete
  · exact .bind (.ask rfl trivial) fun _ => .ite (fun _ => carries_markObsolete) fun _ => .ite
      (fun _ => carries_attemptIpc hh) fun _ => carries_attemptFile

theorem carries_ipcFallback : Carries x now [] (ipcFallback x proj n) := by
  refine .bind (.ask rfl trivial) fun folder => .bind (.ask rfl trivial) fun row => ?_
  split
  · refine .bind (.ask rfl trivial) fun _ => .ite (fun _ => ?_) fun _ => carries_defer
    dsimp only
    split
    · exact carries_defer
    · refine .bind (.ask rfl ⟨_, rfl⟩) fun done => ?_
      split
      · refine .bind (.ask rfl trivial) fun _ => .bind (.ask rfl trivial) fun _ =>
          .bind (.ask rfl trivial) fun conv => ?_
        split
        · exact carries_attempt fun _ _ _ hn => (Option.some_ne_none _ hn.symm).elim
        · exact .ret _
      · exact .ret _
      · exact carries_defer
  · exact carries_defer

theorem carries_ipcHandle (live : Bool) (fallback : TransportProjection → FireNotification →
    PubM Attempt) (proj : TransportProjection) (n : FireNotification)
    (h : ipcHandle x live = some fallback) : Carries x now [] (fallback proj n) := by
  cases live with
  | true =>
    obtain rfl := Option.some.inj h
    exact carries_ipcFallback
  | false => exact (Option.some_ne_none _ h.symm).elim

theorem carries_requeue : Carries x now [] (do
    let now ← ask .now
    let _ ← onDb (.requeueTransportProjection proj.runId now) : PubM Unit) :=
  .bind (.ask rfl trivial) fun _ => .bind (.ask rfl trivial) fun _ => .ret _

theorem carries_redeliver (live : Bool) : Carries x now [] (redeliver x live proj) := by
  refine .bind ?_ fun gone => .ite (fun _ => ?_) fun _ => ?_
  · exact .ite (fun _ => .ite (fun _ => .bind (.ask rfl trivial) fun _ => .ret _)
      fun _ => .ret _) fun _ => .ret _
  · refine .bind (.ask rfl trivial) fun _ => .ite (fun _ => ?_) fun _ => carries_requeue
    split
    · exact .bind carries_ipcFallback fun _ => .ret _
    · exact .ret _
  · exact .ite (fun _ => .bind (.ask rfl trivial) fun _ => .ite (fun _ => .ret _)
      fun _ => carries_requeue) fun _ => .ret _

theorem carries_sweepOne (live : Bool) : Carries x now [] (sweepOne x live proj) := by
  refine .bind (.ask rfl trivial) fun claim => ?_
  split
  · exact .bind (.ask rfl trivial) fun acked => .bind (.ask rfl trivial) fun row =>
      .ite (fun _ => carries_recordPickup) fun _ => .bind (.ask rfl trivial) fun _ => .ite
        (fun _ => .bind carries_markObsolete fun _ => .ret _) fun _ => carries_redeliver live
  · exact .ret _

end Programs

/-! ### One projection of the sweep -/

section One

variable {x : NotificationCodec} {live : Bool} {now : Int} {proj : TransportProjection}
  {w : PubWorld} {claim : RunClaim} {Q : Unit → PubWorld → Prop}

/-- The run of the projection is covered by the cursor, or has a signal. -/
def Store.pickedUp (s : Store) (proj : TransportProjection) (claim : RunClaim) : Bool :=
  decide (claim.eventSequence ≤ s.lastAckedSequence proj.timerId) ||
    (s.getRunState proj.runId).any hasPickupSignal

def Store.noAck (s : Store) (proj : TransportProjection) : Bool :=
  (s.getRunState proj.runId).any fun row => row.noAckAt.isSome

theorem Store.settleable_of_claim {s : Store} (hclaim : s.getRun proj.runId = some claim) :
    s.settleable proj = (s.pickedUp proj claim || s.noAck proj) := by
  rw [Store.settleable, hclaim, Option.any_some, Store.pickedUp, Store.noAck]
  cases s.getRunState proj.runId with
  | none => simp
  | some row => simp [Bool.or_assoc]

/-- What the sweep does with a projection depends on what it reads. -/
theorem runs_sweepOne (hclaim : w.store.getRun proj.runId = some claim)
    (h : (if w.store.pickedUp proj claim then recordPickup x proj
      else if w.store.noAck proj then (do let _ ← markObsolete proj)
      else redeliver x live proj).Runs (pubMachine x) (Luck.IsQuiet now) Q w) :
    (sweepOne x live proj).Runs (pubMachine x) (Luck.IsQuiet now) Q w := by
  refine runs_onDb (c := .getRun proj.runId) rfl ?_
  rw [hclaim]
  refine runs_onDb (c := .lastAckedSequence proj.timerId) rfl ?_
  refine runs_onDb (c := .getRunState proj.runId) rfl ?_
  refine runs_ite (fun hc => ?_) fun hc => ?_
  · rw [if_pos (by exact hc)] at h
    exact h
  · rw [if_neg (by exact hc)] at h
    refine runs_onDb (c := .getRunState proj.runId) rfl ?_
    refine runs_ite (fun hc => ?_) fun hc => ?_
    · rw [if_pos (by exact hc)] at h
      exact h
    · rw [if_neg (by exact hc)] at h
      exact h

/-- Where a projection is closed, whatever its state, none of its run is
live. -/
theorem gone_update {s : Store} {run : Uuid} {f : TransportProjection → TransportProjection}
    (hf : ∀ p, (f p).isLive = false) :
    ((updateProjection run [PENDING, PUBLISHED] f).run s).2.Gone run := by
  intro q' hq' hrun
  obtain ⟨q, hq, rfl⟩ := List.mem_map.mp hq'
  by_cases hhit : q.runId = run ∧ q.state ∈ [PENDING, PUBLISHED]
  · rw [if_pos hhit]
    exact hf q
  · rw [if_neg hhit] at hrun ⊢
    have hstate : q.state ∉ [PENDING, PUBLISHED] := fun h => hhit ⟨hrun, h⟩
    simpa [TransportProjection.isLive] using hstate

/-- What can be settled is settled. -/
theorem sweepOne_settles (hset : w.store.settleable proj = true) (hw : w.locks = []) :
    (sweepOne x live proj).Runs (pubMachine x) (Luck.IsQuiet now)
      (fun _ w' => Rewritten x w.store w'.store ∧ w'.locks = [] ∧ w'.store.Gone proj.runId) w := by
  obtain ⟨claim, hclaim⟩ : ∃ claim, w.store.getRun proj.runId = some claim := by
    rw [Store.settleable] at hset
    exact Option.isSome_iff_exists.mp (Option.isSome_of_any hset)
  rw [Store.settleable_of_claim hclaim, Bool.or_eq_true] at hset
  -- The row is closed by a single statement, and the rest keeps it closed.
  have hrest : ∀ {t : PubM Unit} {c : StoreCall Unit}, Carries x now [] t →
      (c.prog.run w.store).1 = .ok () → Rewritten x w.store (c.prog.run w.store).2 →
      (c.prog.run w.store).2.Gone proj.runId →
      (do let _ ← onDb c; t : PubM Unit).Runs (pubMachine x) (Luck.IsQuiet now)
        (fun _ w' => Rewritten x w.store w'.store ∧ w'.locks = [] ∧ w'.store.Gone proj.runId)
        w := by
    intro t c ht hok hrw hgone
    refine runs_onDb (Prod.ext hok rfl) ?_
    refine (ht { w with memory := { w.memory with store := (c.prog.run w.store).2 } } hw).mono ?_
    intro _ w' h
    exact ⟨hrw.trans h.1, h.2, h.1.gone hgone⟩
  apply runs_sweepOne hclaim
  split
  · exact hrest carries_takeAway rfl
      (StoreCall.rewritten (.markTransportPickedUp proj.runId) trivial _) (gone_update fun _ => rfl)
  · next hno =>
    rw [if_pos (hset.resolve_left hno)]
    exact hrest (.ret _) rfl (StoreCall.rewritten (.markTransportObsolete proj.runId) trivial _)
      (gone_update fun _ => rfl)

end One

/-! ### One pass -/

section Pass

variable {x : NotificationCodec} {live : Bool} {limit : Nat} {now : Int} {w : PubWorld}

/-- The sweep settles all that it looks at. -/
theorem sweepPickups_settles (hw : w.locks = []) :
    (sweepPickups x live limit).Runs (pubMachine x) (Luck.IsQuiet now)
      (fun _ w' => Rewritten x w.store w'.store ∧ w'.locks = [] ∧
        ∀ p ∈ w.store.liveTransportProjections limit, w.store.settleable p = true →
          w'.store.Gone p.runId) w := by
  refine runs_onDb (c := .liveTransportProjections limit) rfl ?_
  show (forEach (sweepOne x live) (w.store.liveTransportProjections limit)).Runs _ _ _ w
  refine (runs_forEach (fun rest (w' : PubWorld) => Rewritten x w.store w'.store ∧ w'.locks = [] ∧
    ∀ p ∈ w.store.liveTransportProjections limit, w.store.settleable p = true → p ∉ rest →
      w'.store.Gone p.runId) ?_ ⟨.refl x _, hw, fun p hp _ hno => absurd hp hno⟩).mono ?_
  · rintro c rest w' - ⟨hrw, hw', hdone⟩
    have hkeeps : Carries x now [] (sweepOne x live c) := carries_sweepOne live
    by_cases hset : w'.store.settleable c = true
    · refine (sweepOne_settles hset hw').mono fun _ w'' h => ⟨hrw.trans h.1, h.2.1, ?_⟩
      intro p hp hpset hno
      by_cases hpc : p = c
      · exact hpc ▸ h.2.2
      · exact h.1.gone (hdone p hp hpset (by simp [hpc, hno]))
    · refine (hkeeps w' hw').mono fun _ w'' h => ⟨hrw.trans h.1, h.2, fun p hp hpset hno => ?_⟩
      refine h.1.gone (hdone p hp hpset ?_)
      have hpc : p ≠ c := by
        rintro rfl
        exact hset ((hrw.settleable (.refl x p)).trans hpset)
      simp [hpc, hno]
  · exact fun _ w' h => ⟨h.1, h.2.1, fun p hp hset => h.2.2 p hp hset (List.not_mem_nil)⟩

/-- Orders are kept apart. -/
theorem Rewritten.orders {s s' : Store} (h : Rewritten x s s')
    (hs : (s.transportProjections.map (·.publicationOrder)).Nodup) :
    (s'.transportProjections.map (·.publicationOrder)).Nodup := by
  obtain ⟨f, g, hf, -, rfl⟩ := h
  show ((s.transportProjections.map f).map (·.publicationOrder)).Nodup
  rwa [map_publicationOrder hf]

theorem carries_attempts (due : List TransportProjection) : Carries x now []
    (forEach (fun proj => do let _ ← attempt x (ipcHandle x live) proj) due) :=
  .forEach fun _ _ => .bind (carries_attempt (carries_ipcHandle live)) fun _ => .ret _

/-- A pass with nobody held up settles one, if there is one. -/
theorem pump_settles (hw : w.locks = []) (hclear : w.store.Clear limit)
    (horders : (w.store.transportProjections.map (·.publicationOrder)).Nodup) :
    (pump x live limit).Runs (pubMachine x) (Luck.IsQuiet now)
      (fun _ w' => Rewritten x w.store w'.store ∧ w'.locks = [] ∧
        w'.store.leftCount ≤ w.store.leftCount - 1) w := by
  intro l hl
  refine ⟨l.clock, w, rfl, ?_⟩
  refine runs_onDb (c := .dueTransportProjections l.clock limit) rfl ?_
  refine runs_bind.mpr ((carries_attempts _ w hw).mono fun _ w₁ h₁ => ?_)
  refine (sweepPickups_settles h₁.2).mono fun _ w₂ h₂ => ⟨h₁.1.trans h₂.1, h₂.2.1, ?_⟩
  have hle := h₁.1.leftCount_le
  by_cases hleft : 0 < w₁.store.leftCount
  · obtain ⟨p, hp, hset⟩ := (h₁.1.clear hclear).exists_mem (h₁.1.orders horders) hleft
    obtain ⟨hrow, hlive⟩ := List.mem_filter.mp (mem_inOrder_take hp)
    have hlt := h₂.1.leftCount_lt hrow hlive hset (h₂.2.2 p hp hset)
    omega
  · have hle' := h₂.1.leftCount_le
    omega

theorem noneLeft_iff {s : Store} : s.NoneLeft ↔ s.leftCount = 0 := by
  rw [Store.leftCount, List.countP_eq_zero]
  refine forall₂_congr fun p _ => ?_
  simp

/-- While nobody is held up, as many passes as are left leave none. -/
theorem passes_clear (n : Nat) (hleft : w.store.leftCount ≤ n) (hw : w.locks = [])
    (hclear : w.store.Clear limit)
    (horders : (w.store.transportProjections.map (·.publicationOrder)).Nodup) :
    Passes x live limit now n (fun w' => w'.store.NoneLeft) w := by
  induction n generalizing w with
  | zero => exact noneLeft_iff.mpr (Nat.le_zero.mp hleft)
  | succ n ih =>
    refine (pump_settles hw hclear horders).mono fun _ w' h => ?_
    exact ih (by omega) h.2.1 (h.1.clear hclear) (h.1.orders horders)

theorem leftCount_le_liveCount (s : Store) : s.leftCount ≤ s.liveCount := by
  refine List.countP_mono_left fun p _ hp => ?_
  exact (Bool.and_eq_true_iff.mp hp).1

end Pass

/-! ### Those that are held up -/

/-- What a pass leaves as it was: the rows of one run and those that cannot
be settled, with their files; the other rows stay or are closed. -/
structure LeftAlone (x : NotificationCodec) (p : TransportProjection) (w w' : PubWorld) : Prop where
  rewritten : Rewritten x w.store w'.store
  locks : w'.locks = w.locks
  spared : ∀ q ∈ w.store.transportProjections, q.runId = p.runId ∨ w.store.settleable q = false →
    q ∈ w'.store.transportProjections
  others : ∀ q ∈ w'.store.transportProjections,
    q ∈ w.store.transportProjections ∨ q.isLive = false
  files : ∀ path content n, w.files path = some content → x.fromStr content = some n →
    (∃ q ∈ w.store.transportProjections, q.runId = n.runId ∧ w.store.settleable q = false) →
      w'.files path = some content

/-- The delivery is at rest, and the projection is held up. -/
structure HeldUp (x : NotificationCodec) (limit : Nat) (now : Int) (p : TransportProjection)
    (w : PubWorld) : Prop where
  locks : w.locks = []
  runs : (w.store.transportProjections.map (·.runId)).Nodup
  row : p ∈ w.store.transportProjections
  live : p.isLive = true
  settleable : w.store.settleable p = true
  many : limit ≤ w.store.transportProjections.countP (w.store.holdsUp p)
  rest : w.AtRest x now

section Held

variable {x : NotificationCodec} {live : Bool} {limit : Nat} {now : Int}
  {p c : TransportProjection} {w w' w'' : PubWorld}

theorem LeftAlone.settleable (h : LeftAlone x p w w') (q : TransportProjection) :
    w'.store.settleable q = w.store.settleable q :=
  h.rewritten.settleable (.refl x q)

theorem LeftAlone.trans (h : LeftAlone x p w w') (h' : LeftAlone x p w' w'') :
    LeftAlone x p w w'' where
  rewritten := h.rewritten.trans h'.rewritten
  locks := h'.locks.trans h.locks
  spared q hq hcase := h'.spared q (h.spared q hq hcase) (hcase.imp_right (h.settleable q).trans)
  others q hq := by
    rcases h'.others q hq with hq | hno
    · exact h.others q hq
    · exact .inr hno
  files path content n hfile hn hq := by
    obtain ⟨q, hq, hrun, hset⟩ := hq
    refine h'.files path content n (h.files path content n hfile hn ⟨q, hq, hrun, hset⟩) hn ?_
    exact ⟨q, h.spared q hq (.inr hset), hrun, (h.settleable q).trans hset⟩

/-- Only files have changed. -/
theorem LeftAlone.of_files (hm : w'.memory = w.memory) (hl : w'.locks = w.locks)
    (hf : ∀ path content n, w.files path = some content → x.fromStr content = some n →
      (∃ q ∈ w.store.transportProjections, q.runId = n.runId ∧ w.store.settleable q = false) →
        w'.files path = some content) : LeftAlone x p w w' := by
  have hs : w'.store = w.store := congrArg ReplyState.store hm
  refine ⟨?_, hl, fun q hq _ => ?_, fun q hq => ?_, hf⟩
  · rw [hs]
    exact .refl x _
  · rwa [hs]
  · rw [hs] at hq
    exact .inl hq

theorem LeftAlone.refl : LeftAlone x p w w := .of_files rfl rfl fun _ _ _ h _ _ => h

/-- A projection that is held up stays so. -/
theorem HeldUp.leftAlone (h : HeldUp x limit now p w) (hk : LeftAlone x p w w') :
    HeldUp x limit now p w' where
  locks := hk.locks.trans h.locks
  runs := by
    obtain ⟨f, g, hf, -, heq⟩ := hk.rewritten
    have hrows : w'.store.transportProjections = w.store.transportProjections.map f := by rw [heq]
    have hid : (fun p => p.runId) ∘ f = fun p : TransportProjection => p.runId := by
      funext q
      exact (hf q).runId
    rw [hrows, List.map_map, hid]
    exact h.runs
  row := hk.spared p h.row (.inl rfl)
  live := h.live
  settleable := (hk.settleable p).trans h.settleable
  many := by
    refine Nat.le_trans h.many ?_
    rw [List.countP_eq_length_filter, List.countP_eq_length_filter]
    refine (h.runs.of_map.filter _).length_le_of_subset fun q hq => ?_
    obtain ⟨hq, hholds⟩ := List.mem_filter.mp hq
    simp only [Store.holdsUp, Bool.and_eq_true, Bool.not_eq_true'] at hholds
    refine List.mem_filter.mpr ⟨hk.spared q hq (.inr hholds.1.2), ?_⟩
    simp only [Store.holdsUp, Bool.and_eq_true, Bool.not_eq_true', hk.settleable q]
    exact hholds
  rest := by
    constructor
    · intro q hq hstate
      rcases hk.others q hq with hq | hno
      · exact h.rest.pending q hq hstate
      · simp [TransportProjection.isLive, hstate] at hno
    · intro q hq hstate hset
      rcases hk.others q hq with hq | hno
      · have hset' := (hk.settleable q).symm.trans hset
        obtain ⟨hkind, content, n, hfile, hn, hrun⟩ := h.rest.published q hq hstate hset'
        exact ⟨hkind, content, n, hk.files _ _ _ hfile hn ⟨q, hq, hrun.symm, hset'⟩, hn, hrun⟩
      · simp [TransportProjection.isLive, hstate] at hno

/-- The rows of a run that can be settled are closed. -/
theorem leftAlone_update {f : TransportProjection → TransportProjection} {s : Store}
    (hs : s = ((updateProjection c.runId [PENDING, PUBLISHED] f).run w.store).2)
    (hrw : Rewritten x w.store s) (hf : ∀ q, (f q).isLive = false) (hc : c.runId ≠ p.runId)
    (hset : ∀ q ∈ w.store.transportProjections, w.store.settleable q = false →
      q.runId ≠ c.runId) :
    LeftAlone x p w { w with memory := { w.memory with store := s } } := by
  subst hs
  refine ⟨hrw, rfl, fun q hq hcase => ?_, fun q' hq' => ?_, fun _ _ _ h _ _ => h⟩
  · have hne : q.runId ≠ c.runId := by
      rcases hcase with hrun | hno
      · exact fun heq => hc (heq.symm.trans hrun)
      · exact hset q hq hno
    exact List.mem_map.mpr ⟨q, hq, if_neg fun hhit => hne hhit.1⟩
  · obtain ⟨q, hq, rfl⟩ := List.mem_map.mp hq'
    split
    · exact .inr (hf q)
    · exact .inl hq

/-- Only a file of the run is taken away. -/
theorem takeAway_leavesAlone (hw : w.locks = [])
    (hset : ∀ q ∈ w.store.transportProjections, w.store.settleable q = false →
      q.runId ≠ c.runId) :
    (takeAway x c).Runs (pubMachine x) (Luck.IsQuiet now) (fun _ w' => LeftAlone x p w w') w := by
  intro l _
  refine ⟨(w.files c.targetPath).isSome, w, rfl, runs_ite (fun _ => ?_) fun _ => .refl⟩
  refine runs_withLock (by simp [hw]) (runs_withLock (by simp [hw]) fun l hl => ?_)
  have hanswer : ∀ w' : PubWorld, (PubCall.readFile c.targetPath).answer x l w' =
      some (((w'.files c.targetPath).map FileRead.bytes).getD .missing, w') := by
    intro w'
    simp [PubCall.answer, hl.1]
  refine ⟨_, _, hanswer _, ?_⟩
  -- What is removed is not protected.
  have hremove : (∀ content n, w.files c.targetPath = some content →
      x.fromStr content = some n → n.runId = c.runId) →
      LeftAlone x p w (w.withFile c.targetPath none) := by
    intro hrun
    refine .of_files rfl rfl fun path content n hfile hn hq => ?_
    by_cases hpath : path = c.targetPath
    · obtain ⟨q, hq, hqn, hno⟩ := hq
      subst hpath
      exact absurd (hqn.trans (hrun content n hfile hn)) (hset q hq hno)
    · exact (if_neg hpath).trans hfile
  have hcall : ∀ (ks : List Lock) (Q : Unit → PubWorld → Prop),
      Q () { w.withFile c.targetPath none with locks := ks } →
      (ask (.removeFile c.targetPath)).Runs (pubMachine x) (Luck.IsQuiet now) Q
        { w with locks := ks } := by
    intro ks Q hQ l hl
    refine ⟨(), { w.withFile c.targetPath none with locks := ks }, ?_, hQ⟩
    show (PubCall.removeFile c.targetPath).answer x l _ = _
    simp [PubCall.answer, hl.1, PubWorld.withFile]
  cases hfile : w.files c.targetPath with
  | none =>
    refine hcall _ _ ⟨rfl, rfl, hremove fun content n h => ?_⟩
    rw [hfile] at h
    cases h
  | some content =>
    refine runs_ite (fun _ => ⟨rfl, rfl, .refl⟩) fun hother => ?_
    refine hcall _ _ ⟨rfl, rfl, hremove fun content' n h hn => ?_⟩
    obtain rfl := Option.some.inj (hfile.symm.trans h)
    rw [hn] at hother
    simpa using hother

theorem redeliver_atRest {q : TransportProjection} (h : HeldUp x limit now p w)
    (hq : q ∈ w.store.transportProjections) (hset : w.store.settleable q = false) :
    (redeliver x live q).Runs (pubMachine x) (Luck.IsQuiet now) (fun _ w' => w' = w) w := by
  have hipc : ¬(q.kind = KIND_IPC ∧ q.state = PUBLISHED) := fun hcase =>
    (h.rest.published q hq hcase.2 hset).1 hcase.1
  unfold redeliver
  rw [if_neg hipc]
  refine runs_bind.mpr (runs_ite (fun hno => absurd hno Bool.false_ne_true) fun _ => ?_)
  refine runs_ite (fun hfile => ?_) fun _ => rfl
  obtain ⟨-, content, n, hcontent, -⟩ := h.rest.published q hq hfile.2 hset
  intro l _
  refine ⟨(w.files q.targetPath).isSome, w, rfl, ?_⟩
  rw [hcontent]
  exact rfl

/-- The sweep leaves a projection that is held up to itself. -/
theorem sweepOne_leavesAlone (h : HeldUp x limit now p w) (hc : c.runId ≠ p.runId)
    (hrow : w.store.settleable c = false → c ∈ w.store.transportProjections)
    (hrun : ∀ q ∈ w.store.transportProjections, q.runId = c.runId → q.timerId = c.timerId) :
    (sweepOne x live c).Runs (pubMachine x) (Luck.IsQuiet now)
      (fun _ w' => LeftAlone x p w w') w := by
  cases hclaim : w.store.getRun c.runId with
  | none =>
    refine runs_onDb (c := .getRun c.runId) rfl ?_
    rw [hclaim]
    exact .refl
  | some claim =>
    have hother : w.store.settleable c = true →
        ∀ q ∈ w.store.transportProjections, w.store.settleable q = false → q.runId ≠ c.runId := by
      intro hset q hq hno heq
      have hsame : w.store.settleable q = w.store.settleable c := by
        rw [Store.settleable, heq, hrun q hq heq, Store.settleable]
      rw [hsame, hset] at hno
      cases hno
    apply runs_sweepOne hclaim
    split
    · next hpicked =>
      have hset : w.store.settleable c = true := by
        rw [Store.settleable_of_claim hclaim, hpicked, Bool.true_or]
      refine runs_onDb (c := .markTransportPickedUp c.runId) rfl ?_
      have hk := leftAlone_update (x := x) rfl
        (StoreCall.rewritten (.markTransportPickedUp c.runId) trivial w.store) (fun _ => rfl) hc
        (hother hset)
      refine (takeAway_leavesAlone (p := p) (hk.locks.trans h.locks) ?_).mono fun _ w' hk' =>
        hk.trans hk'
      intro q' hq' hno
      obtain ⟨q, hq, hrow'⟩ := hk.rewritten.of_mem hq'
      rw [hrow'.runId]
      exact hother hset q hq ((hk.rewritten.settleable hrow').symm.trans hno)
    · next hpicked =>
      split
      · next hno =>
        have hset : w.store.settleable c = true := by
          rw [Store.settleable_of_claim hclaim, hno, Bool.or_true]
        refine runs_onDb (c := .markTransportObsolete c.runId) rfl ?_
        exact leftAlone_update rfl
          (StoreCall.rewritten (.markTransportObsolete c.runId) trivial w.store) (fun _ => rfl) hc
          (hother hset)
      · next hno =>
        have hset : w.store.settleable c = false := by
          rw [Bool.not_eq_true] at hpicked hno
          rw [Store.settleable_of_claim hclaim, hpicked, hno, Bool.or_false]
        refine (redeliver_atRest h (hrow hset) hset).mono fun _ w' heq => ?_
        rw [heq]
        exact .refl

theorem HeldUp.ne_run (h : HeldUp x limit now p w)
    (hc : c ∈ w.store.liveTransportProjections limit) : c.runId ≠ p.runId := by
  intro heq
  have hrow := (List.mem_filter.mp (mem_inOrder_take hc)).1
  obtain rfl := List.inj_on_of_nodup_map h.runs hrow h.row heq
  exact not_mem_window h.many hc

theorem sweepPickups_leavesAlone (h : HeldUp x limit now p w) :
    (sweepPickups x live limit).Runs (pubMachine x) (Luck.IsQuiet now)
      (fun _ w' => LeftAlone x p w w') w := by
  refine runs_onDb (c := .liveTransportProjections limit) rfl ?_
  refine runs_forEach (fun _ w' => LeftAlone x p w w') ?_ .refl
  rintro c rest w' ⟨pre, hsplit⟩ hk
  have hc : c ∈ w.store.liveTransportProjections limit := by
    rw [hsplit]
    simp
  have hrow := (List.mem_filter.mp (mem_inOrder_take hc)).1
  refine (sweepOne_leavesAlone (h.leftAlone hk) (h.ne_run hc) (fun hno => ?_)
    fun q' hq' heq => ?_).mono fun _ w'' hk' => hk.trans hk'
  · exact hk.spared c hrow (.inr ((hk.settleable c).symm.trans hno))
  · obtain ⟨q, hq, hq'⟩ := hk.rewritten.of_mem hq'
    obtain rfl := List.inj_on_of_nodup_map h.runs hq hrow (hq'.runId.symm.trans heq)
    exact hq'.timerId

/-- At rest nothing is due. -/
theorem pump_heldUp (h : HeldUp x limit now p w) :
    (pump x live limit).Runs (pubMachine x) (Luck.IsQuiet now)
      (fun _ w' => HeldUp x limit now p w') w := by
  have hnone : w.store.dueTransportProjections now limit = [] := by
    have hfilter : w.store.transportProjections.filter (fun q =>
        q.state = PENDING ∧ q.nextAttemptAt ≤ now) = [] := by
      refine List.filter_eq_nil_iff.mpr fun q hq hdue => ?_
      obtain ⟨hstate, hle⟩ := of_decide_eq_true hdue
      exact Int.not_le.mpr (h.rest.pending q hq hstate) hle
    rw [Store.dueTransportProjections, hfilter]
    simp [Store.inOrder]
  intro l hl
  refine ⟨l.clock, w, rfl, ?_⟩
  refine runs_onDb (c := .dueTransportProjections l.clock limit) rfl ?_
  rw [hl.2, hnone]
  exact (sweepPickups_leavesAlone h).mono fun _ w' hk => h.leftAlone hk

theorem exists_quiet (now : Int) : ∃ l, Luck.IsQuiet now l := ⟨{ clock := now }, rfl, rfl⟩

/-- However often the pump comes by. -/
theorem not_passes_of_heldUp (h : HeldUp x limit now p w) (n : Nat) :
    ¬Passes x live limit now n (fun w' => w'.store.NoneLeft) w := by
  induction n generalizing w with
  | zero =>
    intro hnone
    have hno := hnone p h.row h.live
    rw [h.settleable] at hno
    cases hno
  | succ n ih =>
    intro hpasses
    obtain ⟨-, w', hpasses', hstuck⟩ := (Runs.and hpasses (pump_heldUp h)).exists (exists_quiet now)
    exact ih hstuck hpasses'

end Held

/-! ### Runs of the pump -/

section

variable [Calendar] {cfg : FireConfig} {x : NotificationCodec}
  {tr : List (System.Event Publication PubStep)} {s : Publication}

/-- The orders in the table are kept apart. -/
theorem orders_of_run (h : (publication cfg x).Run {} tr s) : s.orders.Nodup := by
  refine publication_induction (J := fun _ s => s.orders.Nodup) h List.nodup_nil ?_
  intro tr s i s' _ hok hship _ _ hJ
  rw [Publication.orders] at hJ ⊢
  cases hship with
  | same _ h => rwa [h.1]
  | pruned timerId _ hp hc =>
    rw [hp]
    exact hJ.sublist (List.filter_sublist.map _)
  | updated _ f hf hp hc => rwa [hp, map_publicationOrder hf]
  | inserted _ proj hrun hclaim horder hlive hp hc =>
    rw [hp, filter_of_fresh (fresh_of_getRun hok.projections hrun), List.map_append]
    refine List.nodup_append.mpr ⟨hJ, by simp, fun n hn m hm => ?_⟩
    obtain rfl : m = proj.publicationOrder := by simpa using hm
    have hle := Numbering.le_top hn
    rw [horder]
    exact Nat.ne_of_lt (Nat.lt_succ_of_le hle)

/-- In every state that is reached, when no lock is held. -/
theorem idle_of_run (h : (publication cfg x).Run {} tr s) (hlocks : s.world.locks = []) :
    s.world.Idle where
  locks := hlocks
  rows := (publication_ok h).projections
  orders := orders_of_run h

end

section

variable {x : NotificationCodec} {live : Bool} {limit : Nat} {now : Int} {w : PubWorld}

end

section Sample

attribute [local instance] Calendar.utcOnly

/-- Every run has a file of its own. -/
def FireConfig.apart : FireConfig :=
  { FireConfig.shared with route := { FireConfig.shared.route with fireSlotFile := none } }

/-- A timer fires twice, the second time over its first run, and the app
acknowledges the second run; no run file is there. -/
def PubStep.superseded : List PubStep :=
  [.commit (.createTimer (.sample .skip) 0), .commit (.createTimer (.sample .skip) 0),
    .fired 0 (60 * NS) none, .fired 0 (120 * NS) (some 2)] ++
    List.replicate 5 (.call 0 { clock := 121 * NS }) ++
    List.replicate 5 (.call 1 { clock := 121 * NS }) ++
    [.commit (.ingest (.sample .skip) { ackReply with runId := some ⟨5⟩ } "digest" (121 * NS)
      (121 * NS) (121 * NS))]

def Publication.superseded : Publication :=
  PubStep.superseded.foldl (fun s i => (publicationNextGated .apart .sample s i).getD s) {}

theorem superseded_idle : Publication.superseded.world.Idle :=
  idle_of_run (run_publication .apart .sample PubStep.superseded) (by decide +kernel)

end Sample

end Bellman

/-
Bellman/Replay.lean

A backlog that is replayed: the loop of the catch-up policy.

The loop goes over the backlog instant by instant.  What it does with one is
decided by the instant alone, by the claim of its slot, and by the runs that
are left:

    past grace      passed over; the step is not counted
    finished slot   passed over with up to 100000 instants after it; counted
    any other       delivered; counted, and one run more is used up

`replay` is that on a list, with no store.  It ends when so many steps are
counted, when the run cap is used up, when the list is, or when the loop has
made 100000 turns; what it has not come to is left over.

Main result: the loop of the scheduler is the replay of the row's backlog
(`catchUpLoop_spec`).
-/
import Bellman.Coalesce

namespace Bellman

open ProgramLogic Prog ReplyM

/-! ### The replay of a list -/

/-- What decides about an instant. -/
structure Replay where
  /-- Past grace. -/
  late : Int → Bool
  /-- The slot is finished, where claims have been displaced or not. -/
  finished : Bool → Int → Bool
  /-- The slot has no claim. -/
  free : Int → Bool
  /-- A new claim displaces those that are pending. -/
  replaces : Bool
  /-- How many of the instants after a finished slot go with it. -/
  jump : Int → Nat
  /-- So many runs more use up the run cap. -/
  spent : Nat → Bool

/-- The instants delivered, the runs used up by then, and the instants left. -/
structure Replayed where
  fires : List Int
  runs : Nat
  rest : List Int

/-- The replay of a backlog, in at most `fuel` turns, of which at most `left`
count. -/
def replay (p : Replay) : (fuel left runs : Nat) → (displaced : Bool) → List Int → Replayed
  | 0, _, runs, _, l => ⟨[], runs, l⟩
  | _ + 1, _, runs, _, [] => ⟨[], runs, []⟩
  | _ + 1, 0, runs, _, l => ⟨[], runs, l⟩
  | fuel + 1, left + 1, runs, displaced, x :: l =>
    if p.late x then replay p fuel (left + 1) runs displaced l
    else if p.finished displaced x then replay p fuel left runs displaced (l.drop (p.jump x))
    else if p.spent (runs + 1) then ⟨[x], runs + 1, []⟩
    else
      let out := replay p fuel left (runs + 1) (displaced || (p.replaces && p.free x)) l
      ⟨x :: out.fires, out.runs, out.rest⟩

section Replay

variable (p : Replay)

/-- A replay of nothing delivers nothing. -/
theorem replay_nil (fuel left runs : Nat) (b : Bool) :
    replay p fuel left runs b [] = ⟨[], runs, []⟩ := by
  cases fuel <;> rfl

/-- A replay delivers some of the backlog, in its order. -/
theorem replay_fires_sublist (fuel left runs : Nat) (b : Bool) (l : List Int) :
    (replay p fuel left runs b l).fires.Sublist l := by
  induction fuel generalizing left runs b l with
  | zero => exact List.nil_sublist l
  | succ fuel ih =>
    rcases l with - | ⟨x, l⟩
    · exact List.nil_sublist []
    cases left with
    | zero => exact List.nil_sublist _
    | succ left =>
      unfold replay
      split
      · exact (ih ..).cons x
      split
      · exact ((ih ..).trans (List.drop_sublist _ l)).cons x
      split
      · exact (List.nil_sublist l).cons_cons x
      · exact (ih ..).cons_cons x

/-- What is left over is no more than there was. -/
theorem replay_rest_le (fuel left runs : Nat) (b : Bool) (l : List Int) :
    (replay p fuel left runs b l).rest.length ≤ l.length := by
  induction fuel generalizing left runs b l with
  | zero => exact Nat.le_refl _
  | succ fuel ih =>
    rcases l with - | ⟨x, l⟩
    · exact Nat.le_refl _
    cases left with
    | zero => exact Nat.le_refl _
    | succ left =>
      unfold replay
      split
      · exact (ih ..).trans (Nat.le_succ _)
      split
      · refine (ih ..).trans ?_
        rw [List.length_drop, List.length_cons]
        omega
      split
      · exact Nat.zero_le _
      · exact (ih ..).trans (Nat.le_succ _)

/-- A turn is made if one may be. -/
theorem replay_rest_lt (fuel left runs : Nat) (b : Bool) (x : Int) (l : List Int) :
    (replay p (fuel + 1) (left + 1) runs b (x :: l)).rest.length < (x :: l).length := by
  unfold replay
  rw [List.length_cons, Nat.lt_succ_iff]
  split
  · exact replay_rest_le ..
  split
  · refine (replay_rest_le ..).trans ?_
    rw [List.length_drop]
    omega
  split
  · exact Nat.zero_le _
  · exact replay_rest_le ..

/-- The instants past grace are passed over, as far as there are turns. -/
theorem replay_late (left runs : Nat) (b : Bool) {late : List Int} (hlate : ∀ x ∈ late, p.late x)
    (fuel : Nat) (l : List Int) :
    replay p fuel (left + 1) runs b (late ++ l) =
      if fuel ≤ late.length then ⟨[], runs, (late ++ l).drop fuel⟩
      else replay p (fuel - late.length) (left + 1) runs b l := by
  induction late generalizing fuel with
  | nil =>
    cases fuel with
    | zero => rfl
    | succ fuel => rfl
  | cons x late ih =>
    obtain ⟨hx, hlate⟩ := List.forall_mem_cons.mp hlate
    cases fuel with
    | zero => rfl
    | succ fuel =>
      rw [List.cons_append, replay, if_pos hx, ih hlate, List.length_cons, List.drop_succ_cons]
      simp only [Nat.add_le_add_iff_right, Nat.add_sub_add_right]

/-- No slot is finished when its turn comes: neither before, nor displaced by
one that was delivered. -/
def Replay.Open (p : Replay) : Bool → List Int → Prop
  | _, [] => True
  | displaced, x :: l => ¬p.finished displaced x ∧ p.Open (displaced || (p.replaces && p.free x)) l

/-- **Of the instants within grace** the first ones are delivered exactly when
the turns and the runs suffice, and their slots are open. -/
theorem replay_fires_iff {l : List Int} (hl : l.Nodup) (hlate : ∀ x ∈ l, ¬p.late x) {runs : Nat}
    (hruns : ¬p.spent runs) (fuel left : Nat) (b : Bool) :
    (replay p fuel left runs b l).fires = l.take left ↔
      (l.take left).length ≤ fuel ∧ p.Open b (l.take left) ∧
        ∀ i < (l.take left).length, ¬p.spent (runs + i) := by
  induction fuel generalizing left runs b l with
  | zero =>
    rw [replay, Nat.le_zero, List.length_eq_zero_iff]
    constructor
    · intro h
      rw [← h]
      exact ⟨rfl, trivial, fun i hi => absurd hi (Nat.not_lt_zero i)⟩
    · exact fun h => h.1.symm
  | succ fuel ih =>
    have hnone : (replay p (fuel + 1) left runs b l).fires = [] → l.take left = [] →
        ((replay p (fuel + 1) left runs b l).fires = l.take left ↔
          (l.take left).length ≤ fuel + 1 ∧ p.Open b (l.take left) ∧
            ∀ i < (l.take left).length, ¬p.spent (runs + i)) := by
      intro hfires hnil
      rw [hfires, hnil]
      exact iff_of_true rfl ⟨Nat.zero_le _, trivial, fun i hi => absurd hi (Nat.not_lt_zero i)⟩
    rcases l with - | ⟨x, l⟩
    · exact hnone (by rw [replay_nil]) List.take_nil
    cases left with
    | zero => exact hnone rfl rfl
    | succ left =>
      obtain ⟨hx, hl⟩ := List.nodup_cons.mp hl
      obtain ⟨hxlate, hlate⟩ := List.forall_mem_cons.mp hlate
      rw [replay, if_neg hxlate, List.take_succ_cons, List.length_cons, Nat.add_le_add_iff_right]
      -- A later instant is not the first one.
      have hfirst : ∀ fires : List Int, fires.Sublist l → fires ≠ x :: l.take left := by
        rintro fires hsub rfl
        exact hx (hsub.subset (List.mem_cons_self ..))
      by_cases hfin : p.finished b x
      · rw [if_pos hfin]
        refine iff_of_false (hfirst _ ?_) fun hopen => hopen.2.1.1 hfin
        exact (replay_fires_sublist ..).trans (List.drop_sublist _ l)
      rw [if_neg hfin]
      by_cases hspent : p.spent (runs + 1)
      · rw [if_pos hspent]
        cases htake : l.take left with
        | nil =>
          refine iff_of_true rfl ⟨Nat.zero_le _, ⟨hfin, trivial⟩, fun i hi => ?_⟩
          obtain rfl : i = 0 := Nat.lt_one_iff.mp hi
          exact hruns
        | cons y ys =>
          refine iff_of_false (fun h => List.cons_ne_nil _ _ (List.cons.inj h).2.symm) fun h => ?_
          exact h.2.2 1 (by simp) hspent
      · rw [if_neg hspent]
        have hrest := ih hl hlate hspent left (b || (p.replaces && p.free x))
        constructor
        · intro h
          obtain ⟨hfuel, hopen, hmore⟩ := hrest.mp (List.cons.inj h).2
          refine ⟨hfuel, ⟨hfin, hopen⟩, fun i hi => ?_⟩
          cases i with
          | zero => exact hruns
          | succ i =>
            rw [Nat.add_comm i, ← Nat.add_assoc]
            exact hmore i (Nat.lt_of_succ_lt_succ hi)
        · rintro ⟨hfuel, ⟨-, hopen⟩, hmore⟩
          have hfires := hrest.mpr ⟨hfuel, hopen, fun i hi => ?_⟩
          · exact congrArg (x :: ·) hfires
          · rw [Nat.add_assoc, Nat.add_comm 1]
            exact hmore (i + 1) (Nat.succ_lt_succ hi)

/-- And then the rest is what comes after them, or nothing where the last run
is used up. -/
theorem replay_rest_eq {l : List Int} (hlate : ∀ x ∈ l, ¬p.late x) {runs fuel left : Nat}
    {b : Bool} (hfuel : (l.take left).length ≤ fuel) (hopen : p.Open b (l.take left))
    (hruns : ∀ i < (l.take left).length, ¬p.spent (runs + i)) :
    (replay p fuel left runs b l).rest =
      if l.take left ≠ [] ∧ p.spent (runs + (l.take left).length) then []
      else l.drop (l.take left).length := by
  induction fuel generalizing left runs b l with
  | zero =>
    have hnil := List.length_eq_zero_iff.mp (Nat.le_zero.mp hfuel)
    rw [hnil, if_neg fun h => h.1 rfl]
    rfl
  | succ fuel ih =>
    rcases l with - | ⟨x, l⟩
    · rw [replay_nil, List.take_nil, if_neg fun h => h.1 rfl]
      rfl
    cases left with
    | zero => exact (if_neg fun h => h.1 rfl).symm
    | succ left =>
      obtain ⟨hxlate, hlate⟩ := List.forall_mem_cons.mp hlate
      rw [List.take_succ_cons] at hfuel hopen hruns ⊢
      rw [replay, if_neg hxlate, if_neg hopen.1, List.length_cons, List.drop_succ_cons]
      by_cases hspent : p.spent (runs + 1)
      · rw [if_pos hspent]
        cases htake : l.take left with
        | nil => rw [if_pos ⟨List.cons_ne_nil _ _, hspent⟩]
        | cons y ys =>
          rw [htake] at hruns
          exact absurd hspent (hruns 1 (by simp))
      · rw [if_neg hspent]
        have hmore : ∀ i < (l.take left).length, ¬p.spent (runs + 1 + i) := by
          intro i hi
          rw [Nat.add_assoc, Nat.add_comm 1]
          exact hruns (i + 1) (Nat.succ_lt_succ hi)
        rw [ih hlate (Nat.le_of_succ_le_succ hfuel) hopen.2 hmore, Nat.add_assoc, Nat.add_comm 1]
        cases htake : l.take left with
        | nil => rw [if_neg fun h => h.1 rfl, if_neg fun h => hspent h.2]
        | cons y ys => simp only [ne_eq, List.cons_ne_nil, not_false_eq_true, true_and]

end Replay

/-! ### Runs that are used up -/

namespace Occurrence

variable {occ : Occurrence}

/-- The schedule after so many runs more. -/
def ran (occ : Occurrence) : Nat → Occurrence
  | 0 => occ
  | k + 1 => (occ.ran k).recordRun

@[simp] theorem pendingSkips_ran (occ : Occurrence) (k : Nat) :
    (occ.ran k).pendingSkips = occ.pendingSkips := by
  induction k with
  | zero => rfl
  | succ k ih => exact ih

variable [Calendar]

theorem jumpsForward_ran (hj : occ.JumpsForward) (k : Nat) : (occ.ran k).JumpsForward := by
  induction k with
  | zero => exact hj
  | succ k ih => exact ih

theorem firing_ran {k : Nat} (h : (occ.ran k).exhausted = false) :
    (occ.ran k).firing = occ.firing := by
  induction k with
  | zero => rfl
  | succ k ih =>
    have hk : (occ.ran k).exhausted = false := by
      cases hex : (occ.ran k).exhausted with
      | false => rfl
      | true => exact (Bool.eq_false_iff.mp h (exhausted_recordRun hex)).elim
    rw [ran, firing_recordRun h, ih hk]

theorem missed_of_exhausted (h : occ.exhausted = true) (now c : Int) : occ.missed now c = [] := by
  apply Walk.backlog_nil
  rw [Walk.step_eq_none]
  intro u hu
  rw [firing_of_exhausted h] at hu
  cases hu

theorem missed_ran {k : Nat} (h : (occ.ran k).exhausted = false) (now c : Int) :
    (occ.ran k).missed now c = occ.missed now c := by
  rw [missed, firing_ran h, missed]

theorem missed_of_none {now c : Int} (h : occ.firing c = none) : occ.missed now c = [] := by
  apply Walk.backlog_nil
  rw [Walk.step_eq_none, h]
  exact fun _ hu => nomatch hu

theorem missed_of_some {now c nf : Int} (hj : occ.JumpsForward) (h : occ.firing c = some nf) :
    occ.missed now c = if now < nf then [] else nf :: occ.missed now nf := by
  split
  · next hlt =>
    apply Walk.backlog_nil
    rw [Walk.step_eq_none, h]
    rintro u ⟨⟩
    exact hlt
  · next hle =>
    exact Walk.backlog_cons (firing_climbs hj) (Walk.step_eq_some.mpr ⟨h, Int.not_lt.mp hle⟩)

end Occurrence

theorem displaced_displaced (b c : Bool) (status : Option ClaimStatus) :
    displaced c (displaced b status) = displaced (b || c) status := by
  rcases status with - | ⟨- | - | -⟩ <;> cases b <;> cases c <;> rfl

theorem isNone_displaced (b : Bool) (status : Option ClaimStatus) :
    (displaced b status).isNone = status.isNone := by
  rcases status with - | ⟨- | - | -⟩ <;> cases b <;> rfl

/-! ### The loop -/

section Loop

variable [Calendar] {h : Handling} {r : ReplyState} {t : Timer} {now grace : Int}

/-- What decides about the instants of a row. -/
def Handling.replays (h : Handling) (t : Timer) (s : Store) (now grace : Int) : Replay where
  late x := decide (grace < now - x)
  finished b x := decide (displaced b (s.slotStatus t.id x) = some .finished)
  free x := (s.slotStatus t.id x).isNone
  replaces := h.replaces t
  jump x := ((t.occurrence.missed (h.delivery x).wallNow x).take MAX_ADVANCE).length
  spent k := (t.occurrence.ran k).exhausted

/-- The fires are of the timer, at the instants, in their order. -/
def Fires (ds : List DeliveredFire) (timerId : Uuid) (xs : List Int) : Prop :=
  ds.map (fun d => (d.timerId, d.scheduledFor)) = xs.map fun x => (timerId, x)

/-- The row `t'` is what `t` has become after `k` runs, and its next fire is
`scheduled`. -/
structure Timer.Running (t : Timer) (k : Nat) (t' : Timer) (scheduled : Int) : Prop where
  id : t'.id = t.id
  overlap : t'.overlap = t.overlap
  prune : t'.isSystemPrune = t.isSystemPrune
  occurrence : t'.occurrence = t.occurrence.ran k
  runs : (t.occurrence.ran k).exhausted = false
  next : t'.nextFireUtc = some scheduled
  last : t'.lastFired.all (· < scheduled) = true

/-- The row has come to a place on its backlog from which there is so much
left. -/
def Timer.StopsAt (t : Timer) (now : Int) (k : Nat) (rest : List Int) (t' : Timer) : Prop :=
  ∃ a, t.Stands (t.occurrence.ran k) a t' ∧ (t.occurrence.ran k).missed now a = rest

theorem Timer.Stands.running {t' : Timer} {k : Nat} {a nf : Int} (hj : t.occurrence.JumpsForward)
    (ht : t.Stands (t.occurrence.ran k) a t') (hruns : (t.occurrence.ran k).exhausted = false)
    (hnf : t.occurrence.firing a = some nf) : t.Running k t' nf where
  id := ht.id
  overlap := ht.overlap
  prune := ht.prune
  occurrence := ht.occurrence
  runs := hruns
  next := by rw [ht.nextFireUtc, Occurrence.firing_ran hruns, hnf]
  last := by
    rw [ht.lastFired]
    exact decide_eq_true (Occurrence.firing_climbs hj hnf)

theorem Timer.Running.stands {t' t₁ : Timer} {k : Nat} {scheduled a : Int} {occ : Occurrence}
    (ht : t.Running k t' scheduled) (h₁ : t'.Stands occ a t₁) : t.Stands occ a t₁ where
  id := h₁.id.trans ht.id
  overlap := h₁.overlap.trans ht.overlap
  prune := h₁.prune.trans ht.prune
  occurrence := h₁.occurrence
  lastFired := h₁.lastFired
  nextFireUtc := h₁.nextFireUtc

/-- What the loop has done when it ends: it has delivered the fires of the
replay, and the row stops where the replay does, or it has not been touched. -/
def LoopEnds (t t' : Timer) (now : Int) (k : Nat) (l : List Int) (delivered : List DeliveredFire)
    (out : Replayed) (ds : List DeliveredFire) (s' : Store) : Prop :=
  s'.Keyed ∧ (∃ new, ds = delivered ++ new ∧ Fires new t.id out.fires) ∧
    ∃ t'', s'.getTimer t.id = some t'' ∧
      (t.StopsAt now out.runs out.rest t'' ∨ t'' = t' ∧ out.runs = k ∧ out.rest = l)

/-- The end of a turn that has written the row: the loop goes on with the rest. -/
theorem LoopEnds.of_turn {t' t₁ : Timer} {k k₁ : Nat} {l l₁ : List Int}
    {delivered ds : List DeliveredFire} {out : Replayed} {s' : Store}
    (hstop : t.StopsAt now k₁ l₁ t₁) (hend : LoopEnds t t₁ now k₁ l₁ delivered out ds s') :
    LoopEnds t t' now k l delivered out ds s' := by
  obtain ⟨hkeyed, hnew, t'', hget, hrow⟩ := hend
  refine ⟨hkeyed, hnew, t'', hget, .inl ?_⟩
  rcases hrow with hrow | ⟨rfl, hruns, hrest⟩
  · exact hrow
  · rw [hruns, hrest]
    exact hstop

theorem LoopEnds.of_fire {t' : Timer} {k : Nat} {l : List Int} {x : Int}
    {delivered ds : List DeliveredFire} {out : Replayed} {s' : Store} {d : DeliveredFire}
    (hd : d.timerId = t.id ∧ d.scheduledFor = x)
    (hend : LoopEnds t t' now k l (delivered ++ [d]) out ds s') :
    LoopEnds t t' now k l delivered ⟨x :: out.fires, out.runs, out.rest⟩ ds s' := by
  obtain ⟨hkeyed, ⟨new, rfl, hnew⟩, hrow⟩ := hend
  refine ⟨hkeyed, ⟨d :: new, by rw [List.append_assoc]; rfl, ?_⟩, hrow⟩
  unfold Fires at hnew ⊢
  rw [List.map_cons, List.map_cons, hnew, hd.1, hd.2]

/-- **The loop is the replay** of what the row has ahead. -/
theorem catchUpLoop_spec (hj : t.occurrence.JumpsForward) (hskips : t.occurrence.pendingSkips = 0)
    (s₀ : Store) (maxCatchUp fuel index : Nat) {scheduled : Int} {k : Nat} {b : Bool}
    {l : List Int} {delivered : List DeliveredFire} {t' : Timer} (hs : r.store.Keyed)
    (hget : r.store.getTimer t.id = some t') (ht : t.Running k t' scheduled)
    (hl : l = if now < scheduled then [] else scheduled :: t.occurrence.missed now scheduled)
    (hslots : ∀ y ∈ l, r.store.slotStatus t.id y = displaced b (s₀.slotStatus t.id y)) :
    wp (catchUpLoop h t.id now grace maxCatchUp fuel scheduled index delivered)
      (fun ds r' => LoopEnds t t' now k l delivered
        (replay (h.replays t s₀ now grace) fuel (maxCatchUp - index) k b l) ds r'.store)
      (fun _ _ => True) r := by
  induction fuel generalizing r scheduled k b l delivered t' index with
  | zero => exact ⟨hs, ⟨[], by simp, rfl⟩, t', hget, .inr ⟨rfl, rfl, rfl⟩⟩
  | succ fuel ih =>
    have hsame : LoopEnds t t' now k l delivered ⟨[], k, l⟩ delivered r.store :=
      ⟨hs, ⟨[], by simp, rfl⟩, t', hget, .inr ⟨rfl, rfl, rfl⟩⟩
    -- A turn that has written the row goes on with the rest, or there is none.
    have hrest : ∀ {r₁ : ReplyState} {t₁ : Timer} {a nf : Int} {k₁ : Nat} {b₁ : Bool}
        {l₁ : List Int} {delivered₁ : List DeliveredFire} (index₁ : Nat), r₁.store.Keyed →
        r₁.store.getTimer t.id = some t₁ → t.Stands (t.occurrence.ran k₁) a t₁ →
        (t.occurrence.ran k₁).missed now a = l₁ →
        (∀ y ∈ l₁, r₁.store.slotStatus t.id y = displaced b₁ (s₀.slotStatus t.id y)) →
        t₁.nextFireUtc = some nf →
        wp (catchUpLoop h t.id now grace maxCatchUp fuel nf index₁ delivered₁)
          (fun ds r' => LoopEnds t t' now k l delivered₁
            (replay (h.replays t s₀ now grace) fuel (maxCatchUp - index₁) k₁ b₁ l₁) ds r'.store)
          (fun _ _ => True) r₁ := by
      intro r₁ t₁ a nf k₁ b₁ l₁ delivered₁ index₁ hs₁ hget₁ ht₁ hl₁ hslots₁ hnf
      subst hl₁
      have hfiring : (t.occurrence.ran k₁).firing a = some nf := ht₁.nextFireUtc.symm.trans hnf
      have hruns : (t.occurrence.ran k₁).exhausted = false := by
        cases hex : (t.occurrence.ran k₁).exhausted with
        | false => rfl
        | true =>
          rw [Occurrence.firing_of_exhausted hex] at hfiring
          cases hfiring
      rw [Occurrence.firing_ran hruns] at hfiring
      rw [Occurrence.missed_ran hruns] at hslots₁ ⊢
      refine wp_mono (ih index₁ hs₁ hget₁ (ht₁.running hj hruns hfiring)
        (Occurrence.missed_of_some hj hfiring) hslots₁) (fun ds r₂ hend => ?_) fun _ _ _ => trivial
      exact hend.of_turn ⟨a, ht₁, Occurrence.missed_ran hruns now a⟩
    have hdone : ∀ {r₁ : ReplyState} {t₁ : Timer} {a : Int} {k₁ left : Nat} {b₁ : Bool}
        {l₁ : List Int} {delivered₁ : List DeliveredFire}, r₁.store.Keyed →
        r₁.store.getTimer t.id = some t₁ → t.Stands (t.occurrence.ran k₁) a t₁ →
        (t.occurrence.ran k₁).missed now a = l₁ → (t.occurrence.ran k₁).missed now a = [] →
        LoopEnds t t' now k l delivered₁
          (replay (h.replays t s₀ now grace) fuel left k₁ b₁ l₁) delivered₁ r₁.store := by
      intro r₁ t₁ a k₁ left b₁ l₁ delivered₁ hs₁ hget₁ ht₁ hl₁ hnil
      rw [← hl₁, hnil, replay_nil]
      exact ⟨hs₁, ⟨[], by simp, rfl⟩, t₁, hget₁, .inl ⟨a, ht₁, hnil⟩⟩
    unfold catchUpLoop
    by_cases hafter : now < scheduled
    · obtain rfl : l = [] := hl.trans (if_pos hafter)
      rw [if_pos (.inl hafter), replay_nil]
      exact hsame
    rw [if_neg hafter] at hl
    by_cases hleft : maxCatchUp ≤ index
    · rw [if_pos (.inr hleft), Nat.sub_eq_zero_of_le hleft]
      rw [hl] at hsame ⊢
      exact hsame
    rw [if_neg (by omega)]
    obtain ⟨left, hleft⟩ : ∃ left, maxCatchUp - index = left + 1 :=
      ⟨maxCatchUp - index - 1, by omega⟩
    have hindex : maxCatchUp - (index + 1) = left := by omega
    have hmissed := Occurrence.missed_ran ht.runs now scheduled
    subst hl
    have hothers : ∀ y ∈ t.occurrence.missed now scheduled,
        r.store.slotStatus t.id y = displaced b (s₀.slotStatus t.id y) :=
      fun y hy => hslots y (List.mem_cons_of_mem _ hy)
    have hskips' : t'.occurrence.pendingSkips = 0 := by
      rw [ht.occurrence, Occurrence.pendingSkips_ran, hskips]
    have hrow : r.store.getTimer t'.id = some t' := by rw [ht.id, hget]
    rw [hleft]
    unfold replay
    by_cases hlate : grace < now - scheduled
    · -- Past grace: the row is set to the instant.
      have hp : (h.replays t s₀ now grace).late scheduled = true := decide_eq_true hlate
      rw [if_pos hlate, if_pos hp, ← hleft, wp_bind]
      have hanchor := anchorLastFired_spec (h := h) (a := scheduled) hs hrow hskips'
      rw [ht.id] at hanchor
      refine wp_mono hanchor (fun _ r₁ hm => ?_) fun _ _ _ => trivial
      obtain ⟨t₁, hget₁, hstands⟩ := hm.row
      rw [ht.id] at hget₁
      rw [ht.occurrence] at hstands
      have hstands := ht.stands hstands
      rw [wp_bind, wp_getTimer, hget₁]
      dsimp only
      cases hnf : t₁.nextFireUtc with
      | none =>
        exact hdone hm.keyed hget₁ hstands hmissed
          (Occurrence.missed_of_none (hstands.nextFireUtc.symm.trans hnf))
      | some nf =>
        dsimp only
        have hlt : scheduled < nf := by
          have hfiring := hstands.nextFireUtc.symm.trans hnf
          exact Occurrence.firing_climbs (Occurrence.jumpsForward_ran hj k) hfiring
        rw [if_pos hlt]
        refine hrest index hm.keyed hget₁ hstands hmissed (fun y hy => ?_) hnf
        rw [slotStatus_of_runs hm.runs]
        exact hothers y hy
    · have hp : ¬(h.replays t s₀ now grace).late scheduled = true := by
        simpa [Handling.replays] using hlate
      rw [if_neg hlate, if_neg hp, wp_bind, wp_getTimer, hget]
      dsimp only
      rw [wp_bind]
      have hfirst := hslots scheduled (List.mem_cons_self ..)
      refine wp_mono (deliverOne_spec hs hrow hskips'
        (ht.occurrence ▸ Occurrence.jumpsForward_ran hj k) ht.last
        (by rw [ht.next]; exact decide_eq_true (Int.le_refl _))) (fun d r₁ hd => ?_)
        fun _ _ _ => trivial
      rw [ht.id, hfirst] at hd
      by_cases hfin : displaced b (s₀.slotStatus t.id scheduled) = some .finished
      · -- A finished slot: the walk goes on from it, and the step counts.
        have hp : (h.replays t s₀ now grace).finished b scheduled = true := decide_eq_true hfin
        rw [if_pos hfin] at hd
        obtain ⟨rfl, hm⟩ := hd
        rw [if_pos hp, Option.toList_none, List.append_nil]
        obtain ⟨t₁, hget₁, hstands⟩ := hm.row
        rw [ht.id] at hget₁
        rw [ht.occurrence] at hstands
        have hstands := ht.stands hstands
        have hjump : (t.occurrence.ran k).missed now
            ((((t.occurrence.ran k).missed (h.delivery scheduled).wallNow scheduled).take
              MAX_ADVANCE).getLastD scheduled) =
            (t.occurrence.missed now scheduled).drop
              ((h.replays t s₀ now grace).jump scheduled) := by
          rw [Occurrence.missed_ran ht.runs, Occurrence.missed_ran ht.runs]
          exact Walk.backlog_last (Occurrence.firing_climbs hj) now _ MAX_ADVANCE scheduled
        rw [wp_bind, wp_getTimer, hget₁]
        dsimp only
        cases hnf : t₁.nextFireUtc with
        | none =>
          exact hdone hm.keyed hget₁ hstands hjump
            (Occurrence.missed_of_none (hstands.nextFireUtc.symm.trans hnf))
        | some nf =>
          dsimp only
          split
          · next hlt =>
            refine hdone hm.keyed hget₁ hstands hjump ?_
            rw [Occurrence.missed_of_some (Occurrence.jumpsForward_ran hj k)
              (hstands.nextFireUtc.symm.trans hnf), if_pos hlt]
          · rw [← hindex]
            refine hrest (index + 1) hm.keyed hget₁ hstands hjump (fun y hy => ?_) hnf
            rw [slotStatus_of_runs hm.runs]
            exact hothers y (List.mem_of_mem_drop hy)
      · -- A delivery, by which one run more is used up.
        have hp : ¬(h.replays t s₀ now grace).finished b scheduled = true := by
          simpa [Handling.replays] using hfin
        rw [if_neg hfin] at hd
        obtain ⟨⟨run, rfl⟩, hd⟩ := hd
        obtain ⟨t₁, hget₁, hstands⟩ := hd.row
        rw [ht.id] at hget₁
        rw [ht.occurrence] at hstands
        have hstands : t.Stands (t.occurrence.ran (k + 1)) scheduled t₁ := ht.stands hstands
        have hreplaces : h.replaces t' = h.replaces t := by
          rw [Handling.replaces, ht.overlap, Handling.replaces]
        have hslots₁ : ∀ y ∈ t.occurrence.missed now scheduled, r₁.store.slotStatus t.id y =
            displaced (b || (h.replaces t && (s₀.slotStatus t.id scheduled).isNone))
              (s₀.slotStatus t.id y) := by
          intro y hy
          have hne := (Walk.mem_backlog (Occurrence.firing_climbs hj) hy).1.ne'
          have hother := hd.others y hne
          rw [ht.id, hothers y hy, displaced_displaced, isNone_displaced, hreplaces] at hother
          exact hother
        rw [if_neg hp, wp_bind, wp_getTimer, hget₁]
        dsimp only
        by_cases hspent : (t.occurrence.ran (k + 1)).exhausted = true
        · -- It was the last run.
          have hp : (h.replays t s₀ now grace).spent (k + 1) = true := hspent
          have hnone : t₁.nextFireUtc = none := by
            rw [hstands.nextFireUtc, Occurrence.firing_of_exhausted hspent]
          rw [if_pos hp, hnone]
          dsimp only
          rw [wp_pure]
          refine LoopEnds.of_fire (d := ⟨t.id, scheduled, run, .catchUp index⟩) ⟨rfl, rfl⟩
            (?_ : LoopEnds t t' now k _ _ ⟨[], k + 1, []⟩ _ _)
          exact ⟨hd.keyed, ⟨[], by simp, rfl⟩, t₁, hget₁, .inl
            ⟨scheduled, hstands, Occurrence.missed_of_exhausted hspent now scheduled⟩⟩
        · have hp : ¬(h.replays t s₀ now grace).spent (k + 1) = true := hspent
          have hmissed₁ := Occurrence.missed_ran (Bool.eq_false_iff.mpr hspent) now scheduled
          rw [if_neg hp]
          cases hnf : t₁.nextFireUtc with
          | none =>
            refine LoopEnds.of_fire ⟨rfl, rfl⟩ (hdone hd.keyed hget₁ hstands hmissed₁ ?_)
            exact Occurrence.missed_of_none (hstands.nextFireUtc.symm.trans hnf)
          | some nf =>
            dsimp only
            split
            · next hlt =>
              refine LoopEnds.of_fire ⟨rfl, rfl⟩ (hdone hd.keyed hget₁ hstands hmissed₁ ?_)
              rw [Occurrence.missed_of_some (Occurrence.jumpsForward_ran hj (k + 1))
                (hstands.nextFireUtc.symm.trans hnf), if_pos hlt]
            · rw [← hindex]
              refine wp_mono (hrest (index + 1) hd.keyed hget₁ hstands hmissed₁ hslots₁ hnf)
                (fun _ _ hend => ?_) fun _ _ _ => trivial
              exact LoopEnds.of_fire ⟨rfl, rfl⟩ hend

end Loop

end Bellman

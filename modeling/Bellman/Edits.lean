/-
Bellman/Edits.lean

Edits of a timer that are not about its schedule.

Every edit searches the schedule anew and stores what it finds.  The search
goes from the last fire, or from the current time if there was none, and
takes the skips it uses up off the schedule that it stores.  So an edit that
changes nothing of this need not come to the same next fire: the skips are
used up, and the current time is another.

The instants that a search may choose from do not depend on the skips
(`admitted`): it takes the one after as many as are to be skipped.

Main results: a row that a commit has written keeps its next fire under
every other edit exactly when it is settled (`edit_keeps_nextFire_iff`), and
not every row is (`edit_moves_nextFire`).
-/
import Bellman.Statements
import Bellman.Deletes

namespace Bellman

open ProgramLogic Prog ReplyM

/-! ### What a search chooses from -/

namespace Occurrence

variable [Calendar] {occ : Occurrence} {z : Zone}

/-- The candidates that a search does not pass over, in the order in which it
comes to them, and the panic that it runs into, if any. -/
def admitted (occ : Occurrence) (z : Zone) : Nat → Int → List Int × Option Panic
  | 0, _ => ([], none)
  | fuel + 1, cursor =>
    match occ.rawNextAfter z cursor with
    | .error p => ([], some p)
    | .ok none => ([], none)
    | .ok (some candidate) =>
      if occ.pastWindow candidate then ([], none)
      else if occ.beforeWindow candidate then occ.admitted z fuel candidate
      else if Local.date (z.toLocal candidate) ∈ occ.exclusions then
        occ.admitted z fuel (occ.afterExcluded z candidate)
      else
        let rest := occ.admitted z fuel candidate
        (candidate :: rest.1, rest.2)

/-- The choice: what stands after the skips, or the end of the search. -/
def choose (skips : Nat) : List Int × Option Panic → Except Panic (Option Int × Nat)
  | (instants, panic) =>
    match instants[skips]?, panic with
    | some t, _ => .ok (some t, skips)
    | none, some p => .error p
    | none, none => .ok (none, instants.length)

/-- **The search takes the candidate after as many as it skips.** -/
theorem searchFire_eq (fuel : Nat) (cursor : Int) {skipped : Nat}
    (h : skipped ≤ occ.pendingSkips) :
    occ.searchFire z fuel cursor skipped =
      (choose (occ.pendingSkips - skipped) (occ.admitted z fuel cursor)).map
        fun out => (out.1, skipped + out.2) := by
  induction fuel generalizing cursor skipped with
  | zero => rfl
  | succ fuel ih =>
    unfold searchFire admitted
    cases occ.rawNextAfter z cursor with
    | error p => rfl
    | ok found =>
      cases found with
      | none => rfl
      | some candidate =>
        dsimp only
        split
        · rfl
        split
        · exact ih candidate h
        split
        · exact ih _ h
        by_cases hskip : skipped < occ.pendingSkips
        · -- One more candidate is skipped.
          rw [if_pos hskip, ih candidate hskip]
          obtain ⟨k, hk⟩ : ∃ k, occ.pendingSkips - skipped = k + 1 :=
            ⟨occ.pendingSkips - skipped - 1, by omega⟩
          have hk' : occ.pendingSkips - (skipped + 1) = k := by omega
          rw [hk, hk']
          obtain ⟨instants, panic⟩ := occ.admitted z fuel candidate
          simp only [choose, List.getElem?_cons_succ, List.length_cons]
          cases instants[k]? with
          | some t =>
            show Except.ok (some t, skipped + 1 + k) = Except.ok (some t, skipped + (k + 1))
            rw [Nat.add_assoc, Nat.add_comm 1 k]
          | none =>
            cases panic with
            | some p => rfl
            | none =>
              show Except.ok (none, skipped + 1 + instants.length) =
                Except.ok (none, skipped + (instants.length + 1))
              rw [Nat.add_assoc, Nat.add_comm 1]
        · have hzero : occ.pendingSkips - skipped = 0 := by omega
          rw [if_neg hskip, hzero]
          rfl

/-! ### Skips are nothing to the choice -/

omit [Calendar] in
theorem nextOnDays_congr {occ occ' : Occurrence} (h : occ.resolve = occ'.resolve)
    (allows : Int → Bool) (time : Nat) (after : Int) (fuel : Nat) (date : Int) :
    occ.nextOnDays z allows time after fuel date =
      occ'.nextOnDays z allows time after fuel date := by
  induction fuel generalizing date with
  | zero => rfl
  | succ fuel ih =>
    have hnext : occ.nextOnDays z allows time after fuel =
        occ'.nextOnDays z allows time after fuel := funext ih
    unfold nextOnDays
    rw [h, hnext]

omit [Calendar] in
theorem nextOnMonths_congr {occ occ' : Occurrence} (h : occ.resolve = occ'.resolve)
    (hday : occ.invalidMonthday = occ'.invalidMonthday) (day time : Nat) (after : Int)
    (advance : Int × Nat → Int × Nat) (fuel : Nat) (ym : Int × Nat) :
    occ.nextOnMonths z day time after advance fuel ym =
      occ'.nextOnMonths z day time after advance fuel ym := by
  induction fuel generalizing ym with
  | zero => rfl
  | succ fuel ih =>
    unfold nextOnMonths
    rw [h, hday, ih]

theorem rawNextAfter_congr {occ occ' : Occurrence} (hkind : occ.kind = occ'.kind)
    (h : occ.resolve = occ'.resolve) (hday : occ.invalidMonthday = occ'.invalidMonthday)
    (cursor : Int) : occ.rawNextAfter z cursor = occ'.rawNextAfter z cursor := by
  unfold rawNextAfter
  rw [hkind]
  cases occ'.kind with
  | once date time =>
    dsimp only
    unfold nextOnce
    rw [h]
  | interval everySecs anchor => rfl
  | daily time => exact congrArg Except.ok (nextOnDays_congr h _ _ _ _ _)
  | weekly days time =>
    dsimp only
    unfold nextWeekly
    rw [nextOnDays_congr h]
  | monthly day time => exact nextOnMonths_congr h hday _ _ _ _ _ _
  | yearly month day time => exact nextOnMonths_congr h hday _ _ _ _ _ _
  | cron expr => rfl

/-- A schedule with another number of skips chooses from the same. -/
theorem admitted_skips (n fuel : Nat) (cursor : Int) :
    Occurrence.admitted { occ with pendingSkips := n } z fuel cursor =
      occ.admitted z fuel cursor := by
  have hresolve : Occurrence.resolve { occ with pendingSkips := n } = occ.resolve := rfl
  have hraw : ∀ c, Occurrence.rawNextAfter { occ with pendingSkips := n } z c =
      occ.rawNextAfter z c := by
    intro c
    apply rawNextAfter_congr
    · rfl
    · exact hresolve
    · rfl
  induction fuel generalizing cursor with
  | zero => rfl
  | succ fuel ih =>
    unfold admitted
    rw [hraw]
    cases occ.rawNextAfter z cursor with
    | error p => rfl
    | ok found =>
      cases found with
      | none => rfl
      | some candidate =>
        dsimp only
        rw [ih, ih]
        rfl

/-- Where jumps go forward the candidates come in order. -/
theorem admitted_sorted
    (hj : ∀ c, Local.date (z.toLocal c) ∈ occ.exclusions → c ≤ occ.afterExcluded z c)
    (fuel : Nat) (cursor : Int) :
    (occ.admitted z fuel cursor).1.Pairwise (· < ·) ∧
      ∀ t ∈ (occ.admitted z fuel cursor).1, cursor < t := by
  induction fuel generalizing cursor with
  | zero => exact ⟨.nil, by simp [admitted]⟩
  | succ fuel ih =>
    unfold admitted
    split
    · exact ⟨.nil, by simp⟩
    · exact ⟨.nil, by simp⟩
    · next candidate hraw =>
      have hlt := rawNextAfter_gt hraw
      have hlater : ∀ c, candidate ≤ c → (occ.admitted z fuel c).1.Pairwise (· < ·) ∧
          ∀ t ∈ (occ.admitted z fuel c).1, cursor < t := by
        intro c hc
        obtain ⟨hsorted, hgt⟩ := ih c
        exact ⟨hsorted, fun t ht => by have hct := hgt t ht; omega⟩
      split
      · exact ⟨.nil, by simp⟩
      split
      · exact hlater candidate (Int.le_refl _)
      split
      · next hex => exact hlater _ (hj candidate hex)
      · obtain ⟨hsorted, hgt⟩ := ih candidate
        refine ⟨List.pairwise_cons.mpr ⟨hgt, hsorted⟩, fun t ht => ?_⟩
        rcases List.mem_cons.mp ht with rfl | ht
        · exact hlt
        · exact Int.lt_trans hlt (hgt t ht)

/-! ### The search made again -/

omit [Calendar] in
/-- A choice is made again from what it leaves. -/
theorem choose_again {source : List Int × Option Panic} {skips used : Nat} {fire : Option Int}
    (h : choose skips source = .ok (fire, used)) :
    used ≤ skips ∧ (used = 0 ∨ fire = none ∧ 2 * used ≤ skips →
      ∃ m, choose (skips - used) source = .ok (fire, m)) ∧
    (source.1.Pairwise (· < ·) → (∃ m, choose (skips - used) source = .ok (fire, m)) →
      used = 0 ∨ fire = none ∧ 2 * used ≤ skips) := by
  obtain ⟨instants, panic⟩ := source
  cases hget : instants[skips]? with
  | some t =>
    -- All skips are used up, and the first instant comes next.
    obtain ⟨rfl, rfl⟩ : some t = fire ∧ skips = used := by simpa [choose, hget] using h
    refine ⟨Nat.le_refl _, ?_, ?_⟩
    · rintro (rfl | ⟨hn, -⟩)
      · exact ⟨0, h⟩
      · cases hn
    · rintro hsorted ⟨m, hm⟩
      refine .inl (Nat.eq_zero_of_not_pos fun hpos => ?_)
      obtain ⟨hlt, ht⟩ := List.getElem?_eq_some_iff.mp hget
      have h0 : instants[0]? = some instants[0] := List.getElem?_eq_getElem (by omega)
      have hfirst : instants[0] = t := by
        simp only [choose, Nat.sub_self, h0] at hm
        exact Option.some.inj (congrArg Prod.fst (Except.ok.inj hm))
      have horder := List.pairwise_iff_getElem.mp hsorted 0 skips (Nat.lt_trans hpos hlt) hlt hpos
      rw [ht, hfirst] at horder
      exact Int.lt_irrefl _ horder
  | none =>
    have hlen : instants.length ≤ skips := List.getElem?_eq_none_iff.mp hget
    cases panic with
    | some p => simp [choose, hget] at h
    | none =>
      -- The search came to its end; again it does if no instant is left over.
      obtain ⟨rfl, rfl⟩ : none = fire ∧ instants.length = used := by
        simpa [choose, hget] using h
      refine ⟨hlen, fun hused => ?_, ?_⟩
      · have hagain : instants[skips - instants.length]? = none := by
          apply List.getElem?_eq_none
          omega
        exact ⟨instants.length, by simp [choose, hagain]⟩
      · rintro - ⟨m, hm⟩
        refine .inr ⟨rfl, ?_⟩
        by_contra hmore
        have hget' := List.getElem?_eq_getElem (l := instants) (i := skips - instants.length)
          (by omega)
        simp [choose, hget'] at hm

/-- The next fire of a schedule whose runs are not used up. -/
theorem nextFire_choose (he : occ.exhausted = false) (hz : Calendar.zone occ.tz = some z)
    (after : Int) :
    occ.nextFire after =
      (choose occ.pendingSkips (occ.admitted z MAX_CANDIDATES (occ.searchFloor after))).map
        fun out => (out.1, { occ with pendingSkips := occ.pendingSkips - out.2 }) := by
  have hsearch : occ.searchFire z MAX_CANDIDATES (occ.searchFloor after) 0 = _ :=
    searchFire_eq MAX_CANDIDATES (occ.searchFloor after) (Nat.zero_le occ.pendingSkips)
  unfold nextFire
  simp only [he, Bool.false_eq_true, if_false, timezone, hz, bind, Except.bind, hsearch,
    Nat.sub_zero]
  cases choose occ.pendingSkips (occ.admitted z MAX_CANDIDATES (occ.searchFloor after)) with
  | error p => rfl
  | ok out => simp [Except.map, pure, Except.pure]

/-- What it finds is what is chosen. -/
theorem nextFire_finds (he : occ.exhausted = false) (hz : Calendar.zone occ.tz = some z)
    (after : Int) (fire : Option Int) :
    (∃ occ', occ.nextFire after = .ok (fire, occ')) ↔
      ∃ used, choose occ.pendingSkips
        (occ.admitted z MAX_CANDIDATES (occ.searchFloor after)) = .ok (fire, used) := by
  rw [nextFire_choose he hz]
  cases choose occ.pendingSkips (occ.admitted z MAX_CANDIDATES (occ.searchFloor after)) with
  | error p => simp [Except.map]
  | ok out =>
    obtain ⟨found, used⟩ := out
    simp [Except.map]

/-- The schedule that a search left is searched again: what was found is found
again if no skip was used up, or if nothing was found and half the skips are
left.  Where jumps go forward, only then. -/
theorem nextFire_again {occ' : Occurrence} {after : Int} {fire : Option Int}
    (h : occ.nextFire after = .ok (fire, occ')) :
    ((occ.pendingSkips = occ'.pendingSkips ∨
        fire = none ∧ occ.pendingSkips ≤ 2 * occ'.pendingSkips) →
      ∃ occ'', occ'.nextFire after = .ok (fire, occ'')) ∧
    (occ'.JumpsForward → (∃ occ'', occ'.nextFire after = .ok (fire, occ'')) →
      (occ.pendingSkips = occ'.pendingSkips ∨
        fire = none ∧ occ.pendingSkips ≤ 2 * occ'.pendingSkips)) := by
  cases he : occ.exhausted with
  | true =>
    rcases nextFire_eq h with ⟨-, rfl, rfl⟩ | ⟨hne, -⟩
    · exact ⟨fun _ => ⟨_, h⟩, fun _ _ => .inl rfl⟩
    · cases he.symm.trans hne
  | false =>
    obtain ⟨z, hz⟩ : ∃ z, Calendar.zone occ.tz = some z := by
      rcases nextFire_eq h with ⟨hex, -⟩ | ⟨-, z, -, hz, -⟩
      · cases he.symm.trans hex
      · exact ⟨z, hz⟩
    rw [nextFire_choose he hz] at h
    cases hc : choose occ.pendingSkips
        (occ.admitted z MAX_CANDIDATES (occ.searchFloor after)) with
    | error p => simp [hc, Except.map] at h
    | ok out =>
      obtain ⟨found, used⟩ := out
      obtain ⟨rfl, rfl⟩ : found = fire ∧
          { occ with pendingSkips := occ.pendingSkips - used } = occ' := by
        simpa [hc, Except.map] using h
      obtain ⟨hle, hagain, honly⟩ := choose_again hc
      -- Searching again is choosing again, with the skips that are left.
      let left : Occurrence := { occ with pendingSkips := occ.pendingSkips - used }
      have hleft : left.exhausted = false := he
      have hiff := nextFire_finds hleft hz after found
      rw [admitted_skips] at hiff
      have hused : (used = 0 ∨ found = none ∧ 2 * used ≤ occ.pendingSkips) ↔
          (occ.pendingSkips = occ.pendingSkips - used ∨
            found = none ∧ occ.pendingSkips ≤ 2 * (occ.pendingSkips - used)) := by
        by_cases hfound : found = none
        · simp only [hfound, true_and]
          omega
        · simp only [hfound, false_and, or_false]
          omega
      refine ⟨fun hs => hiff.mpr (hagain (hused.mpr hs)), fun hj ha => hused.mp ?_⟩
      have hjumps : ∀ c, Local.date (z.toLocal c) ∈ occ.exclusions →
          c ≤ occ.afterExcluded z c := hj z hz
      exact honly (admitted_sorted hjumps _ _).1 (hiff.mp ha)

end Occurrence

section

variable [Calendar]

/-! ### Edits about something else -/

/-- The patch changes neither the schedule nor the last fire. -/
def TimerPatch.Unrelated (patch : TimerPatch) (t : Timer) : Prop :=
  patch.occurrence.getD t.occurrence = t.occurrence ∧
    patch.lastFired.getD t.lastFired = t.lastFired

/-- Every such edit of the row goes through, at any time, and leaves its next
fire as it is. -/
def Store.KeepsNextFire (s : Store) (t : Timer) : Prop :=
  ∀ patch : TimerPatch, patch.Unrelated t → ∀ now, ∃ t',
    (updateTimerTx ⟨t.id, t.revision, patch⟩ now).run s = (.ok t', s.putTimer t') ∧
      t'.nextFireUtc = t.nextFireUtc

/-- The search goes from the last fire, in a known zone. -/
theorem computeNextFire_finds {occ : Occurrence} {lastFired : Option Int} {now : Int}
    {found : Option Int × Occurrence} :
    computeNextFire occ lastFired now = .ok found ↔
      (∃ z, Calendar.zone occ.tz = some z) ∧ occ.nextFire (lastFired.getD now) = .ok found := by
  unfold computeNextFire Occurrence.timezone
  cases Calendar.zone occ.tz with
  | none => simp [bind, Except.bind]
  | some z => simp [bind, Except.bind]

/-- What an edit of the row at its revision does. -/
theorem updateTimerTx_run {s : Store} {t next : Timer} {patch : TimerPatch}
    (hget : s.getTimer t.id = some t) (hpatch : applyPatch t patch = .ok next) (now : Int) :
    (updateTimerTx ⟨t.id, t.revision, patch⟩ now).run s =
      match computeNextFire next.occurrence next.lastFired now with
      | .error p => (.error (.panic p), s)
      | .ok (fire, occ) =>
        let row := { next.withNextFire fire occ with revision := next.revision + 1 }
        (.ok row, s.putTimer row) := by
  have hread : ∀ f : Store → StoreM Timer, (get >>= f).run s = (f s).run s := fun _ => rfl
  unfold updateTimerTx
  rw [hread, hget]
  dsimp only
  rw [if_neg (fun h => h rfl), hpatch]
  dsimp only
  cases computeNextFire next.occurrence next.lastFired now with
  | error p => rfl
  | ok found => rfl

omit [Calendar] in
theorem applyPatch_unrelated {t : Timer} {patch : TimerPatch} (hp : patch.Unrelated t)
    (hkind : t.occurrence.kind.validate = .ok ()) :
    ∃ next, applyPatch t patch = .ok next ∧ next.occurrence = t.occurrence ∧
      next.lastFired = t.lastFired := by
  obtain ⟨hocc, hfired⟩ := hp
  unfold applyPatch
  cases h : patch.occurrence with
  | none => exact ⟨_, rfl, rfl, hfired⟩
  | some occ =>
    have heq : occ = t.occurrence := by simpa [h] using hocc
    subst heq
    simp only [hkind]
    exact ⟨_, rfl, rfl, hfired⟩

/-- A row keeps its next fire when the search comes to it at any time. -/
theorem keepsNextFire_iff {s : Store} {t : Timer} (hget : s.getTimer t.id = some t)
    (hkind : t.occurrence.kind.validate = .ok ()) :
    s.KeepsNextFire t ↔
      ∀ now, ∃ occ', computeNextFire t.occurrence t.lastFired now = .ok (t.nextFireUtc, occ') := by
  constructor
  · intro h now
    obtain ⟨t', hrun, hnext⟩ := h {} ⟨rfl, rfl⟩ now
    have hpatch : applyPatch t {} = .ok t := rfl
    rw [updateTimerTx_run hget hpatch] at hrun
    cases hc : computeNextFire t.occurrence t.lastFired now with
    | error p => simp [hc] at hrun
    | ok found =>
      obtain ⟨fire, occ'⟩ := found
      simp only [hc, Prod.mk.injEq, Except.ok.injEq] at hrun
      have hfire : fire = t.nextFireUtc := by
        rw [← hnext, ← hrun.1]
        rfl
      exact ⟨occ', by rw [hfire]⟩
  · intro h patch hp now
    obtain ⟨next, hpatch, hocc, hfired⟩ := applyPatch_unrelated hp hkind
    obtain ⟨occ', hc⟩ := h now
    rw [updateTimerTx_run hget hpatch, hocc, hfired, hc]
    exact ⟨_, rfl, rfl⟩

/-! ### What the last write found -/

/-- The row is what a search of the schedule came to, at some time. -/
structure Searched (t : Timer) (occ : Occurrence) : Prop where
  kind : t.occurrence.kind.validate = .ok ()
  found : ∃ now, computeNextFire occ t.lastFired now = .ok (t.nextFireUtc, t.occurrence)

/-- Another search has nothing else to find.  A timer that has fired is
searched from its last fire again: the search that wrote the row used up no
skip, or it found nothing and left half of the skips.  A timer that has not is
searched from the time of the edit: its schedule has no fire after any time. -/
def Timer.Settled (t : Timer) (occ : Occurrence) : Prop :=
  match t.lastFired with
  | some _ => occ.pendingSkips = t.occurrence.pendingSkips ∨
      t.nextFireUtc = none ∧ occ.pendingSkips ≤ 2 * t.occurrence.pendingSkips
  | none => t.nextFireUtc = none ∧ ∀ now, ∃ occ', t.occurrence.nextFire now = .ok (none, occ')

theorem Searched.settled_iff {s : Store} {t : Timer} {occ : Occurrence} (h : Searched t occ)
    (hget : s.getTimer t.id = some t) :
    (t.Settled occ → s.KeepsNextFire t) ∧
      (t.occurrence.JumpsForward → s.KeepsNextFire t → t.Settled occ) := by
  rw [keepsNextFire_iff hget h.kind]
  obtain ⟨now₀, hfound⟩ := h.found
  obtain ⟨⟨z, hz⟩, hnext⟩ := computeNextFire_finds.mp hfound
  -- The zone stays known: the search changes nothing but the skips.
  have hzone : Calendar.zone t.occurrence.tz = some z := by
    obtain ⟨n, hn⟩ := Occurrence.nextFire_frame hnext
    rw [hn]
    exact hz
  have hfinds : ∀ now, (∃ occ', computeNextFire t.occurrence t.lastFired now =
      .ok (t.nextFireUtc, occ')) ↔
      ∃ occ', t.occurrence.nextFire (t.lastFired.getD now) = .ok (t.nextFireUtc, occ') := by
    intro now
    apply exists_congr
    intro occ'
    rw [computeNextFire_finds]
    exact ⟨And.right, fun hn => ⟨⟨z, hzone⟩, hn⟩⟩
  simp only [hfinds]
  unfold Timer.Settled
  cases hfired : t.lastFired with
  | some fired =>
    rw [hfired] at hnext
    obtain ⟨hagain, honly⟩ := Occurrence.nextFire_again hnext
    exact ⟨fun hs _ => hagain hs, fun hj hk => honly hj (hk fired)⟩
  | none =>
    constructor
    · rintro ⟨hnone, hdead⟩ now
      rw [hnone]
      exact hdead now
    · intro hj hk
      have hnone : t.nextFireUtc = none := by
        cases hn : t.nextFireUtc with
        | none => rfl
        | some fire =>
          -- An edit at the time of the fire goes past it.
          obtain ⟨occ', hat⟩ := hk fire
          rw [hn] at hat
          have hlt := Occurrence.nextFire_gt hj hat
          exact absurd hlt (Int.lt_irrefl fire)
      refine ⟨hnone, fun now => ?_⟩
      have hat := hk now
      rwa [hnone] at hat

/-! ### Who writes rows -/

/-- Rows may have gone from the table of timers, and the others are as they
were. -/
def FewerTimers (s s' : Store) : Prop := s'.timers.Sublist s.timers

instance : Std.Refl FewerTimers := ⟨fun _ => List.Sublist.refl _⟩

instance : IsTrans Store FewerTimers := ⟨fun _ _ _ h h' => List.Sublist.trans h' h⟩

omit [Calendar] in
/-- A statement that does not write the table of timers. -/
theorem modify_fewerTimers {f : Store → Store} (h : ∀ s, (f s).timers = s.timers) :
    Within FewerTimers (modify f : StoreM Unit) := by
  refine within_modify fun s => ?_
  unfold FewerTimers
  rw [h s]

omit [Calendar] in
theorem fewerTimers_statements : RunStatements FewerTimers where
  emit kind loggedAt subject note := by
    refine within_bind (within_modifyGet fun s => List.Sublist.refl _) fun eventId => ?_
    apply modify_fewerTimers
    intro s
    split <;> rfl
  uuid _ := List.Sublist.refl _
  runs _ _ := List.Sublist.refl _
  states _ _ := List.Sublist.refl _

omit [Calendar] in
theorem deleteTimer_fewerTimers (id : Uuid) : Within FewerTimers (deleteTimer id) :=
  within_modifyGet fun _ => List.filter_sublist

omit [Calendar] in
theorem deleteTimerLifecycle_fewerTimers (timer : Timer) (owner : Option String) (utc : Int) :
    Within FewerTimers (deleteTimerLifecycle timer owner utc) := by
  refine within_atomically (within_bind
    (fewerTimers_statements.cancelOpenRun_within timer owner utc) fun cancelled => ?_)
  refine within_bind (deleteTimer_fewerTimers timer.id) fun deleted => ?_
  refine within_bind (modify_fewerTimers fun _ => rfl) fun _ => ?_
  refine within_bind (modify_fewerTimers fun _ => rfl) fun _ => ?_
  exact within_bind (modify_fewerTimers fun _ => rfl) fun _ => within_pure _

omit [Calendar] in
theorem slotDelete_fewerTimers (timerId : Uuid) (appName : String) (utc : Int) :
    Within FewerTimers (slotDelete timerId appName utc) := by
  refine within_atomically (within_bind within_get fun s => ?_)
  have hrest : Within FewerTimers (do
      let existed ← deleteTimer timerId
      clearTimerOwner timerId
      modify fun s => { s with slotEventAcks := s.slotEventAcks.filter fun a => a.1 ≠ timerId }
      return existed : StoreM Bool) := by
    refine within_bind (deleteTimer_fewerTimers timerId) fun existed => ?_
    refine within_bind (modify_fewerTimers fun _ => rfl) fun _ => ?_
    exact within_bind (modify_fewerTimers fun _ => rfl) fun _ => within_pure _
  split
  · next timer _ =>
    exact within_bind (fewerTimers_statements.cancelOpenRun_within timer (some appName) utc)
      fun _ => hrest
  · exact hrest

/-- No row of the table of timers is new. -/
def NoNewTimer (s s' : Store) : Prop := ∀ t ∈ s'.timers, t ∈ s.timers

/-- The schedule that a commit searches to write a row of the table. -/
def Commit.searches (c : Commit) (s : Store) : Option Occurrence :=
  match c with
  | .createTimer new _ => some new.occurrence
  | .updateTimer update _ =>
    (s.getTimer update.id).map fun old => update.patch.occurrence.getD old.occurrence
  | _ => none

theorem Commit.fewerTimers {cfg : FireConfig} {c : Commit} {r : ReplyState}
    (hc : c.searches r.store = none) : FewerTimers r.store (c.after cfg r).store := by
  have hfew : ∀ {m : ReplyM Unit}, Within (Seen FewerTimers) m →
      FewerTimers r.store (m.run r).2.store := fun h => h.run r
  cases c with
  | deleteTimerLifecycle timer owner utc =>
    exact hfew (discard_store_within (deleteTimerLifecycle_fewerTimers timer owner utc))
  | slotDelete timerId appName utc =>
    exact hfew (discard_store_within (slotDelete_fewerTimers timerId appName utc))
  | deleteTimer id => exact hfew (discard_store_within (deleteTimer_fewerTimers id))
  | setTimerOwner timerId appName => exact List.Sublist.refl _
  | clearTimerOwner timerId => exact List.Sublist.refl _
  | ackRunEvents timerId throughSequence => exact List.Sublist.refl _
  | markEventPublished eventId => exact List.Sublist.refl _
  | fire f =>
    have hproj : ∀ proj, Within FewerTimers (insertTransportProjectionConn proj) :=
      fun proj => modify_fewerTimers fun _ => rfl
    exact hfew (discard_within (fewerTimers_statements.fireTx_within hproj cfg f))
  | createTimer new now => cases hc
  | updateTimer update now =>
    -- There is no such row to write.
    have hget : r.store.getTimer update.id = none := Option.map_eq_none_iff.mp hc
    have hrun : (Commit.updateTimer update now).after cfg r = r := by
      refine after_of_wp (P := fun r' => r' = r) ?_
      simp only [prog, wp_bind, wp_pure, wp_onStore]
      unfold updateTimerTx
      rw [wp_bind, wp_get, hget]
      rfl
    rw [hrun]
    exact List.Sublist.refl _
  | _ => exact hfew (fewerTimers_statements.commit rfl rfl cfg)

theorem Commit.noNewTimer {cfg : FireConfig} {c : Commit} {r : ReplyState}
    (hc : c.searches r.store = none) : NoNewTimer r.store (c.after cfg r).store :=
  (Commit.fewerTimers hc).subset

/-- The search keeps the rule of the schedule. -/
theorem kind_computeNextFire {occ occ' : Occurrence} {lastFired fire : Option Int} {now : Int}
    (h : computeNextFire occ lastFired now = .ok (fire, occ')) : occ'.kind = occ.kind := by
  obtain ⟨n, rfl⟩ := Occurrence.nextFire_frame (computeNextFire_finds.mp h).2
  rfl

theorem createTimerTx_searched (new : NewTimer) (now : Int) (s : Store) :
    ∀ t ∈ ((createTimerTx new now).run s).2.timers, t ∈ s.timers ∨ Searched t new.occurrence := by
  have hdraw : Within (fun s s' : Store => s'.timers = s.timers) (orNewUuid new.id) := by
    cases new.id with
    | some id => exact fun s => rfl
    | none => exact within_modifyGet fun s => rfl
  have hwp : wp (createTimerTx new now)
      (fun t s' => s'.timers = s.timers ++ [t] ∧ Searched t new.occurrence)
      (fun _ s' => s'.timers = s.timers) s := by
    unfold createTimerTx
    cases hkind : new.occurrence.kind.validate with
    | error m => rfl
    | ok _ =>
      rw [wp_bind]
      refine wp_mono (hdraw s) (fun id s₁ hs₁ => ?_) fun _ _ hs₁ => hs₁
      rw [wp_bind, wp_orPanic]
      refine ⟨fun found hfound => ?_, fun _ _ => hs₁⟩
      obtain ⟨fire, occ⟩ := found
      rw [wp_bind, wp_get]
      split
      · exact hs₁
      · refine ⟨congrArg (· ++ [_]) hs₁, ?_, now, hfound⟩
        show occ.kind.validate = .ok ()
        rw [kind_computeNextFire hfound, hkind]
  rcases hrun : (createTimerTx new now).run s with ⟨e | t', s'⟩
  · intro t ht
    rw [wp_error hwp hrun] at ht
    exact .inl ht
  · obtain ⟨htimers, hsearched⟩ := wp_ok hwp hrun
    intro t ht
    rw [htimers] at ht
    rcases List.mem_append.mp ht with ht | ht
    · exact .inl ht
    · obtain rfl := List.mem_singleton.mp ht
      exact .inr hsearched

omit [Calendar] in
theorem id_applyPatch {t t' : Timer} {patch : TimerPatch} (h : applyPatch t patch = .ok t') :
    t'.id = t.id := by
  unfold applyPatch at h
  split at h
  · obtain rfl := Except.ok.inj h
    rfl
  · split at h
    · cases h
    · obtain rfl := Except.ok.inj h
      rfl

omit [Calendar] in
/-- A patched row has a rule that was checked. -/
theorem kind_applyPatch {t next : Timer} {patch : TimerPatch}
    (h : applyPatch t patch = .ok next) (hkind : t.occurrence.kind.validate = .ok ()) :
    next.occurrence = patch.occurrence.getD t.occurrence ∧
      next.occurrence.kind.validate = .ok () := by
  unfold applyPatch at h
  cases hocc : patch.occurrence with
  | none =>
    simp only [hocc, Option.getD_none] at h
    cases h
    exact ⟨rfl, hkind⟩
  | some occ =>
    simp only [hocc, Option.getD_some] at h
    cases hv : occ.kind.validate with
    | error m => simp [hv] at h
    | ok _ =>
      simp only [hv] at h
      cases h
      exact ⟨rfl, hv⟩

theorem updateTimerTx_searched (update : TimerUpdate) (now : Int) {s : Store} {old : Timer}
    (hget : s.getTimer update.id = some old)
    (hkind : old.occurrence.kind.validate = .ok ()) :
    ∀ t ∈ ((updateTimerTx update now).run s).2.timers,
      t ∈ s.timers ∨ Searched t (update.patch.occurrence.getD old.occurrence) := by
  have hwp : wp (updateTimerTx update now)
      (fun t s' => s' = s.putTimer t ∧
        Searched t (update.patch.occurrence.getD old.occurrence))
      (fun _ s' => s' = s) s := by
    unfold updateTimerTx
    rw [wp_bind, wp_get, hget]
    dsimp only
    split
    · rfl
    cases hpatch : applyPatch old update.patch with
    | error e => rfl
    | ok next =>
      obtain ⟨hocc, hvalid⟩ := kind_applyPatch hpatch hkind
      dsimp only
      rw [wp_bind, wp_orPanic]
      refine ⟨fun found hfound => ?_, fun _ _ => rfl⟩
      obtain ⟨fire, occ⟩ := found
      refine ⟨rfl, ?_, now, ?_⟩
      · show occ.kind.validate = .ok ()
        rw [kind_computeNextFire hfound, hvalid]
      · rw [← hocc]
        exact hfound
  rcases hrun : (updateTimerTx update now).run s with ⟨e | t', s'⟩
  · intro t ht
    rw [wp_error hwp hrun] at ht
    exact .inl ht
  · obtain ⟨rfl, hsearched⟩ := wp_ok hwp hrun
    intro t ht
    obtain ⟨u, hu, rfl⟩ := List.mem_map.mp ht
    split
    · exact .inr hsearched
    · exact .inl hu

omit [Calendar] in
theorem store_run_discard {α : Type} (m : StoreM α) (r : ReplyState) :
    ((do let _ ← onStore m : ReplyM Unit).run r).2.store = (m.run r.store).2 := by
  have hm : wp (do let _ ← onStore m : ReplyM Unit)
      (fun _ r' => r'.store = (m.run r.store).2) (fun _ r' => r'.store = (m.run r.store).2) r := by
    rw [wp_bind, wp_onStore, wp_iff]
    refine ⟨fun a s' hrun => ?_, fun e s' hrun => ?_⟩
    · show s' = (m.run r.store).2
      rw [hrun]
    · show s' = (m.run r.store).2
      rw [hrun]
  rcases hrun : (do let _ ← onStore m : ReplyM Unit).run r with ⟨_ | _, r'⟩
  · exact wp_error hm hrun
  · exact wp_ok hm hrun

/-- **The step**: a row that a commit writes is what it searched for. -/
theorem Commit.writes_searched {cfg : FireConfig} {c : Commit} {r : ReplyState}
    (hvalid : ∀ t ∈ r.store.timers, t.occurrence.kind.validate = .ok ()) :
    ∀ t ∈ (c.after cfg r).store.timers, t ∈ r.store.timers ∨
      ∃ occ, c.searches r.store = some occ ∧ Searched t occ := by
  intro t ht
  cases hs : c.searches r.store with
  | none => exact .inl (Commit.noNewTimer hs t ht)
  | some occ =>
    refine Or.imp_right (fun hsearched => ⟨occ, rfl, hsearched⟩) ?_
    cases c with
    | createTimer new now =>
      obtain rfl := Option.some.inj hs
      apply createTimerTx_searched new now r.store
      rw [← store_run_discard]
      exact ht
    | updateTimer update now =>
      obtain ⟨old, hget, rfl⟩ := Option.map_eq_some_iff.mp hs
      have hold := hvalid old (List.mem_of_find?_eq_some hget)
      apply updateTimerTx_searched update now hget hold
      rw [← store_run_discard]
      exact ht
    | _ => cases hs

/-! ### Every edit, of every row reached -/

/-- The step wrote the row, after a search of the schedule. -/
def Wrote (e : System.Event ReplyState Commit) (t : Timer) (occ : Occurrence) : Prop :=
  t ∉ e.pre.store.timers ∧ t ∈ e.post.store.timers ∧ e.label.searches e.pre.store = some occ

/-- **The run**: every row there is was written, and its rule was checked. -/
theorem wrote_of_run {cfg : FireConfig} {tr : List (System.Event ReplyState Commit)}
    {r : ReplyState} (h : (ledger cfg).Run {} tr r) :
    ∀ t ∈ r.store.timers, t.occurrence.kind.validate = .ok () ∧ ∃ e ∈ tr, ∃ occ, Wrote e t occ := by
  refine h.trace_induction (J := fun tr r => ∀ t ∈ r.store.timers,
    t.occurrence.kind.validate = .ok () ∧ ∃ e ∈ tr, ∃ occ, Wrote e t occ) ?_ ?_
  · intro t ht
    cases ht
  · rintro tr r c r' - rfl ih t ht
    by_cases hold : t ∈ r.store.timers
    · obtain ⟨hkind, e, he, hwrote⟩ := ih t hold
      exact ⟨hkind, e, List.mem_append_left _ he, hwrote⟩
    · rcases Commit.writes_searched (fun u hu => (ih u hu).1) t ht with hin | ⟨occ, hs, hsearched⟩
      · exact absurd hin hold
      · exact ⟨hsearched.kind, _, List.mem_append_right _ (List.mem_singleton_self _), occ,
          hold, ht, hs⟩

/-- The row that a step of a run wrote is what it searched for. -/
theorem Wrote.searched {cfg : FireConfig} {tr : List (System.Event ReplyState Commit)}
    {r : ReplyState} (h : (ledger cfg).Run {} tr r) {e : System.Event ReplyState Commit}
    (he : e ∈ tr) {t : Timer} {occ : Occurrence} (hw : Wrote e t occ) : Searched t occ := by
  obtain ⟨hstep, tr', hpre, -⟩ := h.mem he
  obtain ⟨hnew, hpost, hs⟩ := hw
  rw [hstep] at hpost
  have hvalid := fun u hu => (wrote_of_run hpre u hu).1
  rcases Commit.writes_searched hvalid t hpost with hin | ⟨occ', hs', hsearched⟩
  · exact absurd hin hnew
  · rw [hs] at hs'
    cases hs'
    exact hsearched

/-- **An edit that is about something else keeps the next fire exactly when the
row is settled**: every row reached was written by some step, and a row that a
step wrote keeps its next fire under every such edit if what the step searched
left nothing else to find, and, where jumps over excluded days go forward, only
then. -/
theorem edit_keeps_nextFire_iff {cfg : FireConfig}
    {tr : List (System.Event ReplyState Commit)} {r : ReplyState} {t : Timer}
    (h : (ledger cfg).Run {} tr r) (ht : r.store.getTimer t.id = some t) :
    (∃ e ∈ tr, ∃ occ, Wrote e t occ) ∧
      ∀ e ∈ tr, ∀ occ, Wrote e t occ →
        (t.Settled occ → r.store.KeepsNextFire t) ∧
          (t.occurrence.JumpsForward → r.store.KeepsNextFire t → t.Settled occ) :=
  ⟨(wrote_of_run h t (List.mem_of_find?_eq_some ht)).2,
    fun _ he _ hw => (hw.searched h he).settled_iff ht⟩

end

/-! ### What an edit moves -/

section Sample

attribute [local instance] Calendar.utcOnly

theorem edit_keeps_nextFire_spentLamp :
    (ReplyState.made lampSpent).store.KeepsNextFire Timer.spentLamp := by
  have hget : (ReplyState.made lampSpent).store.getTimer Timer.spentLamp.id =
      some Timer.spentLamp := by decide +kernel
  have hwrote : Wrote ⟨ReplyState.made lampFired, .updateTimer
      { id := SlotRequest.sampleId, expectedRevision := 1,
        patch := { lastFired := some (some (60 * NS)) } } (60 * NS),
      ReplyState.made (lampSpent.take 4)⟩ Timer.spentLamp NewTimer.onceLamp.occurrence := by
    refine ⟨?_, ?_, ?_⟩ <;> decide +kernel
  have hsettled : Timer.spentLamp.Settled NewTimer.onceLamp.occurrence := .inl rfl
  obtain ⟨-, hall⟩ := edit_keeps_nextFire_iff (run_made lampSpent) hget
  exact (hall _ (List.mem_of_getElem? (i := 3) rfl) _ hwrote).1 hsettled

/-- The minute timer: it is made, it fires, and it is told to skip its next
fire. -/
def tickSkips : List Commit :=
  [.createTimer (.sample .skip) 0,
    .updateTimer { id := ⟨0⟩, expectedRevision := 1,
                   patch := { lastFired := some (some (60 * NS)) } } (60 * NS),
    .updateTimer { id := ⟨0⟩, expectedRevision := 2,
                   patch := { occurrence := some (Timer.sample .skip).occurrence.skipNext } }
      (61 * NS)]

/-- Its row: the fire at two minutes is skipped. -/
def Timer.skippedTick : Timer :=
  { Timer.sample .skip with
    lastFired := some (60 * NS), nextFireUtc := some (180 * NS), revision := 3 }

/-- The next fire of the row that an edit returns. -/
def Store.editedTo (s : Store) (t : Timer) (patch : TimerPatch) (now : Int) :
    Option (Option Int) :=
  ((updateTimerTx ⟨t.id, t.revision, patch⟩ now).run s).1.toOption.map (·.nextFireUtc)

theorem Store.not_keepsNextFire {s : Store} {t : Timer} {patch : TimerPatch} {now : Int}
    {fire : Option Int} (hp : patch.Unrelated t) (he : s.editedTo t patch now = some fire)
    (hne : fire ≠ t.nextFireUtc) : ¬s.KeepsNextFire t := by
  intro h
  obtain ⟨t', hrun, hnext⟩ := h patch hp now
  unfold editedTo at he
  rw [hrun] at he
  exact hne ((Option.some.inj he).symm.trans hnext)

/-- **An edit moves the next fire**: of a timer whose first fire, a second ago,
was missed, to the fire after it; and of one whose fire at two minutes is to be
skipped, back to that. -/
theorem edit_moves_nextFire :
    let missed := (ReplyState.made (tickSkips.take 1)).store
    let skipping := (ReplyState.made tickSkips).store
    (missed.getTimer ⟨0⟩ = some (Timer.sample .skip) ∧
      (Timer.sample .skip).nextFireUtc = some (60 * NS) ∧
      missed.editedTo (Timer.sample .skip) {} (61 * NS) = some (some (120 * NS)) ∧
      ¬missed.KeepsNextFire (Timer.sample .skip)) ∧
    (skipping.getTimer ⟨0⟩ = some Timer.skippedTick ∧
      Timer.skippedTick.nextFireUtc = some (180 * NS) ∧
      skipping.editedTo Timer.skippedTick { name := some "tock" } (61 * NS) =
        some (some (120 * NS)) ∧
      ¬skipping.KeepsNextFire Timer.skippedTick) := by
  intro missed skipping
  have hmissed : missed.editedTo (Timer.sample .skip) {} (61 * NS) = some (some (120 * NS)) := by
    decide +kernel
  have hskipping : skipping.editedTo Timer.skippedTick { name := some "tock" } (61 * NS) =
      some (some (120 * NS)) := by decide +kernel
  refine ⟨⟨by decide +kernel, rfl, hmissed, ?_⟩, by decide +kernel, rfl, hskipping, ?_⟩
  · exact Store.not_keepsNextFire ⟨rfl, rfl⟩ hmissed (by decide)
  · exact Store.not_keepsNextFire ⟨rfl, rfl⟩ hskipping (by decide)

end Sample

end Bellman

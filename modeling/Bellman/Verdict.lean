/-
Bellman/Verdict.lean

The app's verdict on a run is final.

Five writers move a lifecycle row: a reply, the slot feed's
acknowledgement, the two deadlines, the supersession by a later fire, and
the deletion of the timer.  Each reads the row first and has a guard of its
own.  `KeepsVerdicts` is the relation "rows are unique, and a row that held
an app-authored verdict still holds one"; it is a preorder, and each writer
is in it because its guard is.

Main result: `verdict_stable`, over every run of the system.
-/
import Bellman.Writers

namespace Bellman

open ProgramLogic Prog ReplyM

/-! ### Keeping verdicts -/

/-- Each run has one lifecycle row. -/
def Store.RowsNodup (s : Store) : Prop := (s.runStates.map (·.runId)).Nodup

/-- A run whose row holds an app-authored verdict still has such a row. -/
def Store.VerdictsLast (s s' : Store) : Prop :=
  ∀ run row, s.getRunState run = some row → row.isAppAuthoredTerminal = true →
    ∃ row', s'.getRunState run = some row' ∧ row'.isAppAuthoredTerminal = true

/-- Rows stay unique and verdicts last. -/
def KeepsVerdicts (s s' : Store) : Prop := s.RowsNodup → s'.RowsNodup ∧ s.VerdictsLast s'

instance : Std.Refl KeepsVerdicts := ⟨fun _ h => ⟨h, fun _ row hr ha => ⟨row, hr, ha⟩⟩⟩

instance : IsTrans Store KeepsVerdicts where
  trans s s' s'' h h' hs := by
    obtain ⟨hs', hv⟩ := h hs
    obtain ⟨hs'', hv'⟩ := h' hs'
    refine ⟨hs'', fun run row hr ha => ?_⟩
    obtain ⟨row', hr', ha'⟩ := hv run row hr ha
    exact hv' run row' hr' ha'

theorem getRunState_congr {s s' : Store} (h : s'.runStates = s.runStates) (run : Uuid) :
    s'.getRunState run = s.getRunState run := by
  unfold Store.getRunState
  rw [h]

theorem KeepsVerdicts.of_same {s s' : Store} (h : Same Store.runStates s s') :
    KeepsVerdicts s s' := by
  intro hs
  have h : s'.runStates = s.runStates := h
  refine ⟨by rwa [Store.RowsNodup, h], fun run row hr ha => ⟨row, ?_, ha⟩⟩
  rwa [getRunState_congr h]

theorem getRunState_mem {s : Store} {run : Uuid} {row : RunStateRow}
    (h : s.getRunState run = some row) : row ∈ s.runStates ∧ row.runId = run :=
  ⟨List.mem_of_find?_eq_some h, by simpa using List.find?_some h⟩

theorem getRunState_map {s : Store} {f : RunStateRow → RunStateRow}
    (hf : ∀ row, (f row).runId = row.runId) (run : Uuid) :
    ({ s with runStates := s.runStates.map f }).getRunState run = (s.getRunState run).map f := by
  have hid : (fun row : RunStateRow => (f row).runId == run) = fun row => row.runId == run := by
    funext row
    rw [hf row]
  unfold Store.getRunState
  rw [List.find?_map]
  exact congrArg (fun p => (s.runStates.find? p).map f) hid

/-- Rewriting rows keeps verdicts when it does so row by row. -/
theorem KeepsVerdicts.of_map {s : Store} {f : RunStateRow → RunStateRow}
    (hf : ∀ row, (f row).runId = row.runId)
    (hv : ∀ run row, s.getRunState run = some row → row.isAppAuthoredTerminal = true →
      (f row).isAppAuthoredTerminal = true) :
    KeepsVerdicts s { s with runStates := s.runStates.map f } := by
  intro hs
  refine ⟨?_, fun run row hr ha => ⟨f row, ?_, hv run row hr ha⟩⟩
  · show ((s.runStates.map f).map (·.runId)).Nodup
    rw [List.map_map]
    have : ((·.runId) ∘ f : RunStateRow → Uuid) = (·.runId) := funext hf
    rwa [this]
  · rw [getRunState_map hf, hr, Option.map_some]

/-- The write of a row, on the store its guard was read from. -/
theorem updateRunState_keeps {s : Store} {row : RunStateRow}
    (h : ∀ old, s.getRunState row.runId = some old → old.isAppAuthoredTerminal = true →
      row.isAppAuthoredTerminal = true) :
    wp (updateRunStateConn row) (fun _ => KeepsVerdicts s) (fun _ => KeepsVerdicts s) s := by
  refine KeepsVerdicts.of_map
    (f := fun old => if old.runId = row.runId then Store.mergeRunState old row else old) ?_ ?_
  · intro old
    split <;> rfl
  · intro run old hold ha
    split
    · next he =>
      -- The merged row has the state and failure kind of the new one.
      have hid := (getRunState_mem hold).2
      rw [← hid, he] at hold
      exact h old hold ha
    · exact ha

/-- A row that is not the app's last word may be replaced by any other. -/
theorem updateRunState_keeps_of_open {s : Store} {row old : RunStateRow}
    (hold : s.getRunState row.runId = some old) (ho : old.isAppAuthoredTerminal = false) :
    wp (updateRunStateConn row) (fun _ => KeepsVerdicts s) (fun _ => KeepsVerdicts s) s := by
  apply updateRunState_keeps
  intro old' hold' ha
  rw [hold] at hold'
  obtain rfl := Option.some.inj hold'
  rw [ho] at ha
  cases ha

/-- `KeepsVerdicts`, seen from the reply engine. -/
def ReplyKeeps (r r' : ReplyState) : Prop := KeepsVerdicts r.store r'.store

instance : Std.Refl ReplyKeeps := ⟨fun r => Std.Refl.refl (r := KeepsVerdicts) r.store⟩

instance : IsTrans ReplyState ReplyKeeps :=
  ⟨fun _ _ _ h h' => IsTrans.trans (r := KeepsVerdicts) _ _ _ h h'⟩

theorem ReplyKeeps.of_same {r r' : ReplyState} (h : SameStates r r') : ReplyKeeps r r' :=
  KeepsVerdicts.of_same h

/-! ### A reply -/

/-- The two rows say the same about the verdict on one run. -/
def SameVerdict (row row' : RunStateRow) : Prop :=
  row'.runId = row.runId ∧ row'.state = row.state ∧ row'.failureKind = row.failureKind

theorem SameVerdict.trans {row row' row'' : RunStateRow} (h : SameVerdict row row')
    (h' : SameVerdict row' row'') : SameVerdict row row'' :=
  ⟨h'.1.trans h.1, h'.2.1.trans h.2.1, h'.2.2.trans h.2.2⟩

theorem rearm_spec (cfg : ReplyConfig) (row : RunStateRow) (newState : RunState)
    (nowWall monoNow : Int) (r : ReplyState) :
    wp (rearm cfg row newState nowWall monoNow)
      (fun row' r' => SameStates r r' ∧ SameVerdict row row') (fun _ r' => SameStates r r') r := by
  unfold rearm
  rw [wp_bind]
  refine (onBook_states _).wp (fun _ r₁ h₁ => ?_) fun _ _ h => h
  split
  · rw [wp_bind]
    refine (onBook_states _).wp (fun _ r₂ h₂ => ?_) fun _ _ h => h.trans h₁
    exact ⟨h₂.trans h₁, rfl, rfl, rfl⟩
  · split
    · rw [wp_bind]
      refine (armWatchdog_states cfg _ _ nowWall monoNow).wp (fun wall r₂ h₂ => ?_)
        fun _ _ h => h.trans h₁
      exact ⟨h₂.trans h₁, rfl, rfl, rfl⟩
    · rw [wp_bind]
      refine (onBook_states _).wp (fun _ r₂ h₂ => ?_) fun _ _ h => h.trans h₁
      exact ⟨h₂.trans h₁, rfl, rfl, rfl⟩

theorem logAcknowledged_spec (timer : Timer) (claim : RunClaim) (row : RunStateRow)
    (nowWall : Int) (s : Store) :
    wp (logAcknowledged timer claim row nowWall)
      (fun row' s' => Same Store.runStates s s' ∧ SameVerdict row row')
      (fun _ s' => Same Store.runStates s s') s := by
  unfold logAcknowledged
  split
  · rw [wp_bind]
    exact (emit_states _ _ _ _).wp (fun _ _ h => ⟨h, rfl, rfl, rfl⟩) fun _ _ h => h
  · exact ⟨rfl, rfl, rfl, rfl⟩

theorem logRunning_spec (timer : Timer) (claim : RunClaim) (row : RunStateRow)
    (doc : ReplyDocument) (newState : RunState) (nowWall : Int) (s : Store) :
    wp (logRunning timer claim row doc newState nowWall)
      (fun row' s' => Same Store.runStates s s' ∧ SameVerdict row row')
      (fun _ s' => Same Store.runStates s s') s := by
  unfold logRunning
  split
  · rw [wp_bind]
    exact (emit_states _ _ _ _).wp (fun _ _ h => ⟨h, rfl, rfl, rfl⟩) fun _ _ h => h
  · exact ⟨rfl, rfl, rfl, rfl⟩

/-- A closing report leaves an app-authored verdict. -/
theorem isAppAuthoredTerminal_of_verdict {row row' : RunStateRow} {doc : ReplyDocument}
    {newState : RunState} {nowWall : Int} (hnew : newState = .completed ∨ newState = .failed)
    (h : SameVerdict
      { applyVerdict row doc newState nowWall with pickupDeadline := none, state := newState }
      row') : row'.isAppAuthoredTerminal = true := by
  obtain ⟨_, hstate, hkind⟩ := h
  unfold RunStateRow.isAppAuthoredTerminal
  rw [hstate, hkind]
  rcases hnew with rfl | rfl <;> rfl

theorem runId_applyVerdict (row : RunStateRow) (doc : ReplyDocument) (newState : RunState)
    (nowWall : Int) : (applyVerdict row doc newState nowWall).runId = row.runId := by
  unfold applyVerdict
  split <;> rfl

theorem apply_keeps (cfg : ReplyConfig) (timer : Timer) (claim : RunClaim) (row : RunStateRow)
    (doc : ReplyDocument) (newState : RunState) (digest : String) (nowWall monoNow utc : Int)
    (r : ReplyState)
    (hnew : ∀ old, r.store.getRunState row.runId = some old → old.isAppAuthoredTerminal = true →
      newState = .completed ∨ newState = .failed) :
    wp (apply cfg timer claim row doc newState digest nowWall monoNow utc)
      (fun _ => ReplyKeeps r) (fun _ => ReplyKeeps r) r := by
  unfold apply
  simp only [wp_bind, wp_onStore]
  refine wp_mono (rearm_spec cfg _ newState nowWall monoNow r) (fun row₁ r₁ h₁ => ?_)
    fun _ _ h => .of_same h
  refine wp_mono (logAcknowledged_spec timer claim row₁ nowWall r₁.store) (fun row₂ s₂ h₂ => ?_)
    fun _ _ h => .of_same (h.trans h₁.1)
  refine wp_mono (logRunning_spec timer claim row₂ doc newState nowWall s₂) (fun row₃ s₃ h₃ => ?_)
    fun _ _ h => .of_same (h.trans (h₂.1.trans h₁.1))
  have hverdict := (h₁.2.trans h₂.2).trans h₃.2
  have hsame₃ : SameStates r { r₁ with store := s₃ } := h₃.1.trans (h₂.1.trans h₁.1)
  refine (logVerdict_states timer claim row₃ doc row.state newState nowWall monoNow utc).wp
    (fun _ r₄ h₄ => ?_) fun _ _ h => .of_same (h.trans hsame₃)
  have hsame : SameStates r r₄ := h₄.trans hsame₃
  have hid : row₃.runId = row.runId := by
    rw [hverdict.1]
    exact runId_applyVerdict _ _ _ _
  refine wp_imp (updateRunState_keeps fun old hold ha => ?_) fun s' h =>
    IsTrans.trans (r := KeepsVerdicts) _ _ _ (KeepsVerdicts.of_same hsame) h
  have hold : r.store.getRunState row.runId = some old := by
    rw [← hid, ← getRunState_congr hsame]
    exact hold
  exact isAppAuthoredTerminal_of_verdict (hnew old hold ha) ⟨hverdict.1, hverdict.2⟩

theorem runId_currentRow (s : Store) (timer : Timer) (claim : RunClaim) (appName : String)
    (nowWall : Int) : (currentRow s timer claim appName nowWall).runId = claim.runId := by
  unfold currentRow
  cases h : s.getRunState claim.runId with
  | none => rfl
  | some row => exact (getRunState_mem h).2

theorem isAppWritable_of_validate {doc : ReplyDocument} {runId : Uuid} {newState : RunState}
    {appName : String} (h : doc.validate = .ok (runId, newState, appName)) :
    newState.isAppWritable = true := by
  unfold ReplyDocument.validate at h
  repeat' split at h
  all_goals simp_all

/-- The state that is accepted is the one the document spells. -/
theorem state_of_validate {doc : ReplyDocument} {runId : Uuid} {newState : RunState}
    {appName : String} (h : doc.validate = .ok (runId, newState, appName)) :
    doc.state = some newState.asStr := by
  have hwire : RunState.fromWire (doc.state.getD "") = some newState := by
    unfold ReplyDocument.validate at h
    repeat' split at h
    all_goals simp_all
  have heq := RunState.fromWire_eq_some hwire
  cases hs : doc.state with
  | none =>
    rw [hs] at heq
    have hne : newState.asStr ≠ "" := by
      cases newState <;> decide
    exact absurd heq.symm hne
  | some w =>
    rw [hs] at heq
    exact congrArg some heq

/-- The regression guard: a report accepted over an app-authored verdict is
itself a closing one. -/
theorem closing_of_accepted {row : RunStateRow} {doc : ReplyDocument} {appName : String}
    {newState : RunState} (hw : newState.isAppWritable = true)
    (h : row.refuses doc appName newState = none) (ha : row.isAppAuthoredTerminal = true) :
    newState = .completed ∨ newState = .failed := by
  unfold RunStateRow.refuses at h
  split at h
  · cases h
  · split at h
    · cases h
    · next hreg =>
      rw [not_and, not_or] at hreg
      obtain ⟨hack, hrun⟩ := hreg ha
      cases newState <;> simp_all [RunState.isAppWritable]

theorem ingestStale_keeps (timer : Timer) (claim : RunClaim) (digest : String) (utc : Int) :
    Within KeepsVerdicts (ingestStale timer claim digest utc) := by
  intro s
  unfold ingestStale
  rw [wp_bind, wp_get]
  dsimp only
  split
  · exact Std.Refl.refl (r := KeepsVerdicts) s
  · rw [wp_bind]
    refine (emit_states _ _ _ _).wp (fun _ s₁ h₁ => ?_) fun _ _ h => .of_same h
    split
    · next row hrow =>
      rw [wp_bind]
      refine wp_mono (updateRunState_keeps fun old hold ha => ?_)
        (fun _ s₂ h₂ => IsTrans.trans (r := KeepsVerdicts) _ _ _ (.of_same h₁) h₂)
        (fun _ s₂ h₂ => IsTrans.trans (r := KeepsVerdicts) _ _ _ (.of_same h₁) h₂)
      -- The digest is all that changes.
      rw [getRunState_congr h₁, show RunStateRow.runId _ = claim.runId from
        (getRunState_mem hrow).2, hrow] at hold
      obtain rfl := Option.some.inj hold
      exact ha
    · exact .of_same h₁

theorem ingestInner_keeps (cfg : ReplyConfig) (timer : Timer) (doc : ReplyDocument)
    (digest : String) (nowWall monoNow utc : Int) (currentOverride : Option Uuid) :
    Within ReplyKeeps
      (ingestInner cfg timer doc digest nowWall monoNow utc currentOverride) := by
  intro r
  have hrefl : ReplyKeeps r r := Std.Refl.refl r
  unfold ingestInner
  split
  · exact hrefl
  · next runId newState appName hvalid =>
    rw [wp_bind, wp_read]
    split
    · exact hrefl
    · next claim _ =>
      split
      · exact hrefl
      · rw [wp_bind, wp_read]
        split
        · rw [wp_onStore]
          exact ingestStale_keeps timer claim digest utc r.store
        · rw [wp_bind, wp_read]
          split
          · exact hrefl
          · next hrefuses =>
            split
            · exact hrefl
            · rw [wp_bind]
              refine apply_keeps cfg timer claim _ doc newState digest nowWall monoNow utc r
                fun old hold ha => ?_
              have hrow : currentRow r.store timer claim appName nowWall = old := by
                rw [runId_currentRow] at hold
                unfold currentRow
                rw [hold, Option.getD_some]
              rw [hrow] at hrefuses
              exact closing_of_accepted (isAppWritable_of_validate hvalid) hrefuses ha

theorem inTx_keeps {α : Type} {m : ReplyM α} (h : Within ReplyKeeps m) :
    Within ReplyKeeps (inTx m) :=
  within_transact h fun r _ _ => Std.Refl.refl (r := KeepsVerdicts) r.store

/-! ### The acknowledgement and the deadlines -/

theorem isAppAuthoredTerminal_of_isFired {row : RunStateRow} (h : row.state.isFired = true) :
    row.isAppAuthoredTerminal = false := by
  unfold RunStateRow.isAppAuthoredTerminal
  cases hs : row.state <;> simp_all [RunState.isFired]

theorem markAcknowledged_keeps (timer : Timer) (claim : RunClaim) {row : RunStateRow}
    (nowWall : Int) {r : ReplyState} (hrow : r.store.getRunState row.runId = some row)
    (ho : row.isAppAuthoredTerminal = false) :
    wp (markAcknowledged timer claim row nowWall) (fun _ => ReplyKeeps r)
      (fun _ => ReplyKeeps r) r := by
  unfold markAcknowledged
  rw [wp_bind]
  refine (onBook_states _).wp (fun _ r₁ h₁ => ?_) fun _ _ h => .of_same h
  have hrow₁ : r₁.store.getRunState row.runId = some row := by rwa [getRunState_congr h₁]
  split
  · rw [wp_bind, wp_onStore]
    refine (emit_states _ _ _ _).wp (fun _ s₂ h₂ => ?_) fun _ _ h => .of_same (h.trans h₁)
    have hsame : SameStates r { r₁ with store := s₂ } := h₂.trans h₁
    rw [wp_onStore]
    refine wp_imp (updateRunState_keeps_of_open ?_ ho) fun s' h =>
      IsTrans.trans (r := KeepsVerdicts) _ _ _ (KeepsVerdicts.of_same hsame) h
    rw [getRunState_congr h₂]
    exact hrow₁
  · rw [wp_onStore]
    exact wp_imp (updateRunState_keeps_of_open hrow₁ ho) fun s' h =>
      IsTrans.trans (r := KeepsVerdicts) _ _ _ (KeepsVerdicts.of_same h₁) h

theorem currentRunState_mem {s : Store} {timerId : Uuid} {row : RunStateRow}
    (h : s.currentRunState timerId = some row) : row ∈ s.runStates := by
  unfold Store.currentRunState at h
  obtain ⟨⟨row', claim⟩, hhead, rfl⟩ := Option.map_eq_some_iff.mp h
  have hmem := List.mem_of_head? hhead
  rw [List.mem_insertionSort] at hmem
  obtain ⟨rs, hrs, hpair⟩ := List.mem_flatMap.mp hmem
  obtain ⟨c, _, hc⟩ := List.mem_map.mp hpair
  cases hc
  exact List.mem_of_mem_filter hrs

theorem Store.RowsNodup.getRunState_of_mem {s : Store} (h : s.RowsNodup) {row : RunStateRow}
    (hrow : row ∈ s.runStates) : s.getRunState row.runId = some row := by
  unfold Store.RowsNodup at h
  unfold Store.getRunState
  generalize s.runStates = l at hrow h
  induction l with
  | nil => cases hrow
  | cons a l ih =>
    rw [List.map_cons, List.nodup_cons] at h
    rcases List.mem_cons.mp hrow with rfl | hrow
    · exact List.find?_cons_of_pos (by simp)
    · have hne : a.runId ≠ row.runId := fun e => h.1 (List.mem_map.mpr ⟨row, hrow, e.symm⟩)
      rw [List.find?_cons_of_neg (by simpa using hne)]
      exact ih hrow h.2

/-- Rows are unique wherever a program starts that keeps verdicts. -/
theorem within_keeps {α : Type} {m : ReplyM α}
    (h : ∀ r : ReplyState, r.store.RowsNodup →
      wp m (fun _ => ReplyKeeps r) (fun _ => ReplyKeeps r) r) : Within ReplyKeeps m := by
  intro r
  by_cases hs : r.store.RowsNodup
  · exact h r hs
  · rw [wp_iff]
    exact ⟨fun _ _ _ hr => absurd hr hs, fun _ _ _ hr => absurd hr hs⟩

theorem onAckThrough_keeps (timer : Timer) (throughSequence : Nat) (nowWall : Int) :
    Within ReplyKeeps (onAckThrough timer throughSequence nowWall) := by
  refine within_keeps fun r hs => ?_
  have hrefl : ReplyKeeps r r := Std.Refl.refl r
  unfold onAckThrough
  rw [wp_bind, wp_read]
  split
  · exact hrefl
  · next row hcur =>
    rw [wp_bind, wp_read]
    split
    · exact hrefl
    · next claim _ =>
      split
      · exact hrefl
      · split
        · next hopen =>
          have ho : row.isAppAuthoredTerminal = false := by
            rcases hopen with ⟨_, hfired⟩ | hno
            · exact isAppAuthoredTerminal_of_isFired hfired
            · rw [RunStateRow.isAppAuthoredTerminal, hno]
          have hrow := hs.getRunState_of_mem (currentRunState_mem hcur)
          rw [wp_bind, inTx, wp_transact]
          exact wp_mono (markAcknowledged_keeps timer claim nowWall hrow ho)
            (fun _ _ h => h) fun _ _ _ => Std.Refl.refl (r := KeepsVerdicts) r.store
        · exact hrefl

theorem expirePickupOne_keeps (timer : Timer) (runId : Uuid) (nowWall : Int) :
    Within ReplyKeeps (expirePickupOne timer runId nowWall) := by
  refine inTx_keeps fun r => ?_
  have hrefl : ReplyKeeps r r := Std.Refl.refl r
  unfold expirePickupOneInner
  rw [wp_bind, wp_read]
  split
  · exact hrefl
  · next row hrow =>
    split
    · exact hrefl
    · rw [wp_bind, wp_read]
      split
      · exact hrefl
      · rw [wp_bind, wp_read]
        split
        · exact hrefl
        · next claim _ =>
          split
          · exact hrefl
          · next hfired =>
            have hid := (getRunState_mem hrow).2
            have ho := isAppAuthoredTerminal_of_isFired (Bool.eq_true_of_not_eq_false hfired)
            rw [wp_bind, wp_read]
            split
            · rw [wp_bind]
              exact markAcknowledged_keeps timer claim nowWall (by rw [hid, hrow]) ho
            · rw [wp_bind]
              refine (onBook_states _).wp (fun _ r₁ h₁ => ?_) fun _ _ h => .of_same h
              rw [wp_bind, wp_onStore]
              refine (emit_states _ _ _ _).wp (fun _ s₂ h₂ => ?_)
                fun _ _ h => .of_same (h.trans h₁)
              have hsame : SameStates r { r₁ with store := s₂ } := h₂.trans h₁
              rw [wp_bind, wp_onStore]
              refine wp_imp (updateRunState_keeps_of_open ?_ ho) fun s' h =>
                IsTrans.trans (r := KeepsVerdicts) _ _ _ (KeepsVerdicts.of_same hsame) h
              rw [getRunState_congr hsame]
              exact hid ▸ hrow

theorem expireWatchdogOne_keeps (timer : Timer) (runId : Uuid) (nowWall monoNow : Int) :
    Within ReplyKeeps (expireWatchdogOne timer runId nowWall monoNow) := by
  refine inTx_keeps fun r => ?_
  have hrefl : ReplyKeeps r r := Std.Refl.refl r
  unfold expireWatchdogOneInner
  rw [wp_bind, wp_read]
  split
  · exact hrefl
  · next row hrow =>
    split
    · exact hrefl
    · split
      · exact hrefl
      · next hopen =>
        have ho : row.isAppAuthoredTerminal = false := by
          by_contra ha
          rw [Bool.not_eq_false] at ha
          exact hopen (.inl (RunStateRow.isTerminal_of_isAppAuthoredTerminal ha))
        rw [wp_bind, wp_read]
        split
        · exact hrefl
        · rw [wp_bind, wp_read]
          split
          · exact hrefl
          · next claim _ =>
            rw [wp_bind]
            refine (onBook_states _).wp (fun _ r₁ h₁ => ?_) fun _ _ h => .of_same h
            rw [wp_bind]
            refine (durationMs_states _ _ nowWall monoNow).wp (fun d r₂ h₂ => ?_)
              fun _ _ h => .of_same (h.trans h₁)
            dsimp only
            rw [wp_bind, wp_onStore]
            refine (emit_states _ _ _ _).wp (fun _ s₃ h₃ => ?_)
              fun _ _ h => .of_same (h.trans (h₂.trans h₁))
            have hsame : SameStates r { r₂ with store := s₃ } := h₃.trans (h₂.trans h₁)
            rw [wp_bind, wp_onStore]
            refine wp_imp (updateRunState_keeps_of_open ?_ ho) fun s' h =>
              IsTrans.trans (r := KeepsVerdicts) _ _ _ (KeepsVerdicts.of_same hsame) h
            rw [getRunState_congr hsame]
            exact (getRunState_mem hrow).2 ▸ hrow

/-! ### Later fires and deletion -/

theorem closeOpenRun_keeps (verdict : RunState) (message : String) (timer : Timer)
    (owner : Option String) (run : Option RunClaim) (utc : Int) :
    Within KeepsVerdicts (closeOpenRun verdict message timer owner run utc) := by
  intro s
  have hrefl : KeepsVerdicts s s := Std.Refl.refl s
  unfold closeOpenRun
  split
  · exact hrefl
  · next run =>
    rw [wp_bind, wp_get]
    dsimp only
    split
    · next hun =>
      rw [wp_bind]
      refine (emit_states _ _ _ _).wp (fun _ s₁ h₁ => ?_) fun _ _ h => .of_same h
      split
      · next row hrow =>
        have ho : row.isAppAuthoredTerminal = false := by
          by_contra ha
          rw [Bool.not_eq_false] at ha
          have hterm := RunStateRow.isTerminal_of_isAppAuthoredTerminal ha
          rw [Store.isUnresolved, hrow] at hun
          simp [hterm] at hun
        rw [wp_bind]
        refine wp_mono (updateRunState_keeps_of_open ?_ ho)
          (fun _ s₂ h₂ => IsTrans.trans (r := KeepsVerdicts) _ _ _ (.of_same h₁) h₂)
          (fun _ s₂ h₂ => IsTrans.trans (r := KeepsVerdicts) _ _ _ (.of_same h₁) h₂)
        rw [getRunState_congr h₁]
        exact (getRunState_mem hrow).2 ▸ hrow
      · exact .of_same h₁
    · exact hrefl

theorem insertRunStateConn_keeps (row : RunStateRow) :
    Within KeepsVerdicts (insertRunStateConn row) := by
  intro s
  unfold insertRunStateConn fail
  rw [wp_bind, wp_get]
  split
  · exact Std.Refl.refl (r := KeepsVerdicts) s
  · next hnew =>
    rw [Option.not_isSome_iff_eq_none] at hnew
    intro hs
    refine ⟨?_, fun run old hold ha => ⟨old, ?_, ha⟩⟩
    · have hfresh : ∀ old ∈ s.runStates, old.runId ≠ row.runId := by
        intro old hold he
        have := List.find?_eq_none.mp hnew old hold
        simp [he] at this
      show ((s.runStates ++ [row.inserted]).map (·.runId)).Nodup
      rw [List.map_append, List.nodup_append]
      refine ⟨hs, by simp, ?_⟩
      intro a ha b hb
      obtain ⟨old, hold, rfl⟩ := List.mem_map.mp ha
      rw [List.map_singleton, List.mem_singleton] at hb
      rw [hb]
      exact hfresh old hold
    · show (s.runStates ++ [row.inserted]).find? _ = some old
      rw [List.find?_append]
      exact Option.or_eq_some_iff.mpr (.inl hold)

theorem setRunTransport_keeps (runId : Uuid) (transport : String) :
    Within KeepsVerdicts (setRunTransport runId transport) := by
  intro s
  refine KeepsVerdicts.of_map
    (f := fun row => if row.runId = runId then { row with transport := some transport } else row)
    ?_ ?_
  · intro row
    split <;> rfl
  · intro run row _ ha
    split <;> exact ha

/-! ### Every run -/

/-- Each writer of lifecycle rows keeps the verdicts of the apps. -/
theorem keepsVerdicts_writers : RowWriters KeepsVerdicts where
  same _ _ := .of_same
  opens _ _ _ _ _ _ _ := insertRunStateConn_keeps _
  closes _ _ _ _ _ _ _ := closeOpenRun_keeps _ _ _ _ _ _
  delivers := setRunTransport_keeps
  acks := onAckThrough_keeps
  misses := expirePickupOne_keeps
  expires := expireWatchdogOne_keeps

/-- Every commit keeps the verdicts of the apps. -/
theorem Commit.keeps [Calendar] {cfg : FireConfig} (c : Commit) (r : ReplyState) :
    ReplyKeeps r (c.after cfg r) := by
  refine keepsVerdicts_writers.after c ?_ ?_
  · rintro timer doc digest nowWall monoNow utc -
    exact ingestInner_keeps cfg.reply timer doc digest nowWall monoNow utc none r
  · rintro f -
    exact keepsVerdicts_writers.overtake cfg f fun prev doc digest _ _ =>
      ingestInner_keeps cfg.reply f.timer doc digest f.now f.monoNow f.utc (some prev.runId) r

/-- The run's row holds a verdict that its app wrote. -/
def Store.hasVerdict (s : Store) (run : Uuid) : Bool :=
  (s.getRunState run).any (·.isAppAuthoredTerminal)

theorem Store.VerdictsLast.hasVerdict {s s' : Store} (h : s.VerdictsLast s') {run : Uuid}
    (hv : s.hasVerdict run = true) : s'.hasVerdict run = true := by
  unfold Store.hasVerdict at hv ⊢
  cases hr : s.getRunState run with
  | none =>
    rw [hr] at hv
    cases hv
  | some row =>
    rw [hr] at hv
    obtain ⟨row', hr', ha'⟩ := h run row hr hv
    rw [hr']
    exact ha'

/-- **App verdicts are final.**  Once the row of a run holds a verdict that
its app wrote, it holds one in every state reached from there. -/
theorem verdict_stable [Calendar] {cfg : FireConfig}
    {tr tr' : List (System.Event ReplyState Commit)} {s s' : ReplyState}
    (h : (ledger cfg).Run {} tr s) (h' : (ledger cfg).Run s tr' s') {run : Uuid}
    (hv : s.store.hasVerdict run = true) : s'.store.hasVerdict run = true := by
  have hs : s.store.RowsNodup := by
    refine h.invariant (G := fun _ => True) (I := fun r => r.store.RowsNodup)
      (fun _ _ => trivial) List.nodup_nil ?_
    rintro r c r' rfl - hr
    exact (Commit.keeps c r hr).1
  have hkeeps : ReplyKeeps s s' := by
    refine h'.within (Std.Refl.refl (r := ReplyKeeps) s)
      (fun h h' => IsTrans.trans (r := ReplyKeeps) _ _ _ h h') ?_
    rintro r c r' rfl
    exact Commit.keeps c r
  exact (hkeeps hs).2.hasVerdict hv

section Sample

attribute [local instance] Calendar.utcOnly

/-- A fire of the sample timer when an app owns it. -/
def Firing.owned (slot : Int) : Firing := { Firing.sample .skip slot with owner := some "app" }

/-- The app reports that the first run is done. -/
def doneReply : ReplyDocument where
  schema := some REPLY_SCHEMA_V1
  runId := some ⟨1⟩
  appName := some "app"
  state := some "completed"

/-- The deadline passes, the timer fires again and is deleted, and the
reply is still the last word on the first run. -/
theorem verdict_stable_done :
    let s := [.createTimer (.sample .skip) 0, .setTimerOwner ⟨0⟩ "app", .fire (.owned (60 * NS)),
      .ingest (.sample .skip) doneReply "digest" (61 * NS) (61 * NS) (61 * NS)].foldl
        (fun r c => Commit.after .sample c r) {}
    let s' := [.expirePickup (.sample .skip) ⟨1⟩ (200 * NS), .fire (.owned (120 * NS)),
      .deleteTimerLifecycle (.sample .skip) (some "app") (300 * NS)].foldl
        (fun r c => Commit.after .sample c r) s
    s'.store.hasVerdict ⟨1⟩ = true :=
  verdict_stable (run_commits .sample _) (System.run_trace (fun _ _ => rfl) _ _)
    (by decide +kernel)

end Sample

end Bellman

/-
Bellman/Rollback.lean

What a failed transaction leaves in memory.

The tables of a transaction that fails are rolled back, the memory is not.
What an operation changes there before it commits:

    reply         the countdown of its run goes, or is replaced by a
                  watchdog with its hint; a new verdict consumes the anchor
    pickup        the countdown of its run goes
    watchdog      the countdown and the anchor of its run go
    fire          what the reply found by its barrier does

The rest of a fire registers its countdown after the commit.

Main result: whatever fails, an operation that does not commit leaves the
memory as it was, if and only if it has nothing to change there
(`memory_kept_iff`).  A reply whose transaction fails may take the pickup
countdown of its run with it and put a watchdog in its place; the passes then
never see the deadline that the row still has (`memory_not_kept`).
-/
import Bellman.Outage

namespace Bellman

open ProgramLogic Prog ReplyM

/-! ### The memory, operation by operation -/

section Book

variable (r : ReplyState) (run : Uuid)

/-- The state with its book changed. -/
def ReplyState.mapBook (f : DeadlineBook → DeadlineBook) : ReplyState :=
  { r with book := f r.book }

theorem memory_remove : (r.mapBook (·.remove run)).memory = r.memory.drop run := by
  have hget : (r.book.remove run).get = Function.update r.book.get run none := by
    funext k
    show ((r.book.entries.filter fun e => e.1 ≠ run).find? (·.1 == k)).map Prod.snd = _
    rw [Rows.find?_erase Prod.fst]
    by_cases hk : k = run
    · rw [if_pos hk, hk, Function.update_self]
      rfl
    · rw [if_neg hk, Function.update_of_ne hk]
      rfl
  show Memory.mk (r.book.remove run).get _ _ = _
  rw [hget]
  rfl

theorem memory_removeKind (kind : DeadlineKind) :
    (r.mapBook (·.removeKind run kind)).memory = r.memory.dropKind run kind := by
  show ({ r with book := r.book.removeKind run kind } : ReplyState).memory =
    if (r.book.get run).any (·.kind == kind) then r.memory.drop run else r.memory
  unfold DeadlineBook.removeKind
  split
  · exact memory_remove r run
  · rfl

theorem memory_insert (d : MonoDeadline) :
    (r.mapBook (·.insert run d)).memory = r.memory.arm run d := by
  have hget : (r.book.insert run d).get = Function.update r.book.get run (some d) := by
    funext k
    show ((r.book.entries.filter (fun e => e.1 ≠ run) ++ [(run, d)]).find? (·.1 == k)).map
      Prod.snd = _
    rw [List.find?_append, Rows.find?_erase Prod.fst]
    by_cases hk : k = run
    · subst hk
      simp
    · rw [if_neg hk, Function.update_of_ne hk, List.find?_cons_of_neg (by simpa using Ne.symm hk)]
      simp [DeadlineBook.get]
  show Memory.mk (r.book.insert run d).get _ _ = _
  rw [hget]
  rfl

theorem memory_armHint (kind : DeadlineKind) (wallAt : Int) :
    (r.mapBook (·.armHint run kind wallAt)).memory = r.memory.hint run kind wallAt := rfl

/-- The duration of a run consumes its anchor. -/
theorem memory_durationMs (firedAt nowWall monoNow : Int) :
    wp (durationMs run firedAt nowWall monoNow)
      (fun _ r' => r'.memory = r.memory.dropAnchor run) (fun _ _ => False) r := by
  unfold durationMs
  rw [wp_modifyGet]
  split
  · next heq =>
    show Memory.mk _ _ _ = Memory.mk _ _ _
    congr 1
    funext k
    rw [Rows.find?_erase Prod.fst]
    by_cases hk : k = run
    · rw [if_pos hk, hk, Function.update_self]
      rfl
    · rw [if_neg hk, Function.update_of_ne hk]
      rfl
  · next heq =>
    have hnone : Function.update r.memory.anchor run none = r.memory.anchor := by
      rw [Function.update_eq_self_iff]
      show none = Option.map _ _
      rw [heq]
      rfl
    show r.memory = { r.memory with anchor := Function.update r.memory.anchor run none }
    rw [hnone]

end Book

section Leaves

variable {α β : Type} {P : Memory → Prop} {r : ReplyState}

/-- However it ends, the program leaves the memory so. -/
def Leaves (P : Memory → Prop) (m : ReplyM α) (r : ReplyState) : Prop :=
  wp m (fun _ r' => P r'.memory) (fun _ r' => P r'.memory) r

/-- The program does not touch the memory. -/
abbrev Forgets (m : ReplyM α) : Prop := Within (Same ReplyState.memory) m

theorem onStore_forgets (m : StoreM α) : Forgets (onStore m) :=
  within_zoom fun _ => wp_iff.mpr ⟨fun _ _ _ _ _ => rfl, fun _ _ _ _ _ => rfl⟩

theorem check_forgets (o : Outage) (call : DbCall) : Forgets (o.check call) := by
  refine within_bind within_get fun r => ?_
  split
  · exact within_throw _
  · exact within_pure _

theorem Leaves.of_forgets {m : ReplyM α} (h : Forgets m) (hP : P r.memory) : Leaves P m r :=
  h.wp (fun _ _ (he : _ = _) => he ▸ hP) fun _ _ (he : _ = _) => he ▸ hP

/-- First a program that does not touch the memory. -/
theorem Leaves.bind {m : ReplyM β} {f : β → ReplyM α} (h : Forgets m) (hP : P r.memory)
    (hf : ∀ b r', r'.memory = r.memory → Leaves P (f b) r') : Leaves P (m >>= f) r := by
  unfold Leaves
  rw [wp_bind]
  exact h.wp (fun b r' he => hf b r' he) fun _ _ (he : _ = _) => he ▸ hP

theorem Leaves.pure {a : α} (hP : P r.memory) : Leaves P (pure a) r := hP

theorem wp_check {o : Outage} {call : DbCall} {Q : Unit → ReplyState → Prop}
    {E : Abort → ReplyState → Prop} (ho : (∀ e, E e r) ∨ o = .atCommit ∧ call ≠ .commit)
    (hQ : Q () r) : wp (o.check call) Q E r := by
  unfold Outage.check
  rw [wp_bind, wp_get]
  rcases ho with hE | ⟨rfl, hcall⟩
  · split
    · exact hE _
    · exact hQ
  · have hnot : Outage.atCommit call r.store = false := by
      cases call <;> first | rfl | exact absurd rfl hcall
    rw [if_neg (by simp [hnot])]
    exact hQ

/-- First an access, which may fail if the memory is right. -/
theorem Leaves.check {o : Outage} {call : DbCall} {f : Unit → ReplyM α}
    (ho : P r.memory ∨ o = .atCommit ∧ call ≠ .commit) (hf : Leaves P (f ()) r) :
    Leaves P (o.check call >>= f) r := by
  unfold Leaves
  rw [wp_bind]
  exact wp_check (ho.imp_left fun hP _ => hP) hf

theorem Leaves.read {γ : Type} {g : Store → γ} {f : γ → ReplyM α}
    (hf : Leaves P (f (g r.store)) r) : Leaves P (ReplyM.read g >>= f) r := hf

/-- First a program that leaves the memory right. -/
theorem Leaves.bind_leaves {m : ReplyM β} {f : β → ReplyM α} (h : Leaves P m r)
    (hf : ∀ b r', P r'.memory → Leaves P (f b) r') : Leaves P (m >>= f) r := by
  unfold Leaves at h ⊢
  rw [wp_bind]
  exact wp_mono h hf fun _ _ hP => hP

/-- A transaction rolls back its tables, and the memory is as it was left. -/
theorem Leaves.inTx (o : Outage) {m : ReplyM α} (hP : P r.memory) (h : Leaves P m r) :
    Leaves P (o.inTx m) r := by
  unfold Leaves Outage.inTx ReplyM.inTx
  rw [wp_transact]
  refine Leaves.check (.inl hP) (h.bind_leaves fun a r' hP' => ?_)
  exact Leaves.check (.inl hP') (Leaves.pure hP')

/-- When the commit fails, the memory is as the whole transaction left it. -/
theorem Leaves.atCommit {m : ReplyM α} (h : Leaves P m r) {Q : α → ReplyState → Prop} :
    wp (Outage.atCommit.inTx m) Q (fun _ r' => P r'.memory) r := by
  unfold Outage.inTx ReplyM.inTx
  rw [wp_transact, wp_bind]
  refine wp_check (.inr ⟨rfl, nofun⟩) ?_
  rw [wp_bind]
  exact wp_mono h (fun _ _ hP => hP) fun _ _ hP => hP

/-- First a program of which more is known. -/
theorem Leaves.bind_wp {m : ReplyM β} {f : β → ReplyM α} {Q : β → ReplyState → Prop}
    {E : Abort → ReplyState → Prop} (h : wp m Q E r) (hE : ∀ e r', E e r' → P r'.memory)
    (hf : ∀ b r', Q b r' → Leaves P (f b) r') : Leaves P (m >>= f) r := by
  unfold Leaves
  rw [wp_bind]
  exact wp_mono h hf hE

end Leaves

/-! ### Replies -/

section Reply

variable {P : Memory → Prop} {r : ReplyState} {cfg : ReplyConfig} {timer : Timer}
  {claim : RunClaim} {row : RunStateRow} {doc : ReplyDocument} {curState newState : RunState}
  {digest : String} {nowWall monoNow utc : Int}

/-- A line is logged, or not; the row is that of the same run. -/
theorem wp_logged {c : Prop} [Decidable c] {kind : RunState} {loggedAt : Int}
    {subject : EventSubject} {note : EventNote} {row' : RunStateRow} (h : row'.runId = row.runId) :
    wp (onStore (if c then do emit kind loggedAt subject note; return row' else return row))
      (fun a r' => r'.memory = r.memory ∧ a.runId = row.runId) (fun _ _ => False) r := by
  rw [wp_onStore]
  split
  · simp only [emit, newUuid, enqueueEventConn, wp_bind, wp_modifyGet, wp_modify, wp_pure]
    exact ⟨rfl, h⟩
  · exact ⟨rfl, rfl⟩

theorem wp_logAcknowledged_memory :
    wp (onStore (logAcknowledged timer claim row nowWall))
      (fun a r' => r'.memory = r.memory ∧ a.runId = row.runId) (fun _ _ => False) r :=
  wp_logged rfl

theorem wp_logRunning_memory :
    wp (onStore (logRunning timer claim row doc newState nowWall))
      (fun a r' => r'.memory = r.memory ∧ a.runId = row.runId) (fun _ _ => False) r :=
  wp_logged rfl

theorem wp_logVerdict_memory :
    wp (logVerdict timer claim row doc curState newState nowWall monoNow utc)
      (fun _ r' => r'.memory = if newState.isTerminal = true ∧ curState ≠ newState then
        r.memory.dropAnchor row.runId else r.memory) (fun _ _ => False) r := by
  unfold logVerdict
  split
  · rw [wp_bind]
    refine wp_mono (memory_durationMs r row.runId row.firedAt nowWall monoNow)
      (fun d r' h => ?_) fun _ _ h => h
    simp only [emit, newUuid, enqueueEventConn, wp_onStore, wp_bind, wp_modifyGet, wp_modify]
    exact h
  · rfl

/-- After the memory has been dealt with, only a verdict's duration touches
it. -/
theorem leaves_reportOn (o : Outage) (hP : P r.memory)
    (hverdict : newState.isTerminal = true ∧ curState ≠ newState →
      P (r.memory.dropAnchor row.runId)) :
    Leaves P (reportOn o timer claim row doc curState newState digest nowWall monoNow utc) r := by
  refine Leaves.bind (check_forgets o .enqueueEvent) hP fun _ r₁ h₁ => ?_
  refine Leaves.bind_wp wp_logAcknowledged_memory (fun _ _ h => h.elim) fun row₂ r₂ h₂ => ?_
  refine Leaves.bind_wp wp_logRunning_memory (fun _ _ h => h.elim) fun row₃ r₃ h₃ => ?_
  refine Leaves.bind_wp wp_logVerdict_memory (fun _ _ h => h.elim) fun _ r₄ h₄ => ?_
  have hr₄ : P r₄.memory := by
    rw [h₄, h₃.1, h₂.1, h₁, h₃.2, h₂.2]
    split
    · next h => exact hverdict h
    · exact hP
  refine Leaves.bind (check_forgets o .updateRunState) hr₄ fun _ r₅ h₅ => ?_
  exact Leaves.of_forgets (onStore_forgets _) (h₅ ▸ hr₄)

/-- A verdict that is logged consumes the anchor. -/
theorem leaves_reportOn_atCommit (hverdict : newState.isTerminal = true ∧ curState ≠ newState)
    (hP : P (r.memory.dropAnchor row.runId)) :
    Leaves P (reportOn .atCommit timer claim row doc curState newState digest nowWall monoNow utc)
      r := by
  show Leaves P (onStore _ >>= _) r
  refine Leaves.bind_wp wp_logAcknowledged_memory (fun _ _ h => h.elim) fun row₂ r₂ h₂ => ?_
  refine Leaves.bind_wp wp_logRunning_memory (fun _ _ h => h.elim) fun row₃ r₃ h₃ => ?_
  refine Leaves.bind_wp wp_logVerdict_memory (fun _ _ h => h.elim) fun _ r₄ h₄ => ?_
  rw [if_pos hverdict, h₃.1, h₂.1, h₃.2, h₂.2] at h₄
  exact Leaves.of_forgets (onStore_forgets _) (h₄ ▸ hP)

/-! ### What a reply does to the countdowns -/

theorem wp_onBook {f : DeadlineBook → DeadlineBook} {Q : Unit → ReplyState → Prop}
    {E : Abort → ReplyState → Prop} : wp (onBook f) Q E r = Q () (r.mapBook f) := rfl

end Reply

/-- An accepted reply has nothing to change in the memory. -/
structure ReplyDocument.KeepsMemory (cfg : ReplyConfig) (doc : ReplyDocument) (row : RunStateRow)
    (newState : RunState) (nowWall monoNow : Int) (m : Memory) : Prop where
  /-- A verdict takes the countdown of its run away, and a new one its
  anchor. -/
  verdict : newState.isTerminal = true →
    m.countdown row.runId = none ∧ (row.state = newState ∨ m.anchor row.runId = none)
  /-- A watchdog takes the place of the countdown.  The arithmetic of its
  deadline may stop the reply on the way. -/
  watch : doc.Watches row newState →
    match watchdogInstant cfg ((doc.expectedSecs.or row.expectedSecs).getD 0) monoNow with
    | .error _ => ∀ d ∈ m.countdown row.runId, d.kind ≠ .pickup
    | .ok at_ =>
      match watchdogWall cfg ((doc.expectedSecs.or row.expectedSecs).getD 0) nowWall with
      | .error _ => m.countdown row.runId = some ⟨.watchdog, at_⟩
      | .ok _ => False
  /-- Another report takes the countdown away. -/
  idle : newState.isTerminal = false → ¬doc.Watches row newState → m.countdown row.runId = none

section Reply

variable {r : ReplyState} {cfg : ReplyConfig} {timer : Timer} {claim : RunClaim}
  {row : RunStateRow} {doc : ReplyDocument} {newState : RunState} {digest : String}
  {nowWall monoNow utc : Int}

theorem wp_rearm_terminal {Q : RunStateRow → ReplyState → Prop} {E : Abort → ReplyState → Prop}
    (h : newState.isTerminal = true) :
    wp (rearm cfg row newState nowWall monoNow) Q E r =
      Q { row with watchdogDeadline := none }
        ((r.mapBook (·.removeKind row.runId .pickup)).mapBook (·.remove row.runId)) := by
  unfold rearm
  rw [wp_bind, wp_onBook, if_pos h]
  rfl

theorem wp_rearm_watch {Q : RunStateRow → ReplyState → Prop} {E : Abort → ReplyState → Prop}
    (h : ¬newState.isTerminal = true)
    (hwatch : row.errorDetection = some true ∧ 0 < row.expectedSecs.getD 0) :
    wp (rearm cfg row newState nowWall monoNow) Q E r =
      wp (armWatchdog cfg row.runId (row.expectedSecs.getD 0) nowWall monoNow)
        (fun wall r' => Q { row with watchdogDeadline := some wall } r') E
        (r.mapBook (·.removeKind row.runId .pickup)) := by
  unfold rearm
  rw [wp_bind, wp_onBook, if_neg h, if_pos hwatch, wp_bind]
  rfl

theorem wp_rearm_idle {Q : RunStateRow → ReplyState → Prop} {E : Abort → ReplyState → Prop}
    (h : ¬newState.isTerminal = true)
    (hidle : ¬(row.errorDetection = some true ∧ 0 < row.expectedSecs.getD 0)) :
    wp (rearm cfg row newState nowWall monoNow) Q E r =
      Q row ((r.mapBook (·.removeKind row.runId .pickup)).mapBook
        (·.removeKind row.runId .watchdog)) := by
  unfold rearm
  rw [wp_bind, wp_onBook, if_neg h, if_neg hidle]
  rfl

/-- What an accepted reply does to the memory before its row is written. -/
theorem leaves_applyOn {P : Memory → Prop} (o : Outage)
    (hverdict : newState.isTerminal = true → ∀ row' r', row'.runId = row.runId →
      r'.memory = r.memory.drop row.runId →
      Leaves P (reportOn o timer claim row' doc row.state newState digest nowWall monoNow utc) r')
    (hwatch : doc.Watches row newState →
      match watchdogInstant cfg ((doc.expectedSecs.or row.expectedSecs).getD 0) monoNow with
      | .error _ => P (r.memory.dropKind row.runId .pickup)
      | .ok at_ =>
        match watchdogWall cfg ((doc.expectedSecs.or row.expectedSecs).getD 0) nowWall with
        | .error _ => P (r.memory.arm row.runId ⟨.watchdog, at_⟩)
        | .ok wall => P ((r.memory.arm row.runId ⟨.watchdog, at_⟩).hint row.runId .watchdog wall))
    (hidle : newState.isTerminal = false → ¬doc.Watches row newState →
      P (r.memory.drop row.runId)) :
    Leaves P (applyOn o cfg timer claim row doc newState digest nowWall monoNow utc) r := by
  show wp (rearm cfg (row.report doc newState nowWall) newState nowWall monoNow >>= fun row' =>
    reportOn o timer claim row' doc row.state newState digest nowWall monoNow utc) _ _ r
  have hid : (row.report doc newState nowWall).runId = row.runId := by cases newState <;> rfl
  have hdetect : (row.report doc newState nowWall).errorDetection =
      doc.errorDetection.or row.errorDetection := by cases newState <;> rfl
  have hsecs : (row.report doc newState nowWall).expectedSecs =
      doc.expectedSecs.or row.expectedSecs := by cases newState <;> rfl
  unfold ReplyDocument.Watches at hwatch hidle
  generalize row.report doc newState nowWall = row₁ at hid hdetect hsecs ⊢
  rw [← hid] at hverdict hwatch hidle
  rw [← hdetect, ← hsecs] at hwatch hidle
  rw [wp_bind]
  -- Once the countdown is dealt with, the lines of a report are quiet.
  have hquiet : newState.isTerminal = false → ∀ row' r', P r'.memory →
      Leaves P (reportOn o timer claim row' doc row.state newState digest nowWall monoNow utc) r' :=
    fun hopen row' r' hP => leaves_reportOn o hP fun h => by simp [hopen] at h
  cases hterm : newState.isTerminal with
  | true =>
    rw [wp_rearm_terminal hterm]
    refine hverdict hterm _ _ rfl ?_
    rw [memory_remove, memory_removeKind, Memory.drop_dropKind]
  | false =>
    by_cases harm : row₁.errorDetection = some true ∧ 0 < row₁.expectedSecs.getD 0
    · rw [wp_rearm_watch (by simp [hterm]) harm, wp_armWatchdog_eq]
      have hP := hwatch ⟨hterm, harm⟩
      cases hat : watchdogInstant cfg (row₁.expectedSecs.getD 0) monoNow with
      | error p =>
        rw [hat] at hP
        show P (ReplyState.memory _)
        rw [memory_removeKind]
        exact hP
      | ok at_ =>
        rw [hat] at hP
        cases hwall : watchdogWall cfg (row₁.expectedSecs.getD 0) nowWall with
        | error p =>
          rw [hwall] at hP
          show P (((r.mapBook (·.removeKind row₁.runId .pickup)).mapBook
            (·.insert row₁.runId ⟨.watchdog, at_⟩)).memory)
          rw [memory_insert, memory_removeKind, Memory.arm_dropKind]
          exact hP
        | ok wall =>
          rw [hwall] at hP
          refine hquiet hterm _ (((r.mapBook (·.removeKind row₁.runId .pickup)).mapBook
            (·.insert row₁.runId ⟨.watchdog, at_⟩)).mapBook
            (·.armHint row₁.runId .watchdog wall)) ?_
          rw [memory_armHint, memory_insert, memory_removeKind, Memory.arm_dropKind]
          exact hP
    · rw [wp_rearm_idle (by simp [hterm]) harm]
      refine hquiet hterm _ _ ?_
      rw [memory_removeKind, memory_removeKind, Memory.dropKind_dropKind]
      exact hidle hterm fun h => harm h.2

/-- A reply that has nothing to change leaves the memory as it is. -/
theorem leaves_applyOn_of_keeps (o : Outage)
    (h : doc.KeepsMemory cfg row newState nowWall monoNow r.memory) :
    Leaves (· = r.memory) (applyOn o cfg timer claim row doc newState digest nowWall monoNow utc)
      r := by
  apply leaves_applyOn
  · intro hterm row' r' hid hr'
    obtain ⟨hcount, hanchor⟩ := h.verdict hterm
    have hsame : r'.memory = r.memory := hr'.trans (Memory.drop_eq_iff.mpr hcount)
    refine leaves_reportOn o hsame fun hnew => ?_
    rw [hsame, hid]
    exact Memory.dropAnchor_eq_iff.mpr (hanchor.resolve_left hnew.2)
  · intro hwatches
    have hwatch := h.watch hwatches
    cases hat : watchdogInstant cfg ((doc.expectedSecs.or row.expectedSecs).getD 0) monoNow with
    | error p =>
      rw [hat] at hwatch
      exact Memory.dropKind_eq_iff.mpr hwatch
    | ok at_ =>
      rw [hat] at hwatch
      cases hwall : watchdogWall cfg ((doc.expectedSecs.or row.expectedSecs).getD 0) nowWall with
      | error p =>
        rw [hwall] at hwatch
        exact Memory.arm_eq_iff.mpr hwatch
      | ok wall =>
        rw [hwall] at hwatch
        exact hwatch.elim
  · exact fun hterm hidle => Memory.drop_eq_iff.mpr (h.idle hterm hidle)

/-- A reply that has something to change leaves the memory changed. -/
theorem leaves_applyOn_of_not_keeps
    (h : ¬doc.KeepsMemory cfg row newState nowWall monoNow r.memory) :
    Leaves (· ≠ r.memory)
      (applyOn .atCommit cfg timer claim row doc newState digest nowWall monoNow utc) r := by
  apply leaves_applyOn
  · intro hterm row' r' hid hr'
    have hopen : ¬newState.isTerminal = false := by simp [hterm]
    by_cases hnone : r.memory.countdown row.runId = none
    · -- There is an anchor, and the verdict is new.
      obtain ⟨hne, hsome⟩ : ¬row.state = newState ∧ ¬r.memory.anchor row.runId = none := by
        refine not_or.mp fun hor => h ⟨fun _ => ⟨hnone, hor⟩, ?_, fun hf => absurd hf hopen⟩
        exact fun hwatches => absurd hwatches.1 hopen
      have hsame : r'.memory = r.memory := hr'.trans (Memory.drop_eq_iff.mpr hnone)
      apply leaves_reportOn_atCommit ⟨hterm, hne⟩
      rw [hsame, hid]
      exact fun he => hsome (Memory.dropAnchor_eq_iff.mp he)
    · have hgone : r'.memory.countdown row.runId = none := by
        rw [hr']
        exact Function.update_self ..
      refine leaves_reportOn _ (fun he => hnone (he ▸ hgone)) fun _ he => hnone ?_
      rw [← he]
      exact hgone
  · intro hwatches
    have hopen : ¬newState.isTerminal = true := by simp [hwatches.1]
    have hnot := fun hwatch => h
      ⟨fun ht => absurd ht hopen, fun _ => hwatch, fun _ hidle => absurd hwatches hidle⟩
    cases hat : watchdogInstant cfg ((doc.expectedSecs.or row.expectedSecs).getD 0) monoNow with
    | error p =>
      rw [hat] at hnot
      exact fun he => hnot (Memory.dropKind_eq_iff.mp he)
    | ok at_ =>
      rw [hat] at hnot
      cases hwall : watchdogWall cfg ((doc.expectedSecs.or row.expectedSecs).getD 0) nowWall with
      | error p =>
        rw [hwall] at hnot
        exact fun he => hnot (Memory.arm_eq_iff.mp he)
      | ok wall =>
        have hne := (r.memory.arm row.runId ⟨.watchdog, at_⟩).hint_ne row.runId .watchdog wall
        intro he
        have hhints : _ = r.memory.hints := congrArg Memory.hints he
        exact hne hhints
  · intro hterm hidle he
    refine h ⟨fun ht => ?_, fun hwatches => absurd hwatches hidle, fun _ _ =>
      Memory.drop_eq_iff.mp he⟩
    rw [hterm] at ht
    cases ht

/-! ### The operations -/

theorem leaves_ingestInnerOn {P : Memory → Prop} {currentOverride : Option Uuid} (o : Outage)
    (ho : P r.memory ∨ o = .atCommit)
    (h : match r.store.acceptedReply timer doc digest nowWall currentOverride with
      | some (row, newState) => ∀ claim, Leaves P
          (applyOn o cfg timer claim row doc newState digest nowWall monoNow utc) r
      | none => P r.memory) :
    Leaves P (ingestInnerOn o cfg timer doc digest nowWall monoNow utc currentOverride) r := by
  have hcheck (call : DbCall) (hcall : call ≠ .commit) :
      P r.memory ∨ o = .atCommit ∧ call ≠ .commit := ho.imp_right fun he => ⟨he, hcall⟩
  unfold ingestInnerOn
  unfold Store.acceptedReply at h
  split
  · next why hdoc =>
    rw [hdoc] at h
    exact Leaves.pure h
  · next runId newState appName hdoc =>
    rw [hdoc] at h
    dsimp only at h
    refine Leaves.check (hcheck _ nofun) (Leaves.read ?_)
    split
    · next hnone =>
      rw [hnone] at h
      exact Leaves.pure h
    · next claim hclaim =>
      rw [hclaim] at h
      dsimp only at h
      split
      · next hother =>
        rw [if_neg fun hc => hother hc.1] at h
        exact Leaves.pure h
      · next hown =>
        refine Leaves.check (hcheck _ nofun) (Leaves.read ?_)
        split
        · next hstale =>
          rw [if_neg fun hc => hstale hc.2.1] at h
          exact Leaves.check (hcheck _ nofun) (Leaves.of_forgets (onStore_forgets _) h)
        · next hcurrent =>
          refine Leaves.check (hcheck _ nofun) (Leaves.read ?_)
          split
          · next why hwhy =>
            rw [if_neg fun hc => by rw [hwhy] at hc; cases hc.2.2.1] at h
            exact Leaves.pure h
          · next hfine =>
            split
            · next hdup =>
              rw [if_neg fun hc => hc.2.2.2 hdup] at h
              exact Leaves.pure h
            · next hnew =>
              rw [if_pos ⟨not_not.mp hown, not_not.mp hcurrent, hfine, hnew⟩] at h
              exact (h claim).bind_leaves fun _ r' hP => Leaves.pure hP

end Reply

/-- The run of a timer that the feed's cursor picks up. -/
def Store.cursorPickup (s : Store) (timer : Timer) (throughSequence : Nat) :
    Option (RunStateRow × RunClaim) :=
  match s.currentRunState timer.id with
  | none => none
  | some row =>
    match s.getRun row.runId with
    | none => none
    | some claim =>
      if claim.eventSequence ≤ throughSequence ∧
          ((row.pickupDeadline.isSome ∧ row.state.isFired) ∨ row.state = .noAck) then
        some (row, claim)
      else none

/-- The run, if its pickup can lapse. -/
def Store.lapsedPickup (s : Store) (timer : Timer) (runId : Uuid) :
    Option (RunStateRow × RunClaim) :=
  match s.getRunState runId with
  | none => none
  | some row =>
    if row.pickupDeadline.isNone then none
    else if (s.currentRunState timer.id).map (·.runId) ≠ some runId then none
    else
      match s.getRun runId with
      | none => none
      | some claim => if row.state.isFired = false then none else some (row, claim)

/-- The run, if its watchdog can lapse. -/
def Store.lapsedWatchdog (s : Store) (timer : Timer) (runId : Uuid) : Option RunStateRow :=
  match s.getRunState runId with
  | none => none
  | some row =>
    if row.watchdogDeadline.isNone then none
    else if row.isTerminal ∨ row.errorDetection ≠ some true then none
    else if (s.currentRunState timer.id).map (·.runId) ≠ some runId then none
    else
      match s.getRun runId with
      | none => none
      | some _ => some row

section Deadlines

variable {P : Memory → Prop} {r : ReplyState} {timer : Timer} {runId : Uuid} {nowWall monoNow : Int}
  {o : Outage}

theorem leaves_markAcknowledgedOn (o : Outage) {claim : RunClaim} {row : RunStateRow}
    (hP : P (r.memory.dropKind row.runId .pickup)) :
    Leaves P (markAcknowledgedOn o timer claim row nowWall) r := by
  have hP' : P (r.mapBook (·.removeKind row.runId .pickup)).memory := memory_removeKind r _ _ ▸ hP
  show Leaves P (onBook _ >>= _) r
  unfold Leaves
  rw [wp_bind, wp_onBook]
  refine Leaves.check (.inl hP') ?_
  split
  · exact Leaves.bind (onStore_forgets _) hP' fun _ _ h => Leaves.of_forgets (onStore_forgets _)
      (h ▸ hP')
  · exact Leaves.of_forgets (onStore_forgets _) hP'

theorem wp_onAckThroughOn {throughSequence : Nat} {Q : Bool → ReplyState → Prop}
    {E : Abort → ReplyState → Prop} (ho : (∀ e, E e r) ∨ o = .atCommit)
    (h : match r.store.cursorPickup timer throughSequence with
      | some (row, claim) =>
        wp (o.inTx (markAcknowledgedOn o timer claim row nowWall)) (fun _ => Q true) E r
      | none => Q false r) :
    wp (onAckThroughOn o timer throughSequence nowWall) Q E r := by
  have hcheck (call : DbCall) (hcall : call ≠ .commit) :
      (∀ e, E e r) ∨ o = .atCommit ∧ call ≠ .commit := ho.imp_right fun he => ⟨he, hcall⟩
  unfold onAckThroughOn
  unfold Store.cursorPickup at h
  rw [wp_bind]
  refine wp_check (hcheck _ nofun) ?_
  rw [wp_bind, wp_read]
  split
  · next hnone =>
    rw [hnone] at h
    exact h
  · next row hrow =>
    rw [hrow] at h
    dsimp only at h
    rw [wp_bind]
    refine wp_check (hcheck _ nofun) ?_
    rw [wp_bind, wp_read]
    split
    · next hnone =>
      rw [hnone] at h
      exact h
    · next claim hclaim =>
      rw [hclaim] at h
      dsimp only at h
      split
      · next hbelow =>
        rw [if_neg fun hc => Nat.not_le.mpr hbelow hc.1] at h
        exact h
      · next hreached =>
        split
        · next hopen =>
          rw [if_pos ⟨Nat.le_of_not_lt hreached, hopen⟩] at h
          rw [wp_bind]
          exact h
        · next hclosed =>
          rw [if_neg fun hc => hclosed hc.2] at h
          exact h

theorem leaves_expirePickupOneInnerOn (ho : P r.memory ∨ o = .atCommit)
    (h : match r.store.lapsedPickup timer runId with
      | some (row, claim) =>
        if claim.eventSequence ≤ r.store.lastAckedSequence timer.id then
          P (r.memory.dropKind row.runId .pickup)
        else P (r.memory.drop runId)
      | none => P r.memory) :
    Leaves P (expirePickupOneInnerOn o timer runId nowWall) r := by
  have hcheck (call : DbCall) (hcall : call ≠ .commit) :
      P r.memory ∨ o = .atCommit ∧ call ≠ .commit := ho.imp_right fun he => ⟨he, hcall⟩
  unfold expirePickupOneInnerOn
  unfold Store.lapsedPickup at h
  refine Leaves.check (hcheck _ nofun) (Leaves.read ?_)
  split
  · next hnone =>
    rw [hnone] at h
    exact Leaves.pure h
  · next row hrow =>
    rw [hrow] at h
    dsimp only at h
    split
    · next hunarmed =>
      rw [if_pos hunarmed] at h
      exact Leaves.pure h
    · next harmed =>
      rw [if_neg harmed] at h
      refine Leaves.check (hcheck _ nofun) (Leaves.read ?_)
      split
      · next hold =>
        rw [if_pos hold] at h
        exact Leaves.pure h
      · next hcurrent =>
        rw [if_neg hcurrent] at h
        refine Leaves.check (hcheck _ nofun) (Leaves.read ?_)
        split
        · next hnone =>
          rw [hnone] at h
          exact Leaves.pure h
        · next claim hclaim =>
          rw [hclaim] at h
          dsimp only at h
          split
          · next hheard =>
            rw [if_pos hheard] at h
            exact Leaves.pure h
          · next hfired =>
            rw [if_neg hfired] at h
            refine Leaves.check (hcheck _ nofun) (Leaves.read ?_)
            split
            · next hacked =>
              dsimp only at h
              rw [if_pos hacked] at h
              exact (leaves_markAcknowledgedOn o h).bind_leaves fun _ _ hP => Leaves.pure hP
            · next hunacked =>
              dsimp only at h
              rw [if_neg hunacked, ← memory_remove] at h
              show wp (onBook (·.remove runId) >>= _) _ _ r
              rw [wp_bind, wp_onBook]
              refine Leaves.check (.inl h) (Leaves.bind (onStore_forgets _) h fun _ r₁ h₁ => ?_)
              refine Leaves.bind (onStore_forgets _) (h₁ ▸ h) fun _ r₂ h₂ => ?_
              exact Leaves.pure (h₂ ▸ h₁ ▸ h)

theorem leaves_expireWatchdogOneInnerOn (ho : P r.memory ∨ o = .atCommit)
    (h : match r.store.lapsedWatchdog timer runId with
      | some _ => P ((r.memory.drop runId).dropAnchor runId)
      | none => P r.memory) :
    Leaves P (expireWatchdogOneInnerOn o timer runId nowWall monoNow) r := by
  have hcheck (call : DbCall) (hcall : call ≠ .commit) :
      P r.memory ∨ o = .atCommit ∧ call ≠ .commit := ho.imp_right fun he => ⟨he, hcall⟩
  unfold expireWatchdogOneInnerOn
  unfold Store.lapsedWatchdog at h
  refine Leaves.check (hcheck _ nofun) (Leaves.read ?_)
  split
  · next hnone =>
    rw [hnone] at h
    exact Leaves.pure h
  · next row hrow =>
    rw [hrow] at h
    dsimp only at h
    split
    · next hunarmed =>
      rw [if_pos hunarmed] at h
      exact Leaves.pure h
    · next harmed =>
      rw [if_neg harmed] at h
      split
      · next hclosed =>
        rw [if_pos hclosed] at h
        exact Leaves.pure h
      · next hopen =>
        rw [if_neg hopen] at h
        refine Leaves.check (hcheck _ nofun) (Leaves.read ?_)
        split
        · next hold =>
          rw [if_pos hold] at h
          exact Leaves.pure h
        · next hcurrent =>
          rw [if_neg hcurrent] at h
          refine Leaves.check (hcheck _ nofun) (Leaves.read ?_)
          split
          · next hnone =>
            rw [hnone] at h
            exact Leaves.pure h
          · next claim hclaim =>
            rw [hclaim, ← memory_remove] at h
            show wp (onBook (·.remove runId) >>= _) _ _ r
            rw [wp_bind, wp_onBook]
            refine Leaves.bind_wp (memory_durationMs _ runId row.firedAt nowWall monoNow)
              (fun _ _ hf => hf.elim) fun d r₁ h₁ => ?_
            have hP : P r₁.memory := h₁ ▸ h
            refine Leaves.check (.inl hP) (Leaves.bind (onStore_forgets _) hP fun _ r₂ h₂ => ?_)
            refine Leaves.bind (onStore_forgets _) (h₂ ▸ hP) fun _ r₃ h₃ => ?_
            exact Leaves.pure (h₃ ▸ h₂ ▸ hP)

end Deadlines

section Fires

variable {P : Memory → Prop} {r : ReplyState} {cfg : FireConfig} {f : Firing} {o : Outage}

/-- The row and the state of the reply that the barrier found, if it is
accepted. -/
def Firing.acceptedReply (f : Firing) (s : Store) (prev : Option RunClaim) :
    Option (ReplyDocument × String × RunStateRow × RunState) :=
  match prev, f.barrier with
  | some prev, some (doc, digest) =>
    (s.acceptedReply f.timer doc digest f.now (some prev.runId)).map fun a => (doc, digest, a)
  | _, _ => none

theorem wp_prepareOn {Q : Firing → ReplyState → Prop} {E : Abort → ReplyState → Prop}
    (ho : (∀ e, E e r) ∨ o = .atCommit)
    (hQ : Q { f with
      owner := r.store.getTimerOwner f.timer.id
      prev := (r.store.runsForTimer f.timer.id).getLast? } r) :
    wp (prepareOn o f) Q E r := by
  have hcheck (call : DbCall) (hcall : call ≠ .commit) :
      (∀ e, E e r) ∨ o = .atCommit ∧ call ≠ .commit := ho.imp_right fun he => ⟨he, hcall⟩
  unfold prepareOn
  rw [wp_bind]
  refine wp_check (hcheck _ nofun) ?_
  rw [wp_bind, wp_read, wp_bind]
  exact wp_check (hcheck _ nofun) hQ

theorem leaves_barrierIngestOn (ho : P r.memory ∨ o = .atCommit)
    (h : match f.acceptedReply r.store f.prev with
      | some (doc, digest, row, newState) => ∀ claim, Leaves P
          (applyOn o cfg.reply f.timer claim row doc newState digest f.now f.monoNow f.utc) r
      | none => P r.memory) :
    Leaves P (barrierIngestOn o cfg f) r := by
  unfold barrierIngestOn
  unfold Firing.acceptedReply at h
  split
  · next prev doc digest hprev hbarrier =>
    rw [hprev, hbarrier] at h
    dsimp only at h
    refine Leaves.bind_leaves (leaves_ingestInnerOn o ho ?_) fun outcome r₁ hP => ?_
    · revert h
      cases r.store.acceptedReply f.timer doc digest f.now (some prev.runId) <;> exact id
    · split
      · exact Leaves.check (.inl hP) (Leaves.of_forgets (onStore_forgets _) hP)
      · exact Leaves.pure hP
  · next hnone =>
    split at h
    · next hsome =>
      split at hsome
      · next prev doc digest hprev hbarrier => exact absurd hbarrier (hnone prev doc digest hprev)
      · cases hsome
    · exact Leaves.pure h

/-- The barrier apart, the transaction of a fire does not touch the memory. -/
theorem leaves_fireBody (h : Leaves P (barrierIngestOn o cfg f) r) :
    Leaves P (do
      barrierIngestOn o cfg f
      o.check .supersedePrevious
      let superseded ← onStore (supersedePrevious f.timer f.owner f.prev f.utc)
      o.check .claimRun
      let claim ← onStore (claimRunConn f.timer.id f.scheduledFor f.utc)
      o.check .enqueueEvent
      onStore (emit (fireState f.kind) f.utc (.ofRun f.timer claim) f.kind.note)
      o.check .applyOverlap
      let claim ← onStore (applyOverlapDisposition f.timer claim f.utc)
      o.check .openLifecycle
      onStore (openLifecycle cfg f claim)
      return (claim, superseded)) r := by
  refine h.bind_leaves fun _ r₁ h₁ => Leaves.check (.inl h₁) ?_
  refine Leaves.bind (onStore_forgets _) h₁ fun _ r₂ e₂ => ?_
  have h₂ : P r₂.memory := e₂ ▸ h₁
  refine Leaves.check (.inl h₂) (Leaves.bind (onStore_forgets _) h₂ fun _ r₃ e₃ => ?_)
  have h₃ : P r₃.memory := e₃ ▸ h₂
  refine Leaves.check (.inl h₃) (Leaves.bind (onStore_forgets _) h₃ fun _ r₄ e₄ => ?_)
  have h₄ : P r₄.memory := e₄ ▸ h₃
  refine Leaves.check (.inl h₄) (Leaves.bind (onStore_forgets _) h₄ fun _ r₅ e₅ => ?_)
  have h₅ : P r₅.memory := e₅ ▸ h₄
  refine Leaves.check (.inl h₅) (Leaves.bind (onStore_forgets _) h₅ fun _ r₆ e₆ => ?_)
  exact Leaves.pure (e₆ ▸ h₅)

end Fires

/-! ### What a failed operation leaves -/

/-- The operation has nothing to change in the memory. -/
def LifecycleCall.KeepsMemory (cfg : FireConfig) (r : ReplyState) : LifecycleCall → Prop
  | ingest timer doc digest nowWall monoNow _ =>
    ∀ row newState, r.store.acceptedReply timer doc digest nowWall none = some (row, newState) →
      doc.KeepsMemory cfg.reply row newState nowWall monoNow r.memory
  | onAckThrough timer throughSequence _ =>
    ∀ row claim, r.store.cursorPickup timer throughSequence = some (row, claim) →
      ∀ d ∈ r.memory.countdown row.runId, d.kind ≠ .pickup
  | expirePickup timer runId _ =>
    ∀ row claim, r.store.lapsedPickup timer runId = some (row, claim) →
      if claim.eventSequence ≤ r.store.lastAckedSequence timer.id then
        ∀ d ∈ r.memory.countdown row.runId, d.kind ≠ .pickup
      else r.memory.countdown runId = none
  | expireWatchdog timer runId _ _ =>
    (r.store.lapsedWatchdog timer runId).isSome →
      r.memory.countdown runId = none ∧ r.memory.anchor runId = none
  | fire f =>
    ∀ doc digest row newState,
      f.acceptedReply r.store (r.store.runsForTimer f.timer.id).getLast? =
        some (doc, digest, row, newState) →
      doc.KeepsMemory cfg.reply row newState f.now f.monoNow r.memory

section Calls

variable {cfg : FireConfig} {r : ReplyState}

/-- Whatever fails, an operation that has nothing to change leaves the
memory as it is. -/
theorem leaves_of_keepsMemory {c : LifecycleCall} (o : Outage) (h : c.KeepsMemory cfg r) :
    Leaves (· = r.memory) (c.upToCommit cfg o) r := by
  cases c with
  | ingest timer doc digest nowWall monoNow utc =>
    refine Leaves.bind_leaves (Leaves.inTx o rfl (leaves_ingestInnerOn o (.inl rfl) ?_))
      fun _ _ hP => Leaves.pure hP
    split
    · next row newState hacc => exact fun claim => leaves_applyOn_of_keeps o (h row newState hacc)
    · rfl
  | onAckThrough timer throughSequence nowWall =>
    refine Leaves.bind_leaves (wp_onAckThroughOn (.inl fun _ => rfl) ?_)
      fun _ _ hP => Leaves.pure hP
    split
    · next row claim hpick =>
      have hmark : Leaves (· = r.memory) (markAcknowledgedOn o timer claim row nowWall) r :=
        leaves_markAcknowledgedOn o (Memory.dropKind_eq_iff.mpr (h row claim hpick))
      exact Leaves.inTx (P := (· = r.memory)) o rfl hmark
    · rfl
  | expirePickup timer runId nowWall =>
    refine Leaves.bind_leaves (Leaves.inTx o rfl (leaves_expirePickupOneInnerOn (.inl rfl) ?_))
      fun _ _ hP => Leaves.pure hP
    split
    · next row claim hlapsed =>
      have hrow := h row claim hlapsed
      split
      · next hacked =>
        rw [if_pos hacked] at hrow
        exact Memory.dropKind_eq_iff.mpr hrow
      · next hunacked =>
        rw [if_neg hunacked] at hrow
        exact Memory.drop_eq_iff.mpr hrow
    · rfl
  | expireWatchdog timer runId nowWall monoNow =>
    refine Leaves.bind_leaves (Leaves.inTx o rfl (leaves_expireWatchdogOneInnerOn (.inl rfl) ?_))
      fun _ _ hP => Leaves.pure hP
    split
    · next row hlapsed =>
      obtain ⟨hcount, hanchor⟩ := h (by rw [hlapsed]; rfl)
      rw [Memory.drop_eq_iff.mpr hcount, Memory.dropAnchor_eq_iff.mpr hanchor]
    · rfl
  | fire f =>
    show wp (prepareOn o f >>= _) _ _ r
    rw [wp_bind]
    refine wp_prepareOn (.inl ?_) ?_
    · exact fun _ => rfl
    refine Leaves.bind_leaves (P := (· = r.memory)) (Leaves.inTx o rfl (leaves_fireBody
      (leaves_barrierIngestOn (.inl rfl) ?_))) fun _ _ hP => Leaves.pure hP
    split
    · next doc digest row newState hacc =>
      exact fun claim => leaves_applyOn_of_keeps o (h doc digest row newState hacc)
    · rfl

/-- When its commit fails, an operation that has something to change leaves
the memory changed. -/
theorem changed_of_not_keepsMemory {c : LifecycleCall} (h : ¬c.KeepsMemory cfg r) :
    wp (c.upToCommit cfg .atCommit) (fun _ _ => False) (fun _ r' => r'.memory ≠ r.memory) r := by
  cases c with
  | ingest timer doc digest nowWall monoNow utc =>
    simp only [LifecycleCall.KeepsMemory, not_forall] at h
    obtain ⟨row, newState, hacc, hnot⟩ := h
    show wp (_ >>= _) _ _ r
    rw [wp_bind]
    refine Leaves.atCommit (P := (· ≠ r.memory)) (leaves_ingestInnerOn .atCommit (.inr rfl) ?_)
    rw [hacc]
    exact fun claim => leaves_applyOn_of_not_keeps hnot
  | onAckThrough timer throughSequence nowWall =>
    simp only [LifecycleCall.KeepsMemory, not_forall] at h
    obtain ⟨row, claim, hpick, d, hd, hkind⟩ := h
    show wp (_ >>= _) _ _ r
    rw [wp_bind]
    refine wp_onAckThroughOn (.inr rfl) ?_
    rw [hpick]
    exact Leaves.atCommit (P := (· ≠ r.memory)) (leaves_markAcknowledgedOn .atCommit
      fun he => hkind (Memory.dropKind_eq_iff.mp he d hd))
  | expirePickup timer runId nowWall =>
    simp only [LifecycleCall.KeepsMemory, not_forall] at h
    obtain ⟨row, claim, hlapsed, hnot⟩ := h
    show wp (_ >>= _) _ _ r
    rw [wp_bind]
    refine Leaves.atCommit (P := (· ≠ r.memory)) (leaves_expirePickupOneInnerOn (.inr rfl) ?_)
    rw [hlapsed]
    dsimp only
    split
    · next hacked =>
      rw [if_pos hacked] at hnot
      exact fun he => hnot (Memory.dropKind_eq_iff.mp he)
    · next hunacked =>
      rw [if_neg hunacked] at hnot
      exact fun he => hnot (Memory.drop_eq_iff.mp he)
  | expireWatchdog timer runId nowWall monoNow =>
    obtain ⟨hlapsed, hnot⟩ := Classical.not_imp.mp h
    obtain ⟨row, hrow⟩ := Option.isSome_iff_exists.mp hlapsed
    show wp (_ >>= _) _ _ r
    rw [wp_bind]
    refine Leaves.atCommit (P := (· ≠ r.memory)) (leaves_expireWatchdogOneInnerOn (.inr rfl) ?_)
    rw [hrow]
    intro he
    apply hnot
    rw [← he]
    exact ⟨Function.update_self .., Function.update_self ..⟩
  | fire f =>
    simp only [LifecycleCall.KeepsMemory, not_forall] at h
    obtain ⟨doc, digest, row, newState, hacc, hnot⟩ := h
    show wp (prepareOn .atCommit f >>= _) _ _ r
    rw [wp_bind]
    apply wp_prepareOn (.inr rfl)
    rw [wp_bind]
    refine Leaves.atCommit (P := (· ≠ r.memory)) (leaves_fireBody
      (leaves_barrierIngestOn (.inr rfl) ?_))
    show match f.acceptedReply r.store (r.store.runsForTimer f.timer.id).getLast? with
      | some (doc, digest, row, newState) => _
      | none => _
    rw [hacc]
    exact fun claim => leaves_applyOn_of_not_keeps hnot

/-- **Failed transactions and the memory.**  An operation leaves the memory
as it was however its transaction fails, if and only if it has nothing to
change there. -/
theorem memory_kept_iff (cfg : FireConfig) (c : LifecycleCall) (r : ReplyState) :
    (∀ o e r', (c.upToCommit cfg o).run r = (.error e, r') → r'.memory = r.memory) ↔
      c.KeepsMemory cfg r := by
  constructor
  · intro hall
    by_contra hnot
    have hchanged := changed_of_not_keepsMemory hnot
    rcases hrun : (c.upToCommit cfg .atCommit).run r with ⟨e | a, r'⟩
    · exact wp_error hchanged hrun (hall _ e r' hrun)
    · exact wp_ok hchanged hrun
  · intro hkeeps o e r' hrun
    exact wp_error (leaves_of_keepsMemory o hkeeps) hrun

end Calls

section Sample

attribute [local instance] Calendar.utcOnly

/-- The app answers, and the commit of its reply fails. -/
def answerLost : ReplyM Unit :=
  LifecycleCall.upToCommit .sample .atCommit
    (.ingest (.sample .skip) (.watched 3600) "first" (61 * NS) (61 * NS) (61 * NS))

/-- The pickup countdown of the run has become a watchdog. -/
theorem memory_not_kept :
    ¬∀ (tr : List (System.Event ReplyState Commit)) (r : ReplyState),
      (ledger .sample).Run {} tr r → ∀ (c : LifecycleCall) (o : Outage) (e : Abort)
        (r' : ReplyState), (c.upToCommit .sample o).run r = (.error e, r') →
          r'.memory = r.memory := by
  intro h
  let r := awaitingApp.foldl (fun r c => Commit.after .sample c r) {}
  have herror : (answerLost.run r).1 = .error (.error (.sqlite "disk I/O error")) := by
    decide +kernel
  have hsame := h _ r (run_commits .sample awaitingApp) _ .atCommit _ (answerLost.run r).2
    (Prod.ext herror rfl)
  have hbefore : (r.memory.countdown ⟨1⟩).map (·.kind) = some .pickup := by decide +kernel
  have hafter : ((answerLost.run r).2.memory.countdown ⟨1⟩).map (·.kind) = some .watchdog := by
    decide +kernel
  rw [hsame, hbefore] at hafter
  cases hafter

/-- The row still waits for its pickup, and the passes never see it. -/
example :
    let r := (answerLost.run (awaitingApp.foldl (fun r c => Commit.after .sample c r) {})).2
    (r.store.getRunState ⟨1⟩).bind (·.pickupDeadline) = some (120 * NS) ∧
      (((syncDeadlineBook (200 * NS) (200 * NS)).run r).2.book.dueDeadlines .pickup
        (200 * NS)) = [] := by
  decide +kernel

end Sample

end Bellman

/-
Bellman/Overlap.lean

What a fire does to the run ledger.

The overlap disposition only rewrites rows in place, so the whole fire
transaction is

    runs after = (runs before ++ [claim]).map (dispose …)

where `dispose` finishes the new claim, finishes or cancels the older ones
of its timer, or does nothing, as the policy says.  `Rewrites f` is the
relation "the rows went through `f`, the timers are the same, and the
outcomes are accounted for"; it composes, and each step of the disposition
is in it.

Main result: `fireTx_spec`.
-/
import Bellman.Ledger

namespace Bellman

open ProgramLogic Prog ReplyM

/-! ### Rewriting the rows -/

/-- The rows went through `f`, and nothing else but the log changed that
the ledger depends on. -/
structure Rewrites (f : RunClaim → RunClaim) (s s' : Store) : Prop where
  runs : s'.runs = s.runs.map f
  timers : s'.timers = s.timers
  audit : Audit s s'

theorem Rewrites.refl {s : Store} (h : s.Wf) : Rewrites id s s :=
  ⟨by simp, rfl, Std.Refl.refl (r := Audited) s h⟩

theorem Rewrites.trans {f g : RunClaim → RunClaim} {s s' s'' : Store} (hs : s.Wf)
    (h : Rewrites f s s') (h' : Rewrites g s' s'') : Rewrites (g ∘ f) s s'' :=
  ⟨by rw [h'.runs, h.runs, List.map_map], h'.timers.trans h.timers,
    IsTrans.trans (r := Audited) s s' s'' (fun _ => h.audit) (fun _ => h'.audit) hs⟩

theorem Rewrites.congr {f g : RunClaim → RunClaim} {s s' : Store} (h : Rewrites f s s')
    (hfg : ∀ r ∈ s.runs, f r = g r) : Rewrites g s s' :=
  ⟨by rw [h.runs, List.map_congr_left hfg], h.timers, h.audit⟩

/-- A statement that finishes no row. -/
theorem Rewrites.of_map {s : Store} (hs : s.Wf) {f : RunClaim → RunClaim}
    (hf : ∀ r, (f r).key = r.key) (hfin : ∀ r, r.status = .finished → f r = r)
    (hopen : ∀ r, r.status ≠ .finished →
      (f r).status ≠ .finished ∧ (f r).outcome = r.outcome) :
    Rewrites f s { s with runs := s.runs.map f } :=
  ⟨rfl, rfl, Audited.of_map hf hfin hopen hs⟩

theorem Rewrites.getRun {f : RunClaim → RunClaim} {s s' : Store} (h : Rewrites f s s')
    (hf : ∀ r, (f r).key = r.key) (run : Uuid) : s'.getRun run = (s.getRun run).map f := by
  rw [← Store.getRun_map (s := s) hf run]
  unfold Store.getRun
  rw [h.runs]

section Disposition

variable {s : Store} {E : Abort → Store → Prop}

/-- Finishing a claim with its event, when it is open; nothing otherwise. -/
theorem wp_finish_emit {Q : Unit → Store → Prop} (hs : s.Wf) {run : Uuid}
    {outcome : RunOutcome} {reason : Option String} {now : Int} {subject : EventSubject}
    {note : EventNote} (hrun : subject.runId = some run)
    (hQ : ∀ s', Rewrites (finishRow run outcome reason now) s s' → Q () s') :
    wp (do if ← finishRunConn run outcome reason now then
              emit outcome.event now subject note
            else return () : StoreM Unit) Q E s := by
  have hwf := hs.finish run outcome reason now
  rw [wp_bind, wp_finishRunConn hs]
  by_cases ho : s.isOpen run = true
  · rw [if_pos ho, wp_emit hwf]
    exact hQ _ ⟨rfl, rfl, Audited.of_finish ho outcome reason now rfl rfl hrun hs⟩
  · rw [if_neg ho, wp_pure]
    have heq := hs.map_finishRow_eq (by simpa using ho) outcome reason now
    refine hQ _ ⟨rfl, rfl, ?_⟩
    rw [heq]
    exact Std.Refl.refl (r := Audited) s hs

theorem wp_finishLogged {Q : Unit → Store → Prop} (hs : s.Wf) {timer : Timer}
    {claim : RunClaim} {outcome : RunOutcome} {reason : String} {utc : Int}
    (hQ : ∀ s', Rewrites (finishRow claim.runId outcome (some reason) utc) s s' → Q () s') :
    wp (finishLogged timer claim outcome reason utc) Q E s :=
  wp_finish_emit hs rfl hQ

/-- The rows after the finish of several claims. -/
def finishRows (utc : Int) (ps : List RunClaim) (r : RunClaim) : RunClaim :=
  if r.isUnfinished && ps.any (·.runId == r.runId) then
    r.finish .wakeFailed (some "overlap_replace_before_start") utc
  else r

theorem finishRows_cons (utc : Int) (p : RunClaim) (ps : List RunClaim) :
    finishRows utc ps ∘ finishRow p.runId .wakeFailed (some "overlap_replace_before_start") utc =
      finishRows utc (p :: ps) := by
  funext r
  unfold finishRows finishRow
  by_cases hu : r.isUnfinished = true
  · by_cases hp : r.runId = p.runId
    · simp [hu, hp]
    · have hp' : ¬p.runId = r.runId := fun e => hp e.symm
      simp [hu, hp, hp']
  · simp [hu]

theorem wp_replacePending {timer : Timer} {utc : Int} (ps : List RunClaim)
    {Q : Unit → Store → Prop} (hs : s.Wf)
    (hQ : ∀ s', Rewrites (finishRows utc ps) s s' → Q () s') :
    wp (replacePending timer utc ps) Q E s := by
  induction ps generalizing s Q with
  | nil =>
    refine hQ s ((Rewrites.refl hs).congr fun r _ => ?_)
    simp [finishRows]
  | cons p ps ih =>
    unfold replacePending
    rw [wp_bind]
    refine wp_finishLogged hs fun s₁ h₁ => ih h₁.audit.wf fun s₂ h₂ => hQ s₂ ?_
    rw [← finishRows_cons]
    exact h₁.trans hs h₂

/-- What a Replace fire does to the rows: the older pending claims of the
timer are finished, the active ones are asked to cancel. -/
def replaceRow (timerId new : Uuid) (utc : Int) (r : RunClaim) : RunClaim :=
  if r.timerId = timerId ∧ r.runId ≠ new then
    match r.status with
    | .pending => r.finish .wakeFailed (some "overlap_replace_before_start") utc
    | .active => { r with cancelRequested := true }
    | .finished => r
  else r

theorem key_replaceRow (timerId new : Uuid) (utc : Int) (r : RunClaim) :
    (replaceRow timerId new utc r).key = r.key := by
  unfold replaceRow
  split
  · split <;> rfl
  · rfl

theorem mem_pendingClaimsForTimer {timerId exclude : Uuid} {r : RunClaim} :
    r ∈ s.pendingClaimsForTimer timerId exclude ↔
      r ∈ s.runs ∧ r.timerId = timerId ∧ r.runId ≠ exclude ∧ r.status = .pending := by
  unfold Store.pendingClaimsForTimer
  simp [and_assoc]

/-- The cancel request on the rows. -/
def cancelRow (timerId exclude : Uuid) (r : RunClaim) : RunClaim :=
  if r.timerId == timerId && r.runId != exclude && r.status == .active then
    { r with cancelRequested := true }
  else r

theorem requestCancelActive_rewrites (hs : s.Wf) (timerId exclude : Uuid)
    {Q : List Uuid → Store → Prop}
    (hQ : ∀ ids s', Rewrites (cancelRow timerId exclude) s s' → Q ids s') :
    wp (requestCancelActiveConn timerId exclude) Q E s := by
  unfold requestCancelActiveConn
  rw [wp_bind, wp_get, wp_bind, wp_updateRuns, wp_pure]
  refine hQ _ _ (Rewrites.of_map hs (f := cancelRow timerId exclude)
    (key_ite (f := fun r => { r with cancelRequested := true }) fun _ => rfl) ?_ ?_)
  · intro r hr
    simp [cancelRow, hr]
  · intro r hr
    unfold cancelRow
    split
    · exact ⟨hr, rfl⟩
    · exact ⟨hr, rfl⟩

/-- Finishing the pending claims and then asking the active ones to cancel
is `replaceRow`, on the rows that were there. -/
theorem cancelRow_finishRows (hs : s.Wf) (timerId new : Uuid) (utc : Int) {r : RunClaim}
    (hr : r ∈ s.runs) :
    cancelRow timerId new (finishRows utc (s.pendingClaimsForTimer timerId new) r) =
      replaceRow timerId new utc r := by
  have hany : (s.pendingClaimsForTimer timerId new).any (·.runId == r.runId) = true ↔
      r.timerId = timerId ∧ r.runId ≠ new ∧ r.status = .pending := by
    rw [List.any_eq_true]
    constructor
    · rintro ⟨q, hq, he⟩
      obtain ⟨hq, h⟩ := mem_pendingClaimsForTimer.mp hq
      obtain rfl := hs.eq_of_runId hq hr (by simpa using he)
      exact h
    · exact fun h => ⟨r, mem_pendingClaimsForTimer.mpr ⟨hr, h⟩, by simp⟩
  unfold finishRows replaceRow cancelRow
  by_cases ht : r.timerId = timerId ∧ r.runId ≠ new
  · cases hst : r.status with
    | pending =>
      have h := hany.mpr ⟨ht.1, ht.2, hst⟩
      simp [RunClaim.isUnfinished, hst, h, ht.1, ht.2, RunClaim.finish]
    | active =>
      have h := hany.not.mpr fun h => by simp [hst] at h
      simp [h, hst, ht.1, ht.2]
    | finished => simp [RunClaim.isUnfinished, hst, ht.1, ht.2]
  · have h := hany.not.mpr fun h => ht ⟨h.1, h.2.1⟩
    rw [if_neg ht, if_neg (c := (r.isUnfinished && _) = true) (by simp [h])]
    refine if_neg ?_
    simp only [Bool.and_eq_true, beq_iff_eq, bne_iff_ne]
    exact fun h' => ht h'.1

/-- What the overlap disposition does to the rows, where `older` executable
claims of the timer came before the new one. -/
def dispose (timer : Timer) (new : Uuid) (older : Nat) (utc : Int) (r : RunClaim) : RunClaim :=
  if timer.overlap = .replace then replaceRow timer.id new utc r
  else
    match skipReason timer.overlap older with
    | none => r
    | some reason => finishRow new .skippedMisfire (some reason) utc r

theorem key_dispose (timer : Timer) (new : Uuid) (older : Nat) (utc : Int) (r : RunClaim) :
    (dispose timer new older utc r).key = r.key := by
  unfold dispose
  split
  · exact key_replaceRow timer.id new utc r
  · split
    · rfl
    · exact key_finishRow new _ _ utc r

theorem applyOverlapDisposition_spec (hs : s.Wf) {timer : Timer} {claim : RunClaim}
    (hmem : claim ∈ s.runs) (hopen : claim.isUnfinished = true) (utc : Int) :
    wp (applyOverlapDisposition timer claim utc)
      (fun c s' =>
        let f := dispose timer claim.runId (s.unfinishedClaimsCount timer.id claim.runId) utc
        c = f claim ∧ Rewrites f s s')
      (fun _ _ => False) s := by
  unfold applyOverlapDisposition
  by_cases hrep : timer.overlap = .replace
  · have hf : ∀ n, dispose timer claim.runId n utc = replaceRow timer.id claim.runId utc :=
      fun n => funext fun r => if_pos hrep
    simp only [hf, if_pos hrep, wp_bind, wp_get]
    refine wp_replacePending _ hs fun s₁ h₁ => ?_
    refine requestCancelActive_rewrites h₁.audit.wf _ _ fun ids s₂ h₂ => ?_
    rw [wp_pure]
    refine ⟨by simp [replaceRow], (h₁.trans hs h₂).congr fun r hr => ?_⟩
    exact cancelRow_finishRows hs timer.id claim.runId utc hr
  · rw [if_neg hrep, wp_bind, wp_get]
    cases hskip : skipReason timer.overlap (s.unfinishedClaimsCount timer.id claim.runId) with
    | none =>
      have hf : dispose timer claim.runId (s.unfinishedClaimsCount timer.id claim.runId) utc =
          id := funext fun r => by simp [dispose, hrep, hskip]
      simp only [hf, wp_pure]
      exact ⟨rfl, Rewrites.refl hs⟩
    | some reason =>
      have hf : dispose timer claim.runId (s.unfinishedClaimsCount timer.id claim.runId) utc =
          finishRow claim.runId .skippedMisfire (some reason) utc :=
        funext fun r => by simp [dispose, hrep, hskip]
      have hget := hs.getRun_of_mem hmem
      have ho : s.isOpen claim.runId = true := Store.isOpen_iff.mpr ⟨claim, hget, hopen⟩
      have hwf := hs.finish claim.runId .skippedMisfire (some reason) utc
      have hget' := Store.getRun_map (s := s)
        (key_finishRow claim.runId .skippedMisfire (some reason) utc) claim.runId
      simp only [hf, wp_bind]
      rw [wp_finishRunConn hs, wp_emit hwf, wp_get, wp_pure]
      refine ⟨?_, rfl, rfl, Audited.of_finish ho .skippedMisfire (some reason) utc rfl rfl rfl hs⟩
      refine (congrArg (Option.getD · claim) hget').trans ?_
      rw [hget, Option.map_some, Option.getD_some]

end Disposition

/-! ### The fire transaction -/

/-- The executable claims of a timer. -/
def Store.openClaims (s : Store) (timerId : Uuid) : List RunClaim :=
  s.runs.filter fun r => r.timerId == timerId && r.isUnfinished

/-- What a committed fire did: the slot was free, a claim with a fresh id
went in, and the disposition went over the rows. -/
structure Fired (f : Firing) (c : RunClaim) (s s' : Store) : Prop where
  slot : s.getClaimFor f.timer.id f.scheduledFor = none
  ledger : ∃ u, (∀ r ∈ s.runs, r.runId ≠ u) ∧
    c = dispose f.timer u (s.openClaims f.timer.id).length f.utc
      (s.newClaim u f.timer.id f.scheduledFor f.utc) ∧
    s'.runs = (s.runs ++ [s.newClaim u f.timer.id f.scheduledFor f.utc]).map
      (dispose f.timer u (s.openClaims f.timer.id).length f.utc)
  timers : s'.timers = s.timers
  audit : Audit s s'

/-- With the fresh claim left out, the executable claims of the timer are
those from before. -/
theorem unfinishedClaimsCount_append {s : Store} {u timerId : Uuid} {c : RunClaim}
    (hu : ∀ r ∈ s.runs, r.runId ≠ u) (hc : c.runId = u) :
    ({ s with runs := s.runs ++ [c] } : Store).unfinishedClaimsCount timerId u =
      (s.openClaims timerId).length := by
  unfold Store.unfinishedClaimsCount Store.openClaims
  rw [List.filter_append, List.length_append]
  have h : [c].filter (fun r => r.timerId == timerId && r.runId != u && r.isUnfinished) = [] := by
    simp [hc]
  rw [h, List.length_nil, Nat.add_zero]
  refine congrArg List.length (List.filter_congr fun r hr => ?_)
  rw [bne_iff_ne.mpr (hu r hr), Bool.and_true]

theorem openLifecycle_logs (cfg : FireConfig) (f : Firing) (claim : RunClaim) :
    Within (Logs fun s => (s.runs, s.timers)) (openLifecycle cfg f claim) := by
  unfold openLifecycle
  split
  · exact within_pure _
  · refine within_bind (orPanic_logs _ _) fun deadline => ?_
    refine within_bind ?_ fun _ => within_bind within_get fun s => ?_
    · exact (insertRunStateConn_logs _).mono fun s s' h =>
        ⟨Prod.ext h.runs_eq h.timers_eq, h.wf, h.events⟩
    · dsimp only
      split
      · exact within_throw _
      · exact within_modify fun _ => .of_silent rfl rfl rfl rfl

theorem not_isOutcome_fireState (kind : FireKind) : (fireState kind).isOutcome = false := by
  cases kind <;> rfl

/-- The disposition and the lifecycle of a claim that has just gone in. -/
theorem dispose_claim_spec (cfg : FireConfig) (f : Firing) {s : Store} {u : Uuid}
    (hs : ({ s with nextUuid := s.nextUuid + 1
                    runs := s.runs ++ [s.newClaim u f.timer.id f.scheduledFor f.utc] } :
      Store).Wf)
    (hu : ∀ r ∈ s.runs, r.runId ≠ u) :
    wp (do
        emit (fireState f.kind) f.utc
          (.ofRun f.timer (s.newClaim u f.timer.id f.scheduledFor f.utc)) f.kind.note
        let claim ← applyOverlapDisposition f.timer
          (s.newClaim u f.timer.id f.scheduledFor f.utc) f.utc
        openLifecycle cfg f claim
        return claim : StoreM RunClaim)
      (fun c s' =>
        let g := dispose f.timer u (s.openClaims f.timer.id).length f.utc
        let c₀ := s.newClaim u f.timer.id f.scheduledFor f.utc
        c = g c₀ ∧ s'.runs = (s.runs ++ [c₀]).map g ∧ s'.timers = s.timers ∧
          Audit { s with nextUuid := s.nextUuid + 1, runs := s.runs ++ [c₀] } s')
      (fun _ _ => True) { s with
        nextUuid := s.nextUuid + 1
        runs := s.runs ++ [s.newClaim u f.timer.id f.scheduledFor f.utc] } := by
  generalize hc₀ : s.newClaim u f.timer.id f.scheduledFor f.utc = c₀ at hs ⊢
  have hid : c₀.runId = u := by rw [← hc₀]; rfl
  have hopen : c₀.isUnfinished = true := by rw [← hc₀]; rfl
  simp only [wp_bind, wp_pure]
  refine (emit_logs (not_isOutcome_fireState f.kind) _ _ _).wp (fun _ s₁ h₁ => ?_)
    fun _ _ _ => trivial
  have h₁ := h₁.core_of_quiet
  have hruns₁ : s₁.runs = s.runs ++ [c₀] := h₁.runs_eq
  have hcount : s₁.unfinishedClaimsCount f.timer.id c₀.runId =
      (s.openClaims f.timer.id).length := by
    rw [hid, ← unfinishedClaimsCount_append hu hid]
    unfold Store.unfinishedClaimsCount
    rw [hruns₁]
  refine wp_mono (applyOverlapDisposition_spec (h₁.wf hs) (by simp [hruns₁]) hopen f.utc)
    (fun c s₂ h₂ => ?_) fun _ _ _ => trivial
  obtain ⟨hc, h₂⟩ := h₂
  rw [hcount, hid] at hc h₂
  refine (openLifecycle_logs cfg f c).wp (fun _ s₃ h₃ => ?_) fun _ _ _ => trivial
  obtain ⟨hruns₃, htimers₃⟩ := Prod.mk.inj h₃.same
  refine ⟨hc, ?_, ?_, ?_⟩
  · rw [hruns₃, h₂.runs, hruns₁]
  · rw [htimers₃, h₂.timers, h₁.timers_eq]
  · have a₁ : Audited _ s₁ := Audited.of_logs h₁ h₁.runs_eq
    have a₂ : Audited s₁ s₂ := fun _ => h₂.audit
    have a₃ : Audited s₂ s₃ := Audited.of_logs h₃ hruns₃
    exact IsTrans.trans (r := Audited) _ _ _ a₁ (IsTrans.trans (r := Audited) _ _ _ a₂ a₃) hs

/-- **The fire transaction.**  It commits a claim of a free slot and
disposes of the timer's executable claims, or it leaves the tables alone. -/
theorem fireTx_spec (cfg : FireConfig) (f : Firing) (r : ReplyState) (hs : r.store.Wf) :
    wp (fireTx cfg f) (fun out r' => Fired f out.1 r.store r'.store)
      (fun _ r' => r'.store = r.store) r := by
  unfold fireTx inTx
  rw [wp_transact]
  simp only [wp_bind, wp_pure, wp_onStore]
  refine (barrierIngest_logs cfg f).wp (fun _ r₁ h₁ => ?_) fun _ _ _ => trivial
  refine (supersedePrevious_logs f.timer f.owner f.prev f.utc).wp
    (fun superseded s₂ h₂ => ?_) fun _ _ _ => trivial
  have h₂ : Logs Store.core r.store s₂ := IsTrans.trans (r := Logs Store.core) _ _ _ h₁ h₂
  have hwf₂ := h₂.wf hs
  rw [wp_claimRunConn hwf₂]
  split
  · trivial
  · next hslot =>
    have hslot₂ : s₂.getClaimFor f.timer.id f.scheduledFor = none := by simpa using hslot
    have hu : ∀ q ∈ s₂.runs, q.runId ≠ ⟨s₂.nextUuid⟩ := fun q hq he =>
      Nat.lt_irrefl _ (he ▸ hwf₂.run_lt q hq)
    have hspec := dispose_claim_spec cfg f (hwf₂.claim f.utc hslot₂) hu
    simp only [wp_bind, wp_pure] at hspec
    refine wp_mono hspec (fun _ s₄ h₄ => ?_) fun _ _ _ => trivial
    refine wp_mono h₄ (fun c s₅ h₅ => ?_) fun _ _ _ => trivial
    refine wp_mono h₅ (fun _ s₆ h₆ => ?_) fun _ _ _ => trivial
    obtain ⟨hc, hruns, htimers, haudit⟩ := h₆
    have hnew : s₂.newClaim = r.store.newClaim := by
      unfold Store.newClaim Store.nextSequence
      rw [h₂.runs_eq]
    have hopen : s₂.openClaims = r.store.openClaims := by
      unfold Store.openClaims
      rw [h₂.runs_eq]
    have hget : s₂.getClaimFor = r.store.getClaimFor := by
      unfold Store.getClaimFor
      rw [h₂.runs_eq]
    rw [hnew, hopen] at hc hruns
    rw [h₂.runs_eq] at hruns hu
    rw [hget] at hslot₂
    refine ⟨hslot₂, ⟨⟨s₂.nextUuid⟩, hu, hc, hruns⟩, htimers.trans h₂.timers_eq, ?_⟩
    have a₂ : Audited r.store s₂ := Audited.of_logs h₂ h₂.runs_eq
    have a₃ := Audited.of_claim (s := s₂) f.utc (hget ▸ hslot₂)
    exact IsTrans.trans (r := Audited) _ _ _ (IsTrans.trans (r := Audited) _ _ _ a₂ a₃)
      (fun _ => haudit) hs

end Bellman

/-
Bellman/Provisional.lean

Bellman's own verdicts are provisional, and are only passed on the run that
is current.

`no_ack` says that nothing was heard of a run: neither a reply, nor the
slot feed's cursor.  Replies and deadlines come in any order around a new
fire, and what keeps the verdict honest is currentness: a row that is still
in the state of its fire belongs to the newest claim of its timer, because
the fire that claims a newer run closes it in the same transaction.

Main results: what currentness a row has in every state reached
(`rowOk_of_run`), and `provisional_verdicts`: `no_ack` is recorded only for
a run of which no valid reply was ingested and whose owner's cursor is
below it, and a late reply leaves every lifecycle field as it is.
-/
import Bellman.Rowless

namespace Bellman

open ProgramLogic Prog ReplyM

/-! ### Currentness of rows -/

/-- What the state of a row says about its run: a row in the state of its
fire is current and has no reply, a superseded one is not current. -/
structure RowOk (s : Store) (run : Uuid) (row : RunStateRow) : Prop where
  claimed : ∃ claim, s.getRun run = some claim ∧ claim.timerId = row.timerId
  fired : row.state.isFired = true → s.newest row.timerId = some run
  superseded : row.state = .superseded → s.newest row.timerId ≠ some run
  unanswered : row.replyDigest.isSome → row.state.isFired = false

theorem not_isFired_of_isTerminal {state : RunState} (h : state.isTerminal = true) :
    state.isFired = false := by
  cases state <;> first | rfl | cases h

theorem not_isFired_of_isAppWritable {state : RunState} (h : state.isAppWritable = true) :
    state.isFired = false ∧ state ≠ .superseded ∧ state ≠ .noAck := by
  cases state <;> first | exact ⟨rfl, by decide, by decide⟩ | cases h

section Moves

variable {c : Commit} {s : Store} {row row' : RunStateRow} {ls : List Line}

/-- A transition into the state of a fire is none; at most the digest of a
late reply is taken down. -/
theorem RowMove.isFired (h : RowMove c s row ls row') (hf : row'.state.isFired = true) :
    row.state.isFired = true ∧ (row'.replyDigest = row.replyDigest ∨
      ∃ timer claim, s.getRun row.runId = some claim ∧ claim.timerId = timer ∧
        s.newest timer ≠ some row.runId) := by
  cases h with
  | delivered _ => exact ⟨hf, .inl rfl⟩
  | late _ haddr hcur _ => exact ⟨hf, .inr ⟨_, _, haddr.claimed, haddr.ofTimer, hcur⟩⟩
  | replied _ _ haddr _ _ _ =>
    have hw := (not_isFired_of_isAppWritable (isAppWritable_of_validate haddr.valid)).1
    exact absurd (hf.symm.trans hw) (by decide)
  | closed hv _ => rcases hv with rfl | ⟨rfl, -⟩ <;> cases hf
  | _ => cases hf

/-- A row becomes superseded by a fire, while its run is current. -/
theorem RowMove.superseded (h : RowMove c s row ls row') (hs : row'.state = .superseded) :
    row.state = .superseded ∨ ∃ f, c = .fire f ∧ s.newest f.timer.id = some row.runId := by
  cases h with
  | delivered _ => exact .inl hs
  | late _ _ _ _ => exact .inl hs
  | replied _ _ haddr _ _ _ =>
    exact absurd hs (not_isFired_of_isAppWritable (isAppWritable_of_validate haddr.valid)).2.1
  | closed hv _ =>
    rcases hv with rfl | ⟨-, h⟩
    · cases hs
    · exact .inr h
  | _ => cases hs

theorem RowStory.isFired {run : Uuid} (h : RowStory c s run (some row) ls (some row'))
    (hf : row'.state.isFired = true) :
    row.state.isFired = true ∧ (row'.replyDigest = row.replyDigest ∨
      ∃ timer claim, s.getRun row.runId = some claim ∧ claim.timerId = timer ∧
        s.newest timer ≠ some row.runId) := by
  cases h with
  | still => exact ⟨hf, .inl rfl⟩
  | moved h => exact h.isFired hf
  | overtaken _ _ _ _ => cases hf

theorem RowStory.superseded {run : Uuid} (h : RowStory c s run (some row) ls (some row'))
    (hs : row'.state = .superseded) :
    row.state = .superseded ∨ ∃ f, c = .fire f ∧ s.newest f.timer.id = some row.runId := by
  cases h with
  | still => exact .inl hs
  | moved h => exact h.superseded hs
  | overtaken _ hf hcur _ => exact .inr ⟨_, hf, hcur⟩

end Moves

section

variable [Calendar] {cfg : FireConfig} {c : Commit} {r : ReplyState}

/-- The current runs stay, but for the timer whose fire has claimed. -/
theorem newest_after (cfg : FireConfig) (hs : r.store.Wf) (hg : c.Gated r.store) (timerId : Uuid) :
    (c.after cfg r).store.newest timerId = r.store.newest timerId ∨
      ∃ f claim, c = .fire f ∧ f.timer.id = timerId ∧ r.store.getRun claim.runId = none ∧
        (c.after cfg r).store.newest timerId = some claim.runId ∧
        FireStory f claim r.store (c.after cfg r).store := by
  cases c with
  | claimRun timerId scheduledFor now => exact hg.elim
  | fire f =>
    rcases Commit.fired cfg hs hg with hsame | ⟨claim, hfired, hstory⟩
    · rw [hsame]
      exact .inl rfl
    · by_cases ht : f.timer.id = timerId
      · refine .inr ⟨f, claim, rfl, ht, hfired.fresh, ?_, hstory⟩
        rw [hfired.newest_eq hs, if_pos ht]
      · rw [hfired.newest_eq hs, if_neg ht]
        exact .inl rfl
  | _ => exact .inl (Commit.newest_eq hs rfl timerId)

/-- One commit keeps what the states of rows say. -/
theorem RowOk.step (hs : r.store.Wf) (hg : c.Gated r.store) {run : Uuid} {row row' : RunStateRow}
    {ls : List Line} (hid : row.runId = run)
    (hstory : RowStory c r.store run (some row) ls (some row')) (h : RowOk r.store run row)
    (hrow' : (c.after cfg r).store.getRunState run = some row')
    (hrow : r.store.getRunState run = some row) : RowOk (c.after cfg r).store run row' := by
  obtain ⟨claim, hclaim, htimer⟩ := h.claimed
  obtain ⟨q, hq, hqt, -⟩ := hstory.kept
  obtain rfl := Option.some.inj hq
  -- The run is not the one that a fire claims.
  have hold : ∀ {u : Uuid}, r.store.getRun u = none → some u ≠ some run := by
    rintro u hu h
    obtain rfl := Option.some.inj h
    rw [hclaim] at hu
    cases hu
  refine ⟨?_, fun hf => ?_, fun hsup hnow => ?_, fun hdigest => ?_⟩
  · obtain ⟨claim', hclaim', hkey⟩ := Commit.getRun_key cfg c hs hclaim
    exact ⟨claim', hclaim', by rw [RunClaim.timerId_of_key hkey, htimer, hqt]⟩
  · have hcur := h.fired (hstory.isFired hf).1
    rw [← hqt] at hcur
    rcases newest_after cfg hs hg row'.timerId with hsame | ⟨f, _, rfl, ht, _, _, hfs⟩
    · rw [hsame, hcur]
    · have hterm := hfs.closes run row' (ht ▸ hcur) hrow'
      exact absurd (hf.symm.trans (not_isFired_of_isTerminal hterm)) (by decide)
  · rcases hstory.superseded hsup with hsup₀ | ⟨f, rfl, hcur⟩
    · have hne := h.superseded hsup₀
      rw [← hqt] at hne
      rcases newest_after cfg hs hg row'.timerId with hsame | ⟨_, _, _, _, hfresh, hnew, _⟩
      · exact hne (hsame ▸ hnow)
      · exact hold hfresh (hnew ▸ hnow)
    · rw [hid] at hcur
      have ht : f.timer.id = row.timerId := by
        obtain ⟨claim', hclaim', ht⟩ := hs.getRun_newest hcur
        obtain rfl := Option.some.inj (hclaim.symm.trans hclaim')
        exact ht.symm.trans htimer
      rcases Commit.fired cfg hs hg with hsame | ⟨claim', hfired, -⟩
      · rw [hsame, hrow] at hrow'
        obtain rfl := Option.some.inj hrow'
        exact h.superseded hsup (ht ▸ hcur)
      · rw [hqt, hfired.newest_eq hs, if_pos ht] at hnow
        exact hold hfired.fresh hnow
  · by_contra hf
    have hf := Bool.eq_true_of_not_eq_false hf
    obtain ⟨hf₀, hsame | ⟨timer, claim', hclaim', htimer', hne⟩⟩ := hstory.isFired hf
    · rw [hsame] at hdigest
      exact absurd (hf₀.symm.trans (h.unanswered hdigest)) (by decide)
    · rw [hid] at hclaim' hne
      obtain rfl := Option.some.inj (hclaim.symm.trans hclaim')
      exact hne (htimer' ▸ htimer ▸ h.fired hf₀)

/-- **Currentness**: in every state reached, each row says the truth about
its run. -/
theorem rowOk_of_run {tr : List (System.Event ReplyState Commit)} (h : (gated cfg).Run {} tr r) :
    ∀ run row, r.store.getRunState run = some row → RowOk r.store run row := by
  refine story_induction (J := fun _ r => ∀ run row, r.store.getRunState run = some row →
    RowOk r.store run row) h (fun run row hrow => by cases hrow) ?_
  intro tr r c _ hs hg hstory ih run row' hrow'
  have hrun := hstory run
  cases hrow : r.store.getRunState run with
  | some row =>
    rw [hrow, hrow'] at hrun
    exact (ih run row hrow).step hs hg (getRunState_mem hrow).2 hrun hrow' hrow
  | none =>
    -- A row that was not there is the row of a new claim.
    rw [hrow, hrow'] at hrun
    generalize linesOf run _ = ls at hrun
    cases hrun with
    | @opened f _ _ hf _ _ htimer _ hfired hdigest _ _ =>
      subst hf
      rcases Commit.fired cfg hs hg with hsame | ⟨claim, hclaimed, hfs⟩
      · rw [hsame, hrow] at hrow'
        cases hrow'
      · obtain rfl := hfs.fresh run hrow (by rw [hrow']; rfl)
        have hcur : (Commit.after cfg (.fire f) r).store.newest row'.timerId =
            some claim.runId := by
          rw [hclaimed.newest_eq hs, if_pos htimer.symm]
        refine ⟨⟨claim, hclaimed.claimed.1, hclaimed.claimed.2.trans htimer.symm⟩, fun _ => hcur,
          fun hsup => ?_, fun h => ?_⟩
        · rw [hsup] at hfired
          cases hfired
        · rw [hdigest] at h
          cases h

/-! ### Provisional verdicts -/

/-- The commit ingests a valid reply of the run: by itself, or in the
barrier of a fire that commits. -/
def Commit.answers (cfg : FireConfig) (c : Commit) (r : ReplyState) (run : Uuid) : Prop :=
  match c with
  | .ingest timer doc digest nowWall monoNow utc => doc.runId = some run ∧
      ∃ out r', (Bellman.ingest cfg.reply timer doc digest nowWall monoNow utc).run r =
        (.ok out, r') ∧ ∀ why, out ≠ .rejected why
  | .fire f => ∃ doc digest, f.barrier = some (doc, digest) ∧ doc.runId = some run ∧
      ∃ out r', (fireTx cfg f).run r = (.ok out, r')
  | _ => False

/-- The step records `no_ack` for the run. -/
def recordsNoAck (run : Uuid) (e : System.Event ReplyState Commit) : Prop :=
  (∀ row, e.pre.store.getRunState run = some row → row.state ≠ .noAck) ∧
    ∃ row, e.post.store.getRunState run = some row ∧ row.state = .noAck

/-- The run has a claim, and its row, if it has one, is past the state of
its fire. -/
def Heard (r : ReplyState) (run : Uuid) : Prop :=
  (r.store.getRun run).isSome ∧
    ∀ row, r.store.getRunState run = some row → row.state.isFired = false

/-- A run of which a valid reply is ingested has been heard of. -/
theorem heard_of_answers (hs : r.store.Wf) (hg : c.Gated r.store)
    (hok : ∀ run row, (c.after cfg r).store.getRunState run = some row →
      RowOk (c.after cfg r).store run row) {run : Uuid} (h : c.answers cfg r run) :
    Heard (c.after cfg r) run := by
  cases c with
  | ingest timer doc digest nowWall monoNow utc =>
    obtain ⟨hdoc, out, r', hrun, hout⟩ := h
    have hafter : (Commit.ingest timer doc digest nowWall monoNow utc).after cfg r = r' :=
      discard_run hrun
    rw [hafter] at hok ⊢
    -- The digest of the reply is in the row.
    obtain ⟨hclaim, hdigest⟩ := (wp_ok (ingest_ingested hs utc) hrun).1.remembered hout hdoc
    refine ⟨hclaim, fun row hrow => (hok run row hrow).unanswered ?_⟩
    rw [hdigest row hrow]
    rfl
  | fire f =>
    obtain ⟨doc, digest, hbarrier, hdoc, out, r', hrun⟩ := h
    have hafter : (Commit.fire f).after cfg r = r' := discard_run hrun
    -- The barrier's reply is the current run's, and the fire closes it.
    have hcur : r.store.newest f.timer.id = some run := hg.newest hbarrier hdoc
    obtain ⟨claim, hclaim, -⟩ := hs.getRun_newest hcur
    obtain ⟨claim', hclaim', -⟩ := Commit.getRun_key cfg (.fire f) hs hclaim
    refine ⟨by rw [hclaim']; rfl, fun row hrow => ?_⟩
    rw [hafter] at hrow
    exact not_isFired_of_isTerminal ((wp_ok (fireTx_story hs hg) hrun).closes run row hcur hrow)
  | _ => exact h.elim

/-- A run that has been heard of stays so. -/
theorem Heard.step (hs : r.store.Wf) {run : Uuid} {ls : List Line}
    (hstory : RowStory c r.store run (r.store.getRunState run) ls
      ((c.after cfg r).store.getRunState run)) (h : Heard r run) :
    Heard (c.after cfg r) run := by
  obtain ⟨hclaim, hrow⟩ := h
  obtain ⟨claim, hclaim⟩ := Option.isSome_iff_exists.mp hclaim
  obtain ⟨claim', hclaim', -⟩ := Commit.getRun_key cfg c hs hclaim
  refine ⟨by rw [hclaim']; rfl, fun row' hrow' => ?_⟩
  rw [hrow'] at hstory
  cases hbefore : r.store.getRunState run with
  | none =>
    rw [hbefore] at hstory
    cases hstory with
    | opened _ _ hnew _ _ _ _ _ _ =>
      rw [hclaim] at hnew
      cases hnew
  | some row =>
    rw [hbefore] at hstory
    by_contra hf
    have hf₀ := (hstory.isFired (Bool.eq_true_of_not_eq_false hf)).1
    rw [hrow row hbefore] at hf₀
    cases hf₀

/-- Of a run of which a valid reply was ingested, something was heard. -/
theorem heard_of_run {tr : List (System.Event ReplyState Commit)} (h : (gated cfg).Run {} tr r)
    {run : Uuid} (hans : ∃ d ∈ tr, d.label.answers cfg d.pre run) : Heard r run := by
  revert hans
  refine story_induction (J := fun tr r => (∃ d ∈ tr, d.label.answers cfg d.pre run) →
    Heard r run) h ?_ ?_
  · rintro ⟨d, hd, -⟩
    cases hd
  · rintro tr r c hrun hs hg hstory ih ⟨d, hd, hans⟩
    rcases List.mem_append.mp hd with hd | hd
    · exact (ih ⟨d, hd, hans⟩).step hs (hstory run)
    · obtain rfl := List.mem_singleton.mp hd
      exact heard_of_answers hs hg (rowOk_of_run (hrun.snoc ⟨hg, rfl⟩)) hans

omit [Calendar] in
/-- `no_ack` is recorded over a row in the state of its fire, while the
cursor is below the run. -/
theorem RowMove.noAck {row row' : RunStateRow} {ls : List Line}
    (h : RowMove c r.store row ls row') (hbefore : row.state ≠ .noAck)
    (hafter : row'.state = .noAck) :
    row.state.isFired = true ∧ ∃ claim, r.store.getRun row.runId = some claim ∧
      r.store.lastAckedSequence row.timerId < claim.eventSequence := by
  cases h with
  | missed _ _ htimer hfired hclaim hunacked =>
    exact ⟨hfired, _, hclaim, htimer ▸ hunacked⟩
  | delivered _ => exact absurd hafter hbefore
  | late _ _ _ _ => exact absurd hafter hbefore
  | replied _ _ haddr _ _ _ =>
    exact absurd hafter (not_isFired_of_isAppWritable (isAppWritable_of_validate haddr.valid)).2.2
  | closed hv _ => rcases hv with rfl | ⟨rfl, -⟩ <;> cases hafter
  | _ => cases hafter

/-- Bellman's `no_ack` is recorded only for a current run of which nothing
was heard, and a reply that comes late changes no lifecycle field. -/
structure ProvisionalVerdicts (cfg : FireConfig) (tr : List (System.Event ReplyState Commit)) :
    Prop where
  unanswered : ∀ before e after run, tr = before ++ e :: after → recordsNoAck run e →
    (∀ d ∈ before, ¬d.label.answers cfg d.pre run) ∧
    ∃ claim, e.pre.store.getRun run = some claim ∧
      e.pre.store.newest claim.timerId = some run ∧
      e.pre.store.lastAckedSequence claim.timerId < claim.eventSequence
  late : ∀ e ∈ tr, ∀ timer doc digest nowWall run,
    e.label.reply = some (timer, doc, digest, nowWall) → doc.runId = some run →
    e.pre.store.newest timer.id ≠ some run →
    ∀ run', (e.post.store.getRunState run').map RunStateRow.lifecycle =
      (e.pre.store.getRunState run').map RunStateRow.lifecycle

/-- The recording of `no_ack`, in one step. -/
theorem noAck_step {run : Uuid}
    (hok : ∀ run row, r.store.getRunState run = some row → RowOk r.store run row)
    (hstory : ∃ ls, RowStory c r.store run (r.store.getRunState run) ls
      ((c.after cfg r).store.getRunState run))
    (h : recordsNoAck run ⟨r, c, c.after cfg r⟩) :
    ¬Heard r run ∧ ∃ claim, r.store.getRun run = some claim ∧
      r.store.newest claim.timerId = some run ∧
      r.store.lastAckedSequence claim.timerId < claim.eventSequence := by
  obtain ⟨hbefore, row', hrow', hno⟩ := h
  obtain ⟨ls, hstory⟩ := hstory
  dsimp only at hrow' hbefore
  rw [hrow'] at hstory
  cases hrow : r.store.getRunState run with
  | none =>
    rw [hrow] at hstory
    cases hstory with
    | opened _ _ _ _ _ hfired _ _ _ =>
      rw [hno] at hfired
      cases hfired
  | some row =>
    rw [hrow] at hstory
    obtain rfl := (getRunState_mem hrow).2
    have hrowOk := hok _ row hrow
    cases hstory with
    | still => exact absurd hno (hbefore _ hrow)
    | overtaken _ _ _ _ => cases hno
    | moved hmove =>
      obtain ⟨hfired, claim, hclaim, hunacked⟩ := hmove.noAck (hbefore row hrow) hno
      obtain ⟨claim', hclaim', htimer⟩ := hrowOk.claimed
      obtain rfl := Option.some.inj (hclaim.symm.trans hclaim')
      refine ⟨fun hheard => ?_, claim, hclaim, ?_, htimer ▸ hunacked⟩
      · rw [hheard.2 row hrow] at hfired
        cases hfired
      · rw [htimer]
        exact hrowOk.fired hfired

/-- A reply for a run that is not current, in one step. -/
theorem late_step (hs : r.store.Wf) (hg : c.Gated r.store) {timer : Timer} {doc : ReplyDocument}
    {digest : String} {nowWall : Int} {run : Uuid}
    (hreply : c.reply = some (timer, doc, digest, nowWall)) (hdoc : doc.runId = some run)
    (hne : r.store.newest timer.id ≠ some run) (run' : Uuid) :
    ((c.after cfg r).store.getRunState run').map RunStateRow.lifecycle =
      (r.store.getRunState run').map RunStateRow.lifecycle := by
  cases c with
  | ingest timer' doc' digest' nowWall' monoNow utc =>
    obtain ⟨rfl, rfl, rfl, rfl⟩ : timer' = timer ∧ doc' = doc ∧ digest' = digest ∧
        nowWall' = nowWall := by
      simpa [Commit.reply] using hreply
    have hnamed : ∀ {run'' newState appName claim},
        Addressed r.store timer' doc' run'' newState appName claim → run'' = run := fun haddr =>
      Option.some.inj ((runId_of_validate haddr.valid).1.symm.trans hdoc)
    refine after_of_wp (P := fun r' => (r'.store.getRunState run').map RunStateRow.lifecycle =
      (r.store.getRunState run').map RunStateRow.lifecycle) ?_
    simp only [Commit.prog, wp_bind, wp_pure]
    refine wp_mono (ingest_ingested hs utc) (fun out r' h => ?_) fun _ r' h => by rw [h.1]
    obtain ⟨hing, -⟩ := h
    generalize r'.store = s' at hing
    cases hing with
    | late _ _ hrow _ _ =>
      exact lifecycle_wrote_digest (s := r.store.logged _) digest' hrow run'
    | applied _ haddr hcur _ _ _ _ _ => exact absurd (hnamed haddr ▸ hcur) hne
    | _ => rfl
  | fire f =>
    -- The barrier's reply names the current run.
    obtain ⟨⟨doc', digest'⟩, hbarrier, he⟩ := Option.map_eq_some_iff.mp hreply
    obtain ⟨rfl, rfl, -⟩ : f.timer = timer ∧ doc' = doc ∧ _ := by simpa using he
    exact absurd (hg.newest hbarrier hdoc) hne
  | _ => cases hreply

/-- **Provisional verdicts are revised only while current**, in every run of
the gated system. -/
theorem provisional_verdicts {tr : List (System.Event ReplyState Commit)}
    (h : (gated cfg).Run {} tr r) : ProvisionalVerdicts cfg tr := by
  constructor
  · rintro before e after run rfl hrec
    obtain ⟨hrun, ⟨hg, hpost⟩, -⟩ := h.split
    obtain ⟨pre, label, post⟩ := e
    obtain rfl : post = label.after cfg pre := hpost
    have hl := ledger_of_gated hrun
    have hstory := Commit.story cfg label (wf_of_reached hl) (rowsNodup_of_run hl) hg run
    obtain ⟨hunheard, hclaim⟩ := noAck_step (rowOk_of_run hrun) ⟨_, hstory⟩ hrec
    exact ⟨fun d hd hans => hunheard (heard_of_run hrun ⟨d, hd, hans⟩), hclaim⟩
  · intro e he timer doc digest nowWall run hreply hdoc hne
    obtain ⟨⟨hg, hpost⟩, tr', hrun, -⟩ := h.mem he
    rw [hpost]
    exact late_step (wf_of_reached (ledger_of_gated hrun)) hg hreply hdoc hne

end

section Sample

attribute [local instance] Calendar.utcOnly

/-- A run that is never acknowledged, and a reply that comes when the next
one is current. -/
theorem provisional_verdicts_missed :
    ProvisionalVerdicts .sample (System.trace (fun r c => Commit.after .sample c r) {}
      [.createTimer (.sample .skip) 0, .setTimerOwner ⟨0⟩ "app", .fire (.owned (60 * NS)),
        .expirePickup (.sample .skip) ⟨1⟩ (200 * NS),
        .fire { Firing.owned (240 * NS) with
          prev := some (Store.newClaim {} ⟨1⟩ ⟨0⟩ (60 * NS) (60 * NS)) },
        .ingest (.sample .skip) doneReply "digest" (241 * NS) (241 * NS) (241 * NS)]) :=
  provisional_verdicts (run_gated ⟨trivial, trivial,
    Firing.gated_of_barrier rfl (by decide +kernel), trivial,
    Firing.gated_of_barrier rfl (by decide +kernel), trivial, trivial⟩)

end Sample

end Bellman

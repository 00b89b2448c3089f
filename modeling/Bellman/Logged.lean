/-
Bellman/Logged.lean

The log of a run tells its verdicts.

A commit that gives a run a new verdict logs one terminal line, and the
line names it.  A commit that leaves the verdict, or withdraws it, logs
none.  Two things stand beside the rule:

* a *late* reply, of a run that is not current, logs one `superseded` line
  and leaves the verdict (the reply was superseded, not the run);
* a *reported failure over an inferred one* changes whose failure it is,
  and not the state that the lines are compared by.

The flags of the row make `acknowledged` and `running` lines of at most one
each: the row is there from the claim on, and counts them.

Main results: what one transition logs (`RowMove.verdictsIn_lines`,
`RowMove.count_lines`), and `verdicts_logged` over every run.
-/
import Bellman.Provisional

namespace Bellman

open ProgramLogic Prog ReplyM

/-! ### Verdicts and their lines -/

/-- The verdict that is stored for a run. -/
def Store.verdict (s : Store) (run : Uuid) : Option Line :=
  (s.getRunState run).bind RunStateRow.verdict

/-- The terminal lines of these. -/
def verdictsIn (ls : List Line) : List Line := ls.filter fun l => l.kind.isTerminal

/-- How many of these lines have that kind. -/
def countKind (kind : RunState) (ls : List Line) : Nat := ls.countP fun l => l.kind == kind

@[simp] theorem verdictsIn_nil : verdictsIn [] = [] := rfl

@[simp] theorem verdictsIn_append (ls ls' : List Line) :
    verdictsIn (ls ++ ls') = verdictsIn ls ++ verdictsIn ls' := by
  simp [verdictsIn]

@[simp] theorem countKind_nil (kind : RunState) : countKind kind [] = 0 := rfl

@[simp] theorem countKind_append (kind : RunState) (ls ls' : List Line) :
    countKind kind (ls ++ ls') = countKind kind ls + countKind kind ls' := by
  simp [countKind]

/-- The flag of a row that tells whether the line of that kind is logged. -/
def RunStateRow.flag (row : RunStateRow) : RunState → Bool
  | .acknowledged => row.acknowledgedLogged
  | .running => row.runningLogged
  | _ => false

/-- The commit ingests a reply for the run, which is not current. -/
def Commit.late (c : Commit) (s : Store) (run : Uuid) : Bool :=
  match c.reply with
  | some (timer, doc, _, _) => doc.runId == some run && s.newest timer.id != some run
  | none => false

theorem Commit.late_iff {c : Commit} {s : Store} {run : Uuid} :
    c.late s run = true ↔ ∃ timer doc digest nowWall, c.reply = some (timer, doc, digest, nowWall) ∧
      doc.runId = some run ∧ s.newest timer.id ≠ some run := by
  unfold late
  cases c.reply with
  | none => simp
  | some reply =>
    obtain ⟨timer, doc, digest, nowWall⟩ := reply
    simp

/-- A failure that Bellman inferred becomes one that the app reports. -/
def reportedOver (run : Uuid) (s s' : Store) : Prop :=
  s.verdict run = some ⟨.failed, some .timedOut⟩ ∧ s'.verdict run = some ⟨.failed, some .reported⟩

/-! ### One transition -/

section Moves

variable {c : Commit} {s : Store} {row row' : RunStateRow} {ls : List Line}

theorem verdict_of_open (h : row.isTerminal = false) : row.verdict = none := by
  rw [RunStateRow.verdict, h]
  rfl

theorem isTerminal_of_isFired (h : row.state.isFired = true) : row.isTerminal = false := by
  by_contra hterm
  have hfired := not_isFired_of_isTerminal (Bool.eq_true_of_not_eq_false hterm)
  rw [h] at hfired
  cases hfired

theorem state_folded {doc : ReplyDocument} {newState : RunState} {digest : String}
    {nowWall : Int} {watchdog : Option Int} :
    (row.folded doc newState digest nowWall watchdog).state = newState := rfl

/-- A reported failure is the app's. -/
theorem failureKind_folded {doc : ReplyDocument} {digest : String} {nowWall : Int}
    {watchdog : Option Int} :
    (row.folded doc .failed digest nowWall watchdog).failureKind = some .reported := rfl

theorem verdictsIn_replyLines {doc : ReplyDocument} {newState : RunState} {nowWall : Int} :
    verdictsIn (replyLines row doc newState nowWall) = verdictLines row.state newState := by
  have hack : verdictsIn (ackLines (row.report doc newState nowWall)) = [] := by
    unfold ackLines
    split <;> rfl
  have hrunning : verdictsIn (runningLines (row.report doc newState nowWall) newState) = [] := by
    unfold runningLines
    split <;> rfl
  have hverdict : verdictsIn (verdictLines row.state newState) =
      verdictLines row.state newState := by
    unfold verdictLines
    split
    · next h => simp [verdictsIn, h.1]
    · rfl
  rw [replyLines, verdictsIn_append, verdictsIn_append, hack, hrunning, hverdict]
  rfl

/-- What a transition logs of verdicts: the new one, if there is one. -/
theorem RowMove.verdictsIn_lines (h : RowMove c s row ls row')
    (hlate : c.late s row.runId = false) (hkind : row.state = .failed → row.failureKind.isSome)
    (hover : ¬(row.verdict = some ⟨.failed, some .timedOut⟩ ∧
      row'.verdict = some ⟨.failed, some .reported⟩)) :
    verdictsIn ls = if row'.verdict = row.verdict then [] else row'.verdict.toList := by
  cases h with
  | delivered _ => exact (if_pos rfl).symm
  | late hreply haddr hcur _ =>
    have htrue := Commit.late_iff.mpr ⟨_, _, _, _, hreply, (runId_of_validate haddr.valid).1, hcur⟩
    exact absurd (hlate.symm.trans htrue) (by decide)
  | @replied timer doc digest nowWall newState _ _ watchdog _ haddr _ _ _ =>
    have hw := isAppWritable_of_validate haddr.valid
    rw [verdictsIn_replyLines]
    cases newState with
    | completed =>
      -- The state says it all.
      by_cases hstate : row.state = .completed
      · simp [verdictLines, RunStateRow.verdict, RunStateRow.isTerminal, state_folded, hstate,
          RunState.isTerminal]
      · have hne : row.verdict ≠ some ⟨.completed, none⟩ := by
          unfold RunStateRow.verdict
          split <;> simp [hstate]
        simp [verdictLines, RunStateRow.verdict, RunStateRow.isTerminal, state_folded, hstate,
          RunState.isTerminal] at hne ⊢
        exact fun h => absurd h.symm hne
    | failed =>
      have hnew : (row.folded doc .failed digest nowWall watchdog).verdict =
          some ⟨.failed, some .reported⟩ := rfl
      by_cases hstate : row.state = .failed
      · -- It was a failure: reported already, or inferred, which is left out.
        have hold : row.verdict = some ⟨.failed, row.failureKind⟩ := by
          simp [RunStateRow.verdict, RunStateRow.isTerminal, hstate, RunState.isTerminal]
        obtain ⟨kind, hsome⟩ := Option.isSome_iff_exists.mp (hkind hstate)
        cases kind with
        | reported =>
          rw [hnew, hold, hsome, if_pos rfl]
          simp [verdictLines, hstate]
        | timedOut => exact absurd ⟨hsome ▸ hold, hnew⟩ hover
      · have hne : (some ⟨.failed, some .reported⟩ : Option Line) ≠ row.verdict := by
          unfold RunStateRow.verdict
          split
          · intro heq
            exact hstate (congrArg Line.kind (Option.some.inj heq)).symm
          · intro heq
            cases heq
        rw [hnew, if_neg hne]
        simp [verdictLines, hstate, RunState.isTerminal]
    | acknowledged =>
      have hnew : (row.folded doc .acknowledged digest nowWall watchdog).verdict = none := rfl
      rw [hnew]
      simp [verdictLines, RunState.isTerminal]
    | running =>
      have hnew : (row.folded doc .running digest nowWall watchdog).verdict = none := rfl
      rw [hnew]
      simp [verdictLines, RunState.isTerminal]
    | _ => cases hw
  | acked nowWall _ =>
    have hnew : (row.acked nowWall).verdict = none := rfl
    rw [hnew]
    cases row.acknowledgedLogged <;> simp [verdictsIn, RunState.isTerminal]
  | missed nowWall _ _ hfired _ _ =>
    rw [verdict_of_open (isTerminal_of_isFired hfired)]
    rfl
  | expired nowWall hopen =>
    rw [verdict_of_open hopen]
    rfl
  | closed hv hopen =>
    rw [verdict_of_open hopen]
    rcases hv with rfl | ⟨rfl, -⟩ <;> rfl

/-- A transition logs the line of a flag when it sets it. -/
theorem RowMove.count_lines (h : RowMove c s row ls row') {kind : RunState}
    (hkind : kind = .acknowledged ∨ kind = .running) :
    countKind kind ls + (row.flag kind).toNat = (row'.flag kind).toNat := by
  cases h with
  | @replied timer doc digest nowWall newState _ _ watchdog _ haddr _ _ _ =>
    have hverdict : countKind kind (verdictLines row.state newState) = 0 := by
      unfold verdictLines
      split
      · next h =>
        rcases hkind with rfl | rfl <;> cases newState <;>
          first | rfl | cases h.1
      · rfl
    have hacked : (row.report doc newState nowWall).acknowledgedLogged =
        row.acknowledgedLogged := by
      cases newState <;> rfl
    have hrunning : (row.report doc newState nowWall).runningLogged = row.runningLogged := by
      cases newState <;> rfl
    rw [replyLines, countKind_append, countKind_append, hverdict]
    rcases hkind with rfl | rfl
    · have hother : countKind .acknowledged
          (runningLines (row.report doc newState nowWall) newState) = 0 := by
        unfold runningLines
        split <;> rfl
      rw [hother]
      simp only [RunStateRow.flag, RunStateRow.folded, ackLines, hacked]
      cases row.acknowledgedLogged <;>
        cases (row.report doc newState nowWall).acknowledgedAt <;> rfl
    · have hother : countKind .running (ackLines (row.report doc newState nowWall)) = 0 := by
        unfold ackLines
        split <;> rfl
      rw [hother]
      simp only [RunStateRow.flag, RunStateRow.folded, runningLines, hrunning]
      cases row.runningLogged <;> cases newState <;> rfl
  | acked nowWall _ =>
    rcases hkind with rfl | rfl <;>
      simp only [RunStateRow.flag, RunStateRow.acked] <;>
      cases row.acknowledgedLogged <;> simp [countKind]
  | closed hv _ =>
    rcases hkind with rfl | rfl <;> rcases hv with rfl | ⟨rfl, -⟩ <;> exact Nat.zero_add _
  | _ => rcases hkind with rfl | rfl <;> exact Nat.zero_add _

/-- A failure has its kind. -/
theorem RowMove.failureKind (h : RowMove c s row ls row')
    (hkind : row.state = .failed → row.failureKind.isSome) :
    row'.state = .failed → row'.failureKind.isSome := by
  intro hfailed
  cases h with
  | delivered _ => exact hkind hfailed
  | late _ _ _ _ => exact hkind hfailed
  | replied _ _ _ _ _ _ =>
    rw [state_folded] at hfailed
    subst hfailed
    rfl
  | expired _ _ => rfl
  | closed hv _ => rcases hv with rfl | ⟨rfl, -⟩ <;> cases hfailed
  | _ => cases hfailed

end Moves

/-! ### One commit -/

section

variable [Calendar] {cfg : FireConfig} {c : Commit} {r : ReplyState} {run : Uuid}

omit [Calendar] in
theorem verdict_of_some {s : Store} {row : RunStateRow} (h : s.getRunState run = some row) :
    s.verdict run = row.verdict := by
  rw [Store.verdict, h, Option.bind_some]

/-- A late reply leaves the verdict of every run, and logs at most that it
was superseded. -/
theorem late_logged (hs : r.store.Wf) (hg : c.Gated r.store) (h : c.late r.store run = true) :
    (c.after cfg r).store.verdict run = r.store.verdict run ∧
      (linesOf run (enqueued ⟨r, c, c.after cfg r⟩) = [] ∨
        linesOf run (enqueued ⟨r, c, c.after cfg r⟩) = [⟨.superseded, none⟩]) := by
  obtain ⟨timer, doc, digest, nowWall, hreply, hdoc, hne⟩ := Commit.late_iff.mp h
  constructor
  · have hsame : ((c.after cfg r).store.getRunState run).map RunStateRow.lifecycle =
        (r.store.getRunState run).map RunStateRow.lifecycle :=
      late_step hs hg hreply hdoc hne run
    have hverdict := congrArg (Option.bind · RunStateRow.verdict) hsame
    rw [Option.bind_map, Option.bind_map] at hverdict
    exact hverdict
  · cases c with
    | ingest timer' doc' digest' nowWall' monoNow utc =>
      obtain ⟨rfl, rfl, rfl, rfl⟩ : timer' = timer ∧ doc' = doc ∧ digest' = digest ∧
          nowWall' = nowWall := by
        simpa [Commit.reply] using hreply
      refine after_of_wp (P := fun r' =>
        linesOf run (enqueued ⟨r, .ingest timer' doc' digest' nowWall' monoNow utc, r'⟩) = [] ∨
        linesOf run (enqueued ⟨r, .ingest timer' doc' digest' nowWall' monoNow utc, r'⟩) =
          [⟨.superseded, none⟩]) ?_
      have hsame : ∀ r', r'.store.eventOutbox = r.store.eventOutbox →
          linesOf run (enqueued ⟨r, .ingest timer' doc' digest' nowWall' monoNow utc, r'⟩) =
            [] := by
        intro r' he
        rw [enqueued, he, List.drop_length]
        rfl
      have hevs : ∀ r' evs, r'.store.eventOutbox = r.store.eventOutbox ++ evs →
          linesOf run (enqueued ⟨r, .ingest timer' doc' digest' nowWall' monoNow utc, r'⟩) =
            linesOf run evs := by
        intro r' evs he
        rw [enqueued, he, List.drop_left]
      simp only [Commit.prog, wp_bind, wp_pure]
      refine wp_mono (ingest_ingested hs utc) (fun out r' h => ?_)
        fun _ r' h => .inl (hsame r' (congrArg Store.eventOutbox h.1))
      obtain ⟨hing, -⟩ := h
      generalize hstore : r'.store = s' at hing
      have hnamed : ∀ {run' newState appName claim},
          Addressed r.store timer' doc' run' newState appName claim → run' = run := fun haddr =>
        Option.some.inj ((runId_of_validate haddr.valid).1.symm.trans hdoc)
      cases hing with
      | late haddr _ _ _ hlines =>
        obtain rfl := hnamed haddr
        exact .inr ((hevs r' _ (by rw [hstore]; rfl)).trans hlines.self)
      | lateRowless haddr _ _ hlines =>
        obtain rfl := hnamed haddr
        exact .inr ((hevs r' _ (by rw [hstore]; rfl)).trans hlines.self)
      | applied _ haddr hcur _ _ _ _ _ => exact absurd (hnamed haddr ▸ hcur) hne
      | _ => exact .inl (hsame r' (congrArg Store.eventOutbox hstore))
    | fire f =>
      -- The barrier's reply names the current run.
      obtain ⟨⟨doc', digest'⟩, hbarrier, he⟩ := Option.map_eq_some_iff.mp hreply
      obtain ⟨rfl, rfl, -⟩ : f.timer = timer ∧ doc' = doc ∧ _ := by simpa using he
      exact absurd (hg.newest hbarrier hdoc) hne
    | _ => cases hreply

omit [Calendar] in
/-- **One event for a verdict**: a commit that is no late reply, and leaves
out no report over an inferred failure, logs the new verdict of the run, if
it has one, and nothing else. -/
theorem RowStory.verdictsIn_lines {ls : List Line} {s' : Store} (hs : r.store.Wf)
    (hok : ∀ row, r.store.getRunState run = some row →
      RowOk r.store run row ∧ (row.state = .failed → row.failureKind.isSome))
    (h : RowStory c r.store run (r.store.getRunState run) ls (s'.getRunState run))
    (hrow : (s'.getRunState run).isSome) (hlate : c.late r.store run = false)
    (hover : ¬reportedOver run r.store s') :
    verdictsIn ls =
      if s'.verdict run = r.store.verdict run then [] else (s'.verdict run).toList := by
  obtain ⟨row', hrow'⟩ := Option.isSome_iff_exists.mp hrow
  rw [verdict_of_some hrow']
  rw [hrow'] at h
  cases hbefore : r.store.getRunState run with
  | none =>
    rw [hbefore] at h
    cases h with
    | opened _ _ _ _ _ hfired _ _ _ =>
      rw [verdict_of_open (isTerminal_of_isFired hfired)]
      simp [Store.verdict, hbefore]
  | some row =>
    rw [hbefore] at h
    have hover' : ¬(row.verdict = some ⟨.failed, some .timedOut⟩ ∧
        row'.verdict = some ⟨.failed, some .reported⟩) := by
      rw [← verdict_of_some hbefore, ← verdict_of_some hrow']
      exact hover
    obtain ⟨hrowOk, hkind⟩ := hok row hbefore
    obtain rfl := (getRunState_mem hbefore).2
    rw [verdict_of_some hbefore]
    cases h with
    | still => exact (if_pos rfl).symm
    | moved h => exact h.verdictsIn_lines hlate hkind hover'
    | @overtaken _ mid ls₀ f h hf hcur hopen =>
      -- What the app had still to say was no verdict, and the run was not superseded before.
      have hmid : mid.verdict = none := verdict_of_open hopen
      have hls : verdictsIn ls₀ = [] := by
        rw [h.verdictsIn_lines hlate hkind (by rw [hmid]; exact fun hboth => nomatch hboth.2), hmid]
        exact ite_self _
      have hnew : (mid.closed .superseded).verdict = some ⟨.superseded, none⟩ := rfl
      have hne : (some ⟨.superseded, none⟩ : Option Line) ≠ row.verdict := by
        unfold RunStateRow.verdict
        split
        · intro heq
          have hsup : row.state = .superseded := (congrArg Line.kind (Option.some.inj heq)).symm
          obtain ⟨claim, hclaim, htimer⟩ := hrowOk.claimed
          obtain ⟨claim', hclaim', htimer'⟩ := hs.getRun_newest hcur
          obtain rfl := Option.some.inj (hclaim.symm.trans hclaim')
          exact hrowOk.superseded hsup (htimer.symm.trans htimer' ▸ hcur)
        · nofun
      rw [verdictsIn_append, hls, hnew, if_neg hne]
      rfl

/-! ### Every run -/

/-- The lines that a run's commits logged about it, oldest first. -/
def told (run : Uuid) (tr : List (System.Event ReplyState Commit)) : List Line :=
  tr.flatMap fun e => linesOf run (enqueued e)

/-- The same, but for what late replies logged. -/
def toldInTime (run : Uuid) (tr : List (System.Event ReplyState Commit)) : List Line :=
  told run (tr.filter fun e => !e.label.late e.pre.store run)

omit [Calendar] in
@[simp] theorem told_snoc (run : Uuid) (tr : List (System.Event ReplyState Commit))
    (e : System.Event ReplyState Commit) :
    told run (tr ++ [e]) = told run tr ++ linesOf run (enqueued e) := by
  simp [told]

omit [Calendar] in
theorem toldInTime_snoc (run : Uuid) (tr : List (System.Event ReplyState Commit))
    (e : System.Event ReplyState Commit) :
    toldInTime run (tr ++ [e]) = toldInTime run tr ++
      if e.label.late e.pre.store run then [] else linesOf run (enqueued e) := by
  unfold toldInTime
  rw [List.filter_append, List.filter_singleton]
  cases e.label.late e.pre.store run <;> simp [told]

/-- What the log says of a run that has a lifecycle row. -/
structure VerdictsLogged (tr : List (System.Event ReplyState Commit)) (r : ReplyState)
    (run : Uuid) : Prop where
  changed : ∀ e ∈ tr, (e.post.store.getRunState run).isSome →
    e.label.late e.pre.store run = false → ¬reportedOver run e.pre.store e.post.store →
    verdictsIn (linesOf run (enqueued e)) =
      if e.post.store.verdict run = e.pre.store.verdict run then []
      else (e.post.store.verdict run).toList
  late : ∀ e ∈ tr, e.label.late e.pre.store run = true →
    e.post.store.verdict run = e.pre.store.verdict run ∧
      (linesOf run (enqueued e) = [] ∨ linesOf run (enqueued e) = [⟨.superseded, none⟩])
  once : (r.store.getRunState run).isSome →
    countKind .acknowledged (told run tr) ≤ 1 ∧ countKind .running (told run tr) ≤ 1
  last : (∀ e ∈ tr, ¬reportedOver run e.pre.store e.post.store) →
    ∀ verdict, r.store.verdict run = some verdict →
      (verdictsIn (toldInTime run tr)).getLast? = some verdict

/-- What the log of a run and its row have in common, at every moment. -/
structure LogOk (tr : List (System.Event ReplyState Commit)) (r : ReplyState) (run : Uuid) :
    Prop where
  unclaimed : r.store.getRun run = none → told run tr = []
  counted : ∀ kind, kind = .acknowledged ∨ kind = .running →
    ∀ row, r.store.getRunState run = some row → countKind kind (told run tr) = (row.flag kind).toNat
  failureKind : ∀ row, r.store.getRunState run = some row → row.state = .failed →
    row.failureKind.isSome
  last : (∀ e ∈ tr, ¬reportedOver run e.pre.store e.post.store) →
    ∀ verdict, r.store.verdict run = some verdict →
      (verdictsIn (toldInTime run tr)).getLast? = some verdict

omit [Calendar] in
/-- Of a run that has no claim nothing is logged. -/
theorem RowStory.silent {ls : List Line} {row' : Option RunStateRow}
    (hok : ∀ row, r.store.getRunState run = some row → RowOk r.store run row)
    (h : RowStory c r.store run (r.store.getRunState run) ls row')
    (hclaim : r.store.getRun run = none) : ls = [] := by
  cases hbefore : r.store.getRunState run with
  | none =>
    rw [hbefore] at h
    cases h with
    | still => rfl
    | rowless hsome =>
      rw [hclaim] at hsome
      cases hsome
    | opened _ _ _ _ _ _ _ _ _ => rfl
  | some row =>
    obtain ⟨claim, hsome, -⟩ := (hok row hbefore).claimed
    rw [hclaim] at hsome
    cases hsome

omit [Calendar] in
/-- One commit counts the flags it sets. -/
theorem RowStory.count_lines {ls : List Line} {row' : RunStateRow} {kind : RunState}
    (hkind : kind = .acknowledged ∨ kind = .running)
    (h : RowStory c r.store run (r.store.getRunState run) ls (some row')) :
    (∃ row, r.store.getRunState run = some row ∧
      countKind kind ls + (row.flag kind).toNat = (row'.flag kind).toNat) ∨
    r.store.getRun run = none ∧ ls = [] ∧ row'.flag kind = false := by
  cases hbefore : r.store.getRunState run with
  | none =>
    rw [hbefore] at h
    cases h with
    | opened _ _ hclaim _ _ _ _ hack hrun =>
      refine .inr ⟨hclaim, rfl, ?_⟩
      rcases hkind with rfl | rfl
      · exact hack
      · exact hrun
  | some row =>
    rw [hbefore] at h
    refine .inl ⟨row, rfl, ?_⟩
    cases h with
    | still => exact Nat.zero_add _
    | moved h => exact h.count_lines hkind
    | overtaken h _ _ _ =>
      have hclosing : countKind kind [⟨.superseded, none⟩] = 0 := by
        rcases hkind with rfl | rfl <;> rfl
      rw [countKind_append, hclosing]
      refine (h.count_lines hkind).trans ?_
      rcases hkind with rfl | rfl <;> rfl

omit [Calendar] in
theorem RowStory.failureKind {row : Option RunStateRow} {ls : List Line} {row' : RunStateRow}
    (hkind : ∀ q, row = some q → q.state = .failed → q.failureKind.isSome)
    (h : RowStory c r.store run row ls (some row')) :
    row'.state = .failed → row'.failureKind.isSome := by
  cases h with
  | still => exact hkind _ rfl
  | moved h => exact h.failureKind (hkind _ rfl)
  | overtaken _ _ _ _ => exact nofun
  | opened _ _ _ _ _ hfired _ _ _ =>
    intro hfailed
    rw [hfailed] at hfired
    cases hfired

/-- The log and the row agree in every state reached. -/
theorem logOk_of_run {tr : List (System.Event ReplyState Commit)} (h : (gated cfg).Run {} tr r)
    (run : Uuid) : LogOk tr r run := by
  refine story_induction (J := fun tr r => LogOk tr r run) h ?_ ?_
  · exact ⟨fun _ => rfl, fun _ _ _ hrow => (Option.some_ne_none _ hrow.symm).elim,
      fun _ hrow => (Option.some_ne_none _ hrow.symm).elim,
      fun _ _ hverdict => (Option.some_ne_none _ hverdict.symm).elim⟩
  intro tr r c hrun hs hg hstory ih
  have hstory := hstory run
  have hok := rowOk_of_run hrun run
  refine ⟨fun hnew => ?_, fun kind hkind row' hrow' => ?_, fun row' hrow' => ?_,
    fun hover verdict hverdict => ?_⟩
  · -- A run that is not claimed after the commit was not claimed before it.
    have hold : r.store.getRun run = none := by
      by_contra hsome
      obtain ⟨claim, hclaim⟩ := Option.ne_none_iff_exists'.mp hsome
      obtain ⟨claim', hclaim', -⟩ := Commit.getRun_key cfg c hs hclaim
      rw [hnew] at hclaim'
      cases hclaim'
    rw [told_snoc, ih.unclaimed hold, hstory.silent hok hold]
    rfl
  · rw [hrow'] at hstory
    rw [told_snoc, countKind_append]
    rcases hstory.count_lines hkind with ⟨row, hrow, hcount⟩ | ⟨hclaim, hnil, hflag⟩
    · rw [ih.counted kind hkind row hrow, Nat.add_comm]
      exact hcount
    · rw [ih.unclaimed hclaim, hnil, hflag]
      rfl
  · rw [hrow'] at hstory
    exact hstory.failureKind ih.failureKind
  · have hlast := ih.last fun e he => hover e (List.mem_append_left _ he)
    rw [toldInTime_snoc]
    cases hlate : c.late r.store run with
    | true =>
      rw [(late_logged hs hg hlate).1] at hverdict
      simpa using hlast verdict hverdict
    | false =>
      have hrow' : ((c.after cfg r).store.getRunState run).isSome := by
        obtain ⟨row', hrow', -⟩ := Option.bind_eq_some_iff.mp hverdict
        rw [hrow']
        rfl
      have hlines := hstory.verdictsIn_lines hs (fun row hrow => ⟨hok row hrow,
        ih.failureKind row hrow⟩) hrow' hlate (hover _ (List.mem_concat_self ..))
      rw [if_neg Bool.false_ne_true, verdictsIn_append, hlines]
      split
      · next hsame =>
        rw [List.append_nil]
        exact hlast verdict (hsame ▸ hverdict)
      · rw [hverdict]
        exact List.getLast?_concat ..

end

section Sample

attribute [local instance] Calendar.utcOnly

/-- The first run is completed, the next is fired, and the app reports on
the first one once more. -/
def Commit.revisited : List Commit :=
  [.createTimer (.sample .skip) 0, .setTimerOwner ⟨0⟩ "app", .fire (.owned (60 * NS)),
    .ingest (.sample .skip) doneReply "digest" (61 * NS) (61 * NS) (61 * NS),
    .fire { Firing.owned (120 * NS) with
      prev := some (Store.newClaim {} ⟨1⟩ ⟨0⟩ (60 * NS) (60 * NS)) },
    .ingest (.sample .skip) { doneReply with state := some "failed" } "revised" (121 * NS)
      (121 * NS) (121 * NS)]

theorem Commit.gated_revisited : GatedFrom .sample {} Commit.revisited :=
  ⟨trivial, trivial, Firing.gated_of_barrier rfl (by decide +kernel), trivial,
    Firing.gated_of_barrier rfl (by decide +kernel), trivial, trivial⟩

end Sample

end Bellman

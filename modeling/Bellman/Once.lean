/-
Bellman/Once.lean

A slot request is carried out once.

The first worker that gets through with its transaction leaves a record, and
from then on the request has its answer: another worker with the same id,
in whatever slot its file was filed and whatever has happened since, changes
nothing in the transaction and writes the same response.

What stands outside of the transaction is done once more, and from the
state of that day.  The ack of a repeated file is given to the run that is
current now, and the folder of a deleted timer is removed although the
timer has been added again.

Main results: a run keeps to once exactly when no worker repeats a hook that
answers a run or the removal of the folder of a live timer
(`once_iff_harmless`), and it can fail to in both ways
(`repeated_request_acts`).
-/
import Bellman.Processing

namespace Bellman

open ProgramLogic Prog ReplyM

namespace SlotService

/-! ### Repetitions -/

/-- The worker that takes a step. -/
def acting (s : SlotService) : SlotMove → Option SlotJob
  | .execute i _ => s.jobAt i .execute
  | .hook i _ => s.jobAt i .hook
  | .view i => s.jobAt i .view
  | .write i => s.jobAt i .write
  | .clean i => s.jobAt i .clean
  | .skip i | .fail i => s.jobs[i]?
  | _ => none

/-- The worker goes through a request that was carried out before: it finds
the record, or found it in its transaction. -/
def Repeats (s : SlotService) (job : SlotJob) : Prop :=
  if job.stage = .execute then s.getRequest job.requestId ≠ none else job.duplicate = true

instance (s : SlotService) (job : SlotJob) : Decidable (s.Repeats job) := by
  unfold Repeats
  infer_instance

/-- The database is the same, and no live timer has lost its folder. -/
structure Untouched (s s' : SlotService) : Prop where
  db : s'.db.db = s.db.db
  folders : ∀ t ∈ s.folders, s.store.getTimer t ≠ none → t ∈ s'.folders

/-- A step in which a transaction for the request commits a change. -/
def CommitsFor (requestId : String) (e : System.Event SlotService SlotMove) : Prop :=
  ∃ i now job, e.label = .execute i now ∧ e.pre.jobAt i .execute = some job ∧
    job.requestId = requestId ∧ e.post.db.db ≠ e.pre.db.db

/-- Requests are carried out once: at most one transaction of each commits
a change, all responses written for it are one, and a worker that repeats
it touches nothing. -/
structure OnceInRun (tr : List (System.Event SlotService SlotMove)) (s : SlotService) :
    Prop where
  commits : ∀ requestId, tr.Pairwise fun d e => ¬(CommitsFor requestId d ∧ CommitsFor requestId e)
  written : ∀ w ∈ s.written, ∀ w' ∈ s.written, w.1 = w'.1 → w.2 = w'.2
  repeats : ∀ e ∈ tr, ∀ job, e.pre.acting e.label = some job → e.pre.Repeats job →
    Untouched e.pre e.post

section

variable [Wire]

/-- A repeated hook has no run to answer, and a repeated removal no folder
of a live timer. -/
def Harmless (hasTree : Bool) (s : SlotService) : SlotMove → Prop
  | .hook i _ => ∀ job ∈ s.jobAt i .hook, job.duplicate = true →
    ∀ ack ∈ job.acks hasTree, ¬s.store.Answers ack.1 ack.2
  | .view i => ∀ job ∈ s.jobAt i .view, job.duplicate = true →
    ∀ t ∈ job.removes hasTree, ¬(t ∈ s.folders ∧ s.store.getTimer t ≠ none)
  | _ => True

instance (s : Store) (timerId : Uuid) (through : Nat) : Decidable (s.Answers timerId through) :=
  decidable_of_iff
    (s.getTimer timerId ≠ none ∧ ∃ row ∈ s.currentRunState timerId, ∃ claim ∈ s.getRun row.runId,
      claim.eventSequence ≤ through ∧
        ((row.pickupDeadline.isSome = true ∧ row.state.isFired = true) ∨ row.state = .noAck)) <| by
    constructor
    · rintro ⟨ht, row, hcur, claim, hrun, h⟩
      obtain ⟨timer, ht⟩ := Option.ne_none_iff_exists'.mp ht
      exact ⟨timer, row, claim, ht, hcur, hrun, h⟩
    · rintro ⟨timer, row, claim, ht, hcur, hrun, h⟩
      exact ⟨by simp [ht], row, hcur, claim, hrun, h⟩

instance (hasTree : Bool) (s : SlotService) (l : SlotMove) : Decidable (s.Harmless hasTree l) := by
  cases l <;> unfold Harmless <;> infer_instance

end

/-! ### The transaction -/

section

variable [Wire] [Calendar] {cfg : FireConfig} {maxEvents : Nat} {hasTree : Bool}
  {s : SlotService}

omit [Wire] [Calendar] in
theorem Untouched.refl : Untouched s s := ⟨rfl, fun _ h _ => h⟩

/-- A transaction that changes anything finds no record of the request, and
leaves one. -/
theorem CommitsFor.step {requestId : String} {e : System.Event SlotService SlotMove}
    (h : CommitsFor requestId e) (hstep : (slotService cfg maxEvents hasTree).step e.pre e.label
      e.post) : e.pre.getRequest requestId = none ∧ e.post.getRequest requestId ≠ none := by
  obtain ⟨i, now, job, hlabel, hat, rfl, hchange⟩ := h
  have hpost : e.post = e.pre.execute maxEvents i job now := by
    have hs : e.post = e.pre.after cfg maxEvents hasTree e.label := hstep
    rw [hs, hlabel]
    unfold after
    simp only [hat]
  rcases e.pre.execute_cases i job now with hex | ⟨answer, db, hget, _, hsame, hex⟩
  · rw [hpost, hex] at hchange
    exact absurd rfl hchange
  · rw [hpost, hex] at hchange ⊢
    constructor
    · by_contra hrec
      exact hchange (hsame hrec)
    · intro hnone
      exact Option.some_ne_none _ (hget.symm.trans hnone)

/-- **At most one transaction of a request commits a change.** -/
theorem commits_of_run {tr : List (System.Event SlotService SlotMove)}
    (h : (slotService cfg maxEvents hasTree).Run {} tr s) (requestId : String) :
    tr.Pairwise fun d e => ¬(CommitsFor requestId d ∧ CommitsFor requestId e) := by
  suffices hboth : tr.Pairwise (fun d e => ¬(CommitsFor requestId d ∧ CommitsFor requestId e)) ∧
      ∀ d ∈ tr, CommitsFor requestId d → s.getRequest requestId ≠ none from hboth.1
  refine h.trace_induction (J := fun tr s => tr.Pairwise (fun d e =>
    ¬(CommitsFor requestId d ∧ CommitsFor requestId e)) ∧
    ∀ d ∈ tr, CommitsFor requestId d → s.getRequest requestId ≠ none) ⟨.nil, by simp⟩ ?_
  intro tr s l t _ hstep ⟨hpair, hrec⟩
  constructor
  · refine List.pairwise_append.mpr ⟨hpair, List.pairwise_singleton _ _, ?_⟩
    rintro d hd e he ⟨hcd, hce⟩
    rw [List.mem_singleton.mp he] at hce
    exact hrec d hd hcd (hce.step hstep).1
  · intro d hd hcd
    rcases List.mem_append.mp hd with hd | hd
    · obtain ⟨row, hrow⟩ := Option.ne_none_iff_exists'.mp (hrec d hd hcd)
      have ht : t = s.after cfg maxEvents hasTree l := hstep
      rw [ht, getRequest_after l hrow]
      exact Option.some_ne_none row
    · rw [List.mem_singleton.mp hd] at hcd
      exact (hcd.step hstep).2

/-! ### One repeated step -/

omit [Wire] [Calendar] in
theorem repeats_iff {i : Nat} {stage : SlotStage} {job : SlotJob}
    (hat : s.jobAt i stage = some job) (h : stage ≠ .execute) :
    s.Repeats job ↔ job.duplicate = true := by
  rw [Repeats, if_neg]
  rwa [(jobAt_mem hat).2]

omit [Wire] [Calendar] in
/-- The folders after the view step of a worker. -/
theorem mem_view {i : Nat} {job : SlotJob} {t : Uuid} (ht : t ∈ s.folders) :
    t ∈ (s.view hasTree i job).folders ↔ job.removes hasTree ≠ some t := by
  have hsync : t ∈ s.synced hasTree job := by
    unfold synced
    split
    · split
      · exact List.mem_cons_of_mem _ ht
      · exact ht
    · exact ht
  unfold view
  cases job.removes hasTree with
  | none => simpa [advance] using hsync
  | some timerId =>
    show t ∈ (s.synced hasTree job).filter (· ≠ timerId) ↔ _
    simp only [List.mem_filter, hsync, true_and, decide_eq_true_eq, ne_eq, Option.some.injEq]
    exact not_congr eq_comm

/-- **A step of a worker that repeats a request touches nothing exactly
when it is harmless.** -/
theorem untouched_iff (s : SlotService) (l : SlotMove) :
    (∀ job, s.acting l = some job → s.Repeats job →
      Untouched s (s.after cfg maxEvents hasTree l)) ↔ s.Harmless hasTree l := by
  cases l with
  | commit c | folders fs | file slotId req | start slotId | crash =>
    exact ⟨fun _ => trivial, fun _ _ h => by cases h⟩
  | execute i now =>
    refine ⟨fun _ => trivial, fun _ job hat hrep => ?_⟩
    have hat : s.jobAt i .execute = some job := hat
    have hrec : s.getRequest job.requestId ≠ none := by
      rwa [Repeats, if_pos (jobAt_mem hat).2] at hrep
    unfold after
    simp only [hat]
    rcases s.execute_cases i job now with hex | ⟨answer, db, _, _, hsame, hex⟩
    · rw [hex]
      exact ⟨rfl, fun _ h _ => h⟩
    · rw [hex]
      exact ⟨hsame hrec, fun _ h _ => h⟩
  | hook i nowWall =>
    have hrepeats : ∀ {job}, s.jobAt i .hook = some job →
        (s.Repeats job ↔ job.duplicate = true) := fun hat => repeats_iff hat (by decide)
    constructor
    · intro h job hat hdup ack hack
      have hu := h job hat ((hrepeats hat).mpr hdup)
      unfold after at hu
      simp only [show s.jobAt i .hook = some job from hat] at hu
      apply replyAckHook_eq_iff.mp
      have hstore := congrArg SlotStore.store hu.db
      unfold hook at hstore
      rw [show job.acks hasTree = some ack from hack] at hstore
      exact hstore
    · intro h job hat hrep
      have hat : s.jobAt i .hook = some job := hat
      unfold after
      simp only [hat]
      refine ⟨?_, fun _ h _ => h⟩
      unfold hook
      cases hack : job.acks hasTree with
      | none => rfl
      | some ack =>
        have hsame : replyAckHook ack.1 ack.2 nowWall s.store = s.store :=
          replyAckHook_eq_iff.mpr (h job hat ((hrepeats hat).mp hrep) ack hack)
        show SlotStore.mk (replyAckHook ack.1 ack.2 nowWall s.store) s.db.slotRequests = s.db.db
        rw [hsame]
        rfl
  | view i =>
    have hrepeats : ∀ {job}, s.jobAt i .view = some job →
        (s.Repeats job ↔ job.duplicate = true) := fun hat => repeats_iff hat (by decide)
    constructor
    · intro h job hat hdup t ht ⟨hfolder, hlive⟩
      have hu := h job hat ((hrepeats hat).mpr hdup)
      unfold after at hu
      simp only [show s.jobAt i .view = some job from hat] at hu
      exact (mem_view hfolder).mp (hu.folders t hfolder hlive) ht
    · intro h job hat hrep
      have hat : s.jobAt i .view = some job := hat
      unfold after
      simp only [hat]
      refine ⟨rfl, fun t hfolder hlive => (mem_view hfolder).mpr fun ht => ?_⟩
      exact h job hat ((hrepeats hat).mp hrep) t ht ⟨hfolder, hlive⟩
  | write i =>
    refine ⟨fun _ => trivial, fun _ job hat _ => ?_⟩
    have hat : s.jobAt i .write = some job := hat
    unfold after
    simp only [hat]
    split
    · exact ⟨rfl, fun _ h _ => h⟩
    · exact .refl
  | clean i =>
    refine ⟨fun _ => trivial, fun _ job hat _ => ?_⟩
    have hat : s.jobAt i .clean = some job := hat
    unfold after
    simp only [hat]
    exact ⟨rfl, fun _ h _ => h⟩
  | skip i =>
    refine ⟨fun _ => trivial, fun _ job hat _ => ?_⟩
    have hat : s.jobs[i]? = some job := hat
    unfold after
    simp only [hat]
    rcases s.skip_cases i job with hskip | ⟨_, hskip⟩
    · rw [hskip]
      exact .refl
    · rw [hskip]
      exact ⟨rfl, fun _ h _ => h⟩
  | fail i =>
    refine ⟨fun _ => trivial, fun _ job hat _ => ?_⟩
    have hat : s.jobs[i]? = some job := hat
    unfold after
    simp only [hat]
    exact ⟨rfl, fun _ h _ => h⟩

/-! ### Every run -/

/-- All responses written for one request are the one on record. -/
theorem written_of_run {tr : List (System.Event SlotService SlotMove)}
    (h : (slotService cfg maxEvents hasTree).Run {} tr s) :
    ∀ w ∈ s.written, ∀ w' ∈ s.written, w.1 = w'.1 → w.2 = w'.2 := by
  intro w hw w' hw' hid
  have hone := (answered_of_run h).written w hw
  rw [hid] at hone
  exact Option.some.inj (hone.symm.trans ((answered_of_run h).written w' hw'))

end

end SlotService

open SlotService

/-- **A run carries each request out once exactly when its repetitions are
harmless.** -/
theorem once_iff_harmless [Wire] [Calendar] {cfg : FireConfig} {maxEvents : Nat}
    {hasTree : Bool} {tr : List (System.Event SlotService SlotMove)} {s : SlotService}
    (h : (slotService cfg maxEvents hasTree).Run {} tr s) :
    OnceInRun tr s ↔ ∀ e ∈ tr, e.pre.Harmless hasTree e.label := by
  have hafter : ∀ e ∈ tr, e.post = e.pre.after cfg maxEvents hasTree e.label :=
    fun e he => (h.mem he).1
  constructor
  · intro honce e he
    apply (untouched_iff e.pre e.label).mp
    intro job hacting hrep
    rw [← hafter e he]
    exact honce.repeats e he job hacting hrep
  · intro hharmless
    refine ⟨commits_of_run h, written_of_run h, fun e he job hacting hrep => ?_⟩
    rw [hafter e he]
    exact (untouched_iff e.pre e.label).mpr (hharmless e he) job hacting hrep

/-! ### Files that come twice -/

section Sample

attribute [local instance] Wire.plain Calendar.utcOnly

/-- A worker goes through the file from the start to the end. -/
def SlotMove.through (slotId : String) (req : SlotRequest) : List SlotMove :=
  [.file slotId { req with slotId }, .start slotId, .execute 0 0, .hook 0 0, .view 0, .write 0,
    .clean 0]

/-- The trace of these steps. -/
def serviceTrace (moves : List SlotMove) : List (System.Event SlotService SlotMove) :=
  System.trace (fun s l => s.after .sample 64 true l) {} moves

theorem serviceTrace_run (moves : List SlotMove) :
    (slotService .sample 64 true).Run {} (serviceTrace moves)
      (moves.foldl (fun s l => s.after .sample 64 true l) {}) :=
  System.run_trace (fun _ _ => rfl) _ moves

/-- The lamp is added by a worker that is stopped before it writes, and
another one goes on with the file. -/
def lampAddedTwice : List SlotMove :=
  [.file "0001" (.sampleAdd "a" "lamp"), .start "0001", .execute 0 0, .hook 0 0, .view 0, .crash,
    .start "0001", .execute 0 0, .hook 0 0, .view 0, .write 0, .clean 0]

theorem once_iff_harmless_lamp :
    OnceInRun (serviceTrace lampAddedTwice)
      (lampAddedTwice.foldl (fun s l => s.after .sample 64 true l) {}) :=
  (once_iff_harmless (serviceTrace_run lampAddedTwice)).mpr (by decide +kernel)

/-- The lamp fires. -/
def lampFires (slot : Int) : SlotMove :=
  .commit (.fire { Firing.sample .queueOne slot with
    timer := { Timer.sample .queueOne with id := SlotRequest.sampleId }, owner := some "lamp" })

/-- The request that deletes the lamp comes again when the lamp was added
anew. -/
def lampDeletedTwice : List SlotMove :=
  SlotMove.through "0001" (.sampleAdd "a" "lamp") ++
    SlotMove.through "0002" (.sample "d" "lamp" .delete []) ++
    SlotMove.through "0003" (.sampleAdd "b" "lamp") ++
    SlotMove.through "0004" (.sample "d" "lamp" .delete [])

/-- The request that acknowledges its run comes again after the next
fire. -/
def lampAckedTwice : List SlotMove :=
  SlotMove.through "0001" (.sampleAdd "a" "lamp") ++ [lampFires 60] ++
    SlotMove.through "0002" (.sample "k" "lamp" .modify [("ack_through", .num 5)]) ++
    [lampFires 120] ++
    SlotMove.through "0003" (.sample "k" "lamp" .modify [("ack_through", .num 5)])

/-- **A file that comes twice** removes the folder of a live timer, and
acknowledges a run that came after it. -/
theorem repeated_request_acts :
    (∃ tr s, (slotService .sample 64 true).Run {} tr s ∧ ¬OnceInRun tr s ∧
      ∃ e ∈ tr, ∃ job ∈ e.pre.acting e.label, e.pre.Repeats job ∧
        ∃ t ∈ e.pre.folders, e.pre.store.getTimer t ≠ none ∧ t ∉ e.post.folders) ∧
    ∃ tr s, (slotService .sample 64 true).Run {} tr s ∧ ¬OnceInRun tr s ∧
      ∃ e ∈ tr, ∃ job ∈ e.pre.acting e.label, e.pre.Repeats job ∧
        ∃ row ∈ e.pre.store.runStates, row.state = .fired ∧
          ∀ row' ∈ e.post.store.runStates, row'.runId = row.runId → row'.state = .acknowledged := by
  have hdelete : ∃ e ∈ serviceTrace lampDeletedTwice, ∃ job ∈ e.pre.acting e.label,
      e.pre.Repeats job ∧
        ∃ t ∈ e.pre.folders, e.pre.store.getTimer t ≠ none ∧ t ∉ e.post.folders := by
    decide +kernel
  have hack : ∃ e ∈ serviceTrace lampAckedTwice, ∃ job ∈ e.pre.acting e.label,
      e.pre.Repeats job ∧ ∃ row ∈ e.pre.store.runStates, row.state = .fired ∧
        ∀ row' ∈ e.post.store.runStates, row'.runId = row.runId →
          row'.state = .acknowledged := by
    decide +kernel
  refine ⟨⟨_, _, serviceTrace_run lampDeletedTwice, fun honce => ?_, hdelete⟩,
    ⟨_, _, serviceTrace_run lampAckedTwice, fun honce => ?_, hack⟩⟩
  · obtain ⟨e, he, job, hjob, hrep, t, ht, hlive, hgone⟩ := hdelete
    exact hgone ((honce.repeats e he job hjob hrep).folders t ht hlive)
  · obtain ⟨e, he, job, hjob, hrep, row, hrow, hfired, hacked⟩ := hack
    have hsame := congrArg SlotStore.store (honce.repeats e he job hjob hrep).db
    have hrow' : row ∈ e.post.store.runStates := by
      show row ∈ e.post.db.db.store.runStates
      rw [hsame]
      exact hrow
    have hstate := hacked row hrow' rfl
    rw [hfired] at hstate
    cases hstate

end Sample

end Bellman

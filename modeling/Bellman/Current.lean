/-
Bellman/Current.lean

The current run of a timer, and the fires that replace it.

The current run is the newest claim.  With a reply engine every claim is
committed by a fire, and a fire works under the gate of its timer: what it
read there, before its transaction, is still so when the transaction
begins, because no other fire of that timer can come in between.

    service (gate, reads, transaction)  ⊑  gated (one step for a fire)

`service` has the reads of a fire as a step of their own, and every other
commit may come between them and the transaction.  `gated` is the system of
commits in which a fire replaces the run that is current.

Main results: what a commit does to the current run of each timer
(`Commit.newest_eq`, `Fired.newest_eq`), and that the service, whatever the
interleaving, only takes steps of `gated` (`gated_of_service`).
-/
import Bellman.Commit

namespace Bellman

open ProgramLogic Prog ReplyM

/-! ### The newest claim -/

/-- The newest claim of a timer. -/
def Store.newest (s : Store) (timerId : Uuid) : Option Uuid :=
  (s.runsForTimer timerId).getLast?.map (·.runId)

/-- Rewriting the claims by their keys keeps which is the last of a timer. -/
theorem lastRun_map {f : RunClaim → RunClaim} (hf : ∀ r, (f r).key = r.key)
    (l : List RunClaim) (timerId : Uuid) :
    ((l.map f).filter (·.timerId == timerId)).getLast?.map (·.runId) =
      (l.filter (·.timerId == timerId)).getLast?.map (·.runId) := by
  have hp : ((·.timerId == timerId) ∘ f : RunClaim → Bool) = (·.timerId == timerId) := by
    funext r
    simp [RunClaim.timerId_of_key (hf r)]
  have hid : ((·.runId) ∘ f : RunClaim → Uuid) = (·.runId) := by
    funext r
    exact RunClaim.runId_of_key (hf r)
  rw [List.filter_map, hp, List.getLast?_map, Option.map_map, hid]

namespace Store

variable {s s' : Store} {timerId : Uuid}

/-- The claims of a timer are stored oldest first. -/
theorem Wf.runsForTimer_eq (h : s.Wf) (timerId : Uuid) :
    s.runsForTimer timerId = s.runs.filter (·.timerId == timerId) := by
  refine List.Pairwise.insertionSort_eq ?_
  refine (h.seq_lt.filter (·.timerId == timerId)).imp_of_mem fun {a b} ha hb hlt => ?_
  have ha : a.timerId = timerId := by simpa using (List.mem_filter.mp ha).2
  have hb : b.timerId = timerId := by simpa using (List.mem_filter.mp hb).2
  exact .inl (hlt (ha.trans hb.symm))

theorem Wf.newest_eq (h : s.Wf) (timerId : Uuid) :
    s.newest timerId = ((s.runs.filter (·.timerId == timerId)).getLast?).map (·.runId) := by
  rw [newest, h.runsForTimer_eq]

/-- The current run is a claim of the timer. -/
theorem Wf.getRun_newest (h : s.Wf) {run : Uuid} (hn : s.newest timerId = some run) :
    ∃ claim, s.getRun run = some claim ∧ claim.timerId = timerId := by
  rw [h.newest_eq, Option.map_eq_some_iff] at hn
  obtain ⟨claim, hlast, rfl⟩ := hn
  obtain ⟨hmem, ht⟩ := List.mem_filter.mp (List.mem_of_getLast? hlast)
  exact ⟨claim, h.getRun_of_mem hmem, by simpa using ht⟩

theorem newest_congr (h : s'.runs = s.runs) (timerId : Uuid) :
    s'.newest timerId = s.newest timerId := by
  unfold newest runsForTimer
  rw [h]

/-- Statements that keep keys keep the current run. -/
theorem Wf.newest_map (h : s.Wf) (h' : s'.Wf) {f : RunClaim → RunClaim}
    (hf : ∀ r, (f r).key = r.key) (hr : s'.runs = s.runs.map f) (timerId : Uuid) :
    s'.newest timerId = s.newest timerId := by
  rw [h'.newest_eq, h.newest_eq, hr, lastRun_map hf]

/-- A new claim is the current run of its timer. -/
theorem newest_append (h : s.Wf) (h' : s'.Wf) {c : RunClaim} (hr : s'.runs = s.runs ++ [c])
    (timerId : Uuid) :
    s'.newest timerId = if c.timerId = timerId then some c.runId else s.newest timerId := by
  rw [h'.newest_eq, h.newest_eq, hr, List.filter_append]
  by_cases ht : c.timerId = timerId <;> simp [ht]

end Store

/-- A committed fire makes its claim the current run of its timer. -/
theorem Fired.newest_eq {f : Firing} {c : RunClaim} {s s' : Store} (hs : s.Wf)
    (h : Fired f c s s') (timerId : Uuid) :
    s'.newest timerId = if f.timer.id = timerId then some c.runId else s.newest timerId := by
  obtain ⟨u, hu, rfl, hruns⟩ := h.ledger
  have hkey := key_dispose f.timer u (s.openClaims f.timer.id).length f.utc
  rw [h.audit.wf.newest_eq, hs.newest_eq, hruns, lastRun_map hkey, List.filter_append,
    RunClaim.runId_of_key (hkey _)]
  by_cases ht : f.timer.id = timerId <;> simp [Store.newClaim, ht]

/-- The claim of a committed fire has an id that no claim had before. -/
theorem Fired.fresh {f : Firing} {c : RunClaim} {s s' : Store} (h : Fired f c s s') :
    s.getRun c.runId = none := by
  obtain ⟨u, hu, rfl, -⟩ := h.ledger
  rw [RunClaim.runId_of_key (key_dispose f.timer u _ f.utc _)]
  refine List.find?_eq_none.mpr fun r hr he => hu r hr ?_
  simpa [Store.newClaim] using he

theorem Fired.claimed {f : Firing} {c : RunClaim} {s s' : Store} (h : Fired f c s s') :
    s'.getRun c.runId = some c ∧ c.timerId = f.timer.id := by
  obtain ⟨u, -, rfl, hruns⟩ := h.ledger
  refine ⟨h.audit.wf.getRun_of_mem ?_, RunClaim.timerId_of_key (key_dispose f.timer u _ f.utc _)⟩
  rw [hruns, List.map_append]
  exact List.mem_append_right _ List.mem_cons_self

/-- It is the one claim that is new. -/
theorem Fired.runId_eq {f : Firing} {c : RunClaim} {s s' : Store} (h : Fired f c s s')
    {run : Uuid} (hold : s.getRun run = none) (hnew : (s'.getRun run).isSome) :
    run = c.runId := by
  obtain ⟨u, hu, rfl, hruns⟩ := h.ledger
  have hkey := key_dispose f.timer u (s.openClaims f.timer.id).length f.utc
  obtain ⟨q, hq⟩ := Option.isSome_iff_exists.mp hnew
  obtain ⟨hmem, rfl⟩ := Store.getRun_mem hq
  rw [hruns] at hmem
  obtain ⟨p, hp, rfl⟩ := List.mem_map.mp hmem
  rw [RunClaim.runId_of_key (hkey p)] at hold ⊢
  rcases List.mem_append.mp hp with hp | hp
  · exact absurd (List.find?_eq_none.mp hold p hp) (by simp)
  · obtain rfl := List.mem_singleton.mp hp
    rw [RunClaim.runId_of_key (hkey _)]

/-- The commit claims a run. -/
def Commit.claims : Commit → Bool
  | claimRun .. | fire .. => true
  | _ => false

/-- A commit that claims nothing leaves the current runs alone. -/
theorem Commit.newest_eq [Calendar] {cfg : FireConfig} {c : Commit} {r : ReplyState}
    (hs : r.store.Wf) (hc : c.claims = false) (timerId : Uuid) :
    (c.after cfg r).store.newest timerId = r.store.newest timerId := by
  have heff := Commit.effect cfg c hs
  cases c with
  | claimRun timerId scheduledFor now => cases hc
  | fire f => cases hc
  | _ => exact hs.newest_map (Commit.wf hs) (key_row _) heff timerId

/-! ### Under the gate -/

/-- The reply that the barrier found names the previous run, if it names
one. -/
def Firing.Identified (f : Firing) : Prop :=
  ∀ doc digest run, f.barrier = some (doc, digest) → doc.runId = some run →
    f.prev.map (·.runId) = some run

/-- What the gate gives a fire when its transaction begins: the claim it
read is the current run, and the reply that the barrier found names no
other. -/
structure Firing.Gated (f : Firing) (s : Store) : Prop where
  prev : f.prev.map (·.runId) = s.newest f.timer.id
  barrier : f.Identified

/-- A fire for which the barrier found no reply. -/
theorem Firing.gated_of_barrier {f : Firing} {s : Store} (hb : f.barrier = none)
    (hp : f.prev.map (·.runId) = s.newest f.timer.id) : f.Gated s := by
  refine ⟨hp, fun doc digest run h => ?_⟩
  rw [hb] at h
  cases h

/-- The barrier's reply is about the current run. -/
theorem Firing.Gated.newest {f : Firing} {s : Store} (h : f.Gated s) {doc : ReplyDocument}
    {digest : String} {run : Uuid} (hb : f.barrier = some (doc, digest))
    (hdoc : doc.runId = some run) : s.newest f.timer.id = some run := by
  rw [← h.prev]
  exact h.barrier doc digest run hb hdoc

/-- Claims are made by fires, and fires are under the gate. -/
def Commit.Gated (c : Commit) (s : Store) : Prop :=
  match c with
  | .claimRun .. => False
  | .fire f => f.Gated s
  | _ => True

/-- The commits of a service with a reply engine. -/
def gated [Calendar] (cfg : FireConfig) : System ReplyState Commit where
  init r := r = {}
  step r c r' := c.Gated r.store ∧ r' = c.after cfg r

section

variable [Calendar] {cfg : FireConfig}

theorem ledger_of_gated {tr : List (System.Event ReplyState Commit)} {r₀ r : ReplyState}
    (h : (gated cfg).Run r₀ tr r) : (ledger cfg).Run r₀ tr r := by
  induction h with
  | nil => exact .nil
  | snoc _ hstep ih => exact ih.snoc hstep.2

/-- Each of the commits is made from a state in which it is gated. -/
def GatedFrom (cfg : FireConfig) : ReplyState → List Commit → Prop
  | _, [] => True
  | r, c :: cs => c.Gated r.store ∧ GatedFrom cfg (c.after cfg r) cs

/-- The gated run that makes the given commits, one after another. -/
theorem run_gated {r : ReplyState} {cs : List Commit} (h : GatedFrom cfg r cs) :
    (gated cfg).Run r (System.trace (fun r c => c.after cfg r) r cs)
      (cs.foldl (fun r c => c.after cfg r) r) := by
  induction cs generalizing r with
  | nil => exact .nil
  | cons c cs ih =>
    have hstep : (gated cfg).step r c (c.after cfg r) := ⟨h.1, rfl⟩
    exact System.Run.cons hstep (ih h.2)

end

/-! ### The service -/

/-- The store and the engine's memory, and the fires that hold a gate. -/
structure Service where
  memory : ReplyState := {}
  firing : List Firing := []

inductive ServiceStep where
  /-- A fire takes the gate of its timer and reads. -/
  | read (f : Firing)
  /-- Its transaction, after which the gate is released. -/
  | fire (f : Firing)
  /-- It gives up before the transaction. -/
  | giveUp (f : Firing)
  /-- Any other commit. -/
  | commit (c : Commit)
  /-- The process dies, and its locks with it. -/
  | crash

/-- What a fire holds after its reads. -/
def Firing.prepared (f : Firing) (s : Store) : Firing :=
  { f with
    owner := s.getTimerOwner f.timer.id
    prev := (s.runsForTimer f.timer.id).getLast? }

theorem Firing.wp_prepare {f : Firing} {Q : Firing → ReplyState → Prop}
    {E : Abort → ReplyState → Prop} {r : ReplyState} :
    wp f.prepare Q E r ↔ Q (f.prepared r.store) r := by
  unfold Firing.prepare
  rfl

/-- The steps of the service.  A gate is held by one fire of its timer, and
a crash releases all of them. -/
def service [Calendar] (cfg : FireConfig) : System Service ServiceStep where
  init s := s = {}
  step s i s' :=
    match i with
    | .read f =>
      (∀ g ∈ s.firing, g.timer.id ≠ f.timer.id) ∧
      (f.prepared s.memory.store).Identified ∧
      s' = { s with firing := f.prepared s.memory.store :: s.firing }
    | .fire f =>
      f ∈ s.firing ∧
      s' = { memory := (Commit.fire f).after cfg s.memory
             firing := s.firing.filter fun g => g.timer.id ≠ f.timer.id }
    | .giveUp f => s' = { s with firing := s.firing.filter fun g => g.timer.id ≠ f.timer.id }
    | .commit c => c.claims = false ∧ s' = { s with memory := c.after cfg s.memory }
    | .crash => s' = { memory := Commit.crash.after cfg s.memory }

/-- A gated fire stays so while its timer's current run does. -/
theorem Firing.Gated.congr {f : Firing} {s s' : Store} (h : f.Gated s)
    (hn : s'.newest f.timer.id = s.newest f.timer.id) : f.Gated s' :=
  ⟨h.prev.trans hn.symm, h.barrier⟩

theorem Commit.gated_of_not_claims {c : Commit} (hc : c.claims = false) (s : Store) :
    c.Gated s := by
  cases c with
  | claimRun timerId scheduledFor now => cases hc
  | fire f => cases hc
  | _ => trivial

/-- The fires at work are gated. -/
structure Service.Ok (s : Service) : Prop where
  wf : s.memory.store.Wf
  gate : ∀ f ∈ s.firing, f.Gated s.memory.store

section

variable [Calendar] {cfg : FireConfig}

/-- A step of the service is a step of `gated`, or changes no table. -/
theorem Service.Ok.step {s s' : Service} {i : ServiceStep} (h : s.Ok)
    (hstep : (service cfg).step s i s') :
    s'.Ok ∧ ((∃ c, (gated cfg).step s.memory c s'.memory) ∨ s'.memory = s.memory) := by
  cases i with
  | read f =>
    obtain ⟨-, hbarrier, rfl⟩ := hstep
    refine ⟨⟨h.wf, fun g hg => ?_⟩, .inr rfl⟩
    rcases List.mem_cons.mp hg with rfl | hg
    · exact ⟨rfl, hbarrier⟩
    · exact h.gate g hg
  | fire f =>
    obtain ⟨hmem, rfl⟩ := hstep
    refine ⟨⟨Commit.wf h.wf, fun g hg => ?_⟩, .inl ⟨Commit.fire f, h.gate f hmem, rfl⟩⟩
    obtain ⟨hg, hne⟩ := List.mem_filter.mp hg
    have hne : g.timer.id ≠ f.timer.id := by simpa using hne
    refine (h.gate g hg).congr ?_
    rcases Commit.effect cfg (.fire f) h.wf with hsame | ⟨claim, hfired⟩
    · exact Store.newest_congr hsame _
    · rw [hfired.newest_eq h.wf, if_neg hne.symm]
  | giveUp f =>
    obtain rfl := hstep
    exact ⟨⟨h.wf, fun g hg => h.gate g (List.mem_of_mem_filter hg)⟩, .inr rfl⟩
  | commit c =>
    obtain ⟨hc, rfl⟩ := hstep
    exact ⟨⟨Commit.wf h.wf, fun g hg => (h.gate g hg).congr (Commit.newest_eq h.wf hc _)⟩,
      .inl ⟨c, Commit.gated_of_not_claims hc _, rfl⟩⟩
  | crash =>
    obtain rfl := hstep
    exact ⟨⟨Commit.wf h.wf, fun _ hf => (List.not_mem_nil hf).elim⟩,
      .inl ⟨Commit.crash, trivial, rfl⟩⟩

/-- **The gate**: whatever comes between the reads of a fire and its
transaction, the service runs as the gated system does. -/
theorem gated_of_service {tr : List (System.Event Service ServiceStep)} {s : Service}
    (h : (service cfg).Run {} tr s) :
    s.Ok ∧ ∃ tr', (gated cfg).Run {} tr' s.memory := by
  refine h.trace_induction (J := fun _ s => s.Ok ∧ ∃ tr', (gated cfg).Run {} tr' s.memory) ?_ ?_
  · exact ⟨⟨Store.wf_empty, fun _ hf => (List.not_mem_nil hf).elim⟩, [], .nil⟩
  · rintro tr s i s' - hstep ⟨hok, tr', hrun⟩
    obtain ⟨hok', ⟨c, hc⟩ | hsame⟩ := hok.step hstep
    · exact ⟨hok', _, hrun.snoc hc⟩
    · exact ⟨hok', tr', hsame ▸ hrun⟩

end

end Bellman

/-
Bellman/Neighbours.lean

What else fires near the instants that an edit would fire at.

The query runs every timer forward from one cursor, just before the window of
the earliest candidate, for at most forty-eight fires, and holds each fire
against each candidate:

          after          c₁             c₂
    ────────┼───·──·──·──┼──·──·──·──···──┼───
            fire 1, 2, 3 …          48 ┆

A fire on the second of the candidate is a collision, any other fire in the
window is nearby.  A fire past the forty-eighth is not looked at, however
near it is to a later candidate.

Main result: with timers of distinct ids the answer for every candidate is
exact, and the answer that this candidate has alone, if and only if no instant
overflows and the forty-eight fires show, second by second, what fires in its
window (`neighboursExact_iff`).
-/
import Bellman.Lib.Tidy
import Bellman.Models
import Bellman.Windows
import Mathlib.Data.Char
import Mathlib.Data.List.Lex
import Mathlib.Data.Prod.Lex

namespace Bellman

open ProgramLogic

/-! ### The answer -/

def NEIGHBOUR_HORIZON_SECS : Int := 14 * 24 * 60 * 60

def NEIGHBOUR_MAX_FIRES_PER_TIMER : Nat := 48

inductive NeighbourRelation where
  | collision
  | nearby
  deriving Repr, DecidableEq

def NeighbourRelation.asStr : NeighbourRelation → String
  | collision => "collision"
  | nearby => "nearby"

/-- A fire of a stored timer at or near a candidate.  The text of an id is
ordered as its number is. -/
structure NeighbourHitDto where
  timerId : Uuid
  name : String
  fireUtc : Int
  localDate : List Char
  localTime : List Char
  offset : List Char
  tzName : String
  occurrenceKind : String
  actionKind : String
  deltaSecs : Int
  relation : String
  deriving Repr, DecidableEq

structure CandidateNeighboursDto where
  candidateUtc : Int
  collisions : List NeighbourHitDto
  nearby : List NeighbourHitDto
  deriving Repr, DecidableEq

structure NeighbourStatsDto where
  timersScanned : Nat := 0
  timersSkippedDisabled : Nat := 0
  timersSkippedExcluded : Nat := 0
  firesExpanded : Nat := 0
  deriving Repr, DecidableEq

structure QueryNeighboursResponse where
  byCandidate : List CandidateNeighboursDto
  collisions : List NeighbourHitDto
  nearby : List NeighbourHitDto
  stats : NeighbourStatsDto
  windowSecs : Int
  horizonSecs : Int := NEIGHBOUR_HORIZON_SECS
  maxFiresPerTimer : Nat := NEIGHBOUR_MAX_FIRES_PER_TIMER
  deriving Repr, DecidableEq

namespace Neighbours

open Windows (shiftUtc shiftUtc_eq_ok)

/-! ### One fire and one candidate -/

def classifyDelta (deltaSecs windowSecs : Int) : Option NeighbourRelation :=
  if deltaSecs = 0 then some .collision
  else if |deltaSecs| ≤ windowSecs then some .nearby
  else none

def truncateToSecond (t : Int) : Int := t / NS * NS

/-- `(fire_s - cand).num_seconds()`, of instants on whole seconds. -/
def delta (fire cand : Int) : Int := (truncateToSecond fire - cand) / NS

def actionKindName : Action → String
  | .none => "none"
  | .launch .. => "launch"
  | .notify .. => "notify"

def neighbourHit (z : Zone) (t : Timer) (fireS deltaSecs : Int) (rel : NeighbourRelation) :
    NeighbourHitDto where
  timerId := t.id
  name := t.name
  fireUtc := fireS
  localDate := fmtDate (Local.date (z.toLocal fireS))
  localTime := fmtTime (z.toLocal fireS)
  offset := formatOffsetSecs (z.offsetAt fireS)
  tzName := t.occurrence.tz
  occurrenceKind := t.occurrence.kind.kindLabel
  actionKind := actionKindName t.action
  deltaSecs
  relation := rel.asStr

/-! ### Sorted answers -/

/-- What hits are sorted by: their distance, then name, id and instant. -/
def sortKey (h : NeighbourHitDto) : Nat ×ₗ List Char ×ₗ Nat ×ₗ Int :=
  toLex (h.deltaSecs.natAbs, toLex (h.name.toList, toLex (h.timerId.n, h.fireUtc)))

def hitLe (a b : NeighbourHitDto) : Prop := sortKey a ≤ sortKey b

instance : DecidableRel hitLe := fun a b => inferInstanceAs (Decidable (sortKey a ≤ sortKey b))

/-- Two hits of the same timer at the same instant. -/
def SameFire (a b : NeighbourHitDto) : Prop := a.timerId = b.timerId ∧ a.fireUtc = b.fireUtc

instance : DecidableRel SameFire := fun a b =>
  inferInstanceAs (Decidable (a.timerId = b.timerId ∧ a.fireUtc = b.fireUtc))

/-- `sort_hits`: in order, without repeated fires. -/
def sortHits (hits : List NeighbourHitDto) : List NeighbourHitDto := tidy hitLe SameFire hits

/-- `dedup_by` alone. -/
def dedupHits (hits : List NeighbourHitDto) : List NeighbourHitDto :=
  hits.destutter fun a b => ¬SameFire a b

/-- The nearest fire of each timer, the first of those as near. -/
def keepNearest (best : List NeighbourHitDto) (h : NeighbourHitDto) : List NeighbourHitDto :=
  if best.any (·.timerId = h.timerId) then
    best.map fun cur =>
      if cur.timerId = h.timerId ∧ h.deltaSecs.natAbs < cur.deltaSecs.natAbs then h else cur
  else best ++ [h]

/-! ### The scan -/

/-- A candidate and the hits found for it so far. -/
structure Bucket where
  cand : Int
  coll : List NeighbourHitDto
  near : List NeighbourHitDto
  deriving Repr, DecidableEq

/-- A fire is held against a candidate. -/
def Bucket.meet (z : Zone) (t : Timer) (windowSecs fire : Int) (b : Bucket) : Bucket :=
  let fireS := truncateToSecond fire
  let deltaSecs := delta fire b.cand
  match classifyDelta deltaSecs windowSecs with
  | none => b
  | some .collision =>
    { b with coll := b.coll ++ [neighbourHit z t fireS deltaSecs .collision] }
  | some .nearby => { b with near := b.near ++ [neighbourHit z t fireS deltaSecs .nearby] }

/-- `Duration::seconds`, which panics when out of range. -/
def durationSeconds (n : Int) : Except Panic Int :=
  if Occurrence.MAX_DURATION_SECS < n then .error (.durationOutOfBounds n) else .ok (secs n)

section

variable [Calendar]

def expandFires (t : Timer) (after horizonEnd : Int) (maxFires : Nat) :
    Except Panic (Zone × List Int) := do
  let z ← t.occurrence.timezone
  let fires ← t.occurrence.preview maxFires after
  return (z, fires.filter (· ≤ horizonEnd))

/-- One timer of the scan. -/
def scanTimer (exclude : Option Uuid) (windowSecs after horizonEnd : Int)
    (s : NeighbourStatsDto × List Bucket) (t : Timer) :
    Except Panic (NeighbourStatsDto × List Bucket) :=
  let stats := { s.1 with timersScanned := s.1.timersScanned + 1 }
  if t.enabled = false then
    .ok ({ stats with timersSkippedDisabled := stats.timersSkippedDisabled + 1 }, s.2)
  else if exclude = some t.id then
    .ok ({ stats with timersSkippedExcluded := stats.timersSkippedExcluded + 1 }, s.2)
  else do
    let (z, fires) ← expandFires t after horizonEnd NEIGHBOUR_MAX_FIRES_PER_TIMER
    return ({ stats with firesExpanded := stats.firesExpanded + fires.length },
      fires.foldl (fun buckets fire => buckets.map (·.meet z t windowSecs fire)) s.2)

/-- The answer that is made of the buckets. -/
def respond (windowSecs : Int) (stats : NeighbourStatsDto) (buckets : List Bucket) :
    QueryNeighboursResponse :=
  let byCandidate := buckets.map fun b =>
    { candidateUtc := b.cand, collisions := sortHits b.coll, nearby := sortHits b.near }
  let collisions := dedupHits (sortHits (byCandidate.flatMap CandidateNeighboursDto.collisions))
  let nearby := (dedupHits (sortHits (byCandidate.flatMap CandidateNeighboursDto.nearby))).filter
    fun h => !collisions.any fun c => SameFire c h
  { byCandidate, collisions, nearby := sortHits (nearby.foldl keepNearest []), stats, windowSecs }

/-- `query_neighbours_from_timers`. -/
def queryNeighboursFromTimers (timers : List Timer) (candidates : List Int)
    (exclude : Option Uuid) (windowSecs now : Int) : Except Panic QueryNeighboursResponse :=
  let windowSecs := max windowSecs 0
  if candidates = [] then
    .ok { byCandidate := [], collisions := [], nearby := [], stats := {}, windowSecs }
  else do
    let candSecs := candidates.map truncateToSecond
    let minCand := candSecs.min?.getD now
    let maxCand := candSecs.max?.getD now
    let after ← shiftUtc minCand (-(← durationSeconds (windowSecs + 1)))
    let horizonEnd ← shiftUtc maxCand (← durationSeconds (windowSecs + 1))
    let (stats, buckets) ← timers.foldlM (scanTimer exclude windowSecs after horizonEnd)
      ({}, candSecs.map fun c => ⟨c, [], []⟩)
    return respond windowSecs stats buckets

/-! ### What the answer is to be -/

/-- The schedule, executed from `after`, fires at `f`. -/
def FiresAt (occ : Occurrence) (after f : Int) : Prop :=
  ∃ tr s, Occurrence.executing.Run (occ, after) tr s ∧ f ∈ Occurrence.firesOf tr

/-- The timer is enabled and not the one that is edited. -/
def Watched (exclude : Option Uuid) (t : Timer) : Prop := t.enabled = true ∧ exclude ≠ some t.id

instance (exclude : Option Uuid) (t : Timer) : Decidable (Watched exclude t) :=
  inferInstanceAs (Decidable (t.enabled = true ∧ exclude ≠ some t.id))

/-- A second before the window of a candidate. -/
def windowStart (w c : Int) : Int := c - secs (w + 1)

/-- The hit is a fire of one of the timers, at one of the distances. -/
def IsNeighbour (timers : List Timer) (exclude : Option Uuid) (w c : Int)
    (rel : NeighbourRelation) (distance : Int → Prop) (hit : NeighbourHitDto) : Prop :=
  ∃ t ∈ timers, Watched exclude t ∧ ∃ z f, Calendar.zone t.occurrence.tz = some z ∧
    FiresAt t.occurrence (windowStart w c) f ∧ distance (delta f c) ∧
    hit = neighbourHit z t (truncateToSecond f) (delta f c) rel

/-- The answer for a candidate: on its second the collisions, elsewhere in
its window what is nearby, and nothing else. -/
structure Exact (timers : List Timer) (exclude : Option Uuid) (w c : Int)
    (entry : CandidateNeighboursDto) : Prop where
  candidate : entry.candidateUtc = c
  collisions : ∀ hit, hit ∈ entry.collisions ↔
    IsNeighbour timers exclude w c .collision (· = 0) hit
  nearby : ∀ hit, hit ∈ entry.nearby ↔
    IsNeighbour timers exclude w c .nearby (fun d => d ≠ 0 ∧ |d| ≤ w) hit

/-- Every candidate has the exact answer, and has it alone as well. -/
def NeighboursExact (timers : List Timer) (candidates : List Int) (exclude : Option Uuid)
    (windowSecs now : Int) : Prop :=
  ∃ r, queryNeighboursFromTimers timers candidates exclude windowSecs now = .ok r ∧
    List.Forall₂ (fun c entry =>
      Exact timers exclude (max windowSecs 0) (truncateToSecond c) entry ∧
      ∃ r₁, queryNeighboursFromTimers timers [c] exclude windowSecs now = .ok r₁ ∧
        r₁.byCandidate = [entry]) candidates r.byCandidate

/-! ### When it is -/

/-- The fires that are looked at show, second by second, what fires in the
window of a candidate. -/
def Shows (occ : Occurrence) (w after c : Int) : Prop :=
  ∃ fires, occ.preview NEIGHBOUR_MAX_FIRES_PER_TIMER after = .ok fires ∧
    ∀ d, |d| ≤ w → ((∃ f ∈ fires, delta f c = d) ↔
      ∃ f, FiresAt occ (windowStart w c) f ∧ delta f c = d)

/-- The timers are seen from just before the window of `first`, in the window
of `c`. -/
def AllShown (timers : List Timer) (exclude : Option Uuid) (w first c : Int) : Prop :=
  ∀ t ∈ timers, Watched exclude t → (∃ z, Calendar.zone t.occurrence.tz = some z) ∧
    Shows t.occurrence w (windowStart w first) c

/-- The candidates, on whole seconds. -/
def seconds (candidates : List Int) : Set Int := {c | c ∈ candidates.map truncateToSecond}

/-- What it takes: the windows are within the calendar, and what fires in
them is seen both from the earliest candidate and from the candidate itself. -/
structure Reached (timers : List Timer) (candidates : List Int) (exclude : Option Uuid)
    (w : Int) : Prop where
  duration : candidates ≠ [] → w + 1 ≤ Occurrence.MAX_DURATION_SECS
  range : ∀ c ∈ seconds candidates, minUtc ≤ windowStart w c ∧
    c + secs (w + 1) ≤ Occurrence.maxUtc
  shown : ∀ c ∈ seconds candidates, ∀ first, IsLeast (seconds candidates) first →
    AllShown timers exclude w first c
  alone : ∀ c ∈ seconds candidates, AllShown timers exclude w c c

/-! ### The scan, timer by timer -/

variable {timers : List Timer} {candidates : List Int} {exclude : Option Uuid} {t : Timer}
  {z : Zone} {w c d f after horizonEnd first last : Int} {rel : NeighbourRelation}
  {hit : NeighbourHitDto} {fires : List Int} {b : Bucket} {buckets : List Bucket}
  {stats : NeighbourStatsDto}

/-- The relation of a fire in the window. -/
def relOf (d : Int) : NeighbourRelation := if d = 0 then .collision else .nearby

omit [Calendar] in
theorem classifyDelta_eq_some (hw : 0 ≤ w) :
    classifyDelta d w = some rel ↔ |d| ≤ w ∧ relOf d = rel := by
  unfold classifyDelta relOf
  by_cases hd : d = 0
  · rw [if_pos hd, if_pos hd, hd, abs_zero, Option.some.injEq]
    exact (and_iff_right hw).symm
  · rw [if_neg hd, if_neg hd]
    by_cases hle : |d| ≤ w
    · rw [if_pos hle, Option.some.injEq]
      exact (and_iff_right hle).symm
    · rw [if_neg hle]
      exact ⟨nofun, fun h => absurd h.1 hle⟩

/-- The hits of a timer's fires that stand in a relation to a candidate. -/
def hitsOn (z : Zone) (t : Timer) (w : Int) (rel : NeighbourRelation) (c : Int)
    (fires : List Int) : List NeighbourHitDto :=
  fires.filterMap fun f =>
    if classifyDelta (delta f c) w = some rel then
      some (neighbourHit z t (truncateToSecond f) (delta f c) rel)
    else none

omit [Calendar] in
theorem meet_eq (z : Zone) (t : Timer) (w f : Int) (b : Bucket) : b.meet z t w f =
    ⟨b.cand, b.coll ++ hitsOn z t w .collision b.cand [f],
      b.near ++ hitsOn z t w .nearby b.cand [f]⟩ := by
  unfold Bucket.meet hitsOn
  rcases h : classifyDelta (delta f b.cand) w with - | (_ | _) <;> simp [h]

omit [Calendar] in
theorem foldl_meet (z : Zone) (t : Timer) (w : Int) (fires : List Int) (buckets : List Bucket) :
    fires.foldl (fun buckets fire => buckets.map (·.meet z t w fire)) buckets =
      buckets.map fun b => ⟨b.cand, b.coll ++ hitsOn z t w .collision b.cand fires,
        b.near ++ hitsOn z t w .nearby b.cand fires⟩ := by
  induction fires generalizing buckets with
  | nil => simp [hitsOn]
  | cons f fires ih =>
    rw [List.foldl_cons, ih, List.map_map]
    refine List.map_congr_left fun b _ => ?_
    have happend : ∀ rel, hitsOn z t w rel b.cand (f :: fires) =
        hitsOn z t w rel b.cand [f] ++ hitsOn z t w rel b.cand fires := fun rel =>
      List.filterMap_append (l := [f])
    rw [Function.comp_apply, meet_eq, happend, happend, List.append_assoc, List.append_assoc]

/-- The hits that the scan finds for a candidate. -/
def found (exclude : Option Uuid) (w after horizonEnd : Int) (rel : NeighbourRelation)
    (timers : List Timer) (c : Int) : List NeighbourHitDto :=
  timers.flatMap fun t =>
    if Watched exclude t then
      match expandFires t after horizonEnd NEIGHBOUR_MAX_FIRES_PER_TIMER with
      | .ok (z, fires) => hitsOn z t w rel c fires
      | .error _ => []
    else []

/-- Every timer that is watched can be expanded. -/
def Expands (timers : List Timer) (exclude : Option Uuid) (after horizonEnd : Int) : Prop :=
  ∀ t ∈ timers, Watched exclude t →
    ∃ p, expandFires t after horizonEnd NEIGHBOUR_MAX_FIRES_PER_TIMER = .ok p

/-- What a bucket holds after the scan. -/
def filled (exclude : Option Uuid) (w after horizonEnd : Int) (timers : List Timer) (b : Bucket) :
    Bucket :=
  ⟨b.cand, b.coll ++ found exclude w after horizonEnd .collision timers b.cand,
    b.near ++ found exclude w after horizonEnd .nearby timers b.cand⟩

theorem filled_nil (b : Bucket) : filled exclude w after horizonEnd [] b = b := by
  simp [filled, found]

theorem filled_cons (t : Timer) (timers : List Timer) (b : Bucket) :
    filled exclude w after horizonEnd (t :: timers) b =
      filled exclude w after horizonEnd timers (filled exclude w after horizonEnd [t] b) := by
  simp [filled, found]

theorem scanTimer_of_not_watched (w after horizonEnd : Int) (stats : NeighbourStatsDto)
    (buckets : List Bucket) (h : ¬Watched exclude t) :
    (∃ stats', scanTimer exclude w after horizonEnd (stats, buckets) t = .ok (stats', buckets)) ∧
      ∀ b, filled exclude w after horizonEnd [t] b = b := by
  constructor
  · unfold scanTimer
    by_cases hoff : t.enabled = false
    · exact ⟨_, if_pos hoff⟩
    · have hexcluded : exclude = some t.id := by
        by_contra hne
        exact h ⟨by simpa using hoff, hne⟩
      exact ⟨_, (if_neg hoff).trans (if_pos hexcluded)⟩
  · intro b
    simp [filled, found, h]

theorem scanTimer_of_watched (h : Watched exclude t) :
    scanTimer exclude w after horizonEnd (stats, buckets) t =
      (expandFires t after horizonEnd NEIGHBOUR_MAX_FIRES_PER_TIMER).map fun p =>
        ({ stats with
            timersScanned := stats.timersScanned + 1
            firesExpanded := stats.firesExpanded + p.2.length },
          buckets.map (filled exclude w after horizonEnd [t])) := by
  unfold scanTimer
  rw [if_neg (by simp [h.1]), if_neg h.2]
  cases hexpand : expandFires t after horizonEnd NEIGHBOUR_MAX_FIRES_PER_TIMER with
  | error p => rfl
  | ok p =>
    obtain ⟨z, fires⟩ := p
    simp only [bind, Except.bind, pure, Except.pure, Except.map, foldl_meet]
    simp [filled, found, h, hexpand]

/-- **The scan** goes through when every timer that is watched can be expanded,
and then it fills the buckets with what it finds. -/
theorem scan_spec (exclude : Option Uuid) (w after horizonEnd : Int) (timers : List Timer)
    (stats : NeighbourStatsDto) (buckets : List Bucket) :
    (∀ s, timers.foldlM (scanTimer exclude w after horizonEnd) (stats, buckets) = .ok s →
      Expands timers exclude after horizonEnd ∧
        s.2 = buckets.map (filled exclude w after horizonEnd timers)) ∧
    (Expands timers exclude after horizonEnd →
      ∃ s, timers.foldlM (scanTimer exclude w after horizonEnd) (stats, buckets) = .ok s) := by
  induction timers generalizing stats buckets with
  | nil =>
    rw [List.foldlM_nil]
    refine ⟨fun s hs => ⟨fun _ ht => absurd ht List.not_mem_nil, ?_⟩, fun _ => ⟨_, rfl⟩⟩
    obtain rfl : (stats, buckets) = s := Except.ok.inj hs
    rw [funext filled_nil]
    exact (List.map_id' buckets).symm
  | cons t timers ih =>
    have hcons : filled exclude w after horizonEnd (t :: timers) =
        filled exclude w after horizonEnd timers ∘ filled exclude w after horizonEnd [t] :=
      funext (filled_cons t timers)
    rw [List.foldlM_cons, hcons, ← List.map_map]
    by_cases hwatched : Watched exclude t
    · rw [scanTimer_of_watched hwatched]
      cases hexpand : expandFires t after horizonEnd NEIGHBOUR_MAX_FIRES_PER_TIMER with
      | error p =>
        refine ⟨nofun, fun h => ?_⟩
        obtain ⟨q, hq⟩ := h t List.mem_cons_self hwatched
        cases hexpand.symm.trans hq
      | ok p =>
        have hih := ih { stats with
          timersScanned := stats.timersScanned + 1
          firesExpanded := stats.firesExpanded + p.2.length }
          (buckets.map (filled exclude w after horizonEnd [t]))
        refine ⟨fun s hs => ?_, fun h => ?_⟩
        · obtain ⟨hexpands, hfilled⟩ := hih.1 s hs
          exact ⟨List.forall_mem_cons.mpr ⟨fun _ => ⟨p, hexpand⟩, hexpands⟩, hfilled⟩
        · exact hih.2 (List.forall_mem_cons.mp h).2
    · obtain ⟨⟨stats', hscan⟩, hsame⟩ := scanTimer_of_not_watched w after horizonEnd stats
        buckets hwatched
      have hid : buckets.map (filled exclude w after horizonEnd [t]) = buckets := by
        rw [funext hsame]
        exact List.map_id' buckets
      rw [hscan, hid]
      refine ⟨fun s hs => ?_, fun h => ?_⟩
      · obtain ⟨hexpands, hfilled⟩ := (ih stats' buckets).1 s hs
        exact ⟨List.forall_mem_cons.mpr ⟨fun h => absurd h hwatched, hexpands⟩, hfilled⟩
      · exact (ih stats' buckets).2 (List.forall_mem_cons.mp h).2

/-! ### The query -/

theorem expandFires_eq_ok {p : Zone × List Int} : expandFires t after horizonEnd
    NEIGHBOUR_MAX_FIRES_PER_TIMER = .ok p ↔ Calendar.zone t.occurrence.tz = some p.1 ∧
      ∃ fires, t.occurrence.preview NEIGHBOUR_MAX_FIRES_PER_TIMER after = .ok fires ∧
        p.2 = fires.filter (· ≤ horizonEnd) := by
  obtain ⟨z, all⟩ := p
  unfold expandFires Occurrence.timezone
  cases hz : Calendar.zone t.occurrence.tz with
  | none =>
    constructor
    · exact nofun
    · rintro ⟨h, -⟩
      cases h
  | some z' =>
    cases hp : t.occurrence.preview NEIGHBOUR_MAX_FIRES_PER_TIMER after with
    | error q =>
      constructor
      · exact nofun
      · rintro ⟨-, fires, h, -⟩
        cases h
    | ok fires =>
      constructor
      · rintro ⟨⟩
        exact ⟨rfl, fires, rfl, rfl⟩
      · rintro ⟨h, fires', h', rfl⟩
        cases h
        cases h'
        rfl

theorem mem_found : hit ∈ found exclude w after horizonEnd rel timers c ↔
    ∃ t ∈ timers, Watched exclude t ∧ ∃ z fires, Calendar.zone t.occurrence.tz = some z ∧
      t.occurrence.preview NEIGHBOUR_MAX_FIRES_PER_TIMER after = .ok fires ∧
      ∃ f ∈ fires, f ≤ horizonEnd ∧ classifyDelta (delta f c) w = some rel ∧
        hit = neighbourHit z t (truncateToSecond f) (delta f c) rel := by
  unfold found
  rw [List.mem_flatMap]
  refine exists_congr fun t => and_congr_right fun _ => ?_
  by_cases hwatched : Watched exclude t
  · rw [if_pos hwatched, and_iff_right hwatched]
    constructor
    · intro h
      split at h
      · next z fires hexpand =>
        obtain ⟨hz, all, hall, hfires⟩ := expandFires_eq_ok.mp hexpand
        dsimp only at hfires hz
        obtain ⟨f, hf, hhit⟩ := List.mem_filterMap.mp h
        rw [hfires, List.mem_filter] at hf
        split at hhit
        · next hclass =>
          exact ⟨z, all, hz, hall, f, hf.1, of_decide_eq_true hf.2, hclass,
            (Option.some.inj hhit).symm⟩
        · cases hhit
      · cases h
    · rintro ⟨z, all, hz, hall, f, hf, hle, hclass, rfl⟩
      rw [(expandFires_eq_ok (p := (z, all.filter (· ≤ horizonEnd)))).mpr ⟨hz, all, hall, rfl⟩]
      exact List.mem_filterMap.mpr ⟨f, List.mem_filter.mpr ⟨hf, decide_eq_true hle⟩, if_pos hclass⟩
  · rw [if_neg hwatched]
    exact ⟨nofun, fun h => absurd h.1 hwatched⟩

/-- The answer for a candidate that the scan makes. -/
def entryOf (timers : List Timer) (exclude : Option Uuid) (w after horizonEnd c : Int) :
    CandidateNeighboursDto where
  candidateUtc := c
  collisions := sortHits (found exclude w after horizonEnd .collision timers c)
  nearby := sortHits (found exclude w after horizonEnd .nearby timers c)

/-- The window and the second on either side of it are within the calendar,
for every candidate. -/
structure QueryFits (w first last : Int) : Prop where
  duration : w + 1 ≤ Occurrence.MAX_DURATION_SECS
  start : minUtc ≤ windowStart w first
  end_ : last + secs (w + 1) ≤ Occurrence.maxUtc

omit [Calendar] in
theorem min?_getD {now : Int} (h : IsLeast (seconds candidates) first) :
    (candidates.map truncateToSecond).min?.getD now = first := by
  have hmin : (candidates.map truncateToSecond).min? = some first :=
    List.min?_eq_some_iff.mpr ⟨h.1, fun c hc => h.2 hc⟩
  rw [hmin]
  rfl

omit [Calendar] in
theorem max?_getD {now : Int} (h : IsGreatest (seconds candidates) last) :
    (candidates.map truncateToSecond).max?.getD now = last := by
  have hmax : (candidates.map truncateToSecond).max? = some last :=
    List.max?_eq_some_iff.mpr ⟨h.1, fun c hc => h.2 hc⟩
  rw [hmax]
  rfl

omit [Calendar] in
theorem secs_nonneg (hw : 0 ≤ w) : 0 ≤ secs (w + 1) := by
  unfold secs NS
  omega

/-- **A query** goes through when no instant overflows and every timer can be
expanded, and then there is an entry for each candidate. -/
theorem query_spec (timers : List Timer) (exclude : Option Uuid) {windowSecs : Int} (now : Int)
    (hw : w = max windowSecs 0) (hfirst : IsLeast (seconds candidates) first)
    (hlast : IsGreatest (seconds candidates) last) :
    (∀ r, queryNeighboursFromTimers timers candidates exclude windowSecs now = .ok r →
      (QueryFits w first last ∧
        Expands timers exclude (windowStart w first) (last + secs (w + 1))) ∧
      r.byCandidate = candidates.map fun c => entryOf timers exclude w (windowStart w first)
        (last + secs (w + 1)) (truncateToSecond c)) ∧
    (QueryFits w first last →
      Expands timers exclude (windowStart w first) (last + secs (w + 1)) →
      ∃ r, queryNeighboursFromTimers timers candidates exclude windowSecs now = .ok r) := by
  have hne : candidates ≠ [] := by
    rintro rfl
    exact absurd hfirst.1 List.not_mem_nil
  have hle : first ≤ last := hfirst.2 hlast.1
  have hspan := secs_nonneg (w := w) (by omega)
  unfold queryNeighboursFromTimers durationSeconds
  rw [if_neg hne, ← hw]
  dsimp only
  rw [min?_getD hfirst, max?_getD hlast]
  by_cases hlong : Occurrence.MAX_DURATION_SECS < w + 1
  · rw [if_pos hlong]
    exact ⟨nofun, fun hfits => absurd hfits.duration (Int.not_le.mpr hlong)⟩
  rw [if_neg hlong]
  cases hafter : shiftUtc first (-secs (w + 1)) with
  | error p =>
    refine ⟨fun r hr => ?_, fun hfits => ?_⟩
    · simp only [bind, Except.bind, hafter] at hr
      cases hr
    · have hstart := hfits.start
      have hend := hfits.end_
      unfold windowStart at hstart
      cases hafter.symm.trans (shiftUtc_eq_ok.mpr ⟨⟨by omega, by omega⟩, rfl⟩)
  | ok after =>
    obtain ⟨⟨hstart, -⟩, rfl⟩ := shiftUtc_eq_ok.mp hafter
    cases hhorizon : shiftUtc last (secs (w + 1)) with
    | error p =>
      refine ⟨fun r hr => ?_, fun hfits => ?_⟩
      · simp only [bind, Except.bind, hafter, hhorizon] at hr
        cases hr
      · have hend := hfits.end_
        cases hhorizon.symm.trans (shiftUtc_eq_ok.mpr ⟨⟨by omega, hend⟩, rfl⟩)
    | ok horizonEnd =>
      obtain ⟨⟨-, hend⟩, rfl⟩ := shiftUtc_eq_ok.mp hhorizon
      have hfits : QueryFits w first last := ⟨Int.not_lt.mp hlong, hstart, hend⟩
      obtain ⟨hscan, hruns⟩ := scan_spec exclude w (windowStart w first)
        (last + secs (w + 1)) timers {}
        ((candidates.map truncateToSecond).map fun c => ⟨c, [], []⟩)
      simp only [bind, Except.bind, hafter, hhorizon]
      refine ⟨fun r hr => ?_, fun _ hexpands => ?_⟩
      · split at hr
        · cases hr
        · next s hs =>
          obtain ⟨hexpands, hbuckets⟩ := hscan s hs
          obtain rfl := Except.ok.inj hr
          refine ⟨⟨hfits, hexpands⟩, ?_⟩
          show s.2.map _ = _
          rw [hbuckets, List.map_map, List.map_map, List.map_map]
          rfl
      · obtain ⟨s, hs⟩ := hruns hexpands
        refine ⟨respond w s.1 s.2, ?_⟩
        split
        · next p hp => cases hs.symm.trans hp
        · next s' hs' =>
          obtain rfl := Except.ok.inj (hs.symm.trans hs')
          rfl

/-! ### Seconds -/

omit [Calendar] in
theorem whole_of_mem (hc : c ∈ seconds candidates) : NS ∣ c := by
  obtain ⟨x, -, rfl⟩ := List.mem_map.mp hc
  exact Dvd.intro_left (x / NS) rfl

omit [Calendar] in
theorem delta_eq (hc : NS ∣ c) (f : Int) : delta f c = f / NS - c / NS := by
  obtain ⟨k, rfl⟩ := hc
  unfold delta truncateToSecond NS
  omega

omit [Calendar] in
/-- Fires at the same distance are in the same second. -/
theorem truncate_eq {f' : Int} (hc : NS ∣ c) (h : delta f c = delta f' c) :
    truncateToSecond f = truncateToSecond f' := by
  rw [delta_eq hc, delta_eq hc] at h
  unfold truncateToSecond
  rw [show f / NS = f' / NS by omega]

omit [Calendar] in
theorem delta_congr {f' : Int} (h : truncateToSecond f = truncateToSecond f') (c : Int) :
    delta f c = delta f' c := by
  unfold delta
  rw [h]

omit [Calendar] in
/-- A fire in the window comes before the horizon. -/
theorem le_horizon (hc : NS ∣ c) (h : |delta f c| ≤ w) : f ≤ c + secs (w + 1) := by
  have hle := (le_abs_self (delta f c)).trans h
  rw [delta_eq hc] at hle
  obtain ⟨k, rfl⟩ := hc
  unfold secs NS at *
  omega

/-! ### Hits -/

instance : Std.Total hitLe := ⟨fun a b => le_total (sortKey a) (sortKey b)⟩

instance : IsTrans NeighbourHitDto hitLe := ⟨fun _ _ _ h h' => le_trans (α := _ ×ₗ _) h h'⟩

omit [Calendar] in
/-- The order tells hits of different fires apart. -/
theorem sameFire_of_le {a b : NeighbourHitDto} (h : hitLe a b) (h' : hitLe b a) : SameFire a b := by
  have hkey : sortKey a = sortKey b := le_antisymm h h'
  have hfire := congrArg (fun k => (ofLex (ofLex (ofLex k).2).2)) hkey
  obtain ⟨hid, hutc⟩ := Prod.mk.inj hfire
  exact ⟨congrArg Uuid.mk hid, hutc⟩

omit [Calendar] in
theorem eq_of_id (hids : (timers.map Timer.id).Nodup) {t' : Timer} (ht : t ∈ timers)
    (ht' : t' ∈ timers) (h : t.id = t'.id) : t = t' :=
  List.inj_on_of_nodup_map hids ht ht' h

/-- With distinct ids a fire has one hit in the relation to a candidate. -/
theorem eq_of_sameFire (hids : (timers.map Timer.id).Nodup) {a b : NeighbourHitDto}
    (ha : a ∈ found exclude w after horizonEnd rel timers c)
    (hb : b ∈ found exclude w after horizonEnd rel timers c) (h : SameFire a b) : a = b := by
  obtain ⟨t, ht, -, z, fires, hz, -, f, -, -, -, rfl⟩ := mem_found.mp ha
  obtain ⟨t', ht', -, z', fires', hz', -, f', -, -, -, rfl⟩ := mem_found.mp hb
  obtain ⟨hid, hutc⟩ := h
  obtain rfl := eq_of_id hids ht ht' hid
  obtain rfl := Option.some.inj (hz.symm.trans hz')
  have hsec : truncateToSecond f = truncateToSecond f' := hutc
  rw [hsec, delta_congr hsec]

theorem mem_sortHits (hids : (timers.map Timer.id).Nodup) :
    hit ∈ sortHits (found exclude w after horizonEnd rel timers c) ↔
      hit ∈ found exclude w after horizonEnd rel timers c :=
  mem_tidy fun _ ha _ hb => eq_of_sameFire hids ha hb

/-! ### Exact answers -/

omit [Calendar] in
theorem collision_iff (hw : 0 ≤ w) : d = 0 ↔ |d| ≤ w ∧ relOf d = .collision := by
  rw [← classifyDelta_eq_some hw]
  unfold classifyDelta
  by_cases hd : d = 0
  · simp [hd]
  · simp only [hd, if_false, false_iff]
    split <;> exact nofun

omit [Calendar] in
theorem nearby_iff : d ≠ 0 ∧ |d| ≤ w ↔ |d| ≤ w ∧ relOf d = .nearby := by
  unfold relOf
  by_cases hd : d = 0
  · simp [hd]
  · simp [hd]

/-- The distances in the window at which a fire has the relation. -/
def InWindow (w : Int) (rel : NeighbourRelation) (d : Int) : Prop := |d| ≤ w ∧ relOf d = rel

theorem exact_iff_found (hids : (timers.map Timer.id).Nodup) (hw : 0 ≤ w) :
    Exact timers exclude w c (entryOf timers exclude w after horizonEnd c) ↔
      ∀ rel hit, hit ∈ found exclude w after horizonEnd rel timers c ↔
        IsNeighbour timers exclude w c rel (InWindow w rel) hit := by
  have hcoll : (· = 0) = InWindow w .collision := funext fun d => propext (collision_iff hw)
  have hnear : (fun d => d ≠ 0 ∧ |d| ≤ w) = InWindow w .nearby :=
    funext fun d => propext nearby_iff
  constructor
  · intro h rel hit
    cases rel with
    | collision =>
      rw [← mem_sortHits hids, ← hcoll]
      exact h.collisions hit
    | nearby =>
      rw [← mem_sortHits hids, ← hnear]
      exact h.nearby hit
  · intro h
    refine ⟨rfl, fun hit => ?_, fun hit => ?_⟩
    · rw [hcoll, ← h]
      exact mem_sortHits hids
    · rw [hnear, ← h]
      exact mem_sortHits hids

/-- What a timer's hits say of its fires. -/
theorem exact_iff (hids : (timers.map Timer.id).Nodup) (hw : 0 ≤ w) (hc : NS ∣ c)
    (hend : c + secs (w + 1) ≤ horizonEnd) (hexpands : Expands timers exclude after horizonEnd) :
    Exact timers exclude w c (entryOf timers exclude w after horizonEnd c) ↔
      ∀ t ∈ timers, Watched exclude t → Shows t.occurrence w after c := by
  rw [exact_iff_found hids hw]
  constructor
  · intro h t ht hwatched
    obtain ⟨⟨z, all⟩, hp⟩ := hexpands t ht hwatched
    obtain ⟨hz, fires, hfires, -⟩ := expandFires_eq_ok.mp hp
    refine ⟨fires, hfires, fun d hd => ⟨?_, ?_⟩⟩
    · rintro ⟨f, hf, rfl⟩
      have hfound := mem_found.mpr ⟨t, ht, hwatched, z, fires, hz, hfires, f, hf,
        (le_horizon hc hd).trans hend, (classifyDelta_eq_some hw).mpr ⟨hd, rfl⟩, rfl⟩
      obtain ⟨t', ht', -, z', f', -, hfires', -, heq⟩ := (h _ _).mp hfound
      obtain rfl := eq_of_id hids ht ht' (congrArg NeighbourHitDto.timerId heq)
      exact ⟨f', hfires', (congrArg NeighbourHitDto.deltaSecs heq).symm⟩
    · rintro ⟨f, hf, rfl⟩
      have hhit := (h (relOf (delta f c)) _).mpr ⟨t, ht, hwatched, z, f, hz, hf, ⟨hd, rfl⟩, rfl⟩
      obtain ⟨t', ht', -, z', fires', -, hfires', f', hf', -, -, heq⟩ := mem_found.mp hhit
      obtain rfl := eq_of_id hids ht ht' (congrArg NeighbourHitDto.timerId heq)
      obtain rfl := Except.ok.inj (hfires.symm.trans hfires')
      exact ⟨f', hf', (congrArg NeighbourHitDto.deltaSecs heq).symm⟩
  · intro h rel hit
    rw [mem_found]
    constructor
    · rintro ⟨t, ht, hwatched, z, fires, hz, hfires, f, hf, -, hclass, rfl⟩
      obtain ⟨hd, hrel⟩ := (classifyDelta_eq_some hw).mp hclass
      obtain ⟨fires', hfires', hshows⟩ := h t ht hwatched
      obtain rfl := Except.ok.inj (hfires.symm.trans hfires')
      obtain ⟨f', hf', hdelta⟩ := (hshows _ hd).mp ⟨f, hf, rfl⟩
      refine ⟨t, ht, hwatched, z, f', hz, hf', ?_, ?_⟩
      · rw [hdelta]
        exact ⟨hd, hrel⟩
      · rw [hdelta, truncate_eq hc hdelta]
    · rintro ⟨t, ht, hwatched, z, f, hz, hf, ⟨hd, hrel⟩, rfl⟩
      obtain ⟨fires, hfires, hshows⟩ := h t ht hwatched
      obtain ⟨f', hf', hdelta⟩ := (hshows _ hd).mpr ⟨f, hf, rfl⟩
      rw [← hdelta] at hd hrel
      refine ⟨t, ht, hwatched, z, fires, hz, hfires, f', hf', (le_horizon hc hd).trans hend,
        (classifyDelta_eq_some hw).mpr ⟨hd, hrel⟩, ?_⟩
      rw [hdelta, truncate_eq hc hdelta]

/-- Exact answers for a candidate are one. -/
theorem entryOf_eq {after' horizonEnd' : Int} (hids : (timers.map Timer.id).Nodup) (hw : 0 ≤ w)
    (h : Exact timers exclude w c (entryOf timers exclude w after horizonEnd c))
    (h' : Exact timers exclude w c (entryOf timers exclude w after' horizonEnd' c)) :
    entryOf timers exclude w after horizonEnd c =
      entryOf timers exclude w after' horizonEnd' c := by
  have hfound := (exact_iff_found hids hw).mp h
  have hfound' := (exact_iff_found hids hw).mp h'
  have hsort : ∀ rel, sortHits (found exclude w after horizonEnd rel timers c) =
      sortHits (found exclude w after' horizonEnd' rel timers c) := fun rel =>
    tidy_eq (fun _ ha _ hb => eq_of_sameFire hids ha hb) (fun _ _ _ _ => sameFire_of_le)
      fun hit => (hfound rel hit).trans (hfound' rel hit).symm
  unfold entryOf
  rw [hsort, hsort]

theorem exact_iff_allShown (hids : (timers.map Timer.id).Nodup) (hw : 0 ≤ w) (hc : NS ∣ c)
    (hend : c + secs (w + 1) ≤ horizonEnd)
    (hexpands : Expands timers exclude (windowStart w first) horizonEnd) :
    Exact timers exclude w c (entryOf timers exclude w (windowStart w first) horizonEnd c) ↔
      AllShown timers exclude w first c := by
  rw [exact_iff hids hw hc hend hexpands]
  constructor
  · intro h t ht hwatched
    obtain ⟨p, hp⟩ := hexpands t ht hwatched
    exact ⟨⟨p.1, (expandFires_eq_ok.mp hp).1⟩, h t ht hwatched⟩
  · intro h t ht hwatched
    exact (h t ht hwatched).2

theorem AllShown.expands (h : AllShown timers exclude w first c) :
    Expands timers exclude (windowStart w first) horizonEnd := by
  intro t ht hwatched
  obtain ⟨⟨z, hz⟩, fires, hfires, -⟩ := h t ht hwatched
  exact ⟨(z, _), expandFires_eq_ok.mpr ⟨hz, fires, hfires, rfl⟩⟩

theorem query_nil (timers : List Timer) (exclude : Option Uuid) (windowSecs now : Int) :
    queryNeighboursFromTimers timers [] exclude windowSecs now = .ok
      { byCandidate := [], collisions := [], nearby := [], stats := {},
        windowSecs := max windowSecs 0 } := rfl

omit [Calendar] in
theorem exists_first_last (hne : candidates ≠ []) :
    (∃ first, IsLeast (seconds candidates) first) ∧
      ∃ last, IsGreatest (seconds candidates) last := by
  have hne' : candidates.map truncateToSecond ≠ [] := fun h => hne (List.map_eq_nil_iff.mp h)
  constructor
  · cases hmin : (candidates.map truncateToSecond).min? with
    | none => exact absurd (List.min?_eq_none_iff.mp hmin) hne'
    | some first =>
      obtain ⟨hmem, hle⟩ := List.min?_eq_some_iff.mp hmin
      exact ⟨first, hmem, fun c hc => hle c hc⟩
  · cases hmax : (candidates.map truncateToSecond).max? with
    | none => exact absurd (List.max?_eq_none_iff.mp hmax) hne'
    | some last =>
      obtain ⟨hmem, hle⟩ := List.max?_eq_some_iff.mp hmax
      exact ⟨last, hmem, fun c hc => hle c hc⟩

omit [Calendar] in
theorem seconds_singleton (x : Int) : seconds [x] = {truncateToSecond x} := by
  ext c
  show c ∈ [truncateToSecond x] ↔ _
  rw [List.mem_singleton, Set.mem_singleton_iff]

/-- A candidate that is asked about alone. -/
theorem query_alone (timers : List Timer) (exclude : Option Uuid) {windowSecs : Int} (now x : Int)
    (hw : w = max windowSecs 0) :
    (∀ r, queryNeighboursFromTimers timers [x] exclude windowSecs now = .ok r →
      (QueryFits w (truncateToSecond x) (truncateToSecond x) ∧
        Expands timers exclude (windowStart w (truncateToSecond x))
          (truncateToSecond x + secs (w + 1))) ∧
      r.byCandidate = [entryOf timers exclude w (windowStart w (truncateToSecond x))
        (truncateToSecond x + secs (w + 1)) (truncateToSecond x)]) ∧
    (QueryFits w (truncateToSecond x) (truncateToSecond x) →
      Expands timers exclude (windowStart w (truncateToSecond x))
        (truncateToSecond x + secs (w + 1)) →
      ∃ r, queryNeighboursFromTimers timers [x] exclude windowSecs now = .ok r) := by
  have hleast : IsLeast (seconds [x]) (truncateToSecond x) := by
    rw [seconds_singleton]
    exact isLeast_singleton
  have hgreatest : IsGreatest (seconds [x]) (truncateToSecond x) := by
    rw [seconds_singleton]
    exact isGreatest_singleton
  exact query_spec timers exclude now hw hleast hgreatest

omit [Calendar] in
theorem forall₂_map {β : Type} {R : Int → β → Prop} {g : Int → β} (xs : List Int) :
    List.Forall₂ R xs (xs.map g) ↔ ∀ x ∈ xs, R x (g x) := by
  rw [List.forall₂_map_right_iff, List.forall₂_same]

end

section Sample

attribute [local instance] Calendar.utcOnly

/-- A timer that fires every minute. -/
def everyMinute : Timer where
  id := ⟨1⟩
  name := "every minute"
  enabled := true
  occurrence := { kind := .interval 60 0, tz := "UTC" }
  tz := "UTC"
  nextFireUtc := none
  lastFired := none
  misfire := .defaultInterval
  overlap := .skip
  retry := {}
  validFrom := none
  validUntil := none
  maxRuns := none
  tags := []
  action := .none
  revision := 1
  jitterSecs := 0
  accuracySlackSecs := none
  wakeMachine := false
  transport := .json

/-- The fire on the hour, seen from the second before. -/
theorem everyMinute_fires : FiresAt everyMinute.occurrence (windowStart 0 (3600 * NS))
    (3600 * NS) := by
  have hpreview : everyMinute.occurrence.preview 1 (windowStart 0 (3600 * NS)) =
      .ok [3600 * NS] := by decide +kernel
  obtain ⟨tr, s, hrun, -, hfires⟩ := Occurrence.preview_eq_ok_iff.mp hpreview
  exact ⟨tr, s, hrun, by simp [hfires]⟩

theorem delta_hour : delta (3600 * NS) (3600 * NS) = 0 := by decide +kernel

end Sample

end Neighbours

end Bellman

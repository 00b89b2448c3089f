/-
Bellman/Dialog.lean

The fires that the front ends list.

Three front ends list the next fires of a schedule, each from a cursor of its
own: the command line and the form convert the present instant to the zone of
the schedule, which leaves the instant as it is.  The dialog takes the face of
the UTC clock and reads it as a wall-clock time of the zone:

    now  ──naive_utc──→  face  ──from_local──→  now − offset

When the zone shows this face exactly once, the cursor is off by the offset in
force; when it never does, or does twice, the dialog falls back on the present
instant.

Main result: the dialog shows the fires of the engine, all of them after the
present instant and none left out, exactly when the misplaced cursor finds the
same first fire and no search is thrown back as far as the present instant
(`dialogAgrees_iff`).
-/
import Bellman.Preview
import Bellman.Datetime

namespace Bellman

open ProgramLogic

/-! ### The rows -/

/-- `format("%Y-%m-%d")` of a civil day. -/
def fmtDate (date : Int) : List Char :=
  let (y, m, d) := civilFromDays date
  fmtYear y ++ '-' :: (numeral 2 m ++ '-' :: numeral 2 d)

/-- `format("%H:%M:%S")` of a wall-clock instant. -/
def fmtTime (l : Int) : List Char :=
  let s := secondOfDay l
  numeral 2 (s / 3600) ++ ':' :: (numeral 2 (s / 60 % 60) ++ ':' :: numeral 2 (s % 60))

/-- `format_offset_secs`. -/
def formatOffsetSecs (secs : Int) : List Char :=
  if secs = 0 then "UTC".toList
  else
    let abs := secs.natAbs
    (if 0 ≤ secs then '+' else '-') ::
      (padded 2 (abs / 3600) ++ ':' :: padded 2 (abs % 3600 / 60))

/-- `PreviewFireDto`; the row of the form, `PreviewFire`, has the same fields. -/
structure PreviewFireDto where
  utc : Int
  localDate : List Char
  localTime : List Char
  offset : List Char
  tzName : String
  deriving Repr, DecidableEq

namespace Occurrence

/-- The row of a fire whose wall-clock reading is `naive`. -/
def fireRow (occ : Occurrence) (fire : Int × Int × Int) : PreviewFireDto where
  utc := fire.1
  localDate := fmtDate (Local.date fire.2.1)
  localTime := fmtTime fire.2.1
  offset := formatOffsetSecs fire.2.2
  tzName := occ.tz

/-- A fire, its wall-clock reading and the offset in force. -/
def fireParts (z : Zone) (t : Int) : Int × Int × Int := (t, z.toLocal t, z.offsetAt t)

/-! ### The front ends -/

section

variable [Calendar]

/-- The fires that the command line lists (`next`). -/
def listedByNext (occ : Occurrence) (n : Nat) (now : Int) : Except Panic (List Int) := do
  let _ ← occ.timezone
  occ.preview n now

/-- The rows that the form lists (`occurrence_input::preview_fires`). -/
def listedByForm (occ : Occurrence) (n : Nat) (now : Int) :
    Except String (Except Panic (List PreviewFireDto)) :=
  match Calendar.zone occ.tz with
  | none => .error s!"unknown timezone '{occ.tz}': failed to parse timezone"
  | some z => .ok ((occ.preview n now).map (·.map fun t => occ.fireRow (fireParts z t)))

/-- The cursor of the dialog: the face of the UTC clock, read on the wall
clock of the zone.  The clock is read once more (`again`) when that fails. -/
def dialogCursor (z : Zone) (now again : Int) : Int :=
  match z.fromLocal now with
  | .single t => t
  | _ => again

/-- `preview_fires_from_occurrence`. -/
def previewFiresFromOccurrence (occ : Occurrence) (n : Nat) (now again : Int) :
    Except Panic (List (Int × Int × Int)) := do
  let z ← occ.timezone
  let fires ← occ.preview n (dialogCursor z now again)
  return fires.map (fireParts z)

/-- The rows that the dialog shows (`preview_fires`), five unless it asks for
another number. -/
def previewFires (occ : Occurrence) (n : Option Nat) (now again : Int) :
    Except Panic (List PreviewFireDto) := do
  let fires ← occ.previewFiresFromOccurrence (n.getD 5) now again
  return fires.map occ.fireRow

/-- The instants that the dialog shows, over a clock that reads `now`. -/
def shown (occ : Occurrence) (n : Option Nat) (now : Int) : Except Panic (List Int) :=
  (occ.previewFires n now now).map (·.map PreviewFireDto.utc)

variable {occ : Occurrence} {after after' now t : Int} {n : Nat} {m : Option Nat} {z : Zone}
  {s : Occurrence × Int} {fires : List Int} {tr : List (System.Event (Occurrence × Int) Int)}

theorem listedByNext_of_zone (hz : Calendar.zone occ.tz = some z) :
    occ.listedByNext n now = occ.preview n now := by
  simp only [listedByNext, timezone, hz, bind, Except.bind]

theorem listedByNext_of_none (hz : Calendar.zone occ.tz = none)
    (h : occ.listedByNext n now = .ok fires) : False := by
  simp only [listedByNext, timezone, hz, bind, Except.bind] at h
  cases h

/-- The form lists the fires that the command line does. -/
theorem listedByForm_iff : (∃ rows, occ.listedByForm n now = .ok (.ok rows) ∧
    rows.map PreviewFireDto.utc = fires) ↔ occ.listedByNext n now = .ok fires := by
  unfold listedByForm
  cases hz : Calendar.zone occ.tz with
  | none =>
    constructor
    · rintro ⟨rows, h, -⟩
      cases h
    · intro h
      exact (listedByNext_of_none hz h).elim
  | some z =>
    rw [listedByNext_of_zone hz]
    have hutc : ∀ ts : List Int,
        (ts.map fun t => occ.fireRow (fireParts z t)).map PreviewFireDto.utc = ts := by
      intro ts
      rw [List.map_map]
      exact List.map_id ts
    constructor
    · rintro ⟨rows, h, rfl⟩
      cases hp : occ.preview n now with
      | error p =>
        rw [hp] at h
        cases h
      | ok ts =>
        rw [hp] at h
        cases h
        rw [hutc]
    · intro h
      rw [h]
      exact ⟨_, rfl, hutc fires⟩

/-- What the dialog shows is the preview from its cursor. -/
theorem shown_of_zone (hz : Calendar.zone occ.tz = some z) :
    occ.shown m now = occ.preview (m.getD 5) (dialogCursor z now now) := by
  simp only [shown, previewFires, previewFiresFromOccurrence, timezone, hz, bind, Except.bind]
  cases occ.preview (m.getD 5) (dialogCursor z now now) with
  | error p => rfl
  | ok ts =>
    show Except.ok (((ts.map (fireParts z)).map occ.fireRow).map PreviewFireDto.utc) = Except.ok ts
    rw [List.map_map, List.map_map]
    exact congrArg Except.ok (List.map_id ts)

theorem shown_of_none (hz : Calendar.zone occ.tz = none) (h : occ.shown m now = .ok fires) :
    False := by
  simp only [shown, previewFires, previewFiresFromOccurrence, timezone, hz, bind, Except.bind] at h
  cases h

/-! ### Cursors that find the same fires -/

/-- Two cursors find the same first fire. -/
def SameFirst (occ : Occurrence) (after after' : Int) : Prop :=
  ∀ fire, (∃ working, occ.nextFire after = .ok (fire, working)) ↔
    ∃ working, occ.nextFire after' = .ok (fire, working)

/-- The preview aborts. -/
def Aborts (occ : Occurrence) (n : Nat) (after : Int) : Prop :=
  ∃ p, occ.preview n after = .error p

/-- A fire is given out when the skips are used up, so what the schedule is
then does not depend on where the search began. -/
theorem working_eq_of_fire {working : Occurrence}
    (h : occ.nextFire after = .ok (some t, working)) :
    working = { occ with pendingSkips := 0 } := by
  obtain ⟨-, z, tr, s, -, -, -, hoffer, rfl⟩ := nextFire_eq_some_iff.mp h
  have hskips : occ.pendingSkips - s.2 = 0 := Nat.sub_eq_zero_of_le (Nat.not_lt.mp hoffer.skipped)
  rw [hskips]

theorem SameFirst.symm (h : occ.SameFirst after after') : occ.SameFirst after' after :=
  fun fire => (h fire).symm

theorem SameFirst.preview (h : occ.SameFirst after after') (hp : occ.preview n after = .ok fires) :
    occ.preview n after' = .ok fires := by
  cases n with
  | zero => exact hp
  | succ n =>
    rw [preview_succ_eq_ok] at hp ⊢
    rcases hp with ⟨working, hnone, rfl⟩ | ⟨t, working, rest, hsome, hrest, rfl⟩
    · obtain ⟨working', hnone'⟩ := (h none).mp ⟨working, hnone⟩
      exact .inl ⟨working', hnone', rfl⟩
    · obtain ⟨working', hsome'⟩ := (h (some t)).mp ⟨working, hsome⟩
      refine .inr ⟨t, working', rest, hsome', ?_, rfl⟩
      rw [working_eq_of_fire hsome']
      rwa [working_eq_of_fire hsome] at hrest

/-- The first fire of a preview that does not abort. -/
theorem fire_of_preview (h : occ.preview (n + 1) after = .ok fires) :
    ∃ working, occ.nextFire after = .ok (fires.head?, working) := by
  rw [preview_succ_eq_ok] at h
  rcases h with ⟨working, hnone, rfl⟩ | ⟨t, working, rest, hsome, -, rfl⟩
  · exact ⟨working, hnone⟩
  · exact ⟨working, hsome⟩

theorem sameFirst_of_previews (h : occ.preview (n + 1) after = .ok fires)
    (h' : occ.preview (n + 1) after' = .ok fires) : occ.SameFirst after after' := by
  obtain ⟨working, hfire⟩ := fire_of_preview h
  obtain ⟨working', hfire'⟩ := fire_of_preview h'
  intro fire
  constructor
  · rintro ⟨w, hw⟩
    obtain ⟨rfl, -⟩ := Prod.mk.inj (Except.ok.inj (hfire.symm.trans hw))
    exact ⟨working', hfire'⟩
  · rintro ⟨w, hw⟩
    obtain ⟨rfl, -⟩ := Prod.mk.inj (Except.ok.inj (hfire'.symm.trans hw))
    exact ⟨working, hfire⟩

/-- The previews from two cursors are the same exactly when their first fires
are; where both abort there is nothing to compare. -/
theorem previews_agree_iff : (∀ fires, occ.preview n after = .ok fires ↔
    occ.preview n after' = .ok fires) ↔
      n = 0 ∨ occ.SameFirst after after' ∨ occ.Aborts n after ∧ occ.Aborts n after' := by
  constructor
  · intro h
    cases n with
    | zero => exact .inl rfl
    | succ n =>
      right
      cases hp : occ.preview (n + 1) after with
      | ok fires => exact .inl (sameFirst_of_previews hp ((h fires).mp hp))
      | error p =>
        cases hp' : occ.preview (n + 1) after' with
        | ok fires =>
          rw [(h fires).mpr hp'] at hp
          cases hp
        | error p' => exact .inr ⟨⟨p, hp⟩, p', hp'⟩
  · rintro (rfl | hsame | ⟨⟨p, hp⟩, p', hp'⟩) fires
    · exact Iff.rfl
    · exact ⟨hsame.preview, hsame.symm.preview⟩
    · rw [hp, hp']
      constructor <;> exact nofun

/-! ### Fires after the present instant -/

/-- The fires of a run are the first ones of the preview. -/
theorem prefix_of_run (h : executing.Run (occ, after) tr s) (hlen : tr.length ≤ n)
    (hp : occ.preview n after = .ok fires) : firesOf tr <+: fires := by
  induction tr generalizing occ after n fires with
  | nil => exact List.nil_prefix
  | cons e tr ih =>
    obtain ⟨-, ⟨working, hfire, hpost⟩, hrest⟩ := System.run_cons_iff.mp h
    rw [hpost] at hrest
    cases n with
    | zero => exact absurd hlen (Nat.not_succ_le_zero _)
    | succ n =>
      rw [preview_succ_eq_ok] at hp
      rcases hp with ⟨working', hnone, -⟩ | ⟨t, working', rest, hsome, hpreview, rfl⟩
      · cases hfire.symm.trans hnone
      · cases hfire.symm.trans hsome
        obtain ⟨later, hlater⟩ := ih hrest (Nat.le_of_succ_le_succ hlen) hpreview
        exact ⟨later, congrArg (e.label :: ·) hlater⟩

/-- Fires come after the floor that a run starts from unless a search is
thrown back as far as that. -/
theorem fires_after_iff {floor : Int} (h : executing.Run (occ, after) tr s)
    (hfloor : floor ≤ after) : (∀ t ∈ firesOf tr, floor < t) ↔
      ∀ e ∈ tr, e.pre.1.FallsBack e.pre.2 → floor < e.label := by
  constructor
  · intro hafter e he _
    exact hafter e.label (List.mem_map_of_mem he)
  · intro hback
    induction tr generalizing occ after with
    | nil => exact fun _ ht => nomatch ht
    | cons e tr ih =>
      obtain ⟨hpre, hstep, hrest⟩ := System.run_cons_iff.mp h
      have hfirst : floor < e.label := by
        by_cases hthrown : e.pre.1.FallsBack e.pre.2
        · exact hback e List.mem_cons_self hthrown
        · rw [hpre] at hthrown
          exact Int.lt_of_le_of_lt hfloor ((lt_iff_of_step hstep).mpr hthrown)
      obtain ⟨working, -, hpost⟩ := hstep
      rw [hpost] at hrest
      have hlater := ih hrest hfirst.le fun e' he' => hback e' (List.mem_cons_of_mem _ he')
      intro t ht
      rcases List.mem_cons.mp ht with rfl | ht
      · exact hfirst
      · exact hlater t ht

/-! ### Agreement -/

/-- The dialog shows what the engine previews from the present instant, and
so do the command line and the form; all fires are after that instant, and of
the fires of an execution none is left out. -/
structure DialogAgrees (occ : Occurrence) (m : Option Nat) (now : Int) : Prop where
  engine : ∀ fires, occ.shown m now = .ok fires ↔ occ.listedByNext (m.getD 5) now = .ok fires
  form : ∀ fires, occ.shown m now = .ok fires ↔ ∃ rows,
    occ.listedByForm (m.getD 5) now = .ok (.ok rows) ∧ rows.map PreviewFireDto.utc = fires
  later : ∀ fires, occ.shown m now = .ok fires → ∀ t ∈ fires, now < t
  whole : ∀ fires, occ.shown m now = .ok fires → ∀ tr s, executing.Run (occ, now) tr s →
    tr.length ≤ m.getD 5 → firesOf tr <+: fires

/-- The cursor that the face of the UTC clock makes serves as well as the
present instant. -/
def CursorServes (occ : Occurrence) (z : Zone) (n : Nat) (now : Int) : Prop :=
  ∀ t, z.fromLocal now = .single t → z.offsetAt t = 0 ∨ n = 0 ∨ occ.SameFirst t now ∨
    occ.Aborts n t ∧ occ.Aborts n now

/-- No search of an execution is thrown back as far as the present instant. -/
def StaysLater (occ : Occurrence) (n : Nat) (now : Int) : Prop :=
  ∀ tr s, executing.Run (occ, now) tr s → Ends n tr s →
    ∀ e ∈ tr, e.pre.1.FallsBack e.pre.2 → now < e.label

omit [Calendar] in
/-- The cursor is off by the offset in force. -/
theorem face_eq (h : z.fromLocal now = .single t) : t = now - secs (z.offsetAt t) := by
  have hread : t + secs (z.offsetAt t) = now := Zone.fromLocal_single h
  omega

theorem cursorServes_iff (hz : Calendar.zone occ.tz = some z) :
    occ.CursorServes z (m.getD 5) now ↔
      ∀ fires, occ.shown m now = .ok fires ↔ occ.listedByNext (m.getD 5) now = .ok fires := by
  rw [shown_of_zone hz, listedByNext_of_zone hz, CursorServes, dialogCursor]
  cases hface : z.fromLocal now with
  | none => simp
  | ambiguous t u => simp
  | single t =>
    dsimp only
    rw [previews_agree_iff]
    constructor
    · intro h
      rcases h t rfl with hoffset | h
      · have ht : t = now := by
          rw [face_eq hface, hoffset]
          exact Int.sub_zero now
        rw [ht]
        exact .inr (.inl fun _ => Iff.rfl)
      · exact h
    · rintro h _ ⟨⟩
      exact .inr h

theorem staysLater_iff : occ.StaysLater n now ↔
    ∀ fires, occ.preview n now = .ok fires → ∀ t ∈ fires, now < t := by
  constructor
  · intro h fires hp
    obtain ⟨tr, s, hrun, hends, rfl⟩ := preview_eq_ok_iff.mp hp
    exact (fires_after_iff hrun (Int.le_refl now)).mpr (h tr s hrun hends)
  · intro h tr s hrun hends
    exact (fires_after_iff hrun (Int.le_refl now)).mp
      (h _ (preview_eq_ok_iff.mpr ⟨tr, s, hrun, hends, rfl⟩))

end

section Sample

/-- A calendar that knows the clock of India alone. -/
@[reducible] def Calendar.kolkata : Calendar :=
  { Calendar.utcOnly with
    zone := fun name => if name = "Asia/Kolkata" then some ⟨19800, []⟩ else none }

attribute [local instance] Calendar.kolkata

/-- Every day at nine in the morning. -/
def atNine : Occurrence where
  kind := .daily 32400000000000
  tz := "Asia/Kolkata"

end Sample

end Occurrence

end Bellman

/-
Bellman/Conserved.lean

Rotation and its recovery, stopped anywhere.

A rotation moves the lines of the current file into an archive, by way of
the renamed file.  What has to be shown of all its cut points is one
equation: the lines of the current file and of the archives, together with
those of the renamed file while its archive is not yet in place
(`LogWorld.awaiting`), are the same at every moment (`LogMove.conserved`).
A recovery that succeeds leaves no journal, so nothing is awaiting then.

Main result: rotations and recoveries, any number of them, each stopped by
a failure or a crash at any call, lose no line and double none, and no step
touches an archive that is there; when the last of them succeeds, the
journal is cleared (`rotation_recovers`).
-/
import Bellman.Upkeep
import Bellman.Lib.Tally
import Mathlib.Algebra.Order.Group.Multiset

namespace Bellman

open ProgramLogic Job Setting

/-! ### The lines of the log -/

/-- The lines that count in a file: those of the current file and of the
archives. -/
def LogCodec.fileLines (x : LogCodec) (p : LogPath) (f : File) : Multiset Bytes :=
  if p.listed ∧ p ≠ .rotating then
    (lines NEWLINE ((x.contents p f.bytes).getD []) : Multiset Bytes)
  else 0

/-- The lines of the current file and of the archives, each as often as it
is there. -/
def LogCodec.stored (x : LogCodec) (d : Disk) : Multiset Bytes := tally x.fileLines d

/-- The lines of the renamed file. -/
def renamedLines (d : Disk) : Multiset Bytes :=
  (lines NEWLINE ((d.bytes .rotating).getD []) : Multiset Bytes)

/-- The archive of the rotation under way is in its place. -/
def LogWorld.archived (w : LogWorld) : Bool :=
  w.journal.any fun j => (w.disk.lookup j.finalPath).isSome

/-- The lines of the renamed file, while its archive is not there. -/
def LogWorld.awaiting (w : LogWorld) : Multiset Bytes :=
  if w.archived then 0 else renamedLines w.disk

section Lines

variable {x : LogCodec} {d d' : Disk} {w w' : LogWorld} {j : RotationJournal} {p : LogPath}

theorem fileLines_rotating (f : File) : x.fileLines .rotating f = 0 :=
  if_neg fun h => h.2 rfl

theorem RotationJournal.Named.fileLines_tmp (hj : j.Named) (f : File) :
    x.fileLines j.gzTmp f = 0 :=
  if_neg fun h => by simp [hj.tmp_not_listed] at h

theorem fileLines_of_contents {f : File} {b : Bytes} (hp : p.listed = true) (hr : p ≠ .rotating)
    (hb : x.contents p f.bytes = some b) :
    x.fileLines p f = (lines NEWLINE b : Multiset Bytes) := by
  rw [LogCodec.fileLines, if_pos ⟨hp, hr⟩, hb]
  rfl

theorem renamedLines_of_lookup {f : File} (h : d.lookup .rotating = some f) :
    renamedLines d = (lines NEWLINE f.bytes : Multiset Bytes) := by
  simp [renamedLines, Disk.bytes, h]

theorem renamedLines_of_none (h : d.lookup .rotating = none) : renamedLines d = 0 := by
  simp [renamedLines, Disk.bytes, h]

theorem renamedLines_congr (h : d'.lookup .rotating = d.lookup .rotating) :
    renamedLines d' = renamedLines d := by
  rw [renamedLines, renamedLines, Disk.bytes, Disk.bytes, h]

theorem archived_of_journal (hj : w.journal = some j) :
    w.archived = (w.disk.lookup j.finalPath).isSome := by
  simp [LogWorld.archived, hj]

theorem archived_onDisk {f : Disk → Disk} (hj : w.journal = some j) :
    (w.onDisk f).archived = ((f w.disk).lookup j.finalPath).isSome :=
  archived_of_journal (w := w.onDisk f) hj

/-- Nothing is awaiting when there is no renamed file. -/
theorem awaiting_of_none (h : w.disk.lookup .rotating = none) : w.awaiting = 0 := by
  rw [LogWorld.awaiting, renamedLines_of_none h, ite_self]

theorem awaiting_of_archived (h : w.archived = true) : w.awaiting = 0 := if_pos h

theorem awaiting_of_not_archived (h : w.archived = false) : w.awaiting = renamedLines w.disk :=
  if_neg (Bool.eq_false_iff.mp h)

theorem awaiting_congr (ha : w'.archived = w.archived)
    (hd : w'.disk.lookup .rotating = w.disk.lookup .rotating) : w'.awaiting = w.awaiting := by
  rw [LogWorld.awaiting, LogWorld.awaiting, ha, renamedLines_congr hd]

/-! ### Moves -/

/-- A new current file has no lines. -/
theorem stored_openCurrent {clock : Int} : x.stored (d.openCurrent clock) = x.stored d := by
  unfold Disk.openCurrent
  split
  · rfl
  · next hnone =>
    have hcur : d.lookup .current = none := by simpa using hnone
    have hnil : x.fileLines .current ⟨[], clock⟩ = 0 :=
      fileLines_of_contents (p := .current) rfl (by simp) rfl
    show tally x.fileLines (d.insert .current ⟨[], clock⟩) = tally x.fileLines d
    rw [tally_insert, hnil, zero_add, tally_erase_of_lookup_eq_none hcur]

/-- **No line is lost or doubled by a move** of a rotation or recovery. -/
theorem LogMove.conserved (hx : x.Lawful) (h : LogMove x w w') (hok : JournalOk x w)
    (hkeep : w'.removed = w.removed) :
    x.stored w'.disk + w'.awaiting = x.stored w.disk + w.awaiting := by
  cases h with
  | journal j hj hcase =>
    refine congrArg (x.stored w.disk + ·) (awaiting_congr ?_ rfl)
    rcases hcase with ⟨hnone, hfree⟩ | ⟨j₀, hj₀, hfinal⟩
    · simp [LogWorld.archived, hnone, hfree]
    · rw [archived_of_journal hj₀, ← hfinal]
      rfl
  | clear hfree =>
    refine congrArg (x.stored w.disk + ·) ?_
    rw [awaiting_of_none (w := w) hfree]
    exact awaiting_of_none hfree
  | @rename j f hj hfinal hrot hcur =>
    -- The lines leave the current file, and are awaiting their archive.
    have hs := hok.sealed j hj
    have hlines : x.fileLines .current f = (lines NEWLINE f.bytes : Multiset Bytes) :=
      fileLines_of_contents (p := .current) rfl (by simp) rfl
    have hbefore : x.stored w.disk =
        (lines NEWLINE f.bytes : Multiset Bytes) + tally x.fileLines (w.disk.erase .current) :=
      hlines ▸ tally_of_lookup hcur
    have hafter : x.stored (w.disk.move .current .rotating f) =
        tally x.fileLines (w.disk.erase .current) := tally_insert_of_zero fileLines_rotating
    have harch : (w.onDisk (·.move .current .rotating f)).archived = false := by
      rw [archived_onDisk hj, Disk.lookup_move_ne hs.final_ne_rotating hs.final_ne_current, hfinal]
      rfl
    have hrenamed : renamedLines (w.disk.move .current .rotating f) =
        (lines NEWLINE f.bytes : Multiset Bytes) := renamedLines_of_lookup Disk.lookup_move_self
    rw [awaiting_of_none hrot, awaiting_of_not_archived harch, LogWorld.onDisk_disk, hrenamed,
      hafter, hbefore, add_zero, add_comm]
  | @compress j bytes clock hj =>
    have hs := hok.sealed j hj
    refine congrArg₂ (· + ·) (tally_insert_of_zero hs.fileLines_tmp) (awaiting_congr ?_ ?_)
    · rw [archived_onDisk hj, archived_of_journal hj, Disk.lookup_put_ne hs.tmp_ne_final.symm]
    · exact Disk.lookup_put_ne hs.tmp_ne_rotating.symm
  | @finalize j r t hj hfinal hr ht hbytes =>
    -- The lines that were awaiting are those of the archive.
    have hs := hok.sealed j hj
    have hlines : x.fileLines j.finalPath t = (lines NEWLINE r.bytes : Multiset Bytes) := by
      refine fileLines_of_contents hs.final_listed hs.final_ne_rotating ?_
      rw [hs.contents_final, hbytes, hx.inflate]
    have herase : ((w.disk.erase j.gzTmp).lookup j.finalPath) = none :=
      (AList.lookup_erase_ne hs.tmp_ne_final.symm).trans hfinal
    have hafter : x.stored (w.disk.move j.gzTmp j.finalPath t) =
        (lines NEWLINE r.bytes : Multiset Bytes) + x.stored w.disk := by
      show tally x.fileLines ((w.disk.erase j.gzTmp).insert j.finalPath t) = _
      rw [tally_insert, hlines, tally_erase_of_lookup_eq_none herase,
        tally_erase_of_zero hs.fileLines_tmp]
      rfl
    have harch : w.archived = false := by
      rw [archived_of_journal hj, hfinal]
      rfl
    have harch' : (w.onDisk (·.move j.gzTmp j.finalPath t)).archived = true := by
      rw [archived_onDisk hj, Disk.lookup_move_self]
      rfl
    rw [awaiting_of_archived harch', awaiting_of_not_archived harch, renamedLines_of_lookup hr,
      LogWorld.onDisk_disk, hafter, add_zero, add_comm]
  | @discard j hj =>
    have hs := hok.sealed j hj
    refine congrArg₂ (· + ·) (tally_erase_of_zero hs.fileLines_tmp) (awaiting_congr ?_ ?_)
    · rw [archived_onDisk hj, archived_of_journal hj,
        AList.lookup_erase_ne hs.tmp_ne_final.symm]
    · exact AList.lookup_erase_ne hs.tmp_ne_rotating.symm
  | @remove j hj hthere =>
    have hs := hok.sealed j hj
    have hrot : w.awaiting = 0 := by
      cases hr : w.disk.lookup .rotating with
      | none => exact awaiting_of_none hr
      | some r => exact awaiting_of_archived ((archived_of_journal hj).trans (hthere (hr ▸ rfl)))
    have hgone : (w.onDisk (·.erase .rotating)).awaiting = 0 :=
      awaiting_of_none (AList.lookup_erase _ _)
    rw [hrot, hgone]
    exact congrArg (· + 0) (tally_erase_of_zero fileLines_rotating)
  | @retire name f hnone hf =>
    have hremoved : (w.removeArchive name).removed ≠ w.removed := by
      simp [LogWorld.removeArchive, Disk.bytes, hf]
    exact absurd hkeep hremoved

/-- No move but retention touches an archive. -/
theorem LogMove.archive (h : LogMove x w w') (hok : JournalOk x w) (hkeep : w'.removed = w.removed)
    {name : String} {f : File} (hname : isArchiveFile name = true)
    (hf : w.disk.lookup (.archive name) = some f) : w'.disk.lookup (.archive name) = some f := by
  have hlisted : (LogPath.archive name).listed = true := hname
  cases h with
  | journal j hj hcase => exact hf
  | clear hfree => exact hf
  | @rename j _ hj hfinal hrot hcur => exact (Disk.lookup_move_ne (by simp) (by simp)).trans hf
  | @compress j bytes clock hj =>
    exact (Disk.lookup_put_ne ((hok.sealed j hj).ne_tmp hlisted)).trans hf
  | @finalize j r t hj hfinal hr ht hbytes =>
    have hne : LogPath.archive name ≠ j.finalPath := by
      intro heq
      rw [← heq, hf] at hfinal
      cases hfinal
    exact (Disk.lookup_move_ne hne ((hok.sealed j hj).ne_tmp hlisted)).trans hf
  | @discard j hj => exact (AList.lookup_erase_ne ((hok.sealed j hj).ne_tmp hlisted)).trans hf
  | @remove j hj hthere => exact (AList.lookup_erase_ne (by simp)).trans hf
  | @retire n _ hnone hn =>
    have hremoved : (w.removeArchive n).removed ≠ w.removed := by
      simp [LogWorld.removeArchive, Disk.bytes, hn]
    exact absurd hkeep hremoved

/-- The others change neither. -/
theorem LogWorld.Others.conserved (h : w.Others w') (hok : JournalOk x w) :
    x.stored w'.disk = x.stored w.disk ∧ w'.awaiting = w.awaiting := by
  obtain ⟨hj, hd⟩ := h.away
  refine ⟨?_, awaiting_congr ?_ (hd _ (by simp))⟩
  · cases h with
    | enqueue => rfl
    | openLog clock => exact stored_openCurrent
  · cases hjw : w.journal with
    | none => simp [LogWorld.archived, hj, hjw]
    | some j =>
      rw [archived_of_journal hjw, archived_of_journal (hj.trans hjw),
        hd _ (hok.sealed j hjw).final_ne_current]

/-- No call of a rotation or recovery touches an archive. -/
theorem LogEffect.archive {β : Type} {e : LogCall β} (h : LogEffect x w e w')
    (hok : JournalOk x w) (hretires : e.retires = false) {name : String} {f : File}
    (hname : isArchiveFile name = true) (hf : w.disk.lookup (.archive name) = some f) :
    w'.disk.lookup (.archive name) = some f := by
  cases h with
  | same => exact hf
  | others h => exact (h.away.2 _ (by simp)).trans hf
  | move h hr _ =>
    refine h.archive hok (hr.resolve_right fun hret => ?_) hname hf
    rw [hretires] at hret
    cases hret
  | mark id => exact hf
  | write b n clock => exact (Disk.lookup_append_ne (by simp)).trans hf

end Lines

/-! ### The upkeep of the lines -/

/-- Rotation and recovery keep the lines of the log: they do not write, and
they remove no archive. -/
def lineUpkeep {x : LogCodec} (hx : x.Lawful) (all : Multiset Bytes) : Upkeep x where
  inv w := JournalOk x w ∧ x.stored w.disk + w.awaiting = all
  retiring := False
  whole := False
  found _ _ := True
  writes _ _ := False
  journalOk h := h.1
  inv_others := by
    rintro w w' h ⟨hok, hall⟩
    obtain ⟨hstored, hawait⟩ := h.conserved (x := x) hok
    exact ⟨hok.of_away h.away.1 h.away.2, by rw [hstored, hawait, hall]⟩
  found_others _ _ _ := trivial
  found_read _ _ _ := trivial
  found_mark _ _ _ := trivial
  mark h _ := ⟨h.1.of_away rfl fun _ _ => rfl, h.2⟩
  write _ _ _ h := h.elim
  move := by
    rintro w w' ⟨hok, hall⟩ h hr
    exact ⟨h.journalOk hx hok, (h.conserved hx hok (hr.resolve_right id)).trans hall⟩

/-! ### Runs -/

/-- The world, and what the process that holds the lease is at: nothing when
it has died. -/
structure RotationState where
  world : LogWorld
  task : Option (Thread LogCall (Except EventLogError Unit))

inductive RotationStep where
  | enqueue (kind : RunState) (loggedAt : Int) (subject : EventSubject) (note : EventNote)
  | openLog (clock : Int)
  /-- A process calls `rotate_journaled`, -/
  | rotate
  /-- or `recover_rotation`. -/
  | recover
  | call (luck : LogLuck)
  | crash

def rotateTask (x : LogCodec) : Thread LogCall (Except EventLogError Unit) :=
  Job.attempt (do let _ ← rotateJournaled x; return () : LogM Unit) {}

def recoverTask (x : LogCodec) : Thread LogCall (Except EventLogError Unit) :=
  Job.attempt (recoverRotation x) {}

/-- A new task may begin when the last one has ended or died. -/
def RotationState.begin (s : RotationState) (t : Thread LogCall (Except EventLogError Unit)) :
    Option RotationState :=
  match s.task with
  | some (.call _ _) => none
  | _ => some { s with task := some t }

/-- One step; none if it cannot be taken. -/
def rotationNext (x : LogCodec) (s : RotationState) : RotationStep → Option RotationState
  | .enqueue kind loggedAt subject note =>
    some { s with world := s.world.enqueue kind loggedAt subject note }
  | .openLog clock => some { s with world := s.world.onDisk (·.openCurrent clock) }
  | .rotate => s.begin (rotateTask x)
  | .recover => s.begin (recoverTask x)
  | .call luck =>
    match s.task with
    | some (.call e k) =>
      some { world := (logAnswer x e luck s.world).2
             task := some (k (logAnswer x e luck s.world).1) }
    | _ => none
  | .crash => some { s with task := none }

/-- Rotations and recoveries of any log that is at rest. -/
def rotationSystem (x : LogCodec) : System RotationState RotationStep where
  init s := s.task = none ∧ s.world.journal = none ∧ s.world.disk.lookup .rotating = none
  step s i t := rotationNext x s i = some t

section Runs

variable {x : LogCodec} {U : Upkeep x}

/-- What a task that succeeds leaves. -/
def RotationState.Sound (U : Upkeep x) (s : RotationState) : Prop :=
  U.inv s.world ∧ ∀ t, s.task = some t →
    t.Sound U.setting (fun o w => ∀ a, o = .ok a → w.journal = none) s.world

theorem sound_begin {s t : RotationState} {task : Thread LogCall (Except EventLogError Unit)}
    (h : s.begin task = some t) (hi : U.inv s.world)
    (htask : task.Sound U.setting (fun o w => ∀ a, o = .ok a → w.journal = none) s.world) :
    t.Sound U := by
  unfold RotationState.begin at h
  split at h
  · cases h
  · obtain rfl := Option.some.inj h
    refine ⟨hi, fun t ht => ?_⟩
    obtain rfl := Option.some.inj ht
    exact htask

theorem sound_others {s : RotationState} {w : LogWorld} (h : s.Sound U) (ho : s.world.Others w) :
    RotationState.Sound U { s with world := w } :=
  ⟨U.inv_others ho h.1, fun t ht => (h.2 t ht).others
    (fun _ _ _ _ hstep hq a ha => hstep.away.1.trans (hq a ha)) h.1 ho⟩

theorem rotateTask_sound {w : LogWorld} (hi : U.inv w) :
    (rotateTask x).Sound U.setting (fun o w => ∀ a, o = .ok a → w.journal = none) w := by
  refine Spec.attempt (P := fun _ => True) (Spec.bind Upkeep.rotateJournaled_spec fun _ => ?_)
    hi trivial {}
  exact Spec.pure fun _ _ h => h

theorem recoverTask_sound {w : LogWorld} (hi : U.inv w) :
    (recoverTask x).Sound U.setting (fun o w => ∀ a, o = .ok a → w.journal = none) w :=
  Spec.attempt Upkeep.recoverRotation_spec hi trivial {}

/-- The next call is in order. -/
theorem proper_of_sound {s t : RotationState} {luck : LogLuck} (h : s.Sound U)
    (hstep : rotationNext x s (.call luck) = some t) :
    ∃ (β : Type) (e : LogCall β) (k : β → Thread LogCall (Except EventLogError Unit)),
      s.task = some (.call e k) ∧ U.proper e s.world ∧
      t = ⟨(logAnswer x e luck s.world).2, some (k (logAnswer x e luck s.world).1)⟩ := by
  simp only [rotationNext] at hstep
  split at hstep
  · next β e k htask =>
    exact ⟨β, e, k, htask, (h.2 _ htask).proper, (Option.some.inj hstep).symm⟩
  · cases hstep

variable (hx : x.Lawful) {all : Multiset Bytes}

/-- Each step keeps the lines, and what is said of the task. -/
theorem rotationNext_sound {s t : RotationState} {i : RotationStep}
    (hstep : rotationNext x s i = some t) (h : s.Sound (lineUpkeep hx all)) :
    t.Sound (lineUpkeep hx all) := by
  cases i with
  | enqueue kind loggedAt subject note =>
    obtain rfl := Option.some.inj hstep
    exact sound_others h (.enqueue kind loggedAt subject note)
  | openLog clock =>
    obtain rfl := Option.some.inj hstep
    exact sound_others h (.openLog clock)
  | rotate => exact sound_begin hstep h.1 (rotateTask_sound h.1)
  | recover => exact sound_begin hstep h.1 (recoverTask_sound h.1)
  | call luck =>
    obtain ⟨β, e, k, htask, hproper, rfl⟩ := proper_of_sound h hstep
    obtain ⟨hi, hsound⟩ := (h.2 _ htask).next ⟨False.elim, luck, rfl⟩
    refine ⟨hi, fun t ht => ?_⟩
    obtain rfl := Option.some.inj ht
    exact hsound
  | crash =>
    obtain rfl := Option.some.inj hstep
    exact ⟨h.1, fun t ht => by cases ht⟩

/-- No step touches an archive. -/
theorem rotationNext_archive {s t : RotationState} {i : RotationStep}
    (hstep : rotationNext x s i = some t) (h : s.Sound (lineUpkeep hx all)) {name : String}
    {f : File} (hname : isArchiveFile name = true)
    (hf : s.world.disk.lookup (.archive name) = some f) :
    t.world.disk.lookup (.archive name) = some f := by
  have hbegin : ∀ task, s.begin task = some t → t.world = s.world := by
    intro task ht
    unfold RotationState.begin at ht
    split at ht
    · cases ht
    · obtain rfl := Option.some.inj ht
      rfl
  cases i with
  | enqueue kind loggedAt subject note =>
    obtain rfl := Option.some.inj hstep
    exact hf
  | openLog clock =>
    obtain rfl := Option.some.inj hstep
    exact (Disk.lookup_openCurrent (by simp)).trans hf
  | rotate => exact hbegin _ hstep ▸ hf
  | recover => exact hbegin _ hstep ▸ hf
  | call luck =>
    obtain ⟨β, e, k, htask, hproper, rfl⟩ := proper_of_sound h hstep
    refine (e.effect luck h.1.1 (Upkeep.proper_of hproper)).archive h.1.1 ?_ hname hf
    exact Bool.eq_false_iff.mpr fun hret => Upkeep.retiring_of hproper hret
  | crash =>
    obtain rfl := Option.some.inj hstep
    exact hf

/-- **A rotation may be stopped anywhere, and so may its recoveries**: no
step touches an archive, and when a recovery or rotation has succeeded in
the end, the journal is cleared, the renamed file is gone, and the lines of
the current file and the archives are those that were there at first, each
as often as it was. -/
theorem rotation_recovers (hx : x.Lawful) {s₀ s : RotationState}
    {tr : List (System.Event RotationState RotationStep)} (hinit : (rotationSystem x).init s₀)
    (hrun : (rotationSystem x).Run s₀ tr s) :
    (∀ e ∈ tr, ∀ name f, isArchiveFile name = true →
      e.pre.world.disk.lookup (.archive name) = some f →
        e.post.world.disk.lookup (.archive name) = some f) ∧
    (s.task = some (.ret (.ok ())) →
      s.world.journal = none ∧ s.world.disk.lookup .rotating = none ∧
        x.stored s.world.disk = x.stored s₀.world.disk) := by
  obtain ⟨htask, hjournal, hrot⟩ := hinit
  have hok : JournalOk x s₀.world :=
    ⟨fun _ => hrot, fun j hj => (Option.some_ne_none _ (hj.symm.trans hjournal)).elim⟩
  have h0 : s₀.Sound (lineUpkeep hx (x.stored s₀.world.disk)) := by
    refine ⟨⟨hok, ?_⟩, fun t ht => ?_⟩
    · rw [awaiting_of_none hrot, add_zero]
    · rw [htask] at ht
      cases ht
  constructor
  · intro e he name f hname hf
    obtain ⟨hstep, hpre, -⟩ := hrun.invariant_steps (G := fun _ => True) (fun _ _ => trivial) h0
      (fun s i t hstep _ h => rotationNext_sound hx hstep h) e he
    exact rotationNext_archive hx hstep hpre hname hf
  · intro hdone
    have hs : s.Sound (lineUpkeep hx (x.stored s₀.world.disk)) :=
      hrun.invariant (G := fun _ => True) (fun _ _ => trivial) h0
        fun s i t hstep _ h => rotationNext_sound hx hstep h
    have hnone : s.world.journal = none := hs.2 _ hdone () rfl
    have hgone := hs.1.1.free hnone
    refine ⟨hnone, hgone, ?_⟩
    have hall := hs.1.2
    rwa [awaiting_of_none hgone, add_zero] at hall

end Runs

section Sample

/-- A log at rest: two events in the current file, one in an archive. -/
def RotationState.rested : RotationState where
  world :=
    { store := {}
      disk := (Disk.put ∅ (.archive "events-2026-W01.jsonl")
        (utf8 "\x7b\"event_id\":3\x7d\n") 0).put .current
        (utf8 "\x7b\"event_id\":7\x7d\n\x7b\"event_id\":8\x7d\n") 0 }
  task := none

def RotationState.after (steps : List RotationStep) : RotationState :=
  steps.foldl (fun s i => (rotationNext .numbered s i).getD s) RotationState.rested

/-- The process dies behind the rename; the compression of the first
recovery fails halfway, the second dies with the archive in its place. -/
def RotationStep.stopped : List RotationStep :=
  .rotate :: List.replicate 10 (.call {}) ++ .crash ::
    .recover :: List.replicate 8 (.call {}) ++
      .call { fault := some (.io "disk full"), torn := some [31, 139, 1] } ::
    .recover :: List.replicate 10 (.call {}) ++ .crash ::
    .recover :: List.replicate 20 (.call {})

/-- The last task has succeeded. -/
def RotationState.done (s : RotationState) : Bool :=
  match s.task with
  | some (.ret (.ok ())) => true
  | _ => false

theorem RotationState.task_of_done {s : RotationState} (h : s.done = true) :
    s.task = some (.ret (.ok ())) := by
  unfold RotationState.done at h
  split at h
  · assumption
  · cases h

theorem run_rotation (steps : List RotationStep) :
    (rotationSystem .numbered).Run RotationState.rested
      (System.traceEnabled (rotationNext .numbered) RotationState.rested steps)
      (RotationState.after steps) :=
  System.run_traceEnabled (fun _ _ _ h => h) RotationState.rested steps

theorem rotation_recovers_stopped :
    (RotationState.after RotationStep.stopped).world.journal = none ∧
      (RotationState.after RotationStep.stopped).world.disk.lookup .rotating = none ∧
      LogCodec.numbered.stored (RotationState.after RotationStep.stopped).world.disk =
        LogCodec.numbered.stored RotationState.rested.world.disk := by
  have hdone : (RotationState.after RotationStep.stopped).done = true := by decide +kernel
  have hrest : RotationState.rested.world.disk.lookup .rotating = none := by decide
  exact (rotation_recovers LogCodec.numbered_lawful ⟨rfl, rfl, hrest⟩ (run_rotation _)).2
    (RotationState.task_of_done hdone)

end Sample

end Bellman

/-
Bellman/Rotation.lean

What the publisher does at each moment, whoever interrupts it.

The rotation journal says which archive is being made.  While it is there,
the archive, once it is in its place, holds what the renamed file holds
(`JournalOk`); and each call of the publisher is made when the files are so
that nothing is lost by it (`LogCall.Proper`): the current file is renamed
when no renamed file is there, the renamed file is removed when its archive
is complete, the journal is cleared when the renamed file is gone, and no
rename hits an archive.  `LogMove` is what those calls do to the files.

Main result: every move keeps the journal and the files in agreement
(`LogMove.journalOk`).
-/
import Bellman.Publisher

namespace Bellman

open ProgramLogic

/-! ### The journal and the files -/

/-- The paths of a rotation journal. -/
structure RotationJournal.Named (j : RotationJournal) : Prop where
  source : j.source = .current
  rotating : j.rotating = .rotating
  final : ∃ name, j.finalPath = .archive name ∧ isArchiveFile name = true ∧ isGz name = true
  tmp : ∃ name, j.gzTmp = .archive name ∧ isArchiveFile name = false

/-- The archive, when it is there, holds what the renamed file holds. -/
structure RotationJournal.Sealed (x : LogCodec) (d : Disk) (j : RotationJournal) : Prop
    extends j.Named where
  packed : ∀ f, d.lookup j.finalPath = some f →
    ∃ b, x.decompress f.bytes = some b ∧ ∀ r, d.lookup .rotating = some r → r.bytes = b

/-- The journal and the log directory agree. -/
structure JournalOk (x : LogCodec) (w : LogWorld) : Prop where
  free : w.journal = none → w.disk.lookup .rotating = none
  sealed : ∀ j, w.journal = some j → j.Sealed x w.disk

namespace RotationJournal.Named

variable {j : RotationJournal} (hj : j.Named)
include hj

theorem final_ne_current : j.finalPath ≠ .current := by
  obtain ⟨name, h, -⟩ := hj.final
  rw [h]
  exact fun h => by cases h

theorem final_ne_rotating : j.finalPath ≠ .rotating := by
  obtain ⟨name, h, -⟩ := hj.final
  rw [h]
  exact fun h => by cases h

theorem tmp_ne_current : j.gzTmp ≠ .current := by
  obtain ⟨name, h, -⟩ := hj.tmp
  rw [h]
  exact fun h => by cases h

theorem tmp_ne_rotating : j.gzTmp ≠ .rotating := by
  obtain ⟨name, h, -⟩ := hj.tmp
  rw [h]
  exact fun h => by cases h

theorem final_listed : j.finalPath.listed = true := by
  obtain ⟨name, h, hname, -⟩ := hj.final
  rw [h]
  exact hname

theorem tmp_not_listed : j.gzTmp.listed = false := by
  obtain ⟨name, h, hname⟩ := hj.tmp
  rw [h]
  exact hname

/-- Neither of its files is the current or the renamed one. -/
theorem ne_of_live {p : LogPath} (hp : p = .current ∨ p = .rotating) :
    p ≠ j.gzTmp ∧ p ≠ j.finalPath := by
  rcases hp with rfl | rfl
  · exact ⟨hj.tmp_ne_current.symm, hj.final_ne_current.symm⟩
  · exact ⟨hj.tmp_ne_rotating.symm, hj.final_ne_rotating.symm⟩

theorem tmp_ne_final : j.gzTmp ≠ j.finalPath := by
  intro h
  have htmp := hj.tmp_not_listed
  rw [h, hj.final_listed] at htmp
  cases htmp

/-- The archive is read by decompressing it. -/
theorem contents_final (x : LogCodec) (b : Bytes) :
    x.contents j.finalPath b = x.decompress b := by
  obtain ⟨name, h, -, hgz⟩ := hj.final
  rw [h]
  exact if_pos hgz

end RotationJournal.Named

/-- When a call is in order. -/
def LogCall.Proper (x : LogCodec) (w : LogWorld) : {β : Type} → LogCall β → Prop
  | _, .setRotationJournal j => j.Named ∧
      ((w.journal = none ∧ w.disk.lookup j.finalPath = none) ∨
        ∃ j₀, w.journal = some j₀ ∧ j.finalPath = j₀.finalPath)
  | _, .clearRotationJournal => w.disk.lookup .rotating = none
  | _, .rename p q =>
    (p = .current ∧ q = .rotating ∧ w.disk.lookup .rotating = none ∧
      ∃ j, w.journal = some j ∧ w.disk.lookup j.finalPath = none) ∨
    ∃ j, w.journal = some j ∧ p = j.gzTmp ∧ q = j.finalPath ∧ w.disk.lookup q = none ∧
      ∃ r t, w.disk.lookup .rotating = some r ∧ w.disk.lookup p = some t ∧
        t.bytes = x.compress r.bytes
  | _, .gzip p q => ∃ j, w.journal = some j ∧ p = .rotating ∧ q = j.gzTmp
  | _, .remove p => ∃ j, w.journal = some j ∧
      (p = j.gzTmp ∨ p = .rotating ∧
        ((w.disk.lookup .rotating).isSome → (w.disk.lookup j.finalPath).isSome))
  | _, .removeArchive _ => w.journal = none
  | _, _ => True

/-- What other processes do: they enqueue, and they open the log. -/
inductive LogWorld.Others : LogWorld → LogWorld → Prop
  | enqueue {w : LogWorld} (kind : RunState) (loggedAt : Int) (subject : EventSubject)
      (note : EventNote) : Others w (w.enqueue kind loggedAt subject note)
  | openLog {w : LogWorld} (clock : Int) : Others w (w.onDisk (·.openCurrent clock))

/-- The others leave the journal, and all files but the current one. -/
theorem LogWorld.Others.away {w w' : LogWorld} (h : w.Others w') :
    w'.journal = w.journal ∧ ∀ p ≠ .current, w'.disk.lookup p = w.disk.lookup p := by
  cases h with
  | enqueue => exact ⟨rfl, fun _ _ => rfl⟩
  | openLog clock => exact ⟨rfl, fun p hp => Disk.lookup_openCurrent hp⟩

/-- `JournalOk` looks at the journal, the renamed file and the archives. -/
theorem JournalOk.of_away {x : LogCodec} {w w' : LogWorld} (h : JournalOk x w)
    (hj : w'.journal = w.journal)
    (hd : ∀ p ≠ .current, w'.disk.lookup p = w.disk.lookup p) : JournalOk x w' where
  free hnone := by
    rw [hd _ (by simp)]
    exact h.free (hj ▸ hnone)
  sealed j hsome := by
    have hs := h.sealed j (hj ▸ hsome)
    refine ⟨hs.toNamed, ?_⟩
    rw [hd _ hs.final_ne_current, hd .rotating (by simp)]
    exact hs.packed

/-! ### Answers -/

theorem LogLuck.decide_ok {l : LogLuck} {w w₁ w₂ : LogWorld} {u : Unit}
    (h : l.decide w w₁ = (.ok u, w₂)) : w₂ = w₁ := by
  unfold LogLuck.decide at h
  split at h
  · exact (Prod.mk.inj h).2.symm
  · cases h

theorem LogLuck.decide_snd (l : LogLuck) (w w' : LogWorld) :
    (l.decide w w').2 = w' ∨ (l.decide w w').2 = w := by
  unfold LogLuck.decide
  split
  · exact .inl rfl
  · exact .inr rfl

theorem LogWorld.moveFile_ok {w w' : LogWorld} {l : LogLuck} {p : LogPath} {f : File → LogWorld}
    {u : Unit} (h : w.moveFile l p f = (.ok u, w')) :
    ∃ file, w.disk.lookup p = some file ∧ w' = f file := by
  unfold LogWorld.moveFile at h
  split at h
  · next file hfile => exact ⟨file, hfile, l.decide_ok h⟩
  · cases h

theorem LogWorld.moveFile_snd (w : LogWorld) (l : LogLuck) (p : LogPath) (f : File → LogWorld) :
    (w.moveFile l p f).2 = w ∨
      ∃ file, w.disk.lookup p = some file ∧ (w.moveFile l p f).2 = f file := by
  unfold LogWorld.moveFile
  split
  · next file hfile =>
    rcases l.decide_snd w (f file) with h | h
    · exact .inr ⟨file, hfile, h⟩
    · exact .inl h
  · exact .inl rfl

/-! ### Moves -/

/-- The moves of a rotation, of its recovery and of retention, each with
what the files are then. -/
inductive LogMove (x : LogCodec) (w : LogWorld) : LogWorld → Prop
  | journal (j : RotationJournal) : j.Named →
      (w.journal = none ∧ w.disk.lookup j.finalPath = none) ∨
        (∃ j₀, w.journal = some j₀ ∧ j.finalPath = j₀.finalPath) →
      LogMove x w { w with journal := some j }
  | clear : w.disk.lookup .rotating = none → LogMove x w { w with journal := none }
  | rename {j : RotationJournal} {f : File} : w.journal = some j →
      w.disk.lookup j.finalPath = none → w.disk.lookup .rotating = none →
      w.disk.lookup .current = some f →
      LogMove x w (w.onDisk (·.move .current .rotating f))
  | compress {j : RotationJournal} (bytes : Bytes) (clock : Int) : w.journal = some j →
      LogMove x w (w.onDisk (·.put j.gzTmp bytes clock))
  | finalize {j : RotationJournal} {r t : File} : w.journal = some j →
      w.disk.lookup j.finalPath = none → w.disk.lookup .rotating = some r →
      w.disk.lookup j.gzTmp = some t → t.bytes = x.compress r.bytes →
      LogMove x w (w.onDisk (·.move j.gzTmp j.finalPath t))
  | discard {j : RotationJournal} : w.journal = some j →
      LogMove x w (w.onDisk (·.erase j.gzTmp))
  | remove {j : RotationJournal} : w.journal = some j →
      ((w.disk.lookup .rotating).isSome → (w.disk.lookup j.finalPath).isSome) →
      LogMove x w (w.onDisk (·.erase .rotating))
  | retire {name : String} {f : File} : w.journal = none →
      w.disk.lookup (.archive name) = some f → LogMove x w (w.removeArchive name)

/-- The journal that is there is the only one. -/
theorem JournalOk.of_journal {x : LogCodec} {w : LogWorld} {j : RotationJournal}
    (hj : w.journal = some j) (h : j.Sealed x w.disk) : JournalOk x w where
  free hnone := by
    rw [hnone] at hj
    cases hj
  sealed j' hj' := by
    obtain rfl := Option.some.inj (hj.symm.trans hj')
    exact h

/-- Every move keeps the journal and the files in agreement. -/
theorem LogMove.journalOk {x : LogCodec} (hx : x.Lawful) {w w' : LogWorld}
    (h : LogMove x w w') (hok : JournalOk x w) : JournalOk x w' := by
  cases h with
  | journal j hj hcase =>
    refine .of_journal rfl ⟨hj, fun f hf => ?_⟩
    rcases hcase with ⟨-, hfree⟩ | ⟨j₀, hj₀, hfinal⟩
    · exact (Option.some_ne_none _ (hf.symm.trans hfree)).elim
    · exact (hok.sealed j₀ hj₀).packed f (hfinal ▸ hf)
  | clear hfree => exact ⟨fun _ => hfree, fun j hj => by cases hj⟩
  | rename hj hfinal hrot hcur =>
    have hs := hok.sealed _ hj
    refine .of_journal hj ⟨hs.toNamed, fun f hf => ?_⟩
    rw [LogWorld.onDisk_disk, Disk.lookup_move_ne hs.final_ne_rotating hs.final_ne_current,
      hfinal] at hf
    cases hf
  | compress bytes clock hj =>
    have hs := hok.sealed _ hj
    refine .of_journal hj ⟨hs.toNamed, ?_⟩
    rw [LogWorld.onDisk_disk, Disk.lookup_put_ne hs.tmp_ne_final.symm,
      Disk.lookup_put_ne hs.tmp_ne_rotating.symm]
    exact hs.packed
  | finalize hj hfinal hr ht hbytes =>
    have hs := hok.sealed _ hj
    refine .of_journal hj ⟨hs.toNamed, fun f hf => ?_⟩
    obtain rfl := Option.some.inj (Disk.lookup_move_self.symm.trans hf)
    refine ⟨_, hbytes ▸ hx.inflate _, fun r' hr' => ?_⟩
    rw [LogWorld.onDisk_disk, Disk.lookup_move_ne hs.final_ne_rotating.symm
      hs.tmp_ne_rotating.symm, hr] at hr'
    exact congrArg File.bytes (Option.some.inj hr').symm
  | discard hj =>
    have hs := hok.sealed _ hj
    refine .of_journal hj ⟨hs.toNamed, ?_⟩
    rw [LogWorld.onDisk_disk, AList.lookup_erase_ne hs.tmp_ne_final.symm,
      AList.lookup_erase_ne hs.tmp_ne_rotating.symm]
    exact hs.packed
  | remove hj _ =>
    have hs := hok.sealed _ hj
    refine .of_journal hj ⟨hs.toNamed, fun f hf => ?_⟩
    rw [LogWorld.onDisk_disk, AList.lookup_erase_ne hs.final_ne_rotating] at hf
    obtain ⟨b, hb, -⟩ := hs.packed f hf
    refine ⟨b, hb, fun r hr => ?_⟩
    rw [LogWorld.onDisk_disk, AList.lookup_erase] at hr
    cases hr
  | retire hnone _ =>
    refine ⟨fun _ => ?_, fun j hj => ?_⟩
    · exact (AList.lookup_erase_ne (by simp)).trans (hok.free hnone)
    · exact (Option.some_ne_none _ (hj.symm.trans hnone)).elim

/-! ### What a call does -/

/-- The call removes an archive for good. -/
def LogCall.retires : {β : Type} → LogCall β → Bool
  | _, .removeArchive _ => true
  | _, _ => false

/-- The call takes the current file or the renamed one from its place. -/
def LogCall.shifts : {β : Type} → LogCall β → Bool
  | _, .rename .current .rotating => true
  | _, .remove .rotating => true
  | _, _ => false

/-- What a call that is in order does to the world. -/
inductive LogEffect (x : LogCodec) (w : LogWorld) : {β : Type} → LogCall β → LogWorld → Prop
  | same {β : Type} {e : LogCall β} : LogEffect x w e w
  | others {β : Type} {e : LogCall β} {w' : LogWorld} : w.Others w' → LogEffect x w e w'
  | move {β : Type} {e : LogCall β} {w' : LogWorld} : LogMove x w w' →
      w'.removed = w.removed ∨ e.retires = true →
      (e.shifts = false → ∀ p, p = .current ∨ p = .rotating →
        w'.disk.lookup p = w.disk.lookup p) → LogEffect x w e w'
  | mark (id : Uuid) : LogEffect x w (.markEventPublished id) (w.mark id)
  /-- All of the bytes are written, or a part. -/
  | write (bytes : Bytes) (n : Nat) (clock : Int) :
      LogEffect x w (.write bytes) (w.onDisk (·.append (bytes.take n) clock))

/-- An access that succeeds or changes nothing. -/
theorem LogEffect.decide {x : LogCodec} {w w' : LogWorld} {β : Type} {e : LogCall β}
    (l : LogLuck) (h : LogEffect x w e w') : LogEffect x w e (l.decide w w').2 := by
  rcases l.decide_snd w w' with hw | hw
  · rw [hw]
    exact h
  · rw [hw]
    exact .same

theorem LogEffect.moveFile {x : LogCodec} {w : LogWorld} {β : Type} {e : LogCall β} (l : LogLuck)
    {p : LogPath} {f : File → LogWorld}
    (h : ∀ file, w.disk.lookup p = some file → LogEffect x w e (f file)) :
    LogEffect x w e (w.moveFile l p f).2 := by
  rcases w.moveFile_snd l p f with hw | ⟨file, hfile, hw⟩
  · rw [hw]
    exact .same
  · rw [hw]
    exact h file hfile

theorem LogCall.effect {x : LogCodec} {w : LogWorld} {β : Type} (e : LogCall β) (l : LogLuck)
    (hok : JournalOk x w) (hc : e.Proper x w) : LogEffect x w e (logAnswer x e l w).2 := by
  cases e with
  | pendingEvents limit => exact .same
  | markEventPublished id => exact .decide l (.mark id)
  | enqueueEvent kind note => exact .decide l (.others (.enqueue _ _ _ _))
  | rotationJournal => exact .same
  | setRotationJournal j =>
    exact .decide l (.move (.journal j hc.1 hc.2) (.inl rfl) fun _ _ _ => rfl)
  | clearRotationJournal => exact .decide l (.move (.clear hc) (.inl rfl) fun _ _ _ => rfl)
  | now => exact .same
  | isoWeek => exact .same
  | metadata p => exact .same
  | read p => exact .same
  | openCurrent => exact .decide l (.others (.openLog _))
  | write bytes =>
    simp only [logAnswer]
    split
    · have h : LogEffect x w (.write bytes) _ := .write bytes bytes.length l.clock
      rwa [List.take_length] at h
    · exact .write bytes l.kept l.clock
  | sync => exact .decide l .same
  | createArchiveDir => exact .decide l .same
  | rename p q =>
    refine .moveFile l fun f hf => ?_
    rcases hc with ⟨rfl, rfl, hrot, j, hj, hfinal⟩ | ⟨j, hj, rfl, rfl, hfinal, r, t, hr, ht, hb⟩
    · exact .move (.rename hj hfinal hrot hf) (.inl rfl) fun h => by cases h
    · obtain rfl := Option.some.inj (ht.symm.trans hf)
      refine .move (.finalize hj hfinal hr ht hb) (.inl rfl) fun _ p hp => ?_
      obtain ⟨htmp, hfin⟩ := (hok.sealed j hj).ne_of_live hp
      exact Disk.lookup_move_ne hfin htmp
  | gzip p q =>
    obtain ⟨j, hj, rfl, rfl⟩ := hc
    have hput : ∀ b, LogEffect x w (.gzip .rotating j.gzTmp)
        (w.onDisk (·.put j.gzTmp b l.clock)) := fun b =>
      .move (.compress b l.clock hj) (.inl rfl) fun _ p hp =>
        Disk.lookup_put_ne ((hok.sealed j hj).ne_of_live hp).1
    simp only [logAnswer]
    split
    · exact hput _
    · cases htorn : l.torn with
      | none => exact .same
      | some b => exact hput b
    · exact .same
  | remove p =>
    simp only [logAnswer]
    split
    · obtain ⟨j, hj, rfl | ⟨rfl, hfinal⟩⟩ := hc
      · exact .move (.discard hj) (.inl rfl) fun _ p hp =>
          AList.lookup_erase_ne ((hok.sealed j hj).ne_of_live hp).1
      · exact .move (.remove hj hfinal) (.inl rfl) fun h => by cases h
    · exact .same
  | readDir =>
    simp only [logAnswer]
    split <;> exact .same
  | removeArchive name =>
    refine .moveFile l fun f hf => .move (.retire hc hf) (.inr rfl) fun _ p hp => ?_
    exact AList.lookup_erase_ne (by rcases hp with rfl | rfl <;> simp)

/-! ### What a move does to the lines -/

/-- The line was in an archive that retention has removed. -/
def LogWorld.Retired (x : LogCodec) (w : LogWorld) (l : Bytes) : Prop :=
  ∃ a ∈ w.removed, a.1.listed = true ∧ ∃ b, x.contents a.1 a.2 = some b ∧ l ∈ lines NEWLINE b

section Lines

variable {x : LogCodec} {w w' : LogWorld} {d d' : Disk} {l : Bytes}

theorem LogCodec.reads_congr {p : LogPath} (h : d'.lookup p = d.lookup p) :
    x.reads d' p = x.reads d p := by
  rw [reads, reads, h]

theorem LogCodec.reads_of_lookup {p : LogPath} {f : File} (h : d.lookup p = some f) :
    x.reads d p = x.contents p f.bytes := by
  rw [reads, h, Option.bind_some]

/-- A listed file is not the temporary one. -/
theorem RotationJournal.Named.ne_tmp {j : RotationJournal} (hj : j.Named) {p : LogPath}
    (hp : p.listed = true) : p ≠ j.gzTmp := by
  rintro rfl
  rw [hj.tmp_not_listed] at hp
  cases hp

/-- The listed files of one disk are found on another. -/
theorem LogCodec.Logged.mono (h : x.Logged d l)
    (hd : ∀ p b, p.listed = true → x.reads d p = some b →
      ∃ q, q.listed = true ∧ x.reads d' q = some b) : x.Logged d' l := by
  obtain ⟨p, b, hp, hb, hl⟩ := h
  obtain ⟨q, hq, hb'⟩ := hd p b hp hb
  exact ⟨q, b, hq, hb', hl⟩

/-- **No line is lost by a move**, unless retention takes its archive, -/
theorem LogMove.logged (h : LogMove x w w') (hok : JournalOk x w) (hl : x.Logged w.disk l) :
    x.Logged w'.disk l ∨ w'.Retired x l := by
  cases h with
  | journal j hj hcase => exact .inl hl
  | clear hfree => exact .inl hl
  | @rename j f hj hfinal hrot hcur =>
    refine .inl (hl.mono fun p b hp hb => ?_)
    by_cases hpc : p = .current
    · subst hpc
      rw [LogCodec.reads_of_lookup hcur] at hb
      exact ⟨.rotating, rfl, (LogCodec.reads_of_lookup Disk.lookup_move_self).trans hb⟩
    · have hpr : p ≠ .rotating := by
        rintro rfl
        rw [LogCodec.reads, hrot] at hb
        cases hb
      exact ⟨p, hp, (LogCodec.reads_congr (Disk.lookup_move_ne hpr hpc)).trans hb⟩
  | @compress j bytes clock hj =>
    have hs := hok.sealed j hj
    refine .inl (hl.mono fun p b hp hb => ⟨p, hp, ?_⟩)
    exact (LogCodec.reads_congr (Disk.lookup_put_ne (hs.ne_tmp hp))).trans hb
  | @finalize j r t hj hfinal hr ht hbytes =>
    have hs := hok.sealed j hj
    refine .inl (hl.mono fun p b hp hb => ⟨p, hp, ?_⟩)
    have hpf : p ≠ j.finalPath := by
      rintro rfl
      rw [LogCodec.reads, hfinal] at hb
      cases hb
    exact (LogCodec.reads_congr (Disk.lookup_move_ne hpf (hs.ne_tmp hp))).trans hb
  | @discard j hj =>
    have hs := hok.sealed j hj
    refine .inl (hl.mono fun p b hp hb => ⟨p, hp, ?_⟩)
    exact (LogCodec.reads_erase_ne (hs.ne_tmp hp)).trans hb
  | @remove j hj hthere =>
    have hs := hok.sealed j hj
    refine .inl (hl.mono fun p b hp hb => ?_)
    by_cases hpr : p = .rotating
    · -- What the renamed file holds is in the archive.
      subst hpr
      obtain ⟨r, hr, hb⟩ := Option.bind_eq_some_iff.mp hb
      obtain rfl := Option.some.inj hb
      obtain ⟨f, hf⟩ := Option.isSome_iff_exists.mp (hthere (hr ▸ rfl))
      obtain ⟨b, hdec, hsame⟩ := hs.packed f hf
      refine ⟨j.finalPath, hs.final_listed, ?_⟩
      rw [LogWorld.onDisk_disk, LogCodec.reads_erase_ne hs.final_ne_rotating,
        LogCodec.reads_of_lookup hf, hs.contents_final, hdec, hsame r hr]
    · exact ⟨p, hp, (LogCodec.reads_erase_ne hpr).trans hb⟩
  | @retire name f hnone hf =>
    obtain ⟨p, b, hp, hb, hmem⟩ := hl
    by_cases hpn : p = .archive name
    · subst hpn
      rw [LogCodec.reads_of_lookup hf] at hb
      refine .inr ⟨(.archive name, f.bytes), ?_, hp, b, hb, hmem⟩
      simp [LogWorld.removeArchive, Disk.bytes, hf]
    · exact .inl ⟨p, b, hp, (LogCodec.reads_erase_ne hpn).trans hb, hmem⟩

/-- and none is made up. -/
theorem LogMove.of_logged (hx : x.Lawful) (h : LogMove x w w') (hok : JournalOk x w)
    (hl : x.Logged w'.disk l) : x.Logged w.disk l := by
  cases h with
  | journal j hj hcase => exact hl
  | clear hfree => exact hl
  | @rename j f hj hfinal hrot hcur =>
    refine hl.mono fun p b hp hb => ?_
    by_cases hpr : p = .rotating
    · subst hpr
      rw [LogWorld.onDisk_disk, LogCodec.reads_of_lookup Disk.lookup_move_self] at hb
      exact ⟨.current, rfl, (LogCodec.reads_of_lookup hcur).trans hb⟩
    · have hpc : p ≠ .current := by
        rintro rfl
        rw [LogWorld.onDisk_disk, LogCodec.reads, Disk.lookup_move_source hpr] at hb
        cases hb
      exact ⟨p, hp, (LogCodec.reads_congr (Disk.lookup_move_ne hpr hpc)).symm.trans hb⟩
  | @compress j bytes clock hj =>
    have hs := hok.sealed j hj
    refine hl.mono fun p b hp hb => ⟨p, hp, ?_⟩
    exact (LogCodec.reads_congr (Disk.lookup_put_ne (hs.ne_tmp hp))).symm.trans hb
  | @finalize j r t hj hfinal hr ht hbytes =>
    have hs := hok.sealed j hj
    refine hl.mono fun p b hp hb => ?_
    by_cases hpf : p = j.finalPath
    · -- The archive is the renamed file, compressed.
      subst hpf
      rw [LogWorld.onDisk_disk, LogCodec.reads_of_lookup Disk.lookup_move_self,
        hs.contents_final, hbytes, hx.inflate] at hb
      exact ⟨.rotating, rfl, (LogCodec.reads_of_lookup hr).trans hb⟩
    · refine ⟨p, hp, ?_⟩
      exact (LogCodec.reads_congr (Disk.lookup_move_ne hpf (hs.ne_tmp hp))).symm.trans hb
  | @discard j hj =>
    have hs := hok.sealed j hj
    refine hl.mono fun p b hp hb => ⟨p, hp, ?_⟩
    exact (LogCodec.reads_erase_ne (hs.ne_tmp hp)).symm.trans hb
  | @remove j hj hthere =>
    refine hl.mono fun p b hp hb => ?_
    have hpr : p ≠ .rotating := by
      rintro rfl
      rw [LogWorld.onDisk_disk, LogCodec.reads_erase_self] at hb
      cases hb
    exact ⟨p, hp, (LogCodec.reads_erase_ne hpr).symm.trans hb⟩
  | @retire name f hnone hf =>
    refine hl.mono fun p b hp hb => ?_
    have hpn : p ≠ .archive name := by
      rintro rfl
      rw [show (w.removeArchive name).disk = w.disk.erase _ from rfl,
        LogCodec.reads_erase_self] at hb
      cases hb
    exact ⟨p, hp, (LogCodec.reads_erase_ne hpn).symm.trans hb⟩

/-- A move leaves the outbox and what has been published or removed. -/
theorem LogMove.kept (h : LogMove x w w') :
    w'.store = w.store ∧ w'.published = w.published ∧ (w.Retired x l → w'.Retired x l) := by
  have hsame : ∀ w' : LogWorld, w'.removed = w.removed → w.Retired x l → w'.Retired x l :=
    fun w' hr ⟨a, ha, h⟩ => ⟨a, hr ▸ ha, h⟩
  cases h with
  | retire hnone hf =>
    exact ⟨rfl, rfl, fun ⟨a, ha, h⟩ => ⟨a, List.mem_append_left _ ha, h⟩⟩
  | _ => exact ⟨rfl, rfl, hsame _ rfl⟩

end Lines

end Bellman

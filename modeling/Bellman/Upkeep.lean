/-
Bellman/Upkeep.lean

What the publisher keeps, whoever interrupts it.

An `Upkeep` is an invariant of the log that every move keeps, together with
what is known of an event when its row is deleted, and of the bytes when a
line is written.  The programs of the publisher are gone through once: each
makes its calls in order, so it keeps every upkeep, at every moment and
wherever it is stopped.

Main results: the thread of a rotation, of a recovery and of the prune
(`Upkeep.rotateJournaled_spec`, `recoverRotation_spec`,
`rotateAndRetain_spec`), and, when the rows of the outbox may be written,
that of the publish cycle (`cycleInner_spec`).
-/
import Bellman.Rotation

namespace Bellman

open ProgramLogic Job Setting

/-! ### Upkeep -/

/-- An invariant of the log that all moves keep, with what is known of an
event whose row is deleted, and of the bytes that are written. -/
structure Upkeep (x : LogCodec) where
  inv : LogWorld → Prop
  /-- Archives may be removed. -/
  retiring : Prop
  /-- Lines are added to whole files only. -/
  whole : Prop
  found : Uuid → LogWorld → Prop
  writes : Bytes → LogWorld → Prop
  journalOk : ∀ {w}, inv w → JournalOk x w
  inv_others : ∀ {w w'}, w.Others w' → inv w → inv w'
  found_others : ∀ {w w' id}, inv w → w.Others w' → found id w → found id w'
  /-- An id seen at the end of the current or the renamed file is found. -/
  found_read : ∀ {w p id}, inv w → p = .current ∨ p = .rotating →
    id ∈ tailEventIds x (w.disk.bytes p) → found id w
  found_mark : ∀ {w id id'}, inv w → found id' w → found id w → found id (w.mark id')
  mark : ∀ {w id}, inv w → found id w → inv (w.mark id)
  /-- All of the bytes may be written, or a part. -/
  write : ∀ {w bytes} (n : Nat) (clock : Int), inv w → writes bytes w →
    (whole → Whole NEWLINE ((w.disk.bytes .current).getD [])) →
    inv (w.onDisk (·.append (bytes.take n) clock))
  move : ∀ {w w'}, inv w → LogMove x w w' → w'.removed = w.removed ∨ retiring → inv w'

/-- Bytes are added to a whole file only. -/
def LogCall.OnWhole (w : LogWorld) : {β : Type} → LogCall β → Prop
  | _, .write _ => Whole NEWLINE ((w.disk.bytes .current).getD [])
  | _, _ => True

instance {w : LogWorld} {β : Type} (e : LogCall β) : Decidable (e.OnWhole w) := by
  cases e <;> unfold LogCall.OnWhole <;> infer_instance

namespace Upkeep

variable {x : LogCodec} (U : Upkeep x)

/-- When a call is in order. -/
def proper {β : Type} (e : LogCall β) (w : LogWorld) : Prop :=
  match e with
  | .markEventPublished id => U.found id w
  | .write bytes => U.writes bytes w
  | .removeArchive name => U.retiring ∧ (LogCall.removeArchive name).Proper x w
  | e => e.Proper x w

theorem proper_of {U : Upkeep x} {β : Type} {e : LogCall β} {w : LogWorld}
    (h : U.proper e w) : e.Proper x w := by
  cases e with
  | markEventPublished id => trivial
  | write bytes => trivial
  | removeArchive name => exact h.2
  | _ => exact h

theorem retiring_of {U : Upkeep x} {β : Type} {e : LogCall β} {w : LogWorld} (h : U.proper e w)
    (hretires : e.retires = true) : U.retiring := by
  cases e with
  | removeArchive name => exact h.1
  | _ => cases hretires

/-- A call that is in order keeps the invariant. -/
theorem keeps {β : Type} (e : LogCall β) (l : LogLuck) {w : LogWorld} (hi : U.inv w)
    (hc : U.proper e w) (hwhole : U.whole → e.OnWhole w) : U.inv (logAnswer x e l w).2 := by
  have heffect := e.effect l (U.journalOk hi) (proper_of hc)
  generalize (logAnswer x e l w).2 = w' at heffect
  cases heffect with
  | same => exact hi
  | others h => exact U.inv_others h hi
  | move h hr _ => exact U.move hi h (hr.imp_right (retiring_of hc))
  | mark id => exact U.mark hi hc
  | write bytes n clock => exact U.write n clock hi hc hwhole

/-- The setting of the publisher.  It never adds to a file that is not whole,
where that is asked for. -/
def setting : Setting LogCall LogWorld where
  answers e w b w' := (U.whole → e.OnWhole w) ∧ ∃ l, logAnswer x e l w = (b, w')
  proper e w := U.proper e w
  others := LogWorld.Others
  inv := U.inv
  inv_others := U.inv_others

/-- Facts about the journal and the files but the current one are stable. -/
theorem stable_away {P : LogWorld → Prop}
    (h : ∀ w w' : LogWorld, w'.journal = w.journal →
      (∀ p ≠ .current, w'.disk.lookup p = w.disk.lookup p) → P w → P w') :
    U.setting.Stable P :=
  fun w w' _ hstep hp => h w w' hstep.away.1 hstep.away.2 hp

/-! ### Calls -/

section Calls

variable {U} {P : LogWorld → Prop} {α : Type}

theorem request_spec {e : LogCall (Except EventLogError α)} {Q : α → LogWorld → Prop}
    (hP : U.setting.Stable P) (hc : ∀ w, U.inv w → P w → U.proper e w)
    (hQ : ∀ w l a w', U.inv w → P w → (U.whole → e.OnWhole w) →
      logAnswer x e l w = (.ok a, w') → Q a w') :
    Spec U.setting P (request e : LogM α) Q := by
  refine Spec.request hP hc ?_
  rintro w o w' hi hp ⟨hwhole, l, ha⟩
  have hkeep := U.keeps e l hi (hc w hi hp) hwhole
  rw [ha] at hkeep
  exact ⟨hkeep, fun a ho => hQ w l a w' hi hp hwhole (ho ▸ ha)⟩

theorem query_spec {e : LogCall α} {Q : α → LogWorld → Prop} (hP : U.setting.Stable P)
    (hc : ∀ w, U.inv w → P w → U.proper e w)
    (hQ : ∀ w l, U.inv w → P w → Q (logAnswer x e l w).1 (logAnswer x e l w).2) :
    Spec U.setting P (query e : LogM α) Q := by
  refine Spec.query hP hc ?_
  rintro w a w' hi hp ⟨hwhole, l, ha⟩
  have hkeep := U.keeps e l hi (hc w hi hp) hwhole
  have hq := hQ w l hi hp
  rw [ha] at hkeep hq
  exact ⟨hkeep, hq⟩

theorem sync_spec (hP : U.setting.Stable P) :
    Spec U.setting P (request .sync : LogM Unit) fun _ => P :=
  request_spec hP (fun _ _ _ => trivial) fun _ l _ _ _ hp _ ha => l.decide_ok ha ▸ hp

theorem createArchiveDir_spec (hP : U.setting.Stable P) :
    Spec U.setting P (request .createArchiveDir : LogM Unit) fun _ => P :=
  request_spec hP (fun _ _ _ => trivial) fun _ l _ _ _ hp _ ha => l.decide_ok ha ▸ hp

/-- Opening the file is what the others do as well. -/
theorem openCurrent_spec (hP : U.setting.Stable P) :
    Spec U.setting P (request .openCurrent : LogM Unit) fun _ => P :=
  request_spec hP (fun _ _ _ => trivial) fun _ l _ _ hi hp _ ha =>
    l.decide_ok ha ▸ hP hi (.openLog l.clock) hp

theorem enqueueEvent_spec (hP : U.setting.Stable P) (kind : RunState) (note : EventNote) :
    Spec U.setting P (request (.enqueueEvent kind note) : LogM Unit) fun _ => P :=
  request_spec hP (fun _ _ _ => trivial) fun _ l _ _ hi hp _ ha =>
    l.decide_ok ha ▸ hP hi (.enqueue kind l.clock {} note) hp

theorem readDir_spec (hP : U.setting.Stable P) :
    Spec U.setting P (request .readDir : LogM _) fun _ => P := by
  refine request_spec hP (fun _ _ _ => trivial) fun w l a w' _ hp _ ha => ?_
  simp only [logAnswer] at ha
  split at ha
  · exact (Prod.mk.inj ha).2 ▸ hp
  · cases ha

theorem now_spec (hP : U.setting.Stable P) :
    Spec U.setting P (query .now : LogM Int) fun _ => P :=
  query_spec hP (fun _ _ _ => trivial) fun _ _ _ hp => hp

theorem isoWeek_spec (hP : U.setting.Stable P) :
    Spec U.setting P (query .isoWeek : LogM (Int × Nat)) fun _ => P :=
  query_spec hP (fun _ _ _ => trivial) fun _ _ _ hp => hp

theorem currentLen_spec (hP : U.setting.Stable P) :
    Spec U.setting P currentLen fun _ => P :=
  .bind (query_spec hP (fun _ _ _ => trivial) fun _ _ _ hp => hp) fun _ => .pure fun _ _ hp => hp

theorem fileExists_spec (hP : U.setting.Stable P) (p : LogPath) :
    Spec U.setting P (fileExists p) fun b w => P w ∧ b = (w.disk.lookup p).isSome := by
  refine .bind (query_spec (Q := fun o w => P w ∧ o.isSome = (w.disk.lookup p).isSome) hP
    (fun _ _ _ => trivial) fun w l _ hp => ⟨hp, ?_⟩) fun o => .pure fun w _ h => h
  show ((w.disk.bytes p).map List.length).isSome = (w.disk.lookup p).isSome
  rw [Option.isSome_map, Disk.bytes, Option.isSome_map]

/-- The bytes of a file, as they are at that moment. -/
theorem read_spec (hP : U.setting.Stable P) (p : LogPath) :
    Spec U.setting P (query (.read p) : LogM _) fun o w => P w ∧ o = w.disk.bytes p :=
  query_spec hP (fun _ _ _ => trivial) fun _ _ _ hp => ⟨hp, rfl⟩

theorem rotationJournal_spec (hP : U.setting.Stable P) :
    Spec U.setting P (query .rotationJournal : LogM _) fun o w => P w ∧ o = .ok w.journal :=
  query_spec hP (fun _ _ _ => trivial) fun _ _ _ hp => ⟨hp, rfl⟩

end Calls

/-! ### Stages of a rotation -/

/-- The journal is there, and so are the files. -/
def At (j : RotationJournal) (F : Disk → Prop) (w : LogWorld) : Prop :=
  w.journal = some j ∧ F w.disk

/-- What is said of the files is said of those that the others leave. -/
def Away (F : Disk → Prop) : Prop :=
  ∀ ⦃d d' : Disk⦄, (∀ p ≠ .current, d'.lookup p = d.lookup p) → F d → F d'

section Stages

variable {U} {j : RotationJournal} {F : Disk → Prop}

theorem stable_at (hF : Away F) : U.setting.Stable (At j F) :=
  U.stable_away fun _ _ hj hd hp => ⟨hj.trans hp.1, hF hd hp.2⟩

theorem away_true : Away fun _ => True := fun _ _ _ _ => trivial

theorem away_absent {p : LogPath} (hp : p ≠ .current) : Away fun d => d.lookup p = none :=
  fun _ _ hd h => (hd p hp).trans h

theorem away_present {p : LogPath} (hp : p ≠ .current) :
    Away fun d => (d.lookup p).isSome = true := by
  intro d d' hd h
  rw [hd p hp]
  exact h

theorem Away.and {G : Disk → Prop} (hF : Away F) (hG : Away G) : Away fun d => F d ∧ G d :=
  fun _ _ hd h => ⟨hF hd h.1, hG hd h.2⟩

/-- The temporary file is the renamed one, compressed. -/
def Packed (x : LogCodec) (j : RotationJournal) (d : Disk) : Prop :=
  ∃ r t, d.lookup .rotating = some r ∧ d.lookup j.gzTmp = some t ∧ t.bytes = x.compress r.bytes

theorem away_packed (hj : j.Named) : Away (Packed x j) := by
  rintro d d' hd ⟨r, t, hr, ht, hb⟩
  exact ⟨r, t, (hd _ (by simp)).trans hr, (hd _ hj.tmp_ne_current).trans ht, hb⟩

/-- Compress the renamed file. -/
theorem gzip_spec (hj : j.Named) :
    Spec U.setting (At j fun d => d.lookup j.finalPath = none)
      (request (.gzip j.rotating j.gzTmp) : LogM Unit)
      fun _ => At j fun d => d.lookup j.finalPath = none ∧ Packed x j d := by
  rw [hj.rotating]
  refine request_spec (stable_at (away_absent hj.final_ne_current))
    (fun w _ hp => ⟨j, hp.1, rfl, rfl⟩) fun w l a w' _ hp _ ha => ?_
  simp only [logAnswer] at ha
  split at ha
  · next r hr _ =>
    obtain ⟨-, rfl⟩ := Prod.mk.inj ha
    refine ⟨hp.1, ?_, r, _, ?_, Disk.lookup_put_self, rfl⟩
    · exact (Disk.lookup_put_ne hj.tmp_ne_final.symm).trans hp.2
    · exact (Disk.lookup_put_ne hj.tmp_ne_rotating.symm).trans hr
  · cases ha
  · cases ha

/-- Put the archive in its place. -/
theorem finalize_spec (hj : j.Named) :
    Spec U.setting (At j fun d => d.lookup j.finalPath = none ∧ Packed x j d)
      (request (.rename j.gzTmp j.finalPath) : LogM Unit)
      fun _ => At j fun d => (d.lookup j.finalPath).isSome = true := by
  refine request_spec (stable_at ((away_absent hj.final_ne_current).and (away_packed hj)))
    (fun w _ hp => ?_) fun w l a w' _ hp _ ha => ?_
  · obtain ⟨hjw, hfinal, r, t, hr, ht, hb⟩ := hp
    exact .inr ⟨j, hjw, rfl, rfl, hfinal, r, t, hr, ht, hb⟩
  · obtain ⟨file, -, rfl⟩ := LogWorld.moveFile_ok ha
    refine ⟨hp.1, ?_⟩
    show (((w.disk.move j.gzTmp j.finalPath file)).lookup j.finalPath).isSome = true
    rw [Disk.lookup_move_self]
    rfl

/-- Remove the renamed file, whose archive is there. -/
theorem remove_rotating_spec (hj : j.Named) :
    Spec U.setting (At j fun d => (d.lookup j.finalPath).isSome = true)
      (request (.remove j.rotating) : LogM Bool)
      fun _ => At j fun d => d.lookup .rotating = none := by
  rw [hj.rotating]
  refine request_spec (stable_at (away_present hj.final_ne_current))
    (fun w _ hp => ⟨j, hp.1, .inr ⟨rfl, fun _ => hp.2⟩⟩) fun w l a w' _ hp _ ha => ?_
  simp only [logAnswer] at ha
  split at ha
  · obtain ⟨-, rfl⟩ := Prod.mk.inj ha
    exact ⟨hp.1, AList.lookup_erase _ _⟩
  · cases ha

/-- Remove the temporary file. -/
theorem discard_spec (hF : Away F)
    (hkeep : ∀ d : Disk, F d → F (d.erase j.gzTmp)) :
    Spec U.setting (At j F) (removeIfExists j.gzTmp) fun _ => At j F := by
  refine .bind (Q := fun _ => At j F) (request_spec (stable_at hF)
    (fun w _ hp => ⟨j, hp.1, .inl rfl⟩) fun w l a w' _ hp _ ha => ?_)
    fun _ => .pure fun _ _ hp => hp
  simp only [logAnswer] at ha
  split at ha
  · obtain ⟨-, rfl⟩ := Prod.mk.inj ha
    exact ⟨hp.1, hkeep _ hp.2⟩
  · cases ha

/-- The journal is cleared when the renamed file is gone. -/
theorem clear_spec :
    Spec U.setting (At j fun d => d.lookup .rotating = none)
      (request .clearRotationJournal : LogM Unit) fun _ w => w.journal = none := by
  refine request_spec (stable_at (away_absent (by simp))) (fun w _ hp => hp.2)
    fun w l a w' _ hp _ ha => ?_
  obtain rfl := l.decide_ok ha
  rfl

end Stages

/-! ### Recovery -/

section Recovery

variable {U} {P : LogWorld → Prop} {j : RotationJournal}

theorem mem_pendingEvents {st : Store} {limit : Nat} {e : EventRecord}
    (h : e ∈ st.pendingEvents limit) : e ∈ st.eventOutbox :=
  (List.mem_insertionSort _).mp (List.mem_of_mem_take h)

theorem pending_spec (hP : U.setting.Stable P) :
    Spec U.setting P pending fun rows w => P w ∧
      ∀ row ∈ rows, ∃ e ∈ w.store.eventOutbox, row = (e.eventId, x.toStr e) := by
  refine .bind (Q := fun o w => P w ∧ ∀ rows, o = .ok rows →
    ∀ row ∈ rows, ∃ e ∈ w.store.eventOutbox, row = (e.eventId, x.toStr e))
    (query_spec hP (fun _ _ _ => trivial) fun w l _ hp => ⟨hp, ?_⟩) fun o => ?_
  · intro rows hrows row hrow
    obtain rfl := Except.ok.inj hrows
    obtain ⟨e, he, rfl⟩ := List.mem_map.mp hrow
    exact ⟨e, mem_pendingEvents he, rfl⟩
  · cases o with
    | ok rows => exact .pure fun w _ h => ⟨h.1, h.2 rows rfl⟩
    | error e => exact .throw

/-- Rows whose events are found are deleted. -/
theorem markPresent_spec {present : List Uuid} (hP : U.setting.Stable P)
    (hmark : ∀ w id, P w → P (w.mark id)) :
    Spec U.setting (fun w => P w ∧ ∀ id ∈ present, U.found id w) (markPresent present)
      fun _ => P := by
  have hJ : U.setting.Stable fun w => P w ∧ ∀ id ∈ present, U.found id w :=
    fun w w' hi hstep hp => ⟨hP hi hstep hp.1, fun id hid => U.found_others hi hstep (hp.2 id hid)⟩
  refine .bind (pending_spec hJ) fun rows => ?_
  refine Spec.pre (Spec.conseq (Spec.forM fun row _ => ?_) (fun _ _ hp => hp)
    fun _ _ _ hp => hp.1) fun w _ hp => hp.1
  refine .ite (fun hrow => ?_) fun _ => .pure fun _ _ hp => hp
  refine request_spec hJ (fun w _ hp => hp.2 _ hrow) fun w l a w' hi hp _ ha => ?_
  obtain rfl := l.decide_ok ha
  exact ⟨hmark w _ hp.1, fun id hid => U.found_mark hi (hp.2 _ hrow) (hp.2 id hid)⟩

theorem stable_found (hP : U.setting.Stable P) (ids : List Uuid) :
    U.setting.Stable fun w => P w ∧ ∀ id ∈ ids, U.found id w :=
  fun _ _ hi hstep hp =>
    ⟨hP hi hstep hp.1, fun id hid => U.found_others hi hstep (hp.2 id hid)⟩

/-- What is read of a file is found. -/
theorem tailIds_spec (hP : U.setting.Stable P) {p : LogPath} (hp : p = .current ∨ p = .rotating) :
    Spec U.setting P (tailIds x p) fun ids w => P w ∧ ∀ id ∈ ids, U.found id w :=
  .bind (read_spec hP p) fun _ => .pure fun _ hi h =>
    ⟨h.1, fun _ hid => U.found_read hi hp (h.2 ▸ hid)⟩

theorem markBoth_spec {current rotating : List Uuid} (hP : U.setting.Stable P)
    (hmark : ∀ w id, P w → P (w.mark id)) :
    Spec U.setting
      (fun w => (P w ∧ ∀ id ∈ current, U.found id w) ∧ ∀ id ∈ rotating, U.found id w)
      (markPresent (current ++ rotating)) fun _ => P := by
  refine (markPresent_spec hP hmark).pre fun w _ h => ⟨h.1.1, fun id hid => ?_⟩
  rcases List.mem_append.mp hid with hid | hid
  · exact h.1.2 id hid
  · exact h.2 id hid

/-- An archive that is in its place decompresses. -/
theorem verifyGzip_spec (hj : j.Named) :
    Spec U.setting (At j fun d => (d.lookup j.finalPath).isSome = true)
      (verifyGzip x j.finalPath)
      fun ok w => ok = true ∧ At j (fun d => (d.lookup j.finalPath).isSome = true) w := by
  refine .bind (read_spec (stable_at (away_present hj.final_ne_current)) j.finalPath)
    fun o => .pure fun w hi h => ⟨?_, h.1⟩
  obtain ⟨⟨hjw, hfinal⟩, rfl⟩ := h
  obtain ⟨f, hf⟩ := Option.isSome_iff_exists.mp hfinal
  obtain ⟨b, hb, -⟩ := ((U.journalOk hi).sealed j hjw).packed f hf
  simp [Disk.bytes, hf, hb]

/-- Whether the archive is complete: it is, if it is there. -/
theorem finalOk_spec (hj : j.Named) :
    Spec U.setting (At j fun _ => True) (finalOk x j)
      fun ok => At j fun d => (d.lookup j.finalPath).isSome = ok := by
  refine .bind (fileExists_spec (stable_at away_true) _) fun there => ?_
  refine .ite (fun hthere => ?_) fun hthere => .pure fun w _ h => ⟨h.1.1, ?_⟩
  · refine (verifyGzip_spec hj).conseq (fun w _ h => ⟨h.1.1, h.2.symm.trans hthere⟩)
      fun ok w _ h => ⟨h.2.1, h.2.2.trans h.1.symm⟩
  · exact h.2.symm.trans (Bool.eq_false_iff.mpr hthere)

theorem recompress_spec (hj : j.Named) :
    Spec U.setting (At j fun d => d.lookup j.finalPath = none) (recompress j)
      fun _ => At j fun d => d.lookup .rotating = none := by
  have hfinal := hj.final_ne_current
  refine .bind (discard_spec (away_absent hfinal) fun d h => ?_) fun _ => ?_
  · exact (AList.lookup_erase_ne hj.tmp_ne_final.symm).trans h
  refine .bind (gzip_spec hj) fun _ => ?_
  refine .bind (finalize_spec hj) fun _ => ?_
  refine .bind (sync_spec (stable_at (away_present hfinal))) fun _ => ?_
  exact .bind (remove_rotating_spec hj) fun _ => .pure fun _ _ h => h

/-- The archive is finished in each case, and the renamed file is gone. -/
theorem finishArchive_spec (hj : j.Named) :
    Spec U.setting (At j fun _ => True) (finishArchive x j)
      fun _ => At j fun d => d.lookup .rotating = none := by
  have hgone : Away fun d => d.lookup .rotating = none := away_absent (by simp)
  refine .bind (finalOk_spec hj) fun ok => .ite (fun hok => ?_) fun hok => ?_
  · -- The archive is complete.
    refine .bind (Spec.pre (discard_spec (away_present hj.final_ne_current) fun d h => ?_)
      fun w _ h => ⟨h.1, h.2.trans hok⟩) fun _ => ?_
    · rwa [AList.lookup_erase_ne hj.tmp_ne_final.symm]
    · exact .bind (remove_rotating_spec hj) fun _ => .pure fun _ _ h => h
  · have hnone : ∀ w : LogWorld, At j (fun d => (d.lookup j.finalPath).isSome = ok) w →
        At j (fun d => d.lookup j.finalPath = none) w :=
      fun w h => ⟨h.1, Option.isSome_eq_false_iff.mp (h.2.trans (Bool.eq_false_iff.mpr hok)) |>
        Option.isNone_iff_eq_none.mp⟩
    rw [hj.rotating]
    refine .bind (Spec.pre (fileExists_spec (stable_at (away_absent hj.final_ne_current)) _)
      fun w _ h => hnone w h) fun there => .ite (fun _ => ?_) fun hthere => ?_
    · exact (recompress_spec hj).pre fun _ _ h => h.1
    · -- The rotation was stopped before its rename, or after its removal.
      refine (discard_spec hgone fun d h => ?_).pre fun w _ h => ⟨h.1.1, ?_⟩
      · rwa [AList.lookup_erase_ne hj.tmp_ne_rotating.symm]
      · exact Option.isNone_iff_eq_none.mp (Option.isSome_eq_false_iff.mp
          (h.2.symm.trans (Bool.eq_false_iff.mpr hthere)))

theorem recoverFrom_spec (hj : j.Named) :
    Spec U.setting (At j fun _ => True) (recoverFrom x j) fun _ w => w.journal = none := by
  have hgone : Away fun d => d.lookup .rotating = none := away_absent (by simp)
  refine .bind (sync_spec (stable_at away_true)) fun _ => ?_
  rw [hj.rotating]
  refine .bind (tailIds_spec (stable_at away_true) (.inl rfl)) fun current => ?_
  refine .bind (tailIds_spec (stable_found (stable_at away_true) _) (.inr rfl)) fun rotating => ?_
  refine .bind (markBoth_spec (stable_at away_true) fun w id h => h) fun _ => ?_
  refine .bind (finishArchive_spec hj) fun _ => ?_
  refine .bind (sync_spec (stable_at hgone)) fun _ => ?_
  refine .bind (sync_spec (stable_at hgone)) fun _ => ?_
  refine .bind (openCurrent_spec (stable_at hgone)) fun _ => ?_
  exact .bind (sync_spec (stable_at hgone)) fun _ => clear_spec

/-- **Recovery** leaves no journal. -/
theorem recoverRotation_spec :
    Spec U.setting (fun _ => True) (recoverRotation x) fun _ w => w.journal = none := by
  refine .bind (rotationJournal_spec (stable_const True)) fun o => ?_
  rcases o with e | _ | j
  · exact .assume (p := False) (fun w _ h => by cases h.2) False.elim
  · exact .pure fun w _ h => (Except.ok.inj h.2).symm
  · refine .assume (p := j.Named)
      (fun w hi h => ((U.journalOk hi).sealed j (Except.ok.inj h.2).symm).toNamed) fun hj => ?_
    exact (recoverFrom_spec hj).pre fun w _ h => ⟨(Except.ok.inj h.2).symm, trivial⟩

end Recovery

/-! ### Rotation -/

section Rotation

variable {U} {P : LogWorld → Prop} {j : RotationJournal}

/-- The journal goes on with the rotation that it records. -/
theorem setPhase_spec {F : Disk → Prop} (hj : j.Named) (hF : Away F) (phase : RotationPhase) :
    Spec U.setting (At j F) (request (.setRotationJournal { j with phase }) : LogM Unit)
      fun _ => At { j with phase } F := by
  refine request_spec (stable_at hF)
    (fun w _ h => ⟨⟨hj.source, hj.rotating, hj.final, hj.tmp⟩, .inr ⟨j, h.1, rfl⟩⟩)
    fun w l a w' _ h _ ha => ?_
  obtain rfl := l.decide_ok ha
  exact ⟨rfl, h.2⟩

/-- Intent is recorded while no renamed file is there. -/
theorem intent_spec (hj : j.Named) :
    Spec U.setting (fun w => w.journal = none ∧ w.disk.lookup j.finalPath = none)
      (request (.setRotationJournal j) : LogM Unit)
      fun _ => At j fun d => d.lookup j.finalPath = none ∧ d.lookup .rotating = none := by
  have hstable : U.setting.Stable fun w =>
      w.journal = none ∧ w.disk.lookup j.finalPath = none :=
    U.stable_away fun w w' hjw hd h => ⟨hjw.trans h.1, (hd _ hj.final_ne_current).trans h.2⟩
  refine request_spec hstable (fun w _ h => ⟨hj, .inl h⟩) fun w l a w' hi h _ ha => ?_
  obtain rfl := l.decide_ok ha
  exact ⟨rfl, h.2, (U.journalOk hi).free h.1⟩

theorem rename_spec (hj : j.Named) :
    Spec U.setting (At j fun d => d.lookup j.finalPath = none ∧ d.lookup .rotating = none)
      (request (.rename j.source j.rotating) : LogM Unit)
      fun _ => At j fun d => d.lookup j.finalPath = none := by
  rw [hj.source, hj.rotating]
  have haway := (away_absent hj.final_ne_current).and (away_absent (p := .rotating) (by simp))
  refine request_spec (stable_at haway)
    (fun w _ h => .inl ⟨rfl, rfl, h.2.2, j, h.1, h.2.1⟩) fun w l a w' _ h _ ha => ?_
  obtain ⟨f, -, rfl⟩ := LogWorld.moveFile_ok ha
  exact ⟨h.1, (Disk.lookup_move_ne hj.final_ne_rotating hj.final_ne_current).trans h.2.1⟩

/-- **Rotation** leaves no journal. -/
theorem rotate_spec (hj : j.Named) :
    Spec U.setting (fun w => w.journal = none ∧ w.disk.lookup j.finalPath = none) (rotate j)
      fun _ w => w.journal = none := by
  have hfinal := hj.final_ne_current
  have hthere : Away fun d => (d.lookup j.finalPath).isSome = true := away_present hfinal
  have hgone : Away fun d => d.lookup .rotating = none := away_absent (by simp)
  have hj' : ∀ phase, ({ j with phase } : RotationJournal).Named :=
    fun phase => ⟨hj.source, hj.rotating, hj.final, hj.tmp⟩
  refine .bind (intent_spec hj) fun _ => ?_
  refine .bind (rename_spec hj) fun _ => ?_
  refine .bind (sync_spec (stable_at (away_absent hfinal))) fun _ => ?_
  refine .bind (gzip_spec hj) fun _ => ?_
  refine .bind (finalize_spec hj) fun _ => ?_
  refine .bind (sync_spec (stable_at hthere)) fun _ => ?_
  refine .bind (setPhase_spec hj hthere .finalized) fun _ => ?_
  refine .bind (Q := fun _ => At { j with phase := .finalized } fun d => d.lookup .rotating = none)
    (.bind (remove_rotating_spec (hj' _)) fun there => ?_) fun _ => ?_
  · exact .ite (fun _ => .pure fun _ _ h => h) fun _ => .throw
  refine .bind (sync_spec (stable_at hgone)) fun _ => ?_
  refine .bind (setPhase_spec (hj' _) hgone .sourceRemoved) fun _ => ?_
  refine .bind (openCurrent_spec (stable_at hgone)) fun _ => ?_
  exact .bind (sync_spec (stable_at hgone)) fun _ => clear_spec

/-- A name that is free stays free. -/
theorem firstFree_spec (hP : U.setting.Stable P) (names : List String) :
    Spec U.setting P (firstFree names) fun name w => P w ∧ name ∈ names ∧
      w.disk.lookup (.archive (gzPathFor name)) = none := by
  induction names with
  | nil => exact .throw
  | cons name names ih =>
    have hrest : Spec U.setting P (firstFree names) fun n w => P w ∧ n ∈ name :: names ∧
        w.disk.lookup (.archive (gzPathFor n)) = none :=
      ih.conseq (fun _ _ h => h) fun n w _ h => ⟨h.1, List.mem_cons_of_mem _ h.2.1, h.2.2⟩
    refine .bind (fileExists_spec hP _) fun plain => .ite (fun _ => ?_) fun _ => ?_
    · exact hrest.pre fun _ _ h => h.1
    refine .bind (Spec.pre (fileExists_spec hP _) fun _ _ h => h.1) fun gz =>
      .ite (fun _ => ?_) fun hgz => ?_
    · exact hrest.pre fun _ _ h => h.1
    · refine .pure fun w _ h => ⟨h.1, List.mem_cons_self, ?_⟩
      exact Option.isNone_iff_eq_none.mp (Option.isSome_eq_false_iff.mp
        (h.2.symm.trans (Bool.eq_false_iff.mpr hgz)))

theorem gzPathFor_candidate (year : Int) (week n : Nat) :
    gzPathFor (archiveCandidate year week n) =
      "events-" ++ archiveStem year week n ++ ".jsonl.gz" := by
  rw [gzPathFor, archiveCandidate, String.append_assoc]
  rfl

/-- The archive that is made is read into the history, its temporary file is
not. -/
theorem named_of_candidate (year : Int) (week n : Nat) (startedAt : Int) :
    ({ source := .current
       rotating := .rotating
       gzTmp := .archive ("." ++ gzPathFor (archiveCandidate year week n) ++ ".tmp")
       finalPath := .archive (gzPathFor (archiveCandidate year week n))
       phase := .renamed
       startedAt } : RotationJournal).Named where
  source := rfl
  rotating := rfl
  final := by
    refine ⟨_, rfl, ?_, ?_⟩
    · rw [gzPathFor_candidate, isArchiveFile, Bool.and_eq_true, Bool.or_eq_true]
      constructor
      · simp
      · refine .inr (List.isSuffixOf_iff_suffix.mpr ?_)
        rw [String.toList_append]
        exact List.suffix_append _ _
    · rw [gzPathFor, isGz, String.toList_append]
      exact List.isSuffixOf_iff_suffix.mpr (List.suffix_append _ _)
  tmp := ⟨_, rfl, by simp [isArchiveFile]⟩

/-- The name of a new archive, which is not there. -/
theorem uniqueArchivePath_spec (hP : U.setting.Stable P) :
    Spec U.setting P uniqueArchivePath fun name w => P w ∧
      (∃ year week n, name = archiveCandidate year week n) ∧
      w.disk.lookup (.archive (gzPathFor name)) = none := by
  refine .bind (isoWeek_spec hP) fun now => ?_
  refine (firstFree_spec hP _).conseq (fun _ _ h => h) fun name w _ h => ⟨h.1, ?_, h.2.2⟩
  obtain ⟨n, -, rfl⟩ := List.mem_map.mp h.2.1
  exact ⟨_, _, n, rfl⟩

theorem rotateJournaled_spec :
    Spec U.setting (fun _ => True) (rotateJournaled x) fun _ w => w.journal = none := by
  have hnone : U.setting.Stable fun w => w.journal = none :=
    U.stable_away fun w w' hjw _ h => hjw.trans h
  refine .bind recoverRotation_spec fun _ => ?_
  refine .bind (sync_spec hnone) fun _ => ?_
  refine .bind (currentLen_spec hnone) fun len => .ite (fun _ => ?_) fun _ => ?_
  · exact .bind (openCurrent_spec hnone) fun _ => .pure fun _ _ h => h
  refine .bind (createArchiveDir_spec hnone) fun _ => ?_
  refine .bind (uniqueArchivePath_spec hnone) fun name => ?_
  refine .assume (p := ∃ year week n, name = archiveCandidate year week n)
    (fun _ _ h => h.2.1) fun ⟨year, week, n, hname⟩ => ?_
  subst hname
  have hfree : U.setting.Stable fun w => w.journal = none ∧
      w.disk.lookup (.archive (gzPathFor (archiveCandidate year week n))) = none :=
    U.stable_away fun w w' hjw hd h => ⟨hjw.trans h.1, (hd _ (by simp)).trans h.2⟩
  refine .bind ((now_spec hfree).pre fun _ _ h => ⟨h.1, h.2.2⟩) fun startedAt => ?_
  exact .bind (rotate_spec (named_of_candidate year week n startedAt)) fun _ => .pure fun _ _ h => h

end Rotation

/-! ### Retention -/

section Retention

variable {U}

theorem stable_unjournaled : U.setting.Stable fun w => w.journal = none :=
  U.stable_away fun _ _ hj _ h => hj.trans h

/-- An archive is removed when no rotation is under way, and a failure to
remove it may be passed over. -/
theorem removeArchive_keeps {w : LogWorld} {l : LogLuck} {n : String} (h : w.journal = none) :
    (logAnswer x (.removeArchive n) l w).2.journal = none := by
  rcases w.moveFile_snd l (.archive n) fun _ => w.removeArchive n with hw | ⟨f, -, hw⟩
  · exact (congrArg LogWorld.journal hw).trans h
  · exact (congrArg LogWorld.journal hw).trans h

variable (hret : U.retiring)
include hret

theorem removeArchive_spec (name : String) :
    Spec U.setting (fun w => w.journal = none) (request (.removeArchive name) : LogM Unit)
      fun _ w => w.journal = none := by
  refine request_spec stable_unjournaled (fun _ _ h => ⟨hret, h⟩) fun w l a w' _ h _ ha => ?_
  have hkeep := removeArchive_keeps (x := x) (l := l) (n := name) h
  rwa [ha] at hkeep

theorem tryRemoveArchive_spec (name : String) :
    Spec U.setting (fun w => w.journal = none) (query (.removeArchive name) : LogM _)
      fun _ w => w.journal = none :=
  query_spec stable_unjournaled (fun _ _ h => ⟨hret, h⟩) fun _ _ _ h => removeArchive_keeps h

theorem cleanStrays_spec (names : List String) :
    Spec U.setting (fun w => w.journal = none) (cleanStrays names) fun _ w => w.journal = none := by
  have hremove : ∀ name, Spec U.setting (fun w => w.journal = none)
      (do let _ ← query (.removeArchive name); return () : LogM Unit) fun _ w => w.journal = none :=
    fun name => .bind (tryRemoveArchive_spec hret name) fun _ => .pure fun _ _ h => h
  refine Spec.forM fun name _ => .ite (fun _ => hremove name) fun _ => ?_
  refine .ite (fun _ => ?_) fun _ => ?_
  · refine .bind (fileExists_spec stable_unjournaled _) fun gz => .ite (fun _ => ?_) fun _ => ?_
    · exact (hremove name).pre fun _ _ h => h.1
    · exact .pure fun _ _ h => h.1
  · exact .pure fun _ _ h => h

theorem enforceBudget_spec (cfg : EventLogConfig) (archives : List (String × File)) (total : Nat)
    (report : RetainReport) :
    Spec U.setting (fun w => w.journal = none) (enforceBudget cfg archives total report)
      fun _ w => w.journal = none := by
  induction archives generalizing total report with
  | nil => exact .pure fun _ _ h => h
  | cons a archives ih =>
    refine .ite (fun _ => .pure fun _ _ h => h) fun _ => ?_
    exact .bind (removeArchive_spec hret a.1) fun _ => ih _ _

theorem retain_spec (cfg : EventLogConfig) :
    Spec U.setting (fun w => w.journal = none) (retain cfg) fun _ w => w.journal = none := by
  refine .bind (readDir_spec stable_unjournaled) fun entries => ?_
  refine .bind (cleanStrays_spec hret _) fun _ => ?_
  refine .bind (now_spec stable_unjournaled) fun now => ?_
  refine .bind (readDir_spec stable_unjournaled) fun entries => ?_
  refine .bind (Spec.forM fun a _ => removeArchive_spec hret a.1) fun _ => ?_
  refine .bind (readDir_spec stable_unjournaled) fun entries => ?_
  exact .bind (currentLen_spec stable_unjournaled) fun len => enforceBudget_spec hret cfg _ _ _

/-- **The prune** goes by the rules. -/
theorem rotateAndRetain_spec (cfg : EventLogConfig) :
    Spec U.setting (fun _ => True) (rotateAndRetain x cfg) fun _ w => w.journal = none := by
  refine .bind recoverRotation_spec fun _ => ?_
  refine .bind (rotateJournaled_spec.pre fun _ _ _ => trivial) fun archived => ?_
  exact .bind (retain_spec hret cfg) fun removed => .pure fun _ _ h => h

end Retention

/-! ### The cycle -/

/-- An upkeep under which the rows of the outbox may be written. -/
structure Rows (U : Upkeep x) where
  retiring : U.retiring
  row : Uuid × String → LogWorld → Prop
  lasting : ∀ r, U.setting.Lasting (row r)
  pending : ∀ {w e}, U.inv w → e ∈ w.store.eventOutbox → row (e.eventId, x.toStr e) w
  writes : ∀ {w r}, U.inv w → row r w → U.writes (utf8 r.2 ++ [NEWLINE]) w
  /-- The line that has been written is in the log. -/
  found : ∀ {w r} (clock : Int), U.inv w → row r w →
    (U.whole → Whole NEWLINE ((w.disk.bytes .current).getD [])) →
    U.found r.1 (w.onDisk (·.append (utf8 r.2 ++ [NEWLINE]) clock))

section Cycle

variable {U} {P : LogWorld → Prop}

theorem rotatingIds_spec (hP : U.setting.Stable P) :
    Spec U.setting P (rotatingIds x) fun ids w => P w ∧ ∀ id ∈ ids, U.found id w := by
  have hnil : ∀ o : Except EventLogError (Option RotationJournal),
      Spec U.setting (fun w => P w ∧ o = .ok w.journal) (return [] : LogM (List Uuid))
        fun ids w => P w ∧ ∀ id ∈ ids, U.found id w :=
    fun o => .pure fun w _ h => ⟨h.1, fun id hid => (List.not_mem_nil hid).elim⟩
  refine .bind (rotationJournal_spec hP) fun o => ?_
  rcases o with e | _ | j
  · exact hnil _
  · exact hnil _
  · refine .assume (p := j.Named)
      (fun w hi h => ((U.journalOk hi).sealed j (Except.ok.inj h.2).symm).toNamed) fun hj => ?_
    exact (tailIds_spec hP (.inr hj.rotating)).pre fun _ _ h => h.1

theorem reconcileTail_spec :
    Spec U.setting (fun _ => True) (reconcileTail x) fun _ _ => True := by
  refine .bind (tailIds_spec (stable_const True) (.inl rfl)) fun current => ?_
  refine .bind (rotatingIds_spec (stable_found (stable_const True) current)) fun rotating => ?_
  exact .ite (fun _ => .pure fun _ _ _ => trivial) fun _ =>
    markBoth_spec (stable_const True) fun _ _ h => h

theorem rotateIfFull_spec (cfg : EventLogConfig) (payload : String) :
    Spec U.setting (fun _ => True) (rotateIfFull x cfg payload) fun _ _ => True := by
  refine .bind (currentLen_spec (stable_const True)) fun len => .ite (fun _ => ?_) fun _ => ?_
  · refine .bind rotateJournaled_spec fun archived => ?_
    cases archived with
    | none => exact .pure fun _ _ _ => trivial
    | some archive =>
      refine .bind (Spec.modify (Q := fun _ _ => True) fun _ _ _ => trivial) fun _ => ?_
      exact enqueueEvent_spec (stable_const True) _ _
  · exact .pure fun _ _ _ => trivial

variable (R : U.Rows)
include R

theorem appendLineSynced_spec (r : Uuid × String) :
    Spec U.setting (R.row r) (appendLineSynced (utf8 r.2 ++ [NEWLINE])) fun _ => U.found r.1 := by
  have hfound : U.setting.Stable (U.found r.1) := fun _ _ hi hstep h => U.found_others hi hstep h
  refine .bind (openCurrent_spec (R.lasting r).stable) fun _ => ?_
  refine .bind (request_spec (Q := fun _ => U.found r.1) (R.lasting r).stable
    (fun w hi h => R.writes hi h) fun w l a w' hi h hwhole ha => ?_) fun _ => sync_spec hfound
  simp only [logAnswer] at ha
  split at ha
  · obtain ⟨-, rfl⟩ := Prod.mk.inj ha
    exact R.found l.clock hi h hwhole
  · cases ha

theorem publishRow_spec (cfg : EventLogConfig) (r : Uuid × String) :
    Spec U.setting (R.row r) (publishRow x cfg r) fun _ _ => True := by
  have hfound : U.setting.Stable (U.found r.1) := fun _ _ hi hstep h => U.found_others hi hstep h
  refine .bind (((rotateIfFull_spec cfg r.2).frame (R.lasting r)).pre fun _ _ h => ⟨trivial, h⟩)
    fun _ => ?_
  refine .bind ((appendLineSynced_spec R r).pre fun _ _ h => h.2) fun _ => ?_
  refine .bind (request_spec (Q := fun _ _ => True) hfound (fun _ _ h => h)
    fun _ _ _ _ _ _ _ _ => trivial) fun _ => ?_
  exact Spec.modify fun _ _ _ => trivial

theorem drain_spec (cfg : EventLogConfig) :
    Spec U.setting (fun _ => True) (drain x cfg) fun _ _ => True := by
  have hrows : ∀ rows : List (Uuid × String), U.setting.Lasting fun w => ∀ r ∈ rows, R.row r w :=
    fun rows =>
      { stable := fun _ _ hi hstep h r hr => (R.lasting r).stable hi hstep (h r hr)
        call := fun e _ _ _ hi hc ha h r hr => (R.lasting r).call e hi hc ha (h r hr) }
  refine .bind (pending_spec (stable_const True)) fun rows => ?_
  refine Spec.conseq (Spec.forM (J := fun w => ∀ r ∈ rows, R.row r w) fun r hr => ?_)
    (fun w hi h r hr => ?_) fun _ _ _ _ => trivial
  · -- The other rows stay what they are.
    exact ((publishRow_spec R cfg r).frame (hrows rows)).conseq
      (fun _ _ h => ⟨h r hr, h⟩) fun _ _ _ h => h.2
  · obtain ⟨e, he, rfl⟩ := h.2 r hr
    exact R.pending hi he

/-- **The publish cycle** goes by the rules. -/
theorem cycleInner_spec (cfg : EventLogConfig) :
    Spec U.setting (fun _ => True) (cycleInner x cfg) fun _ _ => True := by
  refine .bind (Spec.modify (Q := fun _ _ => True) fun _ _ _ => trivial) fun _ => ?_
  refine .bind recoverRotation_spec fun _ => ?_
  refine .bind (reconcileTail_spec.pre fun _ _ _ => trivial) fun _ => ?_
  exact drain_spec R cfg

/-- The thread of a job keeps the upkeep, from wherever it starts. -/
theorem job_sound (cfg : EventLogConfig) (job : LogJob) {w : LogWorld} (hi : U.inv w) :
    (job.thread x cfg).Sound U.setting (fun _ _ => True) w := by
  cases job with
  | cycle => exact (cycleInner_spec R cfg).thread hi trivial {}
  | prune => exact (rotateAndRetain_spec R.retiring cfg).thread hi trivial {}

end Cycle

end Upkeep

/-! ### Runs -/

/-- The next call of the leader adds to a whole file, if it adds. -/
def LogState.OnWhole (s : LogState) : Prop :=
  match s.leader with
  | .ret _ => True
  | .call e _ => e.OnWhole s.world

instance (s : LogState) : Decidable s.OnWhole :=
  match s with
  | ⟨_, .ret _⟩ => isTrue trivial
  | ⟨w, .call e _⟩ => inferInstanceAs (Decidable (e.OnWhole w))

/-- No line is put behind a part of a line. -/
def AppendsWhole (e : System.Event LogState LogStep) : Prop :=
  ∀ luck, e.label = .call luck → e.pre.OnWhole

instance (e : System.Event LogState LogStep) : Decidable (AppendsWhole e) :=
  match h : e.label with
  | .call luck => decidable_of_iff e.pre.OnWhole ⟨fun hw _ _ => hw, fun hw => hw luck h⟩
  | .enqueue .. | .openLog _ | .elect _ | .crash =>
    isTrue fun _ hc => LogStep.noConfusion (h.symm.trans hc)

namespace Upkeep

variable {x : LogCodec} {U : Upkeep x} (R : U.Rows) {cfg : EventLogConfig}
include R

/-- The upkeep is kept by each step, and the leader stays sound. -/
theorem step {s t : LogState} {i : LogStep} (hstep : (logSystem x cfg).step s i t)
    (hwhole : U.whole → ∀ luck, i = .call luck → s.OnWhole)
    (hi : U.inv s.world) (hl : s.leader.Sound U.setting (fun _ _ => True) s.world) :
    U.inv t.world ∧ t.leader.Sound U.setting (fun _ _ => True) t.world := by
  obtain ⟨w, leader⟩ := s
  change logNext x cfg ⟨w, leader⟩ i = some t at hstep
  cases i with
  | enqueue kind loggedAt subject note =>
    obtain rfl := Option.some.inj hstep
    have ho : w.Others _ := .enqueue kind loggedAt subject note
    exact ⟨U.inv_others ho hi, hl.others (fun _ => stable_const True) hi ho⟩
  | openLog clock =>
    obtain rfl := Option.some.inj hstep
    have ho : w.Others _ := .openLog clock
    exact ⟨U.inv_others ho hi, hl.others (fun _ => stable_const True) hi ho⟩
  | elect job =>
    cases leader with
    | ret u =>
      obtain rfl := Option.some.inj hstep
      exact ⟨hi, job_sound R cfg job hi⟩
    | call e k => cases hstep
  | call luck =>
    cases leader with
    | ret u => cases hstep
    | call e k =>
      obtain rfl := Option.some.inj hstep
      exact hl.next ⟨fun hw => hwhole hw luck rfl, luck, rfl⟩
  | crash =>
    obtain rfl := Option.some.inj hstep
    exact ⟨hi, trivial⟩

/-- **The upkeep holds in every state** of a run in which, where that is
asked for, no line is put behind a part of a line. -/
theorem run {s₀ s : LogState} {tr : List (System.Event LogState LogStep)}
    (hrun : (logSystem x cfg).Run s₀ tr s) (hwhole : ∀ e ∈ tr, U.whole → AppendsWhole e)
    (hi : U.inv s₀.world) (hidle : s₀.leader = .ret ()) : U.inv s.world := by
  have hl : s₀.leader.Sound U.setting (fun _ _ => True) s₀.world := by
    rw [hidle]
    trivial
  refine (hrun.invariant
    (I := fun s => U.inv s.world ∧ s.leader.Sound U.setting (fun _ _ => True) s.world)
    hwhole ⟨hi, hl⟩ fun s i t hstep hG hI => ?_).1
  exact step R hstep hG hI.1 hI.2

end Upkeep

end Bellman

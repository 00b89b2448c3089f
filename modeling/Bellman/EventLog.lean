/-
Bellman/EventLog.lean

The event log on disk, and how it is read.

The log is a current file of JSON lines, the files that it was rotated into
(`logs/archive/events-<year>-W<week>[.N].jsonl.gz`), and for the time of a
rotation the renamed current file.  `read_log_history` reads all of them and
keeps the first record of each event id; `tail_event_ids`, with which the
publisher finds out what it has written already, looks at the end of one
file.

Both pass over what they cannot read.  The JSON and gzip libraries are
parameters (`LogCodec`); `LogCodec.Lawful` says what is relied on.

Main result: what `read_log_history` returns, line by line
(`mem_readLogHistory`).
-/
import Bellman.Lib.Lines
import Bellman.Store
import Mathlib.Data.List.AList
import Mathlib.Data.List.DropRight
import Mathlib.Data.List.Sort

namespace Bellman

open ProgramLogic
open OccurrenceKind (isWhiteSpace)

/-! ### Bytes and text -/

abbrev Bytes := List UInt8

def NEWLINE : UInt8 := 10

/-- The bytes of a text. -/
def utf8 (s : String) : Bytes := s.toByteArray.data.toList

/-- `str::from_utf8`. -/
def fromUtf8 (b : Bytes) : Option String := String.fromUTF8? ⟨b.toArray⟩

@[simp] theorem fromUtf8_utf8 (s : String) : fromUtf8 (utf8 s) = some s := by
  show String.fromUTF8? ⟨s.toByteArray.data.toList.toArray⟩ = some s
  rw [Array.toArray_toList]
  exact dif_pos s.isValidUTF8

/-- How many bytes continue a character that starts with this one, and the
range of the first of them. -/
def continuation (b : UInt8) : Option (Nat × UInt8 × UInt8) :=
  if 0xC2 ≤ b ∧ b ≤ 0xDF then some (1, 0x80, 0xBF)
  else if b = 0xE0 then some (2, 0xA0, 0xBF)
  else if b = 0xED then some (2, 0x80, 0x9F)
  else if 0xE1 ≤ b ∧ b ≤ 0xEF then some (2, 0x80, 0xBF)
  else if b = 0xF0 then some (3, 0x90, 0xBF)
  else if 0xF1 ≤ b ∧ b ≤ 0xF3 then some (3, 0x80, 0xBF)
  else if b = 0xF4 then some (3, 0x80, 0x8F)
  else none

/-- The length of the longest start of the bytes that is a character or the
start of one; one byte if there is none. -/
def subpart : Bytes → Nat
  | [] => 0
  | [_] => 1
  | b :: c :: rest =>
    match continuation b with
    | some (n, lo, hi) =>
      if lo ≤ c ∧ c ≤ hi then
        2 + ((rest.take (n - 1)).takeWhile fun d => 0x80 ≤ d ∧ d ≤ 0xBF).length
      else 1
    | none => 1

/-- Each part that is no character is replaced by U+FFFD. -/
def replaceInvalid : Nat → Bytes → List Char
  | 0, _ => []
  | fuel + 1, b =>
    if b = [] then []
    else ((fromUtf8 (b.take (subpart b))).elim [Char.ofNat 0xFFFD] String.toList) ++
      replaceInvalid fuel (b.drop (subpart b))

/-- `String::from_utf8_lossy`. -/
def fromUtf8Lossy (b : Bytes) : String :=
  match fromUtf8 b with
  | some s => s
  | none => String.ofList (replaceInvalid b.length b)

@[simp] theorem fromUtf8Lossy_utf8 (s : String) : fromUtf8Lossy (utf8 s) = s := by
  simp [fromUtf8Lossy]

theorem fromUtf8Lossy_of_fromUtf8 {b : Bytes} {s : String} (h : fromUtf8 b = some s) :
    fromUtf8Lossy b = s := by
  simp [fromUtf8Lossy, h]

/-- `str::trim`. -/
def trim (s : String) : String :=
  String.ofList ((s.toList.dropWhile isWhiteSpace).rdropWhile isWhiteSpace)

/-! ### Formats -/

/-- The JSON and gzip libraries, as far as the log uses them. -/
structure LogCodec where
  fromStr : String → Option EventRecord
  toStr : EventRecord → String
  compress : Bytes → Bytes
  decompress : Bytes → Option Bytes

/-- The line of an event, without its newline. -/
def LogCodec.line (x : LogCodec) (e : EventRecord) : Bytes := utf8 (x.toStr e)

/-- What the log relies on. -/
structure LogCodec.Lawful (x : LogCodec) : Prop where
  /-- What is written of an event reads as a record with its id. -/
  readBack : ∀ e, ∃ rec, x.fromStr (x.toStr e) = some rec ∧ rec.eventId = e.eventId
  /-- A record is written as an object, -/
  object : ∀ e, ∃ body, (x.toStr e).toList = '{' :: (body ++ ['}'])
  /-- on one line: control characters are escaped. -/
  oneLine : ∀ e, NEWLINE ∉ x.line e
  /-- An object does not end before its last brace, so a part of one does
  not read, however it is trimmed and mended. -/
  torn : ∀ e b, b <+: x.line e → b ≠ x.line e →
    x.fromStr (fromUtf8Lossy b) = none ∧ x.fromStr (trim (fromUtf8Lossy b)) = none
  inflate : ∀ b, x.decompress (x.compress b) = some b

/-! ### Reading lines -/

/-- Stats from a tolerant read pass. -/
structure ReadStats where
  records : Nat := 0
  skipped : Nat := 0
  lines : Nat := 0
  deriving Repr, DecidableEq

def ReadStats.add (s t : ReadStats) : ReadStats :=
  { records := s.records + t.records, skipped := s.skipped + t.skipped, lines := s.lines + t.lines }

/-- One turn of `read_events_from`. -/
def readLine (x : LogCodec) (out : List EventRecord × ReadStats) (line : Bytes) :
    List EventRecord × ReadStats :=
  match fromUtf8 line with
  | none => (out.1, { out.2 with skipped := out.2.skipped + 1 })
  | some text =>
    let trimmed := trim text
    if trimmed = "" then out
    else
      match x.fromStr trimmed with
      | some rec =>
        (out.1 ++ [rec], { out.2 with lines := out.2.lines + 1, records := out.2.records + 1 })
      | none =>
        (out.1, { out.2 with lines := out.2.lines + 1, skipped := out.2.skipped + 1 })

/-- `read_events_from`. -/
def readEventsFrom (x : LogCodec) (b : Bytes) : List EventRecord × ReadStats :=
  (lines NEWLINE b).foldl (readLine x) ([], {})

/-- The record of a line, for the reader. -/
def LogCodec.record (x : LogCodec) (line : Bytes) : Option EventRecord :=
  (fromUtf8 line).bind fun text => if trim text = "" then none else x.fromStr (trim text)

theorem readEventsFrom_records (x : LogCodec) (b : Bytes) :
    (readEventsFrom x b).1 = (lines NEWLINE b).filterMap x.record := by
  have hfold : ∀ (ls : List Bytes) (out : List EventRecord × ReadStats),
      (ls.foldl (readLine x) out).1 = out.1 ++ ls.filterMap x.record := by
    intro ls
    induction ls with
    | nil => simp
    | cons l ls ih =>
      intro out
      have hline : (readLine x out l).1 = out.1 ++ (x.record l).toList := by
        unfold readLine LogCodec.record
        cases fromUtf8 l with
        | none => simp
        | some text =>
          by_cases htrim : trim text = ""
          · simp [htrim]
          · cases hrec : x.fromStr (trim text) <;> simp [htrim, hrec]
      rw [List.foldl_cons, ih, hline, List.append_assoc]
      cases hrec : x.record l <;> simp [hrec]
  exact hfold _ _

/-! ### Files -/

/-- The files of the log directory. -/
inductive LogPath where
  | current
  | rotating
  /-- `archive/<name>`. -/
  | archive (name : String)
  deriving Repr, DecidableEq

structure File where
  bytes : Bytes
  mtime : Int
  deriving Repr, DecidableEq

abbrev Disk := AList fun _ : LogPath => File

/-- True for archive files, never for temporary ones. -/
def isArchiveFile (name : String) : Bool :=
  "events-".toList.isPrefixOf name.toList &&
    (".jsonl".toList.isSuffixOf name.toList || ".jsonl.gz".toList.isSuffixOf name.toList)

def isGz (name : String) : Bool := ".gz".toList.isSuffixOf name.toList

/-- `events-….jsonl` to `events-….jsonl.gz`. -/
def gzPathFor (name : String) : String := name ++ ".gz"

/-- The archives on disk, in no order. -/
def archiveNames (d : Disk) : List String :=
  d.keys.filterMap fun
    | .archive name => if isArchiveFile name then some name else none
    | _ => none

/-- What a reader finds in a file.  An archive that does not decompress
holds nothing. -/
def LogCodec.contents (x : LogCodec) : LogPath → Bytes → Option Bytes
  | .archive name, b => if isGz name then x.decompress b else some b
  | _, b => some b

def LogCodec.reads (x : LogCodec) (d : Disk) (p : LogPath) : Option Bytes :=
  (d.lookup p).bind fun f => x.contents p f.bytes

/-- `read_events`; a file that is not there has no events. -/
def readEvents (x : LogCodec) (d : Disk) (p : LogPath) : List EventRecord × ReadStats :=
  match x.reads d p with
  | some b => readEventsFrom x b
  | none => ([], {})

/-- The files of the history: archives in the order of their names, the
source of a rotation, the current file. -/
def historyPaths (d : Disk) : List LogPath :=
  ((archiveNames d).insertionSort (· ≤ ·)).map .archive ++ [.rotating, .current]

/-- Keep the first record of each id. -/
def firstById : List Uuid → List EventRecord → List EventRecord
  | _, [] => []
  | seen, r :: rs =>
    if r.eventId ∈ seen then firstById seen rs else r :: firstById (r.eventId :: seen) rs

/-- `read_log_history`. -/
def readLogHistory (x : LogCodec) (d : Disk) : List EventRecord × ReadStats :=
  let all := (historyPaths d).flatMap fun p => (readEvents x d p).1
  let stats := (historyPaths d).foldl (fun (s : ReadStats) p => s.add (readEvents x d p).2) {}
  let kept := firstById [] all
  (kept, { stats with records := stats.records - (all.length - kept.length) })

/-! ### What history returns -/

/-- The file is read into the history. -/
def LogPath.listed : LogPath → Bool
  | archive name => isArchiveFile name
  | _ => true

/-- The lines of the log: of every file that is read into the history. -/
def LogCodec.Logged (x : LogCodec) (d : Disk) (l : Bytes) : Prop :=
  ∃ p b, p.listed = true ∧ x.reads d p = some b ∧ l ∈ lines NEWLINE b

theorem mem_historyPaths {x : LogCodec} {d : Disk} {p : LogPath} {b : Bytes}
    (h : x.reads d p = some b) : p ∈ historyPaths d ↔ p.listed = true := by
  obtain ⟨f, hf, -⟩ := Option.bind_eq_some_iff.mp h
  have hkey : p ∈ d.keys := AList.mem_keys.mp (AList.lookup_isSome.mp (hf ▸ rfl))
  cases p with
  | current => simp [historyPaths, LogPath.listed]
  | rotating => simp [historyPaths, LogPath.listed]
  | archive name =>
    simp only [historyPaths, LogPath.listed, List.mem_append, List.mem_map, List.mem_insertionSort,
      archiveNames, List.mem_filterMap]
    constructor
    · rintro (⟨n, ⟨q, -, hq⟩, hn⟩ | hbad)
      · obtain rfl := LogPath.archive.inj hn
        split at hq
        · split at hq
          · next harch => exact Option.some.inj hq ▸ harch
          · cases hq
        · cases hq
      · simp at hbad
    · intro harch
      exact .inl ⟨name, ⟨_, hkey, if_pos harch⟩, rfl⟩

theorem mem_readEvents {x : LogCodec} {d : Disk} {p : LogPath} {r : EventRecord} :
    r ∈ (readEvents x d p).1 ↔
      ∃ b, x.reads d p = some b ∧ ∃ l ∈ lines NEWLINE b, x.record l = some r := by
  unfold readEvents
  cases x.reads d p with
  | none => simp
  | some b => simp [readEventsFrom_records]

theorem mem_firstById {r : EventRecord} {seen : List Uuid} {rs : List EventRecord}
    (h : r ∈ firstById seen rs) : r ∈ rs := by
  induction rs generalizing seen with
  | nil => cases h
  | cons r' rs ih =>
    rw [firstById] at h
    split at h
    · exact List.mem_cons_of_mem _ (ih h)
    · rcases List.mem_cons.mp h with rfl | h
      · exact List.mem_cons_self
      · exact List.mem_cons_of_mem _ (ih h)

/-- A record whose id no other record has is kept. -/
theorem mem_firstById_of_unique {r : EventRecord} {seen : List Uuid} {rs : List EventRecord}
    (hr : r ∈ rs) (hseen : r.eventId ∉ seen) (huniq : ∀ r' ∈ rs, r'.eventId = r.eventId → r' = r) :
    r ∈ firstById seen rs := by
  induction rs generalizing seen with
  | nil => cases hr
  | cons r' rs ih =>
    have huniq' : ∀ s ∈ rs, s.eventId = r.eventId → s = r :=
      fun s hs => huniq s (List.mem_cons_of_mem _ hs)
    rw [firstById]
    by_cases heq : r' = r
    · subst heq
      rw [if_neg hseen]
      exact List.mem_cons_self
    · have hid : r'.eventId ≠ r.eventId := fun h => heq (huniq r' List.mem_cons_self h)
      have hmem : r ∈ rs := (List.mem_cons.mp hr).resolve_left (Ne.symm heq)
      split
      · exact ih hmem hseen huniq'
      · refine List.mem_cons_of_mem _ (ih hmem ?_ huniq')
        rw [List.mem_cons, not_or]
        exact ⟨Ne.symm hid, hseen⟩

theorem mem_all {x : LogCodec} {d : Disk} {r : EventRecord} :
    (r ∈ (historyPaths d).flatMap fun p => (readEvents x d p).1) ↔
      ∃ l, x.Logged d l ∧ x.record l = some r := by
  simp only [List.mem_flatMap, mem_readEvents, LogCodec.Logged]
  constructor
  · rintro ⟨p, hp, b, hb, l, hl, hr⟩
    exact ⟨l, ⟨p, b, (mem_historyPaths hb).mp hp, hb, hl⟩, hr⟩
  · rintro ⟨l, ⟨p, b, hp, hb, hl⟩, hr⟩
    exact ⟨p, (mem_historyPaths hb).mpr hp, b, hb, l, hl, hr⟩

section Reads

variable {x : LogCodec} {d : Disk} {p q : LogPath} {f : File}

@[simp] theorem LogCodec.reads_insert_self :
    x.reads (d.insert q f) q = x.contents q f.bytes := by
  simp [reads, AList.lookup_insert]

theorem LogCodec.reads_insert_ne (h : p ≠ q) : x.reads (d.insert q f) p = x.reads d p := by
  simp [reads, AList.lookup_insert_ne h]

@[simp] theorem LogCodec.reads_erase_self : x.reads (d.erase q) q = none := by
  simp [reads, AList.lookup_erase]

theorem LogCodec.reads_erase_ne (h : p ≠ q) : x.reads (d.erase q) p = x.reads d p := by
  simp [reads, AList.lookup_erase_ne h]

end Reads

/-- The record of a logged line is returned if no other logged line reads as
a different record of the same event. -/
theorem mem_readLogHistory {x : LogCodec} {d : Disk} {l : Bytes} {r : EventRecord}
    (hl : x.Logged d l) (hr : x.record l = some r)
    (huniq : ∀ l' r', x.Logged d l' → x.record l' = some r' → r'.eventId = r.eventId → r' = r) :
    r ∈ (readLogHistory x d).1 := by
  refine mem_firstById_of_unique (mem_all.mpr ⟨l, hl, hr⟩) List.not_mem_nil ?_
  intro r' hr' hid
  obtain ⟨l', hl', hrec⟩ := mem_all.mp hr'
  exact huniq l' r' hl' hrec hid

/-! ### The tail -/

def TAIL_SCAN_BYTES : Nat := 256 * 1024

/-- The record of a line, for the tail scan.  The source decodes the whole
tail and then takes it apart; a newline is no part of any other character,
so that is the same. -/
def LogCodec.tailRecord (x : LogCodec) (line : Bytes) : Option EventRecord :=
  x.fromStr (fromUtf8Lossy line)

/-- `tail_event_ids`, of a file with these bytes. -/
def tailEventIds (x : LogCodec) : Option Bytes → List Uuid
  | none => []
  | some b =>
    let start := b.length - TAIL_SCAN_BYTES
    let ls := lines NEWLINE (b.drop start)
    -- Starting mid-file: the first line is partial.
    let ls := if start > 0 then ls.tail else ls
    (ls.filterMap x.tailRecord).map (·.eventId)

/-- Each id found is that of a whole line of the file. -/
theorem mem_tailEventIds {x : LogCodec} {b : Bytes} {id : Uuid}
    (h : id ∈ tailEventIds x (some b)) :
    ∃ l ∈ lines NEWLINE b, ∃ r, x.tailRecord l = some r ∧ r.eventId = id := by
  obtain ⟨r, hr, rfl⟩ := List.mem_map.mp h
  obtain ⟨l, hl, hrec⟩ := List.mem_filterMap.mp hr
  refine ⟨l, ?_, r, hrec, rfl⟩
  split at hl
  · exact List.mem_of_mem_tail ((tail_lines_drop b _).subset hl)
  · next hstart =>
    rw [Nat.eq_zero_of_not_pos hstart, List.drop_zero] at hl
    exact hl

/-! ### The line of an event -/

theorem LogCodec.tailRecord_line (x : LogCodec) (e : EventRecord) :
    x.tailRecord (x.line e) = x.fromStr (x.toStr e) := by
  simp [tailRecord, line]

namespace LogCodec.Lawful

variable {x : LogCodec} (hx : x.Lawful)
include hx

theorem trim_toStr (e : EventRecord) : trim (x.toStr e) = x.toStr e := by
  obtain ⟨body, hbody⟩ := hx.object e
  have hopen : (x.toStr e).toList.dropWhile isWhiteSpace = (x.toStr e).toList := by
    rw [hbody]
    exact List.dropWhile_cons_of_neg (by decide)
  have hclose : (x.toStr e).toList.rdropWhile isWhiteSpace = (x.toStr e).toList := by
    rw [hbody, ← List.cons_append]
    exact List.rdropWhile_concat_neg _ _ _ (by decide)
  rw [trim, hopen, hclose, String.ofList_toList]

theorem toStr_ne_empty (e : EventRecord) : x.toStr e ≠ "" := by
  obtain ⟨body, hbody⟩ := hx.object e
  intro h
  rw [h] at hbody
  cases hbody

/-- The reader and the tail scan see the same record in the line of an
event. -/
theorem record_line (e : EventRecord) : x.record (x.line e) = x.fromStr (x.toStr e) := by
  simp [record, line, hx.trim_toStr, hx.toStr_ne_empty]

/-- Nothing is read from a part of it. -/
theorem not_record_of_torn {e : EventRecord} {l : Bytes} (h : l <+: x.line e)
    (hne : l ≠ x.line e) : x.record l = none ∧ x.tailRecord l = none := by
  obtain ⟨hlossy, htrim⟩ := hx.torn e l h hne
  refine ⟨?_, hlossy⟩
  unfold record
  cases htext : fromUtf8 l with
  | none => rfl
  | some text =>
    rw [fromUtf8Lossy_of_fromUtf8 htext] at htrim
    simp [htrim]

end LogCodec.Lawful

/-! ### A sample format -/

section Sample

/-- A text of one-byte characters is written character by character. -/
theorem utf8_ofList {cs : List Char} (h : ∀ c ∈ cs, c.utf8Size = 1) :
    utf8 (String.ofList cs) = cs.map fun c => c.val.toUInt8 := by
  have hflat : cs.flatMap String.utf8EncodeChar = cs.map fun c => c.val.toUInt8 := by
    induction cs with
    | nil => rfl
    | cons c cs ih =>
      rw [List.flatMap_cons, ih fun c' hc' => h c' (List.mem_cons_of_mem _ hc'),
        String.utf8EncodeChar_eq_singleton (h c List.mem_cons_self)]
      rfl
  rw [utf8, String.toByteArray_ofList, List.utf8Encode, hflat]
  simp

/-- A part of it is a text. -/
theorem prefix_utf8_ofList {cs : List Char} {b : Bytes} (h : ∀ c ∈ cs, c.utf8Size = 1)
    (hb : b <+: utf8 (String.ofList cs)) : ∃ cs', cs' <+: cs ∧ b = utf8 (String.ofList cs') := by
  rw [utf8_ofList h] at hb
  refine ⟨cs.take b.length, List.take_prefix _ _, ?_⟩
  rw [utf8_ofList fun c hc => h c (List.mem_of_mem_take hc), List.map_take]
  exact List.prefix_iff_eq_take.mp hb

/-- Nothing is trimmed off a text without blanks. -/
theorem trim_ofList {cs : List Char} (h : ∀ c ∈ cs, isWhiteSpace c = false) :
    trim (String.ofList cs) = String.ofList cs := by
  have hopen : cs.dropWhile isWhiteSpace = cs := by
    cases cs with
    | nil => rfl
    | cons c cs => exact List.dropWhile_cons_of_neg (by simp [h c List.mem_cons_self])
  have hclose : cs.rdropWhile isWhiteSpace = cs := by
    rw [List.rdropWhile_eq_self_iff]
    exact fun hne => by simp [h _ (List.getLast_mem hne)]
  rw [trim, String.toList_ofList, hopen, hclose]

/-- A record of which only the id is written. -/
def EventRecord.numbered (id : Uuid) : EventRecord where
  kind := .pruned
  loggedAt := 0
  eventId := id

def numberedHead : List Char := "\x7b\"event_id\":".toList

/-- The JSON object with the id. -/
def numberedText (n : Nat) : List Char := numberedHead ++ Nat.toDigits 10 n ++ ['}']

/-- The id of such an object. -/
def parseNumbered (cs : List Char) : Option Nat :=
  let digits := (cs.drop numberedHead.length).dropLast
  if cs = numberedHead ++ digits ++ ['}'] ∧ digits.all Char.isDigit then
    some (Nat.ofDigitChars 10 digits 0)
  else none

/-- Ids are written as JSON objects, and archives get a header. -/
def LogCodec.numbered : LogCodec where
  fromStr s := (parseNumbered s.toList).map fun n => .numbered ⟨n⟩
  toStr e := String.ofList (numberedText e.eventId.n)
  compress b := 0x1f :: 0x8b :: b
  decompress
    | 0x1f :: 0x8b :: b => some b
    | _ => none

theorem parseNumbered_text (n : Nat) : parseNumbered (numberedText n) = some n := by
  have hdigits : ((numberedText n).drop numberedHead.length).dropLast = Nat.toDigits 10 n := by
    rw [numberedText, List.append_assoc, List.drop_left, List.dropLast_concat]
  unfold parseNumbered
  rw [hdigits, if_pos]
  · exact congrArg some Nat.ofDigitChars_ten_toDigits
  · refine ⟨rfl, List.all_eq_true.mpr fun c hc => ?_⟩
    exact Nat.isDigit_of_mem_toDigits (by decide) (by decide) hc

/-- The brace is at the end only. -/
theorem not_parse_of_prefix {n : Nat} {cs : List Char} (h : cs <+: numberedText n)
    (hne : cs ≠ numberedText n) : parseNumbered cs = none := by
  have hbody : '}' ∉ numberedHead ++ Nat.toDigits 10 n := by
    rw [List.mem_append, not_or]
    refine ⟨by decide, fun hc => ?_⟩
    have hdigit := Nat.isDigit_of_mem_toDigits (by decide) (by decide) hc
    exact absurd hdigit (by decide)
  have hcs : cs <+: numberedHead ++ Nat.toDigits 10 n :=
    (List.prefix_concat_iff.mp h).resolve_left hne
  refine if_neg fun hc => hbody (hcs.subset ?_)
  rw [hc.1]
  exact List.mem_append_right _ (List.mem_singleton_self _)

theorem digit_plain {c : Char} (h : c.isDigit = true) :
    c.utf8Size = 1 ∧ isWhiteSpace c = false := by
  have hle : 48 ≤ c.toNat ∧ c.toNat ≤ 57 := by
    simp only [Char.isDigit, Bool.and_eq_true, decide_eq_true_eq] at h
    exact ⟨UInt32.le_iff_toNat_le.mp h.1, UInt32.le_iff_toNat_le.mp h.2⟩
  constructor
  · refine Char.utf8Size_eq_one_iff.mpr (UInt32.le_iff_toNat_le.mpr ?_)
    exact hle.2.trans (by decide)
  · have hdigits : ∀ n ∈ List.range' 48 10, ((9 ≤ n && n ≤ 13) || (0x2000 ≤ n && n ≤ 0x200A) ||
        [0x20, 0x85, 0xA0, 0x1680, 0x2028, 0x2029, 0x202F, 0x205F, 0x3000].contains n) = false := by
      decide
    exact hdigits c.toNat (List.mem_range'_1.mpr ⟨hle.1, by omega⟩)

theorem numberedText_plain {n : Nat} {c : Char} (h : c ∈ numberedText n) :
    c.utf8Size = 1 ∧ isWhiteSpace c = false := by
  have hall : numberedHead.all fun c => c.utf8Size = 1 ∧ isWhiteSpace c = false := by decide
  have hhead : ∀ c ∈ numberedHead, c.utf8Size = 1 ∧ isWhiteSpace c = false :=
    fun c hc => of_decide_eq_true (List.all_eq_true.mp hall c hc)
  rcases List.mem_append.mp h with h | h
  · rcases List.mem_append.mp h with h | h
    · exact hhead c h
    · exact digit_plain (Nat.isDigit_of_mem_toDigits (by decide) (by decide) h)
  · obtain rfl := List.mem_singleton.mp h
    decide

theorem LogCodec.numbered_lawful : LogCodec.numbered.Lawful where
  readBack e := by
    refine ⟨.numbered e.eventId, ?_, rfl⟩
    simp [LogCodec.numbered, parseNumbered_text]
  object e := ⟨"\"event_id\":".toList ++ Nat.toDigits 10 e.eventId.n, String.toList_ofList⟩
  oneLine e := by
    show NEWLINE ∉ utf8 (String.ofList (numberedText e.eventId.n))
    rw [utf8_ofList fun c hc => (numberedText_plain hc).1, List.mem_map]
    rintro ⟨c, hc, hnl⟩
    obtain ⟨hsize, hblank⟩ := numberedText_plain hc
    have hsmall : c.toNat ≤ 127 := UInt32.le_iff_toNat_le.mp (Char.utf8Size_eq_one_iff.mp hsize)
    have hmod : c.toNat % 256 = 10 := (UInt32.toNat_toUInt8 c.val).symm.trans
      (congrArg UInt8.toNat hnl)
    have hten : c.toNat = 10 := by omega
    simp [isWhiteSpace, hten] at hblank
  torn e b hb hne := by
    obtain ⟨cs, hcs, rfl⟩ := prefix_utf8_ofList (fun c hc => (numberedText_plain hc).1) hb
    have htext : cs ≠ numberedText e.eventId.n := by
      rintro rfl
      exact hne rfl
    have hnone := not_parse_of_prefix hcs htext
    have hplain : ∀ c ∈ cs, isWhiteSpace c = false :=
      fun c hc => (numberedText_plain (hcs.subset hc)).2
    rw [fromUtf8Lossy_utf8, trim_ofList hplain]
    simp [LogCodec.numbered, hnone]
  inflate b := rfl

end Sample

end Bellman

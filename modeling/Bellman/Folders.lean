/-
Bellman/Folders.lean

The folders of timers: their names, and how one is found or made.

The name is the timer's own, sanitised, with its trailing dots and blanks
cut off and an underscore before a reserved stem, and then a hyphen and the
first digits of the timer's id.  A name that is taken by another timer is
tried again with more digits.

The sanitiser is another library's.  It leaves no illegal character and at
most 255 bytes, which is as much as a file system takes; the underscore, the
hyphen and the digits come on top.

File names are lists of characters, and their length is counted in bytes.
-/
import Bellman.Reply
import Mathlib.Data.List.DropRight

namespace Bellman

/-! ### Names of files -/

abbrev FileName := List Char

/-- The length in bytes. -/
def byteLen (n : FileName) : Nat := (n.map Char.utf8Size).sum

/-- What Windows does not allow in a name; the separators are among it. -/
def isIllegal (c : Char) : Bool :=
  "<>:\"/\\|?*".toList.contains c || decide (c.toNat < 32)

def RESERVED_STEMS : List String :=
  ["con", "prn", "aux", "nul",
    "com0", "com1", "com2", "com3", "com4", "com5", "com6", "com7", "com8", "com9",
    "com¹", "com²", "com³",
    "lpt0", "lpt1", "lpt2", "lpt3", "lpt4", "lpt5", "lpt6", "lpt7", "lpt8", "lpt9",
    "lpt¹", "lpt²", "lpt³"]

/-- A reserved device name, in any case.  No character beyond ASCII has a
lower case that occurs in one. -/
def isReservedStem (stem : FileName) : Bool :=
  RESERVED_STEMS.contains (String.ofList (stem.map Char.toLower))

/-- What comes before the first dot. -/
def stem (n : FileName) : FileName := n.takeWhile (· != '.')

/-- A name that every file system takes, for one path component. -/
structure Usable (n : FileName) : Prop where
  nonempty : n ≠ []
  short : byteLen n ≤ 255
  legal : ∀ c ∈ n, isIllegal c = false
  notReserved : isReservedStem (stem n) = false
  ending : n.getLast? ≠ some '.' ∧ n.getLast? ≠ some ' '

instance (n : FileName) : Decidable (Usable n) :=
  decidable_of_iff (n ≠ [] ∧ byteLen n ≤ 255 ∧ n.any isIllegal = false ∧
      isReservedStem (stem n) = false ∧ n.getLast? ≠ some '.' ∧ n.getLast? ≠ some ' ')
    ⟨fun ⟨h₁, h₂, h₃, h₄, h₅⟩ => ⟨h₁, h₂, by simpa using h₃, h₄, h₅⟩,
      fun h => ⟨h.nonempty, h.short, by simpa using h.legal, h.notReserved, h.ending⟩⟩

/-! ### Ids -/

/-- The digit of `id` at place `i`, from the left. -/
def Uuid.hexDigit (id : Uuid) (i : Nat) : Char := Nat.digitChar (id.n / 16 ^ (31 - i) % 16)

/-- `simple()`: the 32 digits of an id. -/
def Uuid.simple (id : Uuid) : List Char := (List.range 32).map id.hexDigit

/-- An id as text. -/
def Uuid.hyphenated (id : Uuid) : List Char :=
  let hex := id.simple
  hex.take 8 ++ '-' :: (hex.drop 8).take 4 ++ '-' :: (hex.drop 12).take 4 ++
    '-' :: (hex.drop 16).take 4 ++ '-' :: hex.drop 20

/-! ### The name of a folder -/

/-- What is left of a timer's name, where `sanitize` is `sanitize_with_options`
under the options of the code. -/
def bareSlug (sanitize : FileName → FileName) (name : FileName) : FileName :=
  let stripped := (sanitize name).rdropWhile fun c => c == '.' || c == ' '
  if stripped = [] then ['t', 'i', 'm', 'e', 'r'] else stripped

/-- The slug of a timer's name: a reserved stem is escaped. -/
def slugify (sanitize : FileName → FileName) (name : FileName) : FileName :=
  if isReservedStem (stem (bareSlug sanitize name)) then '_' :: bareSlug sanitize name
  else bareSlug sanitize name

/-- The name with `len` digits. -/
def candidate (slug : FileName) (id : Uuid) (len : Nat) : FileName :=
  slug ++ '-' :: id.simple.take len

def SUFFIX_LENS : List Nat := [4, 6, 8, 12, 16, 20, 28, 32]

def isHexDigit (c : Char) : Bool :=
  c.isDigit || ('a' ≤ c && c ≤ 'f') || ('A' ≤ c && c ≤ 'F')

/-- `folder_suffix`: the digits after the last hyphen. -/
def folderSuffix (name : FileName) : Option FileName :=
  let suffix := (name.reverse.takeWhile (· != '-')).reverse
  if 4 ≤ suffix.length ∧ suffix.length ≤ 32 ∧ suffix.length < name.length ∧
      suffix.all isHexDigit then
    some suffix
  else none

/-! ### The directory of folders -/

/-- An entry of `timers/`, and the timer that its `timer.json` names. -/
structure TreeEntry where
  name : FileName
  isDir : Bool := true
  timerId : Option (List Char) := none
  deriving DecidableEq

/-- `TimersTree`, as the entries of its root. -/
structure TimersTree where
  entries : List TreeEntry := []
  deriving DecidableEq

/-- What `create_dir` says. -/
inductive Created where
  | made
  | alreadyExists
  | failed (error : String)
  deriving Repr, DecidableEq

/-- `TreeError`, as far as folders are concerned. -/
inductive TreeError where
  | io (error : String)
  deriving Repr, DecidableEq

namespace TimersTree

def find? (tree : TimersTree) (name : FileName) : Option TreeEntry :=
  tree.entries.find? fun e => e.name = name

/-- `folder_timer_id`. -/
def folderTimerId (tree : TimersTree) (name : FileName) : Option (List Char) :=
  (tree.find? name).bind (·.timerId)

/-- A name that is not usable is refused. -/
def createDir (tree : TimersTree) (name : FileName) : Created :=
  if Usable name then
    match tree.find? name with
    | some _ => .alreadyExists
    | none => .made
  else if 255 < byteLen name then .failed "File name too long (os error 36)"
  else .failed "Invalid argument (os error 22)"

/-- `folder_for`: the folder of a timer, by the digits of its name. -/
def folderFor (tree : TimersTree) (id : Uuid) : Option FileName :=
  let ours (e : TreeEntry) : Bool :=
    e.isDir && (folderSuffix e.name).any (·.isPrefixOf id.simple)
  match tree.entries.filter ours with
  | [] => none
  | [e] =>
    match e.timerId with
    | some tid => if tid = id.hyphenated then some e.name else none
    | none => some e.name
  | candidates => (candidates.find? (·.timerId == some id.hyphenated)).map (·.name)

/-- The loop of `allocate_folder`, over the lengths that are left. -/
def allocateFrom (tree : TimersTree) (slug : FileName) (id : Uuid) :
    List Nat → Except TreeError (TimersTree × FileName)
  | [] => .error (.io ("could not allocate a unique folder for timer " ++
      String.ofList id.hyphenated))
  | len :: lens =>
    let path := candidate slug id len
    match tree.createDir path with
    | .made => .ok ({ entries := tree.entries ++ [{ name := path }] }, path)
    | .alreadyExists =>
      if tree.folderTimerId path = some id.hyphenated then .ok (tree, path)
      else tree.allocateFrom slug id lens
    | .failed error => .error (.io error)

/-- `allocate_folder`. -/
def allocateFolder (sanitize : FileName → FileName) (tree : TimersTree) (id : Uuid)
    (name : FileName) : Except TreeError (TimersTree × FileName) :=
  tree.allocateFrom (slugify sanitize name) id SUFFIX_LENS

/-- `write_timer_json`, as far as the id is concerned. -/
def writeTimerJson (tree : TimersTree) (folder : FileName) (id : Uuid) : TimersTree where
  entries := tree.entries.map fun e =>
    if e.name = folder then { e with timerId := some id.hyphenated } else e

/-- `sync_timer_json`: what a fire starts with. -/
def syncTimerJson (sanitize : FileName → FileName) (tree : TimersTree) (id : Uuid)
    (name : FileName) : Except TreeError (TimersTree × FileName) := do
  let (tree, folder) ←
    match tree.folderFor id with
    | some folder => pure (tree, folder)
    | none => tree.allocateFolder sanitize id name
  return (tree.writeTimerJson folder id, folder)

end TimersTree

/-! ### The names made -/

theorem byteLen_append (m n : FileName) : byteLen (m ++ n) = byteLen m + byteLen n := by
  simp [byteLen]

@[simp] theorem byteLen_cons (c : Char) (n : FileName) :
    byteLen (c :: n) = c.utf8Size + byteLen n := by
  simp [byteLen]

/-- A digit as `simple` writes it. -/
def Hex (c : Char) : Prop := ∃ d < 16, c = Nat.digitChar d

namespace Uuid

variable (id : Uuid)

@[simp] theorem length_simple : id.simple.length = 32 := by simp [simple]

theorem hex_of_mem {c : Char} (h : c ∈ id.simple) : Hex c := by
  obtain ⟨i, -, rfl⟩ := List.mem_map.mp h
  exact ⟨_, Nat.mod_lt _ (by decide), rfl⟩

end Uuid

theorem Hex.plain {c : Char} (h : Hex c) :
    c.utf8Size = 1 ∧ isIllegal c = false ∧ c ≠ '.' ∧ c ≠ ' ' := by
  obtain ⟨d, hd, rfl⟩ := h
  revert d
  decide

section Candidate

variable {slug : FileName} {id : Uuid} {len : Nat}

theorem byteLen_of_hex {n : FileName} (h : ∀ c ∈ n, Hex c) : byteLen n = n.length := by
  induction n with
  | nil => rfl
  | cons c n ih =>
    obtain ⟨hc, hn⟩ := List.forall_mem_cons.mp h
    rw [byteLen_cons, hc.plain.1, ih hn, List.length_cons, Nat.add_comm]

theorem hex_of_mem_take {c : Char} (h : c ∈ id.simple.take len) : Hex c :=
  id.hex_of_mem (List.mem_of_mem_take h)

/-- The hyphen and the digits come on top of the slug. -/
theorem byteLen_candidate (hlen : len ≤ 32) :
    byteLen (candidate slug id len) = byteLen slug + 1 + len := by
  have hdigits : byteLen (id.simple.take len) = len := by
    rw [byteLen_of_hex fun c => hex_of_mem_take, List.length_take, id.length_simple,
      Nat.min_eq_left hlen]
  rw [candidate, byteLen_append, byteLen_cons, hdigits, show '-'.utf8Size = 1 by decide,
    Nat.add_assoc]

/-- The last character of a candidate is a digit. -/
theorem hex_of_getLast? (hlen : 0 < len) {c : Char}
    (h : (candidate slug id len).getLast? = some c) : Hex c := by
  have hne : id.simple.take len ≠ [] := by
    rw [Ne, List.take_eq_nil_iff, ← List.length_eq_zero_iff, id.length_simple]
    omega
  have hsplit : candidate slug id len = (slug ++ ['-']) ++ id.simple.take len := by
    simp [candidate]
  rw [hsplit, List.getLast?_append, List.getLast?_eq_some_getLast hne, Option.some_or] at h
  obtain rfl := Option.some.inj h
  exact hex_of_mem_take (List.getLast_mem hne)

/-- No reserved stem has a hyphen, and none starts with an underscore. -/
theorem reserved_shape {n : FileName} (h : isReservedStem n = true) :
    '-' ∉ n ∧ n.head? ≠ some '_' := by
  have hall : ∀ s ∈ RESERVED_STEMS, '-' ∉ s.toList ∧ s.toList.head? ≠ some '_' := by
    decide +kernel
  have hlower := hall _ (List.contains_iff_mem.mp h)
  rw [String.toList_ofList] at hlower
  constructor
  · exact fun hn => hlower.1 (List.mem_map.mpr ⟨'-', hn, by decide⟩)
  · intro hn
    apply hlower.2
    rw [List.head?_map, hn]
    decide

/-- The hyphen keeps the name from being reserved where no dot ends its stem. -/
theorem not_reserved_candidate (hslug : isReservedStem (stem slug) = false) :
    isReservedStem (stem (candidate slug id len)) = false := by
  unfold stem candidate
  rw [List.takeWhile_append]
  split
  · refine Bool.eq_false_iff.mpr fun h => (reserved_shape h).1 ?_
    simp
  · exact hslug

end Candidate

section Slug

variable {sanitize : FileName → FileName}

theorem not_reserved_slugify (name : FileName) :
    isReservedStem (stem (slugify sanitize name)) = false := by
  unfold slugify
  split
  · refine Bool.eq_false_iff.mpr fun h => (reserved_shape h).2 ?_
    simp [stem]
  · exact Bool.eq_false_iff.mpr ‹_›

theorem legal_slugify (hs : ∀ n, ∀ c ∈ sanitize n, isIllegal c = false) (name : FileName) :
    ∀ c ∈ slugify sanitize name, isIllegal c = false := by
  have hbare : ∀ c ∈ bareSlug sanitize name, isIllegal c = false := by
    simp only [bareSlug]
    split
    · have hall : ['t', 'i', 'm', 'e', 'r'].all fun c => isIllegal c = false := by decide
      exact fun c hc => of_decide_eq_true (List.all_eq_true.mp hall c hc)
    · exact fun c hc => hs name c ((List.rdropWhile_prefix _ _).subset hc)
  unfold slugify
  split
  · exact List.forall_mem_cons.mpr ⟨by decide, hbare⟩
  · exact hbare

/-- **A candidate is usable** exactly if it is not too long. -/
theorem usable_candidate_iff (hs : ∀ n, ∀ c ∈ sanitize n, isIllegal c = false)
    {name : FileName} {id : Uuid} {len : Nat} (hpos : 0 < len) (hlen : len ≤ 32) :
    Usable (candidate (slugify sanitize name) id len) ↔
      byteLen (slugify sanitize name) + 1 + len ≤ 255 := by
  rw [← @byteLen_candidate _ id _ hlen]
  refine ⟨fun h => h.short, fun h => ⟨?_, h, ?_, ?_, ?_, ?_⟩⟩
  · exact List.append_ne_nil_of_right_ne_nil _ (List.cons_ne_nil _ _)
  · intro c hc
    rcases List.mem_append.mp hc with hc | hc
    · exact legal_slugify hs name c hc
    · rcases List.mem_cons.mp hc with rfl | hc
      · decide
      · exact (hex_of_mem_take hc).plain.2.1
  · exact not_reserved_candidate (not_reserved_slugify name)
  · exact fun h => (hex_of_getLast? hpos h).plain.2.2.1 rfl
  · exact fun h => (hex_of_getLast? hpos h).plain.2.2.2 rfl

end Slug

/-! ### Finding and making the folder -/

namespace TimersTree

variable {tree : TimersTree} {slug : FileName} {id : Uuid}

/-- Something that is not the timer's folder has the name. -/
def TakenByOther (tree : TimersTree) (id : Uuid) (path : FileName) : Prop :=
  tree.find? path ≠ none ∧ tree.folderTimerId path ≠ some id.hyphenated

instance (path : FileName) : Decidable (tree.TakenByOther id path) :=
  inferInstanceAs (Decidable (_ ∧ _))

/-- A name can be had. -/
def Free (tree : TimersTree) (id : Uuid) (path : FileName) : Prop :=
  Usable path ∧ ¬tree.TakenByOther id path

theorem createDir_of_usable {path : FileName} (h : Usable path) :
    tree.createDir path = match tree.find? path with
      | some _ => .alreadyExists
      | none => .made := if_pos h

theorem createDir_of_not_usable {path : FileName} (h : ¬Usable path) :
    ∃ error, tree.createDir path = .failed error := by
  rw [createDir, if_neg h]
  split <;> exact ⟨_, rfl⟩

section Loop

variable {len : Nat} {lens : List Nat}

/-- The loop ends with a name that can be had. -/
theorem allocateFrom_of_free (h : tree.Free id (candidate slug id len)) :
    ∃ tree', tree.allocateFrom slug id (len :: lens) = .ok (tree', candidate slug id len) := by
  obtain ⟨husable, hother⟩ := h
  rw [allocateFrom, createDir_of_usable husable]
  cases hfind : tree.find? (candidate slug id len) with
  | none => exact ⟨_, rfl⟩
  | some e =>
    have hown : tree.folderTimerId (candidate slug id len) = some id.hyphenated := by
      by_contra hne
      exact hother ⟨by simp [hfind], hne⟩
    exact ⟨tree, if_pos hown⟩

/-- It goes past a name that another has. -/
theorem allocateFrom_of_taken (husable : Usable (candidate slug id len))
    (h : tree.TakenByOther id (candidate slug id len)) :
    tree.allocateFrom slug id (len :: lens) = tree.allocateFrom slug id lens := by
  rw [allocateFrom, createDir_of_usable husable]
  cases hfind : tree.find? (candidate slug id len) with
  | none => exact absurd hfind h.1
  | some e => exact if_neg h.2

/-- It fails at a name that cannot be used. -/
theorem allocateFrom_of_unusable (h : ¬Usable (candidate slug id len)) :
    ∃ error, tree.allocateFrom slug id (len :: lens) = .error error := by
  obtain ⟨error, hcreate⟩ : ∃ error, tree.createDir (candidate slug id len) = .failed error :=
    createDir_of_not_usable h
  exact ⟨.io error, by rw [allocateFrom, hcreate]⟩

end Loop

/-- What the loop gives is a name that can be had. -/
theorem free_of_allocateFrom {lens : List Nat} {tree' : TimersTree} {path : FileName}
    (h : tree.allocateFrom slug id lens = .ok (tree', path)) : tree.Free id path := by
  induction lens with
  | nil => cases h
  | cons len lens ih =>
    by_cases husable : Usable (candidate slug id len)
    · by_cases hother : tree.TakenByOther id (candidate slug id len)
      · rw [allocateFrom_of_taken husable hother] at h
        exact ih h
      · obtain ⟨tree'', hok⟩ := @allocateFrom_of_free tree slug id len lens ⟨husable, hother⟩
        rw [hok] at h
        cases h
        exact ⟨husable, hother⟩
    · obtain ⟨error, herror⟩ := @allocateFrom_of_unusable tree slug id len lens husable
      rw [herror] at h
      cases h

/-- **The loop gives a name** exactly if one of those to be tried can be had,
where a name that cannot be used is followed by none that can. -/
theorem allocateFrom_ok_iff {lens : List Nat} (hlens : lens.Pairwise fun l l' =>
      Usable (candidate slug id l') → Usable (candidate slug id l)) :
    (∃ r, tree.allocateFrom slug id lens = .ok r) ↔
      ∃ len ∈ lens, tree.Free id (candidate slug id len) := by
  induction lens with
  | nil => simp [allocateFrom]
  | cons len lens ih =>
    obtain ⟨hhead, htail⟩ := List.pairwise_cons.mp hlens
    by_cases husable : Usable (candidate slug id len)
    · by_cases hother : tree.TakenByOther id (candidate slug id len)
      · rw [allocateFrom_of_taken husable hother, ih htail]
        simp [Free, hother]
      · have hfree : tree.Free id (candidate slug id len) := ⟨husable, hother⟩
        obtain ⟨tree', hok⟩ := @allocateFrom_of_free tree slug id len lens hfree
        exact iff_of_true ⟨_, hok⟩ ⟨len, List.mem_cons_self, hfree⟩
    · obtain ⟨error, herror⟩ := @allocateFrom_of_unusable tree slug id len lens husable
      refine iff_of_false (by simp [herror]) ?_
      rintro ⟨l, hl, hfree⟩
      rcases List.mem_cons.mp hl with rfl | hl
      · exact husable hfree.1
      · exact husable (hhead l hl hfree.1)

section Allocate

variable {sanitize : FileName → FileName}

/-- The digits by which the folder of a timer can be named. -/
def HasName (sanitize : FileName → FileName) (tree : TimersTree) (id : Uuid) (name : FileName) :
    Prop :=
  ∃ len ∈ SUFFIX_LENS, byteLen (slugify sanitize name) + 1 + len ≤ 255 ∧
    ¬tree.TakenByOther id (candidate (slugify sanitize name) id len)

theorem suffixLens_bound : ∀ len ∈ SUFFIX_LENS, 0 < len ∧ len ≤ 32 := by decide

theorem allocateFolder_ok_iff (hs : ∀ n, ∀ c ∈ sanitize n, isIllegal c = false) (id : Uuid)
    (name : FileName) :
    (∃ r, tree.allocateFolder sanitize id name = .ok r) ↔ tree.HasName sanitize id name := by
  have hiff : ∀ len ∈ SUFFIX_LENS, (Usable (candidate (slugify sanitize name) id len) ↔
      byteLen (slugify sanitize name) + 1 + len ≤ 255) := fun len hlen =>
    usable_candidate_iff hs (suffixLens_bound len hlen).1 (suffixLens_bound len hlen).2
  have hascend : SUFFIX_LENS.Pairwise (· < ·) := by decide
  rw [allocateFolder, allocateFrom_ok_iff]
  · apply exists_congr
    intro len
    refine and_congr_right fun hlen => ?_
    rw [Free, hiff len hlen]
  · refine hascend.imp_of_mem fun {l l'} hl hl' hlt => ?_
    rw [hiff l hl, hiff l' hl']
    omega

/-- **Folder names**: a timer without a folder gets one, of a usable name,
exactly if one of its names is short enough and not another's; and a timer
fires then, or if it has a folder. -/
theorem folder_usable_iff (hs : ∀ n, ∀ c ∈ sanitize n, isIllegal c = false) (id : Uuid)
    (name : FileName) :
    ((∃ tree' path, tree.allocateFolder sanitize id name = .ok (tree', path) ∧ Usable path) ↔
      tree.HasName sanitize id name) ∧
    ((∃ r, tree.syncTimerJson sanitize id name = .ok r) ↔
      tree.folderFor id ≠ none ∨ tree.HasName sanitize id name) := by
  constructor
  · rw [← allocateFolder_ok_iff hs id name]
    constructor
    · rintro ⟨tree', path, hok, -⟩
      exact ⟨_, hok⟩
    · rintro ⟨⟨tree', path⟩, hok⟩
      exact ⟨tree', path, hok, (free_of_allocateFrom hok).1⟩
  · rw [← allocateFolder_ok_iff hs id name, syncTimerJson]
    cases hfolder : tree.folderFor id with
    | some folder => exact iff_of_true ⟨_, rfl⟩ (.inl (by simp))
    | none =>
      cases hallocate : tree.allocateFolder sanitize id name with
      | error error => simp
      | ok r => simp

end Allocate

end TimersTree

section Sample

/-- The sanitiser, on names like those below. -/
def sanitizeSample (name : FileName) : FileName :=
  let kept := name.filter fun c => !isIllegal c && !(128 ≤ c.toNat && c.toNat ≤ 159)
  takeBytes 255 (if kept.all (· == '.') then [] else kept)

theorem mem_of_mem_takeBytes {cap : Nat} {cs : List Char} {c : Char} (h : c ∈ takeBytes cap cs) :
    c ∈ cs := by
  induction cs generalizing cap with
  | nil => cases cap <;> simp [takeBytes] at h
  | cons d cs ih =>
    rw [takeBytes] at h
    split at h
    · rcases List.mem_cons.mp h with rfl | h
      · exact List.mem_cons_self
      · exact List.mem_cons_of_mem _ (ih h)
    · cases h

theorem legal_sanitizeSample (name : FileName) :
    ∀ c ∈ sanitizeSample name, isIllegal c = false := by
  intro c hc
  have hkept := mem_of_mem_takeBytes hc
  split at hkept
  · cases hkept
  · have hkeep := (List.mem_filter.mp hkept).2
    rw [Bool.and_eq_true] at hkeep
    simpa using hkeep.1

/-- An id. -/
def Uuid.sample3f1a : Uuid := ⟨0x3f1a8c2e6b414d9e8a170c2f5d7e9b33⟩

/-- The folder of four digits is another timer's. -/
def TimersTree.colliding : TimersTree where
  entries := [{ name := "bulb-test-3f1a".toList, timerId := some "x".toList }]

theorem folder_usable_colliding : ∃ tree' path, TimersTree.colliding.allocateFolder
    sanitizeSample .sample3f1a "bulb-test".toList = .ok (tree', path) ∧ Usable path :=
  (TimersTree.folder_usable_iff legal_sanitizeSample .sample3f1a "bulb-test".toList).1.mpr
    ⟨6, by decide, by decide +kernel, by decide +kernel⟩

/-- A name of 251 letters, all of which the sanitiser keeps, has no folder, and
its timer does not fire. -/
theorem folder_name_too_long :
    (¬∃ tree' path, TimersTree.allocateFolder sanitizeSample {} .sample3f1a
      (List.replicate 251 'a') = .ok (tree', path) ∧ Usable path) ∧
    TimersTree.syncTimerJson sanitizeSample {} .sample3f1a (List.replicate 251 'a') =
      .error (.io "File name too long (os error 36)") := by
  constructor
  · rintro ⟨tree', path, hok, -⟩
    have herror : TimersTree.allocateFolder sanitizeSample {} .sample3f1a
        (List.replicate 251 'a') = .error (.io "File name too long (os error 36)") := by
      decide +kernel
    rw [herror] at hok
    cases hok
  · decide +kernel

end Sample

end Bellman

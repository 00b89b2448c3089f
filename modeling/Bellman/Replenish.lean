/-
Bellman/Replenish.lean

The stock of free slots.

`replenish` counts the stubs in `free/` and makes new ones until there are
`min_free` of them.  The id of a new stub is one more than the largest id
that a name in any of the four directories has; a name that is taken is left
alone and the next id is tried:

    slot-0007.json  slot-0008.json  …  slot-4294967295.json

Ids are of 32 bits, and after the last one there is no next one: the count
stays there, and the loop tries the same name over and over.

Main result: `replenish` comes to an end, with enough stubs or an error, and
gives new ids only, exactly when the ids do not run out before
(`replenishes_iff`).
-/
import Bellman.Lib.Numeral
import Bellman.Crontab
import Bellman.Slots

namespace Bellman

open ProgramLogic

/-! ### Names -/

/-- `strip_suffix`. -/
def Text.stripSuffix? (suf s : Text) : Option Text :=
  if suf.isSuffixOf s then some (s.take (s.length - suf.length)) else none

/-- `u32::MAX`. -/
def U32_MAX : Nat := 4294967295

/-- `str::parse::<u32>`. -/
def parseU32 (s : Text) : Option Nat :=
  let digits := if s.head? = some '+' then s.tail else s
  if digits = [] ∨ ¬digits.all Char.isDigit then none
  else
    let n := Nat.ofDigitChars 10 digits 0
    if n ≤ U32_MAX then some n else none

def DOT_JSON : Text := ['.', 'j', 's', 'o', 'n']
def DOT_ERR_JSON : Text := ['.', 'e', 'r', 'r', '.', 'j', 's', 'o', 'n']
def SLOT_DASH : Text := ['s', 'l', 'o', 't', '-']
def DOT_CLAIM_DASH : Text := ['.', 'c', 'l', 'a', 'i', 'm', '-']

/-- The id in a file name, as it is written. -/
def slotIdText (name : Text) : Option Text :=
  ((Text.stripSuffix? DOT_ERR_JSON name).or (Text.stripSuffix? DOT_JSON name)).bind
    (Text.stripPrefix? SLOT_DASH)

/-- `parse_slot_id_from_name`. -/
def parseSlotIdFromName (name : Text) : Option Nat := (slotIdText name).bind parseU32

/-- The slot name that an entry holds on to: that of a claim is at its end. -/
def ownedName (name : Text) : Text :=
  match Text.stripPrefix? DOT_CLAIM_DASH name with
  | none => name
  | some rest => ((rest.tails.filter SLOT_DASH.isPrefixOf).getLast?).getD name

/-! ### Directories -/

/-- What a name in a directory stands for.  Of a file it counts what it is
read as. -/
inductive Node where
  | file (content : Option SlotRequest)
  | symlink
  | other

abbrev Directory : Type := List (Text × Node)

/-- The four directories, and how many stubs are to be kept ready. -/
structure SlotLayout where
  free : Directory
  work : Directory
  done : Directory
  bad : Directory
  minFree : Nat

/-- `MIN_FREE_SLOTS`. -/
def MIN_FREE_SLOTS : Nat := 5

namespace SlotLayout

/-- The names that `list_json_files` lists. -/
def isListed (name : Text) : Bool :=
  name.head? != some '.' && DOT_JSON.isSuffixOf name && !DOT_ERR_JSON.isSuffixOf name

/-- A listed file that is read as a stub; links are not followed. -/
def isStub : Text × Node → Bool
  | (name, .file (some r)) => isListed name && r.isFreeStub
  | _ => false

/-- `list_free_stubs`.  (Of the list its length alone is used.) -/
def listFreeStubs (free : Directory) : Directory := free.filter isStub

/-- The names of all four directories. -/
def names (l : SlotLayout) : List Text := (l.free ++ l.work ++ l.done ++ l.bad).map Prod.fst

/-- The largest id of a name, or 0. -/
def maxId (l : SlotLayout) : Nat :=
  (l.names.filterMap fun name => parseSlotIdFromName (ownedName name)).foldl max 0

/-- `saturating_add(1)`. -/
def succSat (n : Nat) : Nat := min (n + 1) U32_MAX

/-- `next_slot_id`. -/
def nextSlotId (l : SlotLayout) : Nat := max (succSat l.maxId) 1

/-! ### Stubs -/

/-- `format!("{next_id:04}")`. -/
def idText (n : Nat) : Text := padded 4 n

def slotName (n : Nat) : Text := SLOT_DASH ++ (idText n ++ DOT_JSON)

/-- `free_stub`. -/
def freeStub (id : Text) : SlotRequest where
  slotId := String.ofList id
  payload := some (.obj [("app_name", .null), ("timer_name", .null), ("timer_id", .null),
    ("occurrence", .null), ("tz", .null), ("action", .null)])

/-- The entry of a new stub. -/
def stubEntry (n : Nat) : Text × Node := (slotName n, .file (some (freeStub (idText n))))

/-- `create_new_json`: the name must be free. -/
def createNew (free : Directory) (entry : Text × Node) : Bool × Directory :=
  if entry.1 ∈ free.map Prod.fst then (false, free) else (true, free ++ [entry])

/-- What the file system answers: whether the directories can be read, and
whether the `k`-th creation fails. -/
structure Io where
  read : Option SlotError
  create : Nat → Option SlotError

/-- The loop of `replenish`; `none` while it has not come to an end. -/
def replenishLoop (io : Io) (minFree stubs : Nat) :
    Nat → Nat → Nat → Nat → Directory → Option (Except SlotError Nat × Directory)
  | 0, _, _, _, _ => none
  | fuel + 1, attempt, created, nextId, free =>
    if stubs + created < minFree then
      match io.create attempt with
      | some e => some (.error e, free)
      | none =>
        let (made, free') := createNew free (stubEntry nextId)
        replenishLoop io minFree stubs fuel (attempt + 1) (if made then created + 1 else created)
          (succSat nextId) free'
    else some (.ok created, free)

/-- `replenish`, as far as `fuel` turns of its loop go: the number of stubs
made, and `free/` after it. -/
def replenish (io : Io) (l : SlotLayout) (fuel : Nat) :
    Option (Except SlotError Nat × Directory) :=
  match io.read with
  | some e => some (.error e, l.free)
  | none => replenishLoop io l.minFree (listFreeStubs l.free).length fuel 0 0 l.nextSlotId l.free

/-! ### Names of stubs -/

section Names

variable {n m : Nat} {s suf pre name : Text}

theorem stripSuffix?_append (s suf : Text) : Text.stripSuffix? suf (s ++ suf) = some s := by
  unfold Text.stripSuffix?
  rw [if_pos (List.isSuffixOf_iff_suffix.mpr (List.suffix_append s suf)), List.length_append,
    Nat.add_sub_cancel, List.take_left' rfl]

theorem stripPrefix?_append (pre s : Text) : Text.stripPrefix? pre (pre ++ s) = some s := by
  unfold Text.stripPrefix?
  rw [if_pos (List.isPrefixOf_iff_prefix.mpr (List.prefix_append pre s)), List.drop_left' rfl]

/-- The digits of a stub's name are followed by `.json` at once. -/
theorem stripSuffix?_err (n : Nat) : Text.stripSuffix? DOT_ERR_JSON (slotName n) = none := by
  unfold Text.stripSuffix?
  rw [if_neg]
  rw [List.isSuffixOf_iff_suffix]
  rintro ⟨t, ht⟩
  have hsplit : DOT_ERR_JSON = ['.', 'e', 'r', 'r'] ++ DOT_JSON := rfl
  rw [slotName, hsplit, ← List.append_assoc, ← List.append_assoc] at ht
  have ht := List.append_cancel_right ht
  have hlast := congrArg List.getLast? ht
  rw [List.getLast?_append, List.getLast?_append] at hlast
  obtain ⟨c, hc⟩ := Option.isSome_iff_exists.mp
    (List.getLast?_isSome.mpr (padded_ne_nil 4 n))
  have hdigit := padded_isDigit 4 n c (List.mem_of_getLast? hc)
  rw [idText, hc, Option.some_or] at hlast
  cases Option.some.inj hlast
  cases hdigit

theorem slotIdText_slotName (n : Nat) : slotIdText (slotName n) = some (idText n) := by
  unfold slotIdText
  rw [stripSuffix?_err, Option.none_or, slotName, ← List.append_assoc, stripSuffix?_append,
    Option.bind_some, stripPrefix?_append]

theorem parseU32_idText (h : n ≤ U32_MAX) : parseU32 (idText n) = some n := by
  have hplus : (idText n).head? ≠ some '+' := by
    intro hhead
    have hdigit := padded_isDigit 4 n '+' (List.mem_of_head? hhead)
    cases hdigit
  have hall : (idText n).all Char.isDigit = true := List.all_eq_true.mpr (padded_isDigit 4 n)
  unfold parseU32
  simp only [if_neg hplus, hall, not_true_eq_false, or_false]
  rw [if_neg (show idText n ≠ [] from padded_ne_nil 4 n), idText, ofDigitChars_padded, if_pos h]

theorem ownedName_slotName (n : Nat) : ownedName (slotName n) = slotName n := by
  have hnone : Text.stripPrefix? DOT_CLAIM_DASH (slotName n) = none := by
    unfold Text.stripPrefix?
    rw [if_neg]
    rw [List.isPrefixOf_iff_prefix]
    rintro ⟨t, ht⟩
    cases congrArg List.head? ht
  unfold ownedName
  rw [hnone]

/-- A stub has the id that it was named for. -/
theorem parse_slotName (h : n ≤ U32_MAX) :
    parseSlotIdFromName (ownedName (slotName n)) = some n := by
  rw [ownedName_slotName, parseSlotIdFromName, slotIdText_slotName, Option.bind_some,
    parseU32_idText h]

theorem slotName_injective (h : slotName n = slotName m) : n = m := by
  have hid := congrArg slotIdText h
  rw [slotIdText_slotName, slotIdText_slotName] at hid
  exact padded_injective (Option.some.inj hid)

theorem isListed_slotName (n : Nat) : isListed (slotName n) = true := by
  have herr := stripSuffix?_err n
  unfold Text.stripSuffix? at herr
  split at herr
  · cases herr
  · next hno =>
    unfold isListed
    rw [Bool.not_eq_true] at hno
    rw [hno]
    have hjson : DOT_JSON.isSuffixOf (slotName n) = true := by
      rw [List.isSuffixOf_iff_suffix, slotName, ← List.append_assoc]
      exact List.suffix_append _ _
    rw [hjson]
    rfl

theorem isStub_stubEntry (n : Nat) : isStub (stubEntry n) = true := by
  unfold isStub stubEntry
  dsimp only
  rw [isListed_slotName]
  rfl

end Names

/-! ### The largest id -/

section MaxId

variable {l : SlotLayout} {n : Nat} {name : Text}

theorem le_foldl_max (ns : List Nat) (a : Nat) :
    a ≤ ns.foldl max a ∧ ∀ n ∈ ns, n ≤ ns.foldl max a := by
  induction ns generalizing a with
  | nil => exact ⟨Nat.le_refl a, fun n hn => absurd hn List.not_mem_nil⟩
  | cons m ns ih =>
    obtain ⟨hle, hall⟩ := ih (max a m)
    rw [List.foldl_cons]
    refine ⟨(Nat.le_max_left a m).trans hle, fun n hn => ?_⟩
    rcases List.mem_cons.mp hn with rfl | hn
    · exact (Nat.le_max_right a n).trans hle
    · exact hall n hn

theorem foldl_max_mem (ns : List Nat) (a : Nat) : ns.foldl max a = a ∨ ns.foldl max a ∈ ns := by
  induction ns generalizing a with
  | nil => exact .inl rfl
  | cons m ns ih =>
    rw [List.foldl_cons]
    rcases ih (max a m) with heq | hmem
    · rw [heq]
      rcases Nat.le_total a m with hle | hle
      · rw [Nat.max_eq_right hle]
        exact .inr (List.mem_cons_self ..)
      · rw [Nat.max_eq_left hle]
        exact .inl rfl
    · exact .inr (List.mem_cons_of_mem _ hmem)

theorem parseU32_le {s : Text} (h : parseU32 s = some n) : n ≤ U32_MAX := by
  unfold parseU32 at h
  generalize (if s.head? = some '+' then s.tail else s) = digits at h
  dsimp only at h
  split at h
  · cases h
  · split at h
    · next hle =>
      cases h
      exact hle
    · cases h

theorem le_maxId (hname : name ∈ l.names) (h : parseSlotIdFromName (ownedName name) = some n) :
    n ≤ l.maxId :=
  (le_foldl_max _ 0).2 n (List.mem_filterMap.mpr ⟨name, hname, h⟩)

/-- The largest id is that of a name, if it is not 0. -/
theorem exists_maxId (h : 0 < l.maxId) :
    ∃ name ∈ l.names, parseSlotIdFromName (ownedName name) = some l.maxId := by
  rcases foldl_max_mem (l.names.filterMap fun name => parseSlotIdFromName (ownedName name)) 0 with
    hzero | hmem
  · exact absurd hzero (Nat.ne_of_gt h)
  · exact List.mem_filterMap.mp hmem

theorem maxId_le (l : SlotLayout) : l.maxId ≤ U32_MAX := by
  rcases Nat.eq_zero_or_pos l.maxId with hzero | hpos
  · rw [hzero]
    exact Nat.zero_le _
  · obtain ⟨name, -, hname⟩ := exists_maxId hpos
    obtain ⟨id, -, hid⟩ := Option.bind_eq_some_iff.mp hname
    exact parseU32_le hid

/-- No name has an id beyond the largest one. -/
theorem not_mem_of_maxId_lt (h : l.maxId < n) (hn : n ≤ U32_MAX) : slotName n ∉ l.names :=
  fun hmem => absurd (le_maxId hmem (parse_slotName hn)) (Nat.not_le.mpr h)

end MaxId

/-! ### The loop -/

section Loop

variable {io : Io} {minFree stubs v fuel attempt created : Nat} {free free' : Directory}
  {result : Except SlotError Nat}

/-- The ids from `v` on are new; past the last one its name is taken. -/
structure Fresh (v : Nat) (free : Directory) : Prop where
  new : ∀ n, v ≤ n → n ≤ U32_MAX → slotName n ∉ free.map Prod.fst
  last : U32_MAX < v → slotName U32_MAX ∈ free.map Prod.fst

theorem succSat_min (v : Nat) : succSat (min v U32_MAX) = min (v + 1) U32_MAX := by
  unfold succSat
  omega

theorem mem_names_append {n : Nat} {name : Text} : name ∈ (free ++ [stubEntry n]).map Prod.fst ↔
    name ∈ free.map Prod.fst ∨ name = slotName n := by
  rw [List.map_append, List.mem_append]
  exact or_congr_right List.mem_singleton

theorem Fresh.made (h : Fresh v free) (hv : v ≤ U32_MAX) :
    Fresh (v + 1) (free ++ [stubEntry v]) where
  new n hn hmax hmem := by
    rcases mem_names_append.mp hmem with hmem | heq
    · exact h.new n (by omega) hmax hmem
    · have := slotName_injective heq
      omega
  last hlast := mem_names_append.mpr (.inr (congrArg slotName (by omega)))

theorem Fresh.taken (h : Fresh v free) (hv : U32_MAX < v) : Fresh (v + 1) free where
  new n hn hmax := by omega
  last _ := h.last hv

/-- A turn of the loop gives out an id, or there is none left. -/
theorem createNew_fresh (h : Fresh v free) :
    createNew free (stubEntry (min v U32_MAX)) =
      if v ≤ U32_MAX then (true, free ++ [stubEntry v]) else (false, free) := by
  unfold createNew
  by_cases hv : v ≤ U32_MAX
  · rw [Nat.min_eq_left hv, if_pos hv]
    exact if_neg (h.new v (Nat.le_refl v) hv)
  · rw [Nat.min_eq_right (by omega), if_neg hv]
    exact if_pos (h.last (by omega))

/-- One turn of the loop. -/
theorem replenishLoop_succ (h : Fresh v free) :
    replenishLoop io minFree stubs (fuel + 1) attempt created (min v U32_MAX) free =
      if stubs + created < minFree then
        match io.create attempt with
        | some e => some (.error e, free)
        | none =>
          if v ≤ U32_MAX then
            replenishLoop io minFree stubs fuel (attempt + 1) (created + 1) (min (v + 1) U32_MAX)
              (free ++ [stubEntry v])
          else
            replenishLoop io minFree stubs fuel (attempt + 1) created (min (v + 1) U32_MAX) free
      else some (.ok created, free) := by
  rw [replenishLoop, createNew_fresh h, succSat_min]
  by_cases hv : v ≤ U32_MAX
  · simp only [if_pos hv, if_true]
  · simp only [if_neg hv, Bool.false_eq_true, if_false]

/-- The stubs that a loop has made have the ids from the first one on. -/
theorem replenishLoop_result (h : Fresh v free)
    (hloop : replenishLoop io minFree stubs fuel attempt created (min v U32_MAX) free =
      some (result, free')) :
    ∃ n, (n = 0 ∨ v + n ≤ U32_MAX + 1) ∧ free' = free ++ (List.range' v n).map stubEntry ∧
      ∀ c, result = .ok c → c = created + n ∧ minFree ≤ stubs + c := by
  induction fuel generalizing attempt created v free with
  | zero => cases hloop
  | succ fuel ih =>
    rw [replenishLoop_succ h] at hloop
    split at hloop
    · split at hloop
      · cases hloop
        exact ⟨0, .inl rfl, by simp, fun c hc => nomatch hc⟩
      · split at hloop
        · next hv =>
          obtain ⟨n, hn, hfree, hresult⟩ := ih (h.made hv) hloop
          refine ⟨n + 1, .inr (by omega), ?_, fun c hc => ?_⟩
          · rw [hfree, List.range'_succ, List.map_cons, List.append_assoc]
            rfl
          · obtain ⟨hc, hle⟩ := hresult c hc
            exact ⟨by omega, hle⟩
        · next hv =>
          obtain ⟨n, hn, hfree, hresult⟩ := ih (h.taken (by omega)) hloop
          obtain rfl : n = 0 := by omega
          exact ⟨0, .inl rfl, hfree, hresult⟩
    · next henough =>
      cases hloop
      refine ⟨0, .inl rfl, by simp, fun c hc => ?_⟩
      cases hc
      exact ⟨rfl, by omega⟩

/-- Without room for the stubs that are missing the loop goes on for ever. -/
theorem replenishLoop_diverges (hio : ∀ k, io.create k = none) (h : Fresh v free)
    (hroom : U32_MAX + 1 + stubs + created < v + minFree) (hneed : stubs + created < minFree) :
    replenishLoop io minFree stubs fuel attempt created (min v U32_MAX) free = none := by
  induction fuel generalizing attempt created v free with
  | zero => rfl
  | succ fuel ih =>
    rw [replenishLoop_succ h, if_pos hneed, hio]
    dsimp only
    split
    · next hv => exact ih (h.made hv) (by omega) (by omega)
    · next hv => exact ih (h.taken (by omega)) (by omega) hneed

/-- With room for them it comes to an end. -/
theorem replenishLoop_ends (h : Fresh v free) (need : Nat)
    (hneed : minFree ≤ stubs + created + need) (hroom : need = 0 ∨ v + need ≤ U32_MAX + 1) :
    ∃ fuel r,
      replenishLoop io minFree stubs fuel attempt created (min v U32_MAX) free = some r := by
  induction need generalizing attempt created v free with
  | zero =>
    refine ⟨1, (.ok created, free), ?_⟩
    rw [replenishLoop_succ h, if_neg (by omega)]
  | succ need ih =>
    by_cases hmore : stubs + created < minFree
    · cases hio : io.create attempt with
      | some e =>
        refine ⟨1, (.error e, free), ?_⟩
        rw [replenishLoop_succ h, if_pos hmore, hio]
      | none =>
        have hv : v ≤ U32_MAX := by omega
        have hrest : ∃ fuel r, replenishLoop io minFree stubs fuel (attempt + 1) (created + 1)
            (min (v + 1) U32_MAX) (free ++ [stubEntry v]) = some r :=
          ih (h.made hv) (by omega) (by omega)
        obtain ⟨fuel, r, hr⟩ := hrest
        refine ⟨fuel + 1, r, ?_⟩
        rw [replenishLoop_succ h, if_pos hmore, hio]
        dsimp only
        rw [if_pos hv, hr]
    · refine ⟨1, (.ok created, free), ?_⟩
      rw [replenishLoop_succ h, if_neg hmore]

/-- An error ends it in any case. -/
theorem replenishLoop_fails (io : Io) (minFree stubs : Nat) {d : Nat} {nextId : Nat}
    (hio : io.create (attempt + d) ≠ none) :
    ∃ fuel r, replenishLoop io minFree stubs fuel attempt created nextId free = some r := by
  induction d generalizing attempt created nextId free with
  | zero =>
    obtain ⟨e, he⟩ := Option.ne_none_iff_exists'.mp hio
    refine ⟨1, if stubs + created < minFree then (.error e, free) else (.ok created, free), ?_⟩
    rw [replenishLoop, show io.create attempt = some e from he]
    split <;> rfl
  | succ d ih =>
    by_cases hmore : stubs + created < minFree
    · cases he : io.create attempt with
      | some e =>
        refine ⟨1, (.error e, free), ?_⟩
        rw [replenishLoop, if_pos hmore, he]
      | none =>
        rw [← Nat.add_assoc, Nat.add_right_comm] at hio
        have hrest : ∃ fuel r, replenishLoop io minFree stubs fuel (attempt + 1)
            (if (createNew free (stubEntry nextId)).1 then created + 1 else created)
            (succSat nextId) (createNew free (stubEntry nextId)).2 = some r := ih hio
        obtain ⟨fuel, r, hr⟩ := hrest
        refine ⟨fuel + 1, r, ?_⟩
        rw [replenishLoop, if_pos hmore, he]
        exact hr
    · refine ⟨1, (.ok created, free), ?_⟩
      rw [replenishLoop, if_neg hmore]

end Loop

/-! ### The stock -/

/-- Two names hold on to the same slot: their ids are the same text, or the
same number. -/
def SameSlot (a b : Text) : Prop :=
  slotIdText (ownedName a) = slotIdText (ownedName b) ∨
    ∃ n, parseSlotIdFromName (ownedName a) = some n ∧ parseSlotIdFromName (ownedName b) = some n

/-- The directory after `replenish`: there are enough stubs, every entry is
still there, and the new ones have slots of their own. -/
structure Stocked (l : SlotLayout) (result : Except SlotError Nat) (free' : Directory) : Prop where
  enough : ∀ c, result = .ok c → l.minFree ≤ (listFreeStubs free').length
  kept : ∃ new, free' = l.free ++ new ∧
    (∀ e ∈ new, ∀ name ∈ l.names, ¬SameSlot e.1 name) ∧
    new.Pairwise fun e e' => ¬SameSlot e.1 e'.1

/-- `replenish` comes to an end, with the stock as it should be. -/
def Replenishes (io : Io) (l : SlotLayout) : Prop :=
  ∃ fuel result free', l.replenish io fuel = some (result, free') ∧ l.Stocked result free'

/-- The ids do not run out before the stubs are made, or an error ends the
loop before an id is given twice. -/
def RoomFor (io : Io) (l : SlotLayout) : Prop :=
  io.read ≠ none ∨ l.minFree ≤ (listFreeStubs l.free).length ∨
    l.maxId + (l.minFree - (listFreeStubs l.free).length) ≤ U32_MAX ∨
    (∃ k, io.create k ≠ none) ∧
      (l.maxId < U32_MAX ∨ io.create 0 ≠ none ∨ slotName U32_MAX ∈ l.free.map Prod.fst)

section Stock

variable {io : Io} {l : SlotLayout} {v n m : Nat} {free' : Directory}
  {result : Except SlotError Nat}

theorem sameSlot_slotName (hn : n ≤ U32_MAX) (hm : m ≤ U32_MAX)
    (h : SameSlot (slotName n) (slotName m)) : n = m := by
  rcases h with htext | ⟨k, hk, hk'⟩
  · rw [ownedName_slotName, ownedName_slotName, slotIdText_slotName, slotIdText_slotName] at htext
    exact padded_injective (Option.some.inj htext)
  · rw [parse_slotName hn] at hk
    rw [parse_slotName hm] at hk'
    cases hk
    exact (Option.some.inj hk').symm

/-- An id beyond the largest one is of no slot that there is. -/
theorem not_sameSlot (hn : l.maxId < n) (hmax : n ≤ U32_MAX) {name : Text}
    (hname : name ∈ l.names) :
    ¬SameSlot (slotName n) name := by
  have hparse := parse_slotName hmax
  rintro (htext | ⟨k, hk, hk'⟩)
  · have hsame : parseSlotIdFromName (ownedName name) = some n := by
      rw [parseSlotIdFromName, ← htext]
      exact hparse
    exact absurd (le_maxId hname hsame) (Nat.not_le.mpr hn)
  · rw [hparse] at hk
    cases hk
    exact absurd (le_maxId hname hk') (Nat.not_le.mpr hn)

theorem mem_names_of_free {name : Text} (h : name ∈ l.free.map Prod.fst) : name ∈ l.names := by
  unfold names
  rw [List.append_assoc, List.append_assoc, List.map_append]
  exact List.mem_append_left _ h

/-- Below the last id the loop starts with new ids. -/
theorem fresh_of_lt (h : l.maxId < U32_MAX) : Fresh (l.maxId + 1) l.free where
  new _ hn hmax hmem := not_mem_of_maxId_lt hn hmax (mem_names_of_free hmem)
  last hlast := absurd hlast (by omega)

/-- At the last id it starts with none, if the name of that is taken. -/
theorem fresh_of_taken (h : slotName U32_MAX ∈ l.free.map Prod.fst) :
    Fresh (U32_MAX + 1) l.free where
  new _ hn hmax := by omega
  last _ := h

theorem nextSlotId_of_lt (h : l.maxId < U32_MAX) :
    l.nextSlotId = min (l.maxId + 1) U32_MAX := by
  unfold nextSlotId succSat
  omega

theorem nextSlotId_of_max (h : l.maxId = U32_MAX) :
    l.nextSlotId = min (U32_MAX + 1) U32_MAX := by
  unfold nextSlotId succSat
  rw [h]
  rfl

/-- What a loop leaves that started with new ids. -/
theorem stocked_of_loop (h : Fresh v l.free) (hv : l.maxId < v) {fuel : Nat}
    (hloop : replenishLoop io l.minFree (listFreeStubs l.free).length fuel 0 0 (min v U32_MAX)
      l.free = some (result, free')) : l.Stocked result free' := by
  obtain ⟨n, hn, rfl, hresult⟩ := replenishLoop_result h hloop
  have hid : ∀ e ∈ (List.range' v n).map stubEntry, ∃ id, e = stubEntry id ∧ l.maxId < id ∧
      id ≤ U32_MAX := by
    intro e he
    obtain ⟨id, hid, rfl⟩ := List.mem_map.mp he
    have hrange := List.mem_range'_1.mp hid
    exact ⟨id, rfl, by omega, by omega⟩
  constructor
  · intro c hc
    obtain ⟨rfl, hle⟩ := hresult c hc
    have hstubs : listFreeStubs ((List.range' v n).map stubEntry) =
        (List.range' v n).map stubEntry := by
      refine List.filter_eq_self.mpr fun e he => ?_
      obtain ⟨id, rfl, -, -⟩ := hid e he
      exact isStub_stubEntry id
    have happend : listFreeStubs (l.free ++ (List.range' v n).map stubEntry) =
        listFreeStubs l.free ++ listFreeStubs ((List.range' v n).map stubEntry) :=
      List.filter_append ..
    rw [happend, hstubs, List.length_append, List.length_map, List.length_range']
    omega
  · refine ⟨_, rfl, fun e he name hname => ?_, ?_⟩
    · obtain ⟨id, rfl, hlt, hmax⟩ := hid e he
      exact not_sameSlot hlt hmax hname
    · rw [List.pairwise_map]
      refine (List.pairwise_lt_range' (s := v) (n := n)).imp_of_mem fun {a b} ha hb hlt hsame => ?_
      have hrange := List.mem_range'_1.mp ha
      have hrange' := List.mem_range'_1.mp hb
      have := sameSlot_slotName (by omega) (by omega) hsame
      omega

theorem replenish_eq (h : io.read = none) (fuel : Nat) : l.replenish io fuel =
    replenishLoop io l.minFree (listFreeStubs l.free).length fuel 0 0 l.nextSlotId l.free := by
  unfold replenish
  rw [h]

/-- Nothing is done when nothing is missing. -/
theorem replenishes_of_enough (h : l.minFree ≤ (listFreeStubs l.free).length) :
    l.Replenishes io := by
  have hkept : ∃ new : Directory, l.free = l.free ++ new ∧
      (∀ e ∈ new, ∀ name ∈ l.names, ¬SameSlot e.1 name) ∧
      new.Pairwise fun e e' => ¬SameSlot e.1 e'.1 :=
    ⟨[], (List.append_nil _).symm, fun e he => absurd he List.not_mem_nil, .nil⟩
  cases hread : io.read with
  | some e =>
    refine ⟨0, .error e, l.free, ?_, fun c hc => (nomatch hc), hkept⟩
    unfold replenish
    rw [hread]
  | none =>
    refine ⟨1, .ok 0, l.free, ?_, fun c _ => h, hkept⟩
    rw [replenish_eq hread, replenishLoop, if_neg (by omega)]

/-- The last id is given again, when its name is not taken. -/
theorem not_stocked (hread : io.read = none) (hmax : l.maxId = U32_MAX)
    (hneed : ¬l.minFree ≤ (listFreeStubs l.free).length) (hio : io.create 0 = none)
    (hfree : slotName U32_MAX ∉ l.free.map Prod.fst) : ¬l.Replenishes io := by
  rintro ⟨fuel, result, free', hloop, hstocked⟩
  rw [replenish_eq hread, nextSlotId_of_max hmax, Nat.min_eq_right (Nat.le_succ _)] at hloop
  cases fuel with
  | zero => cases hloop
  | succ fuel =>
    have hcreate : createNew l.free (stubEntry U32_MAX) =
        (true, l.free ++ [stubEntry U32_MAX]) := if_neg hfree
    have hsat : succSat U32_MAX = min (U32_MAX + 1) U32_MAX := rfl
    rw [replenishLoop, if_pos (by omega), hio, hcreate, hsat] at hloop
    have hlast : Fresh (U32_MAX + 1) (l.free ++ [stubEntry U32_MAX]) :=
      ⟨fun _ hn hle => by omega, fun _ => mem_names_append.mpr (.inr rfl)⟩
    obtain ⟨n, -, hfree', -⟩ := replenishLoop_result hlast hloop
    obtain ⟨new, hnew, hold, -⟩ := hstocked.kept
    rw [hfree', List.append_assoc] at hnew
    obtain rfl := List.append_cancel_left hnew
    obtain ⟨name, hname, hid⟩ := exists_maxId (l := l) (by rw [hmax]; decide)
    refine hold (stubEntry U32_MAX) (List.mem_append_left _ (List.mem_singleton.mpr rfl)) name hname
      (.inr ⟨U32_MAX, parse_slotName (Nat.le_refl _), ?_⟩)
    rw [hid, hmax]

/-- **`replenish` comes to an end with the stock as it should be** exactly
when there is room for the stubs that are missing below the last id, or an
error ends the loop. -/
theorem replenishes_iff (io : Io) (l : SlotLayout) : l.Replenishes io ↔ l.RoomFor io := by
  have hmax := l.maxId_le
  by_cases henough : l.minFree ≤ (listFreeStubs l.free).length
  · exact iff_of_true (replenishes_of_enough henough) (.inr (.inl henough))
  cases hread : io.read with
  | some e =>
    refine iff_of_true ⟨0, .error e, l.free, ?_, fun c hc => (nomatch hc), [],
      (List.append_nil _).symm, fun e he => absurd he List.not_mem_nil, .nil⟩ (.inl ?_)
    · unfold replenish
      rw [hread]
    · rw [hread]
      exact Option.some_ne_none e
  | none =>
    constructor
    · intro h
      by_contra hroom
      obtain ⟨-, hroom⟩ := not_or.mp hroom
      obtain ⟨-, hroom⟩ := not_or.mp hroom
      obtain ⟨hneed, hroom⟩ := not_or.mp hroom
      have hio : l.maxId < U32_MAX ∨ slotName U32_MAX ∈ l.free.map Prod.fst →
          ∀ k, io.create k = none := by
        intro hfree k
        by_contra hk
        exact hroom ⟨⟨k, hk⟩, hfree.imp_right Or.inr⟩
      -- Either the loop never ends, or the last id is given again.
      by_cases hlt : l.maxId < U32_MAX
      · obtain ⟨fuel, result, free', hloop, -⟩ := h
        rw [replenish_eq hread, nextSlotId_of_lt hlt, replenishLoop_diverges (hio (.inl hlt))
          (fresh_of_lt hlt) (by omega) (by omega)] at hloop
        cases hloop
      · have hlast : l.maxId = U32_MAX := by omega
        by_cases hfree : slotName U32_MAX ∈ l.free.map Prod.fst
        · obtain ⟨fuel, result, free', hloop, -⟩ := h
          rw [replenish_eq hread, nextSlotId_of_max hlast, replenishLoop_diverges
            (hio (.inr hfree)) (fresh_of_taken hfree) (by omega) (by omega)] at hloop
          cases hloop
        · refine not_stocked hread hlast henough ?_ hfree h
          by_contra hzero
          exact hroom ⟨⟨0, hzero⟩, .inr (.inl hzero)⟩
    · have hends : ∀ v, Fresh v l.free → l.maxId < v → l.nextSlotId = min v U32_MAX →
          (∃ fuel r, replenishLoop io l.minFree (listFreeStubs l.free).length fuel 0 0
            (min v U32_MAX) l.free = some r) → l.Replenishes io := by
        rintro v hfresh hv hnext ⟨fuel, ⟨result, free'⟩, hloop⟩
        refine ⟨fuel, result, free', ?_, stocked_of_loop hfresh hv hloop⟩
        rw [replenish_eq hread, hnext, hloop]
      rintro (hno | hyes | hroom | ⟨⟨k, hk⟩, hcase⟩)
      · exact absurd hread hno
      · exact absurd hyes henough
      · have hlt : l.maxId < U32_MAX := by omega
        apply hends _ (fresh_of_lt hlt) (Nat.lt_succ_self _) (nextSlotId_of_lt hlt)
        exact replenishLoop_ends (fresh_of_lt hlt) (l.minFree - (listFreeStubs l.free).length)
          (by omega) (by omega)
      · have hfails : ∀ nextId, ∃ fuel r, replenishLoop io l.minFree (listFreeStubs l.free).length
            fuel 0 0 nextId l.free = some r :=
          fun nextId => replenishLoop_fails io _ _ (d := k) (by rwa [Nat.zero_add])
        by_cases hlt : l.maxId < U32_MAX
        · exact hends _ (fresh_of_lt hlt) (Nat.lt_succ_self _) (nextSlotId_of_lt hlt) (hfails _)
        · have hlast : l.maxId = U32_MAX := by omega
          rcases hcase with hlt' | hzero | hfree
          · exact absurd hlt' hlt
          · obtain ⟨e, he⟩ := Option.ne_none_iff_exists'.mp hzero
            refine ⟨1, .error e, l.free, ?_, fun c hc => (nomatch hc), [],
              (List.append_nil _).symm, fun e he => absurd he List.not_mem_nil, .nil⟩
            rw [replenish_eq hread, replenishLoop, if_pos (by omega), he]
          · exact hends _ (fresh_of_taken hfree) (by omega) (nextSlotId_of_max hlast) (hfails _)

end Stock

/-- In the last slot there is a request; no other slot is free. -/
def lastTaken : SlotLayout where
  free := [(slotName U32_MAX, .file none)]
  work := []
  done := []
  bad := []
  minFree := MIN_FREE_SLOTS

/-- No file system error comes up. -/
def Io.quiet : Io := ⟨none, fun _ => none⟩

/-- After the last id the loop does not end. -/
theorem replenish_diverges : ¬∀ (io : Io) (l : SlotLayout), l.Replenishes io := by
  intro h
  obtain ⟨fuel, result, free', hloop, -⟩ := h Io.quiet lastTaken
  have hfree : slotName U32_MAX ∈ lastTaken.free.map Prod.fst := List.mem_singleton.mpr rfl
  have hlast : lastTaken.maxId = U32_MAX :=
    Nat.le_antisymm lastTaken.maxId_le
      (le_maxId (mem_names_of_free hfree) (parse_slotName (Nat.le_refl _)))
  have hstubs : (listFreeStubs lastTaken.free).length = 0 := rfl
  rw [replenish_eq rfl, nextSlotId_of_max hlast, replenishLoop_diverges (fun _ => rfl)
    (fresh_of_taken hfree) (by rw [hstubs]; decide) (by rw [hstubs]; decide)] at hloop
  cases hloop

end SlotLayout

end Bellman

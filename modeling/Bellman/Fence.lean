/-
Bellman/Fence.lean

A new task in the crontab of the user.

Its line goes before the end of a fence, or a fence is put around it at the
end of the crontab.  Between two lines a line can be inserted only when the
text has a newline at its end: `insertIntoFence` adds one.  And when the
crontab cannot be read, the new line takes the place of all of it.

Main result: what disabling, enabling, editing and adding tasks do to a
crontab, and when it is what they should do (`crontab_rewrite_iff`).
-/
import Bellman.Rewrite

namespace Bellman

open Text ProgramLogic
open OccurrenceKind (isWhiteSpace)

/-! ### Bare lines -/

section Bare

variable {text : Text} {ls : List Text}

theorem length_flatten_stripCr_le (ls : List Text) :
    (ls.map stripCr).flatten.length ≤ ls.flatten.length := by
  induction ls with
  | nil => exact Nat.le_refl _
  | cons l ls ih =>
    have := length_stripCr_le l
    simp only [List.map_cons, List.flatten_cons, List.length_append]
    omega

/-- When as many characters are left, every line is bare. -/
theorem bare_of_length (h : (ls.map stripCr).flatten.length = ls.flatten.length) :
    ∀ l ∈ ls, Bare l := by
  induction ls with
  | nil => exact fun l hl => (List.not_mem_nil hl).elim
  | cons l ls ih =>
    have hfirst := length_stripCr_le l
    have hrest := length_flatten_stripCr_le ls
    simp only [List.map_cons, List.flatten_cons, List.length_append] at h
    intro m hm
    rcases List.mem_cons.mp hm with rfl | hm
    · by_contra hnot
      have hlast : m.getLast? = some '\r' := Classical.not_not.mp hnot
      have hstrip : stripCr m = m.dropLast := if_pos hlast
      have hpos : 0 < m.length := by
        cases m with
        | nil => cases hlast
        | cons c m => exact Nat.succ_pos _
      rw [hstrip, List.length_dropLast] at h hfirst
      omega
    · exact ih (by omega) m hm

theorem splitLines_of_bare (h : ∀ l ∈ lines '\n' text, Bare l) :
    splitLines text = lines '\n' text := by
  rw [splitLines_eq]
  exact (List.map_congr_left fun l hl => bare_iff.mpr (h l hl)).trans (List.map_id _)

/-- Lines inserted into the split text are inserted into the text, as far as
their lengths tell, only if the lines of the text are bare. -/
theorem bare_of_inserted {X : List Text} {n e : Nat}
    (h : (splitLines text).take e ++ X ++ (splitLines text).drop e =
      (lines '\n' text).take n ++ X ++ (lines '\n' text).drop n) :
    ∀ l ∈ lines '\n' text, Bare l := by
  have hlen : ∀ (ls : List Text) (k : Nat),
      (ls.take k ++ X ++ ls.drop k).flatten.length = ls.flatten.length + X.flatten.length := by
    intro ls k
    have hsplit := congrArg (fun ls => ls.flatten.length) (List.take_append_drop k ls)
    simp only [List.flatten_append, List.length_append] at hsplit ⊢
    omega
  have heq := congrArg List.length (congrArg List.flatten h)
  rw [hlen, hlen, splitLines_eq] at heq
  exact bare_of_length (Nat.add_right_cancel heq)

end Bare

/-! ### The entry -/

section Entry

variable {hash : TaskHash} {command cronExpr : Text}

/-- The lines of an entry: there may be more than two. -/
def entryLines (hash : TaskHash) (command cronExpr : Text) : List Text :=
  lines '\n' (unlines '\n' true (fenceEntry hash command cronExpr))

theorem lines_unlines_entry (ls ls' : List Text) (h : ∀ l ∈ ls, '\n' ∉ l)
    (h' : ∀ l ∈ ls', '\n' ∉ l) :
    lines '\n' (unlines '\n' true (ls ++ fenceEntry hash command cronExpr ++ ls')) =
      ls ++ entryLines hash command cronExpr ++ ls' := by
  rw [lines_unlines_true_append, lines_unlines_true_append, lines_unlines_true h,
    lines_unlines_true h']
  rfl

theorem lines_append_head {a b : Text} (ha : '\n' ∉ a) (hb : b ≠ []) :
    ∃ rest ls, lines '\n' (a ++ b) = (a ++ rest) :: ls := by
  induction a with
  | nil =>
    obtain ⟨l, ls, hl⟩ := List.exists_cons_of_ne_nil (lines_ne_nil hb)
    exact ⟨l, ls, hl⟩
  | cons c a ih =>
    obtain ⟨rest, ls, hl⟩ := ih fun hm => ha (List.mem_cons_of_mem c hm)
    have hc : c ≠ '\n' := fun heq => ha (heq ▸ List.mem_cons_self)
    refine ⟨rest, ls, ?_⟩
    rw [List.cons_append, lines_cons_of_ne hc, hl]
    rfl

/-- The first line of an entry has an id in it. -/
theorem entryLines_eq (hash : TaskHash) (command cronExpr : Text) :
    ∃ id ls, entryLines hash command cronExpr = ("# id: ".toList ++ id) :: ls := by
  unfold entryLines fenceEntry
  rw [unlines_true_cons, List.append_assoc]
  exact lines_append_head (by decide) (by simp)

/-- It is not the end of a fence. -/
theorem trim_id_ne (id : Text) : trim ("# id: ".toList ++ id) ≠ FENCE_END := by
  intro h
  have hstart : trimStart ("# id: ".toList ++ id) = "# id: ".toList ++ id := rfl
  have hpre : FENCE_END <+: "# id: ".toList ++ id := by
    rw [← h]
    unfold trim
    rw [hstart]
    exact List.rdropWhile_prefix isWhiteSpace _
  obtain ⟨t, ht⟩ := hpre
  have hthird := congrArg (·[2]?) ht
  have h1 : (FENCE_END ++ t)[2]? = some FENCE_END[2] := rfl
  have h2 : ("# id: ".toList ++ id)[2]? = some 'i' := rfl
  simp only [h1, h2] at hthird
  exact absurd hthird (by decide)

end Entry

/-! ### Where it goes -/

section Insert

variable {text : Text} {env : CrontabEnv} (hash : TaskHash) (command cronExpr : Text) {e : Nat}

/-- The entry in a fence of its own. -/
def fencedEntry (hash : TaskHash) (command cronExpr : Text) : List Text :=
  FENCE_BEGIN :: fenceEntry hash command cronExpr ++ [FENCE_END]

/-- The text with a new line in it. -/
def insertedText (text : Text) (hash : TaskHash) (command cronExpr : Text) : Text :=
  insertIntoFence text (hash.shortHash (cronExpr ++ ['|'] ++ command))
    (cronExpr ++ [' '] ++ joinPercent command none)

theorem fence_single : '\n' ∉ FENCE_BEGIN ∧ '\n' ∉ FENCE_END := by decide

theorem insertedText_of_none (h : fenceEnd text = none) :
    insertedText text hash command cronExpr = joinLines (splitLines text ++
      FENCE_BEGIN :: fenceEntry hash command cronExpr ++ [FENCE_END]) true := by
  unfold insertedText insertIntoFence
  unfold fenceEnd at h
  dsimp only
  split
  · next b e hb he =>
    rw [hb, he] at h
    dsimp only at h
    by_cases hlt : e > b
    · rw [if_pos hlt] at h
      cases h
    · rw [if_neg hlt]
      rfl
  · rfl

theorem insertedText_of_some (h : fenceEnd text = some e) :
    insertedText text hash command cronExpr = joinLines ((splitLines text).take e ++
        fenceEntry hash command cronExpr ++ (splitLines text).drop e) true ∧
      ∃ l, (splitLines text)[e]? = some l ∧ trim l = FENCE_END := by
  unfold insertedText insertIntoFence
  unfold fenceEnd at h
  dsimp only
  split at h
  · next b e' hb he =>
    by_cases hlt : e' > b
    · rw [if_pos hlt] at h
      obtain rfl := Option.some.inj h
      obtain ⟨hlen, htrim, -⟩ := List.findIdx?_eq_some_iff_getElem.mp he
      rw [if_pos hlt]
      exact ⟨rfl, _, List.getElem?_eq_getElem hlen, by simpa using htrim⟩
    · rw [if_neg hlt] at h
      cases h
  · cases h

theorem not_mem_splitLines (text : Text) : ∀ l ∈ splitLines text, '\n' ∉ l :=
  fun _ hl => not_mem_of_mem_splitLines hl

theorem lines_fencedEntry (hash : TaskHash) (command cronExpr : Text) :
    lines '\n' (unlines '\n' true (fencedEntry hash command cronExpr)) =
      FENCE_BEGIN :: entryLines hash command cronExpr ++ [FENCE_END] :=
  lines_unlines_entry [FENCE_BEGIN] [FENCE_END]
    (fun l hl => by rw [List.mem_singleton.mp hl]; exact fence_single.1)
    (fun l hl => by rw [List.mem_singleton.mp hl]; exact fence_single.2)

theorem length_fencedEntry (hash : TaskHash) (command cronExpr : Text) :
    (FENCE_BEGIN :: entryLines hash command cronExpr ++ [FENCE_END]).length =
      (entryLines hash command cronExpr).length + 2 := by
  simp

/-- A new fence at the end. -/
theorem lines_inserted_of_none (h : fenceEnd text = none) :
    lines '\n' (insertedText text hash command cronExpr) = splitLines text ++
        (FENCE_BEGIN :: entryLines hash command cronExpr ++ [FENCE_END]) ∧
      Whole '\n' (insertedText text hash command cronExpr) := by
  have hjoin : insertedText text hash command cronExpr =
      unlines '\n' true (splitLines text ++ fencedEntry hash command cronExpr) := by
    rw [insertedText_of_none hash command cronExpr h, fencedEntry, ← List.append_assoc]
    exact joinLines_append (by decide) fence_single.2 true
  rw [hjoin]
  refine ⟨?_, whole_unlines_true _⟩
  rw [lines_unlines_true_append, lines_unlines_true (not_mem_splitLines text), lines_fencedEntry]

/-- Inside a fence, when the last line is not empty. -/
theorem lines_inserted_of_some (h : fenceEnd text = some e)
    (hlast : (splitLines text).getLast? ≠ some []) :
    lines '\n' (insertedText text hash command cronExpr) = (splitLines text).take e ++
        entryLines hash command cronExpr ++ (splitLines text).drop e ∧
      Whole '\n' (insertedText text hash command cronExpr) := by
  obtain ⟨hjoin, l, hl, -⟩ := insertedText_of_some hash command cronExpr h
  have hdrop : (splitLines text).drop e ≠ [] := by
    have hlt : e < (splitLines text).length := (List.getElem?_eq_some_iff.mp hl).1
    exact List.ne_nil_of_length_pos (by rw [List.length_drop]; omega)
  obtain ⟨init, m, hinit⟩ := (List.eq_nil_or_concat _).resolve_left hdrop
  rw [List.concat_eq_append] at hinit
  have hlastm : (splitLines text).getLast? = some m := by
    rw [← List.take_append_drop e (splitLines text), hinit, ← List.append_assoc,
      List.getLast?_concat]
  have hm : m ≠ [] := fun hnil => hlast (hnil ▸ hlastm)
  have hmem : m ∈ splitLines text := List.mem_of_getLast? hlastm
  have heq : insertedText text hash command cronExpr = unlines '\n' true
      ((splitLines text).take e ++ fenceEntry hash command cronExpr ++
        (splitLines text).drop e) := by
    rw [hjoin, hinit, ← List.append_assoc]
    exact joinLines_append hm (not_mem_of_mem_splitLines hmem) true
  rw [heq]
  refine ⟨?_, whole_unlines_true _⟩
  exact lines_unlines_entry _ _ (fun x hx => not_mem_splitLines text x (List.mem_of_mem_take hx))
    fun x hx => not_mem_splitLines text x (List.mem_of_mem_drop hx)

/-- Inside a fence an empty line at the end is lost. -/
theorem length_inserted_lt (h : fenceEnd text = some e)
    (hlast : (splitLines text).getLast? = some []) :
    (lines '\n' (insertedText text hash command cronExpr)).length + 1 =
      (lines '\n' text).length + (entryLines hash command cronExpr).length := by
  obtain ⟨hjoin, l, hl, htrim⟩ := insertedText_of_some hash command cronExpr h
  have hlt : e < (splitLines text).length := (List.getElem?_eq_some_iff.mp hl).1
  obtain ⟨init, hinit⟩ := List.getLast?_eq_some_iff.mp hlast
  have hlen : (splitLines text).length = init.length + 1 := by
    rw [hinit, List.length_append, List.length_singleton]
  -- The end of the fence is not the empty line.
  have he : e < init.length := by
    refine Nat.lt_of_le_of_ne (by omega) fun heq => ?_
    rw [hinit, heq, List.getElem?_concat_length] at hl
    rw [← Option.some.inj hl] at htrim
    exact absurd htrim (by decide)
  have hdrop : (splitLines text).drop e = init.drop e ++ [[]] := by
    rw [hinit, List.drop_append_of_le_length he.le]
  have htake : (splitLines text).take e = init.take e := by
    rw [hinit, List.take_append_of_le_length he.le]
  have hinitmem : ∀ x ∈ init, '\n' ∉ x := fun x hx =>
    not_mem_splitLines text x (hinit ▸ List.mem_append_left _ hx)
  have heq : insertedText text hash command cronExpr = unlines '\n' true
      (init.take e ++ fenceEntry hash command cronExpr ++ init.drop e) := by
    rw [hjoin, hdrop, htake, ← List.append_assoc]
    exact joinLines_blank (by simp [fenceEntry]) true
  have hlines : lines '\n' (insertedText text hash command cronExpr) = init.take e ++
      entryLines hash command cronExpr ++ init.drop e := by
    rw [heq]
    exact lines_unlines_entry _ _ (fun x hx => hinitmem x (List.mem_of_mem_take hx))
      fun x hx => hinitmem x (List.mem_of_mem_drop hx)
  rw [hlines, ← length_splitLines, hlen]
  simp only [List.length_append, List.length_take, List.length_drop]
  omega

theorem length_take_append_drop {α : Type} (ls X : List α) (k : Nat) :
    (ls.take k ++ X ++ ls.drop k).length = ls.length + X.length := by
  simp only [List.length_append, List.length_take, List.length_drop]
  omega

/-- What a new task should do to a text. -/
def NewInserted (text after : Text) (hash : TaskHash) (command cronExpr : Text) : Prop :=
  ∃ block, Inserted text after block ∧ (block = fenceEntry hash command cronExpr ∨
    block = fencedEntry hash command cronExpr)

/-- **A new fence** leaves the other lines as they are when these are bare. -/
theorem newInserted_of_none (h : fenceEnd text = none) :
    NewInserted text (insertedText text hash command cronExpr) hash command cronExpr ↔
      ∀ l ∈ lines '\n' text, Bare l := by
  obtain ⟨hlines, hwhole⟩ := lines_inserted_of_none hash command cronExpr h
  constructor
  · rintro ⟨block, ⟨⟨n, -, heq, -⟩, -⟩, hblock⟩
    rw [hlines] at heq
    have hlen := congrArg List.length heq
    rw [length_take_append_drop, List.length_append, length_splitLines, length_fencedEntry] at hlen
    rcases hblock with rfl | rfl
    · -- There is more in the text than an entry.
      change _ = _ + (entryLines hash command cronExpr).length at hlen
      omega
    · rw [lines_fencedEntry] at heq
      apply bare_of_inserted (e := (splitLines text).length)
      rw [List.take_length, List.drop_length, List.append_nil]
      exact heq
  · intro hbare
    refine ⟨_, ⟨⟨(lines '\n' text).length, le_rfl, ?_, .inr rfl⟩, hwhole⟩, .inr rfl⟩
    rw [hlines, lines_fencedEntry, List.take_length, List.drop_length, List.append_nil,
      splitLines_of_bare hbare]

/-- **Inside a fence** they stay when they are bare and the text ends in a
newline and not in an empty line. -/
theorem newInserted_of_some (h : fenceEnd text = some e) :
    NewInserted text (insertedText text hash command cronExpr) hash command cronExpr ↔
      (∀ l ∈ lines '\n' text, Bare l) ∧ Whole '\n' text ∧ (splitLines text).getLast? ≠ some [] := by
  obtain ⟨-, l, hl, htrim⟩ := insertedText_of_some hash command cronExpr h
  have hlt : e < (splitLines text).length := (List.getElem?_eq_some_iff.mp hl).1
  constructor
  · rintro ⟨block, ⟨⟨n, hn, heq, hplace⟩, -⟩, hblock⟩
    have hlen := congrArg List.length heq
    rw [length_take_append_drop] at hlen
    have hlast : (splitLines text).getLast? ≠ some [] := by
      intro hblank
      have hlost := length_inserted_lt hash command cronExpr h hblank
      rcases hblock with rfl | rfl
      · change _ = _ + (entryLines hash command cronExpr).length at hlen
        omega
      · rw [lines_fencedEntry, length_fencedEntry] at hlen
        omega
    obtain ⟨hlines, -⟩ := lines_inserted_of_some hash command cronExpr h hlast
    rw [hlines] at heq
    rw [hlines, length_take_append_drop, length_splitLines] at hlen
    rcases hblock with rfl | rfl
    · change _ = _ ++ entryLines hash command cronExpr ++ _ at heq
      have hbare := bare_of_inserted heq
      refine ⟨hbare, hplace.resolve_right fun hend => ?_, hlast⟩
      -- At the end the entry would follow the fence's last line.
      rw [splitLines_of_bare hbare] at heq hl hlt
      obtain ⟨id, ls, hentry⟩ := entryLines_eq hash command cronExpr
      have hat := congrArg (·[e]?) heq
      simp only [hend, List.take_length, List.drop_length, List.append_nil] at hat
      rw [List.append_assoc, List.getElem?_append_right (List.length_take_le _ _),
        List.length_take_of_le hlt.le, Nat.sub_self, List.getElem?_append_left hlt, hl,
        hentry] at hat
      have hid : "# id: ".toList ++ id = l := Option.some.inj hat
      exact trim_id_ne id (hid ▸ htrim)
    · rw [lines_fencedEntry, length_fencedEntry] at hlen
      omega
  · rintro ⟨hbare, hwhole, hlast⟩
    obtain ⟨hlines, hended⟩ := lines_inserted_of_some hash command cronExpr h hlast
    rw [splitLines_of_bare hbare] at hlines hlt
    exact ⟨_, ⟨⟨e, hlt.le, hlines, .inl hwhole⟩, hended⟩, .inl rfl⟩

theorem eq_of_rotate {α : Type} {x y : α} {ls : List α} (h : x :: ls = ls ++ [y]) :
    ∀ a ∈ ls, a = y := by
  induction ls generalizing x with
  | nil => exact fun a ha => (List.not_mem_nil ha).elim
  | cons b ls ih =>
    obtain ⟨rfl, h⟩ := List.cons.inj h
    have hrest := ih h
    intro a ha
    rcases List.mem_cons.mp ha with rfl | ha
    · cases ls with
      | nil => exact (List.cons.inj h).1
      | cons c ls => exact (List.cons.inj h).1.trans (hrest c List.mem_cons_self)
    · exact hrest a ha

/-- **A crontab that is not read** is replaced, which keeps nothing and an
empty fence only. -/
theorem newInserted_unread :
    NewInserted text (insertedText [] hash command cronExpr) hash command cronExpr ↔
      text = [] ∨ text = unlines '\n' true [FENCE_BEGIN, FENCE_END] := by
  have hempty : fenceEnd [] = none := rfl
  obtain ⟨hlines, hwhole⟩ := lines_inserted_of_none hash command cronExpr hempty
  rw [show splitLines [] = [] from rfl, List.nil_append] at hlines
  obtain ⟨id, ls, hentry⟩ := entryLines_eq hash command cronExpr
  constructor
  · rintro ⟨block, ⟨⟨n, hn, heq, hplace⟩, -⟩, hblock⟩
    rw [hlines] at heq
    have hlen := congrArg List.length heq
    rw [length_take_append_drop, length_fencedEntry] at hlen
    rcases hblock with rfl | rfl
    · right
      change _ = _ + (entryLines hash command cronExpr).length at hlen
      change _ = _ ++ entryLines hash command cronExpr ++ _ at heq
      obtain ⟨a, b, hab⟩ : ∃ a b, lines '\n' text = [a, b] :=
        List.length_eq_two.mp (by omega)
      rw [hab] at heq hn hplace
      -- The entry can only be between the two lines that were there.
      obtain rfl : n = 1 := by
        rcases Nat.lt_trichotomy n 1 with hlt | rfl | hlt
        · obtain rfl : n = 0 := by omega
          rw [hentry] at heq
          exact absurd (List.cons.inj heq).1 (by intro h; cases congrArg (·[2]?) h)
        · rfl
        · obtain rfl : n = 2 := Nat.le_antisymm hn hlt
          have hrot : b :: entryLines hash command cronExpr =
              entryLines hash command cronExpr ++ [FENCE_END] := by
            simpa using (List.cons.inj heq).2.symm
          have hid := eq_of_rotate hrot _ (hentry ▸ List.mem_cons_self)
          exact absurd (congrArg trim hid) (fun h => trim_id_ne id (h.trans (by decide)))
      obtain ⟨rfl, htail⟩ := List.cons.inj heq
      have hb : [FENCE_END] = [b] := List.append_cancel_left htail
      rw [← (List.cons.inj hb).1] at hab
      have hended : Whole '\n' text := hplace.resolve_right (by simp)
      have htext := unlines_lines (iff_of_true (rfl : true = true) hended)
      rw [← htext, hab]
    · left
      rw [lines_fencedEntry, length_fencedEntry] at hlen
      by_contra hne
      have hzero : (lines '\n' text).length = 0 := by omega
      exact lines_ne_nil hne (List.length_eq_zero_iff.mp hzero)
  · rintro (rfl | rfl)
    · refine ⟨_, ⟨⟨0, Nat.zero_le _, ?_, .inl whole_nil⟩, hwhole⟩, .inr rfl⟩
      rw [hlines, lines_fencedEntry]
      simp
    · have hab : lines '\n' (unlines '\n' true [FENCE_BEGIN, FENCE_END]) =
          [FENCE_BEGIN, FENCE_END] := lines_unlines_true (by decide)
      refine ⟨_, ⟨⟨1, ?_, ?_, .inl (whole_unlines_true _)⟩, hwhole⟩, .inl rfl⟩
      · rw [hab]
        exact Nat.le_succ 1
      · rw [hlines, hab]
        rfl

/-- When a text is changed as it should be by a new task. -/
theorem newInserted_iff (hread : env.readError = none) :
    NewInserted env.text (insertedText env.text hash command cronExpr) hash command cronExpr ↔
      NewSafe env := by
  have hno : ∀ P : Prop, (env.readError ≠ none → P) := fun _ h => absurd hread h
  cases hf : fenceEnd env.text with
  | none =>
    rw [newInserted_of_none hash command cronExpr hf]
    refine ⟨fun h => ⟨hno _, fun _ => h, fun _ hs => ?_⟩, fun h => h.bare hread⟩
    rw [hf] at hs
    cases hs
  | some e =>
    rw [newInserted_of_some hash command cronExpr hf]
    exact ⟨fun ⟨hbare, hrest⟩ => ⟨hno _, fun _ => hbare, fun _ _ => hrest⟩,
      fun h => ⟨h.bare hread, h.fenced hread (by rw [hf]; rfl)⟩⟩

variable {command cronExpr}

theorem newCronTask_accepted (h : NewAccepted command cronExpr) (env : CrontabEnv)
    (apply : Bool) :
    newCronTask env hash command cronExpr apply =
      finishWriteRaw env "new" none "crontab:user" ((readUserCrontab env).toOption.getD [])
        (insertedText ((readUserCrontab env).toOption.getD []) hash command cronExpr) apply := by
  obtain ⟨hcommand, hcron, raw, n, job, d, o, hjob⟩ := h
  unfold newCronTask
  rw [if_neg hcommand, if_neg hcron]
  dsimp only
  rw [hjob]
  rfl

theorem newCronTask_refused (h : ¬NewAccepted command cronExpr) (env : CrontabEnv)
    (apply : Bool) :
    ∃ e, newCronTask env hash command cronExpr apply = (.error e, env.text) := by
  unfold newCronTask
  by_cases hcommand : trim command = []
  · exact ⟨_, if_pos hcommand⟩
  rw [if_neg hcommand]
  by_cases hcron : trim cronExpr = []
  · exact ⟨_, if_pos hcron⟩
  rw [if_neg hcron]
  dsimp only
  split
  · next hjob => exact absurd ⟨hcommand, hcron, _, _, _, _, _, hjob⟩ h
  · exact ⟨_, rfl⟩

/-- **A new task touches nothing else exactly when its insertion is safe**, if
there is one. -/
theorem newTouches_iff :
    NewTouches env hash command cronExpr ↔ (NewAccepted command cronExpr → NewSafe env) := by
  by_cases hacc : NewAccepted command cronExpr
  · have hiff : NewInserted env.text (insertedText ((readUserCrontab env).toOption.getD [])
        hash command cronExpr) hash command cronExpr ↔ NewSafe env := by
      unfold readUserCrontab
      cases hread : env.readError with
      | none => exact newInserted_iff hash command cronExpr hread
      | some e =>
        refine (newInserted_unread hash command cronExpr).trans
          ⟨fun h => ⟨fun _ => h, ?_, ?_⟩, fun h => h.read ?_⟩
        all_goals simp [hread]
    constructor
    · intro htouch _
      obtain ⟨plan, hdry, hplan⟩ := finishWriteRaw_dry env "new" none "crontab:user"
        ((readUserCrontab env).toOption.getD [])
        (insertedText ((readUserCrontab env).toOption.getD []) hash command cronExpr)
      have hstep := htouch false
      rw [newCronTask_accepted hash hacc, hdry] at hstep
      rw [← hiff, ← hplan]
      exact hstep.2
    · intro hsafe apply
      rw [newCronTask_accepted hash hacc]
      rcases finishWriteRaw_cases env "new" none "crontab:user"
          ((readUserCrontab env).toOption.getD [])
          (insertedText ((readUserCrontab env).toOption.getD []) hash command cronExpr) apply with
        ⟨e, he⟩ | ⟨plan, now, hplan, hafter, hnow⟩
      · rw [he]
      · rw [hplan]
        refine ⟨hnow, ?_⟩
        rw [hafter]
        exact hiff.mpr (hsafe hacc)
  · refine ⟨fun _ h => absurd h hacc, fun _ apply => ?_⟩
    obtain ⟨e, he⟩ := newCronTask_refused hash hacc env apply
    rw [he]

end Insert

/-! ### Main result -/

/-- **What the operations do to a crontab**, for a task that was found in it or
in an earlier one.  Each touches the task's line only, and is an error when
that line is gone, exactly when `TaskOp.Safe` says so, or there is nothing to
do and the line is there.  Disabling and enabling give the text back exactly
when the line comes back besides.  A new task touches nothing else exactly
when its insertion is safe. -/
theorem crontab_rewrite_iff (username : String) (hash : TaskHash) (earlier : Text)
    (task : DiscoveredTask) (h : task ∈ tasksFromCrontabText (.user username) hash earlier) :
    ∃ raw, task.rawLine = some raw ∧ ∀ env : CrontabEnv,
      (∀ op : TaskOp, op.Touches env task ↔
        (op.Applies task → env.readError = none → op.Safe env.text task raw) ∧
          (op.Idles task → raw ∈ splitLines env.text)) ∧
      (task.enabled = true → env.readError = none →
        (TaskOp.disable.Touches env task ∧ RoundTrips username hash env.text task ↔
          TaskOp.disable.Safe env.text task raw ∧
            (raw ∈ splitLines env.text → ComesBack env.text task raw))) ∧
      ∀ command cronExpr : Text, NewTouches env hash command cronExpr ↔
        (NewAccepted command cronExpr → NewSafe env) := by
  obtain ⟨raw, hraw⟩ := readable_of_mem h
  refine ⟨raw, hraw.rawLine, fun env => ⟨fun op => touches_iff hraw, fun hen hread => ?_,
    fun command cronExpr => newTouches_iff hash⟩⟩
  have htouches : TaskOp.disable.Touches env task ↔ TaskOp.disable.Safe env.text task raw := by
    refine (touches_iff hraw).trans ⟨fun ⟨hsafe, _⟩ => hsafe hen hread,
      fun hsafe => ⟨fun _ _ => hsafe, fun hidle => ?_⟩⟩
    exact absurd (hidle.symm.trans hen) nofun
  rw [htouches]
  exact and_congr_right fun hsafe => roundTrips_iff hraw hen hsafe

/-- Ids that are all the same. -/
def TaskHash.sample : TaskHash := ⟨fun _ _ => "id", fun _ => "0".toList⟩

def backupLine : Text := "0 6 * * 1 backup %daily".toList

def handText : Text := unlines '\n' true ["# hand".toList, [], backupLine, "# tail".toList]

def backupTask : DiscoveredTask where
  id := "id"
  sourceKind := .cronUser
  source := "crontab:me"
  command := "backup ".toList
  stdinPayload := some "daily".toList
  scheduleExpr := "0 6 * * 1".toList
  enabled := true
  writable := true
  writeBlockReason := none
  lineNo := some 3
  rawLine := some backupLine
  disabledOriginal := none

theorem backupTask_mem :
    backupTask ∈ tasksFromCrontabText (.user "me") TaskHash.sample handText := by
  have htasks : tasksFromCrontabText (.user "me") TaskHash.sample handText = [backupTask] := rfl
  rw [htasks]
  exact List.mem_singleton_self _

/-- Disabled and enabled again, the crontab is as it was; and a line can be
added to it. -/
theorem crontab_rewrite_backup :
    TaskOp.disable.Touches { text := handText } backupTask ∧
      RoundTrips "me" TaskHash.sample handText backupTask ∧
      NewTouches { text := handText } TaskHash.sample "true".toList "0 1 * * *".toList := by
  obtain ⟨raw, hraw, hall⟩ := crontab_rewrite_iff "me" TaskHash.sample handText backupTask
    backupTask_mem
  obtain rfl : backupLine = raw := Option.some.inj hraw
  obtain ⟨-, hback, hnew⟩ := hall { text := handText }
  have hbare : ∀ l ∈ lines '\n' handText, Bare l := by decide +kernel
  have hexact : exactMatch (splitLines handText) backupTask = some 2 := by decide +kernel
  have hsafe : TaskOp.disable.Safe handText backupTask backupLine := by
    refine ⟨fun _ new hnew => ?_, fun hgone => absurd (by decide +kernel) hgone⟩
    obtain rfl := Except.ok.inj hnew
    refine ⟨by decide +kernel, by decide +kernel, 2, ⟨⟨_, rfl, by decide +kernel⟩, ?_⟩, ?_,
      .inr hexact⟩
    · intro n hn _ _
      obtain rfl : 3 = n := Option.some.inj hn
      rfl
    · exact fun j l _ hl => hbare l (List.mem_of_getElem? hl)
  have hcomes : ComesBack handText backupTask backupLine := by
    refine ⟨hbare, by decide +kernel, fun i hi => ?_⟩
    obtain rfl : 2 = i := Option.some.inj (hexact.symm.trans hi)
    decide +kernel
  have hnewsafe : NewSafe { text := handText } :=
    ⟨fun h => absurd rfl h, fun _ => hbare, fun _ h => absurd h (by decide +kernel)⟩
  obtain ⟨htouches, hround⟩ := (hback rfl rfl).mpr ⟨hsafe, fun _ => hcomes⟩
  exact ⟨htouches, hround, (hnew _ _).mpr fun _ => hnewsafe⟩

/-- Another job where the task was. -/
def staleText : Text :=
  unlines '\n' true ["# hand".toList, [], "0 7 * * * sync".toList, "# tail".toList]

/-- A carriage return at the end of another line. -/
def carriageText : Text := unlines '\n' true ["# hand\r".toList, backupLine]

/-- The task's line, and before it the same line disabled. -/
def twiceText : Text := unlines '\n' true [DISABLE_PREFIX ++ backupLine, backupLine]

/-- **Lines that are not the task's change**: another job at its number is
disabled, a carriage return and an empty last line are lost, a line is enabled
that was disabled before, and a crontab that cannot be read is replaced. -/
theorem crontab_rewrites_astray :
    backupTask ∈ tasksFromCrontabText (.user "me") TaskHash.sample handText ∧
      ¬TaskOp.disable.Touches { text := staleText } backupTask ∧
      ¬TaskOp.disable.Touches { text := carriageText } backupTask ∧
      ¬TaskOp.disable.Touches { text := handText ++ ['\n'] } backupTask ∧
      ¬RoundTrips "me" TaskHash.sample twiceText backupTask ∧
      ¬NewTouches { text := handText, readError := some "crontab -l failed" } TaskHash.sample
        "true".toList "0 1 * * *".toList := by
  obtain ⟨raw, hread⟩ := readable_of_mem backupTask_mem
  obtain rfl : backupLine = raw := Option.some.inj hread.rawLine
  have hsafe : ∀ text, TaskOp.disable.Touches { text } backupTask →
      TaskOp.disable.Safe text backupTask backupLine :=
    fun text h => ((touches_iff hread).mp h).1 rfl rfl
  refine ⟨backupTask_mem, fun h => ?_, fun h => ?_, fun h => ?_, fun h => ?_, fun h => ?_⟩
  · exact (hsafe _ h).gone (by decide +kernel) 2 (by decide +kernel) _ rfl
  · obtain ⟨-, -, i, hi, hbare, -⟩ := (hsafe _ h).found (by decide +kernel) _ rfl
    have hne : 0 ≠ i := by
      rintro rfl
      exact absurd (hi.mem rfl).2 (by decide +kernel)
    exact absurd (hbare 0 "# hand\r".toList hne (by decide +kernel)) (by decide +kernel)
  · obtain ⟨-, hlast, -⟩ := (hsafe _ h).found (by decide +kernel) _ rfl
    exact absurd (by decide +kernel) hlast
  · obtain ⟨i, task', hi, htask', hback⟩ := h (unlines '\n' true
      [DISABLE_PREFIX ++ backupLine, DISABLE_PREFIX ++ backupLine]) rfl
    obtain rfl : 1 = i := Except.ok.inj hi
    obtain rfl := Option.some.inj htask'
    exact absurd (Except.ok.inj hback) (by decide +kernel)
  · have hacc : NewAccepted "true".toList "0 1 * * *".toList :=
      ⟨by decide +kernel, by decide +kernel, _, _, _, _, _, rfl⟩
    rcases ((newTouches_iff _).mp h hacc).read nofun with hnil | hfence
    · exact absurd hnil (by decide +kernel)
    · exact absurd hfence (by decide +kernel)

end Bellman

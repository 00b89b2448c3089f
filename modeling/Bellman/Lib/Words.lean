/-
Bellman/Lib/Words.lean

The words of a text, and the text that they make again.

A text is cut at its separators, and what lies between two of them is a word,
if there is anything:

    words     the pieces that are not empty
    collapse  the words, with one separator between two of them
    dropWord  what comes after the first word

Words are cut at every separator (`words_append_sep`), and what was put
together of words has these words again (`words_intercalate`); so a text and
its collapse have the same words.  A text that is collapsed neither begins nor
ends with a separator.
-/
import Mathlib.Data.List.DropRight
import Mathlib.Logic.Function.Iterate

namespace ProgramLogic

namespace Words

variable {α : Type} (p : α → Bool)

/-- The pieces between separators that are not empty. -/
def words (s : List α) : List (List α) := (s.splitOnP p).filter fun w => !w.isEmpty

/-- What comes after the first word. -/
def dropWord (s : List α) : List α := (s.dropWhile p).dropWhile fun c => !p c

/-- The words, with one separator between two of them. -/
def collapse (sep : α) (s : List α) : List α := [sep].intercalate (words p s)

/-- A word: it is not empty and has no separator in it. -/
def IsWord (w : List α) : Prop := w ≠ [] ∧ ∀ c ∈ w, p c = false

variable {p} {sep c : α} {s x y w : List α} {ws : List (List α)}

@[simp] theorem words_nil : words p [] = [] := rfl

/-- **Words are cut at a separator.** -/
theorem words_append_sep (h : p c = true) (x y : List α) :
    words p (x ++ c :: y) = words p x ++ words p y := by
  unfold words
  rw [List.splitOnP_append_cons x y h, List.filter_append]

theorem words_cons_sep (h : p c = true) (s : List α) : words p (c :: s) = words p s :=
  words_append_sep h [] s

theorem words_of_isWord (h : IsWord p w) : words p w = [w] := by
  unfold words
  rw [List.splitOnP_eq_singleton h.2]
  simp [h.1]

theorem words_dropWhile (s : List α) : words p (s.dropWhile p) = words p s := by
  induction s with
  | nil => rfl
  | cons c s ih =>
    cases hc : p c with
    | true => rw [List.dropWhile_cons_of_pos hc, ih, words_cons_sep hc]
    | false => rw [List.dropWhile_cons_of_neg (by simp [hc])]

/-- What is left of a text begins with a word, if there is anything. -/
theorem head_dropWhile (h : s.dropWhile p = c :: x) : p c = false := by
  have hhead := List.head_dropWhile_not p (by simp [h] : s.dropWhile p ≠ [])
  simpa [h] using hhead

/-- The first word and the rest. -/
theorem words_cons (h : p c = false) (s : List α) :
    words p (c :: s) = (c :: s.takeWhile fun c => !p c) :: words p (s.dropWhile fun c => !p c) := by
  have hsplit := List.takeWhile_append_dropWhile (p := fun c => !p c) (l := s)
  have hword : IsWord p (c :: s.takeWhile fun c => !p c) := by
    refine ⟨List.cons_ne_nil _ _, fun d hd => ?_⟩
    rcases List.mem_cons.mp hd with rfl | hd
    · exact h
    · have hall := List.all_takeWhile (p := fun c => !p c) (l := s)
      simpa using List.all_eq_true.mp hall d hd
  cases hrest : s.dropWhile fun c => !p c with
  | nil =>
    rw [hrest, List.append_nil] at hsplit
    rw [hsplit] at hword ⊢
    exact words_of_isWord hword
  | cons d rest =>
    have hd : p d = true := by simpa using head_dropWhile hrest
    have hcut : c :: s = (c :: s.takeWhile fun c => !p c) ++ d :: rest := by
      rw [← hrest, List.cons_append, hsplit]
    rw [hcut, words_append_sep hd, words_of_isWord hword, words_cons_sep hd]
    rfl

theorem words_dropWord (s : List α) : words p (dropWord p s) = (words p s).tail := by
  unfold dropWord
  rw [← words_dropWhile s]
  cases h : s.dropWhile p with
  | nil => rfl
  | cons c rest =>
    have hc := head_dropWhile h
    rw [words_cons hc, List.dropWhile_cons_of_pos (by simp [hc])]
    rfl

/-- No piece of a split has a separator in it. -/
theorem not_of_mem_splitOnP (h : w ∈ s.splitOnP p) : ∀ c ∈ w, p c = false := by
  induction s generalizing w with
  | nil =>
    rw [List.splitOnP_nil, List.mem_singleton] at h
    rw [h]
    exact fun c hc => absurd hc List.not_mem_nil
  | cons d s ih =>
    rw [List.splitOnP_cons_eq_if_modifyHead] at h
    split at h
    · rcases List.mem_cons.mp h with rfl | h
      · exact fun c hc => absurd hc List.not_mem_nil
      · exact ih h
    · next hd =>
      obtain ⟨v, vs, hv⟩ := List.exists_cons_of_ne_nil (List.splitOnP_ne_nil p s)
      rw [hv, List.modifyHead_cons] at h
      rcases List.mem_cons.mp h with rfl | h
      · intro c hc
        rcases List.mem_cons.mp hc with rfl | hc
        · simpa using hd
        · exact ih (hv ▸ List.mem_cons_self) c hc
      · exact ih (hv ▸ List.mem_cons_of_mem _ h)

theorem isWord_of_mem (h : w ∈ words p s) : IsWord p w := by
  obtain ⟨hw, hne⟩ := List.mem_filter.mp h
  exact ⟨by simpa using hne, not_of_mem_splitOnP hw⟩

theorem intercalate_cons (w v : List α) (ws : List (List α)) :
    [sep].intercalate (w :: v :: ws) = w ++ sep :: [sep].intercalate (v :: ws) := by
  simp [List.intercalate]

/-- **What is put together of words** has these words. -/
theorem words_intercalate (hsep : p sep = true) (h : ∀ w ∈ ws, IsWord p w) :
    words p ([sep].intercalate ws) = ws := by
  induction ws with
  | nil => rfl
  | cons w ws ih =>
    obtain ⟨hw, hws⟩ := List.forall_mem_cons.mp h
    cases ws with
    | nil => simpa using words_of_isWord hw
    | cons v ws =>
      rw [intercalate_cons, words_append_sep hsep, words_of_isWord hw, ih hws]
      rfl

theorem words_collapse (hsep : p sep = true) (s : List α) :
    words p (collapse p sep s) = words p s :=
  words_intercalate hsep fun _ => isWord_of_mem

/-- Words that are put together have no separators between them but the one. -/
theorem eq_sep_of_mem (h : ∀ w ∈ ws, IsWord p w) (hmem : c ∈ [sep].intercalate ws)
    (hc : p c = true) : c = sep := by
  have hnot : ∀ w, IsWord p w → c ∉ w := fun w hw hmem => by
    rw [hw.2 c hmem] at hc
    cases hc
  induction ws with
  | nil => cases hmem
  | cons w ws ih =>
    obtain ⟨hw, hws⟩ := List.forall_mem_cons.mp h
    cases ws with
    | nil => exact absurd (by simpa using hmem) (hnot w hw)
    | cons v ws =>
      rw [intercalate_cons] at hmem
      rcases List.mem_append.mp hmem with hmem | hmem
      · exact absurd hmem (hnot w hw)
      · rcases List.mem_cons.mp hmem with rfl | hmem
        · rfl
        · exact ih hws hmem

/-- A collapsed text has no separators but the one. -/
theorem eq_sep_of_mem_collapse (h : c ∈ collapse p sep s) (hc : p c = true) : c = sep :=
  eq_sep_of_mem (fun _ => isWord_of_mem) h hc

/-- It does not begin with a separator. -/
theorem dropWhile_collapse (s : List α) :
    (collapse p sep s).dropWhile p = collapse p sep s := by
  have hwords : ∀ w ∈ words p s, IsWord p w := fun _ => isWord_of_mem
  unfold collapse
  cases hws : words p s with
  | nil => rfl
  | cons w ws =>
    rw [hws] at hwords
    obtain ⟨hne, hnot⟩ := hwords w List.mem_cons_self
    obtain ⟨c, w, rfl⟩ := List.exists_cons_of_ne_nil hne
    have hc := hnot c List.mem_cons_self
    cases ws with
    | nil => simp [List.intercalate, hc]
    | cons v ws =>
      rw [intercalate_cons, List.cons_append, List.dropWhile_cons_of_neg (by simp [hc])]

/-- Nor does it end with one. -/
theorem not_of_getLast? (h : ∀ w ∈ ws, IsWord p w)
    (hc : ([sep].intercalate ws).getLast? = some c) : p c = false := by
  induction ws with
  | nil => cases hc
  | cons w ws ih =>
    obtain ⟨hw, hws⟩ := List.forall_mem_cons.mp h
    cases ws with
    | nil =>
      have hlast : w.getLast? = some c := by simpa using hc
      exact hw.2 c (List.mem_of_getLast? hlast)
    | cons v ws =>
      apply ih hws
      obtain ⟨d, v, rfl⟩ := List.exists_cons_of_ne_nil (hws v List.mem_cons_self).1
      have hne : [sep].intercalate ((d :: v) :: ws) ≠ [] := by
        cases ws with
        | nil => simp
        | cons u ws => simp
      rwa [intercalate_cons, List.getLast?_append_of_ne_nil _ (List.cons_ne_nil _ _),
        List.getLast?_cons_of_ne_nil hne] at hc

theorem not_of_getLast?_collapse (h : (collapse p sep s).getLast? = some c) : p c = false :=
  not_of_getLast? (fun _ => isWord_of_mem) h

/-! ### Leaving words out -/

theorem dropWord_dropWhile (s : List α) : dropWord p (s.dropWhile p) = dropWord p s := by
  unfold dropWord
  rw [List.dropWhile_idempotent]

theorem words_iterate_dropWord (n : Nat) (s : List α) :
    words p ((dropWord p)^[n] s) = (words p s).drop n := by
  induction n generalizing s with
  | zero => rfl
  | succ n ih =>
    rw [Function.iterate_succ_apply, ih, words_dropWord, List.drop_tail]

theorem dropWord_append (hc : p sep = true) (h : x.dropWhile p ≠ []) (y : List α) :
    dropWord p (x ++ sep :: y) = dropWord p x ++ sep :: y := by
  obtain ⟨c, x', hx⟩ := List.exists_cons_of_ne_nil h
  unfold dropWord
  rw [List.dropWhile_append, hx]
  have hstop : (sep :: y).dropWhile (fun c => !p c) = sep :: y :=
    List.dropWhile_cons_of_neg (by simp [hc])
  rw [if_neg (by simp), List.dropWhile_append]
  split
  · next hempty => rw [hstop, List.isEmpty_iff.mp hempty, List.nil_append]
  · rfl

theorem dropWhile_of_words_nil (h : words p x = []) : x.dropWhile p = [] := by
  rw [← words_dropWhile] at h
  cases hx : x.dropWhile p with
  | nil => rfl
  | cons c rest =>
    rw [hx, words_cons (head_dropWhile hx)] at h
    cases h

/-- **Without the words of the first part** of a text, the second part is
left. -/
theorem dropWhile_iterate_dropWord (hc : p sep = true) (x y : List α) :
    ((dropWord p)^[(words p x).length] (x ++ sep :: y)).dropWhile p = y.dropWhile p := by
  generalize hn : (words p x).length = n
  induction n generalizing x with
  | zero =>
    have hx := dropWhile_of_words_nil (List.length_eq_zero_iff.mp hn)
    show (x ++ sep :: y).dropWhile p = _
    rw [List.dropWhile_append, hx, List.dropWhile_cons_of_pos hc]
    rfl
  | succ n ih =>
    have hx : x.dropWhile p ≠ [] := by
      intro hnil
      rw [← words_dropWhile, hnil] at hn
      cases hn
    rw [Function.iterate_succ_apply, dropWord_append hc hx]
    apply ih
    rw [words_dropWord, List.length_tail, hn]
    rfl

theorem dropWord_sublist (s : List α) : (dropWord p s).Sublist s :=
  (List.dropWhile_sublist _).trans (List.dropWhile_sublist _)

theorem iterate_dropWord_sublist (n : Nat) (s : List α) : ((dropWord p)^[n] s).Sublist s := by
  induction n generalizing s with
  | zero => exact List.Sublist.refl s
  | succ n ih =>
    rw [Function.iterate_succ_apply]
    exact (ih _).trans (dropWord_sublist s)

end Words

end ProgramLogic

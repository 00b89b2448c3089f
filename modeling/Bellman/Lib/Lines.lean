/-
Bellman/Lib/Lines.lean

Texts of lines, each ended by a terminator, and what is left of them when
the end is torn off.

`lines nl b` are the lines of `b`; a last one without its terminator counts.
A text is *whole* when it is empty or ends in the terminator.  To a whole
text anything may be appended:

    lines nl (b ++ c) = lines nl b ++ lines nl c

which is false of a text whose last line is open: there the first line of
`c` is joined to it.  The lines that have their terminator, `ended nl b`,
stay lines of the text whatever is appended (`mem_ended_append`).  A prefix
of one ended line reads as no line, or as one that is a prefix of it
(`prefix_of_mem_lines`); the lines of a suffix, but for the first, are lines
of the text (`tail_lines_drop`).

Back from lines to a text goes `unlines`: a text is made of its lines, the
last of them ended or open (`unlines_lines`), and these are the lines of the
text that is made of them (`lines_unlines`).
-/
import Mathlib.Data.List.Basic
import Mathlib.Data.List.DropRight
import Mathlib.Data.List.Infix

namespace ProgramLogic

universe u

variable {α : Type u}

/-- The lines of a text, without their terminators. -/
def lines [DecidableEq α] (nl : α) : List α → List (List α)
  | [] => []
  | a :: b =>
    if a = nl then [] :: lines nl b
    else
      match lines nl b with
      | [] => [[a]]
      | l :: ls => (a :: l) :: ls

/-- The text is empty or ends in the terminator. -/
def Whole (nl : α) (b : List α) : Prop := ∀ a ∈ b.getLast?, a = nl

instance [DecidableEq α] (nl : α) (b : List α) : Decidable (Whole nl b) :=
  match h : b.getLast? with
  | none => isTrue fun a ha => by rw [h] at ha; cases ha
  | some c => decidable_of_iff (c = nl) ⟨fun hc a ha => by rw [h] at ha; cases ha; exact hc,
      fun hw => hw c h⟩

variable {nl : α} {a : α} {b c l p : List α}

@[simp] theorem whole_nil : Whole nl ([] : List α) := by
  intro a ha
  cases ha

theorem whole_append_terminator : Whole nl (b ++ [nl]) := by
  intro a ha
  rw [List.getLast?_concat] at ha
  exact (Option.some.inj ha).symm

theorem Whole.of_cons (h : Whole nl (a :: b)) : Whole nl b := by
  cases b with
  | nil => exact whole_nil
  | cons c b => exact h

section Lines

variable [DecidableEq α]

@[simp] theorem lines_nil : lines nl [] = [] := rfl

@[simp] theorem lines_cons_self : lines nl (nl :: b) = [] :: lines nl b := if_pos rfl

theorem lines_cons_of_ne (h : a ≠ nl) :
    lines nl (a :: b) = (a :: (lines nl b).headD []) :: (lines nl b).tail := by
  rw [lines, if_neg h]
  cases lines nl b with
  | nil => rfl
  | cons l ls => rfl

theorem lines_ne_nil (h : b ≠ []) : lines nl b ≠ [] := by
  cases b with
  | nil => exact absurd rfl h
  | cons a b =>
    by_cases ha : a = nl
    · subst ha
      simp
    · simp [lines_cons_of_ne ha]

/-- **Appending to a whole text** adds the lines of what is appended. -/
theorem lines_append (h : Whole nl b) : lines nl (b ++ c) = lines nl b ++ lines nl c := by
  induction b with
  | nil => rfl
  | cons a b ih =>
    have hrest := ih h.of_cons
    by_cases ha : a = nl
    · subst ha
      simp [hrest]
    · -- The text goes on after `a`, or it would end in something else.
      have hb : b ≠ [] := by
        rintro rfl
        exact ha (h a rfl)
      have hne : lines nl b ≠ [] := lines_ne_nil hb
      obtain ⟨l, ls, hl⟩ := List.exists_cons_of_ne_nil hne
      rw [List.cons_append, lines_cons_of_ne ha, lines_cons_of_ne ha, hrest, hl]
      rfl

/-- An open line. -/
theorem lines_of_not_mem (h : nl ∉ l) (hl : l ≠ []) : lines nl l = [l] := by
  induction l with
  | nil => exact absurd rfl hl
  | cons a l ih =>
    have ha : a ≠ nl := fun heq => h (heq ▸ List.mem_cons_self)
    rw [lines_cons_of_ne ha]
    cases l with
    | nil => rfl
    | cons b l => rw [ih (fun hm => h (List.mem_cons_of_mem _ hm)) (List.cons_ne_nil b l)]; rfl

/-- One ended line. -/
theorem lines_terminated (h : nl ∉ l) : lines nl (l ++ [nl]) = [l] := by
  induction l with
  | nil => simp
  | cons a l ih =>
    have ha : a ≠ nl := fun heq => h (heq ▸ List.mem_cons_self)
    rw [List.cons_append, lines_cons_of_ne ha, ih fun hm => h (List.mem_cons_of_mem _ hm)]
    rfl

/-- No terminator is in a line. -/
theorem not_mem_of_mem_lines (h : l ∈ lines nl b) : nl ∉ l := by
  induction b generalizing l with
  | nil => cases h
  | cons a b ih =>
    by_cases ha : a = nl
    · rw [ha, lines_cons_self] at h
      rcases List.mem_cons.mp h with rfl | h
      · exact List.not_mem_nil
      · exact ih h
    · rw [lines_cons_of_ne ha] at h
      rcases List.mem_cons.mp h with rfl | h
      · -- The first line goes on with what was the first line before.
        intro hmem
        rcases List.mem_cons.mp hmem with heq | hmem
        · exact ha heq.symm
        · cases hl : lines nl b with
          | nil => simp [hl] at hmem
          | cons m ms =>
            rw [hl] at hmem
            have hm : m ∈ lines nl b := by
              rw [hl]
              exact List.mem_cons_self
            exact ih hm hmem
      · exact ih (List.mem_of_mem_tail h)

/-- What is left of a torn line: nothing, or an open line that is a prefix
of it. -/
theorem prefix_of_mem_lines (h : nl ∉ l) (hp : p <+: l ++ [nl]) {m : List α}
    (hm : m ∈ lines nl p) : m <+: l := by
  rcases List.prefix_concat_iff.mp hp with rfl | hp
  · rw [lines_terminated h, List.mem_singleton] at hm
    exact hm ▸ List.prefix_rfl
  · by_cases hnil : p = []
    · subst hnil
      cases hm
    · rw [lines_of_not_mem (fun hn => h (hp.subset hn)) hnil, List.mem_singleton] at hm
      exact hm ▸ hp

/-! ### Ended lines -/

/-- The lines that have their terminator. -/
def ended (nl : α) (b : List α) : List (List α) := lines nl (b.rdropWhile (· ≠ nl))

/-- What is dropped is an open line. -/
theorem whole_rdropWhile (b : List α) : Whole nl (b.rdropWhile (· ≠ nl)) := by
  intro a ha
  obtain ⟨hne, rfl⟩ := List.mem_getLast?_eq_getLast ha
  simpa using List.rdropWhile_last_not (· ≠ nl) b hne

theorem rdropWhile_whole_append (h : Whole nl b) :
    (b ++ c).rdropWhile (· ≠ nl) = b ++ c.rdropWhile (· ≠ nl) := by
  induction c using List.reverseRecOn with
  | nil =>
    rw [List.append_nil, List.rdropWhile_nil, List.append_nil, List.rdropWhile_eq_self_iff]
    intro hne
    simpa using h _ (List.getLast_mem_getLast? hne)
  | append_singleton c a ih =>
    rw [← List.append_assoc]
    by_cases ha : a = nl
    · subst ha
      rw [List.rdropWhile_concat_neg _ _ _ (by simp), List.rdropWhile_concat_neg _ _ _ (by simp),
        List.append_assoc]
    · rw [List.rdropWhile_concat_pos _ _ _ (by simpa using ha),
        List.rdropWhile_concat_pos _ _ _ (by simpa using ha), ih]

/-- **An ended line stays a line**, whatever is appended. -/
theorem mem_ended_append (h : l ∈ ended nl b) : l ∈ ended nl (b ++ c) := by
  obtain ⟨t, ht⟩ := List.rdropWhile_prefix (· ≠ nl) b
  have hsplit : (b ++ c).rdropWhile (· ≠ nl) =
      b.rdropWhile (· ≠ nl) ++ (t ++ c).rdropWhile (· ≠ nl) := by
    rw [← rdropWhile_whole_append (whole_rdropWhile b), ← List.append_assoc, ht]
  rw [ended, hsplit, lines_append (whole_rdropWhile b)]
  exact List.mem_append_left _ h

theorem mem_lines_of_mem_ended (h : l ∈ ended nl b) : l ∈ lines nl b := by
  obtain ⟨t, ht⟩ := List.rdropWhile_prefix (· ≠ nl) b
  rw [← ht, lines_append (whole_rdropWhile b)]
  exact List.mem_append_left _ h

/-- **Reading from the middle**: what follows the first line there are lines
of the text. -/
theorem tail_lines_drop (b : List α) (k : Nat) :
    (lines nl (b.drop k)).tail <:+ (lines nl b).tail := by
  induction b generalizing k with
  | nil => simp
  | cons a b ih =>
    cases k with
    | zero => exact List.suffix_rfl
    | succ k =>
      have hrest : (lines nl b).tail <:+ (lines nl (a :: b)).tail := by
        by_cases ha : a = nl
        · subst ha
          simpa using List.tail_suffix _
        · rw [lines_cons_of_ne ha]
          exact List.suffix_rfl
      exact (ih k).trans hrest

end Lines

/-! ### Texts from their lines -/

/-- The text of these lines; the last of them is ended or open. -/
def unlines (nl : α) (ends : Bool) : List (List α) → List α
  | [] => []
  | [l] => if ends then l ++ [nl] else l
  | l :: l' :: ls => l ++ nl :: unlines nl ends (l' :: ls)

section Unlines

variable {ends : Bool} {ls ls' : List (List α)}

theorem unlines_cons (h : ls ≠ []) : unlines nl ends (l :: ls) = l ++ nl :: unlines nl ends ls := by
  cases ls with
  | nil => exact absurd rfl h
  | cons l' ls => rfl

theorem unlines_true_cons : unlines nl true (l :: ls) = l ++ nl :: unlines nl true ls := by
  cases ls with
  | nil => simp [unlines]
  | cons l' ls => rfl

theorem unlines_append (h : ls' ≠ []) :
    unlines nl ends (ls ++ ls') = unlines nl true ls ++ unlines nl ends ls' := by
  induction ls with
  | nil => rfl
  | cons l ls ih =>
    rw [List.cons_append, unlines_cons (by simp [h]), ih, unlines_true_cons, List.append_assoc]
    rfl

theorem unlines_true_append :
    unlines nl true (ls ++ ls') = unlines nl true ls ++ unlines nl true ls' := by
  cases ls' with
  | nil => simp [unlines]
  | cons l ls' => exact unlines_append (List.cons_ne_nil l ls')

/-- Lines put together with a terminator between each two. -/
theorem unlines_eq_intercalate (ends : Bool) (h : ls ≠ []) :
    unlines nl ends ls = [nl].intercalate ls ++ if ends then [nl] else [] := by
  induction ls with
  | nil => exact absurd rfl h
  | cons l ls ih =>
    by_cases hls : ls = []
    · subst hls
      cases ends <;> simp [unlines]
    · rw [unlines_cons hls, ih hls, List.intercalate_cons_of_ne_nil hls]
      simp

theorem whole_unlines_true (ls : List (List α)) : Whole nl (unlines nl true ls) := by
  rcases List.eq_nil_or_concat ls with rfl | ⟨init, l, rfl⟩
  · exact whole_nil
  · rw [List.concat_eq_append, unlines_true_append]
    show Whole nl (_ ++ (l ++ [nl]))
    rw [← List.append_assoc]
    exact whole_append_terminator

variable [DecidableEq α]

/-- **A text is made of its lines**, the last one being open when the text is
not whole. -/
theorem unlines_lines (hw : ends = true ↔ Whole nl b) : unlines nl ends (lines nl b) = b := by
  induction b with
  | nil => rfl
  | cons a b ih =>
    by_cases hb : b = []
    · subst hb
      by_cases ha : a = nl
      · have he : ends = true := hw.mpr fun c hc => by rw [← ha]; simpa using hc.symm
        rw [ha, he]
        simp [unlines]
      · have he : ends ≠ true := fun h => ha (hw.mp h a rfl)
        rw [lines_of_not_mem (by simpa using Ne.symm ha) (by simp)]
        simp [unlines, he]
    · have hrest : Whole nl (a :: b) ↔ Whole nl b := by
        unfold Whole
        rw [List.getLast?_cons_of_ne_nil hb]
      have hne : lines nl b ≠ [] := lines_ne_nil hb
      have heq := ih (hw.trans hrest)
      by_cases ha : a = nl
      · rw [ha, lines_cons_self, unlines_cons hne, heq]
        rfl
      · obtain ⟨l, ls, hl⟩ := List.exists_cons_of_ne_nil hne
        rw [hl] at heq
        rw [lines_cons_of_ne ha, hl]
        refine Eq.trans ?_ (congrArg (a :: ·) heq)
        cases ls with
        | nil => cases ends <;> rfl
        | cons l' ls => rfl

/-- The lines of lines that may themselves have terminators in them. -/
theorem lines_unlines_true_append :
    lines nl (unlines nl true (ls ++ ls')) =
      lines nl (unlines nl true ls) ++ lines nl (unlines nl true ls') := by
  rw [unlines_true_append, lines_append (whole_unlines_true ls)]

/-- Lines in which there is no terminator. -/
theorem lines_unlines_true (h : ∀ l ∈ ls, nl ∉ l) : lines nl (unlines nl true ls) = ls := by
  induction ls with
  | nil => rfl
  | cons l ls ih =>
    have hrest := ih fun m hm => h m (List.mem_cons_of_mem _ hm)
    rw [← List.singleton_append, lines_unlines_true_append, hrest]
    show lines nl (l ++ [nl]) ++ ls = _
    rw [lines_terminated (h l List.mem_cons_self)]

theorem lines_unlines (h : ∀ l ∈ ls, nl ∉ l) (hlast : ls.getLast? ≠ some []) :
    lines nl (unlines nl ends ls) = ls := by
  cases ends with
  | true => exact lines_unlines_true h
  | false =>
    rcases List.eq_nil_or_concat ls with rfl | ⟨init, l, rfl⟩
    · rfl
    · rw [List.concat_eq_append] at h hlast ⊢
      have hl : l ≠ [] := fun hnil => hlast (by rw [hnil, List.getLast?_concat])
      rw [unlines_append (by simp), lines_append (whole_unlines_true init),
        lines_unlines_true fun m hm => h m (by simp [hm])]
      show init ++ lines nl l = _
      rw [lines_of_not_mem (h l (by simp)) hl]

omit [DecidableEq α] in
theorem whole_unlines (ends : Bool) (h : ∀ l ∈ ls, nl ∉ l) (hne : ls ≠ [])
    (hlast : ls.getLast? ≠ some []) :
    Whole nl (unlines nl ends ls) ↔ ends = true := by
  cases ends with
  | true => exact ⟨fun _ => rfl, fun _ => whole_unlines_true ls⟩
  | false =>
    refine ⟨fun hw => ?_, fun h => by cases h⟩
    rcases List.eq_nil_or_concat ls with rfl | ⟨init, l, rfl⟩
    · exact absurd rfl hne
    · -- The last character is one of the last line.
      rw [List.concat_eq_append] at h hlast hw
      have hl : l ≠ [] := fun hnil => hlast (by rw [hnil, List.getLast?_concat])
      rw [unlines_append (by simp)] at hw
      have hlastc : (unlines nl true init ++ l).getLast? = some (l.getLast hl) := by
        rw [List.getLast?_append_of_ne_nil _ hl, List.getLast?_eq_some_getLast hl]
      have heq := hw _ hlastc
      exact absurd (heq ▸ List.getLast_mem hl) (h l (by simp))

end Unlines

end ProgramLogic

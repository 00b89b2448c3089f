/-
Bellman/Lib/Rows.lean

Tables as lists of rows, each row found by its key.

A table with a primary key is a list of rows, and the row of a key is the
first one that has it.  Rows are taken out by key, put in under their key,
and rewritten in place.  What each of these does to the row of a key is all
that a program which goes by keys can see:

    erase     the row of the key is gone, the others stay
    put       the row of its key is the new one, the others stay
    map       the row of each key is the image of the old one

A query with a limit returns the beginning of a sorted table
(`mem_take_or`).
-/
import Mathlib.Data.List.Basic

namespace ProgramLogic

namespace Rows

variable {α κ : Type} [DecidableEq κ] {rows : List α}

theorem key_of_find? (key : α → κ) {k : κ} {a : α} (h : rows.find? (key · == k) = some a) :
    a ∈ rows ∧ key a = k :=
  ⟨List.mem_of_find?_eq_some h, by simpa using List.find?_some h⟩

theorem find?_eq_none (key : α → κ) {k : κ} :
    rows.find? (key · == k) = none ↔ ∀ a ∈ rows, key a ≠ k := by
  simp [List.find?_eq_none]

/-- With distinct keys every row is the one that its key finds. -/
theorem find?_of_mem (key : α → κ) (h : (rows.map key).Nodup) {a : α} (ha : a ∈ rows) :
    rows.find? (key · == key a) = some a := by
  induction rows with
  | nil => cases ha
  | cons b rows ih =>
    rw [List.map_cons, List.nodup_cons] at h
    rcases List.mem_cons.mp ha with rfl | ha
    · exact List.find?_cons_of_pos (by simp)
    · have hne : key b ≠ key a := fun he => h.1 (he ▸ List.mem_map_of_mem ha)
      rw [List.find?_cons_of_neg (by simpa using hne)]
      exact ih h.2 ha

theorem find?_erase (key : α → κ) (k k' : κ) :
    (rows.filter fun a => key a ≠ k).find? (key · == k') =
      if k' = k then none else rows.find? (key · == k') := by
  induction rows with
  | nil => simp
  | cons a rows ih =>
    by_cases ha : key a = k
    · by_cases hk : k' = k
      · simp [ha, hk]
      · simpa [ha, hk, Ne.symm hk] using ih
    · by_cases hak : key a = k'
      · simp [← hak, ha]
      · simpa [ha, hak] using ih

theorem find?_append_one (key : α → κ) (a : α) (k : κ) :
    (rows ++ [a]).find? (key · == k) =
      (rows.find? (key · == k)).or (if key a = k then some a else none) := by
  rw [List.find?_append]
  by_cases h : key a = k <;> simp [h]

theorem find?_put (key : α → κ) (a : α) (k : κ) :
    ((rows.filter fun b => key b ≠ key a) ++ [a]).find? (key · == k) =
      if k = key a then some a else rows.find? (key · == k) := by
  rw [find?_append_one, find?_erase]
  by_cases h : k = key a
  · simp [h]
  · simp [h, Ne.symm h]

theorem find?_map {key : α → κ} {f : α → α} (hf : ∀ a, key (f a) = key a) (k : κ) :
    (rows.map f).find? (key · == k) = (rows.find? (key · == k)).map f := by
  have hkey : (key · == k) ∘ f = (key · == k) := by
    funext a
    exact congrArg (· == k) (hf a)
  rw [List.find?_map, hkey]

/-- What a limited query leaves out is not before what it returns. -/
theorem mem_take_or {r : α → α → Prop} {l : List α} (h : l.Pairwise r) {a : α} (ha : a ∈ l)
    (n : Nat) : a ∈ l.take n ∨ ((l.take n).length = n ∧ ∀ b ∈ l.take n, r b a) := by
  rw [← List.take_append_drop n l] at ha h
  rcases List.mem_append.mp ha with ha | ha
  · exact .inl ha
  · right
    constructor
    · have hdrop : 0 < (l.drop n).length := List.length_pos_of_mem ha
      rw [List.length_drop] at hdrop
      rw [List.length_take]
      omega
    · intro b hb
      exact (List.pairwise_append.mp h).2.2 b hb a ha

end Rows

end ProgramLogic

/-
Bellman/Lib/Tidy.lean

Answers that are sorted, and of which repeated entries are dropped.

A list is put in order, and of each stretch of entries that count as the same
the first one stays:

    tidy r same l = (l.insertionSort r).destutter (¬ same · ·)

When only equal entries count as the same, and entries that the order does
not tell apart do, nothing but repetitions is lost (`mem_tidy`), and the
answer depends on what is in the list alone (`tidy_eq`).
-/
import Mathlib.Data.List.Destutter
import Mathlib.Data.List.Sort

namespace ProgramLogic

universe u

variable {α : Type u}

section Destutter

variable {R : α → α → Prop} [DecidableRel R] {a x : α} {l : List α}

/-- Only repetitions are dropped. -/
theorem mem_destutter' (h : ∀ b ∈ a :: l, ∀ c ∈ a :: l, ¬R b c → b = c) :
    x ∈ l.destutter' R a ↔ x ∈ a :: l := by
  refine ⟨fun hx => (List.destutter'_sublist l R a).subset hx, fun hx => ?_⟩
  induction l generalizing a with
  | nil => exact hx
  | cons b l ih =>
    have hsub : ∀ c ∈ b :: l, c ∈ a :: b :: l := fun c hc => List.mem_cons_of_mem a hc
    by_cases hab : R a b
    · rw [List.destutter'_cons_pos _ hab]
      rcases List.mem_cons.mp hx with rfl | hx
      · exact List.mem_cons_self
      · exact List.mem_cons_of_mem a (ih (fun c hc d hd => h c (hsub c hc) d (hsub d hd)) hx)
    · rw [List.destutter'_cons_neg _ hab]
      obtain rfl := h a List.mem_cons_self b (hsub b List.mem_cons_self) hab
      refine ih (fun c hc d hd => h c (hsub c hc) d (hsub d hd)) ?_
      rcases List.mem_cons.mp hx with rfl | hx
      · exact List.mem_cons_self
      · exact hx

theorem mem_destutter (h : ∀ b ∈ l, ∀ c ∈ l, ¬R b c → b = c) : x ∈ l.destutter R ↔ x ∈ l := by
  cases l with
  | nil => exact Iff.rfl
  | cons a l => exact mem_destutter' h

end Destutter

/-- The list in order, and of each stretch of entries that count as the same
the first one. -/
def tidy (r same : α → α → Prop) [DecidableRel r] [DecidableRel same] (l : List α) : List α :=
  (l.insertionSort r).destutter fun a b => ¬same a b

section

variable {r same : α → α → Prop} [DecidableRel r] [DecidableRel same] {l l' : List α} {x : α}

theorem mem_tidy (h : ∀ a ∈ l, ∀ b ∈ l, same a b → a = b) : x ∈ tidy r same l ↔ x ∈ l := by
  have hmem : ∀ a, a ∈ l.insertionSort r ↔ a ∈ l := fun a => List.mem_insertionSort r
  rw [tidy, mem_destutter, hmem]
  intro a ha b hb hab
  exact h a ((hmem a).mp ha) b ((hmem b).mp hb) (not_not.mp hab)

omit [DecidableRel r] [DecidableRel same] in
theorem isChain_and (h : l.IsChain r) (h' : l.IsChain same) :
    l.IsChain fun a b => r a b ∧ same a b := by
  induction l with
  | nil => exact List.isChain_nil
  | cons a l ih =>
    cases l with
    | nil => exact List.isChain_singleton a
    | cons b l =>
      rw [List.isChain_cons_cons] at h h' ⊢
      exact ⟨⟨h.1, h'.1⟩, ih h.2 h'.2⟩

/-- What a tidied list holds is strictly ordered. -/
theorem pairwise_tidy [Std.Total r] [IsTrans α r]
    (h : ∀ a ∈ l, ∀ b ∈ l, r a b → r b a → same a b) :
    (tidy r same l).Pairwise fun a b => r a b ∧ ¬r b a := by
  have hsub : (tidy r same l).Sublist (l.insertionSort r) := List.destutter_sublist _ _
  have hmem : ∀ a ∈ tidy r same l, a ∈ l := fun a ha =>
    (List.mem_insertionSort r).mp (hsub.subset ha)
  have hsorted : (tidy r same l).IsChain r :=
    ((List.pairwise_insertionSort r l).sublist hsub).isChain
  have hstep : (tidy r same l).IsChain fun a b => ¬same a b := List.isChain_destutter _ _
  have hstrict : (tidy r same l).IsChain fun a b => r a b ∧ ¬r b a := by
    refine (isChain_and hsorted hstep).imp_of_mem_imp fun a b ha hb hab => ⟨hab.1, fun hba => ?_⟩
    exact hab.2 (h a (hmem a ha) b (hmem b hb) hab.1 hba)
  have : IsTrans α fun a b => r a b ∧ ¬r b a :=
    ⟨fun a b c hab hbc => ⟨trans_of r hab.1 hbc.1, fun hca => hab.2 (trans_of r hbc.1 hca)⟩⟩
  exact List.isChain_iff_pairwise.mp hstrict

/-- **A tidied list** depends on what is in the list alone. -/
theorem tidy_eq [Std.Total r] [IsTrans α r] (hsame : ∀ a ∈ l, ∀ b ∈ l, same a b → a = b)
    (h : ∀ a ∈ l, ∀ b ∈ l, r a b → r b a → same a b) (hmem : ∀ a, a ∈ l ↔ a ∈ l') :
    tidy r same l = tidy r same l' := by
  have hl : ∀ a ∈ l', a ∈ l := fun a => (hmem a).mpr
  have hirrefl : Std.Irrefl fun a b => r a b ∧ ¬r b a := ⟨fun a ha => ha.2 ha.1⟩
  have hantisymm : Std.Antisymm fun a b => r a b ∧ ¬r b a :=
    ⟨fun a b hab hba => (hab.2 hba.1).elim⟩
  refine List.Pairwise.eq_of_mem_iff (pairwise_tidy h)
    (pairwise_tidy fun a ha b hb => h a (hl a ha) b (hl b hb)) fun a => ?_
  rw [mem_tidy hsame, mem_tidy fun a ha b hb => hsame a (hl a ha) b (hl b hb), hmem]

end

end ProgramLogic

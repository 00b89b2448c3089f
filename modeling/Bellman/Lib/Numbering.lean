/-
Bellman/Lib/Numbering.lean

Numbers given out as one more than the greatest in use.

A table holds numbered rows.  A new row gets the number after the greatest
one in the table, and rows may be removed; nothing else remembers which
numbers were given out.  `Gives used used' given` is one such step, from
the numbers in use before to those in use after.

Main results: while no step lowers the greatest number in use, every number
given out before is below the next one (`le_top_of_steady`), and the numbers
given out in a run are increasing exactly when no number is given out after
the greatest one in use was lowered (`increasing_iff`).
-/
import Bellman.Lib.System

namespace ProgramLogic

universe u v

namespace Numbering

/-- The greatest number in use, 0 when there is none. -/
def top (used : List Nat) : Nat := used.foldl max 0

theorem le_foldl_max (used : List Nat) (a : Nat) :
    a ≤ used.foldl max a ∧ ∀ n ∈ used, n ≤ used.foldl max a := by
  induction used generalizing a with
  | nil => simp
  | cons m used ih =>
    obtain ⟨hinit, hmem⟩ := ih (max a m)
    rw [List.foldl_cons]
    refine ⟨by omega, fun n hn => ?_⟩
    rcases List.mem_cons.mp hn with rfl | hn
    · omega
    · exact hmem n hn

theorem foldl_max_le {used : List Nat} {a b : Nat} (ha : a ≤ b) (h : ∀ n ∈ used, n ≤ b) :
    used.foldl max a ≤ b := by
  induction used generalizing a with
  | nil => exact ha
  | cons m used ih =>
    rw [List.foldl_cons]
    apply ih
    · exact Nat.max_le.mpr ⟨ha, h m List.mem_cons_self⟩
    · exact fun n hn => h n (List.mem_cons_of_mem m hn)

theorem le_top {used : List Nat} {n : Nat} (h : n ∈ used) : n ≤ top used :=
  (le_foldl_max used 0).2 n h

theorem top_le {used : List Nat} {b : Nat} (h : ∀ n ∈ used, n ≤ b) : top used ≤ b :=
  foldl_max_le (Nat.zero_le b) h

/-- A step on the numbers in use: some are dropped, or the next is given
out. -/
inductive Gives (used used' : List Nat) : List Nat → Prop
  | none (h : ∀ n ∈ used', n ∈ used) : Gives used used' []
  | next (h : ∀ n, n ∈ used' ↔ n ∈ used ∨ n = top used + 1) : Gives used used' [top used + 1]

section

variable {used used' given : List Nat}

/-- No step raises the greatest number in use by more than one, and only
by giving it out. -/
theorem Gives.top_le (h : Gives used used' given) {b : Nat} (hb : top used ≤ b)
    (hg : ∀ n ∈ given, n ≤ b) : top used' ≤ b := by
  apply Numbering.top_le
  intro n hn
  cases h with
  | none h => exact Nat.le_trans (le_top (h n hn)) hb
  | next h =>
    rcases (h n).mp hn with hn | rfl
    · exact Nat.le_trans (le_top hn) hb
    · exact hg _ List.mem_cons_self

theorem Gives.given_le (h : Gives used used' given) : ∀ n ∈ given, n ≤ top used' := by
  intro n hn
  cases h with
  | none h => exact (List.not_mem_nil hn).elim
  | next h =>
    obtain rfl := List.mem_singleton.mp hn
    exact le_top ((h _).mpr (.inr rfl))

end

/-! ### Runs -/

variable {σ : Type u} {ι : Type v} {S : System σ ι} {s₀ s : σ}
  {tr : List (System.Event σ ι)} (used : σ → List Nat)
  (given : System.Event σ ι → List Nat)

/-- The step lowers the greatest number in use. -/
def Lowers (e : System.Event σ ι) : Prop := top (used e.post) < top (used e.pre)

/-- Every number given out is greater than all that were given out before. -/
def Increasing (tr : List (System.Event σ ι)) : Prop :=
  ∀ a e b, tr = a ++ e :: b → ∀ n ∈ given e, ∀ d ∈ a, ∀ m ∈ given d, m < n

variable {used given}

/-- Every number in use was given out, or was there from the start. -/
theorem given_of_used (h : S.Run s₀ tr s)
    (hstep : ∀ e ∈ tr, Gives (used e.pre) (used e.post) (given e)) {n : Nat}
    (hn : n ∈ used s) : n ∈ used s₀ ∨ ∃ e ∈ tr, n ∈ given e := by
  induction h with
  | nil => exact .inl hn
  | @snoc tr s i t hrun hs ih =>
    have hlast := hstep ⟨s, i, t⟩ (by simp)
    have hbefore : n ∈ used s → n ∈ used s₀ ∨ ∃ e ∈ tr ++ [⟨s, i, t⟩], n ∈ given e := by
      intro hs
      rcases ih (fun e he => hstep e (List.mem_append_left _ he)) hs with h0 | ⟨e, he, hg⟩
      · exact .inl h0
      · exact .inr ⟨e, List.mem_append_left _ he, hg⟩
    generalize hg : given ⟨s, i, t⟩ = g at hlast
    cases hlast with
    | none h => exact hbefore (h n hn)
    | next h =>
      rcases (h n).mp hn with hn | hn
      · exact hbefore hn
      · refine .inr ⟨⟨s, i, t⟩, by simp, ?_⟩
        rw [hg, hn]
        exact List.mem_cons_self

/-- While no step lowers the greatest number in use, it is the greatest ever
given out. -/
theorem le_top_of_steady (h : S.Run s₀ tr s)
    (hstep : ∀ e ∈ tr, Gives (used e.pre) (used e.post) (given e))
    (hsteady : ∀ e ∈ tr, ¬Lowers used e) : ∀ e ∈ tr, ∀ n ∈ given e, n ≤ top (used s) := by
  induction h with
  | nil => exact fun e he => (List.not_mem_nil he).elim
  | @snoc tr s i t hrun hs ih =>
    intro e he n hn
    rcases List.mem_append.mp he with he | he
    · have hle := ih (fun e he => hstep e (List.mem_append_left _ he))
        (fun e he => hsteady e (List.mem_append_left _ he)) e he n hn
      have hkept : ¬top (used t) < top (used s) := hsteady ⟨s, i, t⟩ (by simp)
      omega
    · obtain rfl := List.mem_singleton.mp he
      exact (hstep _ (by simp)).given_le n hn

/-- Below a bound that no number given out passes, the greatest number in
use stays. -/
theorem top_le_of_run (h : S.Run s₀ tr s)
    (hstep : ∀ e ∈ tr, Gives (used e.pre) (used e.post) (given e)) {b : Nat}
    (h0 : top (used s₀) < b) (hg : ∀ e ∈ tr, ∀ n ∈ given e, b < n) : top (used s) < b := by
  refine h.invariant (I := fun s => top (used s) < b)
    (G := fun e => Gives (used e.pre) (used e.post) (given e) ∧ ∀ n ∈ given e, b < n)
    (fun e he => ⟨hstep e he, hg e he⟩) h0 ?_
  rintro s i t - ⟨hgives, hb⟩ hlt
  generalize given ⟨s, i, t⟩ = g at hgives hb
  cases hgives with
  | none h => exact Nat.lt_of_le_of_lt (top_le fun n hn => le_top (h n hn)) hlt
  | next h =>
    -- The number after the greatest would not pass the bound.
    have hnext := hb _ List.mem_cons_self
    simp only at hlt hnext
    omega

/-- **The numbers given out are increasing exactly when none is given out
after the greatest one in use was lowered.** -/
theorem increasing_iff (h : S.Run s₀ tr s) (h0 : used s₀ = [])
    (hstep : ∀ e ∈ tr, Gives (used e.pre) (used e.post) (given e)) :
    Increasing given tr ↔
      ∀ a d b e c, tr = a ++ d :: (b ++ e :: c) → Lowers used d → given e = [] := by
  constructor
  · rintro hinc a d b e c rfl hlow
    obtain ⟨hrun, hd, hrest⟩ := h.split
    obtain ⟨hb, -, -⟩ := hrest.split
    -- The greatest number before `d` was given out, and so bounds the rest.
    have hgiven : ∀ n ∈ used d.pre, ∃ o ∈ a, n ∈ given o := by
      intro n hn
      rcases given_of_used hrun (fun o ho => hstep o (List.mem_append_left _ ho)) hn with hn | ho
      · rw [h0] at hn
        exact (List.not_mem_nil hn).elim
      · exact ho
    have hpass : ∀ p o q, a ++ d :: (b ++ e :: c) = p ++ o :: q → (∀ g ∈ a, g ∈ p) →
        ∀ n ∈ given o, top (used d.pre) < n := by
      intro p o q heq hp n hn
      have hall : ∀ m ∈ used d.pre, m < n := by
        intro m hm
        obtain ⟨g, hg, hgm⟩ := hgiven m hm
        exact hinc p o q heq n hn g (hp g hg) m hgm
      by_contra hle
      have hpos : 0 < top (used d.pre) := by
        unfold Lowers at hlow
        omega
      have hpred : top (used d.pre) ≤ top (used d.pre) - 1 :=
        top_le fun m hm => by
          have := hall m hm
          omega
      omega
    have hbnd : top (used e.pre) < top (used d.pre) := by
      refine top_le_of_run hb (fun o ho => hstep o (by simp [ho])) hlow fun o ho n hn => ?_
      obtain ⟨b₁, b₂, rfl⟩ := List.append_of_mem ho
      refine hpass (a ++ d :: b₁) o (b₂ ++ e :: c) (by simp) (fun g hg => ?_) n hn
      exact List.mem_append_left _ hg
    have hlast := hpass (a ++ d :: b) e c (by simp) fun g hg => List.mem_append_left _ hg
    have hgives := hstep e (by simp)
    generalize given e = g at hlast hgives ⊢
    cases hgives with
    | none _ => rfl
    | next _ =>
      have := hlast _ List.mem_cons_self
      omega
  · rintro hsafe a e b rfl n hn d hd m hm
    obtain ⟨hrun, -, -⟩ := h.split
    have hsteady : ∀ d ∈ a, ¬Lowers used d := by
      intro d hd hlow
      obtain ⟨a₁, a₂, rfl⟩ := List.append_of_mem hd
      have hnil := hsafe a₁ d a₂ e b (by simp) hlow
      rw [hnil] at hn
      exact List.not_mem_nil hn
    have hle := le_top_of_steady hrun (fun o ho => hstep o (List.mem_append_left _ ho)) hsteady
      d hd m hm
    have hgives := hstep e (by simp)
    generalize given e = g at hgives hn
    cases hgives with
    | none _ => exact (List.not_mem_nil hn).elim
    | next _ =>
      obtain rfl := List.mem_singleton.mp hn
      omega

end Numbering

end ProgramLogic

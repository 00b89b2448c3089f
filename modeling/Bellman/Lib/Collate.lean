/-
Bellman/Lib/Collate.lean

Blocks that are read one after the other, in an order that is found by
sorting their labels.

Sorting forgets in which order the blocks were written.  What is read is
what was written if the labels were given out in ascending order; and when
no block is empty and nothing is written twice, only then:

    (labels.insertionSort r).flatMap block = labels.flatMap block
      ↔ labels.Pairwise r
-/
import Mathlib.Data.List.Nodup
import Mathlib.Data.List.Pairwise
import Mathlib.Data.List.Sort

namespace ProgramLogic

universe u v

variable {ι : Type u} {α : Type v} {block : ι → List α} {l l' : List ι}

/-- Different blocks have nothing in common. -/
theorem disjoint_blocks (hnd : (l.flatMap block).Nodup) {i k : ι} (hi : i ∈ l) (hk : k ∈ l)
    (hne : i ≠ k) : List.Disjoint (block i) (block k) := by
  have hpair := (List.nodup_flatMap.mp hnd).2
  have hsymm : Std.Symm (Function.onFun List.Disjoint block) :=
    ⟨fun _ _ h => List.disjoint_comm.mp h⟩
  exact hpair.forall hi hk hne

/-- Blocks that are read the same are in the same order. -/
theorem eq_of_flatMap_eq (hne : ∀ i ∈ l, block i ≠ []) (hnd : (l.flatMap block).Nodup)
    {t t' : List ι} (ht : ∀ i ∈ t, i ∈ l) (ht' : ∀ i ∈ t', i ∈ l) (hlen : t'.length = t.length)
    (h : t'.flatMap block = t.flatMap block) : t' = t := by
  induction t' generalizing t with
  | nil => exact (List.length_eq_zero_iff.mp hlen.symm).symm
  | cons a t' ih =>
    cases t with
    | nil => cases hlen
    | cons b t =>
      rw [List.flatMap_cons, List.flatMap_cons] at h
      have ha := ht' a List.mem_cons_self
      have hb := ht b List.mem_cons_self
      obtain ⟨y, ys, hy⟩ := List.exists_cons_of_ne_nil (hne a ha)
      obtain ⟨z, zs, hz⟩ := List.exists_cons_of_ne_nil (hne b hb)
      -- What is read first is in both of the first blocks.
      obtain rfl : a = b := by
        by_contra hab
        have hhead : y = z := by
          rw [hy, hz] at h
          exact (List.cons.inj h).1
        refine disjoint_blocks hnd ha hb hab (a := y) ?_ ?_
        · rw [hy]
          exact List.mem_cons_self
        · rw [hz, hhead]
          exact List.mem_cons_self
      rw [ih (fun i hi => ht i (List.mem_cons_of_mem a hi))
        (fun i hi => ht' i (List.mem_cons_of_mem a hi)) (Nat.succ.inj hlen)
        (List.append_cancel_left h)]

section Sorted

variable {r : ι → ι → Prop} [DecidableRel r] [Std.Total r] [IsTrans ι r] [Std.Antisymm r]

theorem insertionSort_eq_iff (hp : l'.Perm l) : l'.insertionSort r = l ↔ l.Pairwise r := by
  constructor
  · rintro rfl
    exact List.pairwise_insertionSort r l'
  · intro h
    exact List.Perm.eq_of_pairwise' (List.pairwise_insertionSort r l') h
      ((List.perm_insertionSort r l').trans hp)

/-- **Collated blocks** are read as they were written if and only if their
labels ascend. -/
theorem flatMap_insertionSort_iff (hp : l'.Perm l) (hne : ∀ i ∈ l, block i ≠ [])
    (hnd : (l.flatMap block).Nodup) :
    (l'.insertionSort r).flatMap block = l.flatMap block ↔ l.Pairwise r := by
  have hsort := (List.perm_insertionSort r l').trans hp
  rw [← insertionSort_eq_iff hp]
  constructor
  · exact eq_of_flatMap_eq hne hnd (fun _ hi => hi) (fun _ hi => hsort.subset hi) hsort.length_eq
  · intro h
    rw [h]

end Sorted

end ProgramLogic

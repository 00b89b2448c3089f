/-
Bellman/Lib/Tally.lean

What the entries of a finite map add up to.

`tally f d` is the sum of `f k v` over the entries of an association list.
It follows the two operations of the map:

    tally f (d.insert k v) = f k v + tally f (d.erase k)
    tally f d              = f k v + tally f (d.erase k)    where d k = v

so an entry that moves to another key, and counts there as it did before,
leaves the sum as it is; so does any entry that does not count.
-/
import Mathlib.Algebra.BigOperators.Group.List.Basic
import Mathlib.Data.List.AList
import Mathlib.Data.Finmap

namespace ProgramLogic

universe u v w

variable {α : Type u} [DecidableEq α] {β : α → Type v} {M : Type w} [AddCommMonoid M]

/-- The sum over the entries. -/
def tally (f : (a : α) → β a → M) (d : AList β) : M := (d.entries.map fun e => f e.1 e.2).sum

variable {f : (a : α) → β a → M} {d : AList β} {a : α} {b : β a}

theorem tally_insert : tally f (d.insert a b) = f a b + tally f (d.erase a) := by
  simp [tally, AList.erase]

/-- An entry is counted once. -/
theorem tally_of_lookup (h : d.lookup a = some b) : tally f d = f a b + tally f (d.erase a) := by
  have hkey : a ∈ d.entries.keys := AList.lookup_isSome.mp (h ▸ rfl)
  obtain ⟨b', l₁, l₂, -, hentries, herase⟩ := List.exists_of_kerase hkey
  have hmem : (⟨a, b'⟩ : Sigma β) ∈ d.entries := by
    rw [hentries]
    exact List.mem_append_right _ List.mem_cons_self
  have hb : b' = b := Option.some.inj ((AList.mem_lookup_iff.mpr hmem).symm.trans h)
  subst hb
  show (d.entries.map fun e => f e.1 e.2).sum = f a b' + ((d.entries.kerase a).map _).sum
  rw [herase, hentries, List.map_append, List.map_append, List.map_cons, List.sum_append,
    List.sum_append, List.sum_cons, add_left_comm]

theorem tally_erase_of_lookup_eq_none (h : d.lookup a = none) :
    tally f (d.erase a) = tally f d := by
  have hkey : a ∉ d.entries.keys := AList.lookup_eq_none.mp h
  show ((d.entries.kerase a).map _).sum = _
  rw [List.kerase_of_notMem_keys hkey]
  rfl

/-- Erasing an entry that does not count. -/
theorem tally_erase_of_zero (h : ∀ b, f a b = 0) : tally f (d.erase a) = tally f d := by
  cases hd : d.lookup a with
  | none => exact tally_erase_of_lookup_eq_none hd
  | some b => rw [tally_of_lookup hd, h b, zero_add]

theorem tally_insert_of_zero (h : ∀ b, f a b = 0) : tally f (d.insert a b) = tally f d := by
  rw [tally_insert, h b, zero_add, tally_erase_of_zero h]

end ProgramLogic

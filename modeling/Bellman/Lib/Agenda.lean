/-
Bellman/Lib/Agenda.lean

Agendas: what is to be looked at, each item with an instant.

An agenda is a bag of items, of which the one with the least key is taken
next.  A priority queue keeps equal keys in no order that a program may rely
on, so an agenda comes with a `Layout`, any rearrangement of the bag that is
made before an item is taken.

The use of an agenda is that nothing is forgotten: `Noted key p l k` says
that an item with `p` is there with a key of at most `k`.  An item may be
noted too early, and more than once; both are harmless.

Main results: what is taken has the least key (`pop_le`), the rest is the bag
without it (`pop_perm`), and an item that was noted stays noted unless it is
the one that was taken (`Noted.of_pop`).
-/
import Mathlib.Data.List.MinMax

namespace ProgramLogic

variable {α κ : Type}

/-- An item with `p` is on the agenda, for `k` or earlier. -/
def Noted [LE κ] (key : α → κ) (p : α → Prop) (l : List α) (k : κ) : Prop :=
  ∃ a ∈ l, p a ∧ key a ≤ k

section Noted

variable [Preorder κ] {key : α → κ} {p : α → Prop} {l l' : List α} {k k' : κ} {e : α}

theorem Noted.mono (h : Noted key p l k) (hl : ∀ a ∈ l, a ∈ l') (hk : k ≤ k') :
    Noted key p l' k' := by
  obtain ⟨a, ha, hp, hle⟩ := h
  exact ⟨a, hl a ha, hp, hle.trans hk⟩

theorem noted_cons (hp : p e) (hk : key e ≤ k) : Noted key p (e :: l) k :=
  ⟨e, List.mem_cons_self .., hp, hk⟩

end Noted

/-- Any order of the items of a bag. -/
structure Layout (α : Type) where
  arrange : List α → List α
  perm : ∀ l, (arrange l).Perm l

/-- The order in which the items were put in. -/
def Layout.asPut : Layout α := ⟨id, fun l => .refl l⟩

section Pop

variable [LinearOrder κ] [DecidableEq α]

/-- Take an item with the least key. -/
def pop (layout : Layout α) (key : α → κ) (l : List α) : Option (α × List α) :=
  ((layout.arrange l).argmin key).map fun e => (e, l.erase e)

variable {layout : Layout α} {key : α → κ} {l l' : List α} {e : α}

theorem pop_eq_none_iff : pop layout key l = none ↔ l = [] := by
  unfold pop
  rw [Option.map_eq_none_iff, List.argmin_eq_none]
  constructor
  · intro h
    have hp := layout.perm l
    rw [h] at hp
    exact hp.symm.eq_nil
  · rintro rfl
    exact (layout.perm []).eq_nil

theorem mem_of_pop (h : pop layout key l = some (e, l')) : e ∈ l := by
  obtain ⟨a, ha, he⟩ := Option.map_eq_some_iff.mp h
  cases he
  exact (layout.perm l).mem_iff.mp (List.argmin_mem ha)

theorem pop_perm (h : pop layout key l = some (e, l')) : l.Perm (e :: l') := by
  have he := mem_of_pop h
  obtain ⟨a, _, hae⟩ := Option.map_eq_some_iff.mp h
  cases hae
  exact List.perm_cons_erase he

theorem pop_le (h : pop layout key l = some (e, l')) : ∀ a ∈ l, key e ≤ key a := by
  obtain ⟨b, hb, hbe⟩ := Option.map_eq_some_iff.mp h
  cases hbe
  intro a ha
  exact List.le_of_mem_argmin ((layout.perm l).mem_iff.mpr ha) hb

/-- What is noted stays noted, or is what was taken. -/
theorem Noted.of_pop {κ' : Type} [LE κ'] {p : α → Prop} {at_ : α → κ'} {k : κ'}
    (h : Noted at_ p l k) (hpop : pop layout key l = some (e, l')) :
    Noted at_ p l' k ∨ p e ∧ at_ e ≤ k := by
  obtain ⟨a, ha, hp, hle⟩ := h
  rcases List.mem_cons.mp ((pop_perm hpop).mem_iff.mp ha) with rfl | ha
  · exact .inr ⟨hp, hle⟩
  · exact .inl ⟨a, ha, hp, hle⟩

end Pop

end ProgramLogic

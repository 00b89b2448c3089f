/-
Bellman/Lib/Thread.lean

Programs that run one call at a time, and their interleavings.

A `Thread E α` is a program over the calls `E`: it is done, or it makes a
call and goes on with the answer.  What a call does is not said here; a
`Machine` says it, given the world and the *luck* of the moment (whether an
operation fails, what a clock shows), and a call that cannot be answered
yet blocks.  In a pool of threads any one of them makes the next call.

Ways to speak of a program's calls:

* `t.Calls A P` — every call that `t` may still make satisfies `P`, as long
  as the answers it gets satisfy `A`;
* `t.Until P Q` — its calls satisfy `P` up to one that turns it, after which
  it is as `Q` says;
* `Pool.next_calls` — in a pool whose threads are of that kind, the call
  made next satisfies `P`, and the pool stays of that kind.

An invariant that every call satisfying `P` keeps is thus kept by every
interleaving, and nothing is said about where in its program a thread is.
-/
import Mathlib.Data.List.Basic

namespace ProgramLogic

universe u u' v

/-- A program over the calls `E`. -/
inductive Thread (E : Type → Type u) (α : Type) : Type (max 1 u) where
  | ret (a : α)
  | call {β : Type} (e : E β) (k : β → Thread E α)

namespace Thread

variable {E : Type → Type u} {α β : Type}

/-- One call, whose answer is the result. -/
def perform (e : E α) : Thread E α := call e ret

def bind : Thread E α → (α → Thread E β) → Thread E β
  | ret a, f => f a
  | call e k, f => call e fun b => (k b).bind f

instance : Monad (Thread E) where
  pure := ret
  bind := bind

/-- Do this for each element, in order. -/
def forEach {γ : Type} (f : γ → Thread E Unit) : List γ → Thread E Unit
  | [] => ret ()
  | c :: cs => (f c).bind fun _ => forEach f cs

/-- Threads that keep to other calls. -/
def lift {E' : Type → Type u'} (g : ∀ {β : Type}, E β → E' β) : Thread E α → Thread E' α
  | ret a => ret a
  | call e k => call (g e) fun b => (k b).lift g

/-- Every call that the program may make, while the answers satisfy `A`,
satisfies `P`. -/
def Calls (A : ∀ {β : Type}, E β → β → Prop) (P : ∀ {β : Type}, E β → Prop) :
    Thread E α → Prop
  | ret _ => True
  | call e k => P e ∧ ∀ b, A e b → (k b).Calls A P

variable {A : ∀ {β : Type}, E β → β → Prop} {P : ∀ {β : Type}, E β → Prop}

@[simp] theorem calls_ret (a : α) : (ret a : Thread E α).Calls A P := trivial

@[simp] theorem calls_pure (a : α) : (pure a : Thread E α).Calls A P := trivial

@[simp] theorem calls_perform {e : E α} : (perform e).Calls A P ↔ P e :=
  ⟨fun h => h.1, fun h => ⟨h, fun _ _ => trivial⟩⟩

/-- Sequencing: the results of the first part are not known. -/
theorem Calls.bind {m : Thread E α} {f : α → Thread E β} (hm : m.Calls A P)
    (hf : ∀ a, (f a).Calls A P) : (m >>= f).Calls A P := by
  induction m with
  | ret a => exact hf a
  | call e k ih => exact ⟨hm.1, fun b hb => ih b (hm.2 b hb)⟩

/-- Sequencing after one call: the answer is known to satisfy `A`. -/
theorem Calls.perform_bind {e : E α} {f : α → Thread E β} (he : P e)
    (hf : ∀ a, A e a → (f a).Calls A P) : (perform e >>= f).Calls A P :=
  ⟨he, hf⟩

theorem Calls.ite {c : Prop} [Decidable c] {m m' : Thread E α} (hm : c → m.Calls A P)
    (hm' : ¬c → m'.Calls A P) : (if c then m else m').Calls A P := by
  split
  · next h => exact hm h
  · next h => exact hm' h

theorem Calls.forEach {γ : Type} {f : γ → Thread E Unit} {cs : List γ}
    (hf : ∀ c ∈ cs, (f c).Calls A P) : (Thread.forEach f cs).Calls A P := by
  induction cs with
  | nil => trivial
  | cons c cs ih =>
    exact (hf c List.mem_cons_self).bind fun _ =>
      ih fun d hd => hf d (List.mem_cons_of_mem c hd)

theorem Calls.mono {m : Thread E α} {A' : ∀ {β : Type}, E β → β → Prop}
    {P' : ∀ {β : Type}, E β → Prop} (h : m.Calls A P)
    (hA : ∀ {β : Type} (e : E β) b, A' e b → A e b) (hP : ∀ {β : Type} (e : E β), P e → P' e) :
    m.Calls A' P' := by
  induction m with
  | ret a => trivial
  | call e k ih => exact ⟨hP e h.1, fun b hb => ih b (h.2 b (hA e b hb))⟩

/-- Lifted calls that all satisfy `P`. -/
theorem calls_lift {E' : Type → Type u'} {A' : ∀ {β : Type}, E' β → β → Prop}
    {P' : ∀ {β : Type}, E' β → Prop} {g : ∀ {β : Type}, E β → E' β}
    (hg : ∀ {β : Type} (e : E β), P' (g e)) (m : Thread E α) : (m.lift g).Calls A' P' := by
  induction m with
  | ret a => trivial
  | call e k ih => exact ⟨hg e, fun b _ => ih b⟩

/-- The calls satisfy `P` until one turns the program: what is left of it
then, after the answer, satisfies `Q`. -/
inductive Until (P : ∀ {β : Type}, E β → Prop)
    (Q : ∀ {β : Type}, E β → β → Thread E α → Prop) : Thread E α → Prop
  | ret (a : α) : Until (@P) (@Q) (ret a)
  | wait {β : Type} {e : E β} {k : β → Thread E α} (he : P e) (h : ∀ b, Until (@P) (@Q) (k b)) :
      Until (@P) (@Q) (call e k)
  | turn {β : Type} {e : E β} {k : β → Thread E α} (h : ∀ b, Q e b (k b)) :
      Until (@P) (@Q) (call e k)

variable {Q : ∀ {β : Type}, E β → β → Thread E α → Prop}

/-- A program that is never turned. -/
theorem Until.of_calls {m : Thread E α} (h : m.Calls (fun _ _ => True) P) : m.Until P Q := by
  induction m with
  | ret a => exact .ret a
  | call e k ih => exact .wait h.1 fun b => ih b (h.2 b trivial)

theorem Until.perform_bind {e : E β} {f : β → Thread E α} (he : P e)
    (hf : ∀ b, (f b).Until P Q) : (perform e >>= f).Until P Q :=
  .wait he hf

theorem Until.turn_bind {e : E β} {f : β → Thread E α} (hf : ∀ b, Q e b (f b)) :
    (perform e >>= f).Until P Q :=
  .turn hf

theorem Until.ite {c : Prop} [Decidable c] {m m' : Thread E α} (hm : c → m.Until P Q)
    (hm' : ¬c → m'.Until P Q) : (if c then m else m').Until P Q := by
  split
  · next h => exact hm h
  · next h => exact hm' h

end Thread

/-- How a world answers calls; no answer means that the caller waits. -/
structure Machine (E : Type → Type u) (W : Type v) (L : Type) where
  answer : ∀ {β : Type}, E β → L → W → Option (β × W)

namespace Pool

variable {E : Type → Type u} {W : Type v} {L : Type} {M : Machine E W L}
  {A : ∀ {β : Type}, E β → β → Prop} {P : ∀ {β : Type}, E β → Prop}

/-- Thread number `i` makes its next call. -/
def next (M : Machine E W L) (w : W) (ts : List (Thread E Unit)) (i : Nat) (l : L) :
    Option (W × List (Thread E Unit)) :=
  match ts[i]? with
  | some (.call e k) => (M.answer e l w).map fun a => (a.2, ts.set i (k a.1))
  | _ => none

/-- The call that was made, and its answer. -/
theorem next_eq_some {w w' : W} {ts ts' : List (Thread E Unit)} {i : Nat} {l : L}
    (h : next M w ts i l = some (w', ts')) :
    ∃ (β : Type) (e : E β) (k : β → Thread E Unit) (b : β), ts[i]? = some (.call e k) ∧
      M.answer e l w = some (b, w') ∧ ts' = ts.set i (k b) := by
  unfold next at h
  split at h
  · next β e k hi =>
    obtain ⟨⟨b, w''⟩, ha, heq⟩ := Option.map_eq_some_iff.mp h
    obtain ⟨rfl, rfl⟩ := Prod.mk.inj heq
    exact ⟨β, e, k, b, hi, ha, rfl⟩
  · cases h

/-- The call made next is of the kind that all threads keep to, and so are
the calls that are left. -/
theorem next_calls {w w' : W} {ts ts' : List (Thread E Unit)} {i : Nat} {l : L}
    (h : next M w ts i l = some (w', ts')) (hts : ∀ t ∈ ts, t.Calls A P)
    (hA : ∀ {β : Type} (e : E β) k b, ts[i]? = some (.call e k) →
      M.answer e l w = some (b, w') → A e b) :
    (∃ (β : Type) (e : E β) (k : β → Thread E Unit) (b : β), ts[i]? = some (.call e k) ∧
      M.answer e l w = some (b, w') ∧ P e) ∧ ∀ t ∈ ts', t.Calls A P := by
  obtain ⟨β, e, k, b, hi, ha, rfl⟩ := next_eq_some h
  have hcall := hts _ (List.mem_of_getElem? hi)
  refine ⟨⟨β, e, k, b, hi, ha, hcall.1⟩, fun t ht => ?_⟩
  rcases List.mem_or_eq_of_mem_set ht with ht | rfl
  · exact hts t ht
  · exact hcall.2 b (hA e k b hi ha)

end Pool

end ProgramLogic

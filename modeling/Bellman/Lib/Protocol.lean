/-
Bellman/Lib/Protocol.lean

Threads that keep to a protocol.

A `Protocol` has a state of its own, which says where a thread stands: what
calls it may make there, and where it stands once a call was answered.  A
thread `Follows` it when each of its calls may be made, whatever the answers
before it were; so the state of the protocol is known at every moment of
every run, from the calls and the answers alone.

`Job.Follows` is the form for procedures with exceptions: where they stand
at the end depends on whether they return, and on what.
-/
import Bellman.Lib.Outline

namespace ProgramLogic

universe u

/-- The calls that may be made, and where they lead. -/
structure Protocol (E : Type → Type u) (σ : Type) where
  may : ∀ {β : Type}, E β → σ → Prop
  next : ∀ {β : Type}, E β → β → σ → σ

namespace Thread

variable {E : Type → Type u} {σ α β : Type} {P : Protocol E σ} {Q Q' : α → σ → Prop} {s : σ}

/-- From `s` on, the thread makes only calls that it may make, and ends in
`Q`. -/
def Follows (P : Protocol E σ) : Thread E α → (α → σ → Prop) → σ → Prop
  | ret a, Q, s => Q a s
  | call e k, Q, s => P.may e s ∧ ∀ b, (k b).Follows P Q (P.next e b s)

theorem Follows.mono {t : Thread E α} (h : t.Follows P Q s) (hQ : ∀ a s', Q a s' → Q' a s') :
    t.Follows P Q' s := by
  induction t generalizing s with
  | ret a => exact hQ a s h
  | call e k ih => exact ⟨h.1, fun b => ih b (h.2 b)⟩

theorem Follows.bind {m : Thread E α} {f : α → Thread E β} {Q : β → σ → Prop}
    (h : m.Follows P (fun a s' => (f a).Follows P Q s') s) : (m >>= f).Follows P Q s := by
  induction m generalizing s with
  | ret a => exact h
  | call e k ih => exact ⟨h.1, fun b => ih b (h.2 b)⟩

end Thread

namespace Job

open Thread

variable {E : Type → Type u} {σ ρ ε α β : Type} {P : Protocol E σ}
  {Q Q' : Except ε α → σ → Prop} {m : Job E ρ ε α} {s : σ}

/-- From `s` on, the procedure makes only calls that it may make; `Q` says
where it stands when it returns or fails. -/
def Follows (P : Protocol E σ) (m : Job E ρ ε α) (Q : Except ε α → σ → Prop) (s : σ) : Prop :=
  ∀ r, (m.run.run r).Follows P (fun o s' => Q o.1 s') s

theorem Follows.mono (h : m.Follows P Q s) (hQ : ∀ o s', Q o s' → Q' o s') :
    m.Follows P Q' s :=
  fun r => (h r).mono fun o s' => hQ o.1 s'

theorem follows_pure {a : α} (h : Q (.ok a) s) : (pure a : Job E ρ ε α).Follows P Q s :=
  fun _ => h

theorem follows_throw {e : ε} (h : Q (.error e) s) : (throw e : Job E ρ ε α).Follows P Q s :=
  fun _ => h

theorem follows_modify {f : ρ → ρ} {Q : Except ε PUnit → σ → Prop} (h : Q (.ok ⟨⟩) s) :
    (modify f : Job E ρ ε PUnit).Follows P Q s :=
  fun _ => h

theorem follows_get {Q : Except ε ρ → σ → Prop} (h : ∀ r, Q (.ok r) s) :
    (get : Job E ρ ε ρ).Follows P Q s :=
  fun r => h r

theorem follows_query {e : E α} (he : P.may e s) (h : ∀ a, Q (.ok a) (P.next e a s)) :
    (query e : Job E ρ ε α).Follows P Q s :=
  fun _ => ⟨he, h⟩

theorem follows_request {e : E (Except ε α)} (he : P.may e s) (h : ∀ o, Q o (P.next e o s)) :
    (request e : Job E ρ ε α).Follows P Q s :=
  fun _ => ⟨he, h⟩

/-- Sequencing: a failure ends the procedure. -/
theorem Follows.bind {f : α → Job E ρ ε β} {Q : Except ε β → σ → Prop}
    (h : m.Follows P (fun o s' => match o with
      | .ok a => (f a).Follows P Q s'
      | .error e => Q (.error e) s') s) : (m >>= f).Follows P Q s := by
  intro r
  refine Thread.Follows.bind ((h r).mono ?_)
  rintro ⟨o, r'⟩ s' ho
  cases o with
  | ok a => exact ho r'
  | error e => exact ho

theorem follows_ite {c : Prop} [Decidable c] {m' : Job E ρ ε α} (hm : c → m.Follows P Q s)
    (hm' : ¬c → m'.Follows P Q s) : (if c then m else m').Follows P Q s := by
  split
  · next h => exact hm h
  · next h => exact hm' h

/-- A loop whose turns each start and end where `I` says. -/
theorem follows_forM {γ : Type} {f : γ → Job E ρ ε PUnit} {cs : List γ} {I : σ → Prop}
    {Q : Except ε PUnit → σ → Prop}
    (hf : ∀ c ∈ cs, ∀ s, I s → (f c).Follows P (fun o s' => match o with
      | .ok _ => I s'
      | .error e => Q (.error e) s') s)
    (hQ : ∀ s, I s → Q (.ok ⟨⟩) s) (h : I s) : (cs.forM f).Follows P Q s := by
  induction cs generalizing s with
  | nil => exact follows_pure (hQ s h)
  | cons c cs ih =>
    refine Follows.bind ((hf c List.mem_cons_self s h).mono fun o s' ho => ?_)
    cases o with
    | ok _ => exact ih (fun d hd => hf d (List.mem_cons_of_mem c hd)) ho
    | error e => exact ho

/-- What a process runs. -/
theorem Follows.thread (h : m.Follows P Q s) (r : ρ) :
    (m.thread r).Follows P (fun _ s' => ∃ o, Q o s') s :=
  Thread.Follows.bind ((h r).mono fun o _ ho => ⟨o.1, ho⟩)

end Job

end ProgramLogic

/-
Bellman/Lib/Outline.lean

Proof outlines for a thread that works among others.

A `Setting` says how the calls of a thread are answered, when a call is in
order, what others may do to the world between two calls, and an invariant
that they keep.  `Sound S t Q w` says of a thread `t` that starts in `w`,
and is interrupted by the others at will, that

* each of its calls is in order when it is made;
* the invariant holds whenever a call has been answered;
* if it gets to its end, then with a result and in a world that satisfy `Q`.

The first two speak of every moment, so they say what a thread leaves
behind that is *stopped* anywhere.  What is known between two calls has to
be stable, that is, kept by the others; a fact that the calls keep as well
is `Lasting`, and may be carried across any program (`Sound.frame`).

`Triple` is the usual form, with a precondition, and `Spec` is its form for
the procedures of a language with exceptions (`Job`): they keep a local
state, and nothing is said about the world after a failure but that the
invariant holds.
-/
import Mathlib.Logic.Relation
import Bellman.Lib.Thread

namespace ProgramLogic

universe u v

/-- Where a thread works. -/
structure Setting (E : Type → Type u) (W : Type v) where
  /-- The answer that a call may get, and the world after it. -/
  answers : ∀ {β : Type}, E β → W → β → W → Prop
  /-- The call may be made. -/
  proper : ∀ {β : Type}, E β → W → Prop
  /-- What others may do between two calls. -/
  others : W → W → Prop
  /-- What holds at every moment. -/
  inv : W → Prop
  inv_others : ∀ {w w' : W}, others w w' → inv w → inv w'

namespace Setting

variable {E : Type → Type u} {W : Type v} {S : Setting E W} {P Q : W → Prop}

/-- The others keep `P`. -/
def Stable (S : Setting E W) (P : W → Prop) : Prop :=
  ∀ ⦃w w' : W⦄, S.inv w → S.others w w' → P w → P w'

/-- The others keep `P`, and so does every call. -/
structure Lasting (S : Setting E W) (P : W → Prop) : Prop where
  stable : S.Stable P
  call : ∀ {β : Type} (e : E β) ⦃w : W⦄ ⦃b : β⦄ ⦃w' : W⦄, S.inv w → S.proper e w →
    S.answers e w b w' → P w → P w'

theorem Stable.and (hP : S.Stable P) (hQ : S.Stable Q) : S.Stable fun w => P w ∧ Q w :=
  fun _ _ hi h hpq => ⟨hP hi h hpq.1, hQ hi h hpq.2⟩

theorem stable_const (p : Prop) : S.Stable fun _ => p := fun _ _ _ _ h => h

theorem Lasting.and (hP : S.Lasting P) (hQ : S.Lasting Q) : S.Lasting fun w => P w ∧ Q w where
  stable := hP.stable.and hQ.stable
  call e _ _ _ hi hc h hpq := ⟨hP.call e hi hc h hpq.1, hQ.call e hi hc h hpq.2⟩

/-- Others may do any number of things. -/
theorem inv_reach {w w' : W} (h : Relation.ReflTransGen S.others w w') (hi : S.inv w) :
    S.inv w' := by
  induction h with
  | refl => exact hi
  | tail _ hstep ih => exact S.inv_others hstep ih

theorem Stable.reach (hP : S.Stable P) {w w' : W} (h : Relation.ReflTransGen S.others w w')
    (hi : S.inv w) (hp : P w) : P w' := by
  induction h with
  | refl => exact hp
  | tail hreach hstep ih => exact hP (inv_reach hreach hi) hstep ih

end Setting

namespace Thread

variable {E : Type → Type u} {W : Type v} {S : Setting E W} {α β γ : Type}
  {t : Thread E α} {Q Q' : α → W → Prop} {P F : W → Prop} {w w' : W}

/-- Among the others, `t` makes its calls in order, keeps the invariant at
every moment and ends in `Q`. -/
def Sound (S : Setting E W) : Thread E α → (α → W → Prop) → W → Prop
  | ret a, Q, w => Q a w
  | call e k, Q, w => ∀ w₁, Relation.ReflTransGen S.others w w₁ →
      S.proper e w₁ ∧ ∀ b w₂, S.answers e w₁ b w₂ → S.inv w₂ ∧ Sound S (k b) Q w₂

theorem Sound.mono (h : t.Sound S Q w) (hQ : ∀ a w, Q a w → Q' a w) : t.Sound S Q' w := by
  induction t generalizing w with
  | ret a => exact hQ a w h
  | call e k ih =>
    intro w₁ hreach
    obtain ⟨hc, hnext⟩ := h w₁ hreach
    refine ⟨hc, fun b w₂ ha => ?_⟩
    obtain ⟨hi, hk⟩ := hnext b w₂ ha
    exact ⟨hi, ih b hk⟩

theorem Sound.bind {f : α → Thread E β} {Q : β → W → Prop}
    (h : t.Sound S (fun a => (f a).Sound S Q) w) : (t >>= f).Sound S Q w := by
  induction t generalizing w with
  | ret a => exact h
  | call e k ih =>
    intro w₁ hreach
    obtain ⟨hc, hnext⟩ := h w₁ hreach
    refine ⟨hc, fun b w₂ ha => ?_⟩
    obtain ⟨hi, hk⟩ := hnext b w₂ ha
    exact ⟨hi, ih b hk⟩

/-- A lasting fact is there at the end. -/
theorem Sound.frame (hF : S.Lasting F) (h : t.Sound S Q w) (hi : S.inv w) (hf : F w) :
    t.Sound S (fun a w => Q a w ∧ F w) w := by
  induction t generalizing w with
  | ret a => exact ⟨h, hf⟩
  | call e k ih =>
    intro w₁ hreach
    obtain ⟨hc, hnext⟩ := h w₁ hreach
    refine ⟨hc, fun b w₂ ha => ?_⟩
    obtain ⟨hi₂, hk⟩ := hnext b w₂ ha
    have hf₁ : F w₁ := hF.stable.reach hreach hi hf
    exact ⟨hi₂, ih b hk hi₂ (hF.call e (Setting.inv_reach hreach hi) hc ha hf₁)⟩

/-- The others do not stop a thread from being sound, nor one that has come
to its end. -/
theorem Sound.others (hQ : ∀ a, S.Stable (Q a)) (hi : S.inv w) (h : t.Sound S Q w)
    (hstep : S.others w w') : t.Sound S Q w' := by
  cases t with
  | ret a => exact hQ a hi hstep h
  | call e k => exact fun w₁ hreach => h w₁ (.head hstep hreach)

theorem Sound.proper {e : E β} {k : β → Thread E α} (h : (call e k).Sound S Q w) :
    S.proper e w :=
  (h w .refl).1

/-- The next call keeps the invariant, and what is left is sound. -/
theorem Sound.next {e : E β} {k : β → Thread E α} {b : β} (h : (call e k).Sound S Q w)
    (ha : S.answers e w b w') : S.inv w' ∧ (k b).Sound S Q w' :=
  (h w .refl).2 b w' ha

/-! ### A thread that is left alone -/

/-- What a thread comes to when nobody interrupts it. -/
inductive Ends (S : Setting E W) : Thread E α → W → α → W → Prop
  | ret {a : α} {w : W} : Ends S (ret a) w a w
  | call {β : Type} {e : E β} {k : β → Thread E α} {b : β} {w w₁ w' : W} {a : α} :
      S.answers e w b w₁ → Ends S (k b) w₁ a w' → Ends S (call e k) w a w'

/-- It keeps the invariant, and ends as a sound thread does. -/
theorem Sound.ends {a : α} (he : t.Ends S w a w') (hi : S.inv w) (h : t.Sound S Q w) :
    S.inv w' ∧ Q a w' := by
  induction he with
  | ret => exact ⟨hi, h⟩
  | call ha hk ih =>
    obtain ⟨hi₁, hsound⟩ := h.next ha
    exact ih hi₁ hsound

/-- Run the thread with these answers. -/
def run (answer : ∀ {β : Type}, E β → W → β × W) : Thread E α → W → α × W
  | ret a, w => (a, w)
  | call e k, w => (k (answer e w).1).run answer (answer e w).2

theorem ends_run {answer : ∀ {β : Type}, E β → W → β × W}
    (h : ∀ {β : Type} (e : E β) w, S.answers e w (answer e w).1 (answer e w).2) (t : Thread E α)
    (w : W) : t.Ends S w (t.run answer w).1 (t.run answer w).2 := by
  induction t generalizing w with
  | ret a => exact .ret
  | call e k ih => exact .call (h e w) (ih _ _)

theorem ends_ret_iff {a b : α} : (ret a : Thread E α).Ends S w b w' ↔ b = a ∧ w' = w := by
  constructor
  · rintro ⟨⟩
    exact ⟨rfl, rfl⟩
  · rintro ⟨rfl, rfl⟩
    exact .ret

theorem ends_perform_iff {e : E α} {a : α} : (perform e).Ends S w a w' ↔ S.answers e w a w' := by
  constructor
  · rintro (_ | ⟨ha, hk⟩)
    obtain ⟨rfl, rfl⟩ := ends_ret_iff.mp hk
    exact ha
  · exact fun h => .call h .ret

theorem ends_bind_iff {f : α → Thread E β} {b : β} :
    (t >>= f).Ends S w b w' ↔ ∃ a w₁, t.Ends S w a w₁ ∧ (f a).Ends S w₁ b w' := by
  induction t generalizing w with
  | ret a =>
    constructor
    · exact fun h => ⟨a, w, .ret, h⟩
    · rintro ⟨a', w₁, h, hf⟩
      obtain ⟨rfl, rfl⟩ := ends_ret_iff.mp h
      exact hf
  | call e k ih =>
    constructor
    · rintro (_ | ⟨ha, hk⟩)
      obtain ⟨a, w₁, h, hf⟩ := (ih _).mp hk
      exact ⟨a, w₁, .call ha h, hf⟩
    · rintro ⟨a, w₁, _ | ⟨ha, hk⟩, hf⟩
      exact .call ha ((ih _).mpr ⟨a, w₁, hk, hf⟩)

/-! ### Triples -/

/-- From a world with `P` the thread is sound, and ends in `Q`. -/
def Triple (S : Setting E W) (P : W → Prop) (t : Thread E α) (Q : α → W → Prop) : Prop :=
  ∀ w, S.inv w → P w → t.Sound S (fun a w' => S.inv w' ∧ Q a w') w

theorem Triple.ret {a : α} (h : ∀ w, S.inv w → P w → Q a w) : Triple S P (ret a) Q :=
  fun w hi hp => ⟨hi, h w hi hp⟩

theorem Triple.bind {f : α → Thread E β} {Q' : β → W → Prop} (ht : Triple S P t Q)
    (hf : ∀ a, Triple S (Q a) (f a) Q') : Triple S P (t >>= f) Q' :=
  fun w hi hp => ((ht w hi hp).mono fun a w' h => hf a w' h.1 h.2).bind

theorem Triple.conseq {P' : W → Prop} (h : Triple S P t Q) (hP : ∀ w, S.inv w → P' w → P w)
    (hQ : ∀ a w, S.inv w → Q a w → Q' a w) : Triple S P' t Q' :=
  fun w hi hp => (h w hi (hP w hi hp)).mono fun a w' hq => ⟨hq.1, hQ a w' hq.1 hq.2⟩

/-- One call: what is known before it is stable. -/
theorem Triple.perform {e : E α} (hP : S.Stable P)
    (hc : ∀ w, S.inv w → P w → S.proper e w)
    (h : ∀ w a w', S.inv w → P w → S.answers e w a w' → S.inv w' ∧ Q a w') :
    Triple S P (perform e) Q := by
  intro w hi hp w₁ hreach
  have hi₁ : S.inv w₁ := Setting.inv_reach hreach hi
  have hp₁ : P w₁ := hP.reach hreach hi hp
  refine ⟨hc w₁ hi₁ hp₁, fun a w₂ ha => ?_⟩
  have h₂ := h w₁ a w₂ hi₁ hp₁ ha
  exact ⟨h₂.1, h₂⟩

theorem Triple.frame (hF : S.Lasting F) (h : Triple S P t Q) :
    Triple S (fun w => P w ∧ F w) t (fun a w => Q a w ∧ F w) :=
  fun w hi hp => ((h w hi hp.1).frame hF hi hp.2).mono fun _ _ hq => ⟨hq.1.1, hq.1.2, hq.2⟩

end Thread

/-! ### Procedures that may fail -/

/-- A program over the calls `E` with a local state `ρ` and failures `ε`. -/
abbrev Job (E : Type → Type u) (ρ ε α : Type) : Type (max 1 u) :=
  ExceptT ε (StateT ρ (Thread E)) α

namespace Job

open Thread

variable {E : Type → Type u} {W : Type v} {S : Setting E W} {ρ ε α β : Type}
  {m : Job E ρ ε α} {Q Q' : α → W → Prop} {P P' F : W → Prop}

/-- One call, whose answer is a value. -/
def query (e : E α) : Job E ρ ε α :=
  ExceptT.lift (StateT.lift (perform e))

/-- One call that may fail. -/
def request (e : E (Except ε α)) : Job E ρ ε α :=
  ExceptT.mk (StateT.lift (perform e))

/-- The program without its result: what a process runs. -/
def thread (m : Job E ρ ε α) (r : ρ) : Thread E Unit :=
  m.run.run r >>= fun _ => pure ()

/-- The program without its local state. -/
def attempt (m : Job E ρ ε α) (r : ρ) : Thread E (Except ε α) :=
  m.run.run r >>= fun o => pure o.1

/-- From a world with `P` the procedure is sound, and if it does not fail it
ends in `Q`. -/
def Spec (S : Setting E W) (P : W → Prop) (m : Job E ρ ε α) (Q : α → W → Prop) : Prop :=
  ∀ r, Triple S P (m.run.run r) fun o w => ∀ a, o.1 = .ok a → Q a w

theorem Spec.pure {a : α} (h : ∀ w, S.inv w → P w → Q a w) :
    Spec S P (pure a : Job E ρ ε α) Q :=
  fun _ => Triple.ret fun w hi hp _ ha => Except.ok.inj ha ▸ h w hi hp

theorem Spec.throw {e : ε} : Spec S P (throw e : Job E ρ ε α) Q :=
  fun _ => Triple.ret fun _ _ _ _ ha => nomatch ha

theorem Spec.bind {f : α → Job E ρ ε β} {Q' : β → W → Prop} (hm : Spec S P m Q)
    (hf : ∀ a, Spec S (Q a) (f a) Q') : Spec S P (m >>= f) Q' := by
  intro r
  refine Triple.bind (hm r) fun o => ?_
  obtain ⟨o, r'⟩ := o
  cases o with
  | ok a => exact (hf a r').conseq (fun w _ h => h a rfl) fun _ _ _ h => h
  | error e => exact Triple.ret fun _ _ _ _ ha => nomatch ha

theorem Spec.conseq (h : Spec S P m Q) (hP : ∀ w, S.inv w → P' w → P w)
    (hQ : ∀ a w, S.inv w → Q a w → Q' a w) : Spec S P' m Q' :=
  fun r => (h r).conseq hP fun _ w hi hq a ha => hQ a w hi (hq a ha)

theorem Spec.pre (h : Spec S P m Q) (hP : ∀ w, S.inv w → P' w → P w) : Spec S P' m Q :=
  h.conseq hP fun _ _ _ hq => hq

/-- What the precondition implies, whatever the world, may be assumed. -/
theorem Spec.assume {p : Prop} (hp : ∀ w, S.inv w → P w → p) (h : p → Spec S P m Q) :
    Spec S P m Q :=
  fun r w hi hw => h (hp w hi hw) r w hi hw

theorem Spec.frame (hF : S.Lasting F) (h : Spec S P m Q) :
    Spec S (fun w => P w ∧ F w) m (fun a w => Q a w ∧ F w) :=
  fun r => ((h r).frame hF).conseq (fun _ _ hp => hp) fun _ _ _ hq a ha => ⟨hq.1 a ha, hq.2⟩

theorem Spec.query {e : E α} (hP : S.Stable P) (hc : ∀ w, S.inv w → P w → S.proper e w)
    (h : ∀ w a w', S.inv w → P w → S.answers e w a w' → S.inv w' ∧ Q a w') :
    Spec S P (query e : Job E ρ ε α) Q := by
  intro r
  have hcall : Triple S P (perform e) Q := Triple.perform hP hc h
  have hlift : Triple S P ((StateT.lift (perform e) : StateT ρ (Thread E) α).run r)
      fun o w => Q o.1 w :=
    Triple.bind hcall fun a => Triple.ret fun _ _ hq => hq
  exact Triple.bind hlift fun o => Triple.ret fun _ _ hq a ha => Except.ok.inj ha ▸ hq

theorem Spec.request {e : E (Except ε α)} (hP : S.Stable P)
    (hc : ∀ w, S.inv w → P w → S.proper e w)
    (h : ∀ w o w', S.inv w → P w → S.answers e w o w' →
      S.inv w' ∧ ∀ a, o = .ok a → Q a w') :
    Spec S P (request e : Job E ρ ε α) Q := by
  intro r
  have hcall : Triple S P (perform e) fun o w => ∀ a, o = .ok a → Q a w :=
    Triple.perform hP hc h
  exact Triple.bind hcall fun o => Triple.ret fun _ _ hq a ha => hq a ha

/-- The local state is not part of the world. -/
theorem Spec.modify {f : ρ → ρ} {Q : PUnit → W → Prop} (h : ∀ w, S.inv w → P w → Q ⟨⟩ w) :
    Spec S P (modify f : Job E ρ ε PUnit) Q :=
  fun _ => Triple.ret fun w hi hp _ _ => h w hi hp

theorem Spec.ite {c : Prop} [Decidable c] {m' : Job E ρ ε α} (hm : c → Spec S P m Q)
    (hm' : ¬c → Spec S P m' Q) : Spec S P (if c then m else m') Q := by
  split
  · next h => exact hm h
  · next h => exact hm' h

/-- A loop over a list keeps what each turn keeps. -/
theorem Spec.forM {l : List α} {f : α → Job E ρ ε PUnit} {J : W → Prop}
    (h : ∀ a ∈ l, Spec S J (f a) fun _ => J) : Spec S J (l.forM f) fun _ => J := by
  induction l with
  | nil => exact Spec.pure fun _ _ hj => hj
  | cons a l ih =>
    exact Spec.bind (h a List.mem_cons_self) fun _ => ih fun b hb => h b (List.mem_cons_of_mem a hb)

/-- The thread of a procedure is sound wherever the invariant and its
precondition hold. -/
theorem Spec.thread (h : Spec S P m Q) {w : W} (hi : S.inv w) (hp : P w) (r : ρ) :
    (m.thread r).Sound S (fun _ _ => True) w :=
  Sound.bind ((h r w hi hp).mono fun _ _ _ => trivial)

theorem Spec.attempt (h : Spec S P m Q) {w : W} (hi : S.inv w) (hp : P w) (r : ρ) :
    (m.attempt r).Sound S (fun o w => ∀ a, o = .ok a → Q a w) w :=
  Sound.bind ((h r w hi hp).mono fun _ _ hq => hq.2)

/-- A procedure that is left alone, and succeeds, ends as it is specified. -/
theorem Spec.ends (h : Spec S P m Q) {w w' : W} {a : α} {r : ρ} (hi : S.inv w) (hp : P w)
    (he : (m.attempt r).Ends S w (.ok a) w') : Q a w' :=
  (Sound.ends he hi (h.attempt hi hp r)).2 a rfl

/-! ### Procedures that are left alone -/

/-- What a procedure comes to, failures included. -/
def Ran (S : Setting E W) (m : Job E ρ ε α) (r : ρ) (w : W) (o : Except ε α) (r' : ρ) (w' : W) :
    Prop :=
  (m.run.run r).Ends S w (o, r') w'

variable {r r' : ρ} {w w' : W} {o : Except ε α} {a : α}

theorem ends_attempt_iff : (m.attempt r).Ends S w o w' ↔ ∃ r', Ran S m r w o r' w' := by
  rw [attempt, ends_bind_iff]
  constructor
  · rintro ⟨⟨o', r'⟩, w₁, hm, hpure⟩
    obtain ⟨rfl, rfl⟩ := ends_ret_iff.mp hpure
    exact ⟨r', hm⟩
  · rintro ⟨r', hm⟩
    exact ⟨(o, r'), w', hm, .ret⟩

theorem ran_pure_iff : Ran S (pure a : Job E ρ ε α) r w o r' w' ↔ o = .ok a ∧ r' = r ∧ w' = w := by
  refine ends_ret_iff.trans ?_
  rw [Prod.mk.injEq, and_assoc]

theorem ran_query_iff {e : E α} : Ran S (query e : Job E ρ ε α) r w o r' w' ↔
    ∃ a, o = .ok a ∧ r' = r ∧ S.answers e w a w' := by
  have hlift : ∀ {b : α × ρ}, ((StateT.lift (perform e) : StateT ρ (Thread E) α).run r).Ends S w b
      w' ↔ b.2 = r ∧ S.answers e w b.1 w' := by
    rintro ⟨a, r₁⟩
    refine ends_bind_iff.trans ?_
    constructor
    · rintro ⟨a', w₁, he, hpure⟩
      obtain ⟨heq, rfl⟩ := ends_ret_iff.mp hpure
      obtain ⟨rfl, rfl⟩ := Prod.mk.inj heq
      exact ⟨rfl, ends_perform_iff.mp he⟩
    · rintro ⟨hr, he⟩
      obtain rfl : r₁ = r := hr
      exact ⟨a, w', ends_perform_iff.mpr he, .ret⟩
  refine ends_bind_iff.trans ?_
  constructor
  · rintro ⟨b, w₁, hb, hpure⟩
    obtain ⟨heq, rfl⟩ := ends_ret_iff.mp hpure
    obtain ⟨rfl, rfl⟩ := Prod.mk.inj heq
    exact ⟨b.1, rfl, hlift.mp hb⟩
  · rintro ⟨a, rfl, rfl, he⟩
    exact ⟨(a, r'), w', hlift.mpr ⟨rfl, he⟩, .ret⟩

theorem ran_request_iff {e : E (Except ε α)} : Ran S (request e : Job E ρ ε α) r w o r' w' ↔
    r' = r ∧ S.answers e w o w' := by
  refine ends_bind_iff.trans ?_
  constructor
  · rintro ⟨o', w₁, he, hpure⟩
    obtain ⟨heq, rfl⟩ := ends_ret_iff.mp hpure
    obtain ⟨rfl, rfl⟩ := Prod.mk.inj heq
    exact ⟨rfl, ends_perform_iff.mp he⟩
  · rintro ⟨rfl, he⟩
    exact ⟨o, w', ends_perform_iff.mpr he, .ret⟩

/-- Sequencing: a failure ends the procedure. -/
theorem ran_bind_iff {f : α → Job E ρ ε β} {o : Except ε β} :
    Ran S (m >>= f) r w o r' w' ↔
      (∃ a r₁ w₁, Ran S m r w (.ok a) r₁ w₁ ∧ Ran S (f a) r₁ w₁ o r' w') ∨
        ∃ e, Ran S m r w (.error e) r' w' ∧ o = .error e := by
  refine ends_bind_iff.trans ?_
  constructor
  · rintro ⟨⟨o₁, r₁⟩, w₁, hm, hf⟩
    cases o₁ with
    | ok a => exact .inl ⟨a, r₁, w₁, hm, hf⟩
    | error e =>
      obtain ⟨heq, rfl⟩ := ends_ret_iff.mp hf
      obtain ⟨rfl, rfl⟩ := Prod.mk.inj heq
      exact .inr ⟨e, hm, rfl⟩
  · rintro (⟨a, r₁, w₁, hm, hf⟩ | ⟨e, hm, rfl⟩)
    · exact ⟨(.ok a, r₁), w₁, hm, hf⟩
    · exact ⟨(.error e, r'), w', hm, .ret⟩

end Job

end ProgramLogic

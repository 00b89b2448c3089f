/-
Bellman/Lib/Locking.lean

Threads that take locks, and an order that keeps them from deadlock.

Some of the calls of a thread acquire a lock or release one (`Locks`).  A
party is a thread with the locks that it holds.  A call that acquires a lock
waits as long as any party holds it, the caller included: locks are not
re-entrant.  The locks are ranked, and a thread is *orderly* when it acquires
a lock only with a rank above those of all that it holds.

What a thread does may depend on the answers it gets.  Of these some are
impossible (`C` says which are not), and the thread may be orderly only as
long as they meet a condition `A`.  Then `Orderly` says also what comes of an
answer that does not: the thread is stuck, for its next call asks for a lock
that it holds.

Main results: parties that acquire in order are never in a deadlock
(`Disciplined.not_deadlocked`); a call keeps the parties orderly, or leaves
one of them stuck (`Crowd.call_orderly`); and a stuck party is a deadlock by
itself (`Crowd.deadlocked_of_stuck`).
-/
import Bellman.Lib.Thread

namespace ProgramLogic

universe u v

/-- What a call does with locks. -/
inductive LockOp (K β : Type) where
  | acquire (key : K) (granted : β → Bool)
  | release (key : K)
  | none

namespace LockOp

variable {K β : Type} [DecidableEq K]

/-- The lock that the call asks for. -/
def key : LockOp K β → Option K
  | acquire key _ => some key
  | _ => Option.none

/-- The lock that the caller has acquired when the answer is `b`. -/
def takes : LockOp K β → β → Option K
  | acquire key granted, b => if granted b then some key else Option.none
  | _, _ => Option.none

/-- The locks that the caller holds when the answer is `b`. -/
def after (held : List K) : LockOp K β → β → List K
  | acquire key granted, b => if granted b then key :: held else held
  | release key, _ => held.erase key
  | none, _ => held

/-- The call keeps the order, with these locks held. -/
def Allowed (rank : K → Nat) (held : List K) : LockOp K β → Prop
  | acquire key _ => ∀ h ∈ held, rank h < rank key
  | release key => key ∈ held
  | none => True

end LockOp

/-- Which calls work on locks, and the rank of each lock. -/
structure Locks (E : Type → Type u) (K : Type) where
  op : ∀ {β : Type}, E β → LockOp K β
  rank : K → Nat

variable {E : Type → Type u} {K α β : Type} [DecidableEq K]

/-! ### Orderly threads -/

namespace Thread

variable (O : Locks E K) (C : ∀ {β : Type}, E β → β → Prop)
  (A : List K → ∀ {β : Type}, E β → β → Prop)

/-- The lock that the next call asks for. -/
def wants : Thread E α → Option K
  | ret _ => none
  | call e _ => (O.op e).key

/-- The next call asks for a lock that is held. -/
def Stuck (held : List K) (t : Thread E α) : Prop := ∃ key ∈ held, t.wants O = some key

/-- With the locks `held` at first and `out` in the end, every call keeps the
order while the answers meet `A`, and an answer that does not leaves the
thread stuck. -/
def Orderly (out : List K) : List K → Thread E α → Prop
  | held, ret _ => held = out
  | held, call e k =>
    (O.op e).Allowed O.rank held ∧ ∀ b, C e b →
      (A held e b → (k b).Orderly out ((O.op e).after held b)) ∧
      (¬A held e b → (k b).Stuck O ((O.op e).after held b))

variable {O C A} {held mid out : List K}

theorem orderly_pure (a : α) : (pure a : Thread E α).Orderly O C A held held := rfl

omit [DecidableEq K] in
/-- A program that is stuck is so before anything else. -/
theorem Stuck.bind {t : Thread E α} (h : t.Stuck O held) (f : α → Thread E β) :
    (t >>= f).Stuck O held := by
  obtain ⟨key, hmem, hwants⟩ := h
  cases t with
  | ret a => cases hwants
  | call e k => exact ⟨key, hmem, hwants⟩

theorem Orderly.bind {m : Thread E α} {f : α → Thread E β} (hm : m.Orderly O C A mid held)
    (hf : ∀ a, (f a).Orderly O C A out mid) : (m >>= f).Orderly O C A out held := by
  induction m generalizing held with
  | ret a =>
    obtain rfl : held = mid := hm
    exact hf a
  | call e k ih =>
    refine ⟨hm.1, fun b hc => ⟨fun hb => ?_, fun hb => ?_⟩⟩
    · exact ih b ((hm.2 b hc).1 hb)
    · exact ((hm.2 b hc).2 hb).bind f

/-- Sequencing after one call that works on no lock. -/
theorem Orderly.perform_bind {e : E α} {f : α → Thread E β} (he : O.op e = .none)
    (hf : ∀ a, C e a → A held e a → (f a).Orderly O C A out held)
    (hstuck : ∀ a, C e a → ¬A held e a → (f a).Stuck O held) :
    (perform e >>= f).Orderly O C A out held := by
  refine ⟨by rw [he]; trivial, fun a hc => ?_⟩
  rw [he]
  exact ⟨hf a hc, hstuck a hc⟩

/-- One call that works on no lock, whatever is answered. -/
theorem orderly_perform {e : E α} (he : O.op e = .none) (hA : ∀ a, A held e a) :
    (perform e).Orderly O C A held held := by
  refine ⟨by rw [he]; trivial, fun a _ => ?_⟩
  rw [he]
  exact ⟨fun _ => rfl, fun h => absurd (hA a) h⟩

theorem Orderly.ite {c : Prop} [Decidable c] {m m' : Thread E α}
    (hm : c → m.Orderly O C A out held) (hm' : ¬c → m'.Orderly O C A out held) :
    (if c then m else m').Orderly O C A out held := by
  split
  · next h => exact hm h
  · next h => exact hm' h

theorem Orderly.forEach {γ : Type} {f : γ → Thread E Unit} {cs : List γ}
    (hf : ∀ c ∈ cs, (f c).Orderly O C A held held) :
    (Thread.forEach f cs).Orderly O C A held held := by
  induction cs with
  | nil => rfl
  | cons c cs ih =>
    exact (hf c List.mem_cons_self).bind fun _ => ih fun d hd => hf d (List.mem_cons_of_mem c hd)

/-- Run `body` between a call that acquires a lock and one that releases it;
`failed` when the lock is not granted. -/
def bracket (lock : E Bool) (unlock : E Unit) (failed body : Thread E α) : Thread E α := do
  if ← perform lock then
    let a ← body
    perform unlock
    return a
  else failed

/-- **The bracket rule**: the body holds one lock more. -/
theorem Orderly.bracket {lock : E Bool} {unlock : E Unit} {failed body : Thread E α} {key : K}
    (hlock : O.op lock = .acquire key id) (hunlock : O.op unlock = .release key)
    (hA : ∀ held b, A held lock b) (hA' : ∀ held b, A held unlock b)
    (hrank : ∀ h ∈ held, O.rank h < O.rank key) (hfailed : failed.Orderly O C A held held)
    (hbody : body.Orderly O C A (key :: held) (key :: held)) :
    (Thread.bracket lock unlock failed body).Orderly O C A held held := by
  refine ⟨by rw [hlock]; exact hrank, fun b _ =>
    ⟨fun _ => ?_, fun h => absurd (hA held b) h⟩⟩
  rw [hlock]
  cases b with
  | false => exact hfailed
  | true =>
    refine hbody.bind fun a => ?_
    refine ⟨?_, fun b' _ => ⟨fun _ => ?_, fun h => absurd (hA' (key :: held) b') h⟩⟩
    · rw [hunlock]
      exact List.mem_cons_self
    · show ((O.op unlock).after (key :: held) b') = held
      rw [hunlock]
      exact List.erase_cons_head key held

/-- Lifted calls that do with locks what they did are as orderly. -/
theorem Orderly.lift {E' : Type → Type v} {O' : Locks E' K}
    {C' : ∀ {β : Type}, E' β → β → Prop} {A' : List K → ∀ {β : Type}, E' β → β → Prop}
    {g : ∀ {β : Type}, E β → E' β}
    {t : Thread E α} (h : t.Orderly O C A out held)
    (hop : ∀ {β : Type} (e : E β), O'.op (g e) = O.op e) (hrank : O'.rank = O.rank)
    (hC : ∀ {β : Type} (e : E β) b, C' (g e) b → C e b)
    (hA : ∀ held {β : Type} (e : E β) b, A' held (g e) b ↔ A held e b) :
    (t.lift g).Orderly O' C' A' out held := by
  induction t generalizing held with
  | ret a => exact h
  | call e k ih =>
    refine ⟨?_, fun b hc => ?_⟩
    · rw [hop, hrank]
      exact h.1
    · have hb := h.2 b (hC e b hc)
      rw [hop, hA]
      refine ⟨fun ha => ih b (hb.1 ha), fun ha => ?_⟩
      obtain ⟨key, hmem, hwants⟩ := hb.2 ha
      refine ⟨key, hmem, ?_⟩
      rw [← hwants]
      show ((k b).lift g).wants O' = (k b).wants O
      cases k b with
      | ret a => rfl
      | call e' k' => exact congrArg LockOp.key (hop e')

end Thread

/-! ### Parties -/

/-- A thread at work, with the locks that it holds. -/
structure Party (E : Type → Type u) (K : Type) where
  todo : Thread E Unit
  held : List K := []

/-- A world, and the parties at work on it. -/
structure Crowd (E : Type → Type u) (K : Type) (W : Type v) where
  world : W
  parties : List (Party E K) := []

namespace Crowd

variable {W : Type v} {L : Type} (O : Locks E K)

/-- Some party holds the lock. -/
def taken (s : Crowd E K W) (key : K) : Bool := s.parties.any fun p => p.held.contains key

/-- A party makes its next call; it waits while the lock that the call would
acquire is taken. -/
def call (M : Machine E W L) (s : Crowd E K W) (i : Nat) (l : L) : Option (Crowd E K W) :=
  match s.parties[i]? with
  | some ⟨.call e k, held⟩ =>
    match M.answer e l s.world with
    | some (b, w) =>
      if ((O.op e).takes b).any s.taken then none
      else some
        { world := w
          parties := s.parties.set i { todo := k b, held := (O.op e).after held b } }
    | none => none
  | _ => none

/-- No party acquires a lock but above all those that it holds. -/
def Disciplined (s : Crowd E K W) : Prop :=
  ∀ p ∈ s.parties, ∀ key, p.todo.wants O = some key → ∀ h ∈ p.held, O.rank h < O.rank key

/-- Some parties wait, each for a lock that one of them holds. -/
def Deadlocked (s : Crowd E K W) : Prop :=
  ∃ ps : List (Party E K), ps ≠ [] ∧ ∀ p ∈ ps, p ∈ s.parties ∧
    ∃ key, p.todo.wants O = some key ∧ ∃ q ∈ ps, key ∈ q.held

omit [DecidableEq K] in
/-- **Parties that acquire in order are in no deadlock.** -/
theorem Disciplined.not_deadlocked {O : Locks E K} {s : Crowd E K W} (h : s.Disciplined O) :
    ¬s.Deadlocked O := by
  rintro ⟨ps, hne, hwait⟩
  -- From a party to the one it waits for the rank grows, and so without end.
  have hgrow : ∀ n, ∃ p ∈ ps, ∃ key, p.todo.wants O = some key ∧ n ≤ O.rank key := by
    intro n
    induction n with
    | zero =>
      obtain ⟨p, hp⟩ := List.exists_mem_of_ne_nil ps hne
      obtain ⟨-, key, hwants, -⟩ := hwait p hp
      exact ⟨p, hp, key, hwants, Nat.zero_le _⟩
    | succ n ih =>
      obtain ⟨p, hp, key, hwants, hle⟩ := ih
      obtain ⟨-, key', hwants', q, hq, hheld⟩ := hwait p hp
      obtain rfl := Option.some.inj (hwants.symm.trans hwants')
      obtain ⟨hin, next, hnext, -⟩ := hwait q hq
      have hlt := h q hin next hnext key hheld
      exact ⟨q, hq, next, hnext, by omega⟩
  -- But there are finitely many of them.
  have hbound : ∀ qs : List (Party E K),
      ∃ n, ∀ q ∈ qs, ∀ key, q.todo.wants O = some key → O.rank key < n := by
    intro qs
    induction qs with
    | nil => exact ⟨0, fun q hq => by cases hq⟩
    | cons q qs ih =>
      obtain ⟨n, hn⟩ := ih
      by_cases hwants : ∃ key, q.todo.wants O = some key
      · obtain ⟨key, hkey⟩ := hwants
        refine ⟨max n (O.rank key + 1), fun q' hq' key' hkey' => ?_⟩
        rcases List.mem_cons.mp hq' with rfl | hq'
        · obtain rfl := Option.some.inj (hkey.symm.trans hkey')
          omega
        · have hlt := hn q' hq' key' hkey'
          omega
      · refine ⟨n, fun q' hq' key' hkey' => ?_⟩
        rcases List.mem_cons.mp hq' with rfl | hq'
        · exact absurd ⟨key', hkey'⟩ hwants
        · exact hn q' hq' key' hkey'
  obtain ⟨n, hn⟩ := hbound ps
  obtain ⟨p, hp, key, hwants, hle⟩ := hgrow n
  have hlt := hn p hp key hwants
  omega

variable {O} {C : ∀ {β : Type}, E β → β → Prop} {A : List K → ∀ {β : Type}, E β → β → Prop}
  {s s' : Crowd E K W}

omit [DecidableEq K] in
/-- A party that waits for itself waits for ever. -/
theorem deadlocked_of_stuck {p : Party E K} (hp : p ∈ s.parties)
    (h : p.todo.Stuck O p.held) : s.Deadlocked O := by
  obtain ⟨key, hheld, hwants⟩ := h
  refine ⟨[p], List.cons_ne_nil p [], fun q hq => ?_⟩
  obtain rfl := List.mem_singleton.mp hq
  exact ⟨hp, key, hwants, q, hq, hheld⟩

/-- Every party is orderly, from what it holds to nothing. -/
def Orderly (O : Locks E K) (C : ∀ {β : Type}, E β → β → Prop)
    (A : List K → ∀ {β : Type}, E β → β → Prop) (s : Crowd E K W) : Prop :=
  ∀ p ∈ s.parties, p.todo.Orderly O C A [] p.held

theorem Orderly.disciplined (h : s.Orderly O C A) : s.Disciplined O := by
  intro p hp key hwants
  have hp := h p hp
  cases htodo : p.todo with
  | ret a =>
    rw [htodo] at hwants
    cases hwants
  | call e k =>
    rw [htodo] at hwants hp
    have hallowed := hp.1
    have hkey : (O.op e).key = some key := hwants
    cases hop : O.op e with
    | acquire key' granted =>
      rw [hop] at hallowed hkey
      obtain rfl := Option.some.inj hkey
      exact hallowed
    | release key' =>
      rw [hop] at hkey
      cases hkey
    | none =>
      rw [hop] at hkey
      cases hkey

/-- The call that was made, and its answer. -/
theorem call_eq_some {M : Machine E W L} {i : Nat} {l : L} (h : s.call O M i l = some s') :
    ∃ (β : Type) (e : E β) (k : β → Thread E Unit) (held : List K) (b : β),
      s.parties[i]? = some ⟨.call e k, held⟩ ∧ M.answer e l s.world = some (b, s'.world) ∧
      s'.parties = s.parties.set i ⟨k b, (O.op e).after held b⟩ := by
  unfold call at h
  split at h
  · next β e k held hi =>
    split at h
    · next b w ha =>
      split at h
      · cases h
      · cases h
        exact ⟨β, e, k, held, b, hi, ha, rfl⟩
    · cases h
  · cases h

/-- **The step**: a call keeps the parties orderly when its answer meets the
condition, and leaves one of them stuck when it does not. -/
theorem call_orderly {M : Machine E W L} {i : Nat} {l : L} (h : s.call O M i l = some s')
    (hs : s.Orderly O C A)
    (hC : ∀ {β : Type} (e : E β) b, M.answer e l s.world = some (b, s'.world) → C e b) :
    ∃ (β : Type) (e : E β) (k : β → Thread E Unit) (held : List K) (b : β),
      s.parties[i]? = some ⟨.call e k, held⟩ ∧ M.answer e l s.world = some (b, s'.world) ∧
      (A held e b → s'.Orderly O C A) ∧
      (¬A held e b → ∃ p ∈ s'.parties, p.todo.Stuck O p.held) := by
  obtain ⟨β, e, k, held, b, hi, ha, hparties⟩ := call_eq_some h
  have hparty := (hs _ (List.mem_of_getElem? hi)).2 b (hC e b ha)
  refine ⟨β, e, k, held, b, hi, ha, fun hb p hp => ?_, fun hb => ?_⟩
  · rw [hparties] at hp
    rcases List.mem_or_eq_of_mem_set hp with hp | rfl
    · exact hs p hp
    · exact hparty.1 hb
  · refine ⟨⟨k b, (O.op e).after held b⟩, ?_, hparty.2 hb⟩
    rw [hparties]
    exact List.mem_set (List.getElem?_eq_some_iff.mp hi).1 _

end Crowd

end ProgramLogic

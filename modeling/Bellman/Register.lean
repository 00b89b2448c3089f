/-
Bellman/Register.lean

Sharing the wakealarm register with another program.

The register holds one alarm for the whole machine.  Bellman takes it over
only for an alarm of its own that is earlier than the one it finds, keeps
the displaced alarm in memory, and writes it back when it gives the register
up.  The history of the other program is kept beside the controller: its
*latest* alarm, the last one it has set and has not cleared itself.

That alarm is in one of two places, and this is the invariant:

    in the register        where the other program has put it, or
    in the memory          while the register holds nothing foreign

A step is *careful* if it does not destroy the place where the alarm is.
The code does so in three ways: a new alarm is programmed while a displaced
one is remembered, and the own alarm that is still in the register is taken
for a foreign one; the register is given up without another look at it,
after the other program has set its own alarm over ours; and a write fails
between the clearing and the setting, or after the remembered alarm has
been taken out of the memory.

Main result: `foreign_alarm_kept` — in a run of careful steps no alarm that
is due first is replaced, and whenever Bellman does not own the register it
holds the latest foreign alarm.
-/
import Bellman.Wake
import Bellman.Lib.System

namespace Bellman

open ProgramLogic

/-! ### The register and its two parties -/

/-- The alarm that the other program has in the register. -/
def foreignAlarm (register : Wakealarm) : Option Int :=
  match register with
  | some ⟨epoch, .other⟩ => some epoch
  | _ => none

/-- An epoch cannot be written: the write fails, or the register still holds
an alarm because the clearing has failed. -/
def Io.Refuses (io : Io) (register : Wakealarm) : Prop :=
  io.set.isSome ∨ io.clear = false ∧ register.isSome

instance (io : Io) (register : Wakealarm) : Decidable (io.Refuses register) :=
  inferInstanceAs (Decidable (_ ∨ _ ∧ _))

section

variable {io : Io} {register : Wakealarm} {party : Party} {epoch t : Int}

/-- A refused write leaves the register as the clearing has left it. -/
theorem write_refused (h : io.Refuses register) :
    ∃ message, writeWakealarmClearSet io register party (some epoch) =
      (if io.clear then none else register, .error message) := by
  unfold writeWakealarmClearSet
  cases hset : io.set with
  | some message => exact ⟨message, rfl⟩
  | none =>
    obtain h | ⟨hclear, hreg⟩ := h
    · simp [hset] at h
    · obtain ⟨alarm, rfl⟩ := Option.isSome_iff_exists.mp hreg
      exact ⟨"Device or resource busy (os error 16)", by simp [hclear]⟩

theorem write_accepted (h : ¬io.Refuses register) :
    writeWakealarmClearSet io register party (some epoch) =
      (if 0 < epoch then some ⟨epoch, party⟩ else none, .ok ()) := by
  obtain ⟨hset, hclear⟩ := not_or.mp h
  have hset : io.set = none := by simpa using hset
  have hempty : (if io.clear then none else register) = none := by
    cases hc : io.clear with
    | true => rfl
    | false => simpa [hc] using hclear
  unfold writeWakealarmClearSet
  simp [hset, hempty]

/-- What programming an alarm does to a register with real alarms in it. -/
inductive ProgramOutcome (io : Io) (w : LinuxWake) (ours : Int) : LinuxWake → Prop
  /-- The register cannot be read. -/
  | unread : io.read.isSome → ProgramOutcome io w ours w
  /-- An alarm that is due first is left alone. -/
  | left {alarm : Alarm} : io.read = none → w.wakealarm = some alarm → alarm.epoch ≤ ours →
      ProgramOutcome io w ours
        { w with armedEpoch := none, sysfsOwned := false, displacedForeign := none }
  /-- The write fails, and what the controller remembers stays. -/
  | refused : io.read = none → (∀ alarm, w.wakealarm = some alarm → ours < alarm.epoch) →
      io.Refuses w.wakealarm →
      ProgramOutcome io w ours { w with wakealarm := if io.clear then none else w.wakealarm }
  /-- The register is taken over. -/
  | written : io.read = none → (∀ alarm, w.wakealarm = some alarm → ours < alarm.epoch) →
      ¬io.Refuses w.wakealarm →
      ProgramOutcome io w ours
        { w with
          wakealarm := if 0 < ours then some ⟨ours, .bellman⟩ else none
          armedEpoch := some ours, sysfsOwned := true
          displacedForeign := w.wakealarm.map (·.epoch) }

theorem programSysfs_outcome {w : LinuxWake} (io : Io) (t : Int)
    (hpos : ∀ alarm, w.wakealarm = some alarm → 0 < alarm.epoch) :
    ProgramOutcome io w (epochSecs t) (w.programSysfs io t).1 := by
  unfold LinuxWake.programSysfs readWakealarmEpoch
  cases hread : io.read with
  | some message => exact .unread (by simp [hread])
  | none =>
    by_cases hleft : ∃ alarm, w.wakealarm = some alarm ∧ alarm.epoch ≤ epochSecs t
    · obtain ⟨alarm, hreg, hle⟩ := hleft
      have hplan : planSysfsProgram (w.wakealarm.map (·.epoch)) (epochSecs t) =
          ⟨none, none, false⟩ := by
        simp [planSysfsProgram, hreg, hpos alarm hreg, hle]
      simp only [hplan]
      exact .left hread hreg hle
    · have hlater : ∀ alarm, w.wakealarm = some alarm → epochSecs t < alarm.epoch := by
        intro alarm hreg
        by_contra hnot
        exact hleft ⟨alarm, hreg, not_lt.mp hnot⟩
      have hplan : planSysfsProgram (w.wakealarm.map (·.epoch)) (epochSecs t) =
          ⟨some (epochSecs t), w.wakealarm.map (·.epoch), true⟩ := by
        cases hreg : w.wakealarm with
        | none => rfl
        | some alarm =>
          have hlt := hlater alarm hreg
          simp [planSysfsProgram, hpos alarm hreg, hlt, not_le.mpr hlt]
      simp only [hplan]
      by_cases hrefuses : io.Refuses w.wakealarm
      · obtain ⟨message, hwrite⟩ : ∃ message,
            writeWakealarmClearSet io w.wakealarm .bellman (some (epochSecs t)) = (_, _) :=
          write_refused hrefuses
        rw [hwrite]
        exact .refused hread hlater hrefuses
      · rw [write_accepted hrefuses]
        exact .written hread hlater hrefuses

/-- What giving the register up does: an owned one is written over with what
is remembered, and the memory is empty afterwards in any case. -/
structure GivenUp (io : Io) (w w' : LinuxWake) : Prop where
  capability : w'.capability = w.capability
  displaced : w'.displacedForeign = none
  wakealarm : w'.wakealarm =
    if w.sysfsOwned then
      (writeWakealarmClearSet io w.wakealarm .other w.displacedForeign).1
    else w.wakealarm

theorem onResumed_givenUp {w : LinuxWake}
    (howned : w.displacedForeign.isSome → w.sysfsOwned = true) :
    GivenUp io w (w.onResumed io) := by
  unfold LinuxWake.onResumed
  cases hs : w.sysfsOwned with
  | true => exact ⟨rfl, rfl, by simp [hs, planSysfsRestore]⟩
  | false =>
    have hd : w.displacedForeign = none := by
      rw [← Option.not_isSome_iff_eq_none]
      intro h
      simp [hs] at howned
      simp [howned] at h
    refine ⟨?_, ?_, ?_⟩
    all_goals simp [hs, hd]

theorem cancelSysfs_givenUp {w : LinuxWake}
    (howned : w.displacedForeign.isSome → w.sysfsOwned = true) :
    GivenUp io w (w.cancelSysfs io).1 := by
  unfold LinuxWake.cancelSysfs
  cases hs : w.sysfsOwned with
  | true =>
    generalize hwrite : writeWakealarmClearSet io w.wakealarm .other w.displacedForeign = out
    obtain ⟨register, message | ⟨⟨⟩⟩⟩ := out
    all_goals exact ⟨rfl, rfl, by simp [hs, hwrite]⟩
  | false =>
    have hd : w.displacedForeign = none := by
      rw [← Option.not_isSome_iff_eq_none]
      intro h
      simp [hs] at howned
      simp [howned] at h
    exact ⟨rfl, hd, by simp [hs]⟩

end

/-! ### The register as a system -/

/-- The controller, its register, and the latest alarm of the other program. -/
structure Shared where
  wake : LinuxWake
  latest : Option Int
  deriving Repr, DecidableEq

/-- The steps of the two parties. -/
inductive RegisterOp where
  /-- Bellman arms an alarm at `t`. -/
  | program (t : Int) (io : Io)
  | cancel (io : Io)
  | resume (io : Io)
  /-- The other program sets an alarm, or clears the register. -/
  | other (write : Option Int)
  deriving Repr, DecidableEq

namespace Shared

/-- What a step does.  A clearing by the other program withdraws the alarm
that it finds; the one of Bellman says nothing about its own. -/
def next (s : Shared) : RegisterOp → Shared
  | .program t io => { s with wake := (s.wake.programWake io t).1 }
  | .cancel io => { s with wake := (s.wake.cancelWake io).1 }
  | .resume io => { s with wake := s.wake.onResumed io }
  | .other (some epoch) =>
    ⟨{ s.wake with wakealarm := some ⟨epoch, .other⟩ }, some epoch⟩
  | .other none =>
    ⟨{ s.wake with wakealarm := none },
      if (foreignAlarm s.wake.wakealarm).isSome then none else s.latest⟩

/-- Unless Bellman owns the register, it holds the latest foreign alarm. -/
def Restored (s : Shared) : Prop :=
  s.wake.sysfsOwned = false → ∀ f, s.latest = some f → s.wake.wakealarm.map (·.epoch) = some f

/-- Giving the register up writes back the alarm that belongs there. -/
def Restores (s : Shared) (io : Io) : Prop :=
  s.wake.sysfsOwned = true →
    match foreignAlarm s.wake.wakealarm with
    | some f => io.clear = false ∨ s.wake.displacedForeign = some f ∧ io.set = none
    | none => s.wake.displacedForeign = none ∨ ¬io.Refuses s.wake.wakealarm

/-- A careful step.  An alarm is programmed over a foreign one in the
register only with a write that does not fail in the middle, and with
nothing foreign in the register only while none is remembered (or the call
fails, and it still is). -/
def Careful (s : Shared) : RegisterOp → Prop
  | .program t io =>
    match foreignAlarm s.wake.wakealarm with
    | some f => f ≤ epochSecs t ∨ io.read.isSome ∨ io.clear = false ∨ io.set = none
    | none =>
      s.wake.displacedForeign = none ∨ io.read.isSome ∨
        (planSysfsProgram (s.wake.wakealarm.map (·.epoch)) (epochSecs t)).writeEpoch.isSome ∧
          io.Refuses s.wake.wakealarm
  | .cancel io => s.Restores io
  | .resume io => s.Restores io
  | .other _ => True

instance (s : Shared) : Decidable s.Restored :=
  match h : s.latest with
  | none => isTrue (by simp [Restored, h])
  | some f =>
    decidable_of_iff
      (s.wake.sysfsOwned = false → s.wake.wakealarm.map (·.epoch) = some f)
      (by simp [Restored, h])

instance (s : Shared) (io : Io) : Decidable (s.Restores io) :=
  match h : foreignAlarm s.wake.wakealarm with
  | some f =>
    decidable_of_iff
      (s.wake.sysfsOwned = true →
        io.clear = false ∨ s.wake.displacedForeign = some f ∧ io.set = none)
      (by simp [Restores, h])
  | none =>
    decidable_of_iff
      (s.wake.sysfsOwned = true →
        s.wake.displacedForeign = none ∨ ¬io.Refuses s.wake.wakealarm)
      (by simp [Restores, h])

instance (s : Shared) : (op : RegisterOp) → Decidable (s.Careful op)
  | .program t io =>
    match h : foreignAlarm s.wake.wakealarm with
    | some f =>
      decidable_of_iff
        (f ≤ epochSecs t ∨ io.read.isSome ∨ io.clear = false ∨ io.set = none)
        (by simp [Careful, h])
    | none =>
      decidable_of_iff
        (s.wake.displacedForeign = none ∨ io.read.isSome ∨
          (planSysfsProgram (s.wake.wakealarm.map (·.epoch)) (epochSecs t)).writeEpoch.isSome ∧
            io.Refuses s.wake.wakealarm)
        (by simp [Careful, h])
  | .cancel io => inferInstanceAs (Decidable (s.Restores io))
  | .resume io => inferInstanceAs (Decidable (s.Restores io))
  | .other _ => inferInstanceAs (Decidable True)

/-- The latest foreign alarm is in the register, or remembered while the
register holds nothing foreign.  What is remembered is owned. -/
structure Held (s : Shared) : Prop where
  mechanism : s.wake.capability.mechanism = some .linuxWakealarmSysfs
  positive : ∀ alarm, s.wake.wakealarm = some alarm → 0 < alarm.epoch
  displaced : ∀ f, s.wake.displacedForeign = some f → 0 < f ∧ s.wake.sysfsOwned = true
  latest : ∀ f, s.latest = some f →
    foreignAlarm s.wake.wakealarm = some f ∨
      foreignAlarm s.wake.wakealarm = none ∧ s.wake.displacedForeign = some f

end Shared

/-- The controller as a probe sets it up for the register, on a machine where
the other program may have an alarm already. -/
def sharedRegister : System Shared RegisterOp where
  init s := ∃ facts register,
    s = ⟨.probe facts register, foreignAlarm register⟩ ∧
      s.wake.capability.mechanism = some .linuxWakealarmSysfs ∧
      ∀ alarm, register = some alarm → alarm.party = .other ∧ 0 < alarm.epoch
  step s op t := (∀ epoch, op = .other (some epoch) → 0 < epoch) ∧ t = s.next op

/-- The second Bellman compares with: the alarm a step programs, or the one
that is programmed when it gives the register up. -/
def ownEpoch (s : Shared) : RegisterOp → Option Int
  | .program t _ => some (epochSecs t)
  | .cancel _ => s.wake.armedEpoch
  | .resume _ => s.wake.armedEpoch
  | .other _ => none

/-- A step of Bellman leaves a foreign alarm in the register that is due no
later than its own. -/
def KeepsEarlier (e : System.Event Shared RegisterOp) : Prop :=
  ∀ f own, foreignAlarm e.pre.wake.wakealarm = some f → ownEpoch e.pre e.label = some own →
    f ≤ own → e.post.wake.wakealarm = e.pre.wake.wakealarm

/-! ### The steps keep the latest alarm -/

section

variable {s : Shared} {io : Io} {register : Wakealarm} {f : Int}

theorem foreignAlarm_eq_some : foreignAlarm register = some f ↔ register = some ⟨f, .other⟩ := by
  unfold foreignAlarm
  split
  · simp
  · rename_i hnot
    simp only [reduceCtorEq, false_iff]
    rintro rfl
    exact hnot f rfl

theorem foreignAlarm_own (epoch : Int) :
    foreignAlarm (if 0 < epoch then some ⟨epoch, .bellman⟩ else none) = none := by
  split <;> rfl

/-- With the clearing refused, the register keeps its alarm. -/
theorem write_unclear {alarm : Alarm} {party : Party} (hclear : io.clear = false)
    (epoch : Option Int) :
    (writeWakealarmClearSet io (some alarm) party epoch).1 = some alarm := by
  cases epoch with
  | none => simp [writeWakealarmClearSet, hclear]
  | some e =>
    have hrefuses : io.Refuses (some alarm) := .inr ⟨hclear, rfl⟩
    obtain ⟨message, h⟩ : ∃ message,
        writeWakealarmClearSet io (some alarm) party (some e) = (_, _) := write_refused hrefuses
    rw [h]
    simp [hclear]

/-- Every alarm that a write leaves in the register is a real one. -/
theorem write_positive {party : Party} (hpos : ∀ alarm, register = some alarm → 0 < alarm.epoch)
    (epoch : Option Int) :
    ∀ alarm, (writeWakealarmClearSet io register party epoch).1 = some alarm → 0 < alarm.epoch := by
  have hcleared : ∀ alarm, (if io.clear then none else register) = some alarm →
      0 < alarm.epoch := by
    intro alarm h
    split at h
    · cases h
    · exact hpos alarm h
  intro alarm h
  cases epoch with
  | none => exact hcleared alarm h
  | some e =>
    by_cases hrefuses : io.Refuses register
    · obtain ⟨message, hwrite⟩ : ∃ message,
          writeWakealarmClearSet io register party (some e) = (_, _) := write_refused hrefuses
      rw [hwrite] at h
      exact hcleared alarm h
    · rw [write_accepted hrefuses] at h
      dsimp only at h
      split at h
      · cases h
        assumption
      · cases h

namespace Shared

theorem Held.capability (h : s.Held) :
    ∃ caveats, s.wake.capability = .enabled .linuxWakealarmSysfs caveats := by
  have hmech := h.mechanism
  cases hcap : s.wake.capability with
  | disabled r => simp [hcap, WakeCapability.mechanism] at hmech
  | enabled m c =>
    obtain rfl : m = .linuxWakealarmSysfs := by simpa [hcap, WakeCapability.mechanism] using hmech
    exact ⟨c, rfl⟩

theorem Held.owned (h : s.Held) :
    s.wake.displacedForeign.isSome → s.wake.sysfsOwned = true := by
  intro hsome
  obtain ⟨f, hf⟩ := Option.isSome_iff_exists.mp hsome
  exact (h.displaced f hf).2

theorem Held.restored (h : s.Held) : s.Restored := by
  intro howned f hlatest
  rcases h.latest f hlatest with hreg | ⟨-, hmemory⟩
  · rw [foreignAlarm_eq_some.mp hreg]
    rfl
  · have := (h.displaced f hmemory).2
    simp [howned] at this

/-- Under this mechanism the controller's call is the sysfs one. -/
theorem Held.programWake_fst (h : s.Held) (t : Int) :
    (s.wake.programWake io t).1 = (s.wake.programSysfs io t).1 := by
  obtain ⟨c, hcap⟩ := h.capability
  unfold LinuxWake.programWake
  rw [hcap]
  dsimp only
  split <;> simp_all

theorem Held.cancelWake_fst (h : s.Held) :
    (s.wake.cancelWake io).1 = (s.wake.cancelSysfs io).1 := by
  obtain ⟨c, hcap⟩ := h.capability
  unfold LinuxWake.cancelWake
  rw [hcap]
  dsimp only
  split <;> simp_all

/-- **Programming**: a careful one leaves the latest alarm in its place, or
moves it to the memory. -/
theorem Held.program (h : s.Held) {t : Int} (hcareful : s.Careful (.program t io)) :
    (s.next (.program t io)).Held := by
  unfold next
  dsimp only
  rw [h.programWake_fst]
  generalize hw' : (s.wake.programSysfs io t).1 = w'
  have hout := programSysfs_outcome io t h.positive
  rw [hw'] at hout
  cases hout with
  | unread => exact h
  | @left alarm hread hreg hle =>
    refine ⟨h.mechanism, h.positive, by simp, fun f hlatest => ?_⟩
    rcases h.latest f hlatest with hforeign | ⟨hnone, hmemory⟩
    · exact .inl hforeign
    · -- A remembered alarm would be forgotten; the plan writes nothing here.
      exfalso
      have hpositive := h.positive alarm hreg
      have hplan : (planSysfsProgram (s.wake.wakealarm.map (·.epoch))
          (epochSecs t)).writeEpoch = none := by
        simp [planSysfsProgram, hreg, hpositive, hle]
      simp [Careful, hnone, hmemory, hread, hplan] at hcareful
  | refused hread hlater hrefuses =>
    cases hclear : io.clear with
    | false => simpa [hclear] using h
    | true =>
      refine ⟨h.mechanism, by simp, h.displaced, fun f hlatest => ?_⟩
      rcases h.latest f hlatest with hforeign | ⟨-, hmemory⟩
      · exfalso
        have hlt : epochSecs t < f := hlater _ (foreignAlarm_eq_some.mp hforeign)
        have hset : io.set = none := by
          simpa [Careful, hforeign, hread, hclear, not_le.mpr hlt] using hcareful
        simp [Io.Refuses, hset, hclear] at hrefuses
      · exact .inr ⟨rfl, hmemory⟩
  | written hread hlater haccepts =>
    refine ⟨h.mechanism, ?_, ?_, fun f hlatest => ?_⟩
    · intro alarm halarm
      dsimp only at halarm
      split at halarm
      · cases halarm
        assumption
      · cases halarm
    · intro f hf
      obtain ⟨alarm, hreg, rfl⟩ := Option.map_eq_some_iff.mp hf
      exact ⟨h.positive alarm hreg, rfl⟩
    · refine .inr ⟨foreignAlarm_own _, ?_⟩
      rcases h.latest f hlatest with hforeign | ⟨hnone, hmemory⟩
      · show s.wake.wakealarm.map (·.epoch) = some f
        rw [foreignAlarm_eq_some.mp hforeign]
        rfl
      · exfalso
        simp [Careful, hnone, hmemory, hread, haccepts] at hcareful

/-- A remembered alarm is written back, unless the write is refused. -/
theorem Held.writes_back (h : s.Held) (hmemory : s.wake.displacedForeign = some f)
    (haccepts : ¬io.Refuses s.wake.wakealarm) :
    (writeWakealarmClearSet io s.wake.wakealarm .other s.wake.displacedForeign).1 =
      some ⟨f, .other⟩ := by
  rw [hmemory, write_accepted haccepts, if_pos (h.displaced f hmemory).1]

/-- A careful restoration leaves a foreign alarm in the register. -/
theorem Held.restores_foreign (h : s.Held) (howned : s.wake.sysfsOwned = true)
    (hcareful : s.Restores io) (hforeign : foreignAlarm s.wake.wakealarm = some f) :
    (writeWakealarmClearSet io s.wake.wakealarm .other s.wake.displacedForeign).1 =
      some ⟨f, .other⟩ := by
  have hrestores := hcareful howned
  rw [hforeign] at hrestores
  cases hclear : io.clear with
  | false =>
    rw [foreignAlarm_eq_some.mp hforeign]
    exact write_unclear hclear _
  | true =>
    obtain ⟨hmemory, hset⟩ : s.wake.displacedForeign = some f ∧ io.set = none := by
      simpa [hclear] using hrestores
    exact h.writes_back hmemory (by simp [Io.Refuses, hset, hclear])

/-- What a careful restoration leaves there is the latest alarm. -/
theorem Held.restores (h : s.Held) (howned : s.wake.sysfsOwned = true)
    (hcareful : s.Restores io) (hlatest : s.latest = some f) :
    (writeWakealarmClearSet io s.wake.wakealarm .other s.wake.displacedForeign).1 =
      some ⟨f, .other⟩ := by
  rcases h.latest f hlatest with hforeign | ⟨hnone, hmemory⟩
  · exact h.restores_foreign howned hcareful hforeign
  · have hrestores := hcareful howned
    rw [hnone] at hrestores
    have haccepts : ¬io.Refuses s.wake.wakealarm := by simpa [hmemory] using hrestores
    exact h.writes_back hmemory haccepts

/-- **Giving up**: a careful step puts the latest alarm where it belongs. -/
theorem Held.giveUp (h : s.Held) (hcareful : s.Restores io) {w' : LinuxWake}
    (hw' : GivenUp io s.wake w') : Shared.Held { s with wake := w' } := by
  have hreg := hw'.wakealarm
  cases howned : s.wake.sysfsOwned with
  | false =>
    rw [howned] at hreg
    have hsame : w'.wakealarm = s.wake.wakealarm := hreg
    refine ⟨?_, ?_, ?_, fun f hlatest => ?_⟩
    · rw [hw'.capability]
      exact h.mechanism
    · rw [hsame]
      exact h.positive
    · simp [hw'.displaced]
    · rcases h.latest f hlatest with hforeign | ⟨-, hmemory⟩
      · left
        rw [hsame]
        exact hforeign
      · have := (h.displaced f hmemory).2
        simp [howned] at this
  | true =>
    rw [if_pos howned] at hreg
    refine ⟨?_, ?_, ?_, fun f hlatest => ?_⟩
    · rw [hw'.capability]
      exact h.mechanism
    · rw [hreg]
      exact write_positive h.positive _
    · simp [hw'.displaced]
    · left
      rw [hreg, h.restores howned hcareful hlatest]
      rfl

/-- The other program's own writes keep its history. -/
theorem Held.other (h : s.Held) {write : Option Int}
    (hpos : ∀ epoch, write = some epoch → 0 < epoch) :
    (s.next (.other write)).Held := by
  cases write with
  | some epoch =>
    refine ⟨h.mechanism, ?_, h.displaced, fun f hlatest => ?_⟩
    · rintro alarm ⟨⟩
      exact hpos epoch rfl
    · obtain rfl : epoch = f := by simpa [next] using hlatest
      exact .inl rfl
  | none =>
    refine ⟨h.mechanism, by simp [next], h.displaced, fun f hlatest => ?_⟩
    cases hforeign : foreignAlarm s.wake.wakealarm with
    | some f' => simp [next, hforeign] at hlatest
    | none =>
      have hlatest : s.latest = some f := by simpa [next, hforeign] using hlatest
      rcases h.latest f hlatest with hsome | ⟨-, hmemory⟩
      · simp [hforeign] at hsome
      · exact .inr ⟨rfl, hmemory⟩

/-- **Step lemma.** -/
theorem Held.step (h : s.Held) {op : RegisterOp}
    (hpos : ∀ epoch, op = .other (some epoch) → 0 < epoch) (hcareful : s.Careful op) :
    (s.next op).Held := by
  cases op with
  | program t io => exact h.program hcareful
  | cancel io =>
    apply h.giveUp hcareful
    rw [h.cancelWake_fst]
    exact cancelSysfs_givenUp h.owned
  | resume io => exact h.giveUp hcareful (onResumed_givenUp h.owned)
  | other write => exact h.other fun epoch hw => hpos epoch (by rw [hw])

/-- A careful step of Bellman does not replace an alarm that is due first. -/
theorem Held.keepsEarlier (h : s.Held) {op : RegisterOp} (hcareful : s.Careful op) :
    KeepsEarlier ⟨s, op, s.next op⟩ := by
  have hgiveUp : ∀ {io : Io} {w' : LinuxWake}, s.Restores io → GivenUp io s.wake w' → ∀ f,
      foreignAlarm s.wake.wakealarm = some f → w'.wakealarm = s.wake.wakealarm := by
    intro io w' hcareful hw' f hforeign
    rw [hw'.wakealarm]
    cases howned : s.wake.sysfsOwned with
    | false => rfl
    | true =>
      rw [if_pos rfl, h.restores_foreign howned hcareful hforeign]
      exact (foreignAlarm_eq_some.mp hforeign).symm
  intro f own hforeign hown hle
  cases op with
  | program t io =>
    obtain rfl : epochSecs t = own := by simpa [ownEpoch] using hown
    have hout := programSysfs_outcome io t h.positive
    have hlater : ¬∀ alarm, s.wake.wakealarm = some alarm → epochSecs t < alarm.epoch :=
      fun hlater => absurd (hlater _ (foreignAlarm_eq_some.mp hforeign)) (not_lt.mpr hle)
    show (s.wake.programWake io t).1.wakealarm = _
    rw [h.programWake_fst]
    generalize (s.wake.programSysfs io t).1 = w' at hout
    cases hout with
    | unread => rfl
    | left => rfl
    | refused _ hall => exact absurd hall hlater
    | written _ hall => exact absurd hall hlater
  | cancel io =>
    apply hgiveUp hcareful _ f hforeign
    show GivenUp io s.wake (s.wake.cancelWake io).1
    rw [h.cancelWake_fst]
    exact cancelSysfs_givenUp h.owned
  | resume io => exact hgiveUp hcareful (onResumed_givenUp h.owned) f hforeign
  | other write => simp [ownEpoch] at hown

end Shared

end

/-! ### Runs over the shared register -/

theorem sharedRegister_init {s : Shared} (h0 : sharedRegister.init s) : s.Held := by
  obtain ⟨facts, register, rfl, hmech, hother⟩ := h0
  refine ⟨hmech, fun alarm h => (hother alarm h).2, ?_, fun f hlatest => .inl hlatest⟩
  simp [LinuxWake.probe]

/-- In a run of careful steps Bellman never replaces a foreign alarm that is
due no later than its own, and whenever it does not own the register, that
holds the latest foreign alarm. -/
theorem foreign_alarm_kept {s₀ s : Shared} {tr : List (System.Event Shared RegisterOp)}
    (h0 : sharedRegister.init s₀) (h : sharedRegister.Run s₀ tr s)
    (hcareful : ∀ e ∈ tr, e.pre.Careful e.label) :
    (∀ e ∈ tr, KeepsEarlier e ∧ e.post.Restored) ∧ s.Restored := by
  have hstep : ∀ s op t, sharedRegister.step s op t → s.Careful op → s.Held → t.Held := by
    rintro s op t ⟨hpos, rfl⟩ hcareful hs
    exact hs.step hpos hcareful
  constructor
  · intro e he
    obtain ⟨⟨-, hpost⟩, hpre, hheld⟩ :=
      h.invariant_steps hcareful (sharedRegister_init h0) hstep e he
    refine ⟨?_, hheld.restored⟩
    have hkeeps := hpre.keepsEarlier (hcareful e he)
    rw [← hpost] at hkeeps
    exact hkeeps
  · exact (h.invariant hcareful (sharedRegister_init h0) hstep).restored

/-! ### An alarm at 200 s

The other program has set it before Bellman starts. -/

def alarmSet : Shared :=
  ⟨.probe ⟨true, some "enabled", .permissionDenied, true⟩ (some ⟨200, .other⟩), some 200⟩

theorem alarmSet_init : sharedRegister.init alarmSet := by
  refine ⟨_, some ⟨200, .other⟩, rfl, rfl, ?_⟩
  rintro alarm ⟨⟩
  exact ⟨rfl, by decide⟩

/-- The trace of some steps from there. -/
def alarmTrace (ops : List RegisterOp) : List (System.Event Shared RegisterOp) :=
  System.trace Shared.next alarmSet ops

/-- Bellman displaces the alarm for one at 150 s and gives the register up;
then the other program sets a new one. -/
def courteous : List RegisterOp := [.program (secs 150) .ok, .cancel .ok, .other (some 300)]

/-- Bellman displaces it for one at 150 s, and then moves its own to 160 s:
the register still holds 150 s, which is taken for a foreign alarm and left
alone, and the one at 200 s is forgotten. -/
def moved : List RegisterOp := [.program (secs 150) .ok, .program (secs 160) .ok]

theorem courteous_run : ∃ s, sharedRegister.Run alarmSet (alarmTrace courteous) s := by
  refine ⟨_, System.Run.cons ?_ (System.Run.cons ?_ (System.Run.cons ?_ .nil))⟩
  · exact ⟨by simp, rfl⟩
  · exact ⟨by simp, rfl⟩
  · exact ⟨by simp, rfl⟩

theorem foreign_alarm_kept_courteous :
    (alarmTrace courteous).isEmpty = false ∧
      ∀ e ∈ alarmTrace courteous, KeepsEarlier e ∧ e.post.Restored := by
  refine ⟨by decide +kernel, ?_⟩
  obtain ⟨s, hrun⟩ := courteous_run
  exact (foreign_alarm_kept alarmSet_init hrun (by decide +kernel)).1

theorem moved_run : ∃ s, sharedRegister.Run alarmSet (alarmTrace moved) s := by
  refine ⟨_, System.Run.cons ?_ (System.Run.cons ?_ .nil)⟩
  · exact ⟨by simp, rfl⟩
  · exact ⟨by simp, rfl⟩

theorem foreign_alarm_lost :
    ¬∀ (s₀ s : Shared) (tr : List (System.Event Shared RegisterOp)),
      sharedRegister.init s₀ → sharedRegister.Run s₀ tr s →
        (∀ e ∈ tr, KeepsEarlier e ∧ e.post.Restored) ∧ s.Restored := by
  intro h
  obtain ⟨s, hrun⟩ := moved_run
  have hrestored : ∀ e ∈ alarmTrace moved, e.post.Restored :=
    fun e he => ((h _ _ _ alarmSet_init hrun).1 e he).2
  revert hrestored
  decide +kernel

end Bellman

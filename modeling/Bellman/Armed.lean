/-
Bellman/Armed.lean

The bridge's record against the platform's alarm.

The bridge skips the platform when its remembered target is the one it is
asked for.  That is right as long as the record *agrees* with the platform:
nothing is armed without a record, and with one there is a single alarm, at
the recorded instant.

Platform calls succeed here and nobody else uses the register, so the two
can only come apart behind the record's back:

    dropped    a probe closes the timerfd that holds the alarm, or a resume
               clears the register, and the re-arm of the same step finds
               its target unchanged (or there is no re-arm)
    orphaned   a probe has moved off the register while it holds the alarm,
               and the record is cleared or replaced under the new mechanism

Main result: `lastArmed_agrees_iff` — the record agrees with the platform
throughout a run exactly when no step of the run does one of the two.
-/
import Bellman.Wake
import Bellman.Lib.System

namespace Bellman

open ProgramLogic

/-! ### What the platform holds -/

namespace LinuxWake

/-- The alarm on the timerfd. -/
def fdAlarm (w : LinuxWake) : Option Int := w.timerfd.join

/-- No alarm is armed. -/
def Unarmed (w : LinuxWake) : Prop := w.fdAlarm = none ∧ w.wakealarm = none

/-- One alarm is armed, at `t`: to the nanosecond on the timerfd, to the
second in the register. -/
def ArmedAt (w : LinuxWake) (t : Int) : Prop :=
  (w.fdAlarm = some t ∧ w.wakealarm = none) ∨
    (w.fdAlarm = none ∧ w.wakealarm = some ⟨epochSecs t, .bellman⟩)

instance (w : LinuxWake) : Decidable w.Unarmed := inferInstanceAs (Decidable (_ ∧ _))

instance (w : LinuxWake) (t : Int) : Decidable (w.ArmedAt t) :=
  inferInstanceAs (Decidable (_ ∨ _))

/-- The controller on a machine of its own: the timerfd is open exactly
while it is the mechanism, nothing foreign was displaced, and what is in the
register is owned. -/
inductive Sound : LinuxWake → Prop
  | timerfd (caveats : List Caveat) (setting : Timerfd) (armed : Option Int)
      (register : Wakealarm) :
      Sound ⟨.enabled .linuxAlarmTimerfd caveats, some setting, armed, none,
        register.isSome, register⟩
  | sysfs (caveats : List Caveat) (armed : Option Int) (register : Wakealarm) :
      Sound ⟨.enabled .linuxWakealarmSysfs caveats, none, armed, none,
        register.isSome, register⟩
  | disabled (reason : DisabledReason) (armed : Option Int) (register : Wakealarm) :
      Sound ⟨.disabled reason, none, armed, none, register.isSome, register⟩

theorem Unarmed.not_armedAt {w : LinuxWake} {t : Int} (h : w.Unarmed) : ¬w.ArmedAt t := by
  rintro (⟨hfd, -⟩ | ⟨-, hreg⟩)
  · simp [h.1] at hfd
  · simp [h.2] at hreg

end LinuxWake

/-- The record agrees with the platform: an alarm is armed exactly if there
is a record, and then at the instant that it names. -/
def BridgeState.Agrees (s : BridgeState) : Prop :=
  match s.lastArmed with
  | none => s.wake.Unarmed
  | some t => s.wake.ArmedAt t

instance (s : BridgeState) : Decidable s.Agrees := by
  unfold BridgeState.Agrees
  exact match s.lastArmed with
    | none => inferInstanceAs (Decidable s.wake.Unarmed)
    | some t => inferInstanceAs (Decidable (s.wake.ArmedAt t))

/-! ### The controller, call by call -/

/-- What a probe finds is the timerfd, with a new descriptor open, or the
register, or nothing. -/
theorem probeInner_cases (facts : ProbeFacts) :
    (∃ c, probeInner facts = (.enabled .linuxAlarmTimerfd c, some none)) ∨
    (∃ c, probeInner facts = (.enabled .linuxWakealarmSysfs c, none)) ∨
    (∃ r, probeInner facts = (.disabled r, none)) := by
  unfold probeInner
  split
  · exact .inr (.inr ⟨_, rfl⟩)
  · split
    · exact .inr (.inr ⟨_, rfl⟩)
    · split
      · exact .inl ⟨_, rfl⟩
      · split
        · exact .inr (.inl ⟨_, rfl⟩)
        · exact .inr (.inr ⟨_, rfl⟩)
      · exact .inr (.inr ⟨_, rfl⟩)

namespace LinuxWake

variable {w : LinuxWake} {t : Int}

theorem Sound.probe (facts : ProbeFacts) : Sound (LinuxWake.probe facts none) := by
  unfold LinuxWake.probe
  obtain ⟨c, h⟩ | ⟨c, h⟩ | ⟨r, h⟩ := probeInner_cases facts
  · rw [h]
    exact .timerfd c none none none
  · rw [h]
    exact .sysfs c none none
  · rw [h]
    exact .disabled r none none

theorem probe_unarmed (facts : ProbeFacts) : (LinuxWake.probe facts none).Unarmed := by
  unfold LinuxWake.probe
  obtain ⟨c, h⟩ | ⟨c, h⟩ | ⟨r, h⟩ := probeInner_cases facts
  all_goals
    rw [h]
    exact ⟨rfl, rfl⟩

/-- What is in the register is owned. -/
theorem Sound.owned (hw : w.Sound) : w.sysfsOwned = w.wakealarm.isSome := by
  cases hw <;> rfl

/-- After a new probe the register is what it was, and so is the alarm on a
timerfd that stays open. -/
structure Reprobed (w w' : LinuxWake) (found : WakeCapability) : Prop where
  sound : w'.Sound
  capability : w'.capability = found
  wakealarm : w'.wakealarm = w.wakealarm
  fdAlarm : w'.fdAlarm =
    if found.mechanism = some .linuxAlarmTimerfd then w.fdAlarm else none

theorem Sound.reProbe (hw : w.Sound) (facts : ProbeFacts) :
    Reprobed w (w.reProbe facts) (probeInner facts).1 := by
  unfold LinuxWake.reProbe
  obtain ⟨c, h⟩ | ⟨c, h⟩ | ⟨r, h⟩ := probeInner_cases facts
  · rw [h]
    cases hw with
    | timerfd _ setting armed register => exact ⟨.timerfd c setting armed register, rfl, rfl, rfl⟩
    | sysfs _ armed register => exact ⟨.timerfd c none armed register, rfl, rfl, rfl⟩
    | disabled _ armed register => exact ⟨.timerfd c none armed register, rfl, rfl, rfl⟩
  · rw [h]
    refine ⟨?_, rfl, rfl, rfl⟩
    cases hw <;> exact .sysfs c none _
  · rw [h]
    refine ⟨?_, rfl, rfl, rfl⟩
    cases hw <;> exact .disabled r none _

/-- A resume clears the register and leaves the rest. -/
structure Resumed (w w' : LinuxWake) : Prop where
  sound : w'.Sound
  wakealarm : w'.wakealarm = none
  fdAlarm : w'.fdAlarm = w.fdAlarm

theorem Sound.onResumed (hw : w.Sound) : Resumed w (w.onResumed .ok) := by
  cases hw with
  | timerfd c setting armed register =>
    cases register with
    | none => exact ⟨.timerfd c setting armed none, rfl, rfl⟩
    | some alarm => exact ⟨.timerfd c setting none none, rfl, rfl⟩
  | sysfs c armed register =>
    cases register with
    | none => exact ⟨.sysfs c armed none, rfl, rfl⟩
    | some alarm => exact ⟨.sysfs c none none, rfl, rfl⟩
  | disabled r armed register =>
    cases register with
    | none => exact ⟨.disabled r armed none, rfl, rfl⟩
    | some alarm => exact ⟨.disabled r none none, rfl, rfl⟩

/-- Cancelling disarms the timerfd, and clears the register if that is the
mechanism in use. -/
structure Cancelled (w w' : LinuxWake) : Prop where
  sound : w'.Sound
  capability : w'.capability = w.capability
  fdAlarm : w'.fdAlarm = none
  wakealarm : w'.wakealarm =
    if w.capability.mechanism = some .linuxWakealarmSysfs then none else w.wakealarm

theorem Sound.cancelWake (hw : w.Sound) :
    ∃ w', w.cancelWake .ok = (w', .ok ()) ∧ Cancelled w w' := by
  cases hw with
  | timerfd c setting armed register =>
    exact ⟨_, rfl, .timerfd c none none register, rfl, rfl, rfl⟩
  | sysfs c armed register =>
    cases register with
    | none => exact ⟨_, rfl, .sysfs c none none, rfl, rfl, rfl⟩
    | some alarm => exact ⟨_, rfl, .sysfs c none none, rfl, rfl, rfl⟩
  | disabled r armed register => exact ⟨_, rfl, .disabled r none register, rfl, rfl, rfl⟩

/-- Programming arms the mechanism in use; an alarm left over in the register
stays there when the timerfd is armed. -/
structure Programmed (w w' : LinuxWake) (t : Int) : Prop where
  sound : w'.Sound
  capability : w'.capability = w.capability
  timerfd : w.capability.mechanism = some .linuxAlarmTimerfd →
    w'.fdAlarm = some t ∧ w'.wakealarm = w.wakealarm
  sysfs : w.capability.mechanism = some .linuxWakealarmSysfs →
    w'.fdAlarm = w.fdAlarm ∧ w'.wakealarm = some ⟨epochSecs t, .bellman⟩

theorem pos_of_epochSecs_pos (h : 0 < epochSecs t) : 0 < t := by
  have : 0 < t / 1000000000 := h
  omega

theorem setTimerfdAbsolute_ok (h : 0 < epochSecs t) :
    setTimerfdAbsolute .ok t = .ok (some t) := by
  have ht : 0 < t := pos_of_epochSecs_pos h
  have hneg : ¬t < 0 := by omega
  have hzero : ¬t = 0 := by omega
  simp [setTimerfdAbsolute, Io.ok, hneg, hzero]

theorem Sound.programWake (hw : w.Sound) (henabled : w.capability.isEnabled)
    (hfree : w.capability.mechanism = some .linuxWakealarmSysfs → w.wakealarm = none)
    (hpos : 0 < epochSecs t) :
    ∃ w', w.programWake .ok t = (w', .ok ()) ∧ Programmed w w' t := by
  cases hw with
  | timerfd c setting armed register =>
    refine ⟨_, ?_, .timerfd c (some t) (some (epochSecs t)) register, rfl, ?_, ?_⟩
    · simp [LinuxWake.programWake, setTimerfdAbsolute_ok hpos]
    · exact fun _ => ⟨rfl, rfl⟩
    · simp [WakeCapability.mechanism]
  | sysfs c armed register =>
    obtain rfl : register = none := hfree rfl
    refine ⟨_, ?_, .sysfs c (some (epochSecs t)) (some ⟨epochSecs t, .bellman⟩), rfl, ?_, ?_⟩
    · simp [LinuxWake.programWake, LinuxWake.programSysfs, readWakealarmEpoch, Io.ok,
        planSysfsProgram, writeWakealarmClearSet, hpos]
    · simp [WakeCapability.mechanism]
    · exact fun _ => ⟨rfl, rfl⟩
  | disabled r armed register => exact absurd henabled (by simp [WakeCapability.isEnabled])

end LinuxWake

/-! ### The re-arm -/

namespace BridgeState

variable {env : Env} {s : BridgeState} {nextDue : Option Int} {now : Int}

/-- A re-arm under the platform capability `platform` leaves everything as it
is: waking is enabled, and the alarm it is asked for is the recorded one.
(Arithmetic that panics leaves everything as it is, too.) -/
def Unchanged (platform : WakeCapability) (s : BridgeState) (nextDue : Option Int) (now : Int) :
    Prop :=
  (effectiveCap platform s.masterEnabled).isEnabled ∧
    ∃ due, nextDue = some due ∧ ∀ t, armInstant due now = .ok t → s.lastArmed = some t

instance (platform : WakeCapability) (s : BridgeState) (nextDue : Option Int) (now : Int) :
    Decidable (s.Unchanged platform nextDue now) :=
  match nextDue with
  | none => isFalse (by simp [Unchanged])
  | some due =>
    match h : armInstant due now with
    | .error _ =>
      decidable_of_iff ((effectiveCap platform s.masterEnabled).isEnabled = true)
        (by simp [Unchanged, h])
    | .ok t =>
      decidable_of_iff
        ((effectiveCap platform s.masterEnabled).isEnabled = true ∧ s.lastArmed = some t)
        (by simp [Unchanged, h])

/-- The alarm that a re-arm is asked for has not elapsed. -/
def Ahead (nextDue : Option Int) (now : Int) : Prop :=
  ∀ due t, nextDue = some due → armInstant due now = .ok t → 0 < epochSecs t

theorem rearm_unchanged (h : s.Unchanged s.wake.capability nextDue now) :
    (s.rearm env nextDue now).1 = s := by
  obtain ⟨henabled, due, rfl, hsame⟩ := h
  unfold rearm
  rw [capability, henabled]
  dsimp only
  cases harm : armInstant due now with
  | error p => rfl
  | ok t =>
    have : s.lastTarget = some t := hsame t harm
    simp [this]

/-- What a re-arm leaves behind that does not find its target unchanged. -/
structure Rearmed (s s' : BridgeState) (nextDue : Option Int) (now : Int) : Prop where
  sound : s'.wake.Sound
  capability : s'.capability = s.capability
  agrees : s'.Agrees ↔
    (s.wake.sysfsOwned → s.wake.capability.mechanism = some .linuxWakealarmSysfs)
  target : s.capability.isEnabled → ∀ due t, nextDue = some due → armInstant due now = .ok t →
    s'.lastArmed = some t

/-- After the cancellation nothing is armed, unless the register is not the
mechanism in use and holds an alarm. -/
theorem unarmed_iff {w w' : LinuxWake} (hw : w.Sound) (h : LinuxWake.Cancelled w w') :
    w'.Unarmed ↔ (w.sysfsOwned → w.capability.mechanism = some .linuxWakealarmSysfs) := by
  unfold LinuxWake.Unarmed
  rw [h.fdAlarm, h.wakealarm, hw.owned]
  by_cases hmech : w.capability.mechanism = some .linuxWakealarmSysfs
  · simp [hmech]
  · cases w.wakealarm <;> simp [hmech]

/-- Arming the cancelled controller makes the recorded alarm the only one
under the same condition. -/
theorem armedAt_iff {w w' w'' : LinuxWake} {t : Int} (hw : w.Sound)
    (henabled : w.capability.isEnabled) (h : LinuxWake.Cancelled w w')
    (h' : LinuxWake.Programmed w' w'' t) :
    w''.ArmedAt t ↔ (w.sysfsOwned → w.capability.mechanism = some .linuxWakealarmSysfs) := by
  rw [← unarmed_iff hw h]
  unfold LinuxWake.ArmedAt LinuxWake.Unarmed
  cases hw with
  | timerfd c setting armed register =>
    obtain ⟨hfd, hreg⟩ := h'.timerfd (by rw [h.capability]; rfl)
    simp [hfd, hreg, h.fdAlarm]
  | sysfs c armed register =>
    obtain ⟨hfd, hreg⟩ := h'.sysfs (by rw [h.capability]; rfl)
    have hclear : w'.wakealarm = none := by rw [h.wakealarm]; rfl
    simp [hfd, hreg, h.fdAlarm, hclear]
  | disabled r armed register => exact absurd henabled (by simp [WakeCapability.isEnabled])

/-- What the user's toggle leaves enabled the platform can do. -/
theorem isEnabled_of_effective (h : s.capability.isEnabled) : s.wake.capability.isEnabled := by
  unfold capability effectiveCap at h
  split at h
  · simp [WakeCapability.isEnabled] at h
  · exact h

theorem rearm_changed (hw : s.wake.Sound) (hcancel : env.cancel = .ok)
    (hprogram : env.program = .ok) (hahead : Ahead nextDue now)
    (hchange : ¬s.Unchanged s.wake.capability nextDue now) :
    Rearmed s (s.rearm env nextDue now).1 nextDue now := by
  obtain ⟨w', hcall, hc⟩ := hw.cancelWake
  unfold rearm
  rw [hcancel, hprogram, hcall]
  cases henabled : s.capability.isEnabled with
  | false =>
    refine ⟨hc.sound, ?_, unarmed_iff hw hc, ?_⟩
    · simp [capability, hc.capability]
    · simp [henabled]
  | true =>
    have hplatform := isEnabled_of_effective henabled
    cases nextDue with
    | none =>
      refine ⟨hc.sound, ?_, unarmed_iff hw hc, ?_⟩
      · simp [capability, hc.capability]
      · simp
    | some due =>
      cases harm : armInstant due now with
      | error p =>
        -- A panic counts as no change.
        exact absurd ⟨henabled, due, rfl, by simp [harm]⟩ hchange
      | ok t =>
        have hne : s.lastTarget ≠ some t := by
          intro heq
          apply hchange
          refine ⟨henabled, due, rfl, fun t' ht' => ?_⟩
          rw [harm] at ht'
          injection ht' with ht'
          rw [← ht']
          exact heq
        have hfree : w'.capability.mechanism = some .linuxWakealarmSysfs →
            w'.wakealarm = none := by
          intro hmech
          rw [hc.capability] at hmech
          rw [hc.wakealarm, if_pos hmech]
        obtain ⟨w'', hcall', hp⟩ := hc.sound.programWake
          (by rw [hc.capability]; exact hplatform) hfree (hahead due t rfl harm)
        simp only [Bool.not_true, Bool.false_eq_true, if_false, harm, if_neg hne, hcall']
        refine ⟨hp.sound, ?_, armedAt_iff hw hplatform hc hp, ?_⟩
        · simp [capability, hp.capability, hc.capability]
        · intro _ due' t' hdue ht'
          obtain rfl : due = due' := by simpa using hdue
          rw [harm] at ht'
          injection ht' with ht'
          rw [← ht']
          rfl

/-- The condition under which a re-arm leaves the record in agreement. -/
theorem rearm_agrees_iff (hw : s.wake.Sound) (hcancel : env.cancel = .ok)
    (hprogram : env.program = .ok) (hahead : Ahead nextDue now) :
    (s.rearm env nextDue now).1.Agrees ↔
      (s.Unchanged s.wake.capability nextDue now → s.Agrees) ∧
      (¬s.Unchanged s.wake.capability nextDue now → s.wake.sysfsOwned →
        s.wake.capability.mechanism = some .linuxWakealarmSysfs) := by
  by_cases hsame : s.Unchanged s.wake.capability nextDue now
  · rw [rearm_unchanged hsame]
    simp [hsame]
  · rw [(rearm_changed hw hcancel hprogram hahead hsame).agrees]
    simp [hsame]

theorem rearm_sound (hw : s.wake.Sound) (hcancel : env.cancel = .ok)
    (hprogram : env.program = .ok) (hahead : Ahead nextDue now) :
    (s.rearm env nextDue now).1.wake.Sound := by
  by_cases hsame : s.Unchanged s.wake.capability nextDue now
  · rw [rearm_unchanged hsame]
    exact hw
  · exact (rearm_changed hw hcancel hprogram hahead hsame).sound

/-- A re-arm that is enabled records the alarm it was asked for. -/
theorem rearm_target (hw : s.wake.Sound) (hcancel : env.cancel = .ok)
    (hprogram : env.program = .ok) (hahead : Ahead nextDue now)
    (henabled : (s.rearm env nextDue now).1.capability.isEnabled) {due t : Int}
    (hdue : nextDue = some due) (ht : armInstant due now = .ok t) :
    (s.rearm env nextDue now).1.lastArmed = some t := by
  by_cases hsame : s.Unchanged s.wake.capability nextDue now
  · rw [rearm_unchanged hsame]
    obtain ⟨-, due', hdue', h⟩ := hsame
    obtain rfl : due = due' := by simpa [hdue] using hdue'
    exact h t ht
  · have h := rearm_changed hw hcancel hprogram hahead hsame
    rw [h.capability] at henabled
    exact h.target henabled due t hdue ht

/-- A controller that keeps the timerfd's alarm or drops it, and keeps what
is in the register or clears it, is still in agreement with the record if it
has kept the alarm that there is. -/
theorem agrees_iff_kept {s' : BridgeState} (hs : s.Agrees) (hlast : s'.lastArmed = s.lastArmed)
    {fd reg : Prop} [Decidable fd] [Decidable reg]
    (hfd : s'.wake.fdAlarm = if fd then s.wake.fdAlarm else none)
    (hreg : s'.wake.wakealarm = if reg then s.wake.wakealarm else none) :
    s'.Agrees ↔ (s.wake.fdAlarm.isSome → fd) ∧ (s.wake.wakealarm.isSome → reg) := by
  unfold Agrees LinuxWake.Unarmed LinuxWake.ArmedAt at *
  rw [hlast, hfd, hreg]
  cases hrecord : s.lastArmed with
  | none =>
    rw [hrecord] at hs
    simp [hs.1, hs.2]
  | some t =>
    rw [hrecord] at hs
    rcases hs with ⟨h, h'⟩ | ⟨h, h'⟩
    · simp [h, h']
    · simp [h, h']

/-- A new probe leaves the record in agreement unless it closes the timerfd
on an alarm. -/
theorem agrees_reProbe_iff (hw : s.wake.Sound) (hs : s.Agrees) (facts : ProbeFacts) :
    (s.reProbe facts).Agrees ↔
      (s.wake.fdAlarm.isSome → (probeInner facts).1.mechanism = some .linuxAlarmTimerfd) := by
  have h := hw.reProbe facts
  have hfd : (s.reProbe facts).wake.fdAlarm = _ := h.fdAlarm
  have hreg : (s.reProbe facts).wake.wakealarm = if True then s.wake.wakealarm else none := by
    rw [if_pos trivial]
    exact h.wakealarm
  have hlast : (s.reProbe facts).lastArmed = s.lastArmed := rfl
  rw [agrees_iff_kept hs hlast hfd hreg]
  simp

/-- A resume with its new probe does so unless it clears an alarm from the
register, or closes the timerfd on one. -/
theorem agrees_resumed_iff (hw : s.wake.Sound) (hs : s.Agrees) (facts : ProbeFacts) :
    { s with wake := (s.wake.onResumed .ok).reProbe facts }.Agrees ↔
      (s.wake.fdAlarm.isSome → (probeInner facts).1.mechanism = some .linuxAlarmTimerfd) ∧
        ¬s.wake.sysfsOwned := by
  have hr := hw.onResumed
  have h := hr.sound.reProbe facts
  generalize hs' : { s with wake := (s.wake.onResumed .ok).reProbe facts } = s'
  have hwake : s'.wake = (s.wake.onResumed .ok).reProbe facts := by rw [← hs']
  have hlast : s'.lastArmed = s.lastArmed := by rw [← hs']; rfl
  have hfd := h.fdAlarm
  have hreg : s'.wake.wakealarm = if False then s.wake.wakealarm else none := by
    rw [if_neg not_false, hwake, h.wakealarm, hr.wakealarm]
  rw [hr.fdAlarm, ← hwake] at hfd
  rw [agrees_iff_kept hs hlast hfd hreg, hw.owned]

end BridgeState

/-! ### The bridge as a system -/

/-- The calls of the bridge that change its state. -/
inductive BridgeOp where
  | rearm (nextDue : Option Int) (now : Int)
  | cancel
  | setMasterEnabled (enabled : Bool)
  | reProbe
  | power (ev : PowerEvent) (candidates : List WakeCandidate) (now : Int)
  deriving Repr, DecidableEq

/-- The re-arm that a call makes: what it elects, and when. -/
def BridgeOp.rearms : BridgeOp → Option (Option Int × Int)
  | .rearm nextDue now => some (nextDue, now)
  | .power _ candidates now => some (electNextWake candidates, now)
  | _ => none

/-- The platform calls that the bridge makes succeed. -/
def Env.Succeeds (env : Env) : Prop :=
  env.resume = .ok ∧ env.cancel = .ok ∧ env.program = .ok

/-- The alarm that a call elects has not elapsed. -/
def BridgeOp.Ahead (op : BridgeOp) : Prop :=
  ∀ nextDue now, op.rearms = some (nextDue, now) → BridgeState.Ahead nextDue now

namespace BridgeState

/-- What one call does. -/
def handle (env : Env) (s : BridgeState) : BridgeOp → BridgeState × Except RearmError Unit
  | .rearm nextDue now => s.rearm env nextDue now
  | .cancel => s.cancel env
  | .setMasterEnabled enabled => (s.setMasterEnabled enabled, .ok ())
  | .reProbe => (s.reProbe env.facts, .ok ())
  | .power ev candidates now => s.onPowerEvent env ev candidates now

/-- A call neither drops an alarm nor orphans one. -/
def Kept (env : Env) (s : BridgeState) : BridgeOp → Prop
  | .rearm nextDue now =>
    s.wake.sysfsOwned →
      s.wake.capability.mechanism = some .linuxWakealarmSysfs ∨
        s.Unchanged s.wake.capability nextDue now
  | .cancel => s.wake.sysfsOwned → s.wake.capability.mechanism = some .linuxWakealarmSysfs
  | .setMasterEnabled _ => True
  | .reProbe =>
    s.wake.fdAlarm.isSome → (probeInner env.facts).1.mechanism = some .linuxAlarmTimerfd
  | .power .suspending candidates now =>
    s.wake.sysfsOwned →
      s.wake.capability.mechanism = some .linuxWakealarmSysfs ∨
        s.Unchanged s.wake.capability (electNextWake candidates) now
  | .power .resumed candidates now =>
    s.wake.sysfsOwned ∨ s.wake.fdAlarm.isSome ∧
        (probeInner env.facts).1.mechanism ≠ some .linuxAlarmTimerfd →
      ¬s.Unchanged (probeInner env.facts).1 (electNextWake candidates) now
  | .power .powerSourceChanged candidates now =>
    (s.wake.fdAlarm.isSome → (probeInner env.facts).1.mechanism ≠ some .linuxAlarmTimerfd →
      ¬s.Unchanged (probeInner env.facts).1 (electNextWake candidates) now) ∧
    (s.wake.sysfsOwned →
      (probeInner env.facts).1.mechanism = some .linuxWakealarmSysfs ∨
        s.Unchanged (probeInner env.facts).1 (electNextWake candidates) now)

instance (env : Env) (s : BridgeState) : (op : BridgeOp) → Decidable (s.Kept env op)
  | .rearm _ _ => inferInstanceAs (Decidable (_ → _ ∨ _))
  | .cancel => inferInstanceAs (Decidable (_ → _))
  | .setMasterEnabled _ => inferInstanceAs (Decidable True)
  | .reProbe => inferInstanceAs (Decidable (_ → _))
  | .power .suspending _ _ => inferInstanceAs (Decidable (_ → _ ∨ _))
  | .power .resumed _ _ => inferInstanceAs (Decidable (_ ∨ _ ∧ _ → ¬_))
  | .power .powerSourceChanged _ _ =>
    inferInstanceAs (Decidable ((_ → _ → ¬_) ∧ (_ → _ ∨ _)))

end BridgeState

/-- The bridge over the Linux controller, on a machine whose register nobody
else uses and whose platform calls succeed. -/
def bridge : System BridgeState (Env × BridgeOp) where
  init s := ∃ facts masterEnabled, s = .new (.probe facts none) masterEnabled
  step s label t :=
    label.1.Succeeds ∧ label.2.Ahead ∧ t = (s.handle label.1 label.2).1

/-- The record agrees with the platform after a call, and a re-arm that finds
waking enabled has armed the alarm that it elected. -/
def ArmedStep (e : System.Event BridgeState (Env × BridgeOp)) : Prop :=
  e.post.Agrees ∧
    ∀ due now t, e.label.2.rearms = some (some due, now) → e.post.capability.isEnabled →
      armInstant due now = .ok t → e.post.wake.ArmedAt t

namespace BridgeState

variable {env : Env} {s : BridgeState} {op : BridgeOp}

/-- A call that makes a re-arm leaves what that re-arm leaves. -/
theorem onPowerEvent_fst (ev : PowerEvent) (candidates : List WakeCandidate) (now : Int) :
    (s.onPowerEvent env ev candidates now).1 =
      match ev with
      | .suspending => (s.rearmFromCandidates env candidates now).1
      | .resumed =>
        ({ s with wake := (s.wake.onResumed env.resume).reProbe env.facts }.rearmFromCandidates
          env candidates now).1
      | .powerSourceChanged =>
        ((s.reProbe env.facts).rearmFromCandidates env candidates now).1 := by
  unfold onPowerEvent
  cases ev <;> (dsimp only; split <;> rfl)

theorem cancel_agrees_iff (hw : s.wake.Sound) (henv : env.Succeeds) :
    (s.cancel env).1.wake.Sound ∧
      ((s.cancel env).1.Agrees ↔
        (s.wake.sysfsOwned → s.wake.capability.mechanism = some .linuxWakealarmSysfs)) := by
  obtain ⟨w', hcall, hc⟩ := hw.cancelWake
  unfold cancel
  rw [henv.2.1, hcall]
  exact ⟨hc.sound, unarmed_iff hw hc⟩

/-- The state that the re-arm of a call starts from. -/
def atRearm (env : Env) (s : BridgeState) : BridgeOp → BridgeState
  | .power .resumed _ _ => { s with wake := (s.wake.onResumed env.resume).reProbe env.facts }
  | .power .powerSourceChanged _ _ => s.reProbe env.facts
  | _ => s

theorem handle_eq_rearm {nextDue : Option Int} {now : Int}
    (h : op.rearms = some (nextDue, now)) :
    (s.handle env op).1 = ((s.atRearm env op).rearm env nextDue now).1 := by
  cases op with
  | rearm nextDue' now' =>
    obtain ⟨rfl, rfl⟩ : nextDue' = nextDue ∧ now' = now := by simpa [BridgeOp.rearms] using h
    rfl
  | power ev candidates now' =>
    obtain ⟨rfl, rfl⟩ : electNextWake candidates = nextDue ∧ now' = now := by
      simpa [BridgeOp.rearms] using h
    unfold handle
    dsimp only
    rw [onPowerEvent_fst]
    cases ev <;> rfl
  | _ => simp [BridgeOp.rearms] at h

theorem atRearm_sound (hw : s.wake.Sound) (henv : env.Succeeds) (op : BridgeOp) :
    (s.atRearm env op).wake.Sound := by
  unfold atRearm
  split
  · rw [henv.1]
    exact (hw.onResumed.sound.reProbe _).sound
  · exact (hw.reProbe _).sound
  · exact hw

theorem handle_sound (hw : s.wake.Sound) (henv : env.Succeeds) (hahead : op.Ahead) :
    (s.handle env op).1.wake.Sound := by
  cases hop : op.rearms with
  | some call =>
    obtain ⟨nextDue, now⟩ := call
    rw [handle_eq_rearm hop]
    exact rearm_sound (atRearm_sound hw henv op) henv.2.1 henv.2.2 (hahead nextDue now hop)
  | none =>
    cases op with
    | cancel => exact (cancel_agrees_iff hw henv).1
    | setMasterEnabled enabled => exact hw
    | reProbe => exact (hw.reProbe _).sound
    | _ => simp [BridgeOp.rearms] at hop

/-- **Step lemma**: from a record in agreement, a call keeps the agreement
exactly if it neither drops the alarm nor orphans it. -/
theorem handle_agrees_iff (hw : s.wake.Sound) (hs : s.Agrees) (henv : env.Succeeds)
    (hahead : op.Ahead) : (s.handle env op).1.Agrees ↔ s.Kept env op := by
  have hrearm : ∀ nextDue now, op.rearms = some (nextDue, now) →
      ((s.handle env op).1.Agrees ↔
        ((s.atRearm env op).Unchanged (s.atRearm env op).wake.capability nextDue now →
          (s.atRearm env op).Agrees) ∧
        (¬(s.atRearm env op).Unchanged (s.atRearm env op).wake.capability nextDue now →
          (s.atRearm env op).wake.sysfsOwned →
            (s.atRearm env op).wake.capability.mechanism = some .linuxWakealarmSysfs)) := by
    intro nextDue now hop
    rw [handle_eq_rearm hop]
    exact rearm_agrees_iff (atRearm_sound hw henv op) henv.2.1 henv.2.2 (hahead nextDue now hop)
  cases op with
  | rearm nextDue now =>
    rw [hrearm nextDue now rfl]
    simp only [atRearm, hs, implies_true, true_and, Kept]
    tauto
  | cancel => exact (cancel_agrees_iff hw henv).2
  | setMasterEnabled enabled =>
    simp only [Kept, iff_true]
    exact hs
  | reProbe => exact agrees_reProbe_iff hw hs env.facts
  | power ev candidates now =>
    rw [hrearm _ now rfl]
    cases ev with
    | suspending =>
      simp only [atRearm, hs, implies_true, true_and, Kept]
      tauto
    | resumed =>
      have hr := hw.onResumed
      have hp := hr.sound.reProbe env.facts
      have howned : (s.atRearm env (.power .resumed candidates now)).wake.sysfsOwned = false := by
        simp only [atRearm, henv.1]
        rw [hp.sound.owned, hp.wakealarm, hr.wakealarm]
        rfl
      have hunchanged : (s.atRearm env (.power .resumed candidates now)).Unchanged
          (s.atRearm env (.power .resumed candidates now)).wake.capability
            (electNextWake candidates) now ↔
          s.Unchanged (probeInner env.facts).1 (electNextWake candidates) now := by
        simp only [atRearm, henv.1, hp.capability]
        rfl
      have hagrees := agrees_resumed_iff hw hs env.facts
      rw [← henv.1] at hagrees
      change (s.atRearm env (.power .resumed candidates now)).Agrees ↔ _ at hagrees
      rw [hunchanged, howned, hagrees]
      simp only [Kept]
      tauto
    | powerSourceChanged =>
      have hp := hw.reProbe env.facts
      have howned : (s.reProbe env.facts).wake.sysfsOwned = s.wake.sysfsOwned := by
        rw [hw.owned, ← hp.wakealarm]
        exact hp.sound.owned
      have hunchanged : (s.reProbe env.facts).Unchanged (s.reProbe env.facts).wake.capability
            (electNextWake candidates) now ↔
          s.Unchanged (probeInner env.facts).1 (electNextWake candidates) now := by
        rw [← hp.capability]
        rfl
      have hmech : (s.reProbe env.facts).wake.capability = (probeInner env.facts).1 :=
        hp.capability
      simp only [atRearm, Kept]
      rw [hunchanged, howned, hmech, agrees_reProbe_iff hw hs env.facts]
      tauto

/-- A re-arm that finds waking enabled records the alarm that it elected. -/
theorem handle_target (hw : s.wake.Sound) (henv : env.Succeeds) (hahead : op.Ahead)
    {due now t : Int} (hop : op.rearms = some (some due, now))
    (henabled : (s.handle env op).1.capability.isEnabled) (ht : armInstant due now = .ok t) :
    (s.handle env op).1.lastArmed = some t := by
  rw [handle_eq_rearm hop] at henabled ⊢
  exact rearm_target (atRearm_sound hw henv op) henv.2.1 henv.2.2 (hahead _ now hop) henabled
    rfl ht

theorem Agrees.armedAt {t : Int} (h : s.Agrees) (ht : s.lastArmed = some t) :
    s.wake.ArmedAt t := by
  unfold Agrees at h
  rw [ht] at h
  exact h

end BridgeState

/-! ### Runs of the bridge -/

/-- The record agrees with the platform after every call of a run, and every
re-arm that finds waking enabled has armed the alarm it elected, exactly if
no call drops an alarm or orphans one. -/
theorem lastArmed_agrees_iff {s₀ s : BridgeState}
    {tr : List (System.Event BridgeState (Env × BridgeOp))} (h0 : bridge.init s₀)
    (h : bridge.Run s₀ tr s) :
    (∀ e ∈ tr, ArmedStep e) ↔ ∀ e ∈ tr, e.pre.Kept e.label.1 e.label.2 := by
  obtain ⟨facts, master, rfl⟩ := h0
  apply h.forall_iff (I := fun s => s.wake.Sound ∧ s.Agrees)
  · exact ⟨.probe facts, LinuxWake.probe_unarmed facts⟩
  · rintro s ⟨env, op⟩ t ⟨henv, hahead, rfl⟩ ⟨hw, hs⟩
    rw [← BridgeState.handle_agrees_iff hw hs henv hahead]
    constructor
    · exact And.left
    · intro hagrees
      refine ⟨hagrees, fun due now t hop henabled ht => ?_⟩
      exact hagrees.armedAt (BridgeState.handle_target hw henv hahead hop henabled ht)
  · rintro s ⟨env, op⟩ t ⟨henv, hahead, rfl⟩ ⟨hw, hs⟩ hstep
    exact ⟨BridgeState.handle_sound hw henv hahead, hstep.1⟩

/-! ### A night with a timer at its end

The clock reads 1000 s when the alarm is armed and 2000 s when the machine is
woken by hand; the timer is due at 10000 s. -/

/-- A machine where the process may open an alarm timerfd. -/
def timerfdFacts : ProbeFacts := ⟨true, some "enabled", .ok, true⟩

/-- A machine where it may not, but may write the register. -/
def sysfsFacts : ProbeFacts := ⟨true, some "enabled", .permissionDenied, true⟩

/-- Every call succeeds, and every probe reads `facts`. -/
def calm (facts : ProbeFacts) : Env := ⟨.ok, .ok, .ok, facts, facts⟩

/-- The alarm is armed, and the machine suspended and resumed. -/
def night : List BridgeOp :=
  [.rearm (some (secs 10000)) (secs 1000),
    .power .resumed [⟨true, true, some (secs 10000)⟩] (secs 2000)]

/-- The trace of some calls on such a machine. -/
def bridgeTrace (facts : ProbeFacts) (ops : List BridgeOp) :
    List (System.Event BridgeState (Env × BridgeOp)) :=
  System.trace (fun s label => (s.handle label.1 label.2).1)
    (.new (.probe facts none) true) (ops.map (calm facts, ·))

theorem ahead_of_arm {op : BridgeOp} {due now t : Int} (hop : op.rearms = some (some due, now))
    (ht : armInstant due now = .ok t) (hpos : 0 < epochSecs t) : op.Ahead := by
  intro nextDue now' hop' due' t' hdue ht'
  obtain ⟨rfl, rfl⟩ : some due = nextDue ∧ now = now' := by simpa [hop] using hop'
  obtain rfl : due = due' := by simpa using hdue
  obtain rfl : t = t' := by simpa [ht] using ht'
  exact hpos

theorem night_run (facts : ProbeFacts) :
    ∃ s, bridge.Run (.new (.probe facts none) true) (bridgeTrace facts night) s := by
  have hsucceeds : (calm facts).Succeeds := ⟨rfl, rfl, rfl⟩
  have hearly : armInstant (secs 10000) (secs 1000) = .ok (secs 9955) := by decide +kernel
  have hlate : armInstant (secs 10000) (secs 2000) = .ok (secs 9955) := by decide +kernel
  have hrearm : (BridgeOp.rearm (some (secs 10000)) (secs 1000)).Ahead :=
    ahead_of_arm rfl hearly (by decide)
  have hresume : (BridgeOp.power .resumed [⟨true, true, some (secs 10000)⟩] (secs 2000)).Ahead :=
    ahead_of_arm (by rfl) hlate (by decide)
  refine ⟨_, System.Run.cons ?_ (System.Run.cons ?_ .nil)⟩
  · exact ⟨hsucceeds, hrearm, rfl⟩
  · exact ⟨hsucceeds, hresume, rfl⟩

/-- On a timerfd the alarm survives the resume. -/
theorem lastArmed_agrees_timerfd :
    (bridgeTrace timerfdFacts night).isEmpty = false ∧
      ∀ e ∈ bridgeTrace timerfdFacts night, ArmedStep e := by
  refine ⟨by decide +kernel, ?_⟩
  obtain ⟨s, hrun⟩ := night_run timerfdFacts
  refine (lastArmed_agrees_iff ⟨timerfdFacts, true, rfl⟩ hrun).mpr ?_
  decide +kernel

/-- In the register the resume clears it, the re-arm finds its target
unchanged, and the machine sleeps through the timer. -/
theorem lastArmed_disagrees :
    ¬∀ (s₀ s : BridgeState) (tr : List (System.Event BridgeState (Env × BridgeOp))),
      bridge.init s₀ → bridge.Run s₀ tr s → ∀ e ∈ tr, ArmedStep e := by
  intro h
  obtain ⟨s, hrun⟩ := night_run sysfsFacts
  have harmed : ∀ e ∈ bridgeTrace sysfsFacts night, e.post.Agrees := fun e he =>
    (h _ _ _ ⟨sysfsFacts, true, rfl⟩ hrun e he).1
  revert harmed
  decide +kernel

end Bellman

/-
Bellman/Wake.lean

Waking the machine: the Linux wake controller and the bridge over it.

One alarm is armed at a time, for the earliest timer that may wake the
machine.  It lives in one of two places of the platform,

    a timerfd             held open by the process, to the nanosecond
    the wakealarm file    one register for the whole machine, in seconds

and which of them is in use is what the last probe found.  The register is
shared: a program that wants it clears it and writes its own second, and
another program's alarm that is displaced so has to be put back.

The platform's answers are arguments.  `Io` says how each system call of an
operation comes out, and `ProbeFacts` what a probe reads.  The register
keeps next to each alarm who put it there; no operation of the controller
reads that.

The bridge remembers the last target it armed and skips the platform when
the next one is the same.
-/
import Bellman.Interval

namespace Bellman

open Occurrence (maxUtc)

/-! ### Capabilities -/

/-- The hardware or system mechanism that resumes the machine. -/
inductive WakeMechanism where
  | linuxAlarmTimerfd
  | linuxWakealarmSysfs
  | windowsWaitableTimer
  | macPmDaemon
  deriving Repr, DecidableEq

/-- The mechanism's name for people. -/
def WakeMechanism.asStr : WakeMechanism → String
  | .linuxAlarmTimerfd => "Linux timerfd (CLOCK_REALTIME_ALARM)"
  | .linuxWakealarmSysfs => "Linux sysfs wakealarm"
  | .windowsWaitableTimer => "Windows waitable timer"
  | .macPmDaemon => "macOS power-management daemon"

/-- Soft caveats of an enabled capability. -/
inductive Caveat where
  | modernStandbyScreenOff
  | appleSiliconBestEffort
  | batteryRailExcluded
  | hibernateNotGuaranteed
  deriving Repr, DecidableEq

/-- The power rail a probe answered for. -/
inductive PowerRail where
  | ac
  | dc
  deriving Repr, DecidableEq

/-- Why waking is unavailable. -/
inductive DisabledReason where
  | unsupportedOs
  | noRtc
  | rtcNotWakeCapable
  | noPermission (hint : String)
  | wakeTimersDisabledByPolicy (rail : PowerRail) (value : Nat)
  | resumeTimersUnsupported
  | helperNotInstalled
  | helperAwaitingApproval
  | probeFailed (detail : String)
  | masterDisabled
  deriving Repr, DecidableEq

/-- The result of a probe. -/
inductive WakeCapability where
  | enabled (mechanism : WakeMechanism) (caveats : List Caveat)
  | disabled (reason : DisabledReason)
  deriving Repr, DecidableEq

def WakeCapability.isEnabled : WakeCapability → Bool
  | .enabled _ _ => true
  | .disabled _ => false

/-- The mechanism of an enabled capability. -/
def WakeCapability.mechanism : WakeCapability → Option WakeMechanism
  | .enabled mechanism _ => some mechanism
  | .disabled _ => none

/-- Errors from arming and cancelling. -/
inductive WakeError where
  | disabled
  | io (message : String)
  | unsupported
  deriving Repr, DecidableEq

/-! ### The platform -/

/-- Who put an alarm into the wakealarm register. -/
inductive Party where
  | bellman
  | other
  deriving Repr, DecidableEq

/-- An alarm in the register: an epoch second, and who put it there. -/
structure Alarm where
  epoch : Int
  party : Party
  deriving Repr, DecidableEq

/-- The wakealarm register, which holds one alarm or none. -/
abbrev Wakealarm := Option Alarm

/-- The instant a timerfd is set to. -/
abbrev Timerfd := Option Int

/-- How the system calls of one operation come out: the message of the ones
that fail. -/
structure Io where
  /-- `timerfd_settime`. -/
  settime : Option String
  /-- Reading the register. -/
  read : Option String
  /-- Writing the `0` that clears the register, whose failure is ignored. -/
  clear : Bool
  /-- Writing an epoch into the register. -/
  set : Option String
  deriving Repr, DecidableEq

/-- Every call succeeds. -/
def Io.ok : Io := ⟨none, none, true, none⟩

/-- What `timerfd_create` answers. -/
inductive TimerfdCreate where
  | ok
  | permissionDenied
  | failed (message : String)
  deriving Repr, DecidableEq

/-- What a probe reads on the machine. -/
structure ProbeFacts where
  /-- `/sys/class/rtc/rtc0` exists. -/
  rtcPresent : Bool
  /-- The trimmed text of the RTC's `wakeup` node, where it can be read. -/
  wakeup : Option String
  timerfd : TimerfdCreate
  /-- The `wakealarm` file exists and opens for writing. -/
  wakealarmWritable : Bool
  deriving Repr, DecidableEq

def NO_PERM_HINT : String :=
  "systemd ≥254 local session / AmbientCapabilities=CAP_WAKE_ALARM / setcap / udev rule"

/-- `probe_inner`: the capability, and the timerfd it holds open. -/
def probeInner (facts : ProbeFacts) : WakeCapability × Option Timerfd :=
  if !facts.rtcPresent then (.disabled .noRtc, none)
  else if facts.wakeup.any (· ≠ "enabled") then (.disabled .rtcNotWakeCapable, none)
  else
    match facts.timerfd with
    | .ok => (.enabled .linuxAlarmTimerfd [.hibernateNotGuaranteed], some none)
    | .permissionDenied =>
      if facts.wakealarmWritable then
        (.enabled .linuxWakealarmSysfs [.hibernateNotGuaranteed], none)
      else (.disabled (.noPermission NO_PERM_HINT), none)
    | .failed e => (.disabled (.probeFailed ("timerfd_create: " ++ e)), none)

/-! ### The Linux controller -/

/-- The controller's state, with the register of the machine it runs on. -/
structure LinuxWake where
  capability : WakeCapability
  /-- Held open when the mechanism is the timerfd. -/
  timerfd : Option Timerfd
  /-- The epoch second last programmed. -/
  armedEpoch : Option Int
  /-- The foreign alarm that was displaced. -/
  displacedForeign : Option Int
  /-- Whether the value in the register is ours. -/
  sysfsOwned : Bool
  wakealarm : Wakealarm
  deriving Repr, DecidableEq

/-- `DateTime::timestamp`. -/
def epochSecs (t : Int) : Int := t / NS

/-- `set_timerfd_absolute`: no timer is set before the epoch, and the epoch
itself is the value that disarms. -/
def setTimerfdAbsolute (io : Io) (t : Int) : Except String Timerfd :=
  match io.settime with
  | some e => .error e
  | none =>
    if t < 0 then .error "Invalid argument (os error 22)"
    else if t = 0 then .ok none
    else .ok (some t)

/-- `disarm_timerfd`. -/
def disarmTimerfd (io : Io) : Except String Timerfd :=
  match io.settime with
  | some e => .error e
  | none => .ok none

/-- `read_wakealarm_epoch`. -/
def readWakealarmEpoch (io : Io) (register : Wakealarm) : Except String (Option Int) :=
  match io.read with
  | some e => .error e
  | none => .ok (register.map (·.epoch))

/-- `write_wakealarm_clear_set`: clear, then set.  A register that still
holds an alarm refuses a new one, and one that is not in the future leaves
it empty. -/
def writeWakealarmClearSet (io : Io) (register : Wakealarm) (party : Party)
    (epoch : Option Int) : Wakealarm × Except String Unit :=
  let register := if io.clear then none else register
  match epoch with
  | none => (register, .ok ())
  | some e =>
    match io.set, register with
    | some message, _ => (register, .error message)
    | none, some _ => (register, .error "Device or resource busy (os error 16)")
    | none, none => (if 0 < e then some ⟨e, party⟩ else none, .ok ())

/-- `plan_sysfs_program`'s decision. -/
structure SysfsProgramPlan where
  /-- The epoch to program; `none` leaves a foreign alarm alone. -/
  writeEpoch : Option Int
  /-- The foreign alarm that must be put back afterwards. -/
  displaceForeign : Option Int
  ownSlot : Bool
  deriving Repr, DecidableEq

/-- `plan_sysfs_program`: displace only later alarms, keep earlier ones. -/
def planSysfsProgram (current : Option Int) (ours : Int) : SysfsProgramPlan :=
  match current with
  | some foreign =>
    if 0 < foreign ∧ foreign ≤ ours then ⟨none, none, false⟩
    else if 0 < foreign ∧ ours < foreign then ⟨some ours, some foreign, true⟩
    else ⟨some ours, none, true⟩
  | none => ⟨some ours, none, true⟩

/-- `plan_sysfs_restore`: the epoch to write back, or `none` to clear. -/
def planSysfsRestore (sysfsOwned : Bool) (displacedForeign : Option Int) : Option Int :=
  if !sysfsOwned && displacedForeign.isNone then none else displacedForeign

namespace LinuxWake

/-- `LinuxWake::probe`, on a machine whose register holds `register`. -/
def probe (facts : ProbeFacts) (register : Wakealarm) : LinuxWake :=
  let (capability, timerfd) := probeInner facts
  ⟨capability, timerfd, none, none, false, register⟩

/-- `program_sysfs`. -/
def programSysfs (io : Io) (w : LinuxWake) (t : Int) : LinuxWake × Except String Unit :=
  let ours := epochSecs t
  match readWakealarmEpoch io w.wakealarm with
  | .error e => (w, .error e)
  | .ok current =>
    let plan := planSysfsProgram current ours
    match plan.writeEpoch with
    | none =>
      ({ w with
          armedEpoch := none, sysfsOwned := plan.ownSlot,
          displacedForeign := plan.displaceForeign }, .ok ())
    | some e =>
      match writeWakealarmClearSet io w.wakealarm .bellman (some e) with
      | (register, .error message) => ({ w with wakealarm := register }, .error message)
      | (register, .ok ()) =>
        ({ w with
            wakealarm := register, armedEpoch := some e, sysfsOwned := plan.ownSlot,
            displacedForeign := plan.displaceForeign }, .ok ())

/-- `cancel_sysfs`: what was displaced is taken out of the state before it
is written back. -/
def cancelSysfs (io : Io) (w : LinuxWake) : LinuxWake × Except String Unit :=
  if w.sysfsOwned then
    match writeWakealarmClearSet io w.wakealarm .other w.displacedForeign with
    | (register, .error message) =>
      ({ w with wakealarm := register, displacedForeign := none }, .error message)
    | (register, .ok ()) =>
      ({ w with
          wakealarm := register, displacedForeign := none, sysfsOwned := false,
          armedEpoch := none }, .ok ())
  else ({ w with armedEpoch := none }, .ok ())

/-- `re_probe`: an armed timerfd is kept while that mechanism is the one. -/
def reProbe (facts : ProbeFacts) (w : LinuxWake) : LinuxWake :=
  match probeInner facts with
  | (capability, fd) =>
    if capability.mechanism = some .linuxAlarmTimerfd then
      { w with capability := capability, timerfd := if w.timerfd.isNone then fd else w.timerfd }
    else { w with capability := capability, timerfd := fd, armedEpoch := none }

/-- `program_wake`. -/
def programWake (io : Io) (w : LinuxWake) (t : Int) : LinuxWake × Except WakeError Unit :=
  match w.capability with
  | .disabled _ => (w, .ok ())
  | .enabled .linuxAlarmTimerfd _ =>
    match w.timerfd with
    | none => (w, .error (.io "timerfd missing despite Enabled"))
    | some _ =>
      match setTimerfdAbsolute io t with
      | .error e => (w, .error (.io e))
      | .ok setting =>
        ({ w with timerfd := some setting, armedEpoch := some (epochSecs t) }, .ok ())
  | .enabled .linuxWakealarmSysfs _ =>
    match w.programSysfs io t with
    | (w', .error e) => (w', .error (.io e))
    | (w', .ok ()) => (w', .ok ())
  | .enabled mechanism _ =>
    (w, .error (.io ("linux controller cannot arm via " ++ mechanism.asStr)))

/-- `cancel_wake`. -/
def cancelWake (io : Io) (w : LinuxWake) : LinuxWake × Except WakeError Unit :=
  match w.capability with
  | .enabled .linuxAlarmTimerfd _ =>
    match w.timerfd with
    | none => ({ w with armedEpoch := none }, .ok ())
    | some _ =>
      match disarmTimerfd io with
      | .error e => (w, .error (.io e))
      | .ok setting => ({ w with timerfd := some setting, armedEpoch := none }, .ok ())
  | .enabled .linuxWakealarmSysfs _ =>
    match w.cancelSysfs io with
    | (w', .error e) => (w', .error (.io e))
    | (w', .ok ()) => (w', .ok ())
  | _ => ({ w with armedEpoch := none }, .ok ())

/-- `on_resumed`: the displaced alarm is put back, or ours is cleared. -/
def onResumed (io : Io) (w : LinuxWake) : LinuxWake :=
  if w.sysfsOwned || w.displacedForeign.isSome then
    let restore := planSysfsRestore w.sysfsOwned w.displacedForeign
    { w with
      wakealarm := (writeWakealarmClearSet io w.wakealarm .other restore).1,
      displacedForeign := none, sysfsOwned := false, armedEpoch := none }
  else w

end LinuxWake

/-! ### The bridge -/

/-- The slack between the alarm and the time a timer is due, in seconds. -/
def ARM_SLACK_SECS : Int := 45

/-- `arm_instant`: the slack before the due time, but not before the next
second.  Arithmetic that leaves the range of `DateTime` panics. -/
def armInstant (wakeUtc now : Int) : Except Panic Int :=
  let target := wakeUtc - secs ARM_SLACK_SECS
  let floor := now + secs 1
  if target < minUtc then .error (.dateTimeOverflow target)
  else if maxUtc < floor then .error (.dateTimeOverflow floor)
  else .ok (if target < floor then floor else target)

/-- A timer that the election sees. -/
structure WakeCandidate where
  enabled : Bool
  wakeMachine : Bool
  nextFireUtc : Option Int
  deriving Repr, DecidableEq

/-- `elect_next_wake`: the earliest due time among the timers that may wake
the machine. -/
def electNextWake (timers : List WakeCandidate) : Option Int :=
  ((timers.filter fun t => t.enabled && t.wakeMachine).filterMap (·.nextFireUtc)).min?

/-- Suspend, resume and power-source events. -/
inductive PowerEvent where
  | suspending
  | resumed
  | powerSourceChanged
  deriving Repr, DecidableEq

structure BridgeState where
  wake : LinuxWake
  /-- The user's toggle. -/
  masterEnabled : Bool
  lastTarget : Option Int
  lastCapability : WakeCapability
  deriving Repr, DecidableEq

/-- How a re-arm fails. -/
inductive RearmError where
  | wake (e : WakeError)
  | panic (p : Panic)
  deriving Repr, DecidableEq

/-- The platform's answers during one call of the bridge. -/
structure Env where
  /-- On resume. -/
  resume : Io
  cancel : Io
  program : Io
  /-- What the call's own probe reads. -/
  facts : ProbeFacts
  /-- What the probe after a failed arming reads. -/
  retry : ProbeFacts
  deriving Repr, DecidableEq

/-- `effective_cap`. -/
def effectiveCap (platform : WakeCapability) (masterEnabled : Bool) : WakeCapability :=
  if !masterEnabled then .disabled .masterDisabled else platform

namespace BridgeState

/-- `SingleNextWake::new`. -/
def new (wake : LinuxWake) (masterEnabled : Bool) : BridgeState :=
  ⟨wake, masterEnabled, none, wake.capability⟩

/-- `set_master_enabled`. -/
def setMasterEnabled (enabled : Bool) (s : BridgeState) : BridgeState :=
  { s with masterEnabled := enabled }

/-- `capability`: what the platform can do, as far as the user allows it. -/
def capability (s : BridgeState) : WakeCapability :=
  effectiveCap s.wake.capability s.masterEnabled

/-- `re_probe`. -/
def reProbe (facts : ProbeFacts) (s : BridgeState) : BridgeState :=
  let wake := s.wake.reProbe facts
  { s with wake := wake, lastCapability := wake.capability }

/-- `rearm`: cancel, then program the elected due time. -/
def rearm (env : Env) (s : BridgeState) (nextDue : Option Int) (now : Int) :
    BridgeState × Except RearmError Unit :=
  if !s.capability.isEnabled then
    ({ s with wake := (s.wake.cancelWake env.cancel).1, lastTarget := none }, .ok ())
  else
    match nextDue with
    | none =>
      match s.wake.cancelWake env.cancel with
      | (wake, .error e) => ({ s with wake := wake }, .error (.wake e))
      | (wake, .ok ()) => ({ s with wake := wake, lastTarget := none }, .ok ())
    | some due =>
      match armInstant due now with
      | .error p => (s, .error (.panic p))
      | .ok t =>
        if s.lastTarget = some t then (s, .ok ())
        else
          match s.wake.cancelWake env.cancel with
          | (wake, .error e) => ({ s with wake := wake }, .error (.wake e))
          | (wake, .ok ()) =>
            match wake.programWake env.program t with
            | (wake, .ok ()) => ({ s with wake := wake, lastTarget := some t }, .ok ())
            | (wake, .error e) =>
              let wake := wake.reProbe env.retry
              ({ s with wake := wake, lastCapability := wake.capability, lastTarget := none },
                .error (.wake e))

/-- `rearm_from_candidates`. -/
def rearmFromCandidates (env : Env) (s : BridgeState) (candidates : List WakeCandidate)
    (now : Int) : BridgeState × Except RearmError Unit :=
  s.rearm env (electNextWake candidates) now

/-- `cancel`. -/
def cancel (env : Env) (s : BridgeState) : BridgeState × Except RearmError Unit :=
  match s.wake.cancelWake env.cancel with
  | (wake, .error e) => ({ s with wake := wake, lastTarget := none }, .error (.wake e))
  | (wake, .ok ()) => ({ s with wake := wake, lastTarget := none }, .ok ())

/-- `on_power_event`: only a panic of the re-arm gets out of it. -/
def onPowerEvent (env : Env) (s : BridgeState) (ev : PowerEvent)
    (candidates : List WakeCandidate) (now : Int) : BridgeState × Except RearmError Unit :=
  let (s', result) :=
    match ev with
    | .suspending => s.rearmFromCandidates env candidates now
    | .resumed =>
      let wake := (s.wake.onResumed env.resume).reProbe env.facts
      { s with wake := wake }.rearmFromCandidates env candidates now
    | .powerSourceChanged => (s.reProbe env.facts).rearmFromCandidates env candidates now
  match result with
  | .error (.panic p) => (s', .error (.panic p))
  | _ => (s', .ok ())

/-- `last_armed`. -/
def lastArmed (s : BridgeState) : Option Int := s.lastTarget

end BridgeState

end Bellman

/-
Bellman/Executor.lean

The action executor: one claim's action, with retries, permits and a
cancellation token.

`execute` runs attempts in a loop.  Each attempt first takes a permit of the
limiter that all workers share, and blocks while there is none; under the
permit it shows a notification or starts a program and polls it until it
exits, is killed for the token, or is killed for its timeout.  A failed
attempt is followed by a backoff, which polls the token too.

Every read of the token, of the clock, of the child and of the limiter is a
step of its own, and between any two of them the token may be set and other
workers may take and return permits.

The token is read before the permit is waited for and not after, so an
attempt can start after the token was set; and what is reported as
`attempts` is the number of retries.
-/
import Bellman.Commit

namespace Bellman

open ProgramLogic

/-! ### Permits -/

/-- A counter of the limiter goes up by one. -/
def bump (n : Nat) : Nat := min (n + 1) (2 ^ 64 - 1)

/-- `ActionLimiter`: its cap, and the counters behind its mutex. -/
structure Limiter where
  max : Nat
  inFlight : Nat := 0
  peakInFlight : Nat := 0
  completed : Nat := 0
  queueWaits : Nat := 0
  waiters : Nat := 0
  deriving Repr, DecidableEq

/-- What another worker does with the limiter. -/
inductive PermitMove where
  | acquire
  | wake
  | release
  deriving Repr, DecidableEq

namespace Limiter

def new (maxConcurrent : Nat) : Limiter := { max := Nat.max maxConcurrent 1 }

/-- No permit is free. -/
def full (l : Limiter) : Bool := decide (l.max ≤ l.inFlight)

/-- The end of `acquire`: the caller has its permit. -/
def take (l : Limiter) : Limiter :=
  { l with
    inFlight := bump l.inFlight
    peakInFlight := Nat.max l.peakInFlight (bump l.inFlight) }

/-- The caller of `acquire` has to wait. -/
def queue (l : Limiter) : Limiter :=
  { l with queueWaits := bump l.queueWaits, waiters := bump l.waiters }

/-- The end of the wait. -/
def wake (l : Limiter) : Limiter := take { l with waiters := l.waiters - 1 }

def release (l : Limiter) : Limiter :=
  { l with inFlight := l.inFlight - 1, completed := bump l.completed }

/-- A move of another worker; `own` permits and `waiting` waiters are not
its own. -/
def other (l : Limiter) (own waiting : Nat) : PermitMove → Option Limiter
  | .acquire => some (if l.full then l.queue else l.take)
  | .wake => if l.full = false ∧ waiting < l.waiters then some l.wake else none
  | .release => if own < l.inFlight then some l.release else none

/-- No more permits are out than there are. -/
structure Ok (l : Limiter) : Prop where
  pos : 0 < l.max
  le : l.inFlight ≤ l.max

theorem Ok.take {l : Limiter} (h : l.Ok) (hfull : l.full = false) : l.take.Ok := by
  have hlt : l.inFlight < l.max := by simpa [full] using hfull
  have hbump : bump l.inFlight ≤ l.inFlight + 1 := Nat.min_le_left ..
  exact ⟨h.pos, hbump.trans hlt⟩

theorem Ok.queue {l : Limiter} (h : l.Ok) : l.queue.Ok := ⟨h.pos, h.le⟩

theorem Ok.wake {l : Limiter} (h : l.Ok) (hfull : l.full = false) : l.wake.Ok :=
  Ok.take (l := { l with waiters := l.waiters - 1 }) ⟨h.pos, h.le⟩ hfull

theorem Ok.release {l : Limiter} (h : l.Ok) : l.release.Ok :=
  ⟨h.pos, (Nat.sub_le ..).trans h.le⟩

theorem Ok.other {l l' : Limiter} (h : l.Ok) {own waiting : Nat} {m : PermitMove}
    (hm : l.other own waiting m = some l') : l'.Ok := by
  cases m with
  | acquire =>
    obtain rfl := Option.some.inj hm
    cases hfull : l.full with
    | true => simpa [hfull] using h.queue
    | false => simpa [hfull] using h.take hfull
  | wake =>
    obtain ⟨⟨hfull, -⟩, hl⟩ := Option.ite_none_right_eq_some.mp hm
    obtain rfl := Option.some.inj hl
    exact h.wake hfull
  | release =>
    obtain ⟨-, hl⟩ := Option.ite_none_right_eq_some.mp hm
    obtain rfl := Option.some.inj hl
    exact h.release

end Limiter

/-! ### One attempt -/

/-- `ExecutorConfig`, without the cap on output: what a launch returns is
capped already. -/
structure ExecutorConfig where
  launchTimeout : Nat := 60000000000
  skipRetrySleep : Bool := false

/-- How a child exited, what it wrote, and how long it ran. -/
structure Exit where
  code : Option Int
  output : String
  duration : Nat
  deriving Repr, DecidableEq

/-- `LaunchOutcome`. -/
structure LaunchOutcome where
  exit : Exit
  timedOut : Bool := false
  killed : Bool := false
  cancelled : Bool := false
  deriving Repr, DecidableEq

/-- How an attempt ended. -/
inductive ActionAttempt where
  | nothing
  | shown (stub : Bool) (title : String)
  | launched (out : LaunchOutcome)
  /-- `LaunchError::Spawn`. -/
  | spawnError (command error : String)
  /-- `LaunchError::Io`, from the poll or from the wait after a kill. -/
  | pollError (error : String)
  | waitError (cancelled : Bool) (error : String)
  deriving Repr, DecidableEq

/-- The error text of a cancelled launch. -/
def CANCELLED : String := "cancelled by overlap policy (replace)"

/-- `truncate_utf8`. -/
def truncateUtf8 (s : String) (max : Nat) : String :=
  if s.utf8ByteSize ≤ max then s else String.ofList (takeBytes max s.toList) ++ "…"

/-- A duration in nanoseconds, as `{:?}` writes it. -/
def debugDuration (ns : Nat) : String :=
  let decimal (unit width : Nat) (suffix : String) : String :=
    let digits := Nat.toDigits 10 (ns % unit)
    let padded := List.replicate (width - digits.length) '0' ++ digits
    let fraction := (padded.reverse.dropWhile (· == '0')).reverse
    toString (ns / unit) ++ (if fraction = [] then "" else "." ++ String.ofList fraction) ++ suffix
  if 1000000000 ≤ ns then decimal 1000000000 9 "s"
  else if 1000000 ≤ ns then decimal 1000000 6 "ms"
  else if 1000 ≤ ns then decimal 1000 3 "µs"
  else toString ns ++ "ns"

/-- The `Result` of `execute_once`. -/
def ActionAttempt.result (cfg : ExecutorConfig) : ActionAttempt → Except String String
  | nothing => .ok "action=none"
  | shown stub title => .ok ((if stub then "notify stub" else "notify") ++ " title=" ++ title)
  | spawnError command error => .error ("spawn '" ++ command ++ "': " ++ error)
  | pollError error => .error ("try_wait: " ++ error)
  | waitError cancelled error =>
    .error ((if cancelled then "wait after cancel kill: " else "wait after kill: ") ++ error)
  | launched out =>
    if out.cancelled then .error CANCELLED
    else if out.timedOut then
      .error ("launch timed out after " ++ debugDuration cfg.launchTimeout ++ " (killed=" ++
        toString out.killed ++ ")")
    else
      match out.exit.code with
      | some 0 => .ok ("launch ok exit=0 duration=" ++ debugDuration out.exit.duration)
      | none => .error "launch exited by signal"
      | some code =>
        .error ("launch exit=" ++ toString code ++ " output=" ++ truncateUtf8 out.exit.output 200)

/-- The attempt was killed for the token. -/
def ActionAttempt.wasCancelled : ActionAttempt → Bool
  | launched out => out.cancelled
  | _ => false

def ActionAttempt.succeeded (cfg : ExecutorConfig) (a : ActionAttempt) : Bool :=
  match a.result cfg with
  | .ok _ => true
  | .error _ => false

/-- The attempt failed, and not for the token. -/
def ActionAttempt.failed (cfg : ExecutorConfig) (a : ActionAttempt) : Bool :=
  !a.succeeded cfg && !a.wasCancelled

/-! ### The loop -/

/-- `ExecOutcome`. -/
inductive ExecOutcome where
  | delivered (message : String) (attempts : Nat)
  | failed (error : String) (attempts : Nat)
  | cancelled
  deriving Repr, DecidableEq

namespace ExecOutcome

/-- What the worker makes of the outcome. -/
def jobEnd : ExecOutcome → JobEnd
  | delivered message attempts => .delivered message attempts
  | failed error attempts => .failed error attempts
  | cancelled => .cancelled

/-- The reported `attempts`. -/
def attempts? : ExecOutcome → Option Nat
  | delivered _ attempts | failed _ attempts => some attempts
  | cancelled => none

theorem note_jobEnd (o : ExecOutcome) : o.jobEnd.note.count = o.attempts? := by
  cases o <;> rfl

end ExecOutcome

/-- Where the worker stands. -/
inductive ExecPhase where
  /-- The top of the loop: the token is read next. -/
  | check
  /-- `acquire` is called. -/
  | acquire
  /-- Blocked in `acquire`. -/
  | waiting
  /-- The permit is held; the attempt starts next. -/
  | permitted
  /-- A child was started; it is polled next. -/
  | polling
  /-- The child still runs; the token is read next. -/
  | running
  /-- The token was not set; the clock is read next. -/
  | uncancelled
  /-- The child is killed, for the token or for its timeout, and waited for. -/
  | killed (cancelled : Bool)
  /-- The attempt is over; the permit is returned next. -/
  | closing (a : ActionAttempt)
  /-- The action panics, and the permit is returned next. -/
  | panicking
  /-- The head of the backoff loop: the clock is read next. -/
  | backoff
  /-- In the backoff loop: the token is read next. -/
  | slice
  | returned (o : ExecOutcome)
  /-- A panic has left `execute`. -/
  | unwound
  deriving Repr, DecidableEq

namespace ExecPhase

/-- The permits held in a phase. -/
def permits : ExecPhase → Nat
  | permitted | polling | running | uncancelled | killed _ | closing _ | panicking => 1
  | _ => 0

def waiters : ExecPhase → Nat
  | waiting => 1
  | _ => 0

/-- The token was read for the next attempt, which has not started. -/
def awaitsPermit : ExecPhase → Bool
  | acquire | waiting | permitted => true
  | _ => false

/-- An attempt has started and is not over. -/
def attempting : ExecPhase → Bool
  | polling | running | uncancelled | killed _ | closing _ | panicking => true
  | _ => false

end ExecPhase

/-- The state `execute` works on. -/
structure Execution where
  limiter : Limiter
  token : Bool := false
  attempt : Nat := 0
  phase : ExecPhase := .check
  deriving DecidableEq

/-- What happens when an attempt starts. -/
inductive Begun where
  | nothing
  /-- The sink's answer; the title as `{:?}` writes it. -/
  | shown (stub : Bool) (title : String)
  | spawned
  | spawnError (error : String)
  | panics
  deriving Repr, DecidableEq

/-- The answer of `try_wait`. -/
inductive ChildState where
  | exited (e : Exit)
  | running
  | unknown (error : String)
  deriving Repr, DecidableEq

/-- The steps of the worker, with what it reads, and of those beside it. -/
inductive ExecMove where
  /-- The token is set. -/
  | cancel
  | other (m : PermitMove)
  | check
  | acquire
  | wake
  | start (b : Begun)
  | tryWait (w : ChildState)
  | readToken
  | readClock (elapsed : Nat)
  /-- The wait for a killed child. -/
  | reap (r : Except String Exit)
  /-- The permit is returned, and the result looked at. -/
  | finish
  deriving DecidableEq

/-- The start of an attempt, by its action. -/
def beginAttempt : Action → Begun → Option ExecPhase
  | .none, .nothing => some (.closing .nothing)
  | .notify .., .shown stub title => some (.closing (.shown stub title))
  | .notify .., .panics | .launch .., .panics => some .panicking
  | .launch .., .spawned => some .polling
  | .launch command _ _, .spawnError error => some (.closing (.spawnError command error))
  | _, _ => none

/-- A poll of the child. -/
def ChildState.polled : ChildState → ExecPhase
  | .exited e => .closing (.launched { exit := e })
  | .running => .running
  | .unknown error => .closing (.pollError error)

/-- The wait for a child killed for the token, or for its timeout. -/
def reaped (cancelled : Bool) : Except String Exit → ActionAttempt
  | .ok e => .launched { exit := e, timedOut := !cancelled, killed := true, cancelled }
  | .error error => .waitError cancelled error

namespace Execution

def goto (x : Execution) (p : ExecPhase) : Execution := { x with phase := p }

def delay (t : Timer) : Nat := t.retry.delaySecs * 1000000000

/-- What `execute` does with the result of an attempt. -/
def conclude (cfg : ExecutorConfig) (t : Timer) (x : Execution) (r : Except String String) :
    Execution :=
  match r with
  | .ok message => x.goto (.returned (.delivered message x.attempt))
  | .error e =>
    if e = CANCELLED then x.goto (.returned .cancelled)
    else if t.retry.maxRetries ≤ x.attempt then x.goto (.returned (.failed e x.attempt))
    else
      { x with
        attempt := x.attempt + 1
        phase := if cfg.skipRetrySleep || delay t == 0 then .check else .backoff }

/-- One step, if it is enabled. -/
def next (cfg : ExecutorConfig) (t : Timer) (x : Execution) (m : ExecMove) : Option Execution :=
  match x.phase, m with
  | _, .cancel => some { x with token := true }
  | _, .other m =>
    (x.limiter.other x.phase.permits x.phase.waiters m).map fun l => { x with limiter := l }
  | .check, .check => some (x.goto (if x.token then .returned .cancelled else .acquire))
  | .acquire, .acquire =>
    some (if x.limiter.full then { x with limiter := x.limiter.queue, phase := .waiting }
      else { x with limiter := x.limiter.take, phase := .permitted })
  | .waiting, .wake =>
    if x.limiter.full then none
    else some { x with limiter := x.limiter.wake, phase := .permitted }
  | .permitted, .start b => (beginAttempt t.action b).map x.goto
  | .polling, .tryWait w => some (x.goto w.polled)
  | .running, .readToken => some (x.goto (if x.token then .killed true else .uncancelled))
  | .uncancelled, .readClock elapsed =>
    some (x.goto (if cfg.launchTimeout ≤ elapsed then .killed false else .polling))
  | .killed cancelled, .reap r => some (x.goto (.closing (reaped cancelled r)))
  | .closing a, .finish =>
    some (conclude cfg t { x with limiter := x.limiter.release } (a.result cfg))
  | .panicking, .finish => some { x with limiter := x.limiter.release, phase := .unwound }
  | .backoff, .readClock elapsed =>
    some (x.goto (if elapsed < delay t then .slice else .check))
  | .slice, .readToken => some (x.goto (if x.token then .returned .cancelled else .backoff))
  | _, _ => none

end Execution

/-- `execute`, with the limiter in any state and the token set or not when it is
called. -/
def executor (cfg : ExecutorConfig) (t : Timer) : System Execution ExecMove where
  init x := ∃ limiter token, limiter.Ok ∧ x = { limiter, token }
  step x m x' := x.next cfg t m = some x'

/-! ### What a step can do -/

/-- The steps, branch by branch. -/
inductive ExecStep (cfg : ExecutorConfig) (t : Timer) (x : Execution) :
    ExecMove → Execution → Prop
  | cancel : ExecStep cfg t x .cancel { x with token := true }
  | other (m l) : x.limiter.other x.phase.permits x.phase.waiters m = some l →
      ExecStep cfg t x (.other m) { x with limiter := l }
  | stop : x.phase = .check → x.token = true →
      ExecStep cfg t x .check (x.goto (.returned .cancelled))
  | go : x.phase = .check → x.token = false → ExecStep cfg t x .check (x.goto .acquire)
  | queue : x.phase = .acquire → x.limiter.full = true →
      ExecStep cfg t x .acquire { x with limiter := x.limiter.queue, phase := .waiting }
  | take : x.phase = .acquire → x.limiter.full = false →
      ExecStep cfg t x .acquire { x with limiter := x.limiter.take, phase := .permitted }
  | wake : x.phase = .waiting → x.limiter.full = false →
      ExecStep cfg t x .wake { x with limiter := x.limiter.wake, phase := .permitted }
  | start (b p) : x.phase = .permitted → beginAttempt t.action b = some p →
      ExecStep cfg t x (.start b) (x.goto p)
  | tryWait (w) : x.phase = .polling → ExecStep cfg t x (.tryWait w) (x.goto w.polled)
  | kill : x.phase = .running → x.token = true →
      ExecStep cfg t x .readToken (x.goto (.killed true))
  | live : x.phase = .running → x.token = false →
      ExecStep cfg t x .readToken (x.goto .uncancelled)
  | expire (n) : x.phase = .uncancelled → ExecStep cfg t x (.readClock n) (x.goto (.killed false))
  | poll (n) : x.phase = .uncancelled → ExecStep cfg t x (.readClock n) (x.goto .polling)
  | reap (c r) : x.phase = .killed c → ExecStep cfg t x (.reap r) (x.goto (.closing (reaped c r)))
  | finish (a) : x.phase = .closing a → ExecStep cfg t x .finish
      (Execution.conclude cfg t { x with limiter := x.limiter.release } (a.result cfg))
  | unwind : x.phase = .panicking →
      ExecStep cfg t x .finish { x with limiter := x.limiter.release, phase := .unwound }
  | sleep (n) : x.phase = .backoff → ExecStep cfg t x (.readClock n) (x.goto .slice)
  | retry (n) : x.phase = .backoff → ExecStep cfg t x (.readClock n) (x.goto .check)
  | interrupt : x.phase = .slice → x.token = true →
      ExecStep cfg t x .readToken (x.goto (.returned .cancelled))
  | doze : x.phase = .slice → x.token = false → ExecStep cfg t x .readToken (x.goto .backoff)

theorem execStep_of_next {cfg : ExecutorConfig} {t : Timer} {x x' : Execution} {m : ExecMove}
    (h : x.next cfg t m = some x') : ExecStep cfg t x m x' := by
  unfold Execution.next at h
  split at h <;> rename_i hp
  · obtain rfl := Option.some.inj h
    exact .cancel
  · obtain ⟨l, hl, rfl⟩ := Option.map_eq_some_iff.mp h
    exact .other _ _ hl
  · obtain rfl := Option.some.inj h
    split
    case isTrue htoken => exact .stop hp htoken
    case isFalse htoken => exact .go hp (by simpa using htoken)
  · obtain rfl := Option.some.inj h
    split
    case isTrue hfull => exact .queue hp hfull
    case isFalse hfull => exact .take hp (by simpa using hfull)
  · obtain ⟨hfull, hx⟩ := Option.ite_none_left_eq_some.mp h
    obtain rfl := Option.some.inj hx
    exact .wake hp (by simpa using hfull)
  · obtain ⟨p, hbegun, rfl⟩ := Option.map_eq_some_iff.mp h
    exact .start _ p hp hbegun
  · obtain rfl := Option.some.inj h
    exact .tryWait _ hp
  · obtain rfl := Option.some.inj h
    split
    case isTrue htoken => exact .kill hp htoken
    case isFalse htoken => exact .live hp (by simpa using htoken)
  · obtain rfl := Option.some.inj h
    split
    · exact .expire _ hp
    · exact .poll _ hp
  · obtain rfl := Option.some.inj h
    exact .reap _ _ hp
  · obtain rfl := Option.some.inj h
    exact .finish _ hp
  · obtain rfl := Option.some.inj h
    exact .unwind hp
  · obtain rfl := Option.some.inj h
    split
    · exact .sleep _ hp
    · exact .retry _ hp
  · obtain rfl := Option.some.inj h
    split
    case isTrue htoken => exact .interrupt hp htoken
    case isFalse htoken => exact .doze hp (by simpa using htoken)
  · cases h

/-! ### Results of attempts -/

namespace ActionAttempt

variable {cfg : ExecutorConfig}

theorem head?_append {s t : String} {c : Char} (h : s.toList.head? = some c) :
    (s ++ t).toList.head? = some c := by
  rw [String.toList_append, List.head?_append, h, Option.some_or]

/-- An error whose text starts with another letter is not the cancelled one. -/
theorem ne_cancelled {s : String} {c : Char} (h : s.toList.head? = some c) (hc : c ≠ 'c') :
    (Except.error s : Except String String) ≠ .error CANCELLED := by
  intro heq
  obtain rfl := Except.error.inj heq
  exact hc (Option.some.inj (h.symm.trans (by decide)))

/-- **The error text of a cancelled launch** is that of no other error. -/
theorem result_eq_cancelled_iff (a : ActionAttempt) :
    a.result cfg = .error CANCELLED ↔ a.wasCancelled = true := by
  cases a with
  | nothing => simp [result, wasCancelled]
  | shown stub title => simp [result, wasCancelled]
  | spawnError command error =>
    refine iff_of_false (ne_cancelled (c := 's') ?_ (by decide)) Bool.false_ne_true
    exact head?_append (head?_append (head?_append (by decide)))
  | pollError error =>
    refine iff_of_false (ne_cancelled (c := 't') ?_ (by decide)) Bool.false_ne_true
    exact head?_append (by decide)
  | waitError cancelled error =>
    refine iff_of_false (ne_cancelled (c := 'w') ?_ (by decide)) Bool.false_ne_true
    cases cancelled <;> exact head?_append (by decide)
  | launched out =>
    simp only [result, wasCancelled]
    split
    case isTrue hout => exact iff_of_true rfl hout
    case isFalse hout =>
      refine iff_of_false ?_ hout
      split
      · refine ne_cancelled (c := 'l') ?_ (by decide)
        exact head?_append (head?_append (head?_append (head?_append (by decide))))
      · split
        · simp
        · exact ne_cancelled (c := 'l') (by decide) (by decide)
        · refine ne_cancelled (c := 'l') ?_ (by decide)
          exact head?_append (head?_append (head?_append (by decide)))

/-- An attempt succeeds, fails, or is cancelled, and only one of these. -/
theorem not_succeeded_of_wasCancelled {a : ActionAttempt} (h : a.wasCancelled = true) :
    a.succeeded cfg = false := by
  rw [succeeded, a.result_eq_cancelled_iff.mpr h]

end ActionAttempt

/-! ### The history of a run -/

/-- The steps taken. -/
abbrev ExecTrace := List (System.Event Execution ExecMove)

def ExecMove.starts : ExecMove → Bool
  | .start _ => true
  | _ => false

/-- The attempt that a step ends, and whose result is looked at. -/
def endedBy (e : System.Event Execution ExecMove) : Option ActionAttempt :=
  match e.pre.phase, e.label with
  | .closing a, .finish => some a
  | _, _ => none

namespace ExecTrace

/-- How many attempts were started. -/
def starts (tr : ExecTrace) : Nat := tr.countP fun e => e.label.starts

/-- The attempts that ended, in order. -/
def ended (tr : ExecTrace) : List ActionAttempt := tr.filterMap endedBy

def successes (cfg : ExecutorConfig) (tr : ExecTrace) : Nat := tr.ended.countP (·.succeeded cfg)

def failures (cfg : ExecutorConfig) (tr : ExecTrace) : Nat := tr.ended.countP (·.failed cfg)

/-- The token is set after it was read for an attempt and before that
attempt starts, and the permit still comes. -/
def SetInWait (tr : ExecTrace) : Prop :=
  ∃ before e later, tr = before ++ e :: later ∧ e.label = .cancel ∧
    e.pre.phase.awaitsPermit = true ∧ 0 < starts later

end ExecTrace

/-- Attempts and outcome, but for the reported count, are as they should be. -/
structure Execution.Orderly (cfg : ExecutorConfig) (t : Timer) (tr : ExecTrace)
    (x : Execution) : Prop where
  atMost : tr.starts ≤ t.retry.maxRetries + 1
  notAfterToken : ∀ e ∈ tr, e.label.starts = true → e.pre.token = false
  stops : ∀ before e later, tr = before ++ e :: later →
    (∃ a, endedBy e = some a ∧ a.succeeded cfg = true) → ExecTrace.starts later = 0
  delivered : ∀ message n, x.phase = .returned (.delivered message n) → 0 < tr.successes cfg
  failed : ∀ error n, x.phase = .returned (.failed error n) →
    tr.failures cfg = t.retry.maxRetries + 1
  cancelled : x.phase = .returned .cancelled →
    x.token = true ∧ tr.successes cfg = 0 ∧ tr.failures cfg ≤ t.retry.maxRetries

/-- What is asked of a run of `execute`. -/
structure Execution.Obeys (cfg : ExecutorConfig) (t : Timer) (tr : ExecTrace)
    (x : Execution) : Prop extends Execution.Orderly cfg t tr x where
  counted : ∀ o n, x.phase = .returned o → o.attempts? = some n → n = tr.starts

section Counts

variable {cfg : ExecutorConfig} (tr : ExecTrace) (e : System.Event Execution ExecMove)

namespace ExecTrace

theorem starts_snoc : starts (tr ++ [e]) = tr.starts + if e.label.starts then 1 else 0 := by
  simp [starts, List.countP_append, List.countP_singleton]

theorem starts_append (tr' : ExecTrace) : starts (tr ++ tr') = tr.starts + starts tr' :=
  List.countP_append

theorem ended_snoc : ended (tr ++ [e]) = tr.ended ++ (endedBy e).toList := by
  rw [ended, List.filterMap_append, ended]
  cases h : endedBy e <;> simp [h]

theorem successes_snoc : successes cfg (tr ++ [e]) =
    tr.successes cfg + (endedBy e).toList.countP (·.succeeded cfg) := by
  rw [successes, ended_snoc, List.countP_append, successes]

theorem failures_snoc : failures cfg (tr ++ [e]) =
    tr.failures cfg + (endedBy e).toList.countP (·.failed cfg) := by
  rw [failures, ended_snoc, List.countP_append, failures]

end ExecTrace

end Counts

section Runs

variable {cfg : ExecutorConfig} {t : Timer} {x₀ x x' : Execution} {tr : ExecTrace}
  {m : ExecMove}

open ExecTrace

/-- The number of attempts started and ended, phase by phase, when `k` were
repeated. -/
def ExecPhase.Tallies (maxRetries k starts failures successes : Nat) : ExecPhase → Prop
  | .returned (.delivered _ n) => n = k ∧ starts = k + 1 ∧ failures = k ∧ successes = 1
  | .returned (.failed _ n) =>
    n = k ∧ k = maxRetries ∧ starts = k + 1 ∧ failures = k + 1 ∧ successes = 0
  | .returned .cancelled => starts ≤ k + 1 ∧ failures = k ∧ successes = 0
  | .unwound => starts = k + 1 ∧ failures = k ∧ successes = 0
  | p => starts = (if p.attempting then k + 1 else k) ∧ failures = k ∧ successes = 0

/-- What a run has done when it stands in a state. -/
structure Tallied (cfg : ExecutorConfig) (t : Timer) (tr : ExecTrace) (x : Execution) : Prop where
  tallies : x.phase.Tallies t.retry.maxRetries x.attempt tr.starts (tr.failures cfg)
    (tr.successes cfg)
  le : x.attempt ≤ t.retry.maxRetries

/-- A step that neither starts nor ends an attempt. -/
theorem Tallied.keep (h : Tallied cfg t tr x) (hstarts : m.starts = false)
    (hended : endedBy ⟨x, m, x'⟩ = none) (hattempt : x'.attempt = x.attempt)
    (hphase : ∀ r k s f w, x.phase.Tallies r k s f w → x'.phase.Tallies r k s f w) :
    Tallied cfg t (tr ++ [⟨x, m, x'⟩]) x' where
  tallies := by
    rw [starts_snoc, failures_snoc, successes_snoc, hended, hattempt]
    simpa [hstarts] using hphase _ _ _ _ _ h.tallies
  le := hattempt ▸ h.le

/-- An attempt starts. -/
theorem Tallied.start (h : Tallied cfg t tr x) (hp : x.phase = .permitted) {b : Begun}
    {p : ExecPhase} (hp' : p.attempting = true) :
    Tallied cfg t (tr ++ [⟨x, .start b, x.goto p⟩]) (x.goto p) where
  tallies := by
    have htally := h.tallies
    rw [starts_snoc, failures_snoc, successes_snoc, show endedBy _ = none by simp [endedBy, hp]]
    rw [hp] at htally
    cases p <;>
      simp_all [ExecPhase.Tallies, ExecPhase.attempting, ExecMove.starts, Execution.goto]
  le := h.le

theorem attempting_of_begin {a : Action} {b : Begun} {p : ExecPhase}
    (h : beginAttempt a b = some p) : p.attempting = true := by
  unfold beginAttempt at h
  split at h <;> first | (obtain rfl := Option.some.inj h; rfl) | cases h

/-- Where the loop goes after an attempt, by how that attempt ended. -/
theorem tallies_conclude (cfg : ExecutorConfig) (hle : x.attempt ≤ t.retry.maxRetries)
    (a : ActionAttempt) :
    (x.conclude cfg t (a.result cfg)).phase.Tallies t.retry.maxRetries
        (x.conclude cfg t (a.result cfg)).attempt (x.attempt + 1)
        (x.attempt + if a.failed cfg then 1 else 0) (if a.succeeded cfg then 1 else 0) ∧
      (x.conclude cfg t (a.result cfg)).attempt ≤ t.retry.maxRetries := by
  cases hr : a.result cfg with
  | ok message =>
    have hsucc : a.succeeded cfg = true := by rw [ActionAttempt.succeeded, hr]
    have hfailed : a.failed cfg = false := by rw [ActionAttempt.failed, hsucc, Bool.not_true,
      Bool.false_and]
    rw [hsucc, hfailed]
    exact ⟨⟨rfl, rfl, rfl, rfl⟩, hle⟩
  | error error =>
    have hsucc : a.succeeded cfg = false := by rw [ActionAttempt.succeeded, hr]
    rw [Execution.conclude, hsucc, if_neg Bool.false_ne_true]
    split
    case isTrue hcancelled =>
      have hkilled := a.result_eq_cancelled_iff.mp (hr.trans (congrArg Except.error hcancelled))
      rw [ActionAttempt.failed, hkilled, Bool.not_true, Bool.and_false]
      exact ⟨⟨le_rfl, rfl, rfl⟩, hle⟩
    case isFalse hother =>
      have hkilled : a.wasCancelled = false := Bool.eq_false_iff.mpr fun hk =>
        hother (Except.error.inj (hr.symm.trans (a.result_eq_cancelled_iff.mpr hk)))
      rw [ActionAttempt.failed, hsucc, hkilled]
      split
      case isTrue hlast => exact ⟨⟨rfl, hle.antisymm hlast, rfl, rfl, rfl⟩, hle⟩
      case isFalse hmore =>
        -- The next attempt has not started, so the counts agree with its number.
        refine ⟨?_, Nat.lt_of_not_le hmore⟩
        show ExecPhase.Tallies _ (x.attempt + 1) _ _ _ (if _ then _ else _)
        cases cfg.skipRetrySleep || Execution.delay t == 0 <;> exact ⟨rfl, rfl, rfl⟩

/-- An attempt ends, and its result is looked at. -/
theorem Tallied.conclude (h : Tallied cfg t tr x) {a : ActionAttempt} (hp : x.phase = .closing a)
    (hx' : x' = Execution.conclude cfg t { x with limiter := x.limiter.release } (a.result cfg)) :
    Tallied cfg t (tr ++ [⟨x, .finish, x'⟩]) x' := by
  have hended : endedBy ⟨x, .finish, x'⟩ = some a := by simp [endedBy, hp]
  have htally := h.tallies
  simp only [hp, ExecPhase.Tallies, ExecPhase.attempting, if_true] at htally
  obtain ⟨hstarts, hfailures, hsuccesses⟩ := htally
  have hafter := tallies_conclude (x := { x with limiter := x.limiter.release }) cfg h.le a
  rw [← hx'] at hafter
  refine ⟨?_, hafter.2⟩
  rw [starts_snoc, failures_snoc, successes_snoc, hended, hstarts, hfailures, hsuccesses]
  simpa [ExecMove.starts, List.countP_singleton] using hafter.1

theorem Tallied.step (h : Tallied cfg t tr x) (hstep : ExecStep cfg t x m x') :
    Tallied cfg t (tr ++ [⟨x, m, x'⟩]) x' := by
  cases hstep with
  | cancel => exact h.keep rfl (by simp [endedBy]) rfl fun _ _ _ _ _ ht => ht
  | other m l _ => exact h.keep rfl (by simp [endedBy]) rfl fun _ _ _ _ _ ht => ht
  | start b p hp hb => exact h.start hp (attempting_of_begin hb)
  | finish a hp => exact h.conclude hp rfl
  | tryWait w hp =>
    refine h.keep rfl (by simp [endedBy]) rfl fun r k s f w' ht => ?_
    rw [hp] at ht
    cases w <;> exact ht
  | stop hp _ | interrupt hp _ =>
    refine h.keep rfl (by simp [endedBy]) rfl fun r k s f w ht => ?_
    rw [hp] at ht
    exact ⟨ht.1.le.trans (Nat.le_succ _), ht.2⟩
  | go hp _ | queue hp _ | take hp _ | wake hp _ | kill hp _ | live hp _ | expire n hp | poll n hp
  | reap c r hp | sleep n hp | retry n hp | doze hp _ =>
    refine h.keep rfl (by simp [endedBy]) rfl fun r k s f w ht => ?_
    rw [hp] at ht
    exact ht
  | unwind hp =>
    refine h.keep rfl (by simp [endedBy, hp]) rfl fun r k s f w ht => ?_
    rw [hp] at ht
    exact ht

/-- **What `execute` has done** when it stands in a phase, in every run. -/
theorem tallied_of_run (hrun : (executor cfg t).Run x₀ tr x) (h0 : (executor cfg t).init x₀) :
    Tallied cfg t tr x := by
  refine hrun.trace_induction (J := Tallied cfg t) ?_ fun tr x m x' _ hstep h =>
    h.step (execStep_of_next hstep)
  obtain ⟨limiter, token, -, rfl⟩ := h0
  exact ⟨⟨rfl, rfl, rfl⟩, Nat.zero_le _⟩

/-! ### The token -/

/-- Phases that are reached only because the token was seen set. -/
def ExecPhase.stopped : ExecPhase → Bool
  | .killed cancelled => cancelled
  | .closing a => a.wasCancelled
  | .returned .cancelled => true
  | _ => false

/-- The result of an attempt concerns the loop only. -/
theorem conclude_frame (r : Except String String) :
    (x.conclude cfg t r).limiter = x.limiter ∧ (x.conclude cfg t r).token = x.token := by
  unfold Execution.conclude
  split
  · exact ⟨rfl, rfl⟩
  · split
    · exact ⟨rfl, rfl⟩
    · split <;> exact ⟨rfl, rfl⟩

theorem token_of_cancel (h : ExecStep cfg t x .cancel x') : x'.token = true := by
  cases h
  rfl

/-- A set token stays set. -/
theorem token_kept (h : ExecStep cfg t x m x') (hset : x.token = true) : x'.token = true := by
  cases h with
  | cancel => rfl
  | finish a _ => exact (conclude_frame _).2.trans hset
  | _ => exact hset

theorem not_stopped_of_begin {a : Action} {b : Begun} {p : ExecPhase}
    (h : beginAttempt a b = some p) : p.stopped = false := by
  unfold beginAttempt at h
  split at h <;> first | (obtain rfl := Option.some.inj h; rfl) | cases h

theorem stopped_conclude {a : ActionAttempt}
    (h : (x.conclude cfg t (a.result cfg)).phase.stopped = true) : a.wasCancelled = true := by
  cases hr : a.result cfg with
  | ok message => simp [hr, Execution.conclude, Execution.goto, ExecPhase.stopped] at h
  | error error =>
    rw [hr, Execution.conclude] at h
    split at h
    case isTrue hcancelled =>
      exact a.result_eq_cancelled_iff.mp (hr.trans (congrArg Except.error hcancelled))
    case isFalse =>
      split at h
      · cases h
      · cases hskip : (cfg.skipRetrySleep || Execution.delay t == 0) <;> simp [hskip] at h <;>
          cases h

/-- What was stopped for the token was stopped after it was set. -/
theorem stopped_step (h : ExecStep cfg t x m x') (hx : x.phase.stopped = true → x.token = true)
    (hx' : x'.phase.stopped = true) : x'.token = true := by
  cases h with
  | cancel => rfl
  | other m l _ => exact hx hx'
  | stop _ htoken | interrupt _ htoken | kill _ htoken => exact htoken
  | start b p _ hb => exact absurd hx' (Bool.eq_false_iff.mp (not_stopped_of_begin hb))
  | tryWait w _ => cases w <;> cases hx'
  | reap c r hp =>
    apply hx
    rw [hp]
    cases r with
    | ok e => exact hx'
    | error e => cases hx'
  | finish a hp =>
    have hcancelled := stopped_conclude hx'
    exact token_kept (.finish a hp) (hx (by rw [hp]; exact hcancelled))
  | _ => cases hx'

/-- An attempt that starts after the token was set waited for its permit when
it was set. -/
structure Heeds (tr : ExecTrace) (x : Execution) : Prop where
  set : x.phase.awaitsPermit = true → x.token = true → ∃ before e later,
    tr = before ++ e :: later ∧ e.label = .cancel ∧ e.pre.phase.awaitsPermit = true
  late : (∃ e ∈ tr, e.label.starts = true ∧ e.pre.token = true) → SetInWait tr

theorem setInWait_snoc (h : SetInWait tr) (d : System.Event Execution ExecMove) :
    SetInWait (tr ++ [d]) := by
  obtain ⟨before, e, later, rfl, hlabel, hawaits, hstarts⟩ := h
  refine ⟨before, e, later ++ [d], by simp, hlabel, hawaits, ?_⟩
  rw [starts_append]
  exact Nat.add_pos_left hstarts _

theorem not_awaits_conclude (r : Except String String) :
    (x.conclude cfg t r).phase.awaitsPermit = false := by
  unfold Execution.conclude
  split
  · rfl
  · split
    · rfl
    · split
      · rfl
      · cases hskip : (cfg.skipRetrySleep || Execution.delay t == 0) <;> rfl

theorem awaits_of_step (h : ExecStep cfg t x m x') (hx' : x'.phase.awaitsPermit = true)
    (htoken : x'.token = true) :
    x.phase.awaitsPermit = true ∧ (m = .cancel ∨ x.token = true) := by
  cases h with
  | cancel => exact ⟨hx', .inl rfl⟩
  | other m l _ => exact ⟨hx', .inr htoken⟩
  | go _ hunset => exact absurd htoken (Bool.eq_false_iff.mp hunset)
  | queue hp _ | take hp _ | wake hp _ => exact ⟨by rw [hp]; rfl, .inr htoken⟩
  | start b p _ hb =>
    unfold beginAttempt at hb
    split at hb <;> first | (obtain rfl := Option.some.inj hb; cases hx') | cases hb
  | tryWait w _ => cases w <;> cases hx'
  | finish a _ => exact absurd hx' (Bool.eq_false_iff.mp (not_awaits_conclude _))
  | _ => cases hx'

theorem Heeds.step (h : Heeds tr x) (hstep : ExecStep cfg t x m x') :
    Heeds (tr ++ [⟨x, m, x'⟩]) x' where
  set := by
    intro hawaits htoken
    obtain ⟨hbefore, rfl | hset⟩ := awaits_of_step hstep hawaits htoken
    · exact ⟨tr, _, [], rfl, rfl, hbefore⟩
    · obtain ⟨before, e, later, rfl, hlabel, hpre⟩ := h.set hbefore hset
      exact ⟨before, e, later ++ [⟨x, m, x'⟩], by simp, hlabel, hpre⟩
  late := by
    rintro ⟨e, he, hstarts, htoken⟩
    rcases List.mem_append.mp he with he | he
    · exact setInWait_snoc (h.late ⟨e, he, hstarts, htoken⟩) _
    · obtain rfl := List.mem_singleton.mp he
      cases hstep with
      | start b p hp _ =>
        obtain ⟨before, d, later, rfl, hlabel, hpre⟩ := h.set (by rw [hp]; rfl) htoken
        refine ⟨before, d, later ++ [⟨x, .start b, x.goto p⟩], by simp, hlabel, hpre, ?_⟩
        rw [starts_snoc]
        exact Nat.succ_pos _
      | _ => cases hstarts

theorem heeds_of_run (hrun : (executor cfg t).Run x₀ tr x) (h0 : (executor cfg t).init x₀) :
    Heeds tr x := by
  refine hrun.trace_induction (J := Heeds) ?_ fun tr x m x' _ hstep h =>
    h.step (execStep_of_next hstep)
  obtain ⟨limiter, token, -, rfl⟩ := h0
  exact ⟨fun h => (by cases h), fun h => by simp at h⟩

/-- A token set in the wait is set when the attempt starts. -/
theorem late_of_setInWait (hrun : (executor cfg t).Run x₀ tr x) (h : SetInWait tr) :
    ∃ e ∈ tr, e.label.starts = true ∧ e.pre.token = true := by
  obtain ⟨before, e, later, rfl, hlabel, -, hstarts⟩ := h
  obtain ⟨-, hcancel, hlater⟩ := hrun.split
  rw [hlabel] at hcancel
  have hset : e.post.token = true := token_of_cancel (execStep_of_next hcancel)
  have hkept := hlater.invariant_steps (G := fun _ => True) (I := fun x => x.token = true)
    (fun _ _ => trivial) hset fun _ _ _ hstep _ htoken => token_kept (execStep_of_next hstep) htoken
  obtain ⟨d, hd, hstart⟩ := List.countP_pos_iff.mp hstarts
  exact ⟨d, by simp [hd], hstart, (hkept d hd).2.1⟩

/-- After `execute` has returned, no attempt starts. -/
theorem starts_eq_zero_of_returned {o : ExecOutcome} (hrun : (executor cfg t).Run x₀ tr x)
    (h : x₀.phase = .returned o) : tr.starts = 0 := by
  have hstay : ∀ x m x', (executor cfg t).step x m x' → x.phase = .returned o →
      x'.phase = .returned o ∧ m.starts = false := by
    intro x m x' hstep hx
    cases execStep_of_next hstep <;> first | exact ⟨hx, rfl⟩ | simp_all
  have hkept := hrun.invariant_steps (G := fun _ => True) (I := fun x => x.phase = .returned o)
    (fun _ _ => trivial) h fun x m x' hstep _ hx => (hstay x m x' hstep hx).1
  apply List.countP_eq_zero.mpr
  intro e he
  rw [(hstay _ _ _ (hkept e he).1 (hkept e he).2.1).2]
  exact Bool.false_ne_true

/-- An attempt that succeeds is the last. -/
theorem returned_of_finish {a : ActionAttempt} (h : ExecStep cfg t x .finish x')
    (hp : x.phase = .closing a) (hsucc : a.succeeded cfg = true) :
    ∃ o, x'.phase = .returned o := by
  cases h with
  | finish b hp' =>
    obtain rfl : a = b := by simpa using hp.symm.trans hp'
    unfold ActionAttempt.succeeded at hsucc
    split at hsucc
    case h_1 message hr => exact ⟨.delivered message x.attempt, by rw [hr]; rfl⟩
    case h_2 => cases hsucc
  | unwind hp' => simp [hp'] at hp

theorem returned_of_succeeded {e : System.Event Execution ExecMove} {a : ActionAttempt}
    (hstep : (executor cfg t).step e.pre e.label e.post) (hended : endedBy e = some a)
    (hsucc : a.succeeded cfg = true) : ∃ o, e.post.phase = .returned o := by
  unfold endedBy at hended
  split at hended
  case h_1 b hp hm =>
    obtain rfl := Option.some.inj hended
    rw [hm] at hstep
    exact returned_of_finish (execStep_of_next hstep) hp hsucc
  case h_2 => cases hended

namespace Tallied

theorem starts_le (h : Tallied cfg t tr x) : tr.starts ≤ x.attempt + 1 := by
  have htally := h.tallies
  unfold ExecPhase.Tallies at htally
  split at htally
  · exact htally.2.1.le
  · exact htally.2.2.1.le
  · exact htally.1
  · exact htally.1.le
  · rw [htally.1]
    split <;> omega

/-- The reported number is one less than that of the attempts started. -/
theorem reported (h : Tallied cfg t tr x) {o : ExecOutcome} {n : Nat}
    (hp : x.phase = .returned o) (hn : o.attempts? = some n) :
    tr.starts = n + 1 ∧ (0 < tr.successes cfg ∨ tr.failures cfg = t.retry.maxRetries + 1) := by
  have htally := h.tallies
  rw [hp] at htally
  cases o with
  | delivered message n' =>
    obtain rfl := Option.some.inj hn
    obtain ⟨rfl, hstarts, -, hsuccesses⟩ := htally
    exact ⟨hstarts, .inl (by rw [hsuccesses]; exact Nat.one_pos)⟩
  | failed error n' =>
    obtain rfl := Option.some.inj hn
    obtain ⟨rfl, hk, hstarts, hfailures, -⟩ := htally
    exact ⟨hstarts, .inr (by rw [hfailures, hk])⟩
  | cancelled => cases hn

/-- After a success, or after too many failures, a number is reported. -/
theorem reports (h : Tallied cfg t tr x)
    (hend : 0 < tr.successes cfg ∨ t.retry.maxRetries < tr.failures cfg) :
    ∃ o n, x.phase = .returned o ∧ o.attempts? = some n := by
  have htally := h.tallies
  have hle := h.le
  unfold ExecPhase.Tallies at htally
  split at htally
  case h_1 message n hp => exact ⟨_, n, hp, rfl⟩
  case h_2 error n hp => exact ⟨_, n, hp, rfl⟩
  all_goals omega

theorem cancelled (h : Tallied cfg t tr x) (hp : x.phase = .returned .cancelled) :
    tr.successes cfg = 0 ∧ tr.failures cfg ≤ t.retry.maxRetries := by
  have htally := h.tallies
  rw [hp] at htally
  obtain ⟨-, hfailures, hsuccesses⟩ := htally
  exact ⟨hsuccesses, hfailures ▸ h.le⟩

end Tallied

/-- **Attempts and outcome** are as they should be exactly in the runs in which
the token is not set while a permit is awaited that then comes. -/
theorem orderly_iff (hrun : (executor cfg t).Run x₀ tr x) (h0 : (executor cfg t).init x₀) :
    Execution.Orderly cfg t tr x ↔ ¬SetInWait tr := by
  have htally := tallied_of_run hrun h0
  constructor
  · intro h hwait
    obtain ⟨e, he, hstarts, htoken⟩ := late_of_setInWait hrun hwait
    exact Bool.false_ne_true ((h.notAfterToken e he hstarts).symm.trans htoken)
  · intro hwait
    have hstopped : x.phase.stopped = true → x.token = true := by
      refine hrun.invariant (G := fun _ => True) (I := fun x => x.phase.stopped = true →
        x.token = true) (fun _ _ => trivial) ?_ fun x m x' hstep _ hx hx' =>
          stopped_step (execStep_of_next hstep) hx hx'
      obtain ⟨limiter, token, -, rfl⟩ := h0
      exact fun h => by cases h
    constructor
    case atMost => exact htally.starts_le.trans (Nat.succ_le_succ htally.le)
    case notAfterToken =>
      intro e he hstarts
      refine Bool.eq_false_iff.mpr fun htoken => hwait ?_
      exact (heeds_of_run hrun h0).late ⟨e, he, hstarts, htoken⟩
    case stops =>
      rintro before e later rfl ⟨a, hended, hsucc⟩
      obtain ⟨-, hstep, hlater⟩ := hrun.split
      obtain ⟨o, hreturned⟩ := returned_of_succeeded hstep hended hsucc
      exact starts_eq_zero_of_returned hlater hreturned
    case delivered =>
      intro message n hp
      have hcount := htally.tallies
      rw [hp] at hcount
      exact hcount.2.2.2 ▸ Nat.one_pos
    case failed =>
      intro error n hp
      have hcount := htally.tallies
      rw [hp] at hcount
      rw [hcount.2.2.2.1, hcount.2.1]
    case cancelled =>
      intro hp
      exact ⟨hstopped (by rw [hp]; rfl), htally.cancelled hp⟩

/-- **Retries and cancellation**: but for the reported number, a run of
`execute` is as it should be exactly if the token is not set while a permit
is awaited that then comes; and the reported number is right exactly if none
is reported, since no attempt succeeded and not all of them failed. -/
theorem execute_obeys_iff (hrun : (executor cfg t).Run x₀ tr x)
    (h0 : (executor cfg t).init x₀) :
    (Execution.Orderly cfg t tr x ↔ ¬SetInWait tr) ∧
      (Execution.Obeys cfg t tr x ↔ ¬SetInWait tr ∧ tr.successes cfg = 0 ∧
        tr.failures cfg ≤ t.retry.maxRetries) := by
  have htally := tallied_of_run hrun h0
  refine ⟨orderly_iff hrun h0, ?_⟩
  constructor
  · intro h
    refine ⟨(orderly_iff hrun h0).mp h.toOrderly, ?_⟩
    by_contra hend
    obtain ⟨o, n, hp, hn⟩ := htally.reports (by omega)
    have hstarts := (htally.reported hp hn).1
    have hcounted := h.counted o n hp hn
    omega
  · rintro ⟨hwait, hsuccesses, hfailures⟩
    refine ⟨(orderly_iff hrun h0).mpr hwait, fun o n hp hn => ?_⟩
    have hend := (htally.reported hp hn).2
    omega

/-- The event of a delivered or failed run counts the retries. -/
theorem retries_of_event (hrun : (executor cfg t).Run x₀ tr x) (h0 : (executor cfg t).init x₀)
    {o : ExecOutcome} (hp : x.phase = .returned o) (ho : o ≠ .cancelled) :
    o.jobEnd.note.count = some (tr.starts - 1) := by
  rw [o.note_jobEnd]
  cases hn : o.attempts? with
  | none => cases o <;> simp_all [ExecOutcome.attempts?]
  | some n => rw [((tallied_of_run hrun h0).reported hp hn).1, Nat.add_sub_cancel]

/-- A step keeps the permits within the cap. -/
theorem limiter_step (h : ExecStep cfg t x m x') (hok : x.limiter.Ok) : x'.limiter.Ok := by
  cases h with
  | other m l hl => exact hok.other hl
  | queue _ _ => exact hok.queue
  | take _ hfull => exact hok.take hfull
  | wake _ hfull => exact hok.wake hfull
  | unwind _ => exact hok.release
  | finish a _ =>
    rw [(conclude_frame _).1]
    exact hok.release
  | _ => exact hok

/-- **No more permits are out** than there are, whatever the workers do. -/
theorem limiter_ok (hrun : (executor cfg t).Run x₀ tr x) (h0 : (executor cfg t).init x₀) :
    x.limiter.Ok := by
  refine hrun.invariant (G := fun _ => True) (I := fun x => x.limiter.Ok) (fun _ _ => trivial) ?_
    fun x m x' hstep _ hok => limiter_step (execStep_of_next hstep) hok
  obtain ⟨limiter, token, hok, rfl⟩ := h0
  exact hok

end Runs

section Sample

/-- A timer whose action starts a program, and is repeated once. -/
def Timer.launching : Timer :=
  { Timer.sample .skip with action := .launch "true" [] none, retry := {} }

/-- The trace of these steps, with `inFlight` permits out of one. -/
def execTrace (inFlight : Nat) (ms : List ExecMove) : ExecTrace :=
  System.traceEnabled (fun x m => x.next {} .launching m) { limiter := { max := 1, inFlight } } ms

def execState (inFlight : Nat) (ms : List ExecMove) : Execution :=
  ms.foldl (fun x m => (x.next {} .launching m).getD x) { limiter := { max := 1, inFlight } }

theorem run_exec (inFlight : Nat) (ms : List ExecMove) :
    (executor {} .launching).Run { limiter := { max := 1, inFlight } } (execTrace inFlight ms)
      (execState inFlight ms) :=
  System.run_traceEnabled (fun _ _ _ h => h) _ ms

theorem init_exec {inFlight : Nat} (h : inFlight ≤ 1) :
    (executor {} .launching).init { limiter := { max := 1, inFlight } } :=
  ⟨_, false, ⟨Nat.one_pos, h⟩, rfl⟩

/-- The first attempt fails, and the token is set in the backoff. -/
def cancelledInBackoff : List ExecMove :=
  [.check, .acquire, .start .spawned, .tryWait (.exited ⟨some 1, "", 0⟩), .finish,
    .readClock 0, .cancel, .readToken]

theorem execute_obeys_backoff :
    Execution.Obeys {} .launching (execTrace 0 cancelledInBackoff)
      (execState 0 cancelledInBackoff) := by
  refine (execute_obeys_iff (run_exec 0 cancelledInBackoff) (init_exec (by decide))).2.mpr ?_
  refine ⟨?_, by decide +kernel, by decide +kernel⟩
  rintro ⟨before, e, later, htr, hlabel, hawaits, -⟩
  have hbackoff : ∀ e ∈ execTrace 0 cancelledInBackoff, e.label = .cancel →
      e.pre.phase.awaitsPermit = false := by decide +kernel
  rw [hbackoff e (by simp [htr]) hlabel] at hawaits
  exact Bool.false_ne_true hawaits

/-- The only permit is out; the token is set, and then the permit comes back. -/
def cancelledInWait : List ExecMove :=
  [.check, .acquire, .cancel, .other .release, .wake, .start .spawned]

/-- The first attempt succeeds. -/
def succeedsAtOnce : List ExecMove :=
  [.check, .acquire, .start .spawned, .tryWait (.exited ⟨some 0, "", 0⟩), .finish]

/-- A program is started after the token was set; and where one attempt was
made, none is reported. -/
theorem execute_disobeys :
    (¬∀ x₀ tr x, (executor {} .launching).init x₀ →
      (executor {} .launching).Run x₀ tr x → Execution.Obeys {} .launching tr x) ∧
    (∃ e ∈ execTrace 1 cancelledInWait, e.label = .start .spawned ∧ e.pre.token = true) ∧
    (execTrace 0 succeedsAtOnce).starts = 1 ∧ (execState 0 succeedsAtOnce).phase =
      .returned (.delivered "launch ok exit=0 duration=0ns" 0) := by
  refine ⟨fun h => ?_, by decide +kernel, by decide +kernel, by decide +kernel⟩
  have hlate := (h _ _ _ (init_exec le_rfl) (run_exec 1 cancelledInWait)).notAfterToken
  revert hlate
  decide +kernel

end Sample

end Bellman

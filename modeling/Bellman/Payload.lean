/-
Bellman/Payload.lean

The payload of a slot request, and the timer it describes.

A payload is JSON, read the way serde derives it: a struct is an object, or
an array of its fields in order; a field that is optional may be `null` or
left out; names that are not fields are passed over.  An enumeration that
is tagged inside carries its variant under the tag's name.

The schedule of a timer comes in one of two shapes.  In the short form the
payload names a kind and gives its times and days one by one, and
`buildKind` puts the rule together.  In the long form the value under
`occurrence` is a whole rule, or a whole schedule, and is taken as it is.

What reads text is outside the repository: the class `Wire`.

Main results: the short form only makes schedules that `Occurrence::new`
has checked (`new_of_buildKind`), and a new timer asks for the id that its
request names (`id_newTimerFromPayload`).
-/
import Bellman.Models

namespace Bellman

/-! ### Readers -/

/-- The code outside the repository that reads and writes text: `uuid`,
`chrono` with its own forms and with the formats that the payload code
names, and the words that serde finds for what it cannot read. -/
class Wire where
  uuid : String → Option Uuid
  uuidText : Uuid → String
  time : String → Option Nat
  dateTime : String → Option (Int × Nat)
  date : String → Option Int
  instant : String → Option Int
  timeAs : String → String → Except String Nat
  dateTimeAs : String → String → Except String (Int × Nat)
  dateAs : String → String → Except String Int
  jsonText : Json → String
  payloadError : Json → String
  actionError : Json → String

/-- What reads a JSON value: `serde_json::from_value`. -/
abbrev JsonReader (α : Type) : Type := Json → Option α

namespace Json

def asStr : JsonReader String
  | .str s => some s
  | _ => none

/-- An unsigned number of so many bits. -/
def asUnsigned (bits : Nat) : JsonReader Nat
  | .num n => if 0 ≤ n ∧ n < 2 ^ bits then some n.toNat else none
  | _ => none

def asBool : JsonReader Bool
  | .bool b => some b
  | _ => none

def asText {α : Type} (parse : String → Option α) : JsonReader α
  | .str s => parse s
  | _ => none

def asList {α : Type} (r : JsonReader α) : JsonReader (List α)
  | .arr items => items.mapM r
  | _ => none

def asObject : Json → Option (List (String × Json))
  | .obj fields => some fields
  | _ => none

/-- `Option<T>`. -/
def nullable {α : Type} (r : JsonReader α) : JsonReader (Option α)
  | .null => some none
  | j => (r j).map some

/-- The fields of a struct, by name or in order. -/
def structFields (names : List String) : Json → Option (List (String × Json))
  | .obj fields => some fields
  | .arr items => if items.length ≤ names.length then some (names.zip items) else none
  | _ => none

/-- The variant named by the tag inside, and the rest. -/
def tagged (tag : String) : Json → Option (String × Json)
  | .obj fields => do
    let name ← (← fields.lookup tag) |> asStr
    return (name, .obj (fields.filter fun f => f.1 ≠ tag))
  | .arr (first :: rest) => do return (← asStr first, .arr rest)
  | _ => none

/-- The variant that is a string, or the one name of an object. -/
def variant : Json → Option (String × Option Json)
  | .str s => some (s, none)
  | .obj [(name, v)] => some (name, some v)
  | _ => none

/-- A variant without content. -/
def isUnit : Option Json → Bool
  | none => true
  | some .null => true
  | some _ => false

end Json

/-- A field that must be there. -/
def required {α : Type} (r : JsonReader α) (name : String) (fields : List (String × Json)) :
    Option α :=
  (fields.lookup name).bind r

/-- A field with a default. -/
def defaulted {α : Type} (r : JsonReader α) (name : String) (dflt : α)
    (fields : List (String × Json)) : Option α :=
  match fields.lookup name with
  | none => some dflt
  | some j => r j

/-- An optional field. -/
def optional {α : Type} (r : JsonReader α) (name : String) (fields : List (String × Json)) :
    Option (Option α) :=
  defaulted (Json.nullable r) name none fields

/-! ### Schedules in full -/

section

variable [Wire]

def Weekdays.read : JsonReader Weekdays := fun j =>
  (Json.asUnsigned 8 j).map fun n => ⟨UInt8.ofNat n⟩

/-- `OccurrenceKind`, tagged by `occ`. -/
def OccurrenceKind.read : JsonReader OccurrenceKind := fun j => do
  let (name, rest) ← j.tagged "occ"
  let clock := required (Json.asText Wire.time) "at"
  match name with
  | "once" =>
    let f ← rest.structFields ["at"]
    let (date, time) ← required (Json.asText Wire.dateTime) "at" f
    return .once date time
  | "interval" =>
    let f ← rest.structFields ["every_secs", "anchor"]
    return .interval (← required (Json.asUnsigned 64) "every_secs" f)
      (← required (Json.asText Wire.instant) "anchor" f)
  | "daily" =>
    let f ← rest.structFields ["at"]
    return .daily (← clock f)
  | "weekly" =>
    let f ← rest.structFields ["days", "at"]
    return .weekly (← required Weekdays.read "days" f) (← clock f)
  | "monthly" =>
    let f ← rest.structFields ["day", "at"]
    return .monthly (← required (Json.asUnsigned 8) "day" f) (← clock f)
  | "yearly" =>
    let f ← rest.structFields ["month", "day", "at"]
    return .yearly (← required (Json.asUnsigned 8) "month" f)
      (← required (Json.asUnsigned 8) "day" f) (← clock f)
  | "cron" =>
    let f ← rest.structFields ["expr"]
    return .cron (← required Json.asStr "expr" f)
  | _ => none

/-- A policy of which there is one. -/
def onlyPolicy {α : Type} (name : String) (policy : α) : JsonReader α := fun j => do
  let (n, content) ← j.variant
  if n = name ∧ Json.isUnit content then return policy else none

/-- The fields of `Occurrence`, in order. -/
def Occurrence.fields : List String :=
  ["kind", "tz", "dst_gap", "dst_fold", "invalid_monthday", "valid_from", "valid_until",
    "max_runs", "runs_done", "exclusions", "pending_skips"]

/-- `Occurrence`, field by field: nothing is checked. -/
def Occurrence.read : JsonReader Occurrence := fun j => do
  let f ← j.structFields fields
  -- An array has to be complete; an object may leave out what is optional.
  if j.asObject.isNone ∧ f.length ≠ fields.length then none
  return {
    kind := ← required OccurrenceKind.read "kind" f
    tz := ← required Json.asStr "tz" f
    dstGap := ← required (onlyPolicy "first_valid_after_gap" .firstValidAfterGap) "dst_gap" f
    dstFold := ← required (onlyPolicy "first_occurrence" .firstOccurrence) "dst_fold" f
    invalidMonthday := ← required (onlyPolicy "clamp" .clamp) "invalid_monthday" f
    validFrom := ← optional (Json.asText Wire.instant) "valid_from" f
    validUntil := ← optional (Json.asText Wire.instant) "valid_until" f
    maxRuns := (← optional (Json.asUnsigned 64) "max_runs" f).map UInt64.ofNat
    runsDone := UInt64.ofNat (← required (Json.asUnsigned 64) "runs_done" f)
    exclusions := ← required (Json.asList (Json.asText Wire.date)) "exclusions" f
    pendingSkips := ← required (Json.asUnsigned 32) "pending_skips" f }

/-! ### The payload -/

/-- The typed view of a request's payload. -/
structure SlotPayload where
  appName : Option String := none
  timerName : Option String := none
  timerId : Option Uuid := none
  id : Option Uuid := none
  occurrence : Option Json := none
  tz : Option String := none
  action : Option Json := none
  launchCommand : Option String := none
  args : Option (List String) := none
  workdir : Option String := none
  misfirePolicy : Option Json := none
  time : Option String := none
  everySecs : Option Nat := none
  days : Option Json := none
  day : Option Nat := none
  month : Option Nat := none
  cron : Option String := none
  ackThrough : Option Nat := none
  transport : Option Json := none

namespace SlotPayload

def fields : List String :=
  ["app_name", "timer_name", "timer_id", "id", "occurrence", "tz", "action", "launch_command",
    "args", "workdir", "misfire_policy", "time", "every_secs", "days", "day", "month", "cron",
    "ack_through", "transport"]

def read : JsonReader SlotPayload := fun j => do
  let f ← j.structFields fields
  return {
    appName := ← optional Json.asStr "app_name" f
    timerName := ← optional Json.asStr "timer_name" f
    timerId := ← optional (Json.asText Wire.uuid) "timer_id" f
    id := ← optional (Json.asText Wire.uuid) "id" f
    occurrence := ← optional some "occurrence" f
    tz := ← optional Json.asStr "tz" f
    action := ← optional some "action" f
    launchCommand := ← optional Json.asStr "launch_command" f
    args := ← optional (Json.asList Json.asStr) "args" f
    workdir := ← optional Json.asStr "workdir" f
    misfirePolicy := ← optional some "misfire_policy" f
    time := ← optional Json.asStr "time" f
    everySecs := ← optional (Json.asUnsigned 64) "every_secs" f
    days := ← optional some "days" f
    day := ← optional (Json.asUnsigned 8) "day" f
    month := ← optional (Json.asUnsigned 8) "month" f
    cron := ← optional Json.asStr "cron" f
    ackThrough := ← optional (Json.asUnsigned 64) "ack_through" f
    transport := ← optional some "transport" f }

/-- `SlotPayload::from_value`. -/
def fromValue (v : Json) : Except String SlotPayload :=
  match read v with
  | some payload => .ok payload
  | none => .error (Wire.payloadError v)

/-- The timer a request is about: `timer_id`, or its alias `id`. -/
def resolvedTimerId (p : SlotPayload) : Option Uuid := p.timerId.or p.id

end SlotPayload

/-! ### The short form -/

/-- `parse_weekdays`. -/
def parseWeekdays : List String → Except String Weekdays
  | [] => .ok ⟨0⟩
  | name :: names => do
    let day : UInt8 ← match name.map Char.toLower with
      | "mon" | "monday" => .ok 0
      | "tue" | "tues" | "tuesday" => .ok 1
      | "wed" | "wednesday" => .ok 2
      | "thu" | "thur" | "thurs" | "thursday" => .ok 3
      | "fri" | "friday" => .ok 4
      | "sat" | "saturday" => .ok 5
      | "sun" | "sunday" => .ok 6
      | other => .error s!"unknown weekday '{other}'"
    let w ← parseWeekdays names
    return ⟨1 <<< day ||| w.bits⟩

/-- `parse_days_value`: an array of names, or one string of them. -/
def parseDaysValue : Option Json → Except String Weekdays
  | none => .error "weekly requires days"
  | some (.arr items) => parseWeekdays (items.filterMap Json.asStr)
  | some (.str s) =>
    parseWeekdays (((s.toList.splitOnP fun c => c == ',' || OccurrenceKind.isWhiteSpace c).filter
      (· ≠ [])).map String.ofList)
  | some _ => .error "days must be a string or array of weekday names"

def orElse {α : Type} : Except String α → Except String α → Except String α
  | .ok a, _ => .ok a
  | .error _, next => next

/-- `parse_clock`. -/
def parseClock (s : String) : Except String Nat :=
  match orElse (Wire.timeAs "%H:%M:%S" s) (Wire.timeAs "%H:%M" s) with
  | .ok t => .ok t
  | .error e => .error s!"invalid clock time '{s}': {e}"

/-- `parse_once_at`: a date alone stands for its midnight. -/
def parseOnceAt (s : String) : Except String (Int × Nat) :=
  orElse (Wire.dateTimeAs "%Y-%m-%dT%H:%M:%S" s) <|
    orElse (Wire.dateTimeAs "%Y-%m-%d %H:%M:%S" s) <|
      match Wire.dateAs "%Y-%m-%d" s with
      | .ok d => .ok (d, 0)
      | .error e => .error s!"invalid once datetime '{s}': {e}"

/-- The fields of the short form. -/
structure SimplifiedOcc where
  time : Option String
  everySecs : Option Nat
  days : Option Json
  day : Option Nat
  month : Option Nat
  cron : Option String

/-- What is there, or the complaint that it is missing. -/
def orMissing {α : Type} (x : Option α) (message : String) : Except String α :=
  match x with
  | some a => .ok a
  | none => .error message

/-- The rule that the short form names: the first half of `build_kind`. -/
def kindOf (kind : String) (s : SimplifiedOcc) (now : Int) : Except String OccurrenceKind := do
  match kind.map Char.toLower with
  | "once" =>
    let t ← orMissing s.time "once requires time"
    let (date, time) ← parseOnceAt t
    return .once date time
  | "interval" =>
    return .interval (← orMissing s.everySecs "interval requires every_secs") now
  | "daily" =>
    return .daily (← parseClock (← orMissing s.time "daily requires time"))
  | "weekly" =>
    let t ← orMissing s.time "weekly requires time"
    return .weekly (← parseDaysValue s.days) (← parseClock t)
  | "monthly" =>
    let t ← orMissing s.time "monthly requires time"
    return .monthly (← orMissing s.day "monthly requires day") (← parseClock t)
  | "yearly" =>
    let t ← orMissing s.time "yearly requires time"
    let month ← orMissing s.month "yearly requires month"
    return .yearly month (← orMissing s.day "yearly requires day") (← parseClock t)
  | "cron" =>
    return .cron (← orMissing s.cron "cron requires cron expression")
  | other =>
    .error s!"unknown occurrence kind '{other}' (once|interval|daily|weekly|monthly|yearly|cron)"

/-- `build_kind`. -/
def buildKind [Calendar] (kind : String) (s : SimplifiedOcc) (tz : String) (now : Int) :
    Except String Occurrence := do
  Occurrence.new (← kindOf kind s now) tz

/-- The short form makes no schedule but those that `Occurrence::new` has
checked. -/
theorem new_of_buildKind [Calendar] {kind : String} {s : SimplifiedOcc} {tz : String} {now : Int}
    {occ : Occurrence} (h : buildKind kind s tz now = .ok occ) :
    ∃ rule, kindOf kind s now = .ok rule ∧ Occurrence.new rule tz = .ok occ := by
  unfold buildKind at h
  cases hk : kindOf kind s now with
  | error e =>
    rw [hk] at h
    cases h
  | ok rule =>
    rw [hk] at h
    exact ⟨rule, rfl, h⟩

/-- The short form under `occurrence`; what it leaves out may stand beside
it in the payload. -/
def simplifiedOf (p : SlotPayload) (f : List (String × Json)) : SimplifiedOcc where
  time := (((f.lookup "time").or (f.lookup "at")).bind Json.asStr).or p.time
  everySecs := ((f.lookup "every_secs").bind (Json.asUnsigned 64)).or p.everySecs
  days := (f.lookup "days").or p.days
  -- A number that does not fit a byte loses its high bits.
  day := (((f.lookup "day").bind (Json.asUnsigned 64)).map (· % 256)).or p.day
  month := (((f.lookup "month").bind (Json.asUnsigned 64)).map (· % 256)).or p.month
  cron := (((f.lookup "cron").or (f.lookup "expr")).bind Json.asStr).or p.cron

/-- The fields that stand in the payload itself. -/
def topLevelOf (p : SlotPayload) : SimplifiedOcc where
  time := p.time
  everySecs := p.everySecs
  days := p.days
  day := p.day
  month := p.month
  cron := p.cron

/-- `occurrence_from_payload`. -/
def occurrenceFromPayload [Calendar] (p : SlotPayload) (now : Int) : Except String Occurrence :=
  let tz := p.tz.getD "UTC"
  match p.occurrence with
  | some v =>
    match OccurrenceKind.read v with
    | some kind => Occurrence.new kind tz
    | none =>
      match Occurrence.read v with
      | some occ => .ok occ
      | none =>
        match v.asObject with
        | some f =>
          match ((f.lookup "kind").or (f.lookup "occ")).bind Json.asStr with
          | none => .error "occurrence.kind is required"
          | some kind => buildKind kind (simplifiedOf p f) tz now
        | none => .error s!"could not parse occurrence: {Wire.jsonText v}"
  | none =>
    if p.everySecs.isSome then buildKind "interval" (topLevelOf p) tz now
    else if p.cron.isSome then buildKind "cron" (topLevelOf p) tz now
    else if p.time.isSome then buildKind "daily" { topLevelOf p with cron := none } tz now
    else .error "payload must include occurrence (or time / every_secs / cron)"

/-! ### The other parts of a timer -/

/-- `Action`, tagged by `type`. -/
def Action.read : JsonReader Action := fun j => do
  let (name, rest) ← j.tagged "type"
  match name with
  | "launch" =>
    let f ← rest.structFields ["command", "args", "workdir"]
    return .launch (← required Json.asStr "command" f)
      (← defaulted (Json.asList Json.asStr) "args" [] f) (← optional Json.asStr "workdir" f)
  | "notify" =>
    let f ← rest.structFields ["title", "body"]
    return .notify (← required Json.asStr "title" f) (← defaulted Json.asStr "body" "" f)
  | "none" => return .none
  | _ => none

/-- `action_from_payload`. -/
def actionFromPayload (p : SlotPayload) : Except String Action :=
  match p.action with
  | some a =>
    match Action.read a with
    | some action => .ok action
    | none => .error s!"invalid action: {Wire.actionError a}"
  | none =>
    match p.launchCommand with
    | some cmd => .ok (.launch cmd (p.args.getD []) p.workdir)
    | none => .ok .none

def MisfirePolicy.read : JsonReader MisfirePolicy := fun j => do
  match ← j.variant with
  | ("skip", content) => if Json.isUnit content then return .skip else none
  | ("coalesce", some content) =>
    return .coalesce (← required (Json.asUnsigned 64) "grace_secs" (← content.asObject))
  | ("catch_up", some content) =>
    let f ← content.asObject
    return .catchUp (← required (Json.asUnsigned 64) "grace_secs" f)
      (← required (Json.asUnsigned 32) "max_catch_up" f)
  | _ => none

/-- `misfire_from_value`. -/
def misfireFromValue (v : Json) : Except String MisfirePolicy :=
  match MisfirePolicy.read v with
  | some p => .ok p
  | none =>
    match v with
    | .str s =>
      match s.map Char.toLower with
      | "skip" => .ok .skip
      | "coalesce" => .ok .defaultCalendar
      | other => .error s!"unknown misfire_policy '{other}'"
    | v => .error s!"invalid misfire_policy: {Wire.jsonText v}"

def TransportMode.fromWire : String → Option TransportMode
  | "json" => some .json
  | "ipc" => some .ipc
  | "auto" => some .auto
  | _ => none

/-- `transport_from_value`: the mode as a string, or under `mode`. -/
def transportFromValue (v : Json) : Except String TransportMode := do
  let mode ← match v with
    | .str s => .ok s
    | .obj f =>
      orMissing ((f.lookup "mode").bind Json.asStr)
        "payload.transport.mode is required (auto | json | ipc)"
    | _ => .error "payload.transport must be \x7b\"mode\": …\x7d or a string"
  orMissing (TransportMode.fromWire mode)
    s!"invalid transport mode '{mode}' (expected auto | json | ipc)"

/-- What a field of the payload says, if it is there. -/
def ifPresent {α : Type} (x : Option Json) (f : Json → Except String α) :
    Except String (Option α) :=
  match x with
  | none => .ok none
  | some v => (f v).map some

/-- `new_timer_from_payload`. -/
def newTimerFromPayload [Calendar] (p : SlotPayload) (now : Int) : Except String NewTimer := do
  let name ← orMissing (p.timerName.filter (· ≠ "")) "payload.timer_name is required for add"
  let occurrence ← occurrenceFromPayload p now
  let action ← actionFromPayload p
  let misfire ← ifPresent p.misfirePolicy misfireFromValue
  let transport ← ifPresent p.transport transportFromValue
  return {
    id := p.resolvedTimerId
    name
    occurrence
    misfire := misfire.getD (MisfirePolicy.forOccurrence occurrence)
    action
    transport := transport.getD .json }

/-- A new timer asks for the id that its request names. -/
theorem id_newTimerFromPayload [Calendar] {p : SlotPayload} {now : Int} {new : NewTimer}
    (h : newTimerFromPayload p now = .ok new) : new.id = p.resolvedTimerId := by
  unfold newTimerFromPayload at h
  simp only [bind, Except.bind, pure, Except.pure] at h
  repeat' split at h
  all_goals cases h
  rfl

/-- `patch_from_payload`. -/
def patchFromPayload [Calendar] (p : SlotPayload) (now : Int) : Except String TimerPatch := do
  let occurrence ←
    if p.occurrence.isSome ∨ p.time.isSome ∨ p.everySecs.isSome ∨ p.cron.isSome then
      (occurrenceFromPayload p now).map some
    else .ok none
  let action ←
    if p.action.isSome ∨ p.launchCommand.isSome then (actionFromPayload p).map some else .ok none
  let misfire ← ifPresent p.misfirePolicy misfireFromValue
  let transport ← ifPresent p.transport transportFromValue
  return { name := p.timerName.filter (· ≠ ""), occurrence, action, misfire, transport }

end

/-! ### A plain reader -/

namespace Wire

/-- The value of a numeral. -/
def numeral (base : Nat) (cs : List Char) : Option Nat :=
  cs.foldlM (fun n c => do
    let d ← if c.isDigit then some (c.toNat - 48)
      else if 'a' ≤ c ∧ c ≤ 'f' then some (c.toNat - 87)
      else none
    if d < base then return n * base + d else none) 0

/-- Hyphenated lower-case ids. -/
def plainUuid (s : String) : Option Uuid :=
  match s.toList.splitOn '-' with
  | [a, b, c, d, e] =>
    if [a, b, c, d, e].map List.length = [8, 4, 4, 4, 12] then
      (numeral 16 (a ++ b ++ c ++ d ++ e)).map Uuid.mk
    else none
  | _ => none

def plainUuidText (u : Uuid) : String :=
  let digits := Nat.toDigits 16 u.n
  let padded := List.replicate (32 - digits.length) '0' ++ digits
  String.ofList (padded.take 8 ++ '-' :: (padded.drop 8).take 4 ++ '-' :: (padded.drop 12).take 4 ++
    '-' :: (padded.drop 16).take 4 ++ '-' :: padded.drop 20)

/-- `HH:MM:SS`. -/
def plainTime (cs : List Char) : Option Nat :=
  match cs.splitOn ':' with
  | [[a, b], [c, d], [e, f]] => do
    let h ← numeral 10 [a, b]
    let m ← numeral 10 [c, d]
    let s ← numeral 10 [e, f]
    if h < 24 ∧ m < 60 ∧ s < 60 then return ((h * 60 + m) * 60 + s) * 1000000000 else none
  | _ => none

/-- `YYYY-MM-DD`. -/
def plainDate (cs : List Char) : Option Int :=
  match cs.splitOn '-' with
  | [[a, b, c, d], [e, f], [g, h]] => do
    Date.fromYmdOpt (← numeral 10 [a, b, c, d]) (← numeral 10 [e, f]) (← numeral 10 [g, h])
  | _ => none

/-- `YYYY-MM-DDTHH:MM:SS`. -/
def plainDateTime (cs : List Char) : Option (Int × Nat) :=
  match cs.splitOn 'T' with
  | [date, time] => do return (← plainDate date, ← plainTime time)
  | _ => none

/-- `YYYY-MM-DDTHH:MM:SSZ`. -/
def plainInstant (cs : List Char) : Option Int :=
  match cs.reverse with
  | 'Z' :: rest => (plainDateTime rest.reverse).map fun (date, time) => Date.at date time
  | _ => none

/-- What the sample requests below need of the readers. -/
@[reducible] def plain : Wire where
  uuid := plainUuid
  uuidText := plainUuidText
  time s := plainTime s.toList
  dateTime s := plainDateTime s.toList
  date s := plainDate s.toList
  instant s := plainInstant s.toList
  timeAs _ s := orMissing (plainTime s.toList) "input contains invalid characters"
  dateTimeAs _ s := orMissing (plainDateTime s.toList) "input contains invalid characters"
  dateAs _ s := orMissing (plainDate s.toList) "input contains invalid characters"
  jsonText _ := "…"
  payloadError _ := "invalid type"
  actionError _ := "invalid type"

end Wire

end Bellman

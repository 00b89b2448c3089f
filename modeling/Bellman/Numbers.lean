/-
Bellman/Numbers.lean

The numbers of a slot payload, and those of the schedule it makes.

A rule has numbers (a period, a day, a month) and a time of day, and each of
them stands somewhere in the payload:

    rule, schedule   under its name in the rule
    short form       under its name in the value of `occurrence`, or else in
                     the payload itself
    top level        under its name in the payload itself

The long forms read each number into its own type and refuse what does not
fit.  The short form reads every number as 64 bits, cuts days and months down
to a byte, and passes over what is no such number.

Main result: the schedule of a payload has the numbers that were sent if and
only if each number that the short form names fits its type
(`payload_numbers_iff`).
-/
import Bellman.Intake

namespace Bellman

/-! ### Values under names -/

namespace Json

def isNumber : Json → Bool
  | .num _ | .real _ => true
  | _ => false

/-- The number under a name. -/
def numberAt (name : String) (f : List (String × Json)) : Option Json :=
  (f.lookup name).filter isNumber

/-- The text under a name. -/
def textAt (name : String) (f : List (String × Json)) : Option String :=
  (f.lookup name).bind asStr

/-- The value under a name, unless it is `null`. -/
def valueAt (name : String) (f : List (String × Json)) : Option Json :=
  match f.lookup name with
  | some .null => none
  | v => v

end Json

open Json

section Readers

variable {f : List (String × Json)} {name : String} {bits : Nat}

theorem asUnsigned_eq {j : Json} {n : Nat} (h : asUnsigned bits j = some n) : j = .num n := by
  cases j with
  | num m =>
    have h : (if 0 ≤ m ∧ m < 2 ^ bits then some m.toNat else none) = some n := h
    split at h
    · next hm =>
      rw [← Option.some.inj h, Int.toNat_of_nonneg hm.1]
    · cases h
  | _ => cases h

theorem asUnsigned_num {m : Int} : (asUnsigned bits (.num m)).isSome ↔ 0 ≤ m ∧ m < 2 ^ bits := by
  show (if 0 ≤ m ∧ m < 2 ^ bits then some m.toNat else none).isSome ↔ _
  split
  · next h => exact iff_of_true rfl h
  · next h => exact iff_of_false nofun h

/-- A number of 64 bits loses none of them. -/
theorem map_mod_asUnsigned {o : Option Json} :
    (o.bind (asUnsigned 64)).map (· % 2 ^ 64) = o.bind (asUnsigned 64) := by
  cases hn : o.bind (asUnsigned 64) with
  | none => rfl
  | some n =>
    obtain ⟨j, -, hj⟩ := Option.bind_eq_some_iff.mp hn
    have hsome : (asUnsigned 64 (.num n)).isSome := by
      rw [← asUnsigned_eq hj, hj]
      rfl
    have hlt : n < 2 ^ 64 := by exact_mod_cast (asUnsigned_num.mp hsome).2
    exact congrArg some (Nat.mod_eq_of_lt hlt)

theorem numberAt_of_required {n : Nat} (h : required (asUnsigned bits) name f = some n) :
    numberAt name f = some (.num n) := by
  obtain ⟨j, hj, hn⟩ := Option.bind_eq_some_iff.mp h
  unfold numberAt
  rw [hj, asUnsigned_eq hn]
  rfl

theorem textAt_of_required {α : Type} {parse : String → Option α} {a : α}
    (h : required (asText parse) name f = some a) :
    ∃ s, textAt name f = some s ∧ parse s = some a := by
  obtain ⟨j, hj, ha⟩ := Option.bind_eq_some_iff.mp h
  cases j with
  | str s =>
    refine ⟨s, ?_, ha⟩
    unfold textAt
    rw [hj]
    rfl
  | _ => cases ha

/-- What an optional field holds, when it is read. -/
theorem numberAt_of_optional {o : Option Nat} (h : optional (asUnsigned bits) name f = some o) :
    numberAt name f = o.map fun n : Nat => Json.num n := by
  unfold optional defaulted at h
  unfold numberAt
  split at h
  · next hnone =>
    cases h
    rw [hnone]
    rfl
  · next j hsome =>
    rw [hsome]
    cases j with
    | null =>
      cases h
      rfl
    | num m =>
      obtain ⟨n, hn, rfl⟩ := Option.map_eq_some_iff.mp h
      rw [asUnsigned_eq hn]
      rfl
    | _ => cases h

theorem lt_of_optional {o : Option Nat} (h : optional (asUnsigned bits) name f = some o) :
    ∀ n ∈ o, n < 2 ^ bits := by
  rintro n rfl
  have hread : asUnsigned bits (.num n) = some n := by
    have hnum := numberAt_of_optional h
    obtain ⟨j, hj, hn⟩ : ∃ j, f.lookup name = some j ∧ asUnsigned bits j = some n := by
      unfold optional defaulted at h
      split at h
      · cases h
      · next j hsome =>
        refine ⟨j, hsome, ?_⟩
        cases j with
        | num m =>
          obtain ⟨n', hn', he⟩ := Option.map_eq_some_iff.mp h
          rw [hn']
          exact he
        | _ => cases h
    rw [← asUnsigned_eq hn]
    exact hn
  have hin := asUnsigned_num.mp (Option.isSome_of_eq_some hread)
  exact_mod_cast hin.2

theorem textAt_of_optional {o : Option String} (h : optional asStr name f = some o) :
    textAt name f = o := by
  unfold optional defaulted at h
  unfold textAt
  split at h
  · next hnone =>
    cases h
    rw [hnone]
    rfl
  · next j hsome =>
    rw [hsome]
    cases j <;> cases h <;> rfl

theorem valueAt_of_optional {o : Option Json} (h : optional some name f = some o) :
    valueAt name f = o := by
  unfold optional defaulted at h
  unfold valueAt
  split at h
  · next hnone =>
    cases h
    rw [hnone]
  · next j hsome =>
    rw [hsome]
    cases j <;> cases h <;> rfl

/-- What is narrowed to so many bits is what was sent, exactly when what was
sent has no more bits. -/
theorem narrowed_iff {own : Option Nat} (hbits : bits ≤ 64) (hown : ∀ n ∈ own, n < 2 ^ bits)
    {v : Nat}
    (h : (((f.lookup name).bind (asUnsigned 64)).map (· % 2 ^ bits)).or own = some v) :
    (numberAt name f).or (own.map fun n : Nat => Json.num n) = some (.num v) ↔
      ∀ n ∈ numberAt name f, (asUnsigned bits n).isSome := by
  unfold numberAt
  cases hj : f.lookup name with
  | none =>
    rw [hj] at h
    exact iff_of_true (congrArg (Option.map _) h) nofun
  | some j =>
    rw [hj] at h
    have hother (hnum : j.isNumber = false) (hread : asUnsigned 64 j = none) :
        ((some j).filter isNumber).or (own.map fun n : Nat => Json.num n) = some (.num v) ↔
          ∀ n ∈ (some j).filter isNumber, (asUnsigned bits n).isSome := by
      have h : (Option.map (· % 2 ^ bits) (asUnsigned 64 j)).or own = some v := h
      rw [hread] at h
      have hfilter : (some j).filter isNumber = none := by simp [hnum]
      rw [hfilter]
      exact iff_of_true (congrArg (Option.map _) h) nofun
    cases j with
    | num m =>
      have hsmall : (2 : Nat) ^ bits ≤ 2 ^ 64 := Nat.pow_le_pow_right (by decide) hbits
      show some (Json.num m) = some (Json.num v) ↔ ∀ n ∈ some (Json.num m), _
      have hall : (∀ n ∈ some (Json.num m), (asUnsigned bits n).isSome) ↔
          0 ≤ m ∧ m < 2 ^ bits := by
        rw [← asUnsigned_num]
        simp
      rw [hall, Option.some.injEq, Json.num.injEq]
      have h : (Option.map (· % 2 ^ bits) (if 0 ≤ m ∧ m < 2 ^ 64 then some m.toNat else none)).or
        own = some v := h
      split at h
      · next hm =>
        have hv : m.toNat % 2 ^ bits = v := Option.some.inj h
        have hpos : 0 < 2 ^ bits := Nat.two_pow_pos bits
        have hlt : m.toNat % 2 ^ bits < 2 ^ bits := Nat.mod_lt _ hpos
        have hcast : ((2 ^ bits : Nat) : Int) = 2 ^ bits := by norm_cast
        constructor
        · intro he
          omega
        · intro hr
          have : m.toNat % 2 ^ bits = m.toNat := Nat.mod_eq_of_lt (by omega)
          omega
      · next hm =>
        have hv := hown v h
        have hcast : ((2 ^ bits : Nat) : Int) = 2 ^ bits := by norm_cast
        constructor
        · intro he
          omega
        · intro hr
          omega
    | real lexeme => exact iff_of_false (by simp [isNumber]) fun hall => by cases hall _ rfl
    | null => exact hother rfl rfl
    | bool b => exact hother rfl rfl
    | str s => exact hother rfl rfl
    | arr items => exact hother rfl rfl
    | obj fields => exact hother rfl rfl

end Readers

/-! ### What was sent -/

/-- The fields of each rule, in order. -/
def OccurrenceKind.fieldNames : String → List String
  | "once" | "daily" => ["at"]
  | "interval" => ["every_secs", "anchor"]
  | "weekly" => ["days", "at"]
  | "monthly" => ["day", "at"]
  | "yearly" => ["month", "day", "at"]
  | "cron" => ["expr"]
  | _ => []

/-- The numbers that a rule has, with their bits. -/
def OccurrenceKind.numbers : String → List (String × Nat)
  | "interval" => [("every_secs", 64)]
  | "monthly" => [("day", 8)]
  | "yearly" => [("month", 8), ("day", 8)]
  | _ => []

theorem mem_numbers {kind : String} {field : String × Nat}
    (h : field ∈ OccurrenceKind.numbers kind) :
    field = ("every_secs", 64) ∨ field = ("day", 8) ∨ field = ("month", 8) := by
  unfold OccurrenceKind.numbers at h
  split at h <;> simp only [List.mem_cons, List.not_mem_nil, or_false] at h <;> tauto

/-- A rule holds the numbers and the time that were sent. -/
def OccurrenceKind.Holds (number : String → Nat → Prop) (clock : Nat → Prop)
    (moment : Int → Nat → Prop) : OccurrenceKind → Prop
  | .once date time => moment date time
  | .interval everySecs _ => number "every_secs" everySecs
  | .daily time | .weekly _ time => clock time
  | .monthly day time => number "day" day ∧ clock time
  | .yearly month day time => number "month" month ∧ number "day" day ∧ clock time
  | .cron _ => True

theorem orMissing_ok {α : Type} {x : Option α} {message : String} {a : α}
    (h : orMissing x message = .ok a) : x = some a := by
  cases x with
  | none => cases h
  | some b =>
    cases h
    rfl

section

variable [Wire]

/-- A text reads as a time of day, in one of the forms. -/
def ReadsClock (s : String) (time : Nat) : Prop :=
  Wire.time s = some time ∨ Wire.timeAs "%H:%M:%S" s = .ok time ∨ Wire.timeAs "%H:%M" s = .ok time

/-- A text reads as a date and a time, in one of the forms; a date alone
stands for its midnight. -/
def ReadsMoment (s : String) (date : Int) (time : Nat) : Prop :=
  Wire.dateTime s = some (date, time) ∨ Wire.dateTimeAs "%Y-%m-%dT%H:%M:%S" s = .ok (date, time) ∨
    Wire.dateTimeAs "%Y-%m-%d %H:%M:%S" s = .ok (date, time) ∨
    (Wire.dateAs "%Y-%m-%d" s = .ok date ∧ time = 0)

/-- The fields of a rule in full. -/
def ruleFields (v : Json) : List (String × Json) :=
  match v.tagged "occ" with
  | some (name, rest) => (rest.structFields (OccurrenceKind.fieldNames name)).getD []
  | none => []

/-- The fields of the rule, when the value is one in full or a schedule in
full. -/
def longFields (v : Json) : Option (List (String × Json)) :=
  if (OccurrenceKind.read v).isSome then some (ruleFields v)
  else if (Occurrence.read v).isSome then
    some ((((v.structFields Occurrence.fields).getD []).lookup "kind").elim [] ruleFields)
  else none

/-- The fields of a payload. -/
def payloadFields (j : Json) : List (String × Json) := (j.structFields SlotPayload.fields).getD []

/-- The number that the client sent for a field of the rule. -/
def sentNumber (j : Json) (name : String) : Option Json :=
  match valueAt "occurrence" (payloadFields j) with
  | none => numberAt name (payloadFields j)
  | some v =>
    match longFields v with
    | some f => numberAt name f
    | none => (numberAt name (v.asObject.getD [])).or (numberAt name (payloadFields j))

/-- The text that the client sent for its time. -/
def sentText (j : Json) : Option String :=
  match valueAt "occurrence" (payloadFields j) with
  | none => textAt "time" (payloadFields j)
  | some v =>
    match longFields v with
    | some f => textAt "at" f
    | none =>
      let f := v.asObject.getD []
      (((f.lookup "time").or (f.lookup "at")).bind asStr).or (textAt "time" (payloadFields j))

/-- The rule has the numbers that were sent. -/
def Sent (j : Json) (kind : OccurrenceKind) : Prop :=
  kind.Holds (fun name n => sentNumber j name = some (.num n))
    (fun time => ∃ s, sentText j = some s ∧ ReadsClock s time)
    (fun date time => ∃ s, sentText j = some s ∧ ReadsMoment s date time)

/-- The name and the fields of the short form under `occurrence`. -/
def shortForm (j : Json) : Option (String × List (String × Json)) := do
  let v ← valueAt "occurrence" (payloadFields j)
  if (longFields v).isSome then none
  let f ← v.asObject
  let kind ← ((f.lookup "kind").or (f.lookup "occ")).bind asStr
  return (kind, f)

/-- Each number that the short form names for its rule fits its type. -/
def NumbersFit (j : Json) : Prop :=
  ∀ kind f, shortForm j = some (kind, f) →
    ∀ field ∈ OccurrenceKind.numbers (kind.map Char.toLower),
      ∀ n ∈ numberAt field.1 f, (asUnsigned field.2 n).isSome

/-- The schedule of a request's payload. -/
def occurrenceOf [Calendar] (j : Json) (now : Int) : Except String Occurrence := do
  occurrenceFromPayload (← SlotPayload.fromValue j) now

/-- The payload that was read, field by field. -/
structure SlotPayload.ReadFrom (j : Json) (p : SlotPayload) : Prop where
  occurrence : valueAt "occurrence" (payloadFields j) = p.occurrence
  time : textAt "time" (payloadFields j) = p.time
  everySecs : numberAt "every_secs" (payloadFields j) = p.everySecs.map fun n : Nat => Json.num n
  day : numberAt "day" (payloadFields j) = p.day.map fun n : Nat => Json.num n
  month : numberAt "month" (payloadFields j) = p.month.map fun n : Nat => Json.num n
  everySecs_lt : ∀ n ∈ p.everySecs, n < 2 ^ 64
  day_lt : ∀ n ∈ p.day, n < 2 ^ 8
  month_lt : ∀ n ∈ p.month, n < 2 ^ 8

theorem SlotPayload.readFrom {j : Json} {p : SlotPayload} (h : fromValue j = .ok p) :
    ReadFrom j p := by
  have hread : read j = some p := by
    unfold fromValue at h
    split at h
    · next hread =>
      cases h
      exact hread
    · cases h
  obtain ⟨f, hf, hread⟩ := Option.bind_eq_some_iff.mp hread
  have hfields : payloadFields j = f := by
    unfold payloadFields
    rw [hf]
    rfl
  obtain ⟨appName, -, hread⟩ := Option.bind_eq_some_iff.mp hread
  obtain ⟨timerName, -, hread⟩ := Option.bind_eq_some_iff.mp hread
  obtain ⟨timerId, -, hread⟩ := Option.bind_eq_some_iff.mp hread
  obtain ⟨id, -, hread⟩ := Option.bind_eq_some_iff.mp hread
  obtain ⟨occurrence, hoccurrence, hread⟩ := Option.bind_eq_some_iff.mp hread
  obtain ⟨tz, -, hread⟩ := Option.bind_eq_some_iff.mp hread
  obtain ⟨action, -, hread⟩ := Option.bind_eq_some_iff.mp hread
  obtain ⟨launchCommand, -, hread⟩ := Option.bind_eq_some_iff.mp hread
  obtain ⟨args, -, hread⟩ := Option.bind_eq_some_iff.mp hread
  obtain ⟨workdir, -, hread⟩ := Option.bind_eq_some_iff.mp hread
  obtain ⟨misfirePolicy, -, hread⟩ := Option.bind_eq_some_iff.mp hread
  obtain ⟨time, htime, hread⟩ := Option.bind_eq_some_iff.mp hread
  obtain ⟨everySecs, hevery, hread⟩ := Option.bind_eq_some_iff.mp hread
  obtain ⟨days, -, hread⟩ := Option.bind_eq_some_iff.mp hread
  obtain ⟨day, hday, hread⟩ := Option.bind_eq_some_iff.mp hread
  obtain ⟨month, hmonth, hread⟩ := Option.bind_eq_some_iff.mp hread
  obtain ⟨cron, -, hread⟩ := Option.bind_eq_some_iff.mp hread
  obtain ⟨ackThrough, -, hread⟩ := Option.bind_eq_some_iff.mp hread
  obtain ⟨transport, -, hread⟩ := Option.bind_eq_some_iff.mp hread
  cases hread
  subst hfields
  exact ⟨valueAt_of_optional hoccurrence, textAt_of_optional htime, numberAt_of_optional hevery,
    numberAt_of_optional hday, numberAt_of_optional hmonth, lt_of_optional hevery,
    lt_of_optional hday, lt_of_optional hmonth⟩

/-! ### The long forms -/

/-- A rule in full holds what stands in it. -/
theorem OccurrenceKind.holds_of_read {v : Json} {kind : OccurrenceKind} (h : read v = some kind) :
    kind.Holds (fun name n => numberAt name (ruleFields v) = some (.num n))
      (fun time => ∃ s, textAt "at" (ruleFields v) = some s ∧ ReadsClock s time)
      (fun date time => ∃ s, textAt "at" (ruleFields v) = some s ∧ ReadsMoment s date time) := by
  obtain ⟨⟨name, rest⟩, htag, hread⟩ := Option.bind_eq_some_iff.mp h
  have hfields : ruleFields v = (rest.structFields (fieldNames name)).getD [] := by
    unfold ruleFields
    rw [htag]
  rw [hfields]
  have hclock {f : List (String × Json)} {t : Nat}
      (ht : required (asText Wire.time) "at" f = some t) :
      ∃ s, textAt "at" f = some s ∧ ReadsClock s t := by
    obtain ⟨s, hs, ht⟩ := textAt_of_required ht
    exact ⟨s, hs, .inl ht⟩
  dsimp only at hread
  split at hread
  · obtain ⟨f, hf, hread⟩ := Option.bind_eq_some_iff.mp hread
    obtain ⟨⟨date, time⟩, hat, hread⟩ := Option.bind_eq_some_iff.mp hread
    cases hread
    obtain ⟨s, hs, ht⟩ := textAt_of_required hat
    refine ⟨s, ?_, .inl ht⟩
    rw [show fieldNames "once" = ["at"] from rfl, hf]
    exact hs
  · obtain ⟨f, hf, hread⟩ := Option.bind_eq_some_iff.mp hread
    obtain ⟨every, hevery, hread⟩ := Option.bind_eq_some_iff.mp hread
    obtain ⟨anchor, -, hread⟩ := Option.bind_eq_some_iff.mp hread
    cases hread
    show numberAt "every_secs" ((rest.structFields ["every_secs", "anchor"]).getD []) = _
    rw [hf]
    exact numberAt_of_required hevery
  · obtain ⟨f, hf, hread⟩ := Option.bind_eq_some_iff.mp hread
    obtain ⟨time, htime, hread⟩ := Option.bind_eq_some_iff.mp hread
    cases hread
    show ∃ s, textAt "at" ((rest.structFields ["at"]).getD []) = some s ∧ _
    rw [hf]
    exact hclock htime
  · obtain ⟨f, hf, hread⟩ := Option.bind_eq_some_iff.mp hread
    obtain ⟨days, -, hread⟩ := Option.bind_eq_some_iff.mp hread
    obtain ⟨time, htime, hread⟩ := Option.bind_eq_some_iff.mp hread
    cases hread
    show ∃ s, textAt "at" ((rest.structFields ["days", "at"]).getD []) = some s ∧ _
    rw [hf]
    exact hclock htime
  · obtain ⟨f, hf, hread⟩ := Option.bind_eq_some_iff.mp hread
    obtain ⟨day, hday, hread⟩ := Option.bind_eq_some_iff.mp hread
    obtain ⟨time, htime, hread⟩ := Option.bind_eq_some_iff.mp hread
    cases hread
    show numberAt "day" ((rest.structFields ["day", "at"]).getD []) = _ ∧
      ∃ s, textAt "at" ((rest.structFields ["day", "at"]).getD []) = some s ∧ _
    rw [hf]
    exact ⟨numberAt_of_required hday, hclock htime⟩
  · obtain ⟨f, hf, hread⟩ := Option.bind_eq_some_iff.mp hread
    obtain ⟨month, hmonth, hread⟩ := Option.bind_eq_some_iff.mp hread
    obtain ⟨day, hday, hread⟩ := Option.bind_eq_some_iff.mp hread
    obtain ⟨time, htime, hread⟩ := Option.bind_eq_some_iff.mp hread
    cases hread
    show numberAt "month" ((rest.structFields ["month", "day", "at"]).getD []) = _ ∧
      numberAt "day" ((rest.structFields ["month", "day", "at"]).getD []) = _ ∧
      ∃ s, textAt "at" ((rest.structFields ["month", "day", "at"]).getD []) = some s ∧ _
    rw [hf]
    exact ⟨numberAt_of_required hmonth, numberAt_of_required hday, hclock htime⟩
  · obtain ⟨f, -, hread⟩ := Option.bind_eq_some_iff.mp hread
    obtain ⟨expr, -, hread⟩ := Option.bind_eq_some_iff.mp hread
    cases hread
    trivial
  · cases hread

/-- A schedule in full has its rule under `kind`. -/
theorem Occurrence.kind_of_read {v : Json} {occ : Occurrence} (h : read v = some occ) :
    ∃ kv, ((v.structFields fields).getD []).lookup "kind" = some kv ∧
      OccurrenceKind.read kv = some occ.kind := by
  unfold Occurrence.read at h
  obtain ⟨f, hf, h⟩ := Option.bind_eq_some_iff.mp h
  dsimp only at h
  split at h
  · cases h
  obtain ⟨kind, hkind, h⟩ := Option.bind_eq_some_iff.mp h
  obtain ⟨tz, -, h⟩ := Option.bind_eq_some_iff.mp h
  obtain ⟨gap, -, h⟩ := Option.bind_eq_some_iff.mp h
  obtain ⟨fold, -, h⟩ := Option.bind_eq_some_iff.mp h
  obtain ⟨monthday, -, h⟩ := Option.bind_eq_some_iff.mp h
  obtain ⟨validFrom, -, h⟩ := Option.bind_eq_some_iff.mp h
  obtain ⟨validUntil, -, h⟩ := Option.bind_eq_some_iff.mp h
  obtain ⟨maxRuns, -, h⟩ := Option.bind_eq_some_iff.mp h
  obtain ⟨runsDone, -, h⟩ := Option.bind_eq_some_iff.mp h
  obtain ⟨exclusions, -, h⟩ := Option.bind_eq_some_iff.mp h
  obtain ⟨pendingSkips, -, h⟩ := Option.bind_eq_some_iff.mp h
  cases h
  rw [hf]
  obtain ⟨kv, hkv, hkind⟩ := Option.bind_eq_some_iff.mp hkind
  exact ⟨kv, hkv, hkind⟩

/-! ### The short form -/

/-- The numbers of the short form, by name. -/
def SimplifiedOcc.number (s : SimplifiedOcc) : String → Option Nat
  | "every_secs" => s.everySecs
  | "day" => s.day
  | "month" => s.month
  | _ => none

theorem readsClock_of_parseClock {s : String} {time : Nat} (h : parseClock s = .ok time) :
    ReadsClock s time := by
  unfold parseClock at h
  split at h
  · next t hread =>
    cases h
    unfold orElse at hread
    split at hread
    · next hfirst =>
      cases hread
      exact .inr (.inl hfirst)
    · exact .inr (.inr hread)
  · cases h

theorem readsMoment_of_parseOnceAt {s : String} {date : Int} {time : Nat}
    (h : parseOnceAt s = .ok (date, time)) : ReadsMoment s date time := by
  unfold parseOnceAt orElse at h
  split at h
  · next hfirst =>
    cases h
    exact .inr (.inl hfirst)
  · split at h
    · next hsecond =>
      cases h
      exact .inr (.inr (.inl hsecond))
    · split at h
      · next hdate =>
        cases h
        exact .inr (.inr (.inr ⟨hdate, rfl⟩))
      · cases h

/-- The rule of the short form has the numbers and the time of the form. -/
theorem holds_kindOf {kind : String} {s : SimplifiedOcc} {now : Int} {rule : OccurrenceKind}
    (h : kindOf kind s now = .ok rule) :
    (∀ field ∈ OccurrenceKind.numbers (kind.map Char.toLower), ∃ n, s.number field.1 = some n) ∧
      ∀ N : String → Nat → Prop,
        rule.Holds N (fun time => ∃ t, s.time = some t ∧ ReadsClock t time)
            (fun date time => ∃ t, s.time = some t ∧ ReadsMoment t date time) ↔
          ∀ field ∈ OccurrenceKind.numbers (kind.map Char.toLower),
            ∃ n, s.number field.1 = some n ∧ N field.1 n := by
  unfold kindOf at h
  split at h
  · next hname =>
    obtain ⟨t, ht, h⟩ := bind_ok h
    obtain ⟨⟨date, time⟩, hread, h⟩ := bind_ok h
    cases h
    rw [hname]
    refine ⟨nofun, fun N => iff_of_true ?_ nofun⟩
    exact ⟨t, orMissing_ok ht, readsMoment_of_parseOnceAt hread⟩
  · next hname =>
    obtain ⟨every, hevery, h⟩ := bind_ok h
    cases h
    rw [hname]
    have hnumber : s.number "every_secs" = some every := orMissing_ok hevery
    simp [OccurrenceKind.Holds, OccurrenceKind.numbers, hnumber]
  · next hname =>
    obtain ⟨t, ht, h⟩ := bind_ok h
    obtain ⟨time, htime, h⟩ := bind_ok h
    cases h
    rw [hname]
    refine ⟨nofun, fun N => iff_of_true ?_ nofun⟩
    exact ⟨t, orMissing_ok ht, readsClock_of_parseClock htime⟩
  · next hname =>
    obtain ⟨t, ht, h⟩ := bind_ok h
    obtain ⟨days, -, h⟩ := bind_ok h
    obtain ⟨time, htime, h⟩ := bind_ok h
    cases h
    rw [hname]
    refine ⟨nofun, fun N => iff_of_true ?_ nofun⟩
    exact ⟨t, orMissing_ok ht, readsClock_of_parseClock htime⟩
  · next hname =>
    obtain ⟨t, ht, h⟩ := bind_ok h
    obtain ⟨day, hday, h⟩ := bind_ok h
    obtain ⟨time, htime, h⟩ := bind_ok h
    cases h
    rw [hname]
    have hclock : ∃ t, s.time = some t ∧ ReadsClock t time :=
      ⟨t, orMissing_ok ht, readsClock_of_parseClock htime⟩
    have hnumber : s.number "day" = some day := orMissing_ok hday
    simp [OccurrenceKind.Holds, OccurrenceKind.numbers, hnumber, hclock]
  · next hname =>
    obtain ⟨t, ht, h⟩ := bind_ok h
    obtain ⟨month, hmonth, h⟩ := bind_ok h
    obtain ⟨day, hday, h⟩ := bind_ok h
    obtain ⟨time, htime, h⟩ := bind_ok h
    cases h
    rw [hname]
    have hclock : ∃ t, s.time = some t ∧ ReadsClock t time :=
      ⟨t, orMissing_ok ht, readsClock_of_parseClock htime⟩
    have hnumber : s.number "day" = some day := orMissing_ok hday
    have hnumber' : s.number "month" = some month := orMissing_ok hmonth
    simp [OccurrenceKind.Holds, OccurrenceKind.numbers, hnumber, hnumber', hclock]
  · next hname =>
    obtain ⟨expr, -, h⟩ := bind_ok h
    cases h
    rw [hname]
    exact ⟨nofun, fun N => iff_of_true trivial nofun⟩
  · cases h

/-! ### The numbers of a payload -/

section Payload

variable {j : Json} {p : SlotPayload} {now : Int} {occ : Occurrence}

/-- A long form is taken as it is, and there is no short one. -/
theorem sent_of_long {v : Json} {f : List (String × Json)} {kind : OccurrenceKind}
    (hv : valueAt "occurrence" (payloadFields j) = some v) (hlong : longFields v = some f)
    (h : kind.Holds (fun name n => numberAt name f = some (.num n))
      (fun time => ∃ s, textAt "at" f = some s ∧ ReadsClock s time)
      (fun date time => ∃ s, textAt "at" f = some s ∧ ReadsMoment s date time)) :
    Sent j kind ↔ NumbersFit j := by
  have hshort : shortForm j = none := by
    unfold shortForm
    rw [hv]
    show (if (longFields v).isSome then none else _) = _
    rw [hlong]
    rfl
  refine iff_of_true ?_ fun kind' f' hform => ?_
  · unfold Sent sentNumber sentText
    rw [hv]
    dsimp only
    rw [hlong]
    exact h
  · rw [hshort] at hform
    cases hform

/-- What the payload itself says is read into its type. -/
theorem sent_of_topLevel {kind : String} {s : SimplifiedOcc} {rule : OccurrenceKind}
    (hv : valueAt "occurrence" (payloadFields j) = none) (h : kindOf kind s now = .ok rule)
    (htime : textAt "time" (payloadFields j) = s.time)
    (hnumber : ∀ field ∈ OccurrenceKind.numbers (kind.map Char.toLower),
      ∃ n, s.number field.1 = some n ∧ numberAt field.1 (payloadFields j) = some (.num n)) :
    Sent j rule ↔ NumbersFit j := by
  refine iff_of_true ?_ fun kind' f' hform => ?_
  · unfold Sent sentNumber sentText
    rw [hv]
    dsimp only
    rw [htime]
    exact ((holds_kindOf h).2 _).mpr hnumber
  · unfold shortForm at hform
    rw [hv] at hform
    cases hform

/-- The short form narrows what it is given. -/
theorem sent_of_short {v : Json} {f : List (String × Json)} {kind : String}
    {rule : OccurrenceKind} (hp : p.ReadFrom j) (hv : p.occurrence = some v)
    (hlong : longFields v = none) (hf : v.asObject = some f)
    (hname : ((f.lookup "kind").or (f.lookup "occ")).bind asStr = some kind)
    (h : kindOf kind (simplifiedOf p f) now = .ok rule) : Sent j rule ↔ NumbersFit j := by
  have hvalue : valueAt "occurrence" (payloadFields j) = some v := hp.occurrence.trans hv
  have hform : shortForm j = some (kind, f) := by
    unfold shortForm
    rw [hvalue]
    show (if (longFields v).isSome then none else _) = _
    rw [hlong]
    show (v.asObject.bind fun f => _) = _
    rw [hf]
    show ((((f.lookup "kind").or (f.lookup "occ")).bind asStr).bind fun kind => _) = _
    rw [hname]
    rfl
  have hfit : NumbersFit j ↔ ∀ field ∈ OccurrenceKind.numbers (kind.map Char.toLower),
      ∀ n ∈ numberAt field.1 f, (asUnsigned field.2 n).isSome := by
    unfold NumbersFit
    rw [hform]
    constructor
    · exact fun hall => hall kind f rfl
    · rintro hall kind' f' he
      obtain ⟨rfl, rfl⟩ := Prod.mk.inj (Option.some.inj he)
      exact hall
  have hsent : Sent j rule ↔ ∀ field ∈ OccurrenceKind.numbers (kind.map Char.toLower),
      ∃ n, (simplifiedOf p f).number field.1 = some n ∧
        (numberAt field.1 f).or (numberAt field.1 (payloadFields j)) = some (.num n) := by
    rw [← (holds_kindOf h).2 fun name n =>
      (numberAt name f).or (numberAt name (payloadFields j)) = some (.num n)]
    unfold Sent sentNumber sentText
    rw [hvalue]
    dsimp only
    rw [hlong, hf, hp.time]
    exact Iff.rfl
  have hnumber : ∀ field ∈ OccurrenceKind.numbers (kind.map Char.toLower),
      ∃ n, (simplifiedOf p f).number field.1 = some n ∧
        ((numberAt field.1 f).or (numberAt field.1 (payloadFields j)) = some (.num n) ↔
          ∀ n ∈ numberAt field.1 f, (asUnsigned field.2 n).isSome) := by
    intro field hfield
    obtain ⟨n, hn⟩ := (holds_kindOf h).1 field hfield
    refine ⟨n, hn, ?_⟩
    rcases mem_numbers hfield with rfl | rfl | rfl
    · rw [hp.everySecs]
      apply narrowed_iff (Nat.le_refl 64) hp.everySecs_lt
      rw [map_mod_asUnsigned]
      exact hn
    · rw [hp.day]
      exact narrowed_iff (by decide) hp.day_lt hn
    · rw [hp.month]
      exact narrowed_iff (by decide) hp.month_lt hn
  rw [hsent, hfit]
  constructor
  · intro hall field hfield
    obtain ⟨n, hn, he⟩ := hall field hfield
    obtain ⟨n', hn', hiff⟩ := hnumber field hfield
    obtain rfl := Option.some.inj (hn.symm.trans hn')
    exact hiff.mp he
  · intro hall field hfield
    obtain ⟨n, hn, hiff⟩ := hnumber field hfield
    exact ⟨n, hn, hiff.mpr (hall field hfield)⟩

variable [Calendar]

omit [Wire] in
theorem kind_of_new {kind : OccurrenceKind} {tz : String} (h : Occurrence.new kind tz = .ok occ) :
    occ.kind = kind := by
  obtain ⟨-, -, rfl⟩ := Occurrence.new_ok_iff.mp h
  rfl

/-- **The schedule of a payload has the numbers that were sent** if and only
if each number that the short form names fits its type. -/
theorem payload_numbers_iff (h : occurrenceOf j now = .ok occ) :
    Sent j occ.kind ↔ NumbersFit j := by
  obtain ⟨p, hread, hocc⟩ := bind_ok h
  have hp := SlotPayload.readFrom hread
  unfold occurrenceFromPayload at hocc
  dsimp only at hocc
  cases hv : p.occurrence with
  | none =>
    have hvalue := hp.occurrence.trans hv
    rw [hv] at hocc
    dsimp only at hocc
    split at hocc
    · next hsome =>
      obtain ⟨rule, hrule, hnew⟩ := new_of_buildKind hocc
      rw [kind_of_new hnew]
      refine sent_of_topLevel hvalue hrule hp.time fun field hfield => ?_
      obtain ⟨every, hevery⟩ := Option.isSome_iff_exists.mp hsome
      have hlower : OccurrenceKind.numbers ("interval".map Char.toLower) =
          [("every_secs", 64)] := by
        decide +kernel
      rw [hlower] at hfield
      obtain rfl := List.mem_singleton.mp hfield
      exact ⟨every, hevery, by rw [hp.everySecs, hevery]; rfl⟩
    split at hocc
    · obtain ⟨rule, hrule, hnew⟩ := new_of_buildKind hocc
      rw [kind_of_new hnew]
      have hlower : OccurrenceKind.numbers ("cron".map Char.toLower) = [] := by decide +kernel
      exact sent_of_topLevel hvalue hrule hp.time (by rw [hlower]; exact nofun)
    split at hocc
    · obtain ⟨rule, hrule, hnew⟩ := new_of_buildKind hocc
      rw [kind_of_new hnew]
      have hlower : OccurrenceKind.numbers ("daily".map Char.toLower) = [] := by decide +kernel
      exact sent_of_topLevel hvalue hrule hp.time (by rw [hlower]; exact nofun)
    · cases hocc
  | some v =>
    have hvalue := hp.occurrence.trans hv
    rw [hv] at hocc
    dsimp only at hocc
    cases hrule : OccurrenceKind.read v with
    | some kind =>
      rw [hrule] at hocc
      have hlong : longFields v = some (ruleFields v) := if_pos (by rw [hrule]; rfl)
      rw [kind_of_new hocc]
      exact sent_of_long hvalue hlong (OccurrenceKind.holds_of_read hrule)
    | none =>
      rw [hrule] at hocc
      dsimp only at hocc
      cases hwhole : Occurrence.read v with
      | some occ' =>
        rw [hwhole] at hocc
        cases hocc
        obtain ⟨kv, hkv, hkind⟩ := Occurrence.kind_of_read hwhole
        have hlong : longFields v = some (ruleFields kv) := by
          unfold longFields
          rw [hrule, hwhole, hkv]
          rfl
        exact sent_of_long hvalue hlong (OccurrenceKind.holds_of_read hkind)
      | none =>
        rw [hwhole] at hocc
        have hlong : longFields v = none := by
          unfold longFields
          rw [hrule, hwhole]
          rfl
        dsimp only at hocc
        cases hf : v.asObject with
        | none =>
          rw [hf] at hocc
          cases hocc
        | some f =>
          rw [hf] at hocc
          dsimp only at hocc
          cases hname : ((f.lookup "kind").or (f.lookup "occ")).bind asStr with
          | none =>
            rw [hname] at hocc
            cases hocc
          | some kind =>
            rw [hname] at hocc
            obtain ⟨rule, hrule, hnew⟩ := new_of_buildKind hocc
            rw [kind_of_new hnew]
            exact sent_of_short hp hv hlong hf hname hrule

end Payload

end

section Sample

attribute [local instance] Calendar.utcOnly Wire.plain

/-- A request for a timer on one day of each month. -/
def monthlyOn (day : Int) : Json :=
  .obj [("timer_name", .str "rent"),
    ("occurrence", .obj [("kind", .str "monthly"), ("day", .num day), ("time", .str "08:00:00")])]

theorem shortForm_monthlyOn (day : Int) : shortForm (monthlyOn day) = some ("monthly",
    [("kind", .str "monthly"), ("day", .num day), ("time", .str "08:00:00")]) := rfl

theorem payload_numbers_monthly : Sent (monthlyOn 15) (.monthly 15 28800000000000) := by
  have h : occurrenceOf (monthlyOn 15) 0 =
      .ok { kind := .monthly 15 28800000000000, tz := "UTC" } := by decide +kernel
  refine (payload_numbers_iff h).mpr fun kind f hform field hfield n hn => ?_
  obtain ⟨rfl, rfl⟩ := Prod.mk.inj (Option.some.inj ((shortForm_monthlyOn 15).symm.trans hform))
  have hnumbers : OccurrenceKind.numbers ("monthly".map Char.toLower) = [("day", 8)] := by
    decide +kernel
  rw [hnumbers] at hfield
  obtain rfl := List.mem_singleton.mp hfield
  obtain rfl := Option.some.inj (show some (Json.num 15) = some n from hn)
  rfl

/-- Day 257 becomes the first. -/
theorem payload_number_wraps : ¬∀ (j : Json) (now : Int) (occ : Occurrence),
    occurrenceOf j now = .ok occ → Sent j occ.kind := by
  intro h
  have hsent := h (monthlyOn 257) 0 { kind := .monthly 1 28800000000000, tz := "UTC" }
    (by decide +kernel)
  have hday : sentNumber (monthlyOn 257) "day" = some (.num 257) := rfl
  have hone : sentNumber (monthlyOn 257) "day" = some (.num 1) := hsent.1
  rw [hday] at hone
  cases hone

end Sample

end Bellman

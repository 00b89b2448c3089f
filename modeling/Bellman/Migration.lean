/-
Bellman/Migration.lean

Opening a store that has an older schema.

Every open applies the migrations that come after the version in the header of
the database.  SQLite commits each of their statements by itself, so a process
that dies leaves a database with some of them done and the old version in its
header; the next open takes all of them again.  Tables and indexes are created
if they do not exist, columns are added if the table does not have them, rows
are updated that are not updated yet.

The version is written twice, at the end: into the header, and into the row of
`meta`.  A database with the new version in its header is not looked at again.
So when the process dies between the two, `meta` keeps the old version.

Statements are prepared, with nothing but the schema, and then applied.  A
database is seen through its schema where only that is asked
(`runSteps_schema`).

Main result: a store that is opened again, after any opens that were cut off,
ends as if none had been, with both versions the same, exactly when none of
them was cut off between the two (`migration_crash_safe_iff`).
-/
import Bellman.Lib.Script
import Bellman.Store

namespace Bellman

open ProgramLogic

namespace Migration

/-! ### Databases -/

inductive SqlValue where
  | null
  | int (n : Int)
  | text (s : String)
  deriving Repr, DecidableEq

/-- The order of two values; nothing is less than NULL, or greater. -/
def SqlValue.lt : SqlValue → SqlValue → Bool
  | int a, int b => a < b
  | int _, text _ => true
  | text a, text b => a < b
  | _, _ => false

/-- A row, by column. -/
abbrev Row : Type := String → SqlValue

structure Column where
  name : String
  type : String
  default : SqlValue := .null
  deriving Repr, DecidableEq

structure TableDef where
  columns : List Column
  constraints : List String := []
  deriving Repr, DecidableEq

structure IndexDef where
  table : String
  columns : List String
  deriving Repr, DecidableEq

/-- Tables and indexes, by name. -/
structure Schema where
  tables : String → Option TableDef := fun _ => none
  indexes : String → Option IndexDef := fun _ => none

structure Table where
  info : TableDef
  rows : List Row := []

structure Database where
  tables : String → Option Table := fun _ => none
  indexes : String → Option IndexDef := fun _ => none
  /-- The version in the header. -/
  userVersion : Int := 0

def Database.schema (db : Database) : Schema :=
  { tables := fun table => (db.tables table).map Table.info, indexes := db.indexes }

def Database.rows (db : Database) (table : String) : List Row :=
  ((db.tables table).map Table.rows).getD []

namespace Schema

def hasTable (sch : Schema) (table : String) : Bool := (sch.tables table).isSome

def hasColumn (sch : Schema) (table column : String) : Bool :=
  (sch.tables table).any fun d => d.columns.any (·.name == column)

def hasIndex (sch : Schema) (index : String) : Bool := (sch.indexes index).isSome

end Schema

/-! ### Statements -/

inductive SqlError where
  | noSuchTable (table : String)
  | noSuchColumn (column : String)
  | duplicateColumn (column : String)
  deriving Repr, DecidableEq

def SqlError.text : SqlError → String
  | noSuchTable table => s!"no such table: {table}"
  | noSuchColumn column => s!"no such column: {column}"
  | duplicateColumn column => s!"duplicate column name: {column}"

inductive SqlExpr where
  | value (v : SqlValue)
  /-- How many rows of the table stand in a relation to the one that is
  updated. -/
  | count (rel : Row → Row → Bool)

def SqlExpr.eval (rows : List Row) (row : Row) : SqlExpr → SqlValue
  | value v => v
  | count rel => .int (rows.countP (rel · row))

inductive Statement where
  /-- `CREATE TABLE IF NOT EXISTS` -/
  | createTable (table : String) (info : TableDef)
  /-- `CREATE INDEX IF NOT EXISTS` -/
  | createIndex (index : String) (info : IndexDef)
  /-- `ALTER TABLE … ADD COLUMN` -/
  | addColumn (table : String) (column : Column)
  /-- `INSERT OR IGNORE`, into a table with one key column -/
  | insertOrIgnore (table key : String) (values : List (String × SqlValue))
  /-- `UPDATE … SET … WHERE column = v`, or `IS NULL` -/
  | update (table : String) (sets : List (String × SqlExpr)) (column : String) (v : SqlValue)
  /-- `PRAGMA user_version = n` -/
  | setUserVersion (n : Int)

/-- The table and the columns that a statement names are there. -/
def Schema.names (sch : Schema) (table : String) (columns : List String) : Except SqlError Unit :=
  if sch.hasTable table then
    match columns.find? fun c => !sch.hasColumn table c with
    | some c => .error (.noSuchColumn c)
    | none => .ok ()
  else .error (.noSuchTable table)

def valueOf (values : List (String × SqlValue)) : Row := fun c => (values.lookup c).getD .null

def setRow (sets : List (String × SqlExpr)) (rows : List Row) (row : Row) : Row := fun c =>
  match sets.lookup c with
  | some e => e.eval rows row
  | none => row c

def Database.modify (db : Database) (table : String) (f : Table → Table) : Database :=
  { db with tables := Function.update db.tables table ((db.tables table).map f) }

def TableDef.add (column : Column) (info : TableDef) : TableDef :=
  { info with columns := info.columns ++ [column] }

namespace Statement

def prepare (sch : Schema) : Statement → Except SqlError Unit
  | createTable .. => .ok ()
  | createIndex _ info => sch.names info.table info.columns
  | addColumn table column =>
    if sch.hasColumn table column.name then .error (.duplicateColumn column.name)
    else sch.names table []
  | insertOrIgnore table _ values => sch.names table (values.map Prod.fst)
  | update table sets column _ => sch.names table (column :: sets.map Prod.fst)
  | setUserVersion _ => .ok ()

def apply (db : Database) : Statement → Database
  | createTable table info =>
    if db.schema.hasTable table then db
    else { db with tables := Function.update db.tables table (some { info }) }
  | createIndex index info =>
    if db.schema.hasIndex index then db
    else { db with indexes := Function.update db.indexes index (some info) }
  | addColumn table column =>
    db.modify table fun t =>
      { info := t.info.add column
        rows := t.rows.map fun row => Function.update row column.name column.default }
  | insertOrIgnore table key values =>
    if ∃ row ∈ db.rows table, row key = valueOf values key then db
    else db.modify table fun t => { t with rows := t.rows ++ [valueOf values] }
  | update table sets column v =>
    db.modify table fun t =>
      { t with
        rows := t.rows.map fun row => if row column = v then setRow sets t.rows row else row }
  | setUserVersion n => { db with userVersion := n }

/-- What a statement does to the schema. -/
def applySchema (sch : Schema) : Statement → Schema
  | createTable table info =>
    if sch.hasTable table then sch
    else { sch with tables := Function.update sch.tables table (some info) }
  | createIndex index info =>
    if sch.hasIndex index then sch
    else { sch with indexes := Function.update sch.indexes index (some info) }
  | addColumn table column =>
    { sch with tables := Function.update sch.tables table ((sch.tables table).map (·.add column)) }
  | _ => sch

end Statement

/-! ### The migrations -/

def SCHEMA_VERSION : Int := 9

inductive MigrationAction where
  | run (stmt : Statement)
  /-- `ALTER TABLE … ADD COLUMN`, if `table_has_column` does not find it -/
  | addMissing (table : String) (column : Column)

/-- A statement, and what an error of it is reported as. -/
structure MigrationStep where
  context : String
  action : MigrationAction

/-- The statement that is run, if any. -/
def MigrationAction.statement (sch : Schema) : MigrationAction → Option Statement
  | run stmt => some stmt
  | addMissing table column =>
    if sch.hasColumn table column.name then none else some (.addColumn table column)

def MigrationStep.exec (step : MigrationStep) (db : Database) : Except StoreError Database :=
  match step.action.statement db.schema with
  | none => .ok db
  | some stmt =>
    match stmt.prepare db.schema with
    | .error e => .error (.sqlite (step.context ++ ": " ++ e.text))
    | .ok () => .ok (stmt.apply db)

/-- `execute_batch` -/
def batch (context : String) (stmts : List Statement) : List MigrationStep :=
  stmts.map fun stmt => { context, action := .run stmt }

def addMissing (context table name type : String) (default : SqlValue) : MigrationStep :=
  { context, action := .addMissing table { name, type, default } }

/-- A column that has no default. -/
def col (name type : String) : Column := { name, type }

def migrateV1 : List MigrationStep := batch "migrate v1"
  [ .createTable "timers"
      { columns :=
          [ col "id" "TEXT PRIMARY KEY NOT NULL", col "name" "TEXT NOT NULL",
            { name := "enabled", type := "INTEGER NOT NULL", default := .int 1 },
            col "occurrence" "TEXT NOT NULL", col "tz" "TEXT NOT NULL",
            col "next_fire_utc" "TEXT", col "last_fired" "TEXT",
            col "misfire_policy" "TEXT NOT NULL", col "overlap_policy" "TEXT NOT NULL",
            col "retry_policy" "TEXT NOT NULL", col "valid_from" "TEXT",
            col "valid_until" "TEXT", col "max_runs" "INTEGER",
            { name := "tags", type := "TEXT NOT NULL", default := .text "[]" },
            col "action" "TEXT NOT NULL",
            { name := "revision", type := "INTEGER NOT NULL", default := .int 1 } ] },
    .createIndex "idx_timers_next_fire" ⟨"timers", ["next_fire_utc"]⟩,
    .createIndex "idx_timers_enabled_next_fire" ⟨"timers", ["enabled", "next_fire_utc"]⟩,
    .createTable "runs"
      { columns :=
          [ col "run_id" "TEXT PRIMARY KEY NOT NULL", col "timer_id" "TEXT NOT NULL",
            col "scheduled_for" "TEXT NOT NULL", col "status" "TEXT NOT NULL",
            col "claimed_at" "TEXT NOT NULL", col "completed_at" "TEXT" ]
        constraints := ["UNIQUE (timer_id, scheduled_for)"] },
    .createIndex "idx_runs_status" ⟨"runs", ["status"]⟩,
    .createTable "meta"
      { columns :=
          [ col "id" "INTEGER PRIMARY KEY CHECK (id = 1)", col "schema_version" "INTEGER NOT NULL",
            col "last_prune" "TEXT", col "last_recalibration" "TEXT",
            col "tzdata_version" "TEXT" ] },
    .insertOrIgnore "meta" "id"
      [ ("id", .int 1), ("schema_version", .int 1), ("last_prune", .null),
        ("last_recalibration", .null), ("tzdata_version", .null) ] ]

def migrateV2 : List MigrationStep := batch "migrate v2"
  [ .createTable "slot_requests"
      { columns :=
          [ col "request_id" "TEXT PRIMARY KEY NOT NULL", col "slot_id" "TEXT NOT NULL",
            col "operation" "TEXT NOT NULL", col "app_name" "TEXT", col "timer_id" "TEXT",
            col "status" "TEXT NOT NULL", col "response_json" "TEXT NOT NULL",
            col "created_at" "TEXT NOT NULL" ] },
    .createIndex "idx_slot_requests_created" ⟨"slot_requests", ["created_at"]⟩,
    .createTable "timer_owners"
      { columns :=
          [col "timer_id" "TEXT PRIMARY KEY NOT NULL", col "app_name" "TEXT NOT NULL"] } ]

/-- The run is before the other one of the timer, or it is the same. -/
def upTo (r2 row : Row) : Bool :=
  r2 "timer_id" = row "timer_id" &&
    ((r2 "scheduled_for").lt (row "scheduled_for") ||
      (r2 "scheduled_for" = row "scheduled_for" &&
        ((r2 "run_id").lt (row "run_id") || r2 "run_id" = row "run_id")))

def migrateV3 : List MigrationStep :=
  addMissing "migrate v3 add event_sequence" "runs" "event_sequence" "INTEGER" .null ::
  batch "migrate v3 slot_event_acks"
    [ .createTable "slot_event_acks"
        { columns :=
            [ col "timer_id" "TEXT PRIMARY KEY NOT NULL",
              { name := "last_acked_sequence", type := "INTEGER NOT NULL",
                default := .int 0 } ] } ] ++
  batch "migrate v3 backfill"
    [.update "runs" [("event_sequence", .count upTo)] "event_sequence" .null]

def migrateV4 : List MigrationStep :=
  [ addMissing "migrate v4 add jitter_secs" "timers" "jitter_secs" "INTEGER NOT NULL" (.int 0),
    addMissing "migrate v4 add accuracy_slack_secs" "timers" "accuracy_slack_secs" "INTEGER"
      .null ]

def migrateV5 : List MigrationStep :=
  [addMissing "migrate v5 add wake_machine" "timers" "wake_machine" "INTEGER NOT NULL" (.int 0)]

def migrateV6 : List MigrationStep := batch "migrate v6"
  [ .createTable "run_states"
      { columns :=
          [ col "run_id" "TEXT PRIMARY KEY NOT NULL", col "timer_id" "TEXT NOT NULL",
            col "app_name" "TEXT NOT NULL", col "state" "TEXT NOT NULL",
            col "fired_at" "TEXT NOT NULL", col "pickup_deadline" "TEXT",
            col "acknowledged_at" "TEXT", col "expected_secs" "INTEGER",
            col "error_detection" "INTEGER", col "heartbeat_at" "TEXT", col "progress" "TEXT",
            col "completed_at" "TEXT", col "failed_at" "TEXT", col "reason" "TEXT",
            col "failure_kind" "TEXT", col "result_json" "TEXT",
            { name := "result_truncated", type := "INTEGER NOT NULL", default := .int 0 },
            col "watchdog_deadline" "TEXT", col "no_ack_at" "TEXT", col "reply_digest" "TEXT",
            { name := "acknowledged_logged", type := "INTEGER NOT NULL", default := .int 0 },
            { name := "running_logged", type := "INTEGER NOT NULL", default := .int 0 } ] },
    .createIndex "idx_run_states_timer" ⟨"run_states", ["timer_id"]⟩ ]

def migrateV7 : List MigrationStep := batch "migrate v7"
  [ .createTable "event_outbox"
      { columns :=
          [ col "event_id" "TEXT PRIMARY KEY NOT NULL", col "payload" "TEXT NOT NULL",
            col "enqueued_at" "TEXT NOT NULL" ] },
    .createIndex "idx_event_outbox_enqueued" ⟨"event_outbox", ["enqueued_at"]⟩,
    .createTable "rotation_journal"
      { columns :=
          [ col "id" "INTEGER PRIMARY KEY CHECK (id = 1)", col "source" "TEXT NOT NULL",
            col "rotating" "TEXT NOT NULL", col "gz_tmp" "TEXT NOT NULL",
            col "final_path" "TEXT NOT NULL", col "phase" "TEXT NOT NULL",
            col "started_at" "TEXT NOT NULL" ] } ]

def migrateV8 : List MigrationStep :=
  [ addMissing "migrate v8 add outcome" "runs" "outcome" "TEXT" .null,
    addMissing "migrate v8 add outcome_reason" "runs" "outcome_reason" "TEXT" .null,
    addMissing "migrate v8 add cancel_requested" "runs" "cancel_requested" "INTEGER NOT NULL"
      (.int 0) ] ++
  batch "migrate v8 status split"
    [ .update "runs"
        [("status", .value (.text "finished")), ("outcome", .value (.text "wake_delivered"))]
        "status" (.text "completed"),
      .update "runs"
        [("status", .value (.text "finished")), ("outcome", .value (.text "wake_failed"))]
        "status" (.text "wake_failed"),
      .update "runs" [("status", .value (.text "pending"))] "status" (.text "claimed") ] ++
  batch "migrate v8 transport projections"
    [ .createTable "transport_projections"
        { columns :=
            [ col "run_id" "TEXT PRIMARY KEY NOT NULL", col "timer_id" "TEXT NOT NULL",
              col "target_path" "TEXT NOT NULL", col "payload" "TEXT NOT NULL",
              col "publication_order" "INTEGER NOT NULL",
              { name := "state", type := "TEXT NOT NULL", default := .text "pending" },
              { name := "attempts", type := "INTEGER NOT NULL", default := .int 0 },
              col "next_attempt_at" "TEXT NOT NULL", col "created_at" "TEXT NOT NULL",
              col "published_at" "TEXT" ] },
      .createIndex "idx_transport_projections_state"
        ⟨"transport_projections", ["state", "next_attempt_at"]⟩,
      .createIndex "idx_transport_projections_timer" ⟨"transport_projections", ["timer_id"]⟩,
      .createTable "target_cursors"
        { columns :=
            [ col "target_path" "TEXT PRIMARY KEY NOT NULL",
              col "max_publication_order" "INTEGER NOT NULL" ] } ]

def migrateV9 : List MigrationStep :=
  [ addMissing "migrate v9 add timers.transport" "timers" "transport" "TEXT NOT NULL"
      (.text "json"),
    addMissing "migrate v9 add selected_transport" "run_states" "selected_transport" "TEXT" .null,
    addMissing "migrate v9 add transport" "run_states" "transport" "TEXT" .null,
    addMissing "migrate v9 add transport_projections.kind" "transport_projections" "kind"
      "TEXT NOT NULL" (.text "file") ]

/-- What is to be done, from the version in the header. -/
def pending (current : Int) : List MigrationStep :=
  (if current < 1 then migrateV1 else []) ++
  (if current < 2 then migrateV2 else []) ++
  (if current < 3 then migrateV3 else []) ++
  (if current < 4 then migrateV4 else []) ++
  (if current < 5 then migrateV5 else []) ++
  (if current < 6 then migrateV6 else []) ++
  (if current < 7 then migrateV7 else []) ++
  (if current < 8 then migrateV8 else []) ++
  (if current < 9 then migrateV9 else [])

/-- The version, in the header and in `meta`. -/
def markers : List MigrationStep :=
  [ { context := "set user_version", action := .run (.setUserVersion SCHEMA_VERSION) },
    { context := "sync meta.schema_version"
      action := .run (.update "meta" [("schema_version", .value (.int SCHEMA_VERSION))] "id"
        (.int 1)) } ]

/-- What an open does, if the schema is older than the code. -/
def script (db : Database) : List MigrationStep :=
  if db.userVersion < SCHEMA_VERSION then pending db.userVersion ++ markers else []

def migrate (db : Database) : Except StoreError Unit × Database :=
  if db.userVersion > SCHEMA_VERSION then
    (.error (.sqlite (s!"database schema version {db.userVersion} is newer than " ++
      s!"supported {SCHEMA_VERSION}")), db)
  else runSteps MigrationStep.exec (script db) db

/-! ### Schemas -/

section Schemas

variable {db : Database} {sch sch' : Schema} {table column : String} {columns : List String}
  {f : Table → Table}

theorem schema_modify (g : TableDef → TableDef) (h : ∀ t, (f t).info = g t.info) :
    (db.modify table f).schema =
      { db.schema with
        tables := Function.update db.schema.tables table ((db.schema.tables table).map g) } := by
  simp only [Database.schema, Database.modify, Schema.mk.injEq, and_true]
  funext n
  by_cases hn : n = table
  · subst hn
    simp only [Function.update_self, Option.map_map]
    apply congrArg (Option.map · (db.tables n))
    funext t
    exact h t
  · simp only [Function.update_of_ne hn]

theorem schema_modify_rows (h : ∀ t, (f t).info = t.info) :
    (db.modify table f).schema = db.schema := by
  rw [schema_modify id h, Option.map_id]
  simp

/-- **The schema of what a statement leaves** depends on the schema only. -/
theorem schema_apply (stmt : Statement) (db : Database) :
    (stmt.apply db).schema = stmt.applySchema db.schema := by
  cases stmt with
  | createTable table info =>
    simp only [Statement.apply, Statement.applySchema]
    split
    · rfl
    · simp only [Database.schema, Schema.mk.injEq, and_true]
      funext n
      by_cases hn : n = table
      · subst hn
        simp only [Function.update_self]
        rfl
      · simp only [Function.update_of_ne hn]
  | createIndex index info =>
    simp only [Statement.apply, Statement.applySchema]
    split <;> rfl
  | addColumn table column => exact schema_modify (TableDef.add column) fun _ => rfl
  | insertOrIgnore table key values =>
    simp only [Statement.apply, Statement.applySchema]
    split
    · rfl
    · exact schema_modify_rows fun _ => rfl
  | update table sets column v => exact schema_modify_rows fun _ => rfl
  | setUserVersion n => rfl

/-- What a step does to the schema. -/
def MigrationStep.execSchema (step : MigrationStep) (sch : Schema) : Except StoreError Schema :=
  match step.action.statement sch with
  | none => .ok sch
  | some stmt =>
    match stmt.prepare sch with
    | .error e => .error (.sqlite (step.context ++ ": " ++ e.text))
    | .ok () => .ok (stmt.applySchema sch)

theorem schema_exec (step : MigrationStep) (db : Database) :
    (step.exec db).map Database.schema = step.execSchema db.schema := by
  unfold MigrationStep.exec MigrationStep.execSchema
  cases step.action.statement db.schema with
  | none => rfl
  | some stmt =>
    dsimp only
    cases stmt.prepare db.schema with
    | error e => rfl
    | ok u => exact congrArg Except.ok (schema_apply stmt db)

/-- **Whether a run succeeds**, and its schema, can be told from the schema. -/
theorem runSteps_schema (steps : List MigrationStep) (db : Database) :
    (runSteps MigrationStep.exec steps db).map id Database.schema =
      runSteps MigrationStep.execSchema steps db.schema :=
  runSteps_map Database.schema schema_exec steps db

/-- Everything that is there stays there. -/
structure Schema.Le (sch sch' : Schema) : Prop where
  tables : ∀ t, sch.hasTable t = true → sch'.hasTable t = true
  columns : ∀ t c, sch.hasColumn t c = true → sch'.hasColumn t c = true
  indexes : ∀ i, sch.hasIndex i = true → sch'.hasIndex i = true

theorem Schema.Le.refl (sch : Schema) : sch.Le sch := ⟨fun _ h => h, fun _ _ h => h, fun _ h => h⟩

theorem names_eq_ok : sch.names table columns = .ok () ↔
    sch.hasTable table = true ∧ ∀ c ∈ columns, sch.hasColumn table c = true := by
  unfold Schema.names
  by_cases ht : sch.hasTable table = true
  · rw [if_pos ht]
    cases hc : columns.find? fun c => !sch.hasColumn table c with
    | none =>
      rw [List.find?_eq_none] at hc
      exact iff_of_true rfl ⟨ht, fun c hmem => by simpa using hc c hmem⟩
    | some c =>
      refine iff_of_false nofun fun h => ?_
      have hnot := List.find?_some hc
      rw [h.2 c (List.mem_of_find?_eq_some hc)] at hnot
      exact absurd hnot (by decide)
  · rw [if_neg ht]
    exact iff_of_false nofun fun h => ht h.1

theorem Schema.Le.names (h : sch.Le sch') (hn : sch.names table columns = .ok ()) :
    sch'.names table columns = .ok () := by
  obtain ⟨ht, hc⟩ := names_eq_ok.mp hn
  exact names_eq_ok.mpr ⟨h.tables _ ht, fun c hmem => h.columns _ _ (hc c hmem)⟩

/-- A table that gets more columns. -/
theorem le_update {o : Option TableDef} (ht : sch.hasTable table = true → o.isSome = true)
    (hc : ∀ c, sch.hasColumn table c = true →
      (o.any fun d => d.columns.any (·.name == c)) = true) :
    sch.Le { sch with tables := Function.update sch.tables table o } := by
  refine ⟨fun t h => ?_, fun t c h => ?_, fun i h => h⟩
  · by_cases heq : t = table
    · subst heq
      simp only [Schema.hasTable, Function.update_self]
      exact ht h
    · simpa only [Schema.hasTable, Function.update_of_ne heq] using h
  · by_cases heq : t = table
    · subst heq
      simp only [Schema.hasColumn, Function.update_self]
      exact hc c h
    · simpa only [Schema.hasColumn, Function.update_of_ne heq] using h

/-- **No statement drops anything.** -/
theorem le_applySchema (stmt : Statement) (sch : Schema) : sch.Le (stmt.applySchema sch) := by
  cases stmt with
  | createTable table info =>
    simp only [Statement.applySchema]
    split
    · exact .refl sch
    · next hnew =>
      apply le_update
      · exact fun h => absurd h hnew
      · intro c h
        obtain ⟨d, hd, -⟩ := (Option.any_eq_true _ _).mp h
        exact absurd (Option.isSome_iff_exists.mpr ⟨d, hd⟩) hnew
  | createIndex index info =>
    simp only [Statement.applySchema]
    split
    · exact .refl sch
    · refine ⟨fun t h => h, fun t c h => h, fun i h => ?_⟩
      by_cases heq : i = index
      · simp only [Schema.hasIndex, heq, Function.update_self]
        rfl
      · simpa only [Schema.hasIndex, Function.update_of_ne heq] using h
  | addColumn table column =>
    apply le_update
    · intro h
      rwa [Option.isSome_map]
    · intro c h
      obtain ⟨d, hd, hcol⟩ := (Option.any_eq_true _ _).mp h
      rw [hd]
      show ((d.columns ++ [column]).any (·.name == c)) = true
      rw [List.any_append, hcol]
      rfl
  | insertOrIgnore table key values => exact .refl sch
  | update table sets column v => exact .refl sch
  | setUserVersion n => exact .refl sch

end Schemas

/-! ### Rows -/

section Rows

variable {db : Database} {table column : String} {v : SqlValue}

/-- No row of the table has this value. -/
def NoRow (table column : String) (v : SqlValue) (db : Database) : Prop :=
  ∀ row ∈ db.rows table, row column ≠ v

/-- Some row of the table has it. -/
def SomeRow (table column : String) (v : SqlValue) (db : Database) : Prop :=
  ∃ row ∈ db.rows table, row column = v

theorem rows_modify {f : Table → Table} (g : List Row → List Row)
    (hrows : ∀ t, (f t).rows = g t.rows) (ht : db.schema.hasTable table = true) (n : String) :
    (db.modify table f).rows n = if n = table then g (db.rows n) else db.rows n := by
  unfold Database.rows Database.modify
  by_cases hn : n = table
  · subst hn
    have hsome : (db.tables n).isSome = true := by
      simpa [Schema.hasTable, Database.schema] using ht
    obtain ⟨t, ht⟩ := Option.isSome_iff_exists.mp hsome
    simp only [Function.update_self, if_true, ht]
    exact hrows t
  · simp only [Function.update_of_ne hn, if_neg hn]

theorem prepare_addColumn {sch : Schema} {c : Column} :
    (Statement.addColumn table c).prepare sch = .ok () ↔
      sch.hasColumn table c.name ≠ true ∧ sch.hasTable table = true := by
  show (if sch.hasColumn table c.name then Except.error (SqlError.duplicateColumn c.name)
    else sch.names table []) = _ ↔ _
  split
  · next hdup => exact iff_of_false nofun fun h => h.1 hdup
  · next hnew =>
    rw [names_eq_ok]
    exact ⟨fun h => ⟨hnew, h.1⟩, fun h => ⟨h.2, nofun⟩⟩

/-- What a statement that was prepared leaves of the rows of a table. -/
def Statement.applyRows (table : String) (rows : List Row) : Statement → List Row
  | addColumn t c => if table = t then rows.map fun row => Function.update row c.name c.default
      else rows
  | insertOrIgnore t key values =>
    if table = t then
      if ∃ row ∈ rows, row key = valueOf values key then rows else rows ++ [valueOf values]
    else rows
  | update t sets c v =>
    if table = t then rows.map fun row => if row c = v then setRow sets rows row else row
    else rows
  | _ => rows

theorem rows_apply {stmt : Statement} (h : stmt.prepare db.schema = .ok ()) :
    (stmt.apply db).rows table = stmt.applyRows table (db.rows table) := by
  cases stmt with
  | createTable t info =>
    simp only [Statement.apply, Statement.applyRows]
    split
    · rfl
    · next hnew =>
      unfold Database.rows
      by_cases heq : table = t
      · subst heq
        have hnone : db.tables table = none := by
          simpa [Schema.hasTable, Database.schema] using hnew
        simp only [Function.update_self, hnone]
        rfl
      · simp only [Function.update_of_ne heq]
  | createIndex index info =>
    simp only [Statement.apply, Statement.applyRows]
    split <;> rfl
  | addColumn t c =>
    simp only [Statement.apply, Statement.applyRows]
    apply rows_modify fun rows => rows.map fun row => Function.update row c.name c.default
    · exact fun _ => rfl
    · exact (prepare_addColumn.mp h).2
  | insertOrIgnore t key values =>
    simp only [Statement.apply, Statement.applyRows]
    have ht := (names_eq_ok.mp h).1
    by_cases hkey : ∃ row ∈ db.rows t, row key = valueOf values key
    · rw [if_pos hkey]
      split
      · next heq => subst heq; rw [if_pos hkey]
      · rfl
    · rw [if_neg hkey]
      apply (rows_modify (fun rows => rows ++ [valueOf values]) ?_ ht table).trans
      · split
        · next heq => subst heq; rw [if_neg hkey]
        · rfl
      · exact fun _ => rfl
  | update t sets c v =>
    simp only [Statement.apply, Statement.applyRows]
    apply rows_modify fun rows =>
      rows.map fun row => if row c = v then setRow sets rows row else row
    · exact fun _ => rfl
    · exact (names_eq_ok.mp h).1
  | setUserVersion n => rfl

end Rows

/-! ### Steps that can be taken again -/

section Again

variable {db db' : Database} {table column : String} {v : SqlValue} {stmt : Statement}
  {step : MigrationStep} {steps : List MigrationStep}

/-- The value of the expression is another one. -/
def SqlExpr.never (v : SqlValue) : SqlExpr → Bool
  | value w => w ≠ v
  | count _ => match v with
    | .int _ => false
    | _ => true

theorem eval_ne {e : SqlExpr} (h : e.never v = true) (rows : List Row) (row : Row) :
    e.eval rows row ≠ v := by
  cases e with
  | value w => simpa [SqlExpr.never, SqlExpr.eval] using h
  | count rel =>
    cases v with
    | int n => cases h
    | null => exact nofun
    | text s => exact nofun

/-- The statement gives no row this value. -/
def Statement.keepsNo (table column : String) (v : SqlValue) : Statement → Bool
  | insertOrIgnore t _ values => t ≠ table || valueOf values column ≠ v
  | update t sets _ _ => t ≠ table || (sets.lookup column).all (·.never v)
  | _ => true

/-- The statement takes this column's value from no row. -/
def Statement.keepsSome (table column : String) : Statement → Bool
  | update t sets _ _ => t ≠ table || (sets.lookup column).isNone
  | _ => true

theorem setRow_ne {sets : List (String × SqlExpr)} {rows : List Row} {row : Row}
    (h : (sets.lookup column).all (·.never v) = true) (hrow : row column ≠ v) :
    setRow sets rows row column ≠ v := by
  unfold setRow
  cases hset : sets.lookup column with
  | none => exact hrow
  | some e =>
    rw [hset] at h
    exact eval_ne h rows row

theorem noRow_apply (h : NoRow table column v db)
    (hnew : ∀ c, stmt = .addColumn table c → c.name ≠ column)
    (hprep : stmt.prepare db.schema = .ok ()) (hkeep : stmt.keepsNo table column v = true) :
    NoRow table column v (stmt.apply db) := by
  intro row hrow
  rw [rows_apply hprep] at hrow
  cases stmt with
  | addColumn t c =>
    simp only [Statement.applyRows] at hrow
    split at hrow
    · next heq =>
      subst heq
      obtain ⟨old, hold, rfl⟩ := List.mem_map.mp hrow
      rw [Function.update_of_ne (Ne.symm (hnew c rfl))]
      exact h old hold
    · exact h row hrow
  | insertOrIgnore t key values =>
    simp only [Statement.applyRows] at hrow
    split at hrow
    · next heq =>
      subst heq
      split at hrow
      · exact h row hrow
      · rcases List.mem_append.mp hrow with hrow | hrow
        · exact h row hrow
        · rw [List.mem_singleton.mp hrow]
          simpa [Statement.keepsNo] using hkeep
    · exact h row hrow
  | update t sets c w =>
    simp only [Statement.applyRows] at hrow
    split at hrow
    · next heq =>
      subst heq
      obtain ⟨old, hold, rfl⟩ := List.mem_map.mp hrow
      have hsets : (sets.lookup column).all (·.never v) = true := by
        simpa [Statement.keepsNo] using hkeep
      split
      · exact setRow_ne hsets (h old hold)
      · exact h old hold
    · exact h row hrow
  | _ => exact h row hrow

theorem someRow_apply (h : SomeRow table column v db)
    (hnew : ∀ c, stmt = .addColumn table c → c.name ≠ column)
    (hprep : stmt.prepare db.schema = .ok ()) (hkeep : stmt.keepsSome table column = true) :
    SomeRow table column v (stmt.apply db) := by
  obtain ⟨row, hrow, hv⟩ := h
  unfold SomeRow
  rw [rows_apply hprep]
  cases stmt with
  | addColumn t c =>
    simp only [Statement.applyRows]
    split
    · next heq =>
      subst heq
      refine ⟨_, List.mem_map_of_mem hrow, ?_⟩
      rw [Function.update_of_ne (Ne.symm (hnew c rfl))]
      exact hv
    · exact ⟨row, hrow, hv⟩
  | insertOrIgnore t key values =>
    simp only [Statement.applyRows]
    split
    · split
      · exact ⟨row, hrow, hv⟩
      · exact ⟨row, List.mem_append_left _ hrow, hv⟩
    · exact ⟨row, hrow, hv⟩
  | update t sets c w =>
    simp only [Statement.applyRows]
    split
    · next heq =>
      subst heq
      have hnone : sets.lookup column = none := by simpa [Statement.keepsSome] using hkeep
      refine ⟨_, List.mem_map_of_mem hrow, ?_⟩
      split
      · unfold setRow
        rw [hnone]
        exact hv
      · exact hv
    · exact ⟨row, hrow, hv⟩
  | _ => exact ⟨row, hrow, hv⟩

/-- What a step has done once it is done. -/
def MigrationAction.Settled (db : Database) : MigrationAction → Prop
  | addMissing table c => db.schema.hasColumn table c.name = true
  | run (.createTable table _) => db.schema.hasTable table = true
  | run (.createIndex index info) =>
    db.schema.names info.table info.columns = .ok () ∧ db.schema.hasIndex index = true
  | run (.insertOrIgnore table key values) =>
    db.schema.names table (key :: values.map Prod.fst) = .ok () ∧
      SomeRow table key (valueOf values key) db
  | run (.update table sets column v) =>
    db.schema.names table (column :: sets.map Prod.fst) = .ok () ∧ NoRow table column v db
  | run (.addColumn ..) => False
  | run (.setUserVersion _) => False

/-- The statements of the steps meet a condition; to a column that is missing
nothing applies. -/
def each (check : Statement → Bool) (steps : List MigrationStep) : Bool :=
  steps.all fun step => match step.action with
    | .run stmt => check stmt
    | .addMissing .. => true

/-- What the statements of a script may be: an update moves its rows away, and
nothing moves rows there; a row that was inserted keeps its key. -/
def MigrationAction.fits (steps : List MigrationStep) : MigrationAction → Bool
  | addMissing .. | run (.createTable ..) | run (.createIndex ..) => true
  | run (.insertOrIgnore table key values) =>
    values.any (·.1 == key) && each (·.keepsSome table key) steps
  | run (.update table sets column v) =>
    (sets.lookup column).any (·.never v) && each (·.keepsNo table column v) steps
  | run (.addColumn ..) | run (.setUserVersion _) => false

/-- A step does nothing, or it applies a statement that was prepared. -/
theorem exec_cases (h : step.exec db = .ok db') :
    (step.action.statement db.schema = none ∧ db' = db) ∨
      ∃ stmt, step.action.statement db.schema = some stmt ∧ stmt.prepare db.schema = .ok () ∧
        db' = stmt.apply db := by
  unfold MigrationStep.exec at h
  cases hstmt : step.action.statement db.schema with
  | none =>
    rw [hstmt] at h
    exact .inl ⟨rfl, (Except.ok.inj h).symm⟩
  | some stmt =>
    rw [hstmt] at h
    dsimp only at h
    cases hprep : stmt.prepare db.schema with
    | error e =>
      rw [hprep] at h
      cases h
    | ok u =>
      rw [hprep] at h
      exact .inr ⟨stmt, rfl, hprep, (Except.ok.inj h).symm⟩

theorem exec_run (context : String) (h : stmt.prepare db.schema = .ok ()) :
    MigrationStep.exec ⟨context, .run stmt⟩ db = .ok (stmt.apply db) := by
  unfold MigrationStep.exec MigrationAction.statement
  dsimp only
  rw [h]

theorem le_exec (h : step.exec db = .ok db') : db.schema.Le db'.schema := by
  rcases exec_cases h with ⟨-, rfl⟩ | ⟨stmt, -, -, rfl⟩
  · exact .refl _
  · rw [schema_apply]
    exact le_applySchema stmt db.schema

theorem check_of_each {check : Statement → Bool} (h : each check steps = true)
    (hadd : ∀ t c, check (.addColumn t c) = true) (hmem : step ∈ steps) {sch : Schema}
    (hstmt : step.action.statement sch = some stmt) : check stmt = true := by
  have hstep := List.all_eq_true.mp h step hmem
  cases haction : step.action with
  | run s =>
    rw [haction] at hstep hstmt
    cases hstmt
    exact hstep
  | addMissing t c =>
    rw [haction] at hstmt
    simp only [MigrationAction.statement] at hstmt
    split at hstmt
    · cases hstmt
    · cases hstmt
      exact hadd t c

/-- A column that is there is not added. -/
theorem new_of_hasColumn (hcol : db.schema.hasColumn table column = true)
    (hprep : stmt.prepare db.schema = .ok ()) (c : Column) (h : stmt = .addColumn table c) :
    c.name ≠ column := by
  rintro rfl
  subst h
  exact (prepare_addColumn.mp hprep).1 hcol

theorem hasColumn_addColumn {c : Column} (ht : db.schema.hasTable table = true) :
    ((Statement.addColumn table c).apply db).schema.hasColumn table c.name = true := by
  obtain ⟨d, hd⟩ := Option.isSome_iff_exists.mp ht
  rw [schema_apply]
  simp only [Statement.applySchema, Schema.hasColumn, Function.update_self, hd, Option.map_some,
    Option.any_some]
  exact List.any_eq_true.mpr ⟨c, List.mem_append_right _ (List.mem_singleton_self c), by simp⟩

theorem settled_apply (hfits : (MigrationAction.run stmt).fits steps = true)
    (hprep : stmt.prepare db.schema = .ok ()) :
    (MigrationAction.run stmt).Settled (stmt.apply db) := by
  have hle : db.schema.Le (stmt.apply db).schema := by
    rw [schema_apply]
    exact le_applySchema stmt db.schema
  cases stmt with
  | createTable table info =>
    show (Statement.apply db (.createTable table info)).schema.hasTable table = true
    rw [schema_apply]
    simp only [Statement.applySchema]
    split
    · assumption
    · simp only [Schema.hasTable, Function.update_self]
      rfl
  | createIndex index info =>
    refine ⟨hle.names hprep, ?_⟩
    rw [schema_apply]
    simp only [Statement.applySchema]
    split
    · assumption
    · simp only [Schema.hasIndex, Function.update_self]
      rfl
  | insertOrIgnore table key values =>
    simp only [MigrationAction.fits, Bool.and_eq_true] at hfits
    obtain ⟨w, hw, hkey⟩ := List.any_eq_true.mp hfits.1
    obtain ⟨ht, hcols⟩ := names_eq_ok.mp hprep
    refine ⟨hle.names (names_eq_ok.mpr ⟨ht, ?_⟩), ?_⟩
    · intro c hc
      rcases List.mem_cons.mp hc with rfl | hc
      · exact hcols _ (List.mem_map.mpr ⟨w, hw, by simpa using hkey⟩)
      · exact hcols c hc
    · unfold SomeRow
      rw [rows_apply hprep]
      simp only [Statement.applyRows, if_true]
      split
      · assumption
      · exact ⟨_, List.mem_append_right _ (List.mem_singleton_self _), rfl⟩
  | update table sets column v =>
    refine ⟨hle.names hprep, fun row hrow => ?_⟩
    rw [rows_apply hprep] at hrow
    simp only [Statement.applyRows] at hrow
    obtain ⟨old, hold, rfl⟩ := List.mem_map.mp hrow
    simp only [MigrationAction.fits, Bool.and_eq_true] at hfits
    obtain ⟨e, he, hnever⟩ := (Option.any_eq_true _ _).mp hfits.1
    split
    · unfold setRow
      rw [he]
      exact eval_ne hnever _ old
    · assumption
  | addColumn table c => cases hfits
  | setUserVersion n => cases hfits

theorem modify_eq_self {f : Table → Table} (h : ∀ t, db.tables table = some t → f t = t) :
    db.modify table f = db := by
  have htable : (db.tables table).map f = db.tables table := by
    cases ht : db.tables table with
    | none => rfl
    | some t => exact congrArg some (h t ht)
  unfold Database.modify
  rw [htable, Function.update_eq_self]

theorem idle_of_settled (h : (MigrationAction.run stmt).Settled db) :
    stmt.prepare db.schema = .ok () ∧ stmt.apply db = db := by
  cases stmt with
  | createTable table info => exact ⟨rfl, if_pos h⟩
  | createIndex index info => exact ⟨h.1, if_pos h.2⟩
  | insertOrIgnore table key values =>
    obtain ⟨ht, hcols⟩ := names_eq_ok.mp h.1
    exact ⟨names_eq_ok.mpr ⟨ht, fun c hc => hcols c (List.mem_cons_of_mem _ hc)⟩, if_pos h.2⟩
  | update table sets column v =>
    refine ⟨h.1, modify_eq_self fun t ht => ?_⟩
    have hrows : db.rows table = t.rows := by
      unfold Database.rows
      rw [ht]
      rfl
    have hmap : (t.rows.map fun row => if row column = v then setRow sets t.rows row else row) =
        t.rows := by
      refine (List.map_congr_left fun row hrow => ?_).trans (List.map_id _)
      exact if_neg (h.2 row (hrows ▸ hrow))
    exact congrArg (Table.mk t.info) hmap
  | addColumn table c => exact h.elim
  | setUserVersion n => exact h.elim

theorem settled_kept {action : MigrationAction} {other : MigrationStep}
    (hfits : action.fits steps = true) (hother : other ∈ steps) (h : action.Settled db)
    (hexec : other.exec db = .ok db') : action.Settled db' := by
  have hle := le_exec hexec
  cases action with
  | addMissing table c => exact hle.columns _ _ h
  | run stmt =>
    cases stmt with
    | createTable table info => exact hle.tables _ h
    | createIndex index info => exact ⟨hle.names h.1, hle.indexes _ h.2⟩
    | insertOrIgnore table key values =>
      refine ⟨hle.names h.1, ?_⟩
      rcases exec_cases hexec with ⟨-, rfl⟩ | ⟨stmt, hstmt, hprep, rfl⟩
      · exact h.2
      · have hcol := (names_eq_ok.mp h.1).2 key List.mem_cons_self
        simp only [MigrationAction.fits, Bool.and_eq_true] at hfits
        exact someRow_apply h.2 (new_of_hasColumn hcol hprep) hprep
          (check_of_each hfits.2 (fun _ _ => rfl) hother hstmt)
    | update table sets column v =>
      refine ⟨hle.names h.1, ?_⟩
      rcases exec_cases hexec with ⟨-, rfl⟩ | ⟨stmt, hstmt, hprep, rfl⟩
      · exact h.2
      · have hcol := (names_eq_ok.mp h.1).2 column List.mem_cons_self
        simp only [MigrationAction.fits, Bool.and_eq_true] at hfits
        exact noRow_apply h.2 (new_of_hasColumn hcol hprep) hprep
          (check_of_each hfits.2 (fun _ _ => rfl) hother hstmt)
    | addColumn table c => exact h.elim
    | setUserVersion n => exact h.elim

/-- **A script whose statements fit can be taken again.** -/
theorem resumable_of_fits (h : ∀ step ∈ steps, step.action.fits steps = true) :
    Resumable MigrationStep.exec (fun step db => step.action.Settled db) steps where
  settles := by
    rintro ⟨context, action⟩ hmem db db' hexec
    cases action with
    | run stmt =>
      rcases exec_cases hexec with ⟨hnone, -⟩ | ⟨stmt, hstmt, hprep, rfl⟩
      · cases hnone
      · cases hstmt
        exact settled_apply (h _ hmem) hprep
    | addMissing table c =>
      show db'.schema.hasColumn table c.name = true
      by_cases hcol : db.schema.hasColumn table c.name = true
      · exact (le_exec hexec).columns _ _ hcol
      · have hadd : (MigrationAction.addMissing table c).statement db.schema =
            some (.addColumn table c) := if_neg hcol
        rcases exec_cases hexec with ⟨hnone, -⟩ | ⟨stmt, hstmt, hprep, rfl⟩
        · exact absurd (hadd.symm.trans hnone) nofun
        · obtain rfl := Option.some.inj (hadd.symm.trans hstmt)
          exact hasColumn_addColumn (prepare_addColumn.mp hprep).2
  idle := by
    rintro ⟨context, action⟩ hmem db hset
    cases action with
    | run stmt =>
      obtain ⟨hprep, hidle⟩ := idle_of_settled hset
      rw [exec_run context hprep, hidle]
    | addMissing table c =>
      have hnone : (MigrationAction.addMissing table c).statement db.schema = none := if_pos hset
      unfold MigrationStep.exec
      dsimp only
      rw [hnone]
  kept := by
    rintro ⟨context, action⟩ hmem other hother db db' hset hexec
    exact settled_kept (h _ hmem) hother hset hexec

end Again

/-! ### Versions -/

section Versions

variable {db db' start : Database} {v : Nat}

/-- All migrations, by version. -/
def migrations : List (List MigrationStep) :=
  [ migrateV1, migrateV2, migrateV3, migrateV4, migrateV5, migrateV6, migrateV7, migrateV8,
    migrateV9 ]

theorem pending_eq (hv : v ≤ 9) : pending v = (migrations.drop v).flatten := by
  match v, hv with
  | 0, _ | 1, _ | 2, _ | 3, _ | 4, _ | 5, _ | 6, _ | 7, _ | 8, _ | 9, _ => rfl

theorem pending_subset (hv : v ≤ 9) : pending v ⊆ pending 0 := by
  rw [pending_eq hv]
  show _ ⊆ pending (0 : Nat)
  rw [pending_eq (Nat.zero_le 9)]
  intro step hstep
  obtain ⟨m, hm, hmem⟩ := List.mem_flatten.mp hstep
  exact List.mem_flatten.mpr ⟨m, List.mem_of_mem_drop hm, hmem⟩

/-- The migrations can be taken again. -/
theorem resumable_pending (hv : v ≤ 9) :
    Resumable MigrationStep.exec (fun step db => step.action.Settled db) (pending v) := by
  have hfits : ((pending 0).all fun step => step.action.fits (pending 0)) = true := by
    decide +kernel
  exact (resumable_of_fits (List.all_eq_true.mp hfits)).subset (pending_subset hv)

/-- The schema of a version: what the migrations up to it make. -/
def schemaOf (v : Nat) : Schema :=
  (runSteps MigrationStep.execSchema ((migrations.take v).flatten) {}).2

theorem runSteps_schemaOf (hv : v ≤ 9) :
    runSteps MigrationStep.execSchema (pending v) (schemaOf v) = (.ok (), schemaOf 9) := by
  have hok : (runSteps MigrationStep.execSchema migrations.flatten {}).1.isOk = true := by
    decide +kernel
  have hall : runSteps MigrationStep.execSchema migrations.flatten {} = (.ok (), schemaOf 9) := by
    refine Prod.ext ?_ rfl
    cases hrun : (runSteps MigrationStep.execSchema migrations.flatten {}).1 with
    | ok u => rfl
    | error e =>
      rw [hrun] at hok
      cases hok
  rw [← List.take_append_drop v migrations, List.flatten_append] at hall
  obtain ⟨s', htake, hdrop⟩ := runSteps_append_eq_ok.mp hall
  rw [pending_eq hv, schemaOf, htake]
  exact hdrop

/-- **The migrations succeed** on every database of a version. -/
theorem runSteps_pending (hv : v ≤ 9) (h : db.schema = schemaOf v) :
    ∃ t, runSteps MigrationStep.exec (pending v) db = (.ok (), t) ∧ t.schema = schemaOf 9 := by
  have hmap := runSteps_schema (pending v) db
  rw [h, runSteps_schemaOf hv] at hmap
  obtain ⟨r, t, hrun⟩ : ∃ r t, runSteps MigrationStep.exec (pending v) db = (r, t) := ⟨_, _, rfl⟩
  rw [hrun] at hmap ⊢
  obtain ⟨hr, ht⟩ := Prod.mk.inj hmap
  obtain rfl : r = .ok () := hr
  exact ⟨t, rfl, ht⟩

/-- A store of a version, with any data. -/
structure AtVersion (v : Nat) (db : Database) : Prop where
  version : db.userVersion = v
  schema : db.schema = schemaOf v
  metaRow : 1 ≤ v → ∃ row, db.rows "meta" = [row] ∧ row "id" = .int 1 ∧
    row "schema_version" = .int v

/-- `meta.schema_version`. -/
def metaVersion (db : Database) : Option SqlValue :=
  ((db.rows "meta").find? fun row => row "id" = .int 1).map (· "schema_version")

/-- The version in `meta` is the one in the header. -/
def VersionsAgree (db : Database) : Prop := metaVersion db = some (.int db.userVersion)

/-- What an open leaves that is cut off after some of its steps. -/
def crash (k : Nat) (db : Database) : Database :=
  (runSteps MigrationStep.exec ((script db).take k) db).2

def crashes (ks : List Nat) (db : Database) : Database := ks.foldl (fun db k => crash k db) db

/-- The first open that gets through the migrations is cut off between the two
versions. -/
def Torn (v : Nat) (ks : List Nat) : Prop :=
  v < 9 ∧ ks.find? (fun k => (pending v).length < k) = some ((pending v).length + 1)

/-- Some of the migrations are done, and the version is the old one. -/
structure Between (v : Nat) (t db : Database) : Prop where
  version : db.userVersion = v
  rest : runSteps MigrationStep.exec (pending v) db = (.ok (), t)

/-- With the version in the header. -/
def torn (t : Database) : Database := { t with userVersion := SCHEMA_VERSION }

/-- With both. -/
def done (t : Database) : Database :=
  (Statement.update "meta" [("schema_version", .value (.int SCHEMA_VERSION))] "id" (.int 1)).apply
    (torn t)

theorem userVersion_exec {step : MigrationStep} (hmem : step ∈ pending v) (hv : v ≤ 9)
    (h : step.exec db = .ok db') : db'.userVersion = db.userVersion := by
  have heach : each (fun stmt => match stmt with | .setUserVersion _ => false | _ => true)
      (pending 0) = true := by
    decide +kernel
  rcases exec_cases h with ⟨-, rfl⟩ | ⟨stmt, hstmt, -, rfl⟩
  · rfl
  · have hcheck := check_of_each heach (fun _ _ => rfl) (pending_subset hv hmem) hstmt
    cases stmt with
    | setUserVersion n => cases hcheck
    | createTable table info =>
      simp only [Statement.apply]
      split <;> rfl
    | createIndex index info =>
      simp only [Statement.apply]
      split <;> rfl
    | insertOrIgnore table key values =>
      simp only [Statement.apply]
      split <;> rfl
    | addColumn table c => rfl
    | update table sets column v => rfl

theorem userVersion_runSteps (hv : v ≤ 9) {steps : List MigrationStep} (hsub : steps ⊆ pending v)
    (h : runSteps MigrationStep.exec steps db = (.ok (), db')) :
    db'.userVersion = db.userVersion := by
  apply runSteps_keeps (P := fun r => r.userVersion = db.userVersion) ?_ rfl h
  exact fun step hstep s s' hs hexec => (userVersion_exec (hsub hstep) hv hexec).trans hs

/-- No column is added to `meta`. -/
theorem not_addColumn_meta {step : MigrationStep} {stmt : Statement} (hmem : step ∈ pending v)
    (hv : v ≤ 9) {sch : Schema} (hstmt : step.action.statement sch = some stmt) (c : Column) :
    stmt ≠ .addColumn "meta" c := by
  have hall : ((pending 0).all fun step => match step.action with
      | .addMissing t _ => t ≠ "meta"
      | .run (.addColumn ..) => false
      | _ => true) = true := by
    decide +kernel
  have hstep := List.all_eq_true.mp hall step (pending_subset hv hmem)
  rintro rfl
  cases haction : step.action with
  | run s =>
    rw [haction] at hstep hstmt
    obtain rfl := Option.some.inj hstmt
    cases hstep
  | addMissing t c' =>
    rw [haction] at hstep hstmt
    simp only [MigrationAction.statement] at hstmt
    split at hstmt
    · cases hstmt
    · cases hstmt
      simp at hstep

theorem rows_meta_zero (h : db.schema = schemaOf 0) : db.rows "meta" = [] := by
  have htable : (db.tables "meta").map Table.info = none :=
    congrArg (fun sch => Schema.tables sch "meta") h
  unfold Database.rows
  rw [Option.map_eq_none_iff.mp htable]
  rfl

/-- The migrations leave the version of `meta` as it is, or put the first one
there. -/
theorem noRow_pending (hv : v < 9) (h : AtVersion v start) {t : Database}
    (hrun : runSteps MigrationStep.exec (pending v) start = (.ok (), t)) :
    NoRow "meta" "schema_version" (.int 9) t := by
  have heach : each (·.keepsNo "meta" "schema_version" (.int 9)) (pending 0) = true := by
    decide +kernel
  apply runSteps_keeps (P := NoRow "meta" "schema_version" (.int 9)) ?_ ?_ hrun
  · intro step hstep s s' hs hexec
    rcases exec_cases hexec with ⟨-, rfl⟩ | ⟨stmt, hstmt, hprep, rfl⟩
    · exact hs
    · exact noRow_apply hs (fun c hc => absurd hc (not_addColumn_meta hstep hv.le hstmt c)) hprep
        (check_of_each heach (fun _ _ => rfl) (pending_subset hv.le hstep) hstmt)
  · intro row hrow
    rcases Nat.eq_zero_or_pos v with rfl | hpos
    · rw [rows_meta_zero h.schema] at hrow
      cases hrow
    · obtain ⟨only, honly, -, hversion⟩ := h.metaRow hpos
      rw [honly, List.mem_singleton] at hrow
      rw [hrow, hversion]
      intro heq
      have hvn : (v : Int) = 9 := SqlValue.int.inj heq
      omega

/-- After the migrations `meta` has its row. -/
theorem someRow_pending (hv : v ≤ 9) (h : AtVersion v start) {t : Database}
    (hrun : runSteps MigrationStep.exec (pending v) start = (.ok (), t)) :
    SomeRow "meta" "id" (.int 1) t := by
  rcases Nat.eq_zero_or_pos v with rfl | hpos
  · -- It is inserted.
    have hmem : migrateV1[6] ∈ pending (0 : Nat) := List.mem_append_left _
      (by simp only [List.append_assoc]; exact List.mem_append_left _ (List.getElem_mem _))
    exact ((resumable_pending hv).settled_run hrun _ hmem).2
  · have heach : each (·.keepsSome "meta" "id") (pending 0) = true := by
      decide +kernel
    apply runSteps_keeps (P := SomeRow "meta" "id" (.int 1)) ?_ ?_ hrun
    · intro step hstep s s' hs hexec
      rcases exec_cases hexec with ⟨-, rfl⟩ | ⟨stmt, hstmt, hprep, rfl⟩
      · exact hs
      · exact someRow_apply hs (fun c hc => absurd hc (not_addColumn_meta hstep hv hstmt c)) hprep
          (check_of_each heach (fun _ _ => rfl) (pending_subset hv hstep) hstmt)
    · obtain ⟨row, hrow, hid, -⟩ := h.metaRow hpos
      exact ⟨row, hrow ▸ List.mem_singleton_self row, hid⟩

theorem find?_meta {t : Database} (h : SomeRow "meta" "id" (.int 1) t) :
    ∃ row, (t.rows "meta").find? (fun row => row "id" = .int 1) = some row ∧
      row ∈ t.rows "meta" ∧ row "id" = .int 1 := by
  obtain ⟨row, hrow, hid⟩ := h
  cases hfind : (t.rows "meta").find? fun row => row "id" = .int 1 with
  | none => exact absurd hid (by simpa using List.find?_eq_none.mp hfind row hrow)
  | some first =>
    exact ⟨first, rfl, List.mem_of_find?_eq_some hfind, by simpa using List.find?_some hfind⟩

/-- The statement that writes the version into `meta` can be prepared. -/
theorem prepare_meta {t : Database} (h : t.schema = schemaOf 9) :
    (Statement.update "meta" [("schema_version", .value (.int SCHEMA_VERSION))] "id"
      (.int 1)).prepare (torn t).schema = .ok () := by
  show (torn t).schema.names "meta" ["id", "schema_version"] = _
  have hschema : (torn t).schema = schemaOf 9 := h
  have hcheck : ((schemaOf 9).hasTable "meta" && (schemaOf 9).hasColumn "meta" "id" &&
      (schemaOf 9).hasColumn "meta" "schema_version") = true := by
    decide +kernel
  simp only [Bool.and_eq_true] at hcheck
  rw [hschema, names_eq_ok]
  refine ⟨hcheck.1.1, fun c hc => ?_⟩
  rcases List.mem_cons.mp hc with rfl | hc
  · exact hcheck.1.2
  · rw [List.mem_singleton.mp hc]
    exact hcheck.2

/-- **Between the two versions** `meta` has the old one. -/
theorem metaVersion_torn {t : Database} (hno : NoRow "meta" "schema_version" (.int 9) t) :
    ¬VersionsAgree (torn t) := by
  intro hagree
  obtain ⟨row, hrow, hversion⟩ := Option.map_eq_some_iff.mp hagree
  exact hno row (List.mem_of_find?_eq_some hrow) hversion

/-- **After both** it has the new one. -/
theorem metaVersion_done {t : Database} (hschema : t.schema = schemaOf 9)
    (hrow : SomeRow "meta" "id" (.int 1) t) : VersionsAgree (done t) := by
  obtain ⟨row, hfind, -, hid⟩ := find?_meta hrow
  unfold VersionsAgree metaVersion
  have hrows : (done t).rows "meta" = _ := rows_apply (prepare_meta hschema)
  simp only [Statement.applyRows, if_true] at hrows
  rw [hrows, List.find?_map]
  have hpred : (fun row : Row => decide (row "id" = .int 1)) ∘ (fun row : Row =>
      if row "id" = .int 1 then setRow [("schema_version", .value (.int SCHEMA_VERSION))]
        ((torn t).rows "meta") row else row) = fun row => decide (row "id" = .int 1) := by
    funext r
    show decide ((if r "id" = .int 1 then setRow _ _ r else r) "id" = _) = _
    split <;> rfl
  rw [hpred]
  have hfind' : ((torn t).rows "meta").find? (fun row => row "id" = .int 1) = some row := hfind
  rw [hfind']
  show some ((if row "id" = .int 1 then setRow _ _ row else row) "schema_version") = _
  rw [if_pos hid]
  rfl

/-! ### Opens -/

theorem script_current (h : db.userVersion = 9) : script db = [] :=
  if_neg (by rw [h]; decide)

theorem migrate_current (h : db.userVersion = 9) : migrate db = (.ok (), db) := by
  unfold migrate
  rw [script_current h, h, if_neg (by decide)]
  rfl

/-- A store with the new version in its header stays as it is. -/
theorem crashes_current (h : db.userVersion = 9) (ks : List Nat) : crashes ks db = db := by
  induction ks with
  | nil => rfl
  | cons k ks ih =>
    have hcrash : crash k db = db := by
      unfold crash
      rw [script_current h, List.take_nil]
      rfl
    unfold crashes at ih ⊢
    rw [List.foldl_cons, hcrash, ih]

/-- A store of a newer version is left alone. -/
theorem migrate_newer (h : SCHEMA_VERSION < db.userVersion) :
    (migrate db).1.isOk = false ∧ (migrate db).2 = db := by
  unfold migrate
  rw [if_pos h]
  exact ⟨rfl, rfl⟩

section Opens

variable {t : Database}

theorem script_between (hv : v < 9) (h : Between v t db) : script db = pending v ++ markers := by
  have hlt : db.userVersion < SCHEMA_VERSION := by
    rw [h.version]
    show (v : Int) < 9
    omega
  unfold script
  rw [if_pos hlt, h.version]

theorem runSteps_markers (hschema : t.schema = schemaOf 9) (k : Nat) :
    runSteps MigrationStep.exec (markers.take k) t =
      (.ok (), if k = 0 then t else if k = 1 then torn t else done t) := by
  have hfirst : ∀ context, MigrationStep.exec ⟨context, .run (.setUserVersion SCHEMA_VERSION)⟩ t =
      .ok (torn t) := fun _ => rfl
  have hsecond := exec_run "sync meta.schema_version" (prepare_meta hschema)
  match k with
  | 0 => rfl
  | 1 => rfl
  | k + 2 =>
    rw [if_neg (by omega), if_neg (by omega)]
    show runSteps MigrationStep.exec (_ :: _ :: List.take k []) t = _
    rw [List.take_nil, runSteps_cons (hfirst _), runSteps_cons hsecond]
    rfl

/-- **An open of a store between the versions** ends with both written. -/
theorem migrate_between (hv : v < 9) (h : Between v t db) (hschema : t.schema = schemaOf 9) :
    migrate db = (.ok (), done t) := by
  have hnot : ¬db.userVersion > SCHEMA_VERSION := by
    rw [h.version]
    show ¬(v : Int) > 9
    omega
  unfold migrate
  rw [if_neg hnot, script_between hv h, runSteps_append h.rest]
  exact runSteps_markers hschema 2

/-- **One that is cut off in the migrations** leaves it between them. -/
theorem crash_between (hv : v < 9) (h : Between v t db) {k : Nat}
    (hk : k ≤ (pending v).length) : Between v t (crash k db) := by
  have htake : (script db).take k = (pending v).take k := by
    rw [script_between hv h, List.take_append_of_le_length hk]
  obtain ⟨s', hs', -⟩ := runSteps_take h.rest k
  unfold crash
  rw [htake]
  refine ⟨?_, (resumable_pending hv.le).runSteps_again h.rest k⟩
  rw [hs']
  exact (userVersion_runSteps hv.le (List.take_subset k _) hs').trans h.version

/-- **One that gets further** leaves one version, or both. -/
theorem crash_markers (hv : v < 9) (h : Between v t db) (hschema : t.schema = schemaOf 9) {k : Nat}
    (hk : (pending v).length < k) :
    crash k db = if k = (pending v).length + 1 then torn t else done t := by
  have htake : (script db).take k = pending v ++ markers.take (k - (pending v).length) := by
    rw [script_between hv h, List.take_append, List.take_of_length_le hk.le]
  unfold crash
  rw [htake, runSteps_append h.rest, runSteps_markers hschema, if_neg (by omega)]
  by_cases hone : k = (pending v).length + 1
  · rw [if_pos hone, if_pos (by omega)]
  · rw [if_neg hone, if_neg (by omega)]

/-- What comes of any opens that were cut off, of a store between the
versions. -/
theorem reopen_between (hv : v < 9) (h : Between v t db) (hschema : t.schema = schemaOf 9)
    (hno : NoRow "meta" "schema_version" (.int 9) t) (hrow : SomeRow "meta" "id" (.int 1) t)
    (ks : List Nat) :
    (migrate (crashes ks db) = (.ok (), done t) ∧ VersionsAgree (done t)) ↔ ¬Torn v ks := by
  have hagree := metaVersion_done hschema hrow
  induction ks generalizing db with
  | nil => exact iff_of_true ⟨migrate_between hv h hschema, hagree⟩ fun hnot => nomatch hnot.2
  | cons k ks ih =>
    show (migrate (crashes ks (crash k db)) = _ ∧ _) ↔ ¬(v < 9 ∧ List.find? _ (k :: ks) = _)
    by_cases hk : (pending v).length < k
    · rw [crash_markers hv h hschema hk, List.find?_cons_of_pos (by simpa using hk)]
      by_cases hone : k = (pending v).length + 1
      · rw [if_pos hone, crashes_current rfl, migrate_current rfl]
        refine iff_of_false (fun hboth => ?_) fun hnot => hnot ⟨hv, congrArg some hone⟩
        have heq : torn t = done t := (Prod.mk.inj hboth.1).2
        exact metaVersion_torn hno (heq ▸ hagree)
      · rw [if_neg hone, crashes_current rfl, migrate_current rfl]
        exact iff_of_true ⟨rfl, hagree⟩ fun hnot => hone (Option.some.inj hnot.2)
    · rw [List.find?_cons_of_neg (by simpa using hk)]
      exact ih (crash_between hv h (Nat.le_of_not_lt hk))

/-! ### Main result -/

/-- **Migration is crash-safe except between the two versions**: a store of any
version, opened again after any opens that were cut off, ends as if none had
been, and with the same version in `meta` and in the header, exactly when the
first open that got through the migrations was not cut off between the two. -/
theorem migration_crash_safe_iff (v : Nat) (hv : v ≤ 9) (start : Database) (h : AtVersion v start)
    (ks : List Nat) :
    (∃ db, migrate (crashes ks start) = (.ok (), db) ∧ migrate start = (.ok (), db) ∧
      VersionsAgree db) ↔ ¬Torn v ks := by
  rcases Nat.lt_or_eq_of_le hv with hlt | rfl
  · obtain ⟨t, hrun, hschema⟩ := runSteps_pending hv h.schema
    have hbetween : Between v t start := ⟨h.version, hrun⟩
    have hwhole := migrate_between hlt hbetween hschema
    rw [← reopen_between hlt hbetween hschema (noRow_pending hlt h hrun)
      (someRow_pending hv h hrun)]
    constructor
    · rintro ⟨db, hdb, hstart, hagree⟩
      obtain rfl : db = done t := (Prod.mk.inj (hstart.symm.trans hwhole)).2
      exact ⟨hdb, hagree⟩
    · rintro ⟨hdb, hagree⟩
      exact ⟨done t, hdb, hwhole, hagree⟩
  · have hcurrent : start.userVersion = 9 := h.version
    refine iff_of_true ⟨start, ?_, migrate_current hcurrent, ?_⟩
      fun hnot => absurd hnot.1 (by decide)
    · rw [crashes_current hcurrent]
      exact migrate_current hcurrent
    · obtain ⟨row, hrows, hid, hversion⟩ := h.metaRow (by decide)
      unfold VersionsAgree metaVersion
      rw [hrows, hcurrent, List.find?_cons_of_pos (by simpa using hid)]
      exact congrArg some hversion

/-- A store of version 2 in which a timer has run twice. -/
def storeV2 : Database :=
  let made := (runSteps MigrationStep.exec (migrations.take 2).flatten {}).2
  let metaRow : Row := valueOf [("id", .int 1), ("schema_version", .int 2)]
  let run (id at_ : String) : Row := valueOf
    [ ("run_id", .text id), ("timer_id", .text "t"), ("scheduled_for", .text at_),
      ("status", .text "completed"), ("claimed_at", .text at_) ]
  { (made.modify "meta" fun t => { t with rows := [metaRow] }).modify "runs" fun t =>
      { t with rows := [run "b" "02", run "a" "01"] } with
    userVersion := 2 }

theorem storeV2_at : AtVersion 2 storeV2 where
  version := rfl
  schema := by
    have hschema : storeV2.schema =
        (runSteps MigrationStep.exec (migrations.take 2).flatten {}).2.schema := by
      refine (schema_modify_rows ?_).trans (schema_modify_rows ?_)
      · exact fun _ => rfl
      · exact fun _ => rfl
    exact hschema.trans (congrArg Prod.snd (runSteps_schema _ {}))
  metaRow := fun _ => ⟨_, rfl, rfl, rfl⟩

/-- Cut off in the backfill and after it, the store ends as it would have. -/
theorem migration_crash_safe_storeV2 :
    ∃ db, migrate (crashes [2, 9] storeV2) = (.ok (), db) ∧ migrate storeV2 = (.ok (), db) ∧
      VersionsAgree db := by
  refine (migration_crash_safe_iff 2 (by decide) storeV2 storeV2_at [2, 9]).mpr fun h => ?_
  exact absurd h.2 (by decide)

/-- **The versions disagree** after a crash between them, and every open that
follows succeeds. -/
theorem migration_torn :
    AtVersion 2 storeV2 ∧
      ¬∀ ks : List Nat, ∃ db, migrate (crashes ks storeV2) = (.ok (), db) ∧
        migrate storeV2 = (.ok (), db) ∧ VersionsAgree db := by
  refine ⟨storeV2_at, fun h => ?_⟩
  obtain ⟨db, hdb, -, hagree⟩ := h [(pending 2).length + 1]
  have hend : metaVersion (migrate (crashes [(pending 2).length + 1] storeV2)).2 =
      some (.int 2) := by
    decide +kernel
  have hheader : (migrate (crashes [(pending 2).length + 1] storeV2)).2.userVersion = 9 := by
    decide +kernel
  rw [hdb] at hend hheader
  unfold VersionsAgree at hagree
  rw [hend, hheader] at hagree
  exact absurd hagree (by decide)

end Opens

end Versions

end Migration

end Bellman

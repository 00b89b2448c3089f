/-
Bellman/Scan.lean

What a scan makes of the files in `free/`.

A scan takes the files that it lists one after the other.  In `free/` it
tells them apart by what it reads:

    a link, or nothing that is a request         bad/
    request_id or operation is missing           left
    a schema of another version                  bad/
    everything else                              work/

and then it processes what is in `work/`.  The file that is left is a free
stub to the two others that read it: `publish` writes a request over it, and
`replenish` counts it.

Main result: a file is answered or moved to `bad/`, and no stub to anyone,
exactly when the scan comes to its end and the file is not an envelope in
which `request_id` or `operation` is missing (`poll_settles_iff`).
-/
import Bellman.Answers
import Bellman.Replenish
import Mathlib.Data.List.DropRight
import Mathlib.Data.List.Find

namespace Bellman

open SlotLayout

/-! ### What a file is taken for -/

/-- `schema_supported`. -/
def SlotRequest.schemaSupported (r : SlotRequest) : Bool :=
  r.schema == SCHEMA_V1 || "bellman-slot/1".isPrefixOf r.schema ||
    ("bellman-slot/".isPrefixOf r.schema &&
      (((r.schema.splitOn "/")[1]?).bind fun v => (v.splitOn ".").head?) == some "1")

/-- Why a file in `free/` is not taken. -/
inductive ScanFault where
  | symlink
  | unreadable
  | unsupportedSchema (schema : String)
  deriving Repr, DecidableEq

/-- `try_claim_and_queue`, before it moves the file: whether to claim it. -/
def tryClaim : Node → Except ScanFault Bool
  | .symlink | .other => .error .symlink
  | .file none => .error .unreadable
  | .file (some r) =>
    if r.isFreeStub then .ok false
    else if !r.schemaSupported then .error (.unsupportedSchema r.schema)
    else .ok true

/-- An envelope in which the key or the operation of a request is missing. -/
def Node.Partial (node : Node) : Prop :=
  ∃ r, node = .file (some r) ∧ (r.requestId = none ∨ r.operation = none)

/-- `list_json_files`: files and links, in the order of their names. -/
def listJsonFiles (dir : Directory) : Directory :=
  (dir.filter fun e => isListed e.1 && !(e.2 matches .other)).mergeSort
    fun a b => decide (a.1 ≤ b.1)

/-- The file that `publish` writes over: the first stub whose lock it gets. -/
def publishTarget (locked : Text → Bool) (free : Directory) : Option (Text × Node) :=
  (listJsonFiles free).find? fun e => !locked e.1 && isStub e

/-- `publish`, of a request that is complete: `free/` after it. -/
def publish (locked : Text → Bool) (request : SlotRequest) (free : Directory) :
    Option Directory :=
  match publishTarget locked free with
  | some (name, .file (some stub)) =>
    some (free.filter (·.1 ≠ name) ++
      [(name, .file (some { request with slotId := stub.slotId }))])
  | _ => none

/-! ### Names -/

/-- `validate_slot_id_grammar`.  (What it forbids by name is not among the
characters that it allows.) -/
def slotIdGrammar (id : Text) : Bool :=
  id ≠ [] && id.all fun c => c.isAlphanum || c == '_' || c == '-'

/-- `reserved_slot_id_from_filename`. -/
def reservedSlotId (name : Text) : Option String :=
  match (Text.stripSuffix? DOT_JSON name).bind (Text.stripPrefix? SLOT_DASH) with
  | some id => if slotIdGrammar id then some (String.ofList id) else none
  | none => none

/-- How many names `unique_dest` tries. -/
@[irreducible] def BAD_NAMES : Nat := 10000

/-- The `i`-th name that a file may have in `bad/`. -/
def badName (name : Text) (i : Nat) : Text :=
  if i = 0 then name else name ++ '.' :: Nat.toDigits 10 i

/-- `unique_dest`. -/
def uniqueDest (bad : Directory) (name : Text) : Option Text :=
  ((List.range BAD_NAMES).map (badName name)).find? (· ∉ bad.map Prod.fst)

/-! ### The scan -/

/-- The directories and the database of a scan, and the responses that it
has written so far. -/
structure SlotScan where
  free : Directory
  work : Directory
  bad : Directory
  db : SlotStore
  answered : List (Text × SlotResponse) := []

/-- What the environment does to a scan: what it does to the process of each
file, and which of the replenishments in the turn of a file succeed. -/
structure ScanEnv where
  process : Text → WorkEnv
  replenish : Text → Nat → Bool
  hasTree : Bool
  maxEvents : Nat

namespace SlotScan

/-- The directory without the file of a name. -/
def without (dir : Directory) (name : Text) : Directory := dir.filter (·.1 ≠ name)

/-- `quarantine`, of a file in `free/`; where no name is left nothing is
moved. -/
def quarantineFree (s : SlotScan) (e : Text × Node) : SlotScan :=
  match uniqueDest s.bad e.1 with
  | some dest => { s with free := without s.free e.1, bad := s.bad ++ [(dest, e.2)] }
  | none => s

/-- `quarantine`, of a file in `work/`. -/
def quarantineWork (s : SlotScan) (e : Text × Node) : SlotScan :=
  match uniqueDest s.bad e.1 with
  | some dest => { s with work := without s.work e.1, bad := s.bad ++ [(dest, e.2)] }
  | none => s

/-- `claim_file`: the rename takes the place of a file of that name. -/
def claimFile (s : SlotScan) (e : Text × Node) : SlotScan :=
  { s with free := without s.free e.1, work := without s.work e.1 ++ [e] }

variable [Wire] [Calendar]

/-- The turn of a file in `free/`; `none` if it ends the scan.  (Where stubs
fail to be made after a claim, the scan looks for a file to quarantine, finds
none, and tries once more.) -/
def freeTurn (env : ScanEnv) (s : SlotScan) (e : Text × Node) : Option SlotScan :=
  match tryClaim e.2 with
  | .ok false => some s
  | .ok true =>
    if env.replenish e.1 0 || env.replenish e.1 1 then some (s.claimFile e) else none
  | .error _ => if env.replenish e.1 0 then some (s.quarantineFree e) else none

/-- The process of a file that is read as a request, if its name is that of
a slot. -/
def processFile (env : ScanEnv) (s : SlotScan) (name : Text) (req : SlotRequest) :
    Option WorkRun :=
  (reservedSlotId name).map fun reserved =>
    (env.process name).processWorkFile env.hasTree env.maxEvents reserved req s.db

/-- The turn of a file in `work/`; `none` if it ends the scan. -/
def workTurn (env : ScanEnv) (s : SlotScan) (e : Text × Node) : Option SlotScan :=
  let run := match e.2 with
    | .file (some req) => s.processFile env e.1 req
    | _ => none
  match run with
  | none => if env.replenish e.1 2 then some (s.quarantineWork e) else none
  | some run =>
    match run.place with
    | .work => none
    | .bad =>
      if env.replenish e.1 2 then some ({ s with db := run.db }.quarantineWork e) else none
    | .removed =>
      if run.result.isOk || env.replenish e.1 2 then
        some { s with
          work := without s.work e.1
          db := run.db
          answered := s.answered ++ (run.done.map (e.1, ·)).toList }
      else none

/-- `poll`, up to the sweep of `done/`: first the files in `free/`, then those
in `work/`. -/
def poll (env : ScanEnv) (s : SlotScan) : Option SlotScan := do
  let s ← (listJsonFiles s.free).foldlM (freeTurn env) { s with answered := [] }
  (listJsonFiles s.work).foldlM (workTurn env) s

/-- The names of `free/` are distinct, and those of `work/` are. -/
structure Distinct (s : SlotScan) : Prop where
  free : (s.free.map Prod.fst).Nodup
  work : (s.work.map Prod.fst).Nodup

/-- The scan has dealt with a file of `free/`: it is not there any more, and
there is a response or it is in `bad/` under a new name. -/
def Settled (s r : SlotScan) (e : Text × Node) : Prop :=
  e.1 ∉ r.free.map Prod.fst ∧
    ((∃ response, (e.1, response) ∈ r.answered) ∨
      ∃ dest, dest ∉ s.bad.map Prod.fst ∧ (dest, e.2) ∈ r.bad)

/-- What the scan has to do with a file of `free/`, and what nobody may take
it for. -/
structure Settles (env : ScanEnv) (s : SlotScan) (e : Text × Node) : Prop where
  settled : ∃ r, s.poll env = some r ∧ s.Settled r e
  notCounted : e ∉ listFreeStubs s.free
  notOverwritten : ∀ locked, publishTarget locked s.free ≠ some e

end SlotScan

/-! ### Processes -/

section Process

theorem WorkRun.done_of_removed {run : WorkRun} (hok : run.result.isOk = true → run.done.isSome)
    (h : run.place = .removed) : run.done.isSome = true := by
  unfold WorkRun.place at h
  split at h
  · next hresult => exact hok (by rw [hresult]; rfl)
  · cases h
  · split at h
    · assumption
    · cases h

variable [Wire] {env : WorkEnv} {hasTree : Bool} {req : SlotRequest} {db : SlotStore}

theorem SlotRequest.done_of_conclude {row : SlotRequestRecord} :
    (req.conclude env hasTree row db).result.isOk = true →
      (req.conclude env hasTree row db).done.isSome = true := by
  unfold SlotRequest.conclude
  dsimp only
  split
  · intro h
    cases h
  · split
    · intro h
      cases h
    · exact fun _ => rfl

variable [Calendar] {maxEvents : Nat} {reserved : String}

/-- A process that succeeds has written a response. -/
theorem WorkEnv.done_of_ok :
    (env.processWorkFile hasTree maxEvents reserved req db).result.isOk = true →
      (env.processWorkFile hasTree maxEvents reserved req db).done.isSome = true := by
  unfold WorkEnv.processWorkFile
  split
  · intro h
    cases h
  · split
    · intro h
      cases h
    · split
      · intro h
        cases h
      · split
        · intro h
          cases h
        · exact SlotRequest.done_of_conclude

end Process

/-! ### Names in `bad/` -/

section Names

variable {m n : Text} {i j : Nat}

/-- A listed name ends in a letter. -/
theorem getLast?_of_isListed (h : isListed n = true) : n.getLast? = some 'n' := by
  unfold isListed at h
  simp only [Bool.and_eq_true] at h
  obtain ⟨t, rfl⟩ := List.isSuffixOf_iff_suffix.mp h.1.2
  rw [List.getLast?_append]
  rfl

theorem rdropWhile_of_isListed (h : isListed n = true) : n.rdropWhile Char.isDigit = n := by
  rw [List.rdropWhile_eq_self_iff]
  intro hne hdigit
  have hlast := getLast?_of_isListed h
  rw [List.getLast?_eq_some_getLast hne] at hlast
  rw [Option.some.inj hlast] at hdigit
  cases hdigit

/-- What is before the digits of a name in `bad/`. -/
theorem rdropWhile_badName (h : isListed n = true) (i : Nat) :
    (badName n i).rdropWhile Char.isDigit = if i = 0 then n else n ++ ['.'] := by
  unfold badName
  split
  · exact rdropWhile_of_isListed h
  · have hdigits : ∀ c ∈ (Nat.toDigits 10 i).reverse, c.isDigit = true := fun c hc =>
      Nat.isDigit_of_mem_toDigits (by decide) (by decide) (List.mem_reverse.mp hc)
    rw [List.rdropWhile, List.reverse_append, List.reverse_cons, List.append_assoc,
      List.dropWhile_append_of_pos hdigits]
    change (List.dropWhile Char.isDigit ('.' :: n.reverse)).reverse = _
    rw [List.dropWhile_cons_of_neg (by decide), List.reverse_cons, List.reverse_reverse]

/-- Two files do not compete for a name. -/
theorem badName_ne (hm : isListed m = true) (hn : isListed n = true) (h : m ≠ n) :
    badName m i ≠ badName n j := by
  intro heq
  have hstem := congrArg (List.rdropWhile Char.isDigit) heq
  rw [rdropWhile_badName hm, rdropWhile_badName hn] at hstem
  have hdot : ∀ {a b : Text}, isListed a = true → a ≠ b ++ ['.'] := by
    rintro a b ha rfl
    have hlast := getLast?_of_isListed ha
    rw [List.getLast?_concat] at hlast
    cases hlast
  split at hstem <;> split at hstem
  · exact h hstem
  · exact hdot hm hstem
  · exact hdot hn hstem.symm
  · exact h (List.append_cancel_right hstem)

theorem uniqueDest_spec {bad : Directory} {dest : Text} (h : uniqueDest bad n = some dest) :
    dest ∉ bad.map Prod.fst ∧ ∃ i, dest = badName n i := by
  unfold uniqueDest at h
  have hmem := List.mem_of_find?_eq_some h
  rw [List.mem_map] at hmem
  obtain ⟨i, -, hi⟩ := hmem
  have hnew := List.find?_some h
  exact ⟨of_decide_eq_true hnew, i, hi.symm⟩

theorem uniqueDest_of_new {bad : Directory} (h : n ∉ bad.map Prod.fst) :
    uniqueDest bad n ≠ none := by
  intro hnone
  unfold uniqueDest at hnone
  rw [List.find?_eq_none] at hnone
  refine hnone n (List.mem_map.mpr ⟨0, List.mem_range.mpr ?_, rfl⟩) (decide_eq_true h)
  unfold BAD_NAMES
  decide

/-- What another file is called in `bad/` does not matter. -/
theorem uniqueDest_append {bad : Directory} {dest : Text} {node : Node}
    (h : ∀ i, dest ≠ badName n i) : uniqueDest (bad ++ [(dest, node)]) n = uniqueDest bad n := by
  unfold uniqueDest
  apply List.find?_congr
  intro name hname
  rw [List.mem_map] at hname
  obtain ⟨i, -, rfl⟩ := hname
  have hne : badName n i ≠ dest := (h i).symm
  simp [hne]

end Names

namespace SlotScan

/-! ### Turns of other files -/

/-- The files of a name, and the names that are left for them, are the same;
what is in `bad/` and what is answered stays. -/
structure Apart (n : Text) (s s' : SlotScan) : Prop where
  free : ∀ node, (n, node) ∈ s'.free ↔ (n, node) ∈ s.free
  work : ∀ node, (n, node) ∈ s'.work ↔ (n, node) ∈ s.work
  room : uniqueDest s'.bad n = uniqueDest s.bad n

/-- Nothing is taken out of `bad/`, and no response is taken back. -/
structure Grows (s s' : SlotScan) : Prop where
  bad : ∀ e ∈ s.bad, e ∈ s'.bad
  answered : ∀ a ∈ s.answered, a ∈ s'.answered

section Turns

variable {m n : Text} {s s' s'' : SlotScan} {e : Text × Node} {dir : Directory}

theorem Apart.refl (n : Text) (s : SlotScan) : Apart n s s where
  free _ := Iff.rfl
  work _ := Iff.rfl
  room := rfl

theorem Apart.trans (h : Apart n s s') (h' : Apart n s' s'') : Apart n s s'' where
  free node := (h'.free node).trans (h.free node)
  work node := (h'.work node).trans (h.work node)
  room := h'.room.trans h.room

theorem Grows.refl (s : SlotScan) : Grows s s where
  bad _ h := h
  answered _ h := h

theorem Grows.trans (h : Grows s s') (h' : Grows s' s'') : Grows s s'' where
  bad e he := h'.bad e (h.bad e he)
  answered a ha := h'.answered a (h.answered a ha)

theorem mem_without {x : Text × Node} : x ∈ without dir n ↔ x ∈ dir ∧ x.1 ≠ n := by
  unfold without
  rw [List.mem_filter, decide_eq_true_eq]

theorem without_names : n ∉ (without dir n).map Prod.fst := by
  intro h
  obtain ⟨x, hx, rfl⟩ := List.mem_map.mp h
  exact (mem_without.mp hx).2 rfl

theorem nodup_without (h : (dir.map Prod.fst).Nodup) : ((without dir n).map Prod.fst).Nodup :=
  h.sublist (List.filter_sublist.map _)

theorem apart_quarantineFree (he : isListed e.1 = true) (hn : isListed n = true) (h : e.1 ≠ n) :
    Apart n s (s.quarantineFree e) := by
  unfold quarantineFree
  cases hdest : uniqueDest s.bad e.1 with
  | none => exact .refl n s
  | some dest =>
    obtain ⟨-, i, rfl⟩ := uniqueDest_spec hdest
    refine ⟨fun node => ?_, fun node => Iff.rfl, uniqueDest_append fun j => badName_ne he hn h⟩
    rw [mem_without]
    exact and_iff_left h.symm

theorem apart_quarantineWork (he : isListed e.1 = true) (hn : isListed n = true) (h : e.1 ≠ n) :
    Apart n s (s.quarantineWork e) := by
  unfold quarantineWork
  cases hdest : uniqueDest s.bad e.1 with
  | none => exact .refl n s
  | some dest =>
    obtain ⟨-, i, rfl⟩ := uniqueDest_spec hdest
    refine ⟨fun node => Iff.rfl, fun node => ?_, uniqueDest_append fun j => badName_ne he hn h⟩
    rw [mem_without]
    exact and_iff_left h.symm

theorem apart_claimFile (h : e.1 ≠ n) : Apart n s (s.claimFile e) := by
  refine ⟨fun node => ?_, fun node => ?_, rfl⟩
  · change (n, node) ∈ without s.free e.1 ↔ _
    rw [mem_without]
    exact and_iff_left h.symm
  · change (n, node) ∈ without s.work e.1 ++ [e] ↔ _
    have hne : (n, node) ≠ e := fun heq => h (heq ▸ rfl)
    rw [List.mem_append, mem_without, List.mem_singleton, or_iff_left hne]
    exact and_iff_left h.symm

theorem grows_quarantineFree : Grows s (s.quarantineFree e) := by
  unfold quarantineFree
  split
  · exact ⟨fun x hx => List.mem_append_left _ hx, fun a ha => ha⟩
  · exact .refl s

theorem grows_quarantineWork : Grows s (s.quarantineWork e) := by
  unfold quarantineWork
  split
  · exact ⟨fun x hx => List.mem_append_left _ hx, fun a ha => ha⟩
  · exact .refl s

theorem quarantineWork_free : (s.quarantineWork e).free = s.free := by
  unfold quarantineWork
  split <;> rfl

variable {env : ScanEnv}

/-- What a turn in `free/` does. -/
theorem freeTurn_cases (h : freeTurn env s e = some s') :
    (tryClaim e.2 = .ok false ∧ s' = s) ∨ (tryClaim e.2 = .ok true ∧ s' = s.claimFile e) ∨
      ∃ fault, tryClaim e.2 = .error fault ∧ s' = s.quarantineFree e := by
  unfold freeTurn at h
  split at h
  · next hclaim => exact .inl ⟨hclaim, (Option.some.inj h).symm⟩
  · next hclaim =>
    split at h
    · exact .inr (.inl ⟨hclaim, (Option.some.inj h).symm⟩)
    · cases h
  · next fault hclaim =>
    split at h
    · exact .inr (.inr ⟨fault, hclaim, (Option.some.inj h).symm⟩)
    · cases h

theorem freeTurn_apart (h : freeTurn env s e = some s') (he : isListed e.1 = true)
    (hn : isListed n = true) (hne : e.1 ≠ n) : Apart n s s' := by
  rcases freeTurn_cases h with ⟨-, rfl⟩ | ⟨-, rfl⟩ | ⟨fault, -, rfl⟩
  · exact .refl n s'
  · exact apart_claimFile hne
  · exact apart_quarantineFree he hn hne

theorem freeTurn_grows (h : freeTurn env s e = some s') : Grows s s' := by
  rcases freeTurn_cases h with ⟨-, rfl⟩ | ⟨-, rfl⟩ | ⟨fault, -, rfl⟩
  · exact .refl s'
  · exact ⟨fun x hx => hx, fun a ha => ha⟩
  · exact grows_quarantineFree

theorem freeTurn_distinct (h : freeTurn env s e = some s') (hs : s.Distinct) : s'.Distinct := by
  rcases freeTurn_cases h with ⟨-, rfl⟩ | ⟨-, rfl⟩ | ⟨fault, -, rfl⟩
  · exact hs
  · refine ⟨nodup_without hs.free, ?_⟩
    change ((without s.work e.1 ++ [e]).map Prod.fst).Nodup
    rw [List.map_append, List.nodup_append]
    refine ⟨nodup_without hs.work, List.nodup_singleton _, fun x hx y hy hxy => ?_⟩
    rw [List.mem_singleton.mp hy] at hxy
    exact without_names (hxy ▸ hx)
  · unfold quarantineFree
    split
    · exact ⟨nodup_without hs.free, hs.work⟩
    · exact hs

variable [Wire] [Calendar]

/-- A file that is removed is answered. -/
theorem answered_of_removed {node : Node} {name : Text} {run : WorkRun}
    (hrun : (match node with
      | .file (some req) => s.processFile env name req
      | _ => none) = some run)
    (hplace : run.place = .removed) : ∃ response, run.done = some response := by
  split at hrun
  · next req =>
    obtain ⟨reserved, -, rfl⟩ := Option.map_eq_some_iff.mp hrun
    exact Option.isSome_iff_exists.mp (WorkRun.done_of_removed WorkEnv.done_of_ok hplace)
  · cases hrun

/-- What a turn in `work/` does: the file is moved to `bad/`, or it is gone
and answered. -/
theorem workTurn_cases (h : workTurn env s e = some s') :
    (∃ db, s' = { s with db }.quarantineWork e) ∨
      ∃ db response, s' = { s with
        work := without s.work e.1, db, answered := s.answered ++ [(e.1, response)] } := by
  unfold workTurn at h
  dsimp only at h
  split at h
  · split at h
    · exact .inl ⟨s.db, (Option.some.inj h).symm⟩
    · cases h
  · next run hrun =>
    split at h
    · cases h
    · split at h
      · exact .inl ⟨run.db, (Option.some.inj h).symm⟩
      · cases h
    · next hplace =>
      split at h
      · obtain ⟨response, hdone⟩ := answered_of_removed hrun hplace
        rw [hdone] at h
        exact .inr ⟨run.db, response, (Option.some.inj h).symm⟩
      · cases h

theorem workTurn_apart (h : workTurn env s e = some s') (he : isListed e.1 = true)
    (hn : isListed n = true) (hne : e.1 ≠ n) : Apart n s s' := by
  rcases workTurn_cases h with ⟨db, rfl⟩ | ⟨db, response, rfl⟩
  · have hapart := apart_quarantineWork (s := { s with db }) he hn hne
    exact ⟨hapart.free, hapart.work, hapart.room⟩
  · refine ⟨fun node => Iff.rfl, fun node => ?_, rfl⟩
    rw [mem_without]
    exact and_iff_left hne.symm

theorem workTurn_grows (h : workTurn env s e = some s') : Grows s s' := by
  rcases workTurn_cases h with ⟨db, rfl⟩ | ⟨db, response, rfl⟩
  · have hgrows := grows_quarantineWork (s := { s with db }) (e := e)
    exact ⟨hgrows.bad, hgrows.answered⟩
  · exact ⟨fun x hx => hx, fun a ha => List.mem_append_left _ ha⟩

theorem workTurn_free (h : workTurn env s e = some s') : s'.free = s.free := by
  rcases workTurn_cases h with ⟨db, rfl⟩ | ⟨db, response, rfl⟩
  · exact quarantineWork_free
  · rfl

end Turns

/-! ### The turn of a file among the others -/

section Loops

variable {step : SlotScan → Text × Node → Option SlotScan} {s r : SlotScan} {n : Text}
  {files : Directory}

/-- What every turn keeps, a loop keeps. -/
theorem loop_induction {R : SlotScan → SlotScan → Prop} (hrefl : ∀ s, R s s)
    (htrans : ∀ s s' s'', R s s' → R s' s'' → R s s'')
    (hstep : ∀ e ∈ files, ∀ s s', step s e = some s' → R s s')
    (h : files.foldlM step s = some r) : R s r := by
  induction files generalizing s with
  | nil =>
    cases h
    exact hrefl r
  | cons e files ih =>
    rw [List.foldlM_cons] at h
    obtain ⟨s', hs', hrest⟩ := Option.bind_eq_some_iff.mp h
    have hhead := hstep e (List.mem_cons_self ..) s s' hs'
    exact htrans _ _ _ hhead (ih (fun x hx => hstep x (List.mem_cons_of_mem _ hx)) hrest)

/-- A loop over files with distinct names, seen from one of them: turns of
others, its own, and turns of others. -/
theorem loop_at {e : Text × Node} (hlisted : ∀ x ∈ files, isListed x.1 = true)
    (hnodup : (files.map Prod.fst).Nodup) (he : e ∈ files)
    (hapart : ∀ x s s', step s x = some s' → isListed x.1 = true → x.1 ≠ e.1 → Apart e.1 s s')
    (hgrows : ∀ x s s', step s x = some s' → Grows s s')
    (h : files.foldlM step s = some r) :
    ∃ s₁ s₂, Apart e.1 s s₁ ∧ Grows s s₁ ∧ step s₁ e = some s₂ ∧ Apart e.1 s₂ r ∧
      Grows s₂ r := by
  obtain ⟨pre, post, rfl⟩ := List.append_of_mem he
  rw [List.map_append, List.map_cons, List.nodup_append, List.nodup_cons] at hnodup
  obtain ⟨-, ⟨hpost, -⟩, hpre⟩ := hnodup
  rw [List.foldlM_append] at h
  obtain ⟨s₁, hs₁, hrest⟩ := Option.bind_eq_some_iff.mp h
  rw [List.foldlM_cons] at hrest
  obtain ⟨s₂, hs₂, hrest⟩ := Option.bind_eq_some_iff.mp hrest
  have happ : ∀ {fs : Directory}, (∀ x ∈ fs, x ∈ pre ++ e :: post) → (∀ x ∈ fs, x.1 ≠ e.1) →
      ∀ {t t'}, fs.foldlM step t = some t' → Apart e.1 t t' := by
    intro fs hmem hne t t' ht
    exact loop_induction (.refl e.1) (fun _ _ _ => .trans)
      (fun x hx u u' hu => hapart x u u' hu (hlisted x (hmem x hx)) (hne x hx)) ht
  have hgrow : ∀ {fs : Directory} {t t'}, fs.foldlM step t = some t' → Grows t t' := by
    intro fs t t' ht
    exact loop_induction .refl (fun _ _ _ => .trans) (fun x _ u u' hu => hgrows x u u' hu) ht
  refine ⟨s₁, s₂, happ (fun x hx => List.mem_append_left _ hx) ?_ hs₁, hgrow hs₁, hs₂,
    happ (fun x hx => List.mem_append_right _ (List.mem_cons_of_mem _ hx)) ?_ hrest, hgrow hrest⟩
  · intro x hx heq
    exact hpre x.1 (List.mem_map_of_mem hx) e.1 (List.mem_cons_self ..) heq
  · intro x hx heq
    exact hpost (heq ▸ List.mem_map_of_mem hx)

/-- A loop comes to its end if every turn does. -/
theorem loop_ends (hstep : ∀ s e, ∃ s', step s e = some s') (files : Directory) (s : SlotScan) :
    ∃ r, files.foldlM step s = some r := by
  induction files generalizing s with
  | nil => exact ⟨s, rfl⟩
  | cons e files ih =>
    obtain ⟨s', hs'⟩ := hstep s e
    obtain ⟨r, hr⟩ := ih s'
    refine ⟨r, ?_⟩
    rw [List.foldlM_cons, hs']
    exact hr

theorem mem_listJsonFiles {dir : Directory} {e : Text × Node} :
    e ∈ listJsonFiles dir ↔ e ∈ dir ∧ isListed e.1 = true ∧ e.2 ≠ .other := by
  unfold listJsonFiles
  rw [List.mem_mergeSort, List.mem_filter, Bool.and_eq_true]
  have hother : (!(e.2 matches .other)) = true ↔ e.2 ≠ .other := by
    cases e.2 <;> simp
  rw [hother]

theorem nodup_listJsonFiles {dir : Directory} (h : (dir.map Prod.fst).Nodup) :
    ((listJsonFiles dir).map Prod.fst).Nodup := by
  have hperm := (List.mergeSort_perm
    (dir.filter fun e => isListed e.1 && !(e.2 matches .other)) fun a b => decide (a.1 ≤ b.1)).map
      Prod.fst
  exact hperm.nodup_iff.mpr (h.sublist (List.filter_sublist.map _))

end Loops

/-! ### Main result -/

section Poll

variable {env : ScanEnv} {s s' r : SlotScan} {e : Text × Node}

/-- A stub, as `publish` and `replenish` see it, is an envelope in which
something is missing. -/
theorem isStub_iff (hlisted : isListed e.1 = true) : isStub e = true ↔ e.2.Partial := by
  obtain ⟨name, node⟩ := e
  have hpartial : ∀ req : SlotRequest, req.isFreeStub = true ↔
      req.requestId = none ∨ req.operation = none := by
    intro req
    unfold SlotRequest.isFreeStub
    rw [Bool.or_eq_true, Option.isNone_iff_eq_none, Option.isNone_iff_eq_none]
  cases node with
  | file content =>
    cases content with
    | none =>
      refine iff_of_false (by simp [isStub]) ?_
      rintro ⟨req, hreq, -⟩
      cases hreq
    | some req =>
      unfold isStub
      dsimp only at hlisted ⊢
      rw [hlisted, Bool.true_and, hpartial]
      refine ⟨fun h => ⟨req, rfl, h⟩, ?_⟩
      rintro ⟨req', hreq, h⟩
      cases hreq
      exact h
  | _ =>
    refine iff_of_false (by simp [isStub]) ?_
    rintro ⟨req, hreq, -⟩
    cases hreq

theorem tryClaim_stub_iff (hlisted : isListed e.1 = true) :
    tryClaim e.2 = .ok false ↔ e.2.Partial := by
  rw [← isStub_iff hlisted]
  obtain ⟨name, node⟩ := e
  unfold tryClaim isStub
  cases node with
  | file content =>
    cases content with
    | none => simp
    | some req =>
      dsimp only at hlisted ⊢
      rw [hlisted, Bool.true_and]
      split
      · next hstub => simp [hstub]
      · next hstub =>
        refine iff_of_false ?_ hstub
        split <;> simp
  | _ => simp

variable [Wire] [Calendar]

/-- A file of `work/` that is under its name alone comes to an end. -/
theorem settled_of_workLoop (hlisted : e ∈ listJsonFiles s.work)
    (hs : (s.work.map Prod.fst).Nodup) (hroom : uniqueDest s.bad e.1 ≠ none)
    (h : (listJsonFiles s.work).foldlM (workTurn env) s = some r) :
    (∃ response, (e.1, response) ∈ r.answered) ∨
      ∃ dest, dest ∉ s.bad.map Prod.fst ∧ (dest, e.2) ∈ r.bad := by
  obtain ⟨s₁, s₂, hapart, hbefore, hturn, -, hafter⟩ :=
    loop_at (fun x hx => (mem_listJsonFiles.mp hx).2.1) (nodup_listJsonFiles hs) hlisted
      (fun x u u' hu hx hne => workTurn_apart hu hx (mem_listJsonFiles.mp hlisted).2.1 hne)
      (fun x u u' hu => workTurn_grows hu) h
  rcases workTurn_cases hturn with ⟨db, rfl⟩ | ⟨db, response, rfl⟩
  · obtain ⟨dest, hdest⟩ := Option.ne_none_iff_exists'.mp (hapart.room.symm ▸ hroom)
    refine .inr ⟨dest, fun hmem => ?_, hafter.bad (dest, e.2) ?_⟩
    · obtain ⟨x, hx, rfl⟩ := List.mem_map.mp hmem
      exact (uniqueDest_spec hdest).1 (List.mem_map_of_mem (hbefore.bad x hx))
    · unfold quarantineWork
      rw [hdest]
      exact List.mem_append_right _ (List.mem_singleton.mpr rfl)
  · exact .inl ⟨response, hafter.answered _
      (List.mem_append_right _ (List.mem_singleton.mpr rfl))⟩

omit [Wire] [Calendar] in
theorem freeTurn_ends (hreplenish : ∀ name k, env.replenish name k = true) (s : SlotScan)
    (e : Text × Node) : ∃ s', freeTurn env s e = some s' := by
  unfold freeTurn
  split
  · exact ⟨s, rfl⟩
  · rw [if_pos (by simp [hreplenish])]
    exact ⟨_, rfl⟩
  · rw [if_pos (hreplenish _ _)]
    exact ⟨_, rfl⟩

theorem workTurn_ends (hreplenish : ∀ name k, env.replenish name k = true)
    (hcalm : ∀ s name req run, processFile env s name req = some run → run.place ≠ .work)
    (s : SlotScan) (e : Text × Node) : ∃ s', workTurn env s e = some s' := by
  unfold workTurn
  dsimp only
  split
  · rw [if_pos (hreplenish _ _)]
    exact ⟨_, rfl⟩
  · next run hrun =>
    split
    · next hplace =>
      split at hrun
      · exact absurd hplace (hcalm s _ _ run hrun)
      · cases hrun
    · rw [if_pos (hreplenish _ _)]
      exact ⟨_, rfl⟩
    · rw [if_pos (by simp [hreplenish])]
      exact ⟨_, rfl⟩

/-- A scan comes to its end where no replenishment fails and no process
panics. -/
theorem poll_ends (hreplenish : ∀ name k, env.replenish name k = true)
    (hcalm : ∀ s name req run, processFile env s name req = some run → run.place ≠ .work)
    (s : SlotScan) : ∃ r, s.poll env = some r := by
  obtain ⟨s', hfree⟩ :=
    loop_ends (freeTurn_ends hreplenish) (listJsonFiles s.free) { s with answered := [] }
  obtain ⟨r, hwork⟩ := loop_ends (workTurn_ends hreplenish hcalm) (listJsonFiles s'.work) s'
  exact ⟨r, Option.bind_eq_some_iff.mpr ⟨s', hfree, hwork⟩⟩

/-- A scan leaves a file in `free/` exactly if something is missing in it. -/
theorem poll_settled_iff (hs : s.Distinct) (he : e ∈ listJsonFiles s.free)
    (hroom : uniqueDest s.bad e.1 ≠ none) (hpoll : s.poll env = some r) :
    s.Settled r e ↔ ¬e.2.Partial := by
  obtain ⟨hmem, hlisted, -⟩ := mem_listJsonFiles.mp he
  obtain ⟨s', hfree, hwork⟩ := Option.bind_eq_some_iff.mp hpoll
  obtain ⟨s₁, s₂, hapart, hbefore, hturn, hapart', hafter⟩ :=
    loop_at (fun x hx => (mem_listJsonFiles.mp hx).2.1) (nodup_listJsonFiles hs.free) he
      (fun x u u' hu hx hne => freeTurn_apart hu hx hlisted hne)
      (fun x u u' hu => freeTurn_grows hu) hfree
  have hdistinct : s'.Distinct := loop_induction (R := fun a b => a.Distinct → b.Distinct)
    (fun _ h => h) (fun _ _ _ h h' ha => h' (h ha))
    (fun x _ u u' hu => freeTurn_distinct hu) hfree ⟨hs.free, hs.work⟩
  have hrest : Grows s' r := loop_induction .refl (fun _ _ _ => .trans)
    (fun x _ u u' hu => workTurn_grows hu) hwork
  have hsame : r.free = s'.free := loop_induction (R := fun a b => b.free = a.free)
    (fun _ => rfl) (fun _ _ _ h h' => h'.trans h) (fun x _ u u' hu => workTurn_free hu) hwork
  have hgone : e.1 ∉ s₂.free.map Prod.fst → e.1 ∉ r.free.map Prod.fst := by
    intro hno hin
    obtain ⟨⟨name, node⟩, hx, heq⟩ := List.mem_map.mp hin
    rw [hsame] at hx
    obtain rfl : name = e.1 := heq
    exact hno (List.mem_map.mpr ⟨_, (hapart'.free node).mp hx, rfl⟩)
  rcases freeTurn_cases hturn with ⟨hclaim, rfl⟩ | ⟨hclaim, rfl⟩ | ⟨fault, hclaim, rfl⟩
  · -- The file is left where it is, and nobody else moves it.
    refine iff_of_false ?_ (not_not_intro ((tryClaim_stub_iff hlisted).mp hclaim))
    rintro ⟨hno, -⟩
    refine hno (List.mem_map.mpr ⟨e, ?_, rfl⟩)
    rw [hsame]
    exact (hapart'.free e.2).mpr ((hapart.free e.2).mpr hmem)
  · have hnot : ¬e.2.Partial := by
      rw [← tryClaim_stub_iff hlisted, hclaim]
      nofun
    refine iff_of_true ⟨hgone without_names, ?_⟩ hnot
    have hin : e ∈ listJsonFiles s'.work := by
      refine mem_listJsonFiles.mpr ⟨(hapart'.work e.2).mpr ?_, (mem_listJsonFiles.mp he).2⟩
      exact List.mem_append_right _ (List.mem_singleton.mpr rfl)
    have hroom' : uniqueDest s'.bad e.1 ≠ none := by
      rw [hapart'.room]
      change uniqueDest s₁.bad e.1 ≠ none
      rwa [hapart.room]
    refine (settled_of_workLoop hin hdistinct.work hroom' hwork).imp id ?_
    rintro ⟨dest, hnew, hdest⟩
    refine ⟨dest, fun hold => hnew ?_, hdest⟩
    obtain ⟨x, hx, rfl⟩ := List.mem_map.mp hold
    exact List.mem_map_of_mem (hafter.bad x (hbefore.bad x hx))
  · have hnot : ¬e.2.Partial := by
      rw [← tryClaim_stub_iff hlisted, hclaim]
      nofun
    obtain ⟨dest, hdest⟩ := Option.ne_none_iff_exists'.mp (hapart.room.symm ▸ hroom)
    have hquarantine : s₁.quarantineFree e =
        { s₁ with free := without s₁.free e.1, bad := s₁.bad ++ [(dest, e.2)] } := by
      unfold quarantineFree
      rw [hdest]
    rw [hquarantine] at hgone hafter
    refine iff_of_true ⟨hgone without_names, .inr ⟨dest, fun hold => ?_, ?_⟩⟩ hnot
    · obtain ⟨x, hx, rfl⟩ := List.mem_map.mp hold
      exact (uniqueDest_spec hdest).1 (List.mem_map_of_mem (hbefore.bad x hx))
    · exact hrest.bad _ (hafter.bad _ (List.mem_append_right _ (List.mem_singleton.mpr rfl)))

end Poll

section Sample

attribute [local instance] Wire.plain Calendar.utcOnly

/-- Nothing fails. -/
def calm : ScanEnv where
  process _ := .calm
  replenish _ _ := true
  hasTree := true
  maxEvents := 64

/-- An empty database, and one file in the first slot. -/
def single (req : SlotRequest) : SlotScan where
  free := [(slotName 1, .file (some req))]
  work := []
  bad := []
  db := {}

/-- The stub of the first slot, filled in except for the key. -/
def keyless : SlotRequest :=
  { SlotRequest.sampleAdd "a" "lamp" with slotId := "0001", requestId := none }

theorem distinct_single (req : SlotRequest) : (single req).Distinct :=
  ⟨List.nodup_singleton _, .nil⟩

theorem listJsonFiles_single (req : SlotRequest) :
    listJsonFiles (single req).free = [(slotName 1, .file (some req))] := by
  unfold listJsonFiles single
  rw [List.filter_cons_of_pos (by rw [isListed_slotName]; rfl), List.filter_nil,
    List.mergeSort_singleton]

theorem mem_single (req : SlotRequest) :
    (slotName 1, Node.file (some req)) ∈ listJsonFiles (single req).free := by
  rw [listJsonFiles_single]
  exact List.mem_singleton.mpr rfl

theorem room_single (req : SlotRequest) : uniqueDest (single req).bad (slotName 1) ≠ none :=
  uniqueDest_of_new List.not_mem_nil

end Sample

end SlotScan

end Bellman

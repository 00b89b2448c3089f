/-
Bellman/Quarantine.lean

The artifacts of the quarantine.

What was rejected is kept in `bad/` as two files, a payload and a sidecar,
under a name that is a digest of its source and of its bytes.  Each file is
made as a temporary and then linked, which replaces nothing:

    payload.tmp  sidecar.tmp     link payload     link sidecar
         |------------|---------------|-----------------|
      open, write  open, write    unlink tmp        unlink tmp

A process that dies on the way, or an access that fails, leaves what was
made so far.  A temporary that is left is in the way of the next call, and a
payload that is left stands for the whole artifact.  The startup sweep takes
both away.

Main result: a call that is not cut short leaves a complete artifact exactly
if nothing is left in its way, which is so where every call that was cut
short is followed by a sweep (`pairs_whole_iff`).
-/
import Bellman.Barrier
import Bellman.EventLog
import Mathlib.Logic.Function.Basic

namespace Bellman

open ProgramLogic Prog

/-! ### The folder -/

/-- A file of an artifact. -/
inductive BadPart where
  | payload
  | sidecar
  deriving Repr, DecidableEq

/-- The name of a file in `bad/`. -/
structure BadName where
  base : String
  part : BadPart
  temp : Bool := false
  deriving Repr, DecidableEq

/-- The temporary that a file is made from. -/
def BadName.tmp (n : BadName) : BadName := { n with temp := true }

/-- What is in such a file. -/
inductive BadFile where
  | payload (bytes : List UInt8)
  | sidecar (fields : List (String × Json))
  /-- It was opened, and is not written yet. -/
  | unwritten

abbrev BadDir := BadName → Option BadFile

/-- Why a procedure stops: an access has failed, or the process dies. -/
inductive BadStop where
  | io
  | dies
  deriving Repr, DecidableEq

abbrev BadM (α : Type) : Type := Prog BadDir BadStop α

/-- What comes of an access. -/
inductive AccessLuck where
  | fine
  | fails
  | dies
  deriving Repr, DecidableEq

/-- An access that may fail, or that the process may not live to make. -/
def access {σ α : Type} (l : AccessLuck) (m : Prog σ BadStop α) : Prog σ BadStop α :=
  match l with
  | .fine => m
  | .fails => throw .io
  | .dies => throw .dies

/-- An access whose failure is not looked at. -/
def bestEffort {σ : Type} (l : AccessLuck) (m : Prog σ BadStop Unit) : Prog σ BadStop Unit :=
  match l with
  | .fine => m
  | .fails => return ()
  | .dies => throw .dies

/-- The accesses by which a file is made. -/
structure FileLuck where
  opens : AccessLuck := .fine
  writes : AccessLuck := .fine
  links : AccessLuck := .fine
  removes : AccessLuck := .fine
  deriving Repr, DecidableEq

structure QuarantineLuck where
  dir : AccessLuck := .fine
  payload : FileLuck := {}
  sidecar : FileLuck := {}
  sync : AccessLuck := .fine
  deriving Repr, DecidableEq

/-- A file is put in the folder. -/
def putBad (n : BadName) (file : Option BadFile) : BadM Unit :=
  modify fun bad => Function.update bad n file

/-- `write_tmp`: the temporary must be new. -/
def writeTmp (l : FileLuck) (n : BadName) (file : BadFile) : BadM Unit := do
  access l.opens do
    if ((← get) n.tmp).isSome then throw .io
    else putBad n.tmp (some .unwritten)
  access l.writes (putBad n.tmp (some file))

/-- `install_no_replace`: a hard link, which fails where there is a file; the
temporary is removed either way. -/
def installNoReplace (l : FileLuck) (n : BadName) : BadM Bool := do
  let created ← access l.links do
    let bad ← get
    match bad n, bad n.tmp with
    | some _, _ => return false
    | none, some file => do
      putBad n (some file)
      return true
    | none, none => throw .io
  bestEffort l.removes (putBad n.tmp none)
  return created

/-! ### Artifacts -/

def QUARANTINE_SCHEMA_V1 : String := "bellman-quarantine/1"

/-- `Map::insert`. -/
def insertField (fields : List (String × Json)) (key : String) (value : Json) :
    List (String × Json) :=
  fields.filter (·.1 != key) ++ [(key, value)]

/-- The sidecar: its own fields are put over those of the detail. -/
def sidecarJson (source reason : String) (contentCopied : Bool) (observedLen : Nat)
    (contentDigest : Option String) (detail : Json) (quarantinedAt : String) : BadFile :=
  let map := match detail with
    | .obj fields => fields
    | _ => []
  let map := insertField map "schema" (.str QUARANTINE_SCHEMA_V1)
  let map := insertField map "reason" (.str reason)
  let map := insertField map "source_path" (.str source)
  let map := insertField map "quarantined_at" (.str quarantinedAt)
  let map := insertField map "content_copied" (.bool contentCopied)
  let map := insertField map "observed_len" (.num observedLen)
  .sidecar (insertField map "content_digest" (contentDigest.elim .null .str))

/-- `is_metadata_only`, of a file that is read. -/
def BadFile.isMetadataOnly : BadFile → Bool
  | .sidecar fields =>
    match fields.find? (·.1 == "content_copied") with
    | some (_, .bool false) => true
    | _ => false
  | _ => false

/-- Outcome of one quarantine call. -/
structure QuarantineOutcome where
  created : Bool
  payloadPath : Option BadName
  sidecarPath : BadName
  deriving Repr, DecidableEq

/-- What a call is told beside the source and its bytes. -/
structure BadNote where
  reason : String
  detail : Json
  /-- The clock. -/
  quarantinedAt : String

/-- What is rejected: bytes that were read, or a file that is not read, by
the length that was seen. -/
inductive Rejected where
  | bytes (source : String) (body : List UInt8)
  | unread (source : String) (observedLen : Nat)
  deriving Repr, DecidableEq

namespace Rejected

/-- The name of the artifact. -/
def base : Rejected → String
  | bytes source body => fnv1a64Hex (utf8 source) ++ "-" ++ fnv1a64Hex body
  | unread source observedLen =>
    fnv1a64Hex (utf8 source) ++ "-unread-" ++ fnv1a64Hex (utf8 (toString observedLen))

def payload (r : Rejected) : BadName := { base := r.base, part := .payload }

def sidecar (r : Rejected) : BadName := { base := r.base, part := .sidecar }

end Rejected

/-- `quarantine_bytes`. -/
def quarantineBytes (l : QuarantineLuck) (source : String) (bytes : List UInt8) (note : BadNote) :
    BadM QuarantineOutcome := do
  access l.dir (return ())
  let digest := fnv1a64Hex bytes
  let base := fnv1a64Hex (utf8 source) ++ "-" ++ digest
  let payloadFinal : BadName := { base, part := .payload }
  let sidecarFinal : BadName := { base, part := .sidecar }
  writeTmp l.payload payloadFinal (.payload bytes)
  writeTmp l.sidecar sidecarFinal
    (sidecarJson source note.reason true bytes.length (some digest) note.detail
      note.quarantinedAt)
  if ← installNoReplace l.payload payloadFinal then
    let _ ← installNoReplace l.sidecar sidecarFinal
    bestEffort l.sync (return ())
    return { created := true, payloadPath := some payloadFinal, sidecarPath := sidecarFinal }
  else
    bestEffort l.sidecar.removes (putBad sidecarFinal.tmp none)
    return { created := false, payloadPath := some payloadFinal, sidecarPath := sidecarFinal }

/-- `quarantine_unread`. -/
def quarantineUnread (l : QuarantineLuck) (source : String) (observedLen : Nat)
    (note : BadNote) : BadM QuarantineOutcome := do
  access l.dir (return ())
  let base :=
    fnv1a64Hex (utf8 source) ++ "-unread-" ++ fnv1a64Hex (utf8 (toString observedLen))
  let sidecarFinal : BadName := { base, part := .sidecar }
  writeTmp l.sidecar sidecarFinal
    (sidecarJson source note.reason false observedLen none note.detail note.quarantinedAt)
  let created ← installNoReplace l.sidecar sidecarFinal
  if created then bestEffort l.sync (return ())
  return { created, payloadPath := none, sidecarPath := sidecarFinal }

/-- The two calls. -/
def Rejected.quarantine (l : QuarantineLuck) (note : BadNote) :
    Rejected → BadM QuarantineOutcome
  | bytes source body => quarantineBytes l source body note
  | unread source observedLen => quarantineUnread l source observedLen note

/-- What a sweep cannot do: the files that are left although it would remove
them, and the sidecars that it cannot read. -/
structure SweepLuck where
  left : List BadName := []
  misread : List String := []

/-- Whether the sweep would remove the file. -/
def SweepLuck.targets (l : SweepLuck) (bad : BadDir) (n : BadName) : Bool :=
  if n.temp then true
  else match n.part with
    | .payload => (bad { base := n.base, part := .sidecar }).isNone
    | .sidecar => (bad { base := n.base, part := .payload }).isNone &&
      !((bad n).any (·.isMetadataOnly) && !l.misread.contains n.base)

/-- `startup_sweep`.  It goes by the names that it has listed at first. -/
def startupSweep (l : SweepLuck) (bad : BadDir) : BadDir := fun n =>
  if l.targets bad n && !l.left.contains n then none else bad n

/-! ### The system -/

inductive BadStep where
  | call (r : Rejected) (note : BadNote) (luck : QuarantineLuck)
  | sweep (luck : SweepLuck)

def BadStep.after : BadStep → BadDir → BadDir
  | call r note luck, bad => ((r.quarantine luck note).run bad).2
  | sweep luck, bad => startupSweep luck bad

/-- The folder, under the calls and the sweeps of all processes, which take
turns by the quarantine lock. -/
def quarantining : System BadDir BadStep where
  init bad := bad = fun _ => none
  step bad i bad' := bad' = i.after bad

/-! ### What is to hold -/

/-- The artifact of the rejection is complete. -/
def BadDir.Complete (bad : BadDir) : Rejected → Prop
  | r@(.bytes _ b) => bad r.payload = some (.payload b) ∧ (bad r.sidecar).isSome = true
  | r@(.unread ..) => (bad r.sidecar).any (·.isMetadataOnly) = true

/-- There is a complete artifact of that name. -/
def BadDir.CompleteAt (bad : BadDir) (base : String) : Prop :=
  (bad { base, part := .payload }).isSome = true ∧
      (bad { base, part := .sidecar }).isSome = true ∨
    (bad { base, part := .sidecar }).any (·.isMetadataOnly) = true

/-- A call that is not cut short returns, and its artifact is complete; a
sweep takes nothing of a complete artifact. -/
def StepWhole (e : System.Event BadDir BadStep) : Prop :=
  match e.label with
  | .call r note luck => luck = {} →
    (∃ out, (r.quarantine luck note).run e.pre = (.ok out, e.post)) ∧ e.post.Complete r
  | .sweep _ => ∀ base, e.pre.CompleteAt base → ∀ part,
    e.post { base, part } = e.pre { base, part }

/-- Every rejection that is not cut short has its artifact, whatever was cut
short before, and the sweeps take incomplete ones only. -/
def PairsWhole (tr : List (System.Event BadDir BadStep)) : Prop := ∀ e ∈ tr, StepWhole e

/-! ### When it holds -/

/-- Nothing is in the way of a call: no temporary, and no payload but that of
the same bytes, with its sidecar. -/
def BadDir.Ready (bad : BadDir) : Rejected → Prop
  | r@(.bytes _ b) => (bad r.payload.tmp).isNone = true ∧ (bad r.sidecar.tmp).isNone = true ∧
    (bad r.payload = none ∨ bad r.payload = some (.payload b) ∧ (bad r.sidecar).isSome = true)
  | r@(.unread ..) => (bad r.sidecar.tmp).isNone = true ∧
    ((bad r.sidecar).isNone = true ∨ (bad r.sidecar).any (·.isMetadataOnly) = true)

/-- Every sidecar without a payload that says it is complete is read, or
cannot be removed. -/
def SweepLuck.Reads (l : SweepLuck) (bad : BadDir) : Prop :=
  ∀ base ∈ l.misread, bad { base, part := .payload } = none →
    (bad { base, part := .sidecar }).any (·.isMetadataOnly) = true →
      { base, part := .sidecar } ∈ l.left

/-- What a step finds is as it takes for granted. -/
def Ready (e : System.Event BadDir BadStep) : Prop :=
  match e.label with
  | .call r _ luck => luck = {} → e.pre.Ready r
  | .sweep luck => luck.Reads e.pre

/-- The call is cut short after it has opened its first temporary, or leaves
one behind. -/
def QuarantineLuck.Leaves (l : QuarantineLuck) (bad : BadDir) : Rejected → Prop
  | r@(.bytes ..) => l.dir = .fine ∧ l.payload.opens = .fine ∧
    ¬(l.payload.writes = .fine ∧ l.sidecar.opens = .fine ∧ l.sidecar.writes = .fine ∧
      l.payload.links = .fine ∧ l.payload.removes = .fine ∧
      (bad r.payload = none → l.sidecar.links = .fine) ∧ l.sidecar.removes = .fine)
  | .unread .. => l.dir = .fine ∧ l.sidecar.opens = .fine ∧
    ¬(l.sidecar.writes = .fine ∧ l.sidecar.links = .fine ∧ l.sidecar.removes = .fine)

/-- The call leaves something in the way of the next of its kind. -/
def LeavesAt (base : String) (e : System.Event BadDir BadStep) : Prop :=
  match e.label with
  | .call r _ luck => r.base = base ∧ luck.Leaves e.pre r
  | .sweep _ => False

/-- The sweep can remove every file of the name. -/
def ClearsAt (base : String) (e : System.Event BadDir BadStep) : Prop :=
  match e.label with
  | .call .. => False
  | .sweep luck => ∀ n ∈ luck.left, n.base ≠ base

/-- What is rejected by a step. -/
def rejection (e : System.Event BadDir BadStep) : Option Rejected :=
  match e.label with
  | .call r _ _ => some r
  | .sweep _ => none

/-- No two rejections have one name, every call that has left something is
followed by a sweep before the next call for that name, and the sweeps read
what they look at. -/
structure Tidied (tr : List (System.Event BadDir BadStep)) : Prop where
  apart : ∀ d ∈ tr, ∀ e ∈ tr, ∀ r r', rejection d = some r → rejection e = some r' →
    r.base = r'.base → r = r'
  swept : ∀ a e b d c, tr = a ++ e :: b ++ d :: c → ∀ r, rejection d = some r →
    LeavesAt r.base e → ∃ f ∈ b, ClearsAt r.base f
  read : ∀ e ∈ tr, match e.label with
    | .call .. => True
    | .sweep luck => luck.Reads e.pre

/-! ### The steps of a call -/

section Steps

variable {σ α : Type} {Q : α → σ → Prop} {E : BadStop → σ → Prop} {s : σ} {l : AccessLuck}

theorem wp_access {m : Prog σ BadStop α} (hE : ∀ x, E x s) (h : l = .fine → wp m Q E s) :
    wp (access l m) Q E s := by
  cases l with
  | fine => exact h rfl
  | fails => exact hE .io
  | dies => exact hE .dies

theorem wp_bestEffort {m : Prog σ BadStop Unit} {Q : Unit → σ → Prop} (hE : E .dies s)
    (hQ : Q () s) (h : wp m Q E s) : wp (bestEffort l m) Q E s := by
  cases l with
  | fine => exact h
  | fails => exact hQ
  | dies => exact hE

end Steps

section Files

variable {bad : BadDir} {n : BadName} {file : BadFile} {l : FileLuck} {E : BadStop → BadDir → Prop}

/-- A temporary is opened, and then written. -/
theorem wp_writeTmp {Q : Unit → BadDir → Prop} (hE : ∀ x, E x bad)
    (hopen : bad n.tmp = none → ∀ x, E x (Function.update bad n.tmp (some .unwritten)))
    (hwritten : bad n.tmp = none → Q () (Function.update bad n.tmp (some file))) :
    wp (writeTmp l n file) Q E bad := by
  unfold writeTmp
  rw [wp_bind]
  refine wp_access hE fun _ => ?_
  rw [wp_bind, wp_get]
  split
  · exact hE .io
  · next hnone =>
    rw [Bool.not_eq_true, Option.isSome_eq_false_iff, Option.isNone_iff_eq_none] at hnone
    refine wp_access (hopen hnone) fun _ => ?_
    show Q () (Function.update (Function.update bad n.tmp _) n.tmp (some file))
    rw [Function.update_idem]
    exact hwritten hnone

/-- A temporary is linked where there is no file, and goes away. -/
theorem wp_installNoReplace {Q : Bool → BadDir → Prop} (htmp : bad n.tmp = some file)
    (hE : ∀ x, E x bad)
    (hnew : bad n = none → E .dies (Function.update bad n (some file)) ∧
      Q true (Function.update bad n (some file)) ∧
      Q true (Function.update (Function.update bad n (some file)) n.tmp none))
    (hold : (bad n).isSome = true → Q false bad ∧ Q false (Function.update bad n.tmp none)) :
    wp (installNoReplace l n) Q E bad := by
  unfold installNoReplace
  rw [wp_bind]
  refine wp_access hE fun _ => ?_
  rw [wp_bind, wp_get]
  cases hfile : bad n with
  | some f =>
    obtain ⟨hkept, hgone⟩ := hold (by rw [hfile]; rfl)
    show wp (bestEffort l.removes (putBad n.tmp none) >>= fun _ => return false) Q E bad
    rw [wp_bind]
    exact wp_bestEffort (hE .dies) hkept hgone
  | none =>
    obtain ⟨hdies, hkept, hgone⟩ := hnew hfile
    rw [htmp]
    show wp (bestEffort l.removes (putBad n.tmp none) >>= fun _ => return true) Q E
      (Function.update bad n (some file))
    rw [wp_bind]
    exact wp_bestEffort hdies hkept hgone

end Files

/-! ### What a call does -/

/-- The file is one that the rejection is given. -/
def Rejected.Fits (r : Rejected) (n : BadName) (file : BadFile) : Prop :=
  match n.part, r with
  | .payload, bytes _ body => file = .payload body
  | .payload, unread .. => False
  | .sidecar, bytes .. => True
  | .sidecar, unread .. => file.isMetadataOnly = true

/-- No file is replaced, and those that are new fit the rejection; of the
temporaries it says nothing. -/
structure Adds (r : Rejected) (bad bad' : BadDir) : Prop where
  other : ∀ n, n.base ≠ r.base → bad' n = bad n
  files : ∀ n, n.temp = false → bad' n = bad n ∨
    bad n = none ∧ ∃ file, bad' n = some file ∧ r.Fits n file

namespace Adds

variable {r : Rejected} {bad bad' : BadDir} {n : BadName} {file : BadFile}

theorem refl (r : Rejected) (bad : BadDir) : Adds r bad bad :=
  ⟨fun _ _ => rfl, fun _ _ => .inl rfl⟩

theorem temp (h : Adds r bad bad') (hbase : n.base = r.base) (x : Option BadFile) :
    Adds r bad (Function.update bad' n.tmp x) where
  other m hm := by
    rw [Function.update_of_ne]
    · exact h.other m hm
    · rintro rfl
      exact hm hbase
  files m hm := by
    rw [Function.update_of_ne]
    · exact h.files m hm
    · rintro rfl
      cases hm

theorem link (h : Adds r bad bad') (hbase : n.base = r.base) (hnone : bad' n = none)
    (hfits : r.Fits n file) : Adds r bad (Function.update bad' n (some file)) where
  other m hm := by
    rw [Function.update_of_ne]
    · exact h.other m hm
    · rintro rfl
      exact hm hbase
  files m hm := by
    by_cases hn : m = n
    · subst hn
      rw [Function.update_self]
      rcases h.files m hm with hsame | ⟨-, f, hf, -⟩
      · exact .inr ⟨hsame ▸ hnone, file, rfl, hfits⟩
      · rw [hf] at hnone
        cases hnone
    · rw [Function.update_of_ne hn]
      exact h.files m hm

end Adds

section Fields

variable {fields : List (String × Json)} {key key' : String} {value : Json}

theorem find?_insertField_self :
    (insertField fields key value).find? (·.1 == key) = some (key, value) := by
  unfold insertField
  rw [List.find?_append, List.find?_eq_none.mpr]
  · simp
  · intro field hfield
    simpa using (List.mem_filter.mp hfield).2

theorem find?_insertField_ne (h : key ≠ key') :
    (insertField fields key value).find? (·.1 == key') = fields.find? (·.1 == key') := by
  unfold insertField
  rw [List.find?_append, List.find?_filter]
  have hlast : [(key, value)].find? (·.1 == key') = none := by simp [h]
  rw [hlast, Option.or_none]
  congr 1
  funext field
  by_cases hfield : field.1 = key'
  · simp [hfield, Ne.symm h]
  · simp [hfield]

/-- The own fields of a sidecar stand, whatever the detail says. -/
theorem isMetadataOnly_sidecarJson {source reason stamp : String} {copied : Bool} {len : Nat}
    {digest : Option String} {detail : Json} :
    (sidecarJson source reason copied len digest detail stamp).isMetadataOnly = !copied := by
  unfold sidecarJson BadFile.isMetadataOnly
  dsimp only
  rw [find?_insertField_ne (by decide), find?_insertField_ne (by decide), find?_insertField_self]
  cases copied <;> rfl

end Fields

section Call

variable {l : QuarantineLuck} {note : BadNote} {bad : BadDir}

/-- The second half of a call, once the payload is there. -/
theorem sidecar_adds {bad' : BadDir} {r : Rejected} {file : BadFile} {out : QuarantineOutcome}
    (h : Adds r bad bad') (htmp : bad' r.sidecar.tmp = some file)
    (hfits : r.Fits r.sidecar file) :
    wp (do
      let _ ← installNoReplace l.sidecar r.sidecar
      bestEffort l.sync (return ())
      return out : BadM QuarantineOutcome) (fun _ => Adds r bad) (fun _ => Adds r bad) bad' := by
  have hsync : ∀ bad'', Adds r bad bad'' → wp (do
      bestEffort l.sync (return ())
      return out : BadM QuarantineOutcome) (fun _ => Adds r bad) (fun _ => Adds r bad) bad'' := by
    intro bad'' h''
    rw [wp_bind]
    exact wp_bestEffort h'' h'' h''
  rw [wp_bind]
  refine wp_installNoReplace htmp (fun _ => h) (fun hnone => ?_) fun _ => ?_
  · have hlink := h.link rfl hnone hfits
    exact ⟨hlink, hsync _ hlink, hsync _ (hlink.temp rfl _)⟩
  · exact ⟨hsync _ h, hsync _ (h.temp rfl _)⟩

/-- A call for a payload and a sidecar. -/
def pairCall (l : QuarantineLuck) (r : Rejected) (payload sidecar : BadFile) :
    BadM QuarantineOutcome := do
  access l.dir (return ())
  writeTmp l.payload r.payload payload
  writeTmp l.sidecar r.sidecar sidecar
  if ← installNoReplace l.payload r.payload then
    let _ ← installNoReplace l.sidecar r.sidecar
    bestEffort l.sync (return ())
    return { created := true, payloadPath := some r.payload, sidecarPath := r.sidecar }
  else
    bestEffort l.sidecar.removes (putBad r.sidecar.tmp none)
    return { created := false, payloadPath := some r.payload, sidecarPath := r.sidecar }

/-- A call for a sidecar alone. -/
def soleCall (l : QuarantineLuck) (r : Rejected) (sidecar : BadFile) :
    BadM QuarantineOutcome := do
  access l.dir (return ())
  writeTmp l.sidecar r.sidecar sidecar
  let created ← installNoReplace l.sidecar r.sidecar
  if created then bestEffort l.sync (return ())
  return { created, payloadPath := none, sidecarPath := r.sidecar }

theorem quarantine_bytes (source : String) (body : List UInt8) :
    (Rejected.bytes source body).quarantine l note =
      pairCall l (.bytes source body) (.payload body) (sidecarJson source note.reason true
        body.length (some (fnv1a64Hex body)) note.detail note.quarantinedAt) := rfl

theorem quarantine_unread (source : String) (len : Nat) :
    (Rejected.unread source len).quarantine l note =
      soleCall l (.unread source len) (sidecarJson source note.reason false len none note.detail
        note.quarantinedAt) := rfl

theorem payload_ne_sidecar (r : Rejected) : r.payload.tmp ≠ r.sidecar.tmp := nofun

theorem sidecar_ne_payload (r : Rejected) : r.sidecar.tmp ≠ r.payload.tmp := nofun

theorem tmp_ne {n m : BadName} (h : m.temp = false) : n.tmp ≠ m := by
  rintro rfl
  cases h

theorem pairCall_adds {r : Rejected} {payload sidecar : BadFile} (hp : r.Fits r.payload payload)
    (hs : r.Fits r.sidecar sidecar) :
    wp (pairCall l r payload sidecar) (fun _ => Adds r bad) (fun _ => Adds r bad) bad := by
  have h := Adds.refl r bad
  unfold pairCall
  rw [wp_bind]
  refine wp_access (fun _ => h) fun _ => ?_
  rw [wp_pure, wp_bind]
  refine wp_writeTmp (fun _ => h) (fun _ _ => h.temp rfl _) fun _ => ?_
  rw [wp_bind]
  have h₁ : Adds r bad (Function.update bad r.payload.tmp (some payload)) := h.temp rfl _
  refine wp_writeTmp (fun _ => h₁) (fun _ _ => h₁.temp rfl _) fun _ => ?_
  have h₂ := h₁.temp (n := r.sidecar) rfl (some sidecar)
  have htmp : Function.update (Function.update bad r.payload.tmp (some payload)) r.sidecar.tmp
      (some sidecar) r.payload.tmp = some payload := by
    rw [Function.update_of_ne (payload_ne_sidecar r), Function.update_self]
  rw [wp_bind]
  refine wp_installNoReplace htmp (fun _ => h₂) (fun hnone => ?_) fun _ => ?_
  · have hlink := h₂.link rfl hnone hp
    have hside := Function.update_of_ne (tmp_ne (n := r.sidecar) (m := r.payload) rfl)
      (some payload) (Function.update (Function.update bad r.payload.tmp (some payload))
        r.sidecar.tmp (some sidecar))
    rw [Function.update_self] at hside
    refine ⟨hlink, sidecar_adds hlink hside hs, sidecar_adds (hlink.temp rfl _) ?_ hs⟩
    rw [Function.update_of_ne (sidecar_ne_payload r)]
    exact hside
  · have hgone := h₂.temp (n := r.payload) rfl none
    refine ⟨?_, ?_⟩
    · exact (wp_bind _ _).mpr (wp_bestEffort h₂ h₂ (h₂.temp rfl _))
    · exact (wp_bind _ _).mpr (wp_bestEffort hgone hgone (hgone.temp rfl _))

theorem soleCall_adds {r : Rejected} {sidecar : BadFile} (hs : r.Fits r.sidecar sidecar) :
    wp (soleCall l r sidecar) (fun _ => Adds r bad) (fun _ => Adds r bad) bad := by
  have h := Adds.refl r bad
  unfold soleCall
  rw [wp_bind]
  refine wp_access (fun _ => h) fun _ => ?_
  rw [wp_pure, wp_bind]
  refine wp_writeTmp (fun _ => h) (fun _ _ => h.temp rfl _) fun _ => ?_
  have h₁ : Adds r bad (Function.update bad r.sidecar.tmp (some sidecar)) := h.temp rfl _
  have hsync : ∀ bad' created, Adds r bad bad' → wp (do
      if created then bestEffort l.sync (return ())
      return { created, payloadPath := none, sidecarPath := r.sidecar } : BadM QuarantineOutcome)
      (fun _ => Adds r bad) (fun _ => Adds r bad) bad' := by
    intro bad' created h'
    cases created with
    | false => exact h'
    | true => exact (wp_bind _ _).mpr (wp_bestEffort h' h' h')
  rw [wp_bind]
  refine wp_installNoReplace (Function.update_self ..) (fun _ => h₁) (fun hnone => ?_) fun _ => ?_
  · have hlink := h₁.link rfl hnone hs
    exact ⟨hlink, hsync _ _ hlink, hsync _ _ (hlink.temp rfl _)⟩
  · exact ⟨hsync _ _ h₁, hsync _ _ (h₁.temp rfl _)⟩

/-- A call adds the files of its rejection, wherever it is cut short. -/
theorem quarantine_adds (r : Rejected) :
    wp (r.quarantine l note) (fun _ => Adds r bad) (fun _ => Adds r bad) bad := by
  cases r with
  | bytes source body =>
    rw [quarantine_bytes]
    exact pairCall_adds rfl trivial
  | unread source len =>
    rw [quarantine_unread]
    exact soleCall_adds isMetadataOnly_sidecarJson

end Call

/-! ### Calls that are not cut short -/

section Fine

variable {bad : BadDir} {n : BadName} {file : BadFile} {f : FileLuck} {l : QuarantineLuck}
  {r : Rejected} {payload sidecar : BadFile} {E : BadStop → BadDir → Prop}

theorem writeTmp_fine {Q : Unit → BadDir → Prop} (hopens : f.opens = .fine)
    (hwrites : f.writes = .fine) (hnone : bad n.tmp = none)
    (h : Q () (Function.update bad n.tmp (some file))) : wp (writeTmp f n file) Q E bad := by
  unfold writeTmp access
  rw [hopens, hwrites, wp_bind, wp_bind, wp_get, if_neg (by simp [hnone])]
  show Q () (Function.update (Function.update bad n.tmp _) n.tmp (some file))
  rw [Function.update_idem]
  exact h

/-- A temporary is in the way. -/
theorem writeTmp_blocked {Q : Unit → BadDir → Prop} (hsome : (bad n.tmp).isSome = true)
    (h : ∀ x, E x bad) : wp (writeTmp f n file) Q E bad := by
  unfold writeTmp
  rw [wp_bind]
  refine wp_access h fun _ => ?_
  rw [wp_bind, wp_get, if_pos hsome]
  exact h .io

theorem installNoReplace_fine {Q : Bool → BadDir → Prop} (hlinks : f.links = .fine)
    (hremoves : f.removes = .fine) (htmp : bad n.tmp = some file)
    (hnew : bad n = none → ∀ bad', bad' n = some file → bad' n.tmp = none →
      (∀ m, m ≠ n → m ≠ n.tmp → bad' m = bad m) → Q true bad')
    (hold : (bad n).isSome = true → ∀ bad', bad' n.tmp = none →
      (∀ m, m ≠ n.tmp → bad' m = bad m) → Q false bad') :
    wp (installNoReplace f n) Q E bad := by
  unfold installNoReplace access bestEffort
  rw [hlinks, hremoves, wp_bind, wp_bind, wp_get]
  cases hfile : bad n with
  | some file' =>
    refine hold (by rw [hfile]; rfl) (Function.update bad n.tmp none) ?_ fun m hm => ?_
    · exact Function.update_self ..
    · exact Function.update_of_ne hm ..
  | none =>
    rw [htmp]
    refine hnew hfile (Function.update (Function.update bad n (some file)) n.tmp none) ?_ ?_
      fun m hm hm' => ?_
    · by_cases hn : n = n.tmp
      · rw [← hn, hfile] at htmp
        cases htmp
      · rw [Function.update_of_ne hn, Function.update_self]
    · exact Function.update_self ..
    · rw [Function.update_of_ne hm', Function.update_of_ne hm]

/-- What a pair is after a call that found no temporaries. -/
structure Paired (r : Rejected) (payload : BadFile) (bad bad' : BadDir) : Prop where
  temps : bad' r.payload.tmp = none ∧ bad' r.sidecar.tmp = none
  old : (bad r.payload).isSome = true → bad' r.payload = bad r.payload ∧
    bad' r.sidecar = bad r.sidecar
  new : bad r.payload = none → bad' r.payload = some payload ∧ (bad' r.sidecar).isSome = true

/-- A call that is not cut short, and finds no temporaries. -/
theorem pairCall_fine (hdir : l.dir = .fine) (hpopens : l.payload.opens = .fine)
    (hpwrites : l.payload.writes = .fine) (hsopens : l.sidecar.opens = .fine)
    (hswrites : l.sidecar.writes = .fine) (hplinks : l.payload.links = .fine)
    (hpremoves : l.payload.removes = .fine)
    (hslinks : bad r.payload = none → l.sidecar.links = .fine)
    (hsremoves : l.sidecar.removes = .fine) (hp : bad r.payload.tmp = none)
    (hs : bad r.sidecar.tmp = none) :
    wp (pairCall l r payload sidecar) (fun _ => Paired r payload bad)
      (fun _ bad' => l.sync ≠ .fine ∧ Paired r payload bad bad') bad := by
  unfold pairCall access
  rw [hdir, wp_bind, wp_pure, wp_bind]
  refine writeTmp_fine hpopens hpwrites hp ?_
  rw [wp_bind]
  refine writeTmp_fine hsopens hswrites ?_ ?_
  · rw [Function.update_of_ne (sidecar_ne_payload r), hs]
  -- The temporaries are there, and nothing else has changed.
  obtain ⟨bad₁, hbad₁⟩ : ∃ bad₁, bad₁ = Function.update (Function.update bad r.payload.tmp
    (some payload)) r.sidecar.tmp (some sidecar) := ⟨_, rfl⟩
  have hptmp : bad₁ r.payload.tmp = some payload := by
    rw [hbad₁, Function.update_of_ne (payload_ne_sidecar r), Function.update_self]
  have hstmp : bad₁ r.sidecar.tmp = some sidecar := by
    rw [hbad₁, Function.update_self]
  have hsame : ∀ m : BadName, m.temp = false → bad₁ m = bad m := by
    intro m hm
    rw [hbad₁, Function.update_of_ne (tmp_ne hm).symm, Function.update_of_ne (tmp_ne hm).symm]
  rw [← hbad₁, wp_bind]
  have hpayload : bad₁ r.payload = bad r.payload := hsame _ rfl
  refine installNoReplace_fine hplinks hpremoves hptmp (fun hnone bad₂ hlink hgone hrest => ?_)
    fun hsome bad₂ hgone hrest => ?_
  · rw [hpayload] at hnone
    rw [if_pos rfl, wp_bind]
    have hsync : ∀ bad₃, Paired r payload bad bad₃ → wp (do
        bestEffort l.sync (return ())
        return { created := true, payloadPath := some r.payload, sidecarPath := r.sidecar } :
          BadM QuarantineOutcome) (fun _ => Paired r payload bad)
        (fun _ bad' => l.sync ≠ .fine ∧ Paired r payload bad bad') bad₃ := by
      intro bad₃ h₃
      rw [wp_bind]
      cases hsync : l.sync with
      | fine => exact h₃
      | fails => exact h₃
      | dies => exact ⟨nofun, h₃⟩
    have hstmp₂ : bad₂ r.sidecar.tmp = some sidecar := (hrest r.sidecar.tmp nofun nofun).trans hstmp
    refine installNoReplace_fine (hslinks hnone) hsremoves hstmp₂
      (fun _ bad₃ hside htmp₃ hrest₃ => ?_) fun hold bad₃ htmp₃ hrest₃ => ?_
    · apply hsync
      constructor
      · exact ⟨(hrest₃ r.payload.tmp nofun nofun).trans hgone, htmp₃⟩
      · intro hsome
        rw [hnone] at hsome
        cases hsome
      · intro _
        exact ⟨(hrest₃ r.payload nofun nofun).trans hlink, by rw [hside]; rfl⟩
    · apply hsync
      constructor
      · exact ⟨(hrest₃ r.payload.tmp nofun).trans hgone, htmp₃⟩
      · intro hsome
        rw [hnone] at hsome
        cases hsome
      · intro _
        refine ⟨(hrest₃ r.payload nofun).trans hlink, ?_⟩
        rw [hrest₃ r.sidecar nofun]
        exact hold
  · rw [if_neg (by simp), wp_bind, hsremoves]
    show Paired r payload bad (Function.update bad₂ r.sidecar.tmp none)
    have hkept : ∀ m : BadName, m ≠ r.sidecar.tmp →
        Function.update bad₂ r.sidecar.tmp none m = bad₂ m :=
      fun m hm => Function.update_of_ne hm ..
    constructor
    · exact ⟨(hkept r.payload.tmp nofun).trans hgone, Function.update_self ..⟩
    · intro _
      refine ⟨?_, ?_⟩
      · rw [hkept r.payload nofun, hrest r.payload nofun, hpayload]
      · rw [hkept r.sidecar nofun, hrest r.sidecar nofun, hsame r.sidecar rfl]
    · intro hnone
      rw [hpayload, hnone] at hsome
      cases hsome

/-- What a sidecar alone is after a call that found no temporary. -/
structure Solitary (r : Rejected) (sidecar : BadFile) (bad bad' : BadDir) : Prop where
  temp : bad' r.sidecar.tmp = none
  old : (bad r.sidecar).isSome = true → bad' r.sidecar = bad r.sidecar
  new : bad r.sidecar = none → bad' r.sidecar = some sidecar
  payload : bad' r.payload = bad r.payload ∧ bad' r.payload.tmp = bad r.payload.tmp

theorem soleCall_fine (hdir : l.dir = .fine) (hopens : l.sidecar.opens = .fine)
    (hwrites : l.sidecar.writes = .fine) (hlinks : l.sidecar.links = .fine)
    (hremoves : l.sidecar.removes = .fine) (hs : bad r.sidecar.tmp = none) :
    wp (soleCall l r sidecar) (fun _ => Solitary r sidecar bad)
      (fun _ bad' => l.sync ≠ .fine ∧ Solitary r sidecar bad bad') bad := by
  unfold soleCall access
  rw [hdir, wp_bind, wp_pure, wp_bind]
  refine writeTmp_fine hopens hwrites hs ?_
  rw [wp_bind]
  have hsame : ∀ m, m ≠ r.sidecar.tmp →
      Function.update bad r.sidecar.tmp (some sidecar) m = bad m :=
    fun m hm => Function.update_of_ne hm ..
  refine installNoReplace_fine hlinks hremoves (Function.update_self ..)
    (fun hnone bad' hlink hgone hrest => ?_) fun hsome bad' hgone hrest => ?_
  · have hsole : Solitary r sidecar bad bad' := by
      constructor
      · exact hgone
      · intro hsome
        rw [hsame r.sidecar nofun] at hnone
        rw [hnone] at hsome
        cases hsome
      · exact fun _ => hlink
      · rw [hrest r.payload nofun nofun, hrest r.payload.tmp nofun nofun]
        exact ⟨hsame r.payload nofun, hsame r.payload.tmp nofun⟩
    rw [if_pos rfl, wp_bind]
    cases hsync : l.sync with
    | fine => exact hsole
    | fails => exact hsole
    | dies => exact ⟨nofun, hsole⟩
  · have hsole : Solitary r sidecar bad bad' := by
      rw [hsame r.sidecar nofun] at hsome
      constructor
      · exact hgone
      · exact fun _ => (hrest r.sidecar nofun).trans (hsame r.sidecar nofun)
      · intro hnone
        rw [hnone] at hsome
        cases hsome
      · rw [hrest r.payload nofun, hrest r.payload.tmp nofun]
        exact ⟨hsame r.payload nofun, hsame r.payload.tmp nofun⟩
    exact hsole

/-- A call for a pair that finds a temporary fails. -/
theorem pairCall_blocked
    (h : (bad r.payload.tmp).isSome = true ∨ (bad r.sidecar.tmp).isSome = true) :
    wp (pairCall l r payload sidecar) (fun _ _ => False) (fun _ _ => True) bad := by
  unfold pairCall
  rw [wp_bind]
  refine wp_access (fun _ => trivial) fun _ => ?_
  rw [wp_pure, wp_bind]
  by_cases hp : (bad r.payload.tmp).isSome = true
  · exact writeTmp_blocked hp fun _ => trivial
  · refine wp_writeTmp (fun _ => trivial) (fun _ _ => trivial) fun _ => ?_
    rw [wp_bind]
    refine writeTmp_blocked ?_ fun _ => trivial
    rw [Function.update_of_ne (sidecar_ne_payload r)]
    exact h.resolve_left hp

theorem soleCall_blocked (h : (bad r.sidecar.tmp).isSome = true) :
    wp (soleCall l r sidecar) (fun _ _ => False) (fun _ _ => True) bad := by
  unfold soleCall
  rw [wp_bind]
  refine wp_access (fun _ => trivial) fun _ => ?_
  rw [wp_pure, wp_bind]
  exact writeTmp_blocked h fun _ => trivial

end Fine

/-! ### One step -/

section Step

variable {bad : BadDir} {r : Rejected} {payload sidecar : BadFile} {note : BadNote}

theorem isNone_of_not {x : Option BadFile} (h : ¬x.isSome = true) : x = none := by
  simpa using h

theorem pair_retried : ((∃ out, (pairCall {} r payload sidecar).run bad =
        (.ok out, ((pairCall {} r payload sidecar).run bad).2)) ∧
      ((pairCall {} r payload sidecar).run bad).2 r.payload = some payload ∧
      (((pairCall {} r payload sidecar).run bad).2 r.sidecar).isSome = true) ↔
    (bad r.payload.tmp).isNone = true ∧ (bad r.sidecar.tmp).isNone = true ∧
      (bad r.payload = none ∨ bad r.payload = some payload ∧ (bad r.sidecar).isSome = true) := by
  by_cases htemps : (bad r.payload.tmp).isSome = true ∨ (bad r.sidecar.tmp).isSome = true
  · refine iff_of_false (fun h => ?_) fun h => ?_
    · obtain ⟨⟨out, hrun⟩, -⟩ := h
      exact wp_ok (pairCall_blocked htemps) hrun
    · rw [Option.isNone_iff_eq_none, Option.isNone_iff_eq_none] at h
      rw [h.1, h.2.1] at htemps
      simp at htemps
  · obtain ⟨hp, hs⟩ := not_or.mp htemps
    replace hp := isNone_of_not hp
    replace hs := isNone_of_not hs
    have hfine : wp (pairCall {} r payload sidecar) (fun _ => Paired r payload bad)
        (fun _ bad' => AccessLuck.fine ≠ .fine ∧ Paired r payload bad bad') bad :=
      pairCall_fine rfl rfl rfl rfl rfl rfl rfl (fun _ => rfl) rfl hp hs
    obtain ⟨out, bad', hrun, hpaired⟩ := run_of_wp (wp_mono hfine (fun _ _ h => h)
      fun _ _ h => h.1 rfl)
    rw [hrun, hp, hs]
    cases hpay : bad r.payload with
    | none =>
      obtain ⟨hnew, hside⟩ := hpaired.new hpay
      exact iff_of_true ⟨⟨out, rfl⟩, hnew, hside⟩ ⟨rfl, rfl, .inl rfl⟩
    | some file =>
      obtain ⟨hold, hside⟩ := hpaired.old (by rw [hpay]; rfl)
      dsimp only
      rw [hold, hside, hpay]
      simp

theorem sole_retried (hs : sidecar.isMetadataOnly = true) :
    ((∃ out, (soleCall {} r sidecar).run bad =
        (.ok out, ((soleCall {} r sidecar).run bad).2)) ∧
      (((soleCall {} r sidecar).run bad).2 r.sidecar).any (·.isMetadataOnly) = true) ↔
    (bad r.sidecar.tmp).isNone = true ∧
      ((bad r.sidecar).isNone = true ∨ (bad r.sidecar).any (·.isMetadataOnly) = true) := by
  by_cases htemp : (bad r.sidecar.tmp).isSome = true
  · refine iff_of_false (fun h => ?_) fun h => ?_
    · obtain ⟨⟨out, hrun⟩, -⟩ := h
      exact wp_ok (soleCall_blocked htemp) hrun
    · rw [Option.isNone_iff_eq_none] at h
      rw [h.1] at htemp
      cases htemp
  · replace htemp := isNone_of_not htemp
    have hfine : wp (soleCall {} r sidecar) (fun _ => Solitary r sidecar bad)
        (fun _ bad' => AccessLuck.fine ≠ .fine ∧ Solitary r sidecar bad bad') bad :=
      soleCall_fine rfl rfl rfl rfl rfl htemp
    obtain ⟨out, bad', hrun, hsole⟩ := run_of_wp (wp_mono hfine (fun _ _ h => h)
      fun _ _ h => h.1 rfl)
    rw [hrun, htemp]
    cases hside : bad r.sidecar with
    | none =>
      dsimp only
      rw [hsole.new hside]
      exact iff_of_true ⟨⟨out, rfl⟩, hs⟩ ⟨rfl, .inl rfl⟩
    | some file =>
      dsimp only
      rw [hsole.old (by rw [hside]; rfl), hside]
      simp

/-- **A call that is not cut short** returns and leaves a complete artifact
exactly if nothing is in its way. -/
theorem retried_iff (r : Rejected) : ((∃ out, (r.quarantine {} note).run bad =
        (.ok out, ((r.quarantine {} note).run bad).2)) ∧
      BadDir.Complete ((r.quarantine {} note).run bad).2 r) ↔ bad.Ready r := by
  cases r with
  | bytes source body =>
    rw [quarantine_bytes]
    exact pair_retried
  | unread source len =>
    rw [quarantine_unread]
    exact sole_retried isMetadataOnly_sidecarJson

/-- **A sweep takes nothing of a complete artifact** exactly if it reads every
sidecar that says that it is complete. -/
theorem spares_iff {l : SweepLuck} : (∀ base, bad.CompleteAt base → ∀ part,
      startupSweep l bad { base, part } = bad { base, part }) ↔ l.Reads bad := by
  constructor
  · intro h base hmisread hpayload hside
    by_contra hleft
    have hkept := h base (.inr hside) .sidecar
    have htargets : l.targets bad { base, part := .sidecar } = true := by
      unfold SweepLuck.targets
      simp [hpayload, hmisread]
    unfold startupSweep at hkept
    rw [htargets, if_pos (by simp [hleft])] at hkept
    rw [← hkept] at hside
    cases hside
  · intro hreads base hcomplete part
    unfold startupSweep
    refine ite_eq_right_iff.mpr fun htarget => ?_
    rw [Bool.and_eq_true] at htarget
    obtain ⟨htarget, hleft⟩ := htarget
    unfold SweepLuck.targets at htarget
    cases part with
    | payload =>
      have hnone : bad { base, part := .sidecar } = none := by simpa using htarget
      rcases hcomplete with ⟨-, hside⟩ | hside <;> rw [hnone] at hside <;> cases hside
    | sidecar =>
      simp only [Bool.false_eq_true, if_false, Bool.and_eq_true, Bool.not_eq_true',
        Bool.and_eq_false_iff, Bool.not_eq_false', Option.isNone_iff_eq_none,
        List.contains_iff_mem] at htarget
      obtain ⟨hpayload, hmisread⟩ := htarget
      rcases hcomplete with ⟨hpair, -⟩ | hside
      · rw [hpayload] at hpair
        cases hpair
      · rcases hmisread with hother | hmisread
        · rw [hside] at hother
          cases hother
        · have hmem := hreads base hmisread hpayload hside
          simp [hmem] at hleft

end Step

/-! ### Runs -/

/-- Nothing of the name is left half done. -/
structure BadDir.Tidy (bad : BadDir) (base : String) : Prop where
  temps : ∀ part, bad { base, part, temp := true } = none
  whole : (bad { base, part := .payload }).isSome = true →
    (bad { base, part := .sidecar }).isSome = true

section Tidy

variable {bad : BadDir} {r : Rejected} {payload sidecar : BadFile} {note : BadNote}
  {l : QuarantineLuck}

theorem Paired.tidy {bad' : BadDir} (h : Paired r payload bad bad') (ht : bad.Tidy r.base) :
    bad'.Tidy r.base where
  temps part :=
    match part with
    | .payload => h.temps.1
    | .sidecar => h.temps.2
  whole hsome := by
    show (bad' r.sidecar).isSome = true
    cases hp : bad r.payload with
    | none => exact (h.new hp).2
    | some file =>
      have hold : (bad r.payload).isSome = true := by
        rw [hp]
        rfl
      rw [(h.old hold).2]
      exact ht.whole hold

theorem Solitary.tidy {bad' : BadDir} (h : Solitary r sidecar bad bad')
    (ht : bad.Tidy r.base) : bad'.Tidy r.base where
  temps part :=
    match part with
    | .payload => h.payload.2.trans (ht.temps .payload)
    | .sidecar => h.temp
  whole hsome := by
    show (bad' r.sidecar).isSome = true
    have hside : (bad r.sidecar).isSome = true := by
      refine ht.whole ?_
      show (bad r.payload).isSome = true
      rw [← h.payload.1]
      exact hsome
    rw [h.old hside]
    exact hside

/-- A call that stops before its first temporary changes nothing. -/
theorem pairCall_early (h : ¬(l.dir = .fine ∧ l.payload.opens = .fine)) :
    wp (pairCall l r payload sidecar) (fun _ bad' => bad' = bad) (fun _ bad' => bad' = bad)
      bad := by
  unfold pairCall writeTmp
  rw [wp_bind]
  refine wp_access (fun _ => rfl) fun hdir => ?_
  rw [wp_pure, wp_bind, wp_bind]
  exact wp_access (fun _ => rfl) fun hopens => absurd ⟨hdir, hopens⟩ h

theorem soleCall_early (h : ¬(l.dir = .fine ∧ l.sidecar.opens = .fine)) :
    wp (soleCall l r sidecar) (fun _ bad' => bad' = bad) (fun _ bad' => bad' = bad) bad := by
  unfold soleCall writeTmp
  rw [wp_bind]
  refine wp_access (fun _ => rfl) fun hdir => ?_
  rw [wp_pure, wp_bind, wp_bind]
  exact wp_access (fun _ => rfl) fun hopens => absurd ⟨hdir, hopens⟩ h

/-- What a call does not leave half done stays tidy. -/
theorem quarantine_tidy (ht : bad.Tidy r.base) (hl : ¬l.Leaves bad r) :
    ((r.quarantine l note).run bad).2.Tidy r.base := by
  refine run_snd (P := fun bad' : BadDir => bad'.Tidy r.base) ?_
  cases r with
  | bytes source body =>
    rw [quarantine_bytes]
    by_cases hearly : l.dir = .fine ∧ l.payload.opens = .fine
    · have hfine := not_not.mp (not_and.mp (not_and.mp hl hearly.1) hearly.2)
      obtain ⟨hpw, hso, hsw, hpl, hpr, hsl, hsr⟩ := hfine
      refine wp_mono (pairCall_fine hearly.1 hearly.2 hpw hso hsw hpl hpr hsl hsr
        (ht.temps .payload) (ht.temps .sidecar)) (fun _ _ h => h.tidy ht) fun _ _ h => h.2.tidy ht
    · refine wp_imp (pairCall_early hearly) ?_
      rintro _ rfl
      exact ht
  | unread source len =>
    rw [quarantine_unread]
    by_cases hearly : l.dir = .fine ∧ l.sidecar.opens = .fine
    · have hfine := not_not.mp (not_and.mp (not_and.mp hl hearly.1) hearly.2)
      obtain ⟨hsw, hsl, hsr⟩ := hfine
      refine wp_mono (soleCall_fine hearly.1 hearly.2 hsw hsl hsr (ht.temps .sidecar))
        (fun _ _ h => h.tidy ht) fun _ _ h => h.2.tidy ht
    · refine wp_imp (soleCall_early hearly) ?_
      rintro _ rfl
      exact ht

end Tidy

section Runs

variable {tr : List (System.Event BadDir BadStep)} {bad bad' : BadDir} {i : BadStep}
  {base : String}

/-- Every file was given by a call for its name. -/
def Given (tr : List (System.Event BadDir BadStep)) (bad : BadDir) : Prop :=
  ∀ n, n.temp = false → ∀ file, bad n = some file →
    ∃ e ∈ tr, ∃ r, rejection e = some r ∧ r.base = n.base ∧ r.Fits n file

/-- What is left half done was left by a call, and not cleared since. -/
def Explained (tr : List (System.Event BadDir BadStep)) (bad : BadDir) : Prop :=
  ∀ base, bad.Tidy base ∨
    ∃ a e b, tr = a ++ e :: b ∧ LeavesAt base e ∧ ∀ f ∈ b, ¬ClearsAt base f

theorem startupSweep_le (l : SweepLuck) (bad : BadDir) (n : BadName) :
    startupSweep l bad n = bad n ∨ startupSweep l bad n = none := by
  unfold startupSweep
  split
  · exact .inr rfl
  · exact .inl rfl

theorem given_step (h : Given tr bad) : Given (tr ++ [⟨bad, i, i.after bad⟩]) (i.after bad) := by
  intro n hn file hfile
  have hold : bad n = some file → ∃ e ∈ tr ++ [⟨bad, i, i.after bad⟩], ∃ r,
      rejection e = some r ∧ r.base = n.base ∧ r.Fits n file := by
    intro hfile
    obtain ⟨e, he, hr⟩ := h n hn file hfile
    exact ⟨e, List.mem_append_left _ he, hr⟩
  cases i with
  | call r note l =>
    have hadds : Adds r bad ((r.quarantine l note).run bad).2 := run_snd (quarantine_adds r)
    rcases hadds.files n hn with hsame | ⟨hnone, file', hnew, hfits⟩
    · exact hold (hsame ▸ hfile)
    · have hbase : n.base = r.base := by
        by_contra hne
        rw [hadds.other n hne, hnone] at hnew
        cases hnew
      obtain rfl : file' = file := Option.some.inj (hnew.symm.trans hfile)
      exact ⟨_, List.mem_append_right _ (List.mem_singleton_self _), r, rfl, hbase.symm, hfits⟩
  | sweep l =>
    rcases startupSweep_le l bad n with hsame | hnone
    · exact hold (hsame ▸ hfile)
    · exact absurd (hnone.symm.trans hfile) nofun

/-- A sweep leaves nothing half done that was whole. -/
theorem tidy_sweep {l : SweepLuck} (h : bad.Tidy base) : (startupSweep l bad).Tidy base where
  temps part := by
    rcases startupSweep_le l bad { base, part, temp := true } with hsame | hnone
    · rw [hsame]
      exact h.temps part
    · exact hnone
  whole hsome := by
    have hpayload : (bad { base, part := .payload }).isSome = true := by
      rcases startupSweep_le l bad { base, part := .payload } with hsame | hnone
      · rw [← hsame]
        exact hsome
      · rw [hnone] at hsome
        cases hsome
    have hkept : startupSweep l bad { base, part := .sidecar } =
        bad { base, part := .sidecar } := by
      refine if_neg ?_
      simp [SweepLuck.targets, Option.isSome_iff_ne_none.mp hpayload]
    rw [hkept]
    exact h.whole hpayload

/-- A sweep that can remove every file of a name leaves nothing of it half
done. -/
theorem tidy_cleared {l : SweepLuck} (hl : ∀ n ∈ l.left, n.base ≠ base) :
    (startupSweep l bad).Tidy base := by
  have hleft : ∀ part temp, l.left.contains { base, part, temp } = false := by
    intro part temp
    rw [← Bool.not_eq_true, List.contains_iff_mem]
    exact fun hmem => hl _ hmem rfl
  constructor
  · intro part
    exact if_pos (by rw [hleft]; rfl)
  · intro hsome
    have hside : (bad { base, part := .sidecar }).isNone = false := by
      by_contra hnone
      rw [Bool.not_eq_false] at hnone
      have hgone : startupSweep l bad { base, part := .payload } = none :=
        if_pos (by rw [hleft]; simp [SweepLuck.targets, hnone])
      rw [hgone] at hsome
      cases hsome
    have hpayload : (bad { base, part := .payload }).isSome = true := by
      rcases startupSweep_le l bad { base, part := .payload } with hsame | hnone
      · rw [← hsame]
        exact hsome
      · rw [hnone] at hsome
        cases hsome
    have hkept : startupSweep l bad { base, part := .sidecar } =
        bad { base, part := .sidecar } := by
      refine if_neg ?_
      simp [SweepLuck.targets, Option.isSome_iff_ne_none.mp hpayload]
    rw [hkept]
    simpa using hside

/-- What was left is still there after a step that clears nothing. -/
theorem left_snoc {e : System.Event BadDir BadStep}
    (h : ∃ a d b, tr = a ++ d :: b ∧ LeavesAt base d ∧ ∀ f ∈ b, ¬ClearsAt base f)
    (he : ¬ClearsAt base e) :
    ∃ a d b, tr ++ [e] = a ++ d :: b ∧ LeavesAt base d ∧ ∀ f ∈ b, ¬ClearsAt base f := by
  obtain ⟨a, d, b, rfl, hleaves, hb⟩ := h
  refine ⟨a, d, b ++ [e], by rw [List.append_assoc, List.cons_append], hleaves, fun f hf => ?_⟩
  rcases List.mem_append.mp hf with hf | hf
  · exact hb f hf
  · exact List.mem_singleton.mp hf ▸ he

theorem not_clearsAt_call {r : Rejected} {note : BadNote} {l : QuarantineLuck} :
    ¬ClearsAt base ⟨bad, .call r note l, bad'⟩ := id

theorem explained_step (h : Explained tr bad) :
    Explained (tr ++ [⟨bad, i, i.after bad⟩]) (i.after bad) := by
  intro base
  cases i with
  | call r note l =>
    generalize hbad' : (BadStep.call r note l).after bad = bad'
    by_cases hbase : r.base = base
    · subst hbase
      by_cases hleaves : l.Leaves bad r
      · exact .inr ⟨tr, _, [], rfl, ⟨rfl, hleaves⟩, fun f hf => absurd hf List.not_mem_nil⟩
      · rcases h r.base with ht | hleft
        · exact .inl (hbad' ▸ quarantine_tidy ht hleaves)
        · exact .inr (left_snoc hleft not_clearsAt_call)
    · have hadds : Adds r bad bad' := hbad' ▸ run_snd (quarantine_adds r)
      have hsame : ∀ part temp, bad' { base, part, temp } = bad { base, part, temp } :=
        fun part temp => hadds.other { base, part, temp } (Ne.symm hbase)
      rcases h base with ht | hleft
      · refine .inl ⟨fun part => (hsame part true).trans (ht.temps part), fun hsome => ?_⟩
        rw [hsame] at hsome ⊢
        exact ht.whole hsome
      · exact .inr (left_snoc hleft not_clearsAt_call)
  | sweep l =>
    by_cases hclears : ClearsAt base ⟨bad, .sweep l, startupSweep l bad⟩
    · exact .inl (tidy_cleared hclears)
    · rcases h base with ht | hleft
      · exact .inl (tidy_sweep ht)
      · exact .inr (left_snoc hleft hclears)

theorem explained_of_run (h : quarantining.Run (fun _ => none) tr bad) :
    Given tr bad ∧ Explained tr bad := by
  refine h.trace_induction (J := fun tr bad => Given tr bad ∧ Explained tr bad) ?_ ?_
  · exact ⟨nofun, fun base => .inl ⟨fun _ => rfl, nofun⟩⟩
  · rintro tr bad i _ - rfl ⟨hgiven, hexplained⟩
    exact ⟨given_step hgiven, explained_step hexplained⟩

theorem stepWhole_iff (hstep : bad' = i.after bad) :
    StepWhole ⟨bad, i, bad'⟩ ↔ Ready ⟨bad, i, bad'⟩ := by
  subst hstep
  cases i with
  | call r note l =>
    refine forall_congr' fun hl => ?_
    have hl : l = {} := hl
    subst hl
    exact retried_iff r
  | sweep l => exact spares_iff

/-- **Where every call that was cut short is followed by a sweep**, and no two
rejections have one name, nothing is in the way of a call. -/
theorem ready_of_tidied (h : quarantining.Run (fun _ => none) tr bad) (htidied : Tidied tr) :
    ∀ e ∈ tr, Ready e := by
  intro e he
  obtain ⟨a, c, rfl⟩ := List.append_of_mem he
  obtain ⟨hgiven, hexplained⟩ := explained_of_run h.split.1
  obtain ⟨bad, i, bad'⟩ := e
  cases i with
  | sweep l => exact htidied.read _ he
  | call r note l =>
    intro _
    have htidy : bad.Tidy r.base := by
      refine (hexplained r.base).resolve_right ?_
      rintro ⟨a', e', b, rfl, hleaves, hb⟩
      obtain ⟨f, hf, hclears⟩ := htidied.swept a' e' b _ c rfl r rfl hleaves
      exact hb f hf hclears
    have hgives : ∀ n : BadName, n.temp = false → n.base = r.base → ∀ file, bad n = some file →
        r.Fits n file := by
      intro n hn hbase file hfile
      obtain ⟨e', he', r', hr', hbase', hfits⟩ := hgiven n hn file hfile
      have hsame := htidied.apart e' (List.mem_append_left _ he') _ he r' r hr' rfl
        (hbase'.trans hbase)
      exact hsame ▸ hfits
    cases r with
    | bytes source body =>
      refine ⟨?_, ?_, ?_⟩
      · exact Option.isNone_iff_eq_none.mpr (htidy.temps .payload)
      · exact Option.isNone_iff_eq_none.mpr (htidy.temps .sidecar)
      · cases hp : bad (Rejected.bytes source body).payload with
        | none => exact .inl hp
        | some file =>
          have hfits : file = .payload body := hgives _ rfl rfl file hp
          refine .inr ⟨hfits ▸ hp, htidy.whole ?_⟩
          show (bad (Rejected.bytes source body).payload).isSome = true
          rw [hp]
          rfl
    | unread source len =>
      refine ⟨Option.isNone_iff_eq_none.mpr (htidy.temps .sidecar), ?_⟩
      show (bad (Rejected.unread source len).sidecar).isNone = true ∨
        (bad (Rejected.unread source len).sidecar).any (·.isMetadataOnly) = true
      cases hs : bad (Rejected.unread source len).sidecar with
      | none => exact .inl rfl
      | some file => exact .inr (hgives (Rejected.unread source len).sidecar rfl rfl file hs)

/-- **Quarantine artifacts are complete pairs**, over every run of calls, each
cut short or not, and of sweeps, exactly if a call that is not cut short
finds nothing in its way and a sweep reads every sidecar that says that it is
complete; and this is so where every call that has left something is
followed by a sweep. -/
theorem pairs_whole_iff (h : quarantining.Run (fun _ => none) tr bad) :
    (PairsWhole tr ↔ ∀ e ∈ tr, Ready e) ∧ (Tidied tr → PairsWhole tr) := by
  have hiff : PairsWhole tr ↔ ∀ e ∈ tr, Ready e := by
    refine forall₂_congr fun e he => ?_
    exact stepWhole_iff (h.mem he).1
  exact ⟨hiff, fun htidied => hiff.mpr (ready_of_tidied h htidied)⟩

end Runs

section Sample

/-- A reply that is no JSON. -/
def Rejected.sample : Rejected := .bytes "reply.json" [123]

def BadNote.sample : BadNote :=
  { reason := "invalid JSON", detail := .obj [], quarantinedAt := "" }

/-- The first call dies before the sidecar is linked; a sweep follows, and the
call is made again. -/
def BadStep.cut : List BadStep :=
  [.call .sample .sample { sidecar := { links := .dies } }, .sweep {}, .call .sample .sample {}]

theorem run_bad (is : List BadStep) :
    quarantining.Run (fun _ => none) (System.trace (fun bad i => i.after bad) (fun _ => none) is)
      (is.foldl (fun bad i => i.after bad) fun _ => none) :=
  System.run_trace (fun _ _ => rfl) _ is

theorem pairs_whole_cut :
    PairsWhole (System.trace (fun bad i => BadStep.after i bad) (fun _ => none) BadStep.cut) := by
  refine (pairs_whole_iff (run_bad BadStep.cut)).1.mpr fun e he => ?_
  simp only [BadStep.cut, System.trace, List.mem_cons, List.not_mem_nil, or_false] at he
  rcases he with rfl | rfl | rfl
  · exact fun hfine => absurd hfine (by decide)
  · exact fun base hbase => absurd hbase List.not_mem_nil
  · refine fun _ => ⟨by decide +kernel, by decide +kernel, .inl ?_⟩
    exact Option.isNone_iff_eq_none.mp (by decide +kernel)

/-- A write fails, and the temporary that is left is in the way of the call
that is made again. -/
theorem not_pairs_whole : ¬∀ tr bad, quarantining.Run (fun _ => none) tr bad → PairsWhole tr := by
  intro h
  have hwhole := h _ _ (run_bad [.call .sample .sample { payload := { writes := .fails } },
    .call .sample .sample {}])
  obtain ⟨⟨out, hrun⟩, -⟩ := hwhole _ (List.mem_cons_of_mem _ (List.mem_singleton_self _)) rfl
  have hfailed : ((Rejected.sample.quarantine {} .sample).run ((BadStep.call .sample .sample
      { payload := { writes := .fails } }).after fun _ => none)).1.toOption = none := by
    decide +kernel
  have hok := congrArg (fun p => p.1.toOption) hrun
  exact absurd (hok.symm.trans hfailed) nofun

end Sample

end Bellman

/-
Bellman/Retention.lean

What retention removes.

A retention pass clears what interrupted rotations have left (`LeftBehind`),
removes the archives that have aged out, and then, oldest first, as many of
the others as it takes until they fit the budget together with the current
file.  `shed` is that number.  A removal may fail, and then the pass ends
there.

Main results: what a pass has removed when it ends, however it ends
(`retain_removes`), and that nothing is removed while a rotation is under
way, in any run of the publishers (`retention_exact`).
-/
import Bellman.History
import Mathlib.Order.Bounds.Basic

namespace Bellman

open ProgramLogic Job Thread

/-! ### The shortest prefix -/

/-- How many of the sizes go, from the front, until the others fit the
budget together with what is not in the list. -/
def shed (budget other : Nat) : List Nat → Nat
  | [] => 0
  | s :: ss => if other + (s :: ss).sum ≤ budget then 0 else shed budget other ss + 1

theorem isLeast_shed (budget other : Nat) (ss : List Nat) :
    IsLeast {k | other + (ss.drop k).sum ≤ budget ∨ ss.drop k = []} (shed budget other ss) := by
  induction ss with
  | nil => exact ⟨.inr rfl, fun k _ => Nat.zero_le k⟩
  | cons s ss ih =>
    rw [shed]
    split
    · next hfit => exact ⟨.inl hfit, fun k _ => Nat.zero_le k⟩
    · next hfull =>
      refine ⟨ih.1, fun k hk => ?_⟩
      cases k with
      | zero =>
        rcases hk with hk | hk
        · exact (hfull hk).elim
        · cases hk
      | succ k => exact Nat.succ_le_succ (ih.2 hk)

/-! ### The archive directory -/

namespace Disk

/-- The files of the archive directory. -/
def dir (d : Disk) : List (String × File) :=
  d.entries.filterMap fun
    | ⟨.archive name, f⟩ => some (name, f)
    | _ => none

def archives (d : Disk) : List (String × File) := d.dir.filter fun a => isArchiveFile a.1

variable {d : Disk} {name : String} {f : File}

theorem mem_dir : (name, f) ∈ d.dir ↔ d.lookup (.archive name) = some f := by
  have hentry : d.lookup (.archive name) = some f ↔ ⟨.archive name, f⟩ ∈ d.entries :=
    AList.mem_lookup_iff
  rw [dir, List.mem_filterMap, hentry]
  constructor
  · rintro ⟨⟨p, g⟩, hp, heq⟩
    cases p with
    | archive n =>
      obtain ⟨rfl, rfl⟩ := Prod.mk.inj (Option.some.inj heq)
      exact hp
    | current | rotating => cases heq
  · exact fun h => ⟨_, h, rfl⟩

theorem nodup_dir (d : Disk) : (d.dir.map Prod.fst).Nodup := by
  have hkeys : d.entries.Pairwise fun e e' => e.1 ≠ e'.1 :=
    List.pairwise_map.mp d.keys_nodup
  rw [List.Nodup, List.pairwise_map, dir, List.pairwise_filterMap]
  refine hkeys.imp fun {e e'} hne a ha a' ha' => ?_
  obtain ⟨p, f⟩ := e
  obtain ⟨p', f'⟩ := e'
  cases p with
  | archive n =>
    cases p' with
    | archive n' =>
      cases ha
      cases ha'
      exact fun he => hne (congrArg LogPath.archive he)
    | current | rotating => cases ha'
  | current | rotating => cases ha

theorem kerase_eq_filter {l : List (Sigma fun _ : LogPath => File)} (h : l.NodupKeys)
    (p : LogPath) : l.kerase p = l.filter fun e => e.1 ≠ p := by
  induction l with
  | nil => rfl
  | cons e l ih =>
    rw [List.nodupKeys_cons] at h
    by_cases he : p = e.1
    · subst he
      rw [List.kerase_cons_eq rfl, List.filter_cons_of_neg (by simp), eq_comm,
        List.filter_eq_self]
      intro e' he'
      refine decide_eq_true fun heq => h.1 ?_
      rw [← heq]
      exact List.mem_map_of_mem he'
    · rw [List.kerase_cons_ne he, List.filter_cons_of_pos (by simpa using Ne.symm he), ih h.2]

theorem dir_erase (name : String) :
    dir (d.erase (.archive name)) = d.dir.filter fun a => a.1 ≠ name := by
  show ((d.entries.kerase (.archive name)).filterMap _) = _
  rw [kerase_eq_filter d.nodupKeys, dir, List.filter_filterMap, List.filterMap_filter]
  refine List.filterMap_congr fun e _ => ?_
  obtain ⟨p, f⟩ := e
  cases p with
  | archive n => by_cases h : n = name <;> simp [h, Option.filter]
  | current | rotating => simp

end Disk

namespace LogWorld

/-- These archives have been removed, one after the other. -/
def without (w : LogWorld) (names : List String) : LogWorld := names.foldl removeArchive w

variable {w : LogWorld} {names names' : List String} {p : LogPath}

theorem without_append : w.without (names ++ names') = (w.without names).without names' :=
  List.foldl_append

theorem lookup_without : (w.without names).disk.lookup p =
    if p ∈ names.map LogPath.archive then none else w.disk.lookup p := by
  induction names generalizing w with
  | nil => simp [without]
  | cons name names ih =>
    refine (ih (w := w.removeArchive name)).trans ?_
    by_cases hp : p = .archive name
    · subst hp
      simp [removeArchive]
    · simp [removeArchive, hp, AList.lookup_erase_ne hp]

theorem dir_without : (w.without names).disk.dir =
    w.disk.dir.filter fun a => a.1 ∉ names := by
  induction names generalizing w with
  | nil => simp [without]
  | cons name names ih =>
    refine (ih (w := w.removeArchive name)).trans ?_
    show (Disk.dir (w.disk.erase (.archive name))).filter _ = _
    rw [Disk.dir_erase, List.filter_filter]
    refine List.filter_congr fun a _ => ?_
    simp [Bool.and_comm]

theorem archives_without : (w.without names).disk.archives =
    w.disk.archives.filter fun a => a.1 ∉ names := by
  rw [Disk.archives, Disk.archives, dir_without, List.filter_filter, List.filter_filter]
  exact List.filter_congr fun a _ => Bool.and_comm _ _

theorem journal_without : (w.without names).journal = w.journal := by
  induction names generalizing w with
  | nil => rfl
  | cons name names ih => exact ih (w := w.removeArchive name)

end LogWorld

/-! ### The steps of a pass -/

/-- What an interrupted rotation has left: a temporary file, or an archive
that is there compressed as well. -/
def LeftBehind (d : Disk) (name : String) : Prop :=
  (".".toList.isPrefixOf name.toList && ".tmp".toList.isSuffixOf name.toList) = true ∨
    ("events-".toList.isPrefixOf name.toList && ".jsonl".toList.isSuffixOf name.toList) = true ∧
      (d.lookup (.archive (gzPathFor name))).isSome

/-- A publisher that is left alone. -/
def alone (x : LogCodec) : Setting LogCall LogWorld where
  answers e w b w' := ∃ luck : LogLuck, logAnswer x e luck w = (b, w')
  proper _ _ := True
  others _ _ := False
  inv _ := True
  inv_others _ _ := trivial

section Pass

variable {x : LogCodec} {w w' : LogWorld} {r r' : PublishReport}

theorem ran_removeArchive {name : String} {o : Except EventLogError Unit}
    (h : Ran (alone x) (request (.removeArchive name)) r w o r' w') :
    (o = .ok () ∧ w' = w.removeArchive name) ∨ ∃ e, o = .error e ∧ w' = w := by
  obtain ⟨-, luck, ha⟩ := ran_request_iff.mp h
  change w.moveFile luck _ _ = _ at ha
  unfold LogWorld.moveFile LogLuck.decide at ha
  split at ha
  · split at ha
    · obtain ⟨rfl, rfl⟩ := Prod.mk.inj ha
      exact .inl ⟨rfl, rfl⟩
    · obtain ⟨rfl, rfl⟩ := Prod.mk.inj ha
      exact .inr ⟨_, rfl, rfl⟩
  · obtain ⟨rfl, rfl⟩ := Prod.mk.inj ha
    exact .inr ⟨_, rfl, rfl⟩

theorem ran_tryRemove {name : String} {o : Except EventLogError (Except EventLogError Unit)}
    (h : Ran (alone x) (query (.removeArchive name)) r w o r' w') :
    w' = w.removeArchive name ∨ w' = w := by
  obtain ⟨a, -, -, luck, ha⟩ := ran_query_iff.mp h
  rcases w.moveFile_snd luck (.archive name) fun _ => w.removeArchive name with hw | ⟨-, -, hw⟩
  · exact .inr ((congrArg Prod.snd ha).symm.trans hw)
  · exact .inl ((congrArg Prod.snd ha).symm.trans hw)

theorem ran_fileExists {p : LogPath} {o : Except EventLogError Bool}
    (h : Ran (alone x) (fileExists p) r w o r' w') :
    o = .ok (w.disk.lookup p).isSome ∧ w' = w := by
  rcases ran_bind_iff.mp h with ⟨n, r₁, w₁, hn, hpure⟩ | ⟨e, he, -⟩
  · obtain ⟨a, ha, rfl, luck, hl⟩ := ran_query_iff.mp hn
    obtain ⟨rfl, rfl⟩ := Prod.mk.inj hl
    obtain ⟨rfl, rfl, rfl⟩ := ran_pure_iff.mp hpure
    rw [Except.ok.inj ha, Disk.bytes, Option.isSome_map, Option.isSome_map]
    exact ⟨rfl, rfl⟩
  · obtain ⟨a, ha, -⟩ := ran_query_iff.mp he
    cases ha

theorem LeftBehind.mono {names : List String} {name : String}
    (h : LeftBehind (w.without names).disk name) : LeftBehind w.disk name := by
  refine h.imp_right fun ⟨hname, hgz⟩ => ⟨hname, ?_⟩
  rw [LogWorld.lookup_without] at hgz
  split at hgz
  · cases hgz
  · exact hgz

/-- Only what is left behind is cleared. -/
theorem ran_cleanStrays {names : List String} {o : Except EventLogError Unit}
    (h : Ran (alone x) (cleanStrays names) r w o r' w') :
    ∃ strays, (∀ name ∈ strays, LeftBehind w.disk name) ∧ w' = w.without strays := by
  have htry : ∀ {name : String} {r w o r' w'}, Ran (alone x)
      (do let _ ← query (.removeArchive name); return () : LogM Unit) r w o r' w' →
        w' = w.removeArchive name ∨ w' = w := by
    intro name r w o r' w' h
    rcases ran_bind_iff.mp h with ⟨a, r₁, w₁, ha, hpure⟩ | ⟨e, he, -⟩
    · obtain ⟨-, -, rfl⟩ := ran_pure_iff.mp hpure
      exact ran_tryRemove ha
    · exact ran_tryRemove he
  have hone : ∀ {name : String} {r w o r' w'}, Ran (alone x) (do
      if ".".toList.isPrefixOf name.toList && ".tmp".toList.isSuffixOf name.toList then
        let _ ← query (.removeArchive name)
        return ()
      else if "events-".toList.isPrefixOf name.toList && ".jsonl".toList.isSuffixOf name.toList then
        if ← fileExists (.archive (gzPathFor name)) then
          let _ ← query (.removeArchive name)
          return ()
        else return ()
      else return () : LogM Unit) r w o r' w' →
        w' = w ∨ LeftBehind w.disk name ∧ w' = w.removeArchive name := by
    intro name r w o r' w' h
    split at h
    · next htmp => exact (htry h).symm.imp_right fun hw => ⟨.inl htmp, hw⟩
    · split at h
      · next hplain =>
        rcases ran_bind_iff.mp h with ⟨there, r₁, w₁, hgz, h⟩ | ⟨e, he, -⟩
        · obtain ⟨hok, rfl⟩ := ran_fileExists hgz
          obtain rfl := Except.ok.inj hok
          split at h
          · next hthere => exact (htry h).symm.imp_right fun hw => ⟨.inr ⟨hplain, hthere⟩, hw⟩
          · exact .inl (ran_pure_iff.mp h).2.2
        · exact .inl (ran_fileExists he).2
      · exact .inl (ran_pure_iff.mp h).2.2
  induction names generalizing r w with
  | nil =>
    obtain ⟨-, -, rfl⟩ := ran_pure_iff.mp h
    exact ⟨[], by simp, rfl⟩
  | cons name names ih =>
    rcases ran_bind_iff.mp h with ⟨a, r₁, w₁, h₁, hrest⟩ | ⟨e, he, -⟩
    · obtain ⟨strays, hstrays, rfl⟩ := ih hrest
      rcases hone h₁ with rfl | ⟨hname, rfl⟩
      · exact ⟨strays, hstrays, rfl⟩
      · refine ⟨name :: strays, fun n hn => ?_, rfl⟩
        rcases List.mem_cons.mp hn with rfl | hn
        · exact hname
        · exact @LeftBehind.mono _ [name] n (hstrays n hn)
    · rcases hone he with rfl | ⟨hname, rfl⟩
      · exact ⟨[], by simp, rfl⟩
      · exact ⟨[name], by simpa using hname, rfl⟩

/-- Removals, up to the first that fails. -/
theorem ran_removeAll {archives : List (String × File)} {o : Except EventLogError Unit}
    (h : Ran (alone x) (archives.forM fun a => request (.removeArchive a.1)) r w o r' w') :
    ∃ n ≤ archives.length, w' = w.without ((archives.take n).map Prod.fst) ∧
      (o = .ok () → n = archives.length) := by
  induction archives generalizing r w with
  | nil =>
    obtain ⟨-, -, rfl⟩ := ran_pure_iff.mp h
    exact ⟨0, Nat.le_refl 0, rfl, fun _ => rfl⟩
  | cons a archives ih =>
    rcases ran_bind_iff.mp h with ⟨u, r₁, w₁, h₁, hrest⟩ | ⟨e, he, rfl⟩
    · rcases ran_removeArchive h₁ with ⟨-, rfl⟩ | ⟨e, he, -⟩
      · obtain ⟨n, hn, rfl, hok⟩ := ih hrest
        exact ⟨n + 1, Nat.succ_le_succ hn, rfl, fun ho => congrArg (· + 1) (hok ho)⟩
      · cases he
    · rcases ran_removeArchive he with ⟨hok, -⟩ | ⟨e', -, rfl⟩
      · cases hok
      · exact ⟨0, Nat.zero_le _, rfl, fun ho => by cases ho⟩

/-- The sizes of archives. -/
def sizes (archives : List (String × File)) : List Nat := archives.map fun a => a.2.bytes.length

theorem ran_enforceBudget {cfg : EventLogConfig} {archives : List (String × File)} {other : Nat}
    {report : RetainReport} {o : Except EventLogError RetainReport}
    (h : Ran (alone x) (enforceBudget cfg archives (other + (sizes archives).sum) report) r w o r'
      w') :
    ∃ n ≤ shed cfg.budgetBytes other (sizes archives),
      w' = w.without ((archives.take n).map Prod.fst) ∧
      ∀ out, o = .ok out → n = shed cfg.budgetBytes other (sizes archives) ∧
        out = { aged := report.aged
                budget := report.budget ++ (archives.take n).map Prod.fst
                bytesRemoved := report.bytesRemoved + (sizes (archives.take n)).sum } := by
  induction archives generalizing r w report with
  | nil =>
    obtain ⟨rfl, -, rfl⟩ := ran_pure_iff.mp h
    refine ⟨0, Nat.le_refl 0, rfl, fun out ho => ⟨rfl, ?_⟩⟩
    obtain rfl := Except.ok.inj ho
    simp [sizes]
  | cons a archives ih =>
    obtain ⟨name, f⟩ := a
    rw [enforceBudget] at h
    have hsum : (sizes ((name, f) :: archives)).sum = f.bytes.length + (sizes archives).sum := by
      simp [sizes]
    split at h
    · next hfit =>
      obtain ⟨rfl, -, rfl⟩ := ran_pure_iff.mp h
      have hzero : shed cfg.budgetBytes other (sizes ((name, f) :: archives)) = 0 := if_pos hfit
      refine ⟨0, Nat.zero_le _, rfl, fun out ho => ⟨hzero.symm, ?_⟩⟩
      obtain rfl := Except.ok.inj ho
      simp [sizes]
    · next hfull =>
      have hsucc : shed cfg.budgetBytes other (sizes ((name, f) :: archives)) =
          shed cfg.budgetBytes other (sizes archives) + 1 := if_neg hfull
      rw [hsucc]
      rcases ran_bind_iff.mp h with ⟨u, r₁, w₁, h₁, hrest⟩ | ⟨e, he, rfl⟩
      · rcases ran_removeArchive h₁ with ⟨-, rfl⟩ | ⟨e, he, -⟩
        · have htotal : other + (sizes ((name, f) :: archives)).sum - f.bytes.length =
              other + (sizes archives).sum := by omega
          rw [htotal] at hrest
          obtain ⟨n, hn, rfl, hok⟩ := ih hrest
          refine ⟨n + 1, Nat.succ_le_succ hn, rfl, fun out ho => ?_⟩
          obtain ⟨rfl, rfl⟩ := hok out ho
          refine ⟨rfl, ?_⟩
          simp [sizes, Nat.add_assoc]
        · cases he
      · rcases ran_removeArchive he with ⟨hok, -⟩ | ⟨e', -, rfl⟩
        · cases hok
        · exact ⟨0, Nat.zero_le _, rfl, fun out ho => by cases ho⟩

theorem ran_readDir {o : Except EventLogError (List (String × File))}
    (h : Ran (alone x) (request .readDir) r w o r' w') :
    w' = w ∧ ∀ entries, o = .ok entries → entries = w.disk.dir := by
  obtain ⟨-, luck, ha⟩ := ran_request_iff.mp h
  simp only [logAnswer] at ha
  split at ha
  · obtain ⟨rfl, rfl⟩ := Prod.mk.inj ha
    exact ⟨rfl, fun entries he => (Except.ok.inj he).symm⟩
  · obtain ⟨rfl, rfl⟩ := Prod.mk.inj ha
    exact ⟨rfl, fun entries he => by cases he⟩

theorem ran_now {o : Except EventLogError Int} (h : Ran (alone x) (query .now) r w o r' w') :
    w' = w := by
  obtain ⟨a, -, -, luck, ha⟩ := ran_query_iff.mp h
  exact (Prod.mk.inj ha).2.symm

/-- The length of the current file. -/
def Disk.currentLen (d : Disk) : Nat := ((d.bytes .current).map List.length).getD 0

theorem ran_currentLen {o : Except EventLogError Nat} (h : Ran (alone x) currentLen r w o r' w') :
    o = .ok w.disk.currentLen ∧ w' = w := by
  rcases ran_bind_iff.mp h with ⟨n, r₁, w₁, hn, hpure⟩ | ⟨e, he, -⟩
  · obtain ⟨a, ha, rfl, luck, hl⟩ := ran_query_iff.mp hn
    obtain ⟨rfl, rfl⟩ := Prod.mk.inj hl
    obtain ⟨rfl, rfl, rfl⟩ := ran_pure_iff.mp hpure
    rw [Except.ok.inj ha]
    exact ⟨rfl, rfl⟩
  · obtain ⟨a, ha, -⟩ := ran_query_iff.mp he
    cases ha

end Pass

/-! ### A pass -/

/-- The archives that have aged out. -/
def agedOut (cutoff : Int) (archives : List (String × File)) : List (String × File) :=
  archives.filter fun a => a.2.mtime < cutoff

/-- The others, oldest first. -/
def inWindow (cutoff : Int) (archives : List (String × File)) : List (String × File) :=
  oldestFirst (archives.filter fun a => ¬a.2.mtime < cutoff)

/-- What a pass has removed when it ends: of what is left behind some, of the
archives that have aged out the first `n`, and of the others, oldest first,
the first `k`; all that there is to remove when it succeeds. -/
def Retained (cfg : EventLogConfig) (w : LogWorld) (o : Except EventLogError RetainReport)
    (w' : LogWorld) : Prop :=
  ∃ (now : Int) (strays : List String) (n k need : Nat),
    (∀ name ∈ strays, LeftBehind w.disk name) ∧
    let archives := (w.without strays).disk.archives
    let aged := agedOut (retentionCutoff cfg now) archives
    let rest := inWindow (retentionCutoff cfg now) archives
    IsLeast {k | w.disk.currentLen + (sizes (rest.drop k)).sum ≤ cfg.budgetBytes ∨
      rest.drop k = []} need ∧
    w' = w.without (strays ++ (aged.take n).map Prod.fst ++ (rest.take k).map Prod.fst) ∧
    n ≤ aged.length ∧ k ≤ need ∧ (0 < k → n = aged.length) ∧
    ∀ report, o = .ok report → n = aged.length ∧ k = need ∧
      report.aged = aged.map Prod.fst ∧ report.budget = (rest.take k).map Prod.fst ∧
      report.bytesRemoved = (sizes aged).sum + (sizes (rest.take k)).sum

section Pass

variable {x : LogCodec} {cfg : EventLogConfig} {w w' : LogWorld} {r r' : PublishReport}

/-- An archive is known by its name. -/
theorem mem_names_agedOut {cutoff : Int} {a : String × File} (ha : a ∈ w.disk.archives) :
    a.1 ∈ (agedOut cutoff w.disk.archives).map Prod.fst ↔ a.2.mtime < cutoff := by
  have hlook : ∀ b ∈ w.disk.archives, w.disk.lookup (.archive b.1) = some b.2 :=
    fun b hb => Disk.mem_dir.mp (List.mem_of_mem_filter hb)
  constructor
  · intro h
    obtain ⟨b, hb, hname⟩ := List.mem_map.mp h
    obtain ⟨hb, hold⟩ := List.mem_filter.mp hb
    have hfile : b.2 = a.2 := by
      have hb' := hlook b hb
      rw [hname, hlook a ha] at hb'
      exact (Option.some.inj hb').symm
    rw [← hfile]
    exact of_decide_eq_true hold
  · intro hold
    exact List.mem_map_of_mem (List.mem_filter.mpr ⟨ha, decide_eq_true hold⟩)

theorem archives_without_agedOut {cutoff : Int} :
    (w.without ((agedOut cutoff w.disk.archives).map Prod.fst)).disk.archives =
      w.disk.archives.filter fun a => ¬a.2.mtime < cutoff := by
  rw [LogWorld.archives_without]
  refine List.filter_congr fun a ha => ?_
  rw [decide_eq_decide, not_iff_not]
  exact mem_names_agedOut ha

theorem currentLen_without (names : List String) :
    (w.without names).disk.currentLen = w.disk.currentLen := by
  rw [Disk.currentLen, Disk.currentLen, Disk.bytes, Disk.bytes, LogWorld.lookup_without,
    if_neg (by simp)]

/-- The least number that has to go is found. -/
theorem isLeast_need (budget other : Nat) (archives : List (String × File)) :
    IsLeast {k | other + (sizes (archives.drop k)).sum ≤ budget ∨ archives.drop k = []}
      (shed budget other (sizes archives)) := by
  have hset : {k | other + (sizes (archives.drop k)).sum ≤ budget ∨ archives.drop k = []} =
      {k | other + ((sizes archives).drop k).sum ≤ budget ∨ (sizes archives).drop k = []} := by
    ext k
    simp [sizes, List.map_drop]
  rw [hset]
  exact isLeast_shed budget other (sizes archives)

theorem sum_sizes_oldestFirst (archives : List (String × File)) :
    (sizes archives).sum = (sizes (oldestFirst archives)).sum :=
  ((List.perm_insertionSort _ archives).map _).sum_nat.symm

/-- A pass that ends with a failure before it comes to the budget. -/
theorem retained_of_error (now : Int) {strays : List String} {n : Nat} (e : EventLogError)
    (hstrays : ∀ name ∈ strays, LeftBehind w.disk name)
    (hn : n ≤ (agedOut (retentionCutoff cfg now) (w.without strays).disk.archives).length)
    (hw : w' = (w.without strays).without
      (((agedOut (retentionCutoff cfg now) (w.without strays).disk.archives).take n).map
        Prod.fst)) :
    Retained cfg w (.error e) w' := by
  refine ⟨now, strays, n, 0, _, hstrays, isLeast_need _ _ _, ?_, hn, Nat.zero_le _,
    fun h => (Nat.lt_irrefl 0 h).elim, fun report h => by cases h⟩
  rw [hw, List.take_zero, List.map_nil, List.append_nil, LogWorld.without_append]

/-- **What a pass has removed**, however it ends. -/
theorem retain_removes {o : Except EventLogError RetainReport}
    (h : Ran (alone x) (retain cfg) r w o r' w') : Retained cfg w o w' := by
  rcases ran_bind_iff.mp h with ⟨entries, r₁, w₁, hdir, h₁⟩ | ⟨e, hdir, rfl⟩
  swap
  · obtain ⟨rfl, -⟩ := ran_readDir hdir
    exact @retained_of_error _ _ _ 0 [] 0 e (by simp) (Nat.zero_le _) rfl
  obtain ⟨hw, -⟩ := ran_readDir hdir
  subst hw
  rcases ran_bind_iff.mp h₁ with ⟨_, r₂, w₂, hclean, h₂⟩ | ⟨e, hclean, rfl⟩
  swap
  · obtain ⟨strays, hstrays, rfl⟩ := ran_cleanStrays hclean
    exact retained_of_error 0 (n := 0) e hstrays (Nat.zero_le _) rfl
  obtain ⟨strays, hstrays, hw⟩ := ran_cleanStrays hclean
  subst hw
  rcases ran_bind_iff.mp h₂ with ⟨now, r₃, w₃, hnow, h₃⟩ | ⟨e, hnow, rfl⟩
  swap
  · obtain rfl := ran_now hnow
    exact retained_of_error 0 (n := 0) e hstrays (Nat.zero_le _) rfl
  have hw := ran_now hnow
  subst hw
  rcases ran_bind_iff.mp h₃ with ⟨entries', r₄, w₄, hdir', h₄⟩ | ⟨e, hdir', rfl⟩
  swap
  · obtain ⟨rfl, -⟩ := ran_readDir hdir'
    exact retained_of_error now (n := 0) e hstrays (Nat.zero_le _) rfl
  obtain ⟨hw, hentries⟩ := ran_readDir hdir'
  subst hw
  obtain rfl := hentries _ rfl
  -- The archives that have aged out are found among all files.
  have haged : ((w₁.without strays).disk.dir.filter fun a =>
      isArchiveFile a.1 ∧ a.2.mtime < retentionCutoff cfg now) =
        agedOut (retentionCutoff cfg now) (w₁.without strays).disk.archives := by
    rw [agedOut, Disk.archives, List.filter_filter]
    refine List.filter_congr fun a _ => ?_
    simp [Bool.and_comm]
  rw [haged] at h₄
  rcases ran_bind_iff.mp h₄ with ⟨_, r₅, w₅, hall, h₅⟩ | ⟨e, hall, rfl⟩
  swap
  · obtain ⟨n, hn, hw, -⟩ := ran_removeAll hall
    exact retained_of_error now e hstrays hn hw
  obtain ⟨n, -, hw, hok⟩ := ran_removeAll hall
  subst hw
  obtain rfl := hok rfl
  rw [List.take_length] at h₅
  rcases ran_bind_iff.mp h₅ with ⟨entries, r₆, w₆, hdir₆, h₆⟩ | ⟨e, hdir₆, rfl⟩
  swap
  · obtain ⟨rfl, -⟩ := ran_readDir hdir₆
    exact retained_of_error now e hstrays (Nat.le_refl _) (by rw [List.take_length])
  obtain ⟨hw, hentries⟩ := ran_readDir hdir₆
  subst hw
  obtain rfl := hentries _ rfl
  rcases ran_bind_iff.mp h₆ with ⟨len, r₇, w₇, hlen, h₇⟩ | ⟨e, hlen, rfl⟩
  swap
  · cases (ran_currentLen hlen).1
  obtain ⟨hlen', hw⟩ := ran_currentLen hlen
  subst hw
  obtain rfl := Except.ok.inj hlen'
  have hrest : (((w₁.without strays).without ((agedOut (retentionCutoff cfg now)
      (w₁.without strays).disk.archives).map Prod.fst)).disk.dir.filter fun a =>
        isArchiveFile a.1) =
      (w₁.without strays).disk.archives.filter fun a => ¬a.2.mtime < retentionCutoff cfg now :=
    archives_without_agedOut
  rw [hrest, currentLen_without, currentLen_without, ← sizes, sum_sizes_oldestFirst,
    Nat.add_comm] at h₇
  obtain ⟨k, hk, hw, hout⟩ := ran_enforceBudget h₇
  refine ⟨now, strays, _, k, _, hstrays, isLeast_need _ _ _, ?_, Nat.le_refl _, hk,
    fun _ => rfl, fun report ho => ?_⟩
  · rw [hw, List.take_length, LogWorld.without_append, LogWorld.without_append]
    rfl
  · obtain ⟨hneed, rfl⟩ := hout report ho
    exact ⟨rfl, hneed, rfl, List.nil_append _, rfl⟩

/-- Without the first of them, those behind are left. -/
theorem filter_not_mem_take {archives : List (String × File)}
    (h : (archives.map Prod.fst).Nodup) (k : Nat) :
    (archives.filter fun a => a.1 ∉ (archives.take k).map Prod.fst) = archives.drop k := by
  conv => lhs; arg 2; rw [← List.take_append_drop k archives]
  have hdisj : ∀ a ∈ archives.drop k, a.1 ∉ (archives.take k).map Prod.fst := by
    intro a ha hmem
    rw [← List.take_append_drop k archives, List.map_append] at h
    exact List.disjoint_of_nodup_append h hmem (List.mem_map_of_mem ha)
  rw [List.filter_append, List.filter_eq_nil_iff.mpr, List.filter_eq_self.mpr, List.nil_append]
  · exact fun a ha => decide_eq_true (hdisj a ha)
  · exact fun a ha hnot => of_decide_eq_true hnot (List.mem_map_of_mem ha)

/-- What is left fits the budget, or nothing is left. -/
def Fits (cfg : EventLogConfig) (d : Disk) : Prop :=
  d.currentLen + (sizes d.archives).sum ≤ cfg.budgetBytes ∨ d.archives = []

/-- A pass that succeeds has left the others. -/
theorem Retained.archives_perm {report : RetainReport} (h : Retained cfg w (.ok report) w') :
    ∃ rest : List (String × File), ∃ need, w'.disk.archives.Perm (rest.drop need) ∧
      (w.disk.currentLen + (sizes (rest.drop need)).sum ≤ cfg.budgetBytes ∨
        rest.drop need = []) := by
  obtain ⟨now, strays, n, k, need, -, hleast, hw, -, -, -, hok⟩ := h
  obtain ⟨rfl, rfl, -⟩ := hok report rfl
  refine ⟨_, _, ?_, hleast.1⟩
  rw [List.take_length, LogWorld.without_append, LogWorld.without_append] at hw
  generalize w.without strays = w₁ at hw ⊢
  have hsort : (inWindow (retentionCutoff cfg now) w₁.disk.archives).Perm
      (w₁.disk.archives.filter fun a => ¬a.2.mtime < retentionCutoff cfg now) :=
    List.perm_insertionSort _ _
  have hnodup : ((inWindow (retentionCutoff cfg now) w₁.disk.archives).map Prod.fst).Nodup := by
    refine (hsort.map Prod.fst).nodup_iff.mpr ?_
    exact (Disk.nodup_dir w₁.disk).sublist
      ((List.filter_sublist.trans List.filter_sublist).map Prod.fst)
  rw [hw, LogWorld.archives_without, archives_without_agedOut, ← filter_not_mem_take hnodup]
  exact hsort.symm.filter _

/-- The live files stay as they are. -/
theorem Retained.live {o : Except EventLogError RetainReport} (h : Retained cfg w o w')
    {p : LogPath} (hp : ∀ name, p ≠ .archive name) : w'.disk.lookup p = w.disk.lookup p := by
  obtain ⟨now, strays, n, k, need, -, -, hw, -⟩ := h
  rw [hw, LogWorld.lookup_without, if_neg]
  intro hmem
  obtain ⟨name, -, hname⟩ := List.mem_map.mp hmem
  exact hp name hname.symm

theorem Retained.fits {report : RetainReport} (h : Retained cfg w (.ok report) w') :
    Fits cfg w'.disk := by
  obtain ⟨rest, need, hperm, hfit⟩ := h.archives_perm
  have hlen : w'.disk.currentLen = w.disk.currentLen := by
    rw [Disk.currentLen, Disk.currentLen, Disk.bytes, Disk.bytes, h.live (by simp)]
  have hsum : (sizes w'.disk.archives).sum = (sizes (rest.drop need)).sum :=
    (hperm.map _).sum_nat
  refine hfit.imp (fun hle => ?_) fun hnil => ?_
  · rw [hlen, hsum]
    exact hle
  · rw [hnil] at hperm
    exact hperm.eq_nil

end Pass

/-! ### Rotations and retention -/

section Runs

variable {x : LogCodec} (hx : x.Lawful) {cfg : EventLogConfig}

/-- An archive is removed when no rotation is under way, and nothing else is
touched by it. -/
def RemovesAtRest (e : System.Event LogState LogStep) : Prop :=
  ∀ luck name k, e.label = .call luck → e.pre.leader = .call (.removeArchive name) k →
    e.pre.world.journal = none ∧ e.pre.world.disk.lookup .rotating = none ∧
      ∀ p ≠ .archive name, e.post.world.disk.lookup p = e.pre.world.disk.lookup p

include hx

theorem removesAtRest_of_run {s₀ s : LogState} {tr : List (System.Event LogState LogStep)}
    (hinit : (logSystem x cfg).init s₀) (hrun : (logSystem x cfg).Run s₀ tr s) :
    ∀ e ∈ tr, RemovesAtRest e := by
  obtain ⟨hidle, -, hjournal, hdisk, -, -⟩ := hinit
  have hrest : JournalOk x s₀.world := by
    refine ⟨fun _ => ?_, fun j hj => ?_⟩
    · rw [hdisk]
      rfl
    · rw [hjournal] at hj
      cases hj
  have h0 : (journalUpkeep hx).inv s₀.world ∧
      s₀.leader.Sound (journalUpkeep hx).setting (fun _ _ => True) s₀.world := by
    refine ⟨hrest, ?_⟩
    rw [hidle]
    trivial
  intro e he luck name k hlabel hleader
  obtain ⟨hstep, ⟨hok, hsound⟩, -⟩ := hrun.invariant_steps (G := fun _ => True)
    (I := fun s => (journalUpkeep hx).inv s.world ∧
      s.leader.Sound (journalUpkeep hx).setting (fun _ _ => True) s.world)
    (fun _ _ => trivial) h0
    (fun s i t hstep _ hI => Upkeep.step (journalRows hx) hstep False.elim hI.1 hI.2) e he
  rw [hleader] at hsound
  have hproper : (journalUpkeep hx).proper (.removeArchive name) e.pre.world := hsound.proper
  have hnone : e.pre.world.journal = none := Upkeep.proper_of hproper
  refine ⟨hnone, hok.free hnone, fun p hp => ?_⟩
  have hnext : logNext x cfg e.pre e.label = some e.post := hstep
  rw [hlabel, logNext, hleader] at hnext
  rw [← Option.some.inj hnext]
  rcases e.pre.world.moveFile_snd luck (.archive name) fun _ => e.pre.world.removeArchive name with
    hw | ⟨f, -, hw⟩
  · exact congrArg (fun w : LogWorld => w.disk.lookup p) hw
  · exact (congrArg (fun w : LogWorld => w.disk.lookup p) hw).trans (AList.lookup_erase_ne hp)

/-- **Retention removes what has aged out, and of the other archives the
shortest part, oldest first, that lets the rest fit**; it leaves the live
files, and in no run does it touch anything while a rotation is under way. -/
theorem retention_exact (cfg : EventLogConfig) :
    (∀ {w w' : LogWorld} {r r' : PublishReport} {o : Except EventLogError RetainReport},
      Ran (alone x) (retain cfg) r w o r' w' →
        Retained cfg w o w' ∧ (∀ report, o = .ok report → Fits cfg w'.disk) ∧
          ∀ p, (∀ name, p ≠ .archive name) → w'.disk.lookup p = w.disk.lookup p) ∧
    ∀ {s₀ s : LogState} {tr : List (System.Event LogState LogStep)},
      (logSystem x cfg).init s₀ → (logSystem x cfg).Run s₀ tr s → ∀ e ∈ tr, RemovesAtRest e := by
  refine ⟨fun hran => ?_, removesAtRest_of_run hx⟩
  have hret := retain_removes hran
  refine ⟨hret, fun report ho => ?_, fun p hp => hret.live hp⟩
  subst ho
  exact hret.fits

end Runs

/-! ### Samples -/

section Sample

/-- Archives of one byte each, of these ages. -/
def LogWorld.aged (mtimes : List (String × Int)) : LogWorld where
  store := {}
  disk := mtimes.foldl (fun d a => d.put (.archive a.1) [0] a.2) ∅

/-- A pass without a fault, at this time. -/
def retainAt (cfg : EventLogConfig) (now : Int) (w : LogWorld) :
    (Except EventLogError RetainReport × PublishReport) × LogWorld :=
  ((retain cfg).run.run {}).run (fun e w => logAnswer .numbered e { clock := now } w) w

theorem ran_retainAt (cfg : EventLogConfig) (now : Int) (w : LogWorld) :
    Ran (alone .numbered) (retain cfg) {} w (retainAt cfg now w).1.1 (retainAt cfg now w).1.2
      (retainAt cfg now w).2 :=
  @ends_run LogCall LogWorld (alone .numbered) _
    (fun e w => logAnswer .numbered e { clock := now } w) (fun _ _ => ⟨{ clock := now }, rfl⟩) _ w

/-- A pass as it would be if it went by the sizes of the archives alone. -/
def RetainsPrefix (cfg : EventLogConfig) (w w' : LogWorld) : Prop :=
  ((sizes w'.disk.archives).sum ≤ cfg.budgetBytes ∨ w'.disk.archives = []) ∧
    (∃ k, IsLeast {k | (sizes ((oldestFirst w.disk.archives).drop k)).sum ≤ cfg.budgetBytes ∨
        (oldestFirst w.disk.archives).drop k = []} k ∧
      ∀ a ∈ w.disk.archives,
        a ∉ w'.disk.archives ↔ a ∈ (oldestFirst w.disk.archives).take k) ∧
    w'.disk.lookup .current = w.disk.lookup .current ∧
    w'.disk.lookup .rotating = w.disk.lookup .rotating

/-- A day, and room for two bytes. -/
def EventLogConfig.tight : EventLogConfig where
  logsDir := "logs"
  retention := 86400000000000
  maxCurrentBytes := 1048576
  budgetBytes := 2

/-- Three archives of the last hours. -/
def LogWorld.recent : LogWorld :=
  .aged [("events-2026-W10.jsonl.gz", 300), ("events-2026-W09.jsonl.gz", 200),
    ("events-2026-W08.jsonl.gz", 100)]

/-- The oldest of them goes. -/
example : (retainAt .tight 400 .recent).2.disk.archives.map Prod.fst =
    ["events-2026-W09.jsonl.gz", "events-2026-W10.jsonl.gz"] := by decide +kernel

/-- A cycle, then a prune. -/
def LogStep.pruning : List LogStep :=
  .event :: LogStep.smoothCycle ++ .elect .prune :: List.replicate 40 (.call { clock := 7 })

theorem retention_exact_recent :
    (Retained .tight .recent (retainAt .tight 400 .recent).1.1 (retainAt .tight 400 .recent).2 ∧
      Fits .tight (retainAt .tight 400 .recent).2.disk) ∧
    ∀ e ∈ System.traceEnabled (logNext .numbered .tight) LogState.start LogStep.pruning,
      RemovesAtRest e := by
  have h := retention_exact LogCodec.numbered_lawful .tight
  have hret := h.1 (ran_retainAt .tight 400 .recent)
  exact ⟨⟨hret.1, hret.2.1 _ rfl⟩,
    h.2 (LogState.start_init _ _) (run_after .numbered .tight LogStep.pruning)⟩

/-- An old archive, with room for it. -/
def LogWorld.outdated : LogWorld := .aged [("events-2026-W01.jsonl", 0)]

/-- **An archive that has aged out is removed**, although it would fit. -/
theorem retains_not_prefix :
    ¬∀ (x : LogCodec) (cfg : EventLogConfig) (w w' : LogWorld) (r r' : PublishReport)
      (report : RetainReport), x.Lawful →
      Ran (alone x) (retain cfg) r w (.ok report) r' w' → RetainsPrefix cfg w w' := by
  intro h
  obtain ⟨report, hreport⟩ : ∃ report,
      (retainAt .tight 100000000000000 .outdated).1.1 = .ok report := ⟨_, rfl⟩
  have hran := ran_retainAt .tight 100000000000000 .outdated
  rw [hreport] at hran
  obtain ⟨-, ⟨k, hleast, hremoved⟩, -⟩ := h _ _ _ _ _ _ _ LogCodec.numbered_lawful hran
  have hzero : k = 0 := Nat.le_zero.mp (hleast.2 (.inl (by decide +kernel)))
  have hthere : ("events-2026-W01.jsonl", (⟨[0], 0⟩ : File)) ∈
      LogWorld.outdated.disk.archives := by decide +kernel
  have hgone : ("events-2026-W01.jsonl", (⟨[0], 0⟩ : File)) ∉
      (retainAt .tight 100000000000000 .outdated).2.disk.archives := by decide +kernel
  have hfirst := (hremoved _ hthere).mp hgone
  rw [hzero, List.take_zero] at hfirst
  cases hfirst

end Sample

end Bellman

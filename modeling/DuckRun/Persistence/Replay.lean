import DuckRun.Persistence.JobRunStore
import DuckRun.Lib.Machine
import DuckRun.Lib.Counting
/-!
# The boot replay among live processes

The replay picks its rows by their state alone. It touches only interrupted
runs in the boots where no run it picked belongs to a process that is alive
(`Abandoned`); then every live process finds its runs as it stored them.
-/

namespace DuckRun.Persistence

open DuckRun.Lib DuckRun.Runtime

/-- Every row that a replay saves belongs to no live process. -/
def Abandoned (s : Database) (e : DatabaseEvent) : Prop :=
  ∀ p now stuck, e = .commit p now → s.processes[p]? = some (.replaying stuck) →
    ∀ r ∈ stuck, ∀ q, s.executor r.id = some q → ¬ s.alive q

structure OwnInv (s : Database) : Prop where
  ids : (s.rows.map JobRunRecord.id).Nodup
  known : ∀ id p, s.executor id = some p → p < s.processes.length
  /-- The row of a live process's run is what the process stored last. -/
  kept : ∀ id p, s.executor id = some p → s.alive p → ∃ r, s.stored id = some r ∧ r ∈ s.rows ∧ r.id = id
  /-- An update on its way was loaded from that row. -/
  loaded : ∀ u ∈ s.updates, s.executor u.current.id = some u.process ∧
    (s.alive u.process → u.loaded = s.stored u.current.id)
  one : (s.updates.map fun u => u.current.id).Nodup

/-! ## Saving -/

theorem written_self {β : Type} [DecidableEq β] (original current : β) : written original current original = current := by
  unfold written
  split
  · assumption
  · rfl

/-- Nobody else wrote the row since it was loaded: it becomes the tracked copy. -/
theorem merge_self {original current : JobRunRecord} (h : original.id = current.id) :
    original.merge current original = current := by
  cases original
  cases current
  cases h
  simp only [JobRunRecord.merge, written_self]

theorem merge_id (original current row : JobRunRecord) : (original.merge current row).id = row.id := rfl

/-- A row that the replay has not read is not written. -/
theorem mem_saveReplay {now : Instant} {stuck rows : List JobRunRecord} {row : JobRunRecord} (h : row ∈ rows)
    (hne : ∀ r ∈ stuck, r.id ≠ row.id) : row ∈ saveReplay now stuck rows := by
  refine List.mem_map.2 ⟨row, h, ?_⟩
  have hnone : stuck.find? (fun r => decide (r.id = row.id)) = none := by
    rw [List.find?_eq_none]
    intro r hr
    simpa using hne r hr
  rw [hnone]
  rfl

theorem saveReplay_ids (now : Instant) (stuck rows : List JobRunRecord) :
    (saveReplay now stuck rows).map JobRunRecord.id = rows.map JobRunRecord.id := by
  unfold saveReplay
  rw [List.map_map]
  refine List.map_congr_left fun row _ => ?_
  simp only [Function.comp_apply]
  cases stuck.find? fun r => decide (r.id = row.id) <;> rfl

/-! ## Who is alive -/

/-- Writing the phase of a live process with another live phase. -/
theorem alive_set {s : Database} {p q : Nat} {old new : ProcessPhase} (h : s.processes[p]? = some old) (hold : old ≠ .dead)
    (hnew : new ≠ .dead) {rows : List JobRunRecord} :
    ({ s with rows := rows, processes := s.processes.set p new } : Database).alive q ↔ s.alive q := by
  obtain ⟨hlt, -⟩ := List.getElem?_eq_some_iff.1 h
  unfold Database.alive
  by_cases hpq : q = p
  · subst hpq
    exact iff_of_true ⟨new, by simp [hlt], hnew⟩ ⟨old, h, hold⟩
  · simp [Ne.symm hpq]

theorem alive_crash {s : Database} {p q : Nat}
    (h : ({ s with processes := s.processes.set p .dead } : Database).alive q) : s.alive q := by
  obtain ⟨phase, hphase, hne⟩ := h
  rcases getElem?_set_cases hphase with ⟨-, rfl⟩ | ⟨-, hphase⟩
  · exact absurd rfl hne
  · exact ⟨phase, hphase, hne⟩

/-- A change of phases alone. -/
theorem ownInv_phases {s : Database} (hi : OwnInv s) {processes : List ProcessPhase}
    (hlen : s.processes.length ≤ processes.length)
    (halive : ∀ q, q < s.processes.length → ({ s with processes := processes } : Database).alive q → s.alive q) :
    OwnInv { s with processes := processes } where
  ids := hi.ids
  known id p h := Nat.lt_of_lt_of_le (hi.known id p h) hlen
  kept id p h ha := hi.kept id p h (halive p (hi.known id p h) ha)
  loaded u hu := by
    obtain ⟨hex, hload⟩ := hi.loaded u hu
    exact ⟨hex, fun ha => hload (halive u.process (hi.known _ _ hex) ha)⟩
  one := hi.one

theorem ownInv_initial {rows : List JobRunRecord} (h : (rows.map JobRunRecord.id).Nodup) :
    OwnInv (.initial rows) where
  ids := h
  known := by simp [Database.initial]
  kept := by simp [Database.initial]
  loaded := by simp [Database.initial]
  one := List.nodup_nil

/-! ## The steps -/

theorem ownInv_commit {s : Database} (hi : OwnInv s) {p : Nat} {now : Instant} {stuck : List JobRunRecord}
    (hp : s.processes[p]? = some (.replaying stuck))
    (hab : ∀ r ∈ stuck, ∀ q, s.executor r.id = some q → ¬ s.alive q) :
    OwnInv { s with rows := saveReplay now stuck s.rows, processes := s.processes.set p .started } := by
  have halive : ∀ q, ({ s with rows := saveReplay now stuck s.rows, processes := s.processes.set p .started } :
      Database).alive q ↔ s.alive q := fun q => alive_set hp (by simp) (by simp)
  refine { hi with ids := ?_, known := ?_, kept := ?_, loaded := ?_ }
  · rw [saveReplay_ids]
    exact hi.ids
  · intro id q h
    rw [List.length_set]
    exact hi.known id q h
  · intro id q h ha
    have hlive := (halive q).1 ha
    obtain ⟨r, hstored, hr, hid⟩ := hi.kept id q h hlive
    refine ⟨r, hstored, mem_saveReplay hr fun x hx he => ?_, hid⟩
    exact hab x hx q (by rw [he, hid]; exact h) hlive
  · intro u hu
    obtain ⟨hex, hload⟩ := hi.loaded u hu
    exact ⟨hex, fun ha => hload ((halive u.process).1 ha)⟩

theorem ownInv_add {s : Database} (hi : OwnInv s) {p : Nat} {run : JobRun} (ha : s.alive p)
    (hid : run.id ∉ s.rows.map JobRunRecord.id) (hex : s.executor run.id = none) :
    OwnInv { s with
      rows := s.rows ++ [toRecord run]
      executor := Function.update s.executor run.id (some p)
      stored := Function.update s.stored run.id (some (toRecord run)) } := by
  obtain ⟨phase, hphase, -⟩ := ha
  obtain ⟨hlt, -⟩ := List.getElem?_eq_some_iff.1 hphase
  refine { hi with ids := ?_, known := ?_, kept := ?_, loaded := ?_ }
  · rw [List.map_append, List.nodup_append]
    refine ⟨hi.ids, List.nodup_singleton _, ?_⟩
    rintro a ha b hb rfl
    rw [List.map_singleton, List.mem_singleton] at hb
    rw [hb] at ha
    exact hid ha
  · intro id q h
    by_cases he : id = run.id
    · subst he
      dsimp only at h
      rw [Function.update_self] at h
      exact Option.some.inj h ▸ hlt
    · dsimp only at h
      rw [Function.update_of_ne he] at h
      exact hi.known id q h
  · intro id q h hq
    dsimp only at h ⊢
    by_cases he : id = run.id
    · subst he
      rw [Function.update_self]
      exact ⟨toRecord run, rfl, by simp, rfl⟩
    · rw [Function.update_of_ne he] at h ⊢
      obtain ⟨r, hstored, hr, hrid⟩ := hi.kept id q h hq
      exact ⟨r, hstored, List.mem_append_left _ hr, hrid⟩
  · intro u hu
    obtain ⟨hproc, hload⟩ := hi.loaded u hu
    have hne : u.current.id ≠ run.id := by
      intro he
      rw [he, hex] at hproc
      cases hproc
    dsimp only
    rw [Function.update_of_ne hne, Function.update_of_ne hne]
    exact ⟨hproc, hload⟩

theorem ownInv_load {s : Database} (hi : OwnInv s) {p : Nat} {run : JobRun} (hex : s.executor run.id = some p)
    (hnew : run.id ∉ s.updates.map fun u => u.current.id) :
    OwnInv { s with updates := s.updates ++ [⟨p, s.rows.find? fun r => r.id = run.id, toRecord run⟩] } := by
  refine { hi with loaded := ?_, one := ?_ }
  · intro u hu
    rcases List.mem_append.1 hu with hu | hu
    · exact hi.loaded u hu
    · rw [List.mem_singleton.1 hu]
      refine ⟨hex, fun ha => ?_⟩
      obtain ⟨r, hstored, hr, hid⟩ := hi.kept run.id p hex ha
      have hfind := (find_row_iff hi.ids run.id r).2 ⟨hr, hid⟩
      exact hfind.trans hstored.symm
  · rw [List.map_append, List.nodup_append]
    refine ⟨hi.one, List.nodup_singleton _, ?_⟩
    rintro a ha b hb rfl
    rw [List.map_singleton, List.mem_singleton] at hb
    rw [hb] at ha
    exact hnew ha

theorem ownInv_save {s : Database} (hi : OwnInv s) {u : Update} {original : JobRunRecord} (hu : u ∈ s.updates)
    (ha : s.alive u.process) (hload : u.loaded = some original) :
    OwnInv { s with
      rows := updateKey JobRunRecord.id u.current.id (original.merge u.current) s.rows
      updates := s.updates.erase u
      stored := Function.update s.stored u.current.id (some u.current) } := by
  obtain ⟨hex, hstored⟩ := hi.loaded u hu
  obtain ⟨r, hr, hmem, hid⟩ := hi.kept _ _ hex ha
  -- The row is still the one that was loaded, so it becomes the new record.
  have hsame : original = r := by
    rw [← hstored ha, hload] at hr
    exact Option.some.inj hr
  subst hsame
  refine { hi with ids := ?_, kept := ?_, loaded := ?_, one := ?_ }
  · rw [map_updateKey fun row => merge_id original u.current row]
    exact hi.ids
  · intro id q h hq
    dsimp only at h ⊢
    by_cases he : id = u.current.id
    · subst he
      rw [Function.update_self]
      refine ⟨u.current, rfl, mem_updateKey.2 ⟨original, hmem, ?_⟩, rfl⟩
      rw [if_pos hid, merge_self hid]
    · rw [Function.update_of_ne he]
      obtain ⟨x, hx, hxmem, hxid⟩ := hi.kept id q h hq
      refine ⟨x, hx, mem_updateKey.2 ⟨x, hxmem, ?_⟩, hxid⟩
      rw [if_neg (by rw [hxid]; exact he)]
  · intro v hv
    obtain ⟨hvex, hvload⟩ := hi.loaded v (List.mem_of_mem_erase hv)
    refine ⟨hvex, fun hq => ?_⟩
    have hne : v.current.id ≠ u.current.id := by
      intro he
      have hvu := List.inj_on_of_nodup_map hi.one (List.mem_of_mem_erase hv) hu he
      rw [hvu] at hv
      exact (List.Nodup.of_map _ hi.one).not_mem_erase hv
    dsimp only
    rw [Function.update_of_ne hne]
    exact hvload hq
  · exact hi.one.sublist (List.erase_sublist.map _)

theorem ownInv_step {s s' : Database} {e : DatabaseEvent} (hi : OwnInv s) (hab : Abandoned s e)
    (h : s.step e = some s') : OwnInv s' := by
  cases e with
  | boot =>
    cases h
    refine ownInv_phases hi (by simp) fun q hq ⟨phase, hphase, hne⟩ => ?_
    rcases getElem?_snoc_cases hphase with ⟨rfl, -⟩ | hphase
    · exact absurd hq (Nat.lt_irrefl _)
    · exact ⟨phase, hphase, hne⟩
  | read p =>
    simp only [Database.step] at h
    split at h
    · rename_i hp
      split at h <;> cases h
      · exact ownInv_phases hi (by simp) fun q _ => (alive_set hp (by simp) (by simp)).1
      · exact ownInv_phases hi (by simp) fun q _ => (alive_set hp (by simp) (by simp)).1
    · cases h
  | commit p now =>
    simp only [Database.step] at h
    split at h
    · rename_i stuck hp
      cases h
      exact ownInv_commit hi hp (hab p now stuck rfl hp)
    · cases h
  | add p run =>
    simp only [Database.step] at h
    split at h
    · rename_i hc
      cases h
      exact ownInv_add hi hc.1 hc.2.1 hc.2.2
    · cases h
  | load p run =>
    simp only [Database.step] at h
    split at h
    · rename_i hc
      cases h
      exact ownInv_load hi hc.2.1 hc.2.2
    · cases h
  | save u =>
    simp only [Database.step] at h
    split at h
    · rename_i hc
      split at h
      · rename_i original hload
        cases h
        exact ownInv_save hi hc.1 hc.2 hload
      · -- A live process's row is there, so it was found.
        rename_i hload
        obtain ⟨hex, hstored⟩ := hi.loaded u hc.1
        obtain ⟨r, hr, -⟩ := hi.kept _ _ hex hc.2
        rw [← hstored hc.2, hload] at hr
        cases hr
    · cases h
  | crash p =>
    simp only [Database.step] at h
    split at h <;> cases h
    exact ownInv_phases hi (by simp) fun q _ ha => alive_crash ha

/-- In every run in which no replay saves a row of a live process: the row of
each run of a live process is what that process stored last, and every row that
a replay changes belongs to no live process. -/
theorem replay_spares_live (rows : List JobRunRecord) (hids : (rows.map JobRunRecord.id).Nodup)
    (es : List DatabaseEvent) (s : Database) (hrun : exec Database.step (.initial rows) es = some s)
    (hab : Along Database.step Abandoned (.initial rows) es) :
    (∀ id p, s.executor id = some p → s.alive p →
      s.stored id ≠ none ∧ s.rows.find? (fun r => r.id = id) = s.stored id) ∧
    ∀ pre p now post t t', es = pre ++ .commit p now :: post → exec Database.step (.initial rows) pre = some t →
      t.step (.commit p now) = some t' → ∀ r ∈ t.rows, r ∉ t'.rows → ∀ q, t.executor r.id = some q → ¬ t.alive q := by
  have hi := exec_inv_along Abandoned OwnInv (fun _ _ _ hi hg hs => ownInv_step hi hg hs) (ownInv_initial hids) hab hrun
  refine ⟨?_, ?_⟩
  · intro id p hex ha
    obtain ⟨r, hstored, hr, hid⟩ := hi.kept id p hex ha
    rw [hstored]
    exact ⟨nofun, (find_row_iff hi.ids id r).2 ⟨hr, hid⟩⟩
  · rintro pre p now post t t' rfl hpre hstep r hr hgone q hex
    obtain ⟨hat, -⟩ := (along_append hab hpre).2
    simp only [Database.step] at hstep
    split at hstep
    · rename_i stuck hp
      cases hstep
      by_cases hin : ∀ x ∈ stuck, x.id ≠ r.id
      · exact absurd (mem_saveReplay hr hin) hgone
      · obtain ⟨x, hx, hxid⟩ : ∃ x ∈ stuck, x.id = r.id := by simpa using hin
        exact hat p now stuck rfl hp x hx q (by rw [hxid]; exact hex)
    · cases hstep

/-! ## A second node joins -/

def backupRun (state : JobRunState) : JobRun :=
  ⟨1, "backup", 0, none, none, state, "Cron", none, none⟩

/-- Process 0 starts and is in the middle of a run. -/
def midRun : List DatabaseEvent :=
  [.boot, .read 0, .add 0 (backupRun .pending), .load 0 (backupRun .running),
    .save ⟨0, some (toRecord (backupRun .pending)), toRecord (backupRun .running)⟩]

/-- Then process 1 boots. -/
def secondBoot : List DatabaseEvent := [.boot, .read 1, .commit 1 60]

theorem live_run_marked_failed :
    ¬ ∀ (rows : List JobRunRecord), (rows.map JobRunRecord.id).Nodup → ∀ es s,
      exec Database.step (.initial rows) es = some s →
        ∀ pre p now post t t', es = pre ++ .commit p now :: post →
          exec Database.step (.initial rows) pre = some t → t.step (.commit p now) = some t' →
            ∀ r ∈ t.rows, r ∉ t'.rows → ∀ q, t.executor r.id = some q → ¬ t.alive q := by
  intro h
  have hbad := h [] List.nodup_nil (midRun ++ secondBoot) _ rfl (midRun ++ [.boot, .read 1]) 1 60 [] _ _ rfl rfl rfl
    (toRecord (backupRun .running)) (by decide) (by decide) 0 rfl
  exact hbad ⟨.started, rfl, nofun⟩

theorem abandoned_other {s : Database} {e : DatabaseEvent} (h : ∀ p now, e ≠ .commit p now) : Abandoned s e :=
  fun p now _ he => absurd he (h p now)

theorem along_abandoned {s : Database} {es : List DatabaseEvent} (h : ∀ e ∈ es, ∀ p now, e ≠ .commit p now) :
    Along Database.step Abandoned s es :=
  along_mono (fun _ _ => abandoned_other) (along_of_forall h)

/-- Process 0 crashes in the middle of its run before process 1 boots. -/
def afterCrash : List DatabaseEvent := midRun ++ [.crash 0, .boot, .read 1]

theorem replay_spares_live_afterCrash :
    ∃ s, exec Database.step (.initial []) (afterCrash ++ [.commit 1 60]) = some s ∧
      s.rows.map (fun r => r.state) = ["Failed"] ∧
      ∀ id p, s.executor id = some p → s.alive p →
        s.stored id ≠ none ∧ s.rows.find? (fun r => r.id = id) = s.stored id := by
  refine ⟨_, rfl, by decide, (replay_spares_live [] List.nodup_nil (afterCrash ++ [.commit 1 60]) _ rfl ?_).1⟩
  refine along_append_intro (along_abandoned (by simp [afterCrash, midRun])) fun t ht => ?_
  cases ht
  refine ⟨?_, fun _ _ => trivial⟩
  -- The only run was the crashed process's.
  intro p now stuck he hp r hr q hex halive
  cases he
  cases hp
  obtain rfl := List.mem_singleton.1 hr
  cases hex
  obtain ⟨phase, hphase, hne⟩ := halive
  cases hphase
  exact hne rfl

end DuckRun.Persistence

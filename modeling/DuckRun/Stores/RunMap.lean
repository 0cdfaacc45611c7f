import DuckRun.Stores.RunTable
import DuckRun.Runtime.RunHistory
/-!
# The run stores as a map

What a run store on a database is for: a map from ids to runs, in which every
call that returns writes the run it is given (`RefinesMap`). `Ef6JobRunStore`
is one, and `EfCoreJobRunStore` as long as no run has the id `Guid.Empty`.
-/

namespace DuckRun.Stores

open DuckRun.Lib
open DuckRun.Runtime (Instant latest latest_cons)

/-- The run that was written for an id last. -/
def lastWritten (calls : List Call) (id : Nat) : Option Runtime.JobRun := latest (calls.map Call.instants).reverse id

/-- The calls left in `rows` what they would have left in a map. A call leaves
the same row whether it inserts or updates, and the other runs as they were. -/
structure RefinesMap (add : List Row → JobRunRecord → JobRunRecord) (env : Environment) (calls : List Call)
    (rows : List Row) : Prop where
  answers : ∀ id, (getAsync env rows id).map JobRun.instants = lastWritten calls id
  writes : Along (step add env) (fun before c => ∀ after, step add env before c = some after →
    after.find? (fun row => row.id = c.run.id) = some (toRecord c.run).columns ∧
      ∀ id, id ≠ c.run.id → getAsync env after id = getAsync env before id) [] calls

section Map
variable {add : List Row → JobRunRecord → JobRunRecord} {env : Environment} {calls : List Call} {rows rows' : List Row}

theorem instants_run (c : Call) : c.instants.run = c.run.instants := by
  cases c <;> rfl

theorem lastWritten_snoc (c : Call) (id : Nat) :
    lastWritten (calls ++ [c]) id = if id = c.run.id then some c.run.instants else lastWritten calls id := by
  unfold lastWritten
  rw [List.map_append, List.reverse_append, List.map_cons, List.map_nil, List.reverse_singleton, List.singleton_append,
    latest_cons, instants_run]
  rfl

theorem lastWritten_of_mem {c : Call} (hc : c ∈ calls) : ∃ run, lastWritten calls c.run.id = some run := by
  induction calls using List.reverseRecOn with
  | nil => cases hc
  | append_singleton calls d ih =>
    rw [lastWritten_snoc]
    split
    · exact ⟨_, rfl⟩
    · rename_i hid
      rcases List.mem_append.1 hc with hc | hc
      · exact ih hc
      · rw [List.mem_singleton.1 hc] at hid
        exact absurd rfl hid

/-- What `GetAsync` answers, from the row. -/
theorem getAsync_instants (id : Nat) :
    (getAsync env rows id).map JobRun.instants = (rows.find? fun row => row.id = id).map runOf := by
  unfold getAsync findAsync
  rw [Option.map_map, Option.map_map]
  refine congrArg (fun f => Option.map f _) (funext fun row => ?_)
  exact fromRecord_instants env.zone env.kind row

theorem getAsync_congr {id : Nat} (h : rows'.find? (fun row => row.id = id) = rows.find? fun row => row.id = id) :
    getAsync env rows' id = getAsync env rows id := by
  unfold getAsync findAsync
  rw [h]

theorem stored_nil : Stored env [] := ⟨List.nodup_nil, by simp, by simp⟩

theorem rowOf_exact (hexact : env.Exact) (run : JobRun) : rowOf env run = (toRecord run).columns := by
  have hkept : env.kept = id := funext hexact
  simp [rowOf, Environment.keep, hkept]

theorem runOf_columns (run : JobRun) : runOf (toRecord run).columns = run.instants := by
  rw [columns_toRecord, runOf_toRecord]

/-- As long as the records are added with the ids they have. -/
theorem refinesMap_of_ids (hexact : env.Exact) (hadd : ∀ c ∈ calls, ∀ rows, add rows (toRecord c.run) = toRecord c.run)
    (hrun : exec (step add env) [] calls = some rows) : Stored env rows ∧ RefinesMap add env calls rows := by
  induction calls using List.reverseRecOn generalizing rows with
  | nil =>
    cases hrun
    exact ⟨stored_nil, fun _ => rfl, trivial⟩
  | append_singleton calls c ih =>
    rw [exec_append] at hrun
    obtain ⟨before, hbefore, hstep⟩ := Option.bind_eq_some_iff.1 hrun
    obtain ⟨after, hafter, hnil⟩ := exec_cons_some.1 hstep
    cases hnil
    obtain ⟨hst, hmap⟩ := ih (fun d hd => hadd d (List.mem_append_left _ hd)) hbefore
    have hid := hadd c (by simp) before
    obtain ⟨hst', -, hfind⟩ := step_some hst hid hafter
    refine ⟨hst', fun id => ?_, along_append_intro hmap.writes fun t ht => ⟨fun after hafter => ?_, fun _ _ => trivial⟩⟩
    · rw [getAsync_instants, hfind, lastWritten_snoc]
      by_cases hid : id = c.run.id
      · rw [if_pos hid, if_pos hid, rowOf_exact hexact, Option.map_some, runOf_columns]
      · rw [if_neg hid, if_neg hid, ← getAsync_instants, hmap.answers]
    · rw [hbefore] at ht
      cases ht
      obtain ⟨-, -, hfind⟩ := step_some hst hid hafter
      refine ⟨?_, fun id hid => getAsync_congr ?_⟩
      · rw [hfind, if_pos rfl, rowOf_exact hexact]
      · rw [hfind, if_neg hid]

/-! ## EF Core -/

/-- EF Core saves no record under `Guid.Empty`. -/
theorem efCore_keys {c : Call} (hkeys : ∀ row ∈ rows, row.id ≠ Guid.empty) (h : EfCoreJobRunStore.step env rows c = some rows') :
    ∀ row ∈ rows', row.id ≠ Guid.empty := by
  have hinsert : ∀ {run : JobRun}, insert env rows (EfCoreJobRunStore.add env rows (toRecord run)) = some rows' →
      ∀ row ∈ rows', row.id ≠ Guid.empty := by
    intro run h
    have hkey : (EfCoreJobRunStore.add env rows (toRecord run)).columns.id ≠ Guid.empty := by
      unfold EfCoreJobRunStore.add JobRunRecord.columns
      split
      · exact env.newKey_ne rows
      · assumption
    unfold insert at h
    split at h
    · cases h
      exact List.forall_mem_append.2 ⟨hkeys, by simpa using hkey⟩
    · cases h
  cases c with
  | add run => exact hinsert h
  | update run =>
    change updateAsync (EfCoreJobRunStore.add env) env rows run = some rows' at h
    unfold updateAsync at h
    split at h
    · exact hinsert h
    · unfold saveChanges at h
      split at h
      · cases h
        intro row hrow
        obtain ⟨x, hx, rfl⟩ := mem_updateKey.1 hrow
        split
        · exact hkeys x hx
        · exact hkeys x hx
      · cases h

theorem efCore_get_empty (hrun : exec (EfCoreJobRunStore.step env) [] calls = some rows) : getAsync env rows Guid.empty = none := by
  have hkeys : ∀ row ∈ rows, row.id ≠ Guid.empty :=
    exec_inv (fun rows => ∀ row ∈ rows, row.id ≠ Guid.empty) (fun _ _ _ => efCore_keys) (by simp) hrun
  have hnone : rows.find? (fun row => row.id = Guid.empty) = none := by simpa using hkeys
  unfold getAsync findAsync
  rw [hnone]
  rfl

theorem efCore_add {run : JobRun} (h : run.id ≠ Guid.empty) (rows : List Row) :
    EfCoreJobRunStore.add env rows (toRecord run) = toRecord run := if_neg h

end Map

/-- Both stores refine a map on a database that stores rows exactly, but EF Core
only as long as no run has the id `Guid.Empty`. -/
theorem run_stores_refine_map (env : Environment) (hexact : env.Exact) (calls : List Call) (rows : List Row) :
    (exec (Ef6JobRunStore.step env) [] calls = some rows → RefinesMap Ef6JobRunStore.add env calls rows) ∧
    (exec (EfCoreJobRunStore.step env) [] calls = some rows →
      (RefinesMap (EfCoreJobRunStore.add env) env calls rows ↔ ∀ c ∈ calls, c.run.id ≠ Guid.empty)) := by
  refine ⟨fun hrun => (refinesMap_of_ids hexact (fun _ _ _ => rfl) hrun).2, fun hrun => ⟨fun hmap c hc he => ?_, fun hids => ?_⟩⟩
  · obtain ⟨run, hlast⟩ := lastWritten_of_mem hc
    have hget := hmap.answers Guid.empty
    rw [efCore_get_empty hrun, ← he, hlast] at hget
    cases hget
  · exact (refinesMap_of_ids hexact (fun c hc => efCore_add (hids c hc)) hrun).2

/-- A database that keeps ticks and forgets the kind of a time. -/
def exactDatabase : Environment where
  accepts _ := true
  kept := id
  kept_kept _ := rfl
  kind := .unspecified
  newest := .descending Instant
  newest_le _ _ := Iff.rfl
  newKey rows := (rows.map (·.id)).foldr max 0 + 1
  newKey_ne _ := Nat.succ_ne_zero _
  zone _ := 0

def pendingRun (id : Nat) (jobName : String) (createdAt : Instant) : JobRun :=
  ⟨id, jobName, ⟨createdAt, 36000000000⟩, none, none, .pending, "Cron", none, none⟩

/-- A run with the id `Guid.Empty` is not found. -/
theorem empty_id_not_found :
    ¬ ∀ (env : Environment), env.Exact → ∀ (calls : List Call) (rows : List Row),
      exec (EfCoreJobRunStore.step env) [] calls = some rows → RefinesMap (EfCoreJobRunStore.add env) env calls rows := by
  intro h
  have hmap := h exactDatabase (fun _ => rfl) [.add (pendingRun Guid.empty "nightly" 10)] _ rfl
  have hget := hmap.answers Guid.empty
  cases hget

/-- An added and updated run, and one that was only updated. -/
def threeWays : List Call :=
  [.add (pendingRun 1 "nightly" 10), .update { pendingRun 1 "nightly" 10 with state := .running, startedAt := some ⟨12, 0⟩ },
    .update (pendingRun 2 "nightly" 20)]

theorem run_stores_refine_map_threeWays :
    ∃ rows, exec (Ef6JobRunStore.step exactDatabase) [] threeWays = some rows ∧
      exec (EfCoreJobRunStore.step exactDatabase) [] threeWays = some rows ∧
      (getAsync exactDatabase rows 1).map JobRun.instants =
        some ⟨1, "nightly", 10, some 12, none, .running, "Cron", none, none⟩ ∧
      RefinesMap Ef6JobRunStore.add exactDatabase threeWays rows ∧
      RefinesMap (EfCoreJobRunStore.add exactDatabase) exactDatabase threeWays rows := by
  refine ⟨_, rfl, rfl, ?_, ?_, ?_⟩
  · have hmap := (run_stores_refine_map exactDatabase (fun _ => rfl) threeWays _).1 rfl
    exact hmap.answers 1
  · exact (run_stores_refine_map exactDatabase (fun _ => rfl) threeWays _).1 rfl
  · exact ((run_stores_refine_map exactDatabase (fun _ => rfl) threeWays _).2 rfl).2 (by decide)

end DuckRun.Stores

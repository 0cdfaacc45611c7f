import DuckRun.Stores.RunRecords
import DuckRun.Persistence.Replay
import DuckRun.Runtime.InMemoryJobRunStore
import DuckRun.Lib.Grouping
/-!
# The run stores on a database

`EfCoreJobRunStore` and `Ef6JobRunStore`, with a context of its own for every
call. They differ in one point only: EF Core generates the key of an added
record whose id is `Guid.Empty`, and the EF6 model tells EF not to.
-/

namespace DuckRun.Stores

open DuckRun.Lib
open DuckRun.Runtime (Instant TimeSpan JobRunState StoreCall)
open DuckRun.Persistence (stateName)

/-- `Guid.Empty`. -/
def Guid.empty : Nat := 0

/-- The database, its EF provider and the machine. -/
structure Environment where
  /-- The rows the table takes, by the lengths and characters of its columns. -/
  accepts : Row → Bool
  /-- What a time column keeps of an instant. -/
  kept : Instant → Instant
  kept_kept : ∀ t, kept (kept t) = kept t
  /-- The kind of a time that is read. -/
  kind : DateTimeKind
  /-- `ORDER BY ... DESC` on a time column. -/
  newest : OrderBy Instant
  newest_le : ∀ a b, newest.le a b ↔ b ≤ a
  /-- The key EF Core generates. -/
  newKey : List Row → Nat
  newKey_ne : ∀ rows, newKey rows ≠ Guid.empty
  /-- The offset of the machine's zone at a time. -/
  zone : Int → TimeSpan

/-- The database stores the rows it accepts exactly. -/
def Environment.Exact (env : Environment) : Prop := ∀ t, env.kept t = t

def Environment.keep (env : Environment) (row : Row) : Row :=
  { row with
    createdAt := env.kept row.createdAt
    startedAt := row.startedAt.map env.kept
    finishedAt := row.finishedAt.map env.kept }

/-! ## Contexts -/

section Context
variable (env : Environment) (rows : List Row)

/-- `SaveChangesAsync` with one added record: an `INSERT`, which throws on a
row the table does not take or a key it has. -/
def insert (rec : JobRunRecord) : Option (List Row) :=
  if env.accepts (env.keep rec.columns) ∧ rec.id ∉ rows.map (·.id) then some (rows ++ [env.keep rec.columns]) else none

/-- `SaveChangesAsync` with one record that was read and changed: an `UPDATE`
of the columns whose values differ. -/
def saveChanges (original current : JobRunRecord) : Option (List Row) :=
  if env.accepts (env.keep current.columns) then
    some (updateKey (·.id) original.id (fun row => env.keep (original.columns.merge current.columns row)) rows)
  else none

/-- `FindAsync`, from a context that tracks nothing yet. -/
def findAsync (id : Nat) : Option JobRunRecord := (rows.find? fun row => row.id = id).map (materialize env.kind)

end Context

/-! ## The stores -/

section Store
variable (add : List Row → JobRunRecord → JobRunRecord) (env : Environment) (rows : List Row)

def addAsync (run : JobRun) : Option (List Row) := insert env rows (add rows (toRecord run))

def updateAsync (run : JobRun) : Option (List Row) :=
  match findAsync env rows run.id with
  | none => insert env rows (add rows (toRecord run))
  | some existing => saveChanges env rows existing (applyUpdate existing run)

def getAsync (runId : Nat) : Option JobRun := (findAsync env rows runId).map (fromRecord env.zone)

def getRecentForJobAsync (jobName : String) (take : Nat) : List JobRun :=
  let records := ((env.newest.sort (·.createdAt) (rows.filter fun r => r.jobName = jobName)).take take).map (materialize env.kind)
  records.map (fromRecord env.zone)

def countInFlightAsync (jobName : String) : Nat :=
  rows.countP fun r => r.jobName = jobName ∧ r.state = stateName .running

end Store

inductive Call where
  | add (run : JobRun)
  | update (run : JobRun)
  deriving DecidableEq, Repr

def Call.run : Call → JobRun
  | .add run | .update run => run

/-- The call with its run's times as instants. -/
def Call.instants : Call → StoreCall
  | .add run => .add run.instants
  | .update run => .update run.instants

/-- `JobRuns.Add`: the key of `JobRunRecord` is a `Guid` that the model says
nothing more about, so EF Core generates it unless it is set. -/
def EfCoreJobRunStore.add (env : Environment) (rows : List Row) (rec : JobRunRecord) : JobRunRecord :=
  if rec.id = Guid.empty then { rec with id := env.newKey rows } else rec

/-- `JobRuns.Add`: the model has `DatabaseGeneratedOption.None`. -/
def Ef6JobRunStore.add (_ : List Row) (rec : JobRunRecord) : JobRunRecord := rec

/-- A call to a store; no rows if it throws. -/
def step (add : List Row → JobRunRecord → JobRunRecord) (env : Environment) (rows : List Row) : Call → Option (List Row)
  | .add run => addAsync add env rows run
  | .update run => updateAsync add env rows run

def EfCoreJobRunStore.step (env : Environment) : List Row → Call → Option (List Row) :=
  Stores.step (EfCoreJobRunStore.add env) env

def Ef6JobRunStore.step (env : Environment) : List Row → Call → Option (List Row) := Stores.step Ef6JobRunStore.add env

/-! ## One call -/

/-- The row of a run. -/
def rowOf (env : Environment) (run : JobRun) : Row := env.keep (toRecord run).columns

/-- The rows have distinct keys, and their times are such as the columns keep. -/
structure Stored (env : Environment) (rows : List Row) : Prop where
  keyed : (rows.map (·.id)).Nodup
  kept : ∀ row ∈ rows, env.keep row = row
  accepted : ∀ row ∈ rows, env.accepts row

section Step
variable {env : Environment} {rows rows' : List Row}

theorem keep_keep (env : Environment) (row : Row) : env.keep (env.keep row) = env.keep row := by
  simp [Environment.keep, env.kept_kept, Function.comp_def]

@[simp] theorem keep_id (env : Environment) (row : Row) : (env.keep row).id = row.id := rfl

@[simp] theorem rowOf_id (env : Environment) (run : JobRun) : (rowOf env run).id = run.id := rfl

theorem insert_some {rec : JobRunRecord} (hst : Stored env rows) (h : insert env rows rec = some rows') :
    Stored env rows' ∧ env.accepts (env.keep rec.columns) ∧
      ∀ id, rows'.find? (fun row => row.id = id) =
        if id = rec.id then some (env.keep rec.columns) else rows.find? fun row => row.id = id := by
  unfold insert at h
  split at h
  · rename_i hnew
    obtain ⟨haccepts, hfresh⟩ := hnew
    cases h
    refine ⟨⟨?_, ?_, ?_⟩, haccepts, fun id => ?_⟩
    · rw [List.map_append]
      exact List.nodup_append.2 ⟨hst.keyed, List.nodup_singleton _, fun k hk k' hk' he => hfresh (by simp_all [JobRunRecord.columns])⟩
    · exact List.forall_mem_append.2 ⟨hst.kept, by simp [keep_keep]⟩
    · exact List.forall_mem_append.2 ⟨hst.accepted, by simpa using haccepts⟩
    · rw [List.find?_append]
      by_cases hid : id = rec.id
      · subst hid
        have hnone : rows.find? (fun row => row.id = rec.id) = none := by
          rw [List.find?_eq_none]
          intro row hrow he
          exact hfresh (List.mem_map.2 ⟨row, hrow, by simpa using he⟩)
        simp [hnone, JobRunRecord.columns]
      · simp [hid, Ne.symm hid, JobRunRecord.columns]
  · cases h

theorem saveChanges_some {row : Row} {run : JobRun} (hst : Stored env rows)
    (hrow : rows.find? (fun r => r.id = run.id) = some row)
    (h : saveChanges env rows (materialize env.kind row) (applyUpdate (materialize env.kind row) run) = some rows') :
    Stored env rows' ∧ env.accepts (rowOf env run) ∧
      ∀ id, rows'.find? (fun r => r.id = id) = if id = run.id then some (rowOf env run) else rows.find? fun r => r.id = id := by
  obtain ⟨hmem, hid⟩ := find_row_mem hrow
  have hcolumns : (applyUpdate (materialize env.kind row) run).columns = (toRecord run).columns := by
    rw [applyUpdate_eq_toRecord hid]
  unfold saveChanges at h
  rw [hcolumns, columns_materialize] at h
  split at h
  · rename_i haccepts
    cases h
    have hkey : ∀ r : Row, (env.keep (row.merge (toRecord run).columns r)).id = r.id := fun _ => rfl
    have hnew : env.keep (row.merge (toRecord run).columns row) = rowOf env run := by
      rw [Persistence.merge_self (show row.id = (toRecord run).columns.id from hid)]
      rfl
    have hupdated : ∀ r ∈ updateKey (·.id) row.id (fun r => env.keep (row.merge (toRecord run).columns r)) rows,
        r = rowOf env run ∨ r ∈ rows := by
      intro r hr
      obtain ⟨x, hx, rfl⟩ := mem_updateKey.1 hr
      split
      · rename_i he
        rw [List.inj_on_of_nodup_map hst.keyed hx hmem he, hnew]
        exact .inl rfl
      · exact .inr hx
    refine ⟨⟨?_, fun r hr => ?_, fun r hr => ?_⟩, haccepts, fun id => ?_⟩
    · rw [show (materialize env.kind row).id = row.id from rfl, map_updateKey hkey]
      exact hst.keyed
    · rcases hupdated r hr with rfl | hold
      · exact keep_keep env _
      · exact hst.kept r hold
    · rcases hupdated r hr with rfl | hold
      · exact haccepts
      · exact hst.accepted r hold
    · rw [show (materialize env.kind row).id = row.id from rfl, find_updateKey hkey, hid, hrow]
      by_cases he : id = run.id
      · rw [if_pos he, if_pos he, Option.map_some, hnew]
      · rw [if_neg he, if_neg he]
  · cases h

/-- A call that returns has written its run's row, and no other. -/
theorem step_some {add : List Row → JobRunRecord → JobRunRecord} {c : Call} (hst : Stored env rows)
    (hadd : add rows (toRecord c.run) = toRecord c.run) (h : step add env rows c = some rows') :
    Stored env rows' ∧ env.accepts (rowOf env c.run) ∧
      ∀ id, rows'.find? (fun row => row.id = id) =
        if id = c.run.id then some (rowOf env c.run) else rows.find? fun row => row.id = id := by
  cases c with
  | add run =>
    change insert env rows (add rows (toRecord run)) = some rows' at h
    rw [show add rows (toRecord run) = toRecord run from hadd] at h
    exact insert_some hst h
  | update run =>
    change updateAsync add env rows run = some rows' at h
    unfold updateAsync findAsync at h
    cases hrow : rows.find? (fun row => row.id = run.id) with
    | none =>
      rw [hrow, show add rows (toRecord run) = toRecord run from hadd] at h
      exact insert_some hst h
    | some row =>
      rw [hrow] at h
      exact saveChanges_some hst hrow h

/-- A call throws on a row that the table does not take, and `AddAsync` on a key that it has. -/
theorem step_none {add : List Row → JobRunRecord → JobRunRecord} {c : Call}
    (hadd : add rows (toRecord c.run) = toRecord c.run) (h : step add env rows c = none) :
    ¬ env.accepts (rowOf env c.run) ∨ ∃ run, c = .add run ∧ run.id ∈ rows.map (·.id) := by
  by_cases haccepts : env.accepts (rowOf env c.run)
  swap
  · exact .inl haccepts
  have hinsert : ∀ {run : JobRun}, env.accepts (rowOf env run) → insert env rows (toRecord run) = none → run.id ∈ rows.map (·.id) := by
    intro run haccepts h
    unfold insert at h
    split at h
    · cases h
    · rename_i hnew
      by_contra hfresh
      exact hnew ⟨haccepts, hfresh⟩
  right
  cases c with
  | add run =>
    change insert env rows (add rows (toRecord run)) = none at h
    rw [show add rows (toRecord run) = toRecord run from hadd] at h
    exact ⟨run, rfl, hinsert haccepts h⟩
  | update run =>
    change updateAsync add env rows run = none at h
    unfold updateAsync findAsync at h
    cases hrow : rows.find? (fun row => row.id = run.id) with
    | none =>
      rw [hrow, show add rows (toRecord run) = toRecord run from hadd] at h
      obtain ⟨row, hmem, hid⟩ := List.mem_map.1 (hinsert haccepts h)
      exact absurd hid (find_row_none hrow row hmem)
    | some row =>
      obtain ⟨hmem, hid⟩ := find_row_mem hrow
      rw [hrow, Option.map_some] at h
      dsimp only at h
      unfold saveChanges at h
      have haccepts : env.accepts (env.keep (toRecord run).columns) := haccepts
      rw [applyUpdate_eq_toRecord hid, if_pos haccepts] at h
      cases h

end Step

end DuckRun.Stores

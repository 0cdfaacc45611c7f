import DuckRun.Dashboard.Guids
import DuckRun.Dashboard.Ingest
import DuckRun.Lib.Folds
/-!
# Tenants of the ingest service

Which rows a call under a project's key can touch, and when a run record it
sends can be read back. Heartbeats, definitions and console rows are looked up
within the project, so they stay apart whatever is sent. Runs are looked up by
id alone: `Usable` says which ids a project may send.
-/

namespace DuckRun.Dashboard

open DuckRun.Lib

/-- The rows of all other projects. -/
def IngestTables.others (projectId : Guid) (t : IngestTables) : IngestTables :=
  { t with
    apiKeys := t.apiKeys.filter fun r => r.projectId ≠ projectId
    jobDefinitions := t.jobDefinitions.filter fun r => r.projectId ≠ projectId
    jobRuns := t.jobRuns.filter fun r => r.projectId ≠ projectId
    consoleLogs := t.consoleLogs.filter fun r => r.projectId ≠ projectId
    nodeHeartbeats := t.nodeHeartbeats.filter fun r => r.projectId ≠ projectId
    nextLogId := 0 }

/-- The run ids of a call that parse. -/
def Call.runIds (tryParse : Text → Option Guid) : Call → List Guid
  | .sendRuns runs => runs.filterMap fun r => tryParse r.id
  | _ => []

/-- Run id `id` is the project's own, or nobody's and not the empty id. -/
def Usable (t : IngestTables) (projectId id : Guid) : Prop :=
  (∃ r ∈ t.jobRuns, r.id = id ∧ r.projectId = projectId) ∨ (id ≠ 0 ∧ ∀ r ∈ t.jobRuns, r.id ≠ id)

instance (t : IngestTables) (projectId id : Guid) : Decidable (Usable t projectId id) := by
  unfold Usable; infer_instance

def Readable (t : IngestTables) (projectId id : Guid) : Prop := ∃ r, getRunAsync t projectId id = .ok (some r)

/-! ## Keys -/

theorem IngestDb.run_inj (db : IngestDb) {r r' : JobRun} (hr : r ∈ db.tables.jobRuns) (hr' : r' ∈ db.tables.jobRuns)
    (h : r.id = r'.id) : r = r' := by
  have hk := db.keyed
  simp only [IngestTables.keysOk, Bool.and_eq_true, decide_eq_true_eq] at hk
  exact List.inj_on_of_nodup_map hk.1.1.1.1.1.1.1 hr hr' h

theorem IngestDb.heartbeat_inj (db : IngestDb) {r r' : NodeHeartbeat} (hr : r ∈ db.tables.nodeHeartbeats)
    (hr' : r' ∈ db.tables.nodeHeartbeats) (h : r.id = r'.id) : r = r' := by
  have hk := db.keyed
  simp only [IngestTables.keysOk, Bool.and_eq_true, decide_eq_true_eq] at hk
  exact List.inj_on_of_nodup_map hk.1.1.1.1.1.1.2 hr hr' h

theorem IngestDb.definition_inj (db : IngestDb) {r r' : JobDefinition} (hr : r ∈ db.tables.jobDefinitions)
    (hr' : r' ∈ db.tables.jobDefinitions) (h : r.id = r'.id) : r = r' := by
  have hk := db.keyed
  simp only [IngestTables.keysOk, Bool.and_eq_true, decide_eq_true_eq] at hk
  exact List.inj_on_of_nodup_map hk.1.1.1.1.2 hr hr' h

/-- With the ids unique, the runs endpoint finds exactly the project's own row. -/
theorem readable_iff (db : IngestDb) (projectId id : Guid) :
    Readable db.tables projectId id ↔ ∃ r ∈ db.tables.jobRuns, r.id = id ∧ r.projectId = projectId := by
  unfold Readable getRunAsync EntitySet.singleOrDefault
  rw [EntitySet.committed_open]
  have hmem : ∀ r, r ∈ (db.tables.jobRuns.filter fun x => x.projectId = projectId && x.id = id) ↔
      r ∈ db.tables.jobRuns ∧ r.id = id ∧ r.projectId = projectId := by
    intro r
    rw [List.mem_filter, Bool.and_eq_true, decide_eq_true_eq, decide_eq_true_eq]
    exact and_congr_right fun _ => and_comm
  split
  · rename_i hnil
    constructor
    · rintro ⟨r, hr⟩
      cases hr
    · rintro ⟨r, hr, hid, hp⟩
      have := (hmem r).2 ⟨hr, hid, hp⟩
      rw [hnil] at this
      cases this
  · rename_i r hone
    have hr := (hmem r).1 (hone ▸ List.mem_singleton.2 rfl)
    exact ⟨fun _ => ⟨r, hr⟩, fun _ => ⟨_, rfl⟩⟩
  · rename_i hnil hone
    -- Two rows with one id would break the primary key.
    exfalso
    generalize hl : (db.tables.jobRuns.filter fun x => x.projectId = projectId && x.id = id) = l at *
    have hnodup : l.Nodup := by
      have hk := db.keyed
      simp only [IngestTables.keysOk, Bool.and_eq_true, decide_eq_true_eq] at hk
      rw [← hl]
      exact (List.Nodup.of_map _ hk.1.1.1.1.1.1.1).filter _
    cases l with
    | nil => exact hnil rfl
    | cons r l =>
      cases l with
      | nil => exact hone r rfl
      | cons r' l =>
        have h1 := (hmem r).1 List.mem_cons_self
        have h2 := (hmem r').1 (List.mem_cons_of_mem _ List.mem_cons_self)
        have heq : r = r' := db.run_inj h1.1 h2.1 (h1.2.1.trans h2.2.1.symm)
        rw [heq] at hnodup
        exact (List.nodup_cons.1 hnodup).1 List.mem_cons_self

/-! ## Lookups within the project -/

section Calls
variable {chars : CharTable} {tryParse : Text → Option Guid} {env : IngestAmbient} {projectId : Guid}

/-- A heartbeat is added to or assigned within its own project. -/
theorem upsertHeartbeatAsync_keeps {set set' : EntitySet NodeHeartbeat} {nodeId : Text} {runtime clientVersion : Option Text}
    {startedAt : Option DateTime} {isLeader : Bool} {lastSeen : DateTime}
    (hinj : ∀ r ∈ set.committed, ∀ r' ∈ set.committed, r.id = r'.id → r = r')
    (hk : set.Keeps fun r => r.projectId ≠ projectId)
    (h : upsertHeartbeatAsync chars env set projectId nodeId runtime clientVersion startedAt isLeader lastSeen = .ok set') :
    set'.committed = set.committed ∧ set'.Keeps fun r => r.projectId ≠ projectId := by
  unfold upsertHeartbeatAsync at h
  obtain ⟨existing, hfind, h⟩ := except_bind_ok.1 h
  cases existing with
  | none =>
    cases h
    exact ⟨rfl, hk.add (by simp)⟩
  | some r =>
    cases h
    obtain ⟨hr, hp⟩ := EntitySet.singleOrDefault_some hfind
    simp only [Bool.and_eq_true, decide_eq_true_eq] at hp
    refine ⟨rfl, hk.modify (fun x hx hne hid => ?_) fun _ => rfl⟩
    have hxr := hinj x hx r hr hid
    simp [hxr, hp.1] at hne

theorem upsertJobDefinitionAsync_keeps {now : DateTime} {set set' : EntitySet JobDefinition}
    {d : JobDefinitionMessage × Nat} (hinj : ∀ r ∈ set.committed, ∀ r' ∈ set.committed, r.id = r'.id → r = r')
    (hk : set.Keeps fun r => r.projectId ≠ projectId)
    (h : upsertJobDefinitionAsync env projectId now set d = .ok set') :
    set'.committed = set.committed ∧ set'.Keeps fun r => r.projectId ≠ projectId := by
  unfold upsertJobDefinitionAsync at h
  obtain ⟨existing, hfind, h⟩ := except_bind_ok.1 h
  cases existing with
  | none =>
    cases h
    exact ⟨rfl, hk.add (by simp)⟩
  | some r =>
    cases h
    obtain ⟨hr, hp⟩ := EntitySet.singleOrDefault_some hfind
    simp only [Bool.and_eq_true, decide_eq_true_eq] at hp
    refine ⟨rfl, hk.modify (fun x hx hne hid => ?_) fun _ => rfl⟩
    have hxr := hinj x hx r hr hid
    simp [hxr, hp.1] at hne

/-! ## Lookups by id -/

/-- The rows of a batch of runs: those that were there, and those it added. -/
structure Batch (rows : List JobRun) (set : EntitySet JobRun) : Prop where
  committed : set.committed = rows
  covers : ∀ r ∈ rows, ∃ e ∈ set.saved, e.id = r.id
  /-- The empty id is never added. -/
  empty : ∀ e ∈ set.saved, e.id = 0 → ∃ r ∈ rows, r.id = 0

/-- One round leaves the batch alone, adds a row of the project under an id
nobody has, or assigns to whatever row has the id. -/
theorem sendRun_cases {now : DateTime} {set set' : EntitySet JobRun} {r : RunRecord × Nat}
    (h : sendRun tryParse env projectId now set r = .ok set') :
    (tryParse r.1.id = none ∧ set' = set) ∨
    ∃ id, tryParse r.1.id = some id ∧
      ((∃ row : JobRun, (∀ e ∈ set.saved, e.id ≠ id) ∧ row.projectId = projectId ∧
          row.id = (if id = 0 then env.newGuid r.2 else id) ∧ set' = set.add row) ∨
        ((∃ e ∈ set.saved, e.id = id) ∧ ∃ f : JobRun → JobRun, (∀ e, (f e).id = e.id ∧ (f e).projectId = e.projectId) ∧
          set' = set.modify JobRun.id id f)) := by
  unfold sendRun at h
  cases hp : tryParse r.1.id with
  | none =>
    simp only [hp] at h
    cases h
    exact .inl ⟨rfl, rfl⟩
  | some id =>
    refine .inr ⟨id, rfl, ?_⟩
    simp only [hp] at h
    cases hf : set.find JobRun.id id with
    | none =>
      simp only [hf] at h
      obtain ⟨_, -, h⟩ := except_bind_ok.1 h
      obtain ⟨_, -, h⟩ := except_bind_ok.1 h
      obtain ⟨_, -, h⟩ := except_bind_ok.1 h
      cases h
      exact .inl ⟨_, EntitySet.find_none hf, rfl, rfl, rfl⟩
    | some e =>
      simp only [hf] at h
      obtain ⟨_, -, h⟩ := except_bind_ok.1 h
      obtain ⟨_, -, h⟩ := except_bind_ok.1 h
      cases h
      refine .inr ⟨⟨e, EntitySet.find_some hf⟩, _, ?_, rfl⟩
      exact fun _ => ⟨rfl, rfl⟩

theorem mem_saved_modify {set : EntitySet JobRun} {id : Guid} {f : JobRun → JobRun}
    (hf : ∀ e, (f e).id = e.id ∧ (f e).projectId = e.projectId) {e : JobRun} (he : e ∈ set.saved) :
    ∃ e' ∈ (set.modify JobRun.id id f).saved, e'.id = e.id ∧ e'.projectId = e.projectId := by
  rw [EntitySet.saved_modify]
  refine ⟨_, mem_updateKey.2 ⟨e, he, rfl⟩, ?_⟩
  split
  · exact hf e
  · exact ⟨rfl, rfl⟩

theorem batch_sendRun {rows : List JobRun} {now : DateTime} {set set' : EntitySet JobRun} {r : RunRecord × Nat}
    (hb : Batch rows set) (h : sendRun tryParse env projectId now set r = .ok set') : Batch rows set' := by
  rcases sendRun_cases h with ⟨-, rfl⟩ | ⟨id, -, ⟨row, hnew, -, hid, rfl⟩ | ⟨-, f, hf, rfl⟩⟩
  · exact hb
  · refine ⟨hb.committed, fun x hx => ?_, fun e he h0 => ?_⟩
    · obtain ⟨e, he, hex⟩ := hb.covers x hx
      exact ⟨e, by rw [EntitySet.saved_add]; exact List.mem_append_left _ he, hex⟩
    · rw [EntitySet.saved_add] at he
      rcases List.mem_append.1 he with he | he
      · exact hb.empty e he h0
      · rw [List.mem_singleton.1 he, hid] at h0
        split at h0
        · exact absurd h0 (env.newGuid_ne _)
        · rename_i hne
          exact absurd h0 hne
  · refine ⟨hb.committed, fun x hx => ?_, fun e he h0 => ?_⟩
    · obtain ⟨e, he, hex⟩ := hb.covers x hx
      obtain ⟨e', he', hid, -⟩ := mem_saved_modify hf he
      exact ⟨e', he', hid.trans hex⟩
    · rw [EntitySet.saved_modify] at he
      obtain ⟨x, hx, rfl⟩ := mem_updateKey.1 he
      have hxid : (if x.id = id then f x else x).id = x.id := by
        split
        · exact (hf x).1
        · rfl
      exact hb.empty x hx (hxid ▸ h0)

/-- What one round with a usable id keeps and establishes. -/
theorem sendRun_usable {db : IngestDb} {now : DateTime} {set set' : EntitySet JobRun} {r : RunRecord × Nat}
    (hb : Batch db.tables.jobRuns set) (hk : set.Keeps fun e => e.projectId ≠ projectId)
    (hu : ∀ id, tryParse r.1.id = some id → Usable db.tables projectId id)
    (h : sendRun tryParse env projectId now set r = .ok set') :
    (set'.Keeps fun e => e.projectId ≠ projectId) ∧
      ∀ id, tryParse r.1.id = some id → ∃ e ∈ set'.saved, e.id = id ∧ e.projectId = projectId := by
  rcases sendRun_cases h with ⟨hnone, rfl⟩ | ⟨id, hparse, ⟨row, hnew, hproj, hid, rfl⟩ | ⟨⟨e, he, heid⟩, f, hf, rfl⟩⟩
  · refine ⟨hk, fun id hid => ?_⟩
    rw [hnone] at hid
    cases hid
  · refine ⟨hk.add (by simp [hproj]), fun id' hid' => ?_⟩
    obtain rfl : id = id' := Option.some.inj (hparse.symm.trans hid')
    have hne : id ≠ 0 := by
      rcases hu id hparse with ⟨x, hx, hxid, -⟩ | ⟨hne, -⟩
      · obtain ⟨e, he, hex⟩ := hb.covers x hx
        exact absurd (hex.trans hxid) (hnew e he)
      · exact hne
    rw [if_neg hne] at hid
    exact ⟨row, by rw [EntitySet.saved_add]; exact List.mem_append_right _ (List.mem_singleton.2 rfl), hid, hproj⟩
  · -- No other project's row has the id, so the entity that has it is the project's.
    have hown : ∀ x ∈ set.committed, x.projectId ≠ projectId → x.id ≠ id := by
      intro x hx hne hxid
      rw [hb.committed] at hx
      rcases hu id hparse with ⟨y, hy, hyid, hyp⟩ | ⟨-, hfree⟩
      · exact hne (db.run_inj hx hy (hxid.trans hyid.symm) ▸ hyp)
      · exact hfree x hx hxid
    refine ⟨hk.modify (fun x hx hne => hown x hx (by simpa using hne)) (fun e => by rw [(hf e).2]), ?_⟩
    intro id' hid'
    obtain rfl : id = id' := Option.some.inj (hparse.symm.trans hid')
    have hproj : e.projectId = projectId := by
      by_contra hne
      exact hown e ((hk.mem (by simpa using hne)).1 he) hne heid
    obtain ⟨e', he', h1, h2⟩ := mem_saved_modify hf he
    exact ⟨e', he', h1.trans heid, h2.trans hproj⟩

/-- No round loses a row. -/
theorem sendRun_rows {now : DateTime} {set set' : EntitySet JobRun} {r : RunRecord × Nat}
    (h : sendRun tryParse env projectId now set r = .ok set') {e : JobRun} (he : e ∈ set.saved) :
    ∃ e' ∈ set'.saved, e'.id = e.id ∧ e'.projectId = e.projectId := by
  rcases sendRun_cases h with ⟨-, rfl⟩ | ⟨id, -, ⟨row, -, -, -, rfl⟩ | ⟨-, f, hf, rfl⟩⟩
  · exact ⟨e, he, rfl, rfl⟩
  · exact ⟨e, by rw [EntitySet.saved_add]; exact List.mem_append_left _ he, rfl, rfl⟩
  · exact mem_saved_modify hf he

/-! ## Whole calls -/

theorem batch_open (rows : List JobRun) : Batch rows (.open_ rows) :=
  ⟨rfl, fun r hr => ⟨r, by simpa using hr, rfl⟩, fun e he h0 => ⟨e, by simpa using he, h0⟩⟩

/-- A batch the project may send leaves the other projects alone and is all there afterwards. -/
theorem sendRuns_usable {db : IngestDb} {t : IngestTables} {runs : List RunRecord} {reply : Reply}
    (h : sendRuns tryParse env projectId db.tables runs = .ok (t, reply))
    (hu : ∀ id ∈ Call.runIds tryParse (.sendRuns runs), Usable db.tables projectId id) :
    t.others projectId = db.tables.others projectId ∧
      ∀ id ∈ Call.runIds tryParse (.sendRuns runs), ∃ r ∈ t.jobRuns, r.id = id ∧ r.projectId = projectId := by
  unfold sendRuns at h
  obtain ⟨set, hfold, h⟩ := except_bind_ok.1 h
  cases h
  let I (set : EntitySet JobRun) : Prop :=
    Batch db.tables.jobRuns set ∧ set.Keeps fun e => e.projectId ≠ projectId
  let P (r : RunRecord × Nat) (set : EntitySet JobRun) : Prop :=
    ∀ id, tryParse r.1.id = some id → ∃ e ∈ set.saved, e.id = id ∧ e.projectId = projectId
  have h0 : I (.open_ db.tables.jobRuns) := ⟨batch_open _, EntitySet.keeps_open _ _⟩
  have hstep : ∀ set r set', r ∈ runs.zipIdx → I set →
      sendRun tryParse env projectId (env.clock 0) set r = .ok set' → I set' ∧ P r set' := by
    rintro set r set' hr ⟨hb, hk⟩ hs
    have hur : ∀ id, tryParse r.1.id = some id → Usable db.tables projectId id := fun id hid =>
      hu id (List.mem_filterMap.2 ⟨r.1, List.fst_mem_of_mem_zipIdx hr, hid⟩)
    obtain ⟨hk', hrow⟩ := sendRun_usable hb hk hur hs
    exact ⟨⟨batch_sendRun hb hs, hk'⟩, hrow⟩
  have hkeep : ∀ set r set' b, r ∈ runs.zipIdx → I set → P b set →
      sendRun tryParse env projectId (env.clock 0) set r = .ok set' → P b set' := by
    intro set r set' b _ _ hP hs id hid
    obtain ⟨e, he, heid, hep⟩ := hP id hid
    obtain ⟨e', he', h1, h2⟩ := sendRun_rows hs he
    exact ⟨e', he', h1.trans heid, h2.trans hep⟩
  obtain ⟨hb, hk⟩ := foldlM_inv I (fun set r set' hr hI hs => (hstep set r set' hr hI hs).1) h0 hfold
  refine ⟨?_, fun id hid => ?_⟩
  · have hrows : set.saved.filter (fun r => r.projectId ≠ projectId) =
        db.tables.jobRuns.filter fun r => r.projectId ≠ projectId := by
      rw [← hb.committed]
      exact hk
    unfold IngestTables.others
    rw [hrows]
  · obtain ⟨r, hr, hrid⟩ := List.mem_filterMap.1 hid
    obtain ⟨i, hi, rfl⟩ := List.mem_iff_getElem.1 hr
    exact foldlM_each I P hstep hkeep h0 hfold (runs[i], i) (by simp [List.mem_zipIdx_iff_getElem?, hi]) id hrid

/-- If every id of a batch can be read back, the project could send them all. -/
theorem usable_of_readable {db db' : IngestDb} {runs : List RunRecord} {reply : Reply}
    (h : sendRuns tryParse env projectId db.tables runs = .ok (db'.tables, reply))
    (hothers : db'.tables.others projectId = db.tables.others projectId) {id : Guid}
    (hr : ∃ r ∈ db'.tables.jobRuns, r.id = id ∧ r.projectId = projectId) : Usable db.tables projectId id := by
  unfold sendRuns at h
  obtain ⟨set, hfold, h⟩ := except_bind_ok.1 h
  have hb : Batch db.tables.jobRuns set :=
    foldlM_inv _ (fun set r set' _ hb hs => batch_sendRun hb hs) (batch_open _) hfold
  have hsaved : db'.tables.jobRuns = set.saved :=
    (congrArg (fun x : IngestTables × Reply => x.1.jobRuns) (Except.ok.inj h)).symm
  obtain ⟨e, he, heid, hep⟩ := hr
  by_cases hx : ∃ x ∈ db.tables.jobRuns, x.id = id
  · obtain ⟨x, hx, hxid⟩ := hx
    refine .inl ⟨x, hx, hxid, ?_⟩
    by_contra hne
    -- Another project's row is still there, under the id of the readable one.
    have hmem : x ∈ (db'.tables.others projectId).jobRuns := by
      rw [hothers]
      exact List.mem_filter.2 ⟨hx, by simpa using hne⟩
    have hsame : x = e := db'.run_inj (List.mem_filter.1 hmem).1 he (hxid.trans heid.symm)
    exact hne (hsame ▸ hep)
  · refine .inr ⟨?_, fun x hxm hxid => hx ⟨x, hxm, hxid⟩⟩
    rintro rfl
    obtain ⟨x, hxm, hx0⟩ := hb.empty e (hsaved ▸ he) heid
    exact hx ⟨x, hxm, hx0⟩

/-- Calls other than `SendRuns` never touch another project. -/
theorem run_others {db : IngestDb} {t : IngestTables} {call : Call} {reply : Reply}
    (h : run chars tryParse env projectId db.tables call = .ok (t, reply)) (hc : ∀ runs, call ≠ .sendRuns runs) :
    t.others projectId = db.tables.others projectId := by
  have hheart : ∀ {set : EntitySet NodeHeartbeat} {nodeId runtime clientVersion startedAt isLeader lastSeen},
      upsertHeartbeatAsync chars env (.open_ db.tables.nodeHeartbeats) projectId nodeId runtime clientVersion startedAt
        isLeader lastSeen = .ok set →
      set.saved.filter (fun r => r.projectId ≠ projectId) =
        db.tables.nodeHeartbeats.filter fun r => r.projectId ≠ projectId := by
    intro set _ _ _ _ _ _ hs
    obtain ⟨hcom, hk⟩ := upsertHeartbeatAsync_keeps (fun r hr r' hr' => db.heartbeat_inj hr hr')
      (EntitySet.keeps_open _ _) hs
    rw [EntitySet.Keeps, hcom] at hk
    exact hk
  cases call with
  | handshake request =>
    simp only [run, handshake] at h
    obtain ⟨startedAt, -, h⟩ := except_bind_ok.1 h
    obtain ⟨hearts, hh, h⟩ := except_bind_ok.1 h
    obtain ⟨defs, hd, h⟩ := except_bind_ok.1 h
    cases h
    let I (set : EntitySet JobDefinition) : Prop :=
      set.committed = db.tables.jobDefinitions ∧ set.Keeps fun r => r.projectId ≠ projectId
    have hdefs : I defs := by
      refine foldlM_inv I ?_ ⟨rfl, EntitySet.keeps_open _ _⟩ hd
      rintro set d set' - ⟨hcom, hk⟩ hs
      obtain ⟨hcom', hk'⟩ := upsertJobDefinitionAsync_keeps
        (fun r hr r' hr' => db.definition_inj (hcom ▸ hr) (hcom ▸ hr')) hk hs
      exact ⟨hcom'.trans hcom, hk'⟩
    have hrows : defs.saved.filter (fun r => r.projectId ≠ projectId) =
        db.tables.jobDefinitions.filter fun r => r.projectId ≠ projectId := by
      rw [← hdefs.1]
      exact hdefs.2
    unfold IngestTables.others
    rw [hheart hh, hrows]
  | sendHeartbeat request =>
    simp only [run, sendHeartbeat] at h
    obtain ⟨seen, -, h⟩ := except_bind_ok.1 h
    obtain ⟨hearts, hh, h⟩ := except_bind_ok.1 h
    cases h
    unfold IngestTables.others
    rw [hheart hh]
  | sendRuns runs => exact absurd rfl (hc runs)
  | sendLogs logs =>
    simp only [run, sendLogs] at h
    obtain ⟨added, ha, h⟩ := except_bind_ok.1 h
    cases h
    have hrows : ∀ row ∈ added, ∀ id, (row id).projectId = projectId := by
      refine foldlM_inv (fun added => ∀ row ∈ added, ∀ id, (row id).projectId = projectId) ?_ (by simp) ha
      rintro added ⟨entry, index⟩ added' _ hI hs
      simp only [sendLog] at hs
      split at hs
      · cases hs
        exact hI
      · obtain ⟨_, -, hs⟩ := except_bind_ok.1 hs
        cases hs
        intro row hrow
        rcases List.mem_append.1 hrow with hrow | hrow
        · exact hI row hrow
        · rw [List.mem_singleton.1 hrow]
          exact fun _ => rfl
    have hnew : (added.zipIdx.map fun x => x.1 (db.tables.nextLogId + x.2)).filter
        (fun r => r.projectId ≠ projectId) = [] := by
      rw [List.filter_eq_nil_iff]
      intro r hr
      obtain ⟨x, hx, rfl⟩ := List.mem_map.1 hr
      simpa using hrows x.1 (List.fst_mem_of_mem_zipIdx hx) _
    unfold IngestTables.others
    rw [List.filter_append, hnew, List.append_nil]

theorem run_succeeds {t t' : IngestTables} {call : Call} {reply : Reply}
    (h : run chars tryParse env projectId t call = .ok (t', reply)) : reply.succeeded = true := by
  cases call with
  | handshake request =>
    simp only [run, handshake] at h
    obtain ⟨_, -, h⟩ := except_bind_ok.1 h
    obtain ⟨_, -, h⟩ := except_bind_ok.1 h
    obtain ⟨_, -, h⟩ := except_bind_ok.1 h
    cases h
    rfl
  | sendHeartbeat request =>
    simp only [run, sendHeartbeat] at h
    obtain ⟨_, -, h⟩ := except_bind_ok.1 h
    obtain ⟨_, -, h⟩ := except_bind_ok.1 h
    cases h
    rfl
  | sendRuns runs =>
    simp only [run, sendRuns] at h
    obtain ⟨_, -, h⟩ := except_bind_ok.1 h
    cases h
    rfl
  | sendLogs logs =>
    simp only [run, sendLogs] at h
    obtain ⟨_, -, h⟩ := except_bind_ok.1 h
    cases h
    rfl

/-- For a call under a project's key: if it succeeds, the other projects' rows
are as they were and every run record it sent can be read back exactly when
every id it sent was usable; if it does not, nothing is saved. -/
theorem ingest_isolated_iff (chars : CharTable) (tryParse : Text → Option Guid) (env : IngestAmbient) (accepted : Bool)
    (db : IngestDb) (header : Option Text) (call : Call) (apiKey : ApiKey)
    (hauth : resolveAsync chars db.tables header = .ok apiKey) :
    let result := unaryServerHandler chars tryParse env accepted db header call
    (result.1.succeeded = true →
      ((result.2.tables.others apiKey.projectId = db.tables.others apiKey.projectId ∧
          ∀ id ∈ call.runIds tryParse, Readable result.2.tables apiKey.projectId id) ↔
        ∀ id ∈ call.runIds tryParse, Usable db.tables apiKey.projectId id)) ∧
      (result.1.succeeded = false → result.2 = db) := by
  have hproject : ((resolveAsync chars db.tables header).bind fun k => resolveProject (some k.projectId)) =
      .ok apiKey.projectId := by rw [hauth]; rfl
  simp only [unaryServerHandler, hproject]
  cases hrun : run chars tryParse env apiKey.projectId db.tables call with
  | error e => exact ⟨fun h => (by cases h), fun _ => rfl⟩
  | ok x =>
    obtain ⟨t, reply⟩ := x
    dsimp only
    cases hsave : IngestDb.saveChanges accepted t with
    | none => exact ⟨fun h => (by cases h), fun _ => rfl⟩
    | some db' =>
      obtain rfl := IngestDb.saveChanges_some hsave
      have hsucc := run_succeeds hrun
      refine ⟨fun _ => ?_, fun h => absurd (hsucc.symm.trans h) (by decide)⟩
      simp only [readable_iff]
      cases call with
      | sendRuns runs =>
        constructor
        · rintro ⟨hothers, hread⟩ id hid
          exact usable_of_readable hrun hothers (hread id hid)
        · exact sendRuns_usable hrun
      | handshake | sendHeartbeat | sendLogs =>
        have hothers := run_others hrun (by simp)
        exact ⟨fun _ id hid => (nomatch hid), fun _ => ⟨hothers, fun id hid => (nomatch hid)⟩⟩

end Calls

/-! ## Two projects -/

/-- Project 1 has the key `k1`, project 2 the key `k2` and the succeeded run 5. -/
def twoTenants : IngestDb where
  tables :=
    { apiKeys := [⟨11, 1, "k1".toList, [], 0, none⟩, ⟨12, 2, "k2".toList, [], 0, none⟩]
      jobDefinitions := []
      jobRuns := [⟨5, 2, "backup".toList, "n2".toList, 0, some 0, some 1, "Succeeded".toList, "Cron".toList, none, none, 1⟩]
      consoleLogs := []
      nodeHeartbeats := []
      nextLogId := 1 }
  keyed := by decide +kernel

def tenantEnv : IngestAmbient := ⟨fun _ => 9, fun _ => 77, fun _ => by decide⟩

/-- A failed run of `mail` with the given id. -/
def failedRun (id : String) : Call :=
  .sendRuns [⟨id.toList, "mail".toList, "n1".toList, none, none, none, "Failed".toList, "Cron".toList, [], []⟩]

/-- The key row of project 1. -/
def keyOfOne : ApiKey := ⟨11, 1, "k1".toList, [], 0, none⟩

theorem resolveAsync_k1 : resolveAsync ascii twoTenants.tables (some "k1".toList) = .ok keyOfOne := by decide +kernel

/-- Under the key of project 1. -/
def callAsOne (call : Call) : Reply × IngestDb :=
  unaryServerHandler ascii tryParseHyphenated tenantEnv true twoTenants (some "k1".toList) call

theorem foreignRun_rewritten :
    (callAsOne (failedRun "00000000-0000-0000-0000-000000000005")).2.tables.others keyOfOne.projectId ≠
      twoTenants.tables.others keyOfOne.projectId := by
  decide +kernel

/-- With the id of another project's run, a batch rewrites that run. -/
theorem ingest_not_isolated :
    ¬ ∀ (chars : CharTable) (tryParse : Text → Option Guid) (env : IngestAmbient) (accepted : Bool) (db : IngestDb)
      (header : Option Text) (call : Call) (apiKey : ApiKey), resolveAsync chars db.tables header = .ok apiKey →
      let result := unaryServerHandler chars tryParse env accepted db header call
      result.2.tables.others apiKey.projectId = db.tables.others apiKey.projectId ∧
        (result.1.succeeded = true → ∀ id ∈ call.runIds tryParse, Readable result.2.tables apiKey.projectId id) := by
  intro h
  obtain ⟨hothers, -⟩ := h ascii tryParseHyphenated tenantEnv true twoTenants (some "k1".toList)
    (failedRun "00000000-0000-0000-0000-000000000005") keyOfOne resolveAsync_k1
  exact foreignRun_rewritten hothers

/-- With an id nobody has, a batch is read back and the other project keeps its run. -/
theorem ingest_isolated_fresh :
    (callAsOne (failedRun "00000000-0000-0000-0000-000000000006")).1 = .ack true ∧
      (callAsOne (failedRun "00000000-0000-0000-0000-000000000006")).2.tables.others keyOfOne.projectId =
        twoTenants.tables.others keyOfOne.projectId ∧
      ∀ id ∈ (failedRun "00000000-0000-0000-0000-000000000006").runIds tryParseHyphenated,
        Readable (callAsOne (failedRun "00000000-0000-0000-0000-000000000006")).2.tables keyOfOne.projectId id := by
  have hack : (callAsOne (failedRun "00000000-0000-0000-0000-000000000006")).1 = .ack true := by decide +kernel
  have hids : (failedRun "00000000-0000-0000-0000-000000000006").runIds tryParseHyphenated = [6] := by decide +kernel
  have husable : ∀ id ∈ (failedRun "00000000-0000-0000-0000-000000000006").runIds tryParseHyphenated,
      Usable twoTenants.tables keyOfOne.projectId id := by
    intro id hid
    obtain rfl : id = 6 := by simpa [hids] using hid
    decide
  obtain ⟨hiff, -⟩ := ingest_isolated_iff ascii tryParseHyphenated tenantEnv true twoTenants (some "k1".toList)
    (failedRun "00000000-0000-0000-0000-000000000006") keyOfOne resolveAsync_k1
  have hsucc : (callAsOne (failedRun "00000000-0000-0000-0000-000000000006")).1.succeeded = true := by
    rw [hack]
    rfl
  exact ⟨hack, (hiff hsucc).2 husable⟩

end DuckRun.Dashboard

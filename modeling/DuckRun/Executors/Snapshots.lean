import DuckRun.Executors.Traces
/-!
# The snapshots of a run

`ReportRun` takes the run as it is at the call: once when it is created, and
then at every report of its execution. From one snapshot to the next only what
is open is filled in, and `FinishedAt` may move (`reported_later`); so it is for
the reports of a node, whose runs interleave (`reports_later`).
-/

namespace DuckRun.Executors

open DuckRun.Lib DuckRun.Runtime DuckRun.Runtime.JobExecutor DuckRun.Framework.JobExecutor

/-! ## From one snapshot to the next -/

/-- `run'` is the run of `run`, further on. -/
structure Later (run run' : JobRun) : Prop where
  id : run'.id = run.id
  jobName : run'.jobName = run.jobName
  createdAt : run'.createdAt = run.createdAt
  triggerSource : run'.triggerSource = run.triggerSource
  startedAt : run.startedAt ≠ none → run'.startedAt = run.startedAt
  finishedAt : run.finishedAt ≠ none → run'.finishedAt ≠ none
  errorMessage : run.errorMessage ≠ none → run'.errorMessage = run.errorMessage
  errorStackTrace : run.errorStackTrace ≠ none → run'.errorStackTrace = run.errorStackTrace

theorem later_refl (run : JobRun) : Later run run :=
  ⟨rfl, rfl, rfl, rfl, fun _ => rfl, id, fun _ => rfl, fun _ => rfl⟩

theorem eq_of_stays {α : Type*} {x y z : Option α} (h : x ≠ none → y = x) (h' : y ≠ none → z = y) (hx : x ≠ none) : z = x := by
  have hy := h hx
  exact (h' (hy ▸ hx)).trans hy

theorem Later.trans {a b c : JobRun} (h : Later a b) (h' : Later b c) : Later a c where
  id := h'.id.trans h.id
  jobName := h'.jobName.trans h.jobName
  createdAt := h'.createdAt.trans h.createdAt
  triggerSource := h'.triggerSource.trans h.triggerSource
  startedAt := eq_of_stays h.startedAt h'.startedAt
  finishedAt ha := h'.finishedAt (h.finishedAt ha)
  errorMessage := eq_of_stays h.errorMessage h'.errorMessage
  errorStackTrace := eq_of_stays h.errorStackTrace h'.errorStackTrace

section Later
variable {run : JobRun} {now : Instant}

theorem later_started (h : run.startedAt = none) : Later run (started now run) where
  id := rfl
  jobName := rfl
  createdAt := rfl
  triggerSource := rfl
  startedAt hs := absurd h hs
  finishedAt := id
  errorMessage _ := rfl
  errorStackTrace _ := rfl

theorem later_finish : Later run (finish now run) where
  id := rfl
  jobName := rfl
  createdAt := rfl
  triggerSource := rfl
  startedAt _ := rfl
  finishedAt _ := nofun
  errorMessage _ := rfl
  errorStackTrace _ := rfl

theorem later_failEarly (hs : run.startedAt = none) (hm : run.errorMessage = none) (ht : run.errorStackTrace = none)
    (message stack : String) : Later run (failEarly now message stack run) where
  id := rfl
  jobName := rfl
  createdAt := rfl
  triggerSource := rfl
  startedAt h := absurd hs h
  finishedAt _ := nofun
  errorMessage h := absurd hm h
  errorStackTrace h := absurd ht h

theorem later_assignFailure (o : Outcomes) (job : JobDescriptor) (ex : Exn) (hm : run.errorMessage = none)
    (ht : run.errorStackTrace = none) : Later run (assignFailure o job ex run) := by
  unfold assignFailure
  split <;> exact ⟨rfl, rfl, rfl, rfl, fun _ => rfl, id, fun h => absurd hm h, fun h => absurd ht h⟩

theorem later_bodyResult (o : Outcomes) (job : JobDescriptor) (hm : run.errorMessage = none) (ht : run.errorStackTrace = none) :
    Later run (bodyResult o job run) := by
  unfold bodyResult
  split
  · exact ⟨rfl, rfl, rfl, rfl, fun _ => rfl, id, fun _ => rfl, fun _ => rfl⟩
  · exact later_assignFailure o job _ hm ht
  · exact later_assignFailure o job _ hm ht

end Later

/-! ## One execution -/

theorem reported_append (before after : List Effect) : reported (before ++ after) = reported before ++ reported after :=
  List.filterMap_append

theorem reported_writes (o : Outcomes) (k : Nat) (run : JobRun) : (reported (writes o k run)).Sublist [run] := by
  unfold writes
  cases o.updateThrows k with
  | none => exact List.Sublist.refl _
  | some ex => exact List.nil_sublist _

theorem reported_closing (o : Outcomes) (k : Nat) (run : JobRun) :
    (reported (closing o k run)).Sublist [finish (o.clock k) run] := by
  have hwrites := reported_writes o k (finish (o.clock k) run)
  unfold closing
  rw [reported_append]
  show (reported (writes o k (finish (o.clock k) run)) ++ reported (if _ then _ else _)).Sublist _
  cases o.updateThrows k with
  | none => simpa [reported] using hwrites
  | some ex => simpa [reported] using hwrites

/-- The reports of an execution are among two snapshots, one further on than the other. -/
theorem reported_among (p : Package) (o : Outcomes) (job : JobDescriptor) {run : JobRun} (hs : run.startedAt = none)
    (hm : run.errorMessage = none) (ht : run.errorStackTrace = none) :
    ∃ a b, (reported (p.execute o job run).2).Sublist [a, b] ∧ Later run a ∧ Later a b := by
  by_cases hr : p.Registers o job
  swap
  · refine ⟨run, run, ?_, later_refl run, later_refl run⟩
    have hsilent : reported (p.execute o job run).2 <+: reported [.setCurrent true] := (execute_unregistered hr).filterMap _
    rw [List.prefix_nil.1 hsilent]
    exact List.nil_sublist _
  by_cases hargs : p.Unresolved o job
  · refine ⟨run, finish (o.clock 0) run, ?_, later_refl run, later_finish⟩
    rw [execute_unresolved hr hargs, reported_append]
    exact (reported_closing o 0 run).trans (List.sublist_append_right [run] _)
  by_cases hearly : p.FailsEarly o job
  · -- The `catch` reports the run, and the `finally` block again.
    obtain ⟨message, stack, htrace⟩ := @execute_early p o job run hr hearly
    let failed := failEarly (o.clock 0) message stack run
    refine ⟨failed, finish (o.clock 1) failed, ?_, later_failEarly hs hm ht message stack, later_finish⟩
    rw [htrace, reported_append, reported_append]
    exact (reported_writes o 0 failed).append (reported_closing o 1 failed)
  let running := started (o.clock 0) run
  cases hu : o.updateThrows 0 with
  | some ex =>
    refine ⟨running, finish (o.clock 1) running, ?_, later_started hs, later_finish⟩
    rw [execute_storeFails hr hearly hargs hu, reported_append]
    exact (reported_closing o 1 running).trans (List.sublist_append_right [running] _)
  | none =>
    let ended := bodyResult o job running
    have hended : Later running ended := later_bodyResult o job hm ht
    refine ⟨running, finish (o.clock 1) ended, ?_, later_started hs, hended.trans later_finish⟩
    rw [execute_starts hr hearly hargs hu, reported_append]
    exact (List.Sublist.refl [running]).append (reported_closing o 1 ended)

/-- The report of its creation, and then those of its execution: each is further on than the ones before it. -/
theorem reported_later (p : Package) (o : Outcomes) (job : JobDescriptor) {run : JobRun} (hs : run.startedAt = none)
    (hm : run.errorMessage = none) (ht : run.errorStackTrace = none) :
    (run :: reported (p.execute o job run).2).Pairwise Later := by
  obtain ⟨a, b, hsub, ha, hb⟩ := reported_among p o job hs hm ht
  have hthree : [run, a, b].Pairwise Later := by
    simp [ha, hb, ha.trans hb]
  exact hthree.sublist (hsub.cons_cons run)

/-! ## The reports of a node -/

/-- What a run has reported so far, its creation first. -/
def BackgroundRun.reports (r : BackgroundRun) : List JobRun := r.created :: reported r.trace

/-- What an event reports: `CreateAndStoreRunAsync` the new run, an execution what its next effect has. -/
def BackgroundNode.reports (s : BackgroundNode) : BackgroundEvent → List JobRun
  | .arrive job _ _ createdAt triggerSource => [createRun s.runs.length createdAt job triggerSource]
  | .act id .effect => ((s.runs[id]?).map fun r => reported r.next.toList).getD []
  | _ => []

/-- A node and the calls of `ReportRun` it has made, in order. -/
structure ReportingNode where
  node : BackgroundNode
  reports : List JobRun

def ReportingNode.start : ReportingNode := ⟨.start, []⟩

def ReportingNode.step (p : Package) (s : ReportingNode) (e : BackgroundEvent) : Option ReportingNode :=
  (s.node.step p e).map fun node => ⟨node, s.reports ++ s.node.reports e⟩

/-- The reports of run `i`. -/
def reportsOf (runs : List BackgroundRun) (i : Nat) : List JobRun := ((runs[i]?).map BackgroundRun.reports).getD []

section Run
variable {p : Package} {r r' : BackgroundRun} {stopping : Bool}

theorem reports_ask : r.ask.reports = r.reports := rfl

theorem reports_requestCancel : r.requestCancel.reports = r.reports := by
  unfold BackgroundRun.requestCancel
  split <;> rfl

/-- Only an effect reports. -/
theorem reports_act {a : RunAct} (h : r.act p stopping a = some r') :
    (a = .effect ∧ r'.reports = r.reports ++ reported r.next.toList) ∨ (a ≠ .effect ∧ r'.reports = r.reports) := by
  cases a with
  | effect =>
    simp only [BackgroundRun.act] at h
    split at h <;> cases h
    rename_i e todo hphase
    refine .inl ⟨rfl, ?_⟩
    have hnext : r.next = some e := by simp [BackgroundRun.next, hphase]
    rw [hnext]
    show r.created :: reported (r.trace ++ [e]) = _
    rw [reported_append]
    rfl
  | begin_ | throws | returns | completes | resume | elapse | stopSignals | idReturned | ends | release =>
    simp only [BackgroundRun.act] at h
    split at h <;> cases h
    exact .inr ⟨by simp, rfl⟩

/-- A run as the executor creates them. -/
def BackgroundRun.IsNew (r : BackgroundRun) (i : Nat) : Prop :=
  ∃ createdAt job triggerSource, r.created = createRun i createdAt job triggerSource

theorem Follows.reports_later {i : Nat} (h : Follows p r) (hnew : r.IsNew i) : r.reports.Pairwise Later := by
  obtain ⟨createdAt, job, triggerSource, hcreated⟩ := hnew
  have hall : (r.created :: reported (p.execute r.actual r.job r.created).2).Pairwise Later := by
    rw [hcreated]
    exact reported_later p r.actual r.job rfl rfl rfl
  exact hall.sublist ((h.begins.filterMap _).sublist.cons_cons r.created)

theorem Follows.reports_id {i : Nat} (h : Follows p r) (hnew : r.IsNew i) : ∀ run ∈ r.reports, run.id = i := by
  have hlater := List.pairwise_cons.1 (h.reports_later hnew)
  obtain ⟨createdAt, job, triggerSource, hcreated⟩ := hnew
  have hid : r.created.id = i := congrArg JobRun.id hcreated
  intro run hrun
  rcases List.mem_cons.1 hrun with rfl | hrun
  · exact hid
  · exact (hlater.1 run hrun).id.trans hid

end Run

section Node
variable {p : Package} {s s' : ReportingNode}

/-- The reports of each run are those of its trace, in order. -/
structure Reported (p : Package) (s : ReportingNode) : Prop where
  follows : ∀ (i : Nat) r, s.node.runs[i]? = some r → Follows p r
  isNew : ∀ (i : Nat) r, s.node.runs[i]? = some r → r.IsNew i
  each : ∀ i, s.reports.filter (fun run => run.id = i) = reportsOf s.node.runs i

theorem isNew_congr {i : Nat} {r r' : BackgroundRun} (h : r.IsNew i) (hreports : r.reports <+: r'.reports) : r'.IsNew i := by
  obtain ⟨createdAt, job, triggerSource, hcreated⟩ := h
  obtain ⟨_, heq⟩ := hreports
  exact ⟨createdAt, job, triggerSource, (List.cons.inj heq).1.symm.trans hcreated⟩

theorem isNew_act {i : Nat} {r r' : BackgroundRun} {stopping : Bool} {a : RunAct} (h : r.IsNew i)
    (ha : r.act p stopping a = some r') : r'.IsNew i := by
  refine isNew_congr h ?_
  rcases reports_act ha with ⟨-, hreports⟩ | ⟨-, hreports⟩
  · exact hreports ▸ List.prefix_append _ _
  · exact hreports ▸ List.prefix_refl _

theorem isNew_step {n n' : BackgroundNode} {e : BackgroundEvent} (hi : ∀ (i : Nat) r, n.runs[i]? = some r → r.IsNew i)
    (h : n.step p e = some n') : ∀ (i : Nat) r, n'.runs[i]? = some r → r.IsNew i := by
  intro i r hr
  cases moved_of_step h hr with
  | kept hold _ => exact hi i r hold
  | arrived => exact ⟨_, _, _, rfl⟩
  | asked hold => exact isNew_congr (hi i _ hold) (reports_ask ▸ List.prefix_refl _)
  | cancelled _ hold => exact isNew_congr (hi i _ hold) (reports_requestCancel ▸ List.prefix_refl _)
  | acted hold ha => exact isNew_act (hi i _ hold) ha

theorem reportsOf_modify {f : BackgroundRun → BackgroundRun} (hf : ∀ r, (f r).reports = r.reports) (runs : List BackgroundRun)
    (j i : Nat) : reportsOf (runs.modify j f) i = reportsOf runs i := by
  unfold reportsOf
  rw [List.getElem?_modify]
  cases runs[i]? with
  | none => rfl
  | some r =>
    by_cases hji : j = i
    · simp [hji, hf]
    · simp [hji]

theorem reportsOf_snoc (runs : List BackgroundRun) (r : BackgroundRun) (i : Nat) :
    reportsOf (runs ++ [r]) i = reportsOf runs i ++ if runs.length = i then r.reports else [] := by
  unfold reportsOf
  by_cases hi : runs.length = i
  · subst hi
    simp
  · rw [if_neg hi, List.append_nil, List.getElem?_append]
    split
    · rfl
    · rw [List.getElem?_eq_none (l := [r]) (by simp; omega), List.getElem?_eq_none (l := runs) (by omega)]

theorem reportsOf_set {runs : List BackgroundRun} {j : Nat} {r : BackgroundRun} (hr : runs[j]? = some r) (r' : BackgroundRun) (i : Nat) :
    reportsOf (runs.set j r') i = if j = i then r'.reports else reportsOf runs i := by
  have hlt := (List.getElem?_eq_some_iff.1 hr).1
  unfold reportsOf
  rw [List.getElem?_set, if_pos hlt]
  split <;> rfl

theorem reports_at_act {n : BackgroundNode} {id : Nat} {a : RunAct} {r r' : BackgroundRun} (hr : n.runs[id]? = some r)
    (ha : r.act p n.stopping a = some r') : r'.reports = r.reports ++ n.reports (.act id a) := by
  rcases reports_act ha with ⟨rfl, hreports⟩ | ⟨hne, hreports⟩
  · rw [hreports, BackgroundNode.reports, hr]
    rfl
  · have hnone : n.reports (.act id a) = [] := by
      cases a <;> first | rfl | exact absurd rfl hne
    rw [hreports, hnone, List.append_nil]

theorem each_act (hi : Reported p s) {id : Nat} {a : RunAct} {r r' : BackgroundRun} (hr : s.node.runs[id]? = some r)
    (ha : r.act p s.node.stopping a = some r') (i : Nat) :
    reportsOf s.node.runs i ++ (s.node.reports (.act id a)).filter (fun run => run.id = i) =
      reportsOf (s.node.runs.set id r') i := by
  have hreports := reports_at_act hr ha
  have hid : ∀ run ∈ s.node.reports (.act id a), run.id = id := by
    intro run hrun
    refine (follows_act (hi.follows id r hr) ha).reports_id (isNew_act (hi.isNew id r hr) ha) run ?_
    rw [hreports]
    exact List.mem_append_right _ hrun
  rw [reportsOf_set hr]
  by_cases hidi : id = i
  · subst hidi
    rw [if_pos rfl, hreports, List.filter_eq_self.2 fun run hrun => by simpa using hid run hrun]
    simp [reportsOf, hr]
  · rw [if_neg hidi, List.filter_eq_nil_iff.2 fun run hrun => by simpa [hid run hrun] using hidi, List.append_nil]

theorem each_step {e : BackgroundEvent} (hi : Reported p s) (h : s.step p e = some s') (i : Nat) :
    s'.reports.filter (fun run => run.id = i) = reportsOf s'.node.runs i := by
  obtain ⟨node, hnode, rfl⟩ := Option.map_eq_some_iff.1 h
  rw [List.filter_append, hi.each]
  cases e with
  | arrive job returns outcomes createdAt triggerSource =>
    cases hnode
    rw [reportsOf_snoc]
    congr 1
    by_cases hid : s.node.runs.length = i
    · simp [BackgroundNode.reports, createRun, hid, BackgroundRun.reports, BackgroundRun.new, reported]
    · simp [BackgroundNode.reports, createRun, hid]
  | stop =>
    cases hnode
    exact List.append_nil _
  | lookup id =>
    cases hnode
    exact (List.append_nil _).trans (reportsOf_modify (fun _ => reports_ask) _ _ _).symm
  | cancel id =>
    simp only [BackgroundNode.step] at hnode
    split at hnode <;> cases hnode
    exact (List.append_nil _).trans (reportsOf_modify (fun _ => reports_requestCancel) _ _ _).symm
  | act id a =>
    simp only [BackgroundNode.step] at hnode
    split at hnode
    · rename_i r hr
      obtain ⟨r', ha, rfl⟩ := Option.map_eq_some_iff.1 hnode
      exact each_act hi hr ha i
    · cases hnode

theorem reported_step {e : BackgroundEvent} (hi : Reported p s) (h : s.step p e = some s') : Reported p s' := by
  obtain ⟨node, hnode, rfl⟩ := Option.map_eq_some_iff.1 h
  exact { follows := follows_step hi.follows hnode, isNew := isNew_step hi.isNew hnode, each := each_step hi h }

theorem reported_exec {es : List BackgroundEvent} (h : exec (ReportingNode.step p) .start es = some s) : Reported p s :=
  exec_inv (Reported p) (fun _ _ _ hi hs => reported_step hi hs)
    { follows := fun i r hr => by simp [ReportingNode.start, BackgroundNode.start] at hr
      isNew := fun i r hr => by simp [ReportingNode.start, BackgroundNode.start] at hr
      each := fun i => by simp [ReportingNode.start, BackgroundNode.start, reportsOf] } h

/-- However the runs of a node interleave, a report of a run is further on than the ones before it. -/
theorem reports_later {es : List BackgroundEvent} (h : exec (ReportingNode.step p) .start es = some s) :
    s.reports.Pairwise fun run run' => run.id = run'.id → Later run run' := by
  have hs := reported_exec h
  refine pairwise_of_keys JobRun.id fun i => ?_
  rw [hs.each, reportsOf]
  cases hr : s.node.runs[i]? with
  | none => exact List.Pairwise.nil
  | some r => exact (hs.follows i r hr).reports_later (hs.isNew i r hr)

/-- The node reports only runs it has. -/
theorem reports_known {es : List BackgroundEvent} (h : exec (ReportingNode.step p) .start es = some s) :
    ∀ run ∈ s.reports, run.id < s.node.runs.length := by
  intro run hrun
  have hmem : run ∈ reportsOf s.node.runs run.id := by
    rw [← (reported_exec h).each]
    exact List.mem_filter.2 ⟨hrun, by simp⟩
  by_contra hlt
  rw [reportsOf, List.getElem?_eq_none (by omega)] at hmem
  cases hmem

end Node

end DuckRun.Executors

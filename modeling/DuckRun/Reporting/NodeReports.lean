import DuckRun.Executors.Snapshots
import DuckRun.Reporting.GrpcDashboardReporter
/-!
# What a node reports

The reporter gets the runs of the executors, each under the id `Guid.NewGuid()`
drew for it. Between two snapshots of a run nothing is undone (`grows_of_node`),
which is what the rows of the dashboard follow their reports by.
-/

namespace DuckRun.Reporting

open DuckRun.Lib DuckRun.Dashboard DuckRun.Executors

/-- The run under the id that was drawn for it. -/
def drawn (guid : Nat → Guid) (run : Runtime.JobRun) : Runtime.JobRun := { run with id := (guid run.id).toNat }

/-- The reports of a node with these runs, whose ids are drawn apart and none of them empty. -/
structure ReportsOf (s : ReportingNode) (guid : Nat → Guid) (runs : List ReportedRun) : Prop where
  apart : Set.InjOn guid {i | i < s.node.runs.length}
  named : ∀ i < s.node.runs.length, guid i ≠ 0
  runs : runs.map ReportedRun.run = s.reports.map (drawn guid)

theorem text_stays {x y : Option String} (h : x ≠ none → y = x) (hx : x.getD "" ≠ "") : y.getD "" ≠ "" := by
  have hne : x ≠ none := fun hnone => hx (by rw [hnone]; rfl)
  rwa [h hne]

section Reports
variable {guid : Nat → Guid} {r r' : ReportedRun} {run run' : Runtime.JobRun}

theorem id_drawn (h : r.run = drawn guid run) : r.id = guid run.id := by
  simp [ReportedRun.id, h, drawn]

theorem grows_drawn (h : Later run run') (hr : r.run = drawn guid run) (hr' : r'.run = drawn guid run') : Grows r r' where
  createdAt := by
    rw [hr, hr']
    exact h.createdAt
  startedAt hs := by
    rw [hr] at hs
    rw [hr']
    exact (h.startedAt hs).symm ▸ hs
  finishedAt := by
    rw [hr, hr']
    exact h.finishedAt
  errorMessage := by
    rw [hr, hr']
    exact text_stays h.errorMessage
  errorStackTrace := by
    rw [hr, hr']
    exact text_stays h.errorStackTrace

end Reports

section Node
variable {p : Package} {es : List BackgroundEvent} {s : ReportingNode} {guid : Nat → Guid} {runs : List ReportedRun}

theorem named_of_node (h : exec (ReportingNode.step p) .start es = some s) (hruns : ReportsOf s guid runs) :
    ∀ r ∈ runs, r.id ≠ 0 := by
  intro r hr
  have hmem : r.run ∈ s.reports.map (drawn guid) := hruns.runs ▸ List.mem_map_of_mem hr
  obtain ⟨run, hrun, heq⟩ := List.mem_map.1 hmem
  rw [id_drawn heq.symm]
  exact hruns.named run.id (reports_known h run hrun)

/-- Whatever the executors of a node meet, its snapshots grow. -/
theorem grows_of_node (h : exec (ReportingNode.step p) .start es = some s) (hruns : ReportsOf s guid runs) :
    runs.Pairwise fun r r' => r.id = r'.id → Grows r r' := by
  have hknown := reports_known h
  have hdrawn : (s.reports.map (drawn guid)).Pairwise fun x y =>
      ∃ run run', x = drawn guid run ∧ y = drawn guid run' ∧ (guid run.id = guid run'.id → Later run run') := by
    refine List.pairwise_map.2 ((reports_later h).imp_of_mem fun {run run'} hmem hmem' hlater => ?_)
    exact ⟨run, run', rfl, rfl, fun hid => hlater (hruns.apart (hknown run hmem) (hknown run' hmem') hid)⟩
  rw [← hruns.runs] at hdrawn
  refine (List.pairwise_map.1 hdrawn).imp ?_
  rintro r r' ⟨run, run', hr, hr', hlater⟩ hid
  rw [id_drawn hr, id_drawn hr'] at hid
  exact grows_drawn (hlater hid) hr hr'

/-- On a dashboard that has none of its runs yet, the reports of a node are steady. -/
theorem steady_of_node (h : exec (ReportingNode.step p) .start es = some s) (hruns : ReportsOf s guid runs) {before : IngestDb}
    (hnew : ∀ r ∈ runs, rowOf before r.id = none) : Steady before runs :=
  ⟨named_of_node h hruns, grows_of_node h hruns, hnew⟩

end Node

end DuckRun.Reporting

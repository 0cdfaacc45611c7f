import DuckRun.Executors.Traces
/-!
# How a run that was cut short ends

The state a run ends in is read off its exception and its timeout source, after
the body is over: an `OperationCanceledException` is TimedOut if the timeout has
elapsed by then and Cancelled if not, and anything else is not cut short at all.
That says what signalled the token exactly when the body answers to the token:
it ends in such an exception if the token was signalled and only then.
-/

namespace DuckRun.Executors

open DuckRun.Lib DuckRun.Runtime DuckRun.Runtime.JobExecutor

/-- The run is cut short: the `catch` finds an `OperationCanceledException`. -/
def BackgroundRun.cutShort (r : BackgroundRun) : Bool := (caught r.actual).any Exn.isCanceled

/-! ## The two sides -/

/-- TimedOut is for a timeout that elapsed before the body completed and before
any request, and Cancelled only for a request before the body completed. -/
structure Classified (r : BackgroundRun) : Prop where
  timedOut : r.run.state = .timedOut ↔ r.signalByEnd = some .timeout
  cancelled : r.run.state = .cancelled → r.signalByEnd = some .request

/-- A run is cut short by the token, by its timeout if that has elapsed when the
exception is classified and otherwise by a request; and one that is not cut
short has completed before its timeout signalled the token. -/
def Honours (r : BackgroundRun) : Prop :=
  if r.cutShort then r.signalByEnd = some (if r.timedOut then .timeout else .request) else r.signalByEnd ≠ some .timeout

/-- Only a job with a timeout times out. -/
def Timed (r : BackgroundRun) : Prop := (r.elapsed = true ∨ r.timedOut = true) → r.job.timeout.isSome = true

section Run
variable {p : Package} {r r' : BackgroundRun} {stopping : Bool}

theorem timed_act {a : RunAct} (h : Timed r) (ha : r.act p stopping a = some r') : Timed r' := by
  cases a with
  | resume =>
    simp only [BackgroundRun.act] at ha
    split at ha <;> cases ha
    exact fun hor => h (.inl (hor.elim id id))
  | elapse =>
    simp only [BackgroundRun.act] at ha
    split at ha <;> cases ha
    rename_i htimeout
    exact fun _ => htimeout.1
  | effect | throws | returns | completes | begin_ | stopSignals | idReturned | ends | release =>
    simp only [BackgroundRun.act] at ha
    split at ha <;> cases ha
    exact h

/-- A run that has been through its body ends as the body did. -/
theorem Follows.final_state (h : Follows p r) (hover : r.phase = .ended ∨ r.phase = .released) (hbody : r.body ≠ .idle) :
    r.run.state = (bodyResult r.actual r.job (started (r.actual.clock 0) r.created)).state := by
  have hreach : p.ReachesBody r.actual r.job := reachesBody_actual.2 (h.reached hbody)
  have hrun : r.run = finish (r.actual.clock 1) (bodyResult r.actual r.job (started (r.actual.clock 0) r.created)) := by
    rw [h.run, h.whole hover, execute_reaches hreach]
    exact lastAssigned_closing r.actual 1 (bodyResult r.actual r.job (started (r.actual.clock 0) r.created)) _
  rw [hrun]
  rfl

/-- The classification is right exactly when the body honours the token. -/
theorem Follows.honours_iff (h : Follows p r) (ht : Timed r) (hover : r.phase = .ended ∨ r.phase = .released)
    (hbody : r.body ≠ .idle) : Classified r ↔ Honours r := by
  have hstate := h.final_state hover hbody
  rw [bodyResult_state] at hstate
  have hflag : r.actual.timedOut = r.timedOut := rfl
  have htimeout : (r.job.timeout.isSome && r.timedOut) = r.timedOut := by
    cases hto : r.timedOut with
    | false => rw [Bool.and_false]
    | true => rw [ht (.inr hto), Bool.and_true]
  rw [hflag, htimeout] at hstate
  unfold Honours BackgroundRun.cutShort
  generalize hsignal : r.signalByEnd = signal
  have hclassified : Classified r ↔ (r.run.state = .timedOut ↔ signal = some .timeout) ∧ (r.run.state = .cancelled → signal = some .request) :=
    ⟨fun h => hsignal ▸ ⟨h.timedOut, h.cancelled⟩, fun h => ⟨hsignal ▸ h.1, hsignal ▸ h.2⟩⟩
  rw [hclassified, hstate]
  cases hc : caught r.actual with
  | none => simp
  | some ex =>
    cases hex : ex.isCanceled with
    | false => simp [hex]
    | true =>
      -- With the timeout elapsed the state is TimedOut, without it Cancelled.
      cases hto : r.timedOut with
      | true => simp [hex]
      | false =>
        simp only [hex, Option.any_some, if_true, Bool.false_eq_true, if_false]
        constructor
        · exact fun h => h.2 trivial
        · rintro rfl
          simp

end Run

theorem timed_exec {p : Package} {es : List BackgroundEvent} {s : BackgroundNode}
    (h : exec (BackgroundNode.step p) .start es = some s) : ∀ (i : Nat) r, s.runs[i]? = some r → Timed r := by
  refine exec_inv (fun s => ∀ (i : Nat) r, s.runs[i]? = some r → Timed r) (fun s e s' hi hs i r hr => ?_) (fun i r hr => ?_) h
  · cases moved_of_step hs hr with
    | kept hold _ => exact hi i r hold
    | arrived => simp [Timed, BackgroundRun.new]
    | @asked _ r hold => exact (hi i r hold : Timed r)
    | @cancelled _ r hmem hold =>
      unfold BackgroundRun.requestCancel
      split <;> exact hi i r hold
    | acted hold ha => exact timed_act (hi i _ hold) ha
  · simp [BackgroundNode.start] at hr

/-- In any node, whatever its runs and the calls on them do: the state a run
ends in is classified rightly exactly when its body honours the token. -/
theorem classified_iff (p : Package) (es : List BackgroundEvent) (s : BackgroundNode)
    (hrun : exec (BackgroundNode.step p) .start es = some s) (i : Nat) (r : BackgroundRun) (hr : s.runs[i]? = some r)
    (hover : r.phase = .ended ∨ r.phase = .released) (hbody : r.body ≠ .idle) : Classified r ↔ Honours r :=
  (follows_exec hrun i r hr).honours_iff (timed_exec hrun i r hr) hover hbody

/-- The body does not look at its token and returns after its timeout has elapsed. -/
def ignoresTimeout : List BackgroundEvent :=
  alone .nothing quietOutcomes (toBody ++ [.elapse, .returns, .resume] ++ List.replicate 6 .effect ++ [.ends])

theorem succeeds_past_timeout :
    ¬ ∀ (p : Package) (es : List BackgroundEvent) (s : BackgroundNode), exec (BackgroundNode.step p) .start es = some s →
      ∀ (i : Nat) r, s.runs[i]? = some r → r.phase = .ended ∨ r.phase = .released → r.body ≠ .idle → Classified r := by
  intro h
  obtain ⟨s, hs, r, hr, hover, hbody, hstate⟩ : ∃ s, exec (BackgroundNode.step .core) .start ignoresTimeout = some s ∧
      ∃ r, s.runs[0]? = some r ∧ r.phase = .ended ∧ r.body = .completed (some .timeout) (.ok ()) ∧ r.run.state = .succeeded :=
    ⟨_, rfl, _, rfl, rfl, rfl, rfl⟩
  have hclassified := h .core _ s hs 0 r hr (.inl hover) (by simp [hbody])
  have htimedOut := hclassified.timedOut.2 (by simp [BackgroundRun.signalByEnd, hbody])
  rw [hstate] at htimedOut
  cases htimedOut

/-- A body that throws when its timeout signals the token. -/
def honoursTimeout : List BackgroundEvent :=
  alone .nothing quietOutcomes (toBody ++
    [.elapse, .throws (.targetInvocation "thrown" "" (some (.operationCanceled "canceled" ""))), .resume] ++
    List.replicate 6 .effect ++ [.ends])

theorem classified_honoursTimeout :
    ∃ s, exec (BackgroundNode.step .core) .start honoursTimeout = some s ∧
      ∃ r, s.runs[0]? = some r ∧ r.run.state = .timedOut ∧ Classified r := by
  obtain ⟨s, hs, r, hr, hover, hbody, hcut, htimedOut, hstate⟩ :
      ∃ s, exec (BackgroundNode.step .core) .start honoursTimeout = some s ∧ ∃ r, s.runs[0]? = some r ∧ r.phase = .ended ∧
        r.body = .threw (some .timeout) (.targetInvocation "thrown" "" (some (.operationCanceled "canceled" ""))) ∧
        r.cutShort = true ∧ r.timedOut = true ∧ r.run.state = .timedOut :=
    ⟨_, rfl, _, rfl, rfl, rfl, rfl, rfl, rfl⟩
  refine ⟨s, hs, r, hr, hstate, (classified_iff .core _ s hs 0 r hr (.inl hover) (by simp [hbody])).2 ?_⟩
  unfold Honours BackgroundRun.signalByEnd
  rw [hcut, htimedOut, hbody]
  rfl

end DuckRun.Executors

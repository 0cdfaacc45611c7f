import DuckRun.Executors.LiveTable
/-!
# Cancel requests

`TriggerAsync` returns the id of a run whose background task may not have begun.
A cancel request that comes before the run is in `_live` finds nothing and is
forgotten, and so is one whose `Cancel` comes after the body. A request that
finds the run and cancels while the body goes on is heard.
-/

namespace DuckRun.Executors

open DuckRun.Lib DuckRun.Runtime DuckRun.Runtime.JobExecutor

/-- The body of a run that was asked to cancel is not over before its token is signalled. -/
def Heard (r : BackgroundRun) : Prop := r.asked = true → r.bodyOver → r.signalByEnd ≠ none

/-- The act ends the body, or the execution with its token. -/
def RunAct.closes (r : BackgroundRun) : RunAct → Prop
  | .throws _ | .completes _ | .ends => True
  | .returns => r.returns.pends = false
  | _ => False

/-- While the token is not signalled: a request between the return of the id and
`FinishedAt` finds the run, with its body not over; and no request has found a
run and not come to `Cancel` when the body or the execution ends. -/
structure InTime (s : BackgroundNode) (e : BackgroundEvent) : Prop where
  found : ∀ (i : Nat) r, e = .lookup i → s.runs[i]? = some r → r.idReturned = true → r.run.finishedAt = none →
    r.signalByEnd = none → i ∈ s.live ∧ ¬ r.bodyOver
  cancelled : ∀ (i : Nat) r a, e = .act i a → s.runs[i]? = some r → a.closes r → r.signalByEnd = none → i ∉ s.cancels

/-- The token is signalled by the end of the body, or some request is about to do it. -/
def Served (r : BackgroundRun) (onItsWay : Prop) : Prop := r.signalByEnd ≠ none ∨ (onItsWay ∧ r.hasToken ∧ ¬ r.bodyOver)

section Run
variable {p : Package} {r r' : BackgroundRun} {stopping : Bool} {onItsWay : Prop}

theorem Served.heard (h : r.asked = true → Served r onItsWay) : Heard r := by
  intro hasked hover
  rcases h hasked with hsignal | ⟨-, -, hnot⟩
  · exact hsignal
  · exact absurd hover hnot

/-- A signal stays, and a body that is not over sees a new one. -/
theorem signalByEnd_signalled (cause : Cause) (h : r.signalByEnd ≠ none ∨ ¬ r.bodyOver) :
    (r.signalled cause).signalByEnd ≠ none := by
  unfold BackgroundRun.signalByEnd BackgroundRun.bodyOver at h
  unfold BackgroundRun.signalByEnd BackgroundRun.signalled
  cases hb : r.body with
  | idle | running | pending => simp
  | threw | completed => simpa [hb] using h

theorem asked_act {a : RunAct} (ha : r.act p stopping a = some r') : r'.asked = r.asked := by
  cases a with
  | begin_ | effect | throws | returns | completes | resume | elapse | stopSignals | idReturned | ends | release =>
    simp only [BackgroundRun.act] at ha
    split at ha <;> cases ha
    rfl

/-- No act takes a signal back. -/
theorem Follows.keepsSignal {a : RunAct} (h : Follows p r) (ha : r.act p stopping a = some r') (hs : r.signalByEnd ≠ none) :
    r'.signalByEnd ≠ none := by
  cases a with
  | effect =>
    simp only [BackgroundRun.act] at ha
    split at ha <;> cases ha
    rename_i e todo hphase
    have hsignal : r.signal ≠ none → (r.perform stopping e todo).signal ≠ none := by
      intro hr
      show (if e = .register ∧ stopping = true then some .request else r.signal) ≠ none
      split
      · simp
      · exact hr
    unfold BackgroundRun.signalByEnd at hs ⊢
    by_cases he : e = .invoked
    · subst he
      have hidle : r.body = .idle := by
        rw [h.idle, (h.reaches hphase).2]
        exact invoked_notMem_before
      rw [hidle] at hs
      exact hsignal hs
    · have hbody : (r.perform stopping e todo).body = r.body := if_neg he
      rw [hbody]
      cases hb : r.body with
      | idle | running | pending =>
        rw [hb] at hs
        exact hsignal hs
      | threw | completed =>
        rw [hb] at hs
        exact hs
  | throws ex =>
    simp only [BackgroundRun.act] at ha
    split at ha <;> cases ha
    simpa [BackgroundRun.signalByEnd, *] using hs
  | returns =>
    simp only [BackgroundRun.act] at ha
    split at ha <;> cases ha
    rename_i hb
    cases hp : r.returns.pends <;> simpa [BackgroundRun.signalByEnd, hb] using hs
  | completes ending =>
    simp only [BackgroundRun.act] at ha
    split at ha <;> cases ha
    simpa [BackgroundRun.signalByEnd, *] using hs
  | elapse =>
    simp only [BackgroundRun.act] at ha
    split at ha <;> cases ha
    exact signalByEnd_signalled .timeout (.inl hs)
  | stopSignals =>
    simp only [BackgroundRun.act] at ha
    split at ha <;> cases ha
    exact signalByEnd_signalled .request (.inl hs)
  | begin_ | resume | idReturned | ends | release =>
    simp only [BackgroundRun.act] at ha
    split at ha <;> cases ha
    exact hs

/-- Only what closes the run keeps a request from its token. -/
theorem keepsToken {a : RunAct} (ha : r.act p stopping a = some r') (hopen : ¬ a.closes r) (ht : r.hasToken)
    (hb : ¬ r.bodyOver) : r'.hasToken ∧ ¬ r'.bodyOver := by
  obtain ⟨hreg, hended, hreleased⟩ := ht
  cases a with
  | effect =>
    simp only [BackgroundRun.act] at ha
    split at ha <;> cases ha
    rename_i e todo _
    have hphase : (r.perform stopping e todo).phase = .inBody ∨ (r.perform stopping e todo).phase = .executing todo := by
      show (if e = .invoked then RunPhase.inBody else .executing todo) = _ ∨
        (if e = .invoked then RunPhase.inBody else .executing todo) = _
      split <;> simp
    have hbody : (r.perform stopping e todo).body = .running ∨ (r.perform stopping e todo).body = r.body := by
      show (if e = .invoked then Body.running else r.body) = _ ∨ (if e = .invoked then Body.running else r.body) = _
      split <;> simp
    refine ⟨⟨List.mem_append_left _ hreg, ?_, ?_⟩, ?_⟩
    · rcases hphase with h | h <;> simp [h]
    · rcases hphase with h | h <;> simp [h]
    · unfold BackgroundRun.bodyOver at hb ⊢
      rcases hbody with h | h
      · rw [h]
        exact id
      · rw [h]
        exact hb
  | returns =>
    simp only [BackgroundRun.act] at ha
    split at ha <;> cases ha
    have hpends : r.returns.pends = true := by simpa [RunAct.closes] using hopen
    refine ⟨⟨hreg, hended, hreleased⟩, ?_⟩
    simp [BackgroundRun.bodyOver, hpends]
  | throws | completes | ends => exact absurd trivial hopen
  | release =>
    simp only [BackgroundRun.act] at ha
    split at ha <;> cases ha
    exact absurd ‹_› hended
  | begin_ | resume =>
    simp only [BackgroundRun.act] at ha
    split at ha <;> cases ha
    exact ⟨⟨hreg, by simp, by simp⟩, hb⟩
  | elapse | stopSignals | idReturned =>
    simp only [BackgroundRun.act] at ha
    split at ha <;> cases ha
    exact ⟨⟨hreg, hended, hreleased⟩, hb⟩

theorem Follows.served_act {a : RunAct} (h : Follows p r) (ha : r.act p stopping a = some r')
    (hopen : a.closes r → r.signalByEnd = none → ¬ onItsWay) (hs : Served r onItsWay) : Served r' onItsWay := by
  rcases hs with hs | ⟨hway, ht, hb⟩
  · exact .inl (h.keepsSignal ha hs)
  · by_cases hc : a.closes r
    · by_cases hs : r.signalByEnd = none
      · exact absurd hway (hopen hc hs)
      · exact .inl (h.keepsSignal ha hs)
    · exact .inr ⟨hway, keepsToken ha hc ht hb⟩

/-- An execution that has registered its run and is over has set `FinishedAt`. -/
theorem Follows.finished (h : Follows p r) (hreg : .register ∈ r.trace) (hover : r.isOver) : r.run.finishedAt ≠ none := by
  have hregisters : p.Registers r.actual r.job := registers_actual.2 (h.registers hreg)
  obtain ⟨before, k, last, htrace, -, -⟩ := @execute_closes p r.actual r.job r.created hregisters
  rw [h.run, h.whole hover, htrace, lastAssigned_append, lastAssigned_closing]
  nofun

/-- What is listed has its token, until it is finished. -/
theorem Follows.token (h : Follows p r) (hlisted : flag listing false r.trace = true) (hfinished : r.run.finishedAt = none) :
    r.hasToken := by
  obtain ⟨hreg, -⟩ := h.listed_iff.1 hlisted
  exact ⟨hreg, fun he => h.finished hreg (.inl he) hfinished, fun he => h.finished hreg (.inr he) hfinished⟩

theorem Served.requestCancel (hs : Served r True) : r.requestCancel.signalByEnd ≠ none := by
  unfold BackgroundRun.requestCancel
  rcases hs with hs | ⟨-, ht, hb⟩
  · split
    · exact signalByEnd_signalled .request (.inl hs)
    · exact hs
  · rw [if_pos ht]
    exact signalByEnd_signalled .request (.inr hb)

end Run

/-! ## The requests of a node -/

section Node
variable {p : Package} {s s' : BackgroundNode}

theorem cancels_step {e : BackgroundEvent} {i : Nat} (h : s.step p e = some s') (he : e ≠ .cancel i) (hi : i ∈ s.cancels) :
    i ∈ s'.cancels := by
  cases e with
  | arrive | stop =>
    cases h
    exact hi
  | lookup id =>
    cases h
    show i ∈ if id ∈ s.live then id :: s.cancels else s.cancels
    split
    · exact List.mem_cons_of_mem _ hi
    · exact hi
  | cancel id =>
    simp only [BackgroundNode.step] at h
    split at h <;> cases h
    have hne : i ≠ id := fun hid => he (congrArg _ hid.symm)
    exact (List.mem_erase_of_ne hne).2 hi
  | act id a =>
    simp only [BackgroundNode.step] at h
    split at h
    · obtain ⟨r', -, rfl⟩ := Option.map_eq_some_iff.1 h
      exact hi
    · cases h

/-- Every run that was asked to cancel is signalled, or a request is on its way to it. -/
def AllServed (s : BackgroundNode) : Prop := ∀ (i : Nat) r, s.runs[i]? = some r → r.asked = true → Served r (i ∈ s.cancels)

theorem allServed_step {e : BackgroundEvent} (hf : ∀ (i : Nat) r, s.runs[i]? = some r → Follows p r) (ht : Tabled s)
    (hi : AllServed s) (hc : InTime s e) (h : s.step p e = some s') : AllServed s' := by
  intro i r hr hasked
  cases moved_of_step h hr with
  | kept hold hplace =>
    have hway := cancels_step h (i := i) (fun he => hplace (he ▸ rfl))
    exact (hi i r hold hasked).imp id fun ⟨hcancel, hrest⟩ => ⟨hway hcancel, hrest⟩
  | arrived => cases hasked
  | @asked _ r hold =>
    have hway := cancels_step h (i := i) nofun
    by_cases hs : r.signalByEnd = none
    · refine .inr ?_
      by_cases hbefore : r.asked = true
      · rcases hi i r hold hbefore with hsignal | ⟨hcancel, hrest⟩
        · exact absurd hs hsignal
        · exact ⟨hway hcancel, hrest⟩
      · -- This request is the first that counts, and finds the run.
        obtain ⟨hreturned, hfinished⟩ : r.idReturned = true ∧ r.run.finishedAt = none := by
          simpa [BackgroundRun.ask, hbefore] using hasked
        obtain ⟨hlive, hbody⟩ := hc.found i r rfl hold hreturned hfinished hs
        have htoken := (hf i r hold).token ((ht.listed i r hold).1 hlive) hfinished
        refine ⟨?_, htoken, hbody⟩
        cases h
        show i ∈ if i ∈ s.live then i :: s.cancels else s.cancels
        rw [if_pos hlive]
        exact List.mem_cons_self
    · exact .inl hs
  | @cancelled _ r hmem hold =>
    have hbefore : r.asked = true := by
      unfold BackgroundRun.requestCancel at hasked
      split at hasked <;> exact hasked
    exact .inl (Served.requestCancel ((hi i r hold hbefore).imp id fun ⟨_, hrest⟩ => ⟨trivial, hrest⟩))
  | @acted _ r _ a hold ha =>
    have hway := cancels_step h (i := i) nofun
    rw [asked_act ha] at hasked
    have hserved := (hf i r hold).served_act ha (hc.cancelled i r a rfl hold) (hi i r hold hasked)
    exact hserved.imp id fun ⟨hcancel, hrest⟩ => ⟨hway hcancel, hrest⟩

end Node

/-- In any node, whatever its runs and the calls on them do: when every request
finds its run and cancels it in time, no request is lost. -/
theorem cancel_heard (p : Package) (es : List BackgroundEvent) (s : BackgroundNode)
    (hrun : exec (BackgroundNode.step p) .start es = some s) (htime : Along (BackgroundNode.step p) InTime .start es) :
    ∀ (i : Nat) r, s.runs[i]? = some r → Heard r := by
  have hinv : (∀ (i : Nat) r, s.runs[i]? = some r → Follows p r) ∧ Tabled s ∧ AllServed s := by
    refine exec_inv_along InTime (fun s => (∀ (i : Nat) r, s.runs[i]? = some r → Follows p r) ∧ Tabled s ∧ AllServed s)
      ?_ ⟨?_, ⟨?_, ?_⟩, ?_⟩ htime hrun
    · rintro s e s' ⟨hf, ht, hi⟩ hc hs
      exact ⟨follows_step hf hs, tabled_step ht hs, allServed_step hf ht hi hc hs⟩
    all_goals simp [BackgroundNode.start, AllServed]
  intro i r hr
  exact Served.heard (hinv.2.2 i r hr)

/-- The id is returned and the run invokes its body. -/
def atBody : List BackgroundEvent := alone .nothing quietOutcomes (.idReturned :: toBody)

/-- Then somebody cancels it, and the body throws. -/
def cancelledInTime : List BackgroundEvent :=
  atBody ++ [.lookup 0, .cancel 0, .act 0 (.throws (.targetInvocation "thrown" "" (some (.operationCanceled "canceled" ""))))]

/-- Nobody asks and nothing closes. -/
def Quiet (e : BackgroundEvent) : Prop :=
  (∀ i, e ≠ .lookup i) ∧ ∀ i a, e = .act i a → ∀ r, ¬ a.closes r

theorem inTime_of_quiet {s : BackgroundNode} {e : BackgroundEvent} (h : Quiet e) : InTime s e where
  found i _ he := absurd he (h.1 i)
  cancelled i r a he _ hc := absurd hc (h.2 i a he r)

theorem quiet_cancel (i : Nat) : Quiet (.cancel i) := ⟨by simp, by simp⟩

theorem quiet_atBody : ∀ e ∈ atBody, Quiet e := by
  intro e he
  simp only [atBody, alone, toBody, List.map_cons, List.map_replicate, List.mem_cons, List.mem_replicate] at he
  rcases he with rfl | rfl | rfl | ⟨-, rfl⟩ <;> refine ⟨by simp, fun i a ha => ?_⟩ <;> cases ha <;> exact fun _ => id

theorem cancel_heard_inTime :
    ∃ s, exec (BackgroundNode.step .core) .start cancelledInTime = some s ∧
      ∃ r, s.runs[0]? = some r ∧ r.asked = true ∧ r.bodyOver ∧ Heard r := by
  obtain ⟨s, hs, r, hr, hasked, hover⟩ : ∃ s, exec (BackgroundNode.step .core) .start cancelledInTime = some s ∧
      ∃ r, s.runs[0]? = some r ∧ r.asked = true ∧ r.bodyOver :=
    ⟨_, rfl, _, rfl, rfl, trivial⟩
  refine ⟨s, hs, r, hr, hasked, hover, cancel_heard .core _ s hs ?_ 0 r hr⟩
  refine along_append_intro (along_mono (fun _ _ => inTime_of_quiet) (along_of_forall quiet_atBody)) fun t ht => ?_
  obtain ⟨u, r, hu, hlive, hcancels, hruns, hbody⟩ : ∃ u r, exec (BackgroundNode.step .core) .start atBody = some u ∧
      u.live = [0] ∧ u.cancels = [] ∧ u.runs = [r] ∧ r.body = .running :=
    ⟨_, _, rfl, rfl, rfl, rfl, rfl⟩
  cases ht.symm.trans hu
  -- The request finds the run, and has cancelled it when the body throws.
  have hfound : InTime t (.lookup 0) := by
    refine ⟨fun i r' he hr' _ _ _ => ?_, by simp⟩
    cases he
    rw [hruns] at hr'
    cases hr'
    exact ⟨by simp [hlive], by simp [BackgroundRun.bodyOver, hbody]⟩
  refine ⟨hfound, fun v hv => ⟨inTime_of_quiet (quiet_cancel 0), fun w hw => ⟨⟨by simp, fun i _ a _ _ _ _ => ?_⟩, fun _ _ => trivial⟩⟩⟩
  have hone : v.cancels = [0] := by
    cases hv
    simp [hlive, hcancels]
  have hnone : w.cancels = [] := by
    simp only [BackgroundNode.step, hone, List.mem_singleton, if_true] at hw
    cases hw
    rfl
  rw [hnone]
  exact List.not_mem_nil

/-- The request comes before the run is in `_live`. -/
def cancelledTooEarly : List BackgroundEvent :=
  .arrive (describe nightlyJob "Jobs" needsToken) .nothing quietOutcomes 0 "Manual" :: .act 0 .idReturned :: .lookup 0 ::
    (toBody ++ [RunAct.returns]).map (.act 0)

theorem request_lost :
    ¬ ∀ (p : Package) (es : List BackgroundEvent) (s : BackgroundNode), exec (BackgroundNode.step p) .start es = some s →
      ∀ (i : Nat) r, s.runs[i]? = some r → Heard r := by
  intro h
  obtain ⟨s, hs, r, hr, hasked, hbody⟩ : ∃ s, exec (BackgroundNode.step .core) .start cancelledTooEarly = some s ∧
      ∃ r, s.runs[0]? = some r ∧ r.asked = true ∧ r.body = .completed none (.ok ()) :=
    ⟨_, rfl, _, rfl, rfl, rfl⟩
  have hsignal := h .core _ s hs 0 r hr hasked (by simp [BackgroundRun.bodyOver, hbody])
  simp [BackgroundRun.signalByEnd, hbody] at hsignal

end DuckRun.Executors

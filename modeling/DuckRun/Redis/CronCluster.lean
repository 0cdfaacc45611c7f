import DuckRun.Redis.Leadership
import DuckRun.Runtime.Firing
/-!
# Cron ticks across the cluster

Every process has its coordinator and its cron loop. A loop keeps its table of
next runs for as long as its own leader checks say so, whatever another process
does meanwhile. No occurrence is attempted by two iterations anywhere in the
cluster as long as each loop has seen the loss of leadership before its process
leads again (`Steady`); otherwise the old table fires what the other process
has fired already.
-/

namespace DuckRun.Redis

open DuckRun.Lib DuckRun.Lib.Expiry DuckRun.Runtime

/-- The processes' coordinators, their cron loops, and the iterations of all
loops with their processes, newest first. -/
structure CronCluster where
  cluster : Cluster
  loops : Nat → Scheduler
  log : List (Nat × Iteration)

def CronCluster.empty : CronCluster := ⟨.empty, fun _ => .start, []⟩

inductive CronEvent where
  | redis (e : ClusterEvent)
  /-- The loop of process `i` asks `IsLeaderAsync`. A follower's iteration is over with that. -/
  | check (i : Nat)
  /-- The iteration of a leader, where it reads `now`. -/
  | fire (i : Nat) (t : Tick)

/-- The steps of the cron loop. -/
def ClusterEvent.ofLoop : ClusterEvent → Bool
  | .act _ .check | .act _ .fire | .act _ .tickEnds => true
  | _ => false

/-- What a follower's iteration meets; it reads no clock. -/
def followerTick : Tick := ⟨some false, 0, 0, fun _ => false, fun _ => .refused⟩

/-- The iterations of one process. -/
def ofProcess (i : Nat) (log : List (Nat × Iteration)) : List Iteration := (log.filter fun x => x.1 = i).map Prod.snd

section Step
variable {ε : Type} (cronos : Cronos ε) (fold : String → String) (registry : JobRegistry fold)

/-- The loop of process `i` comes round. -/
def CronCluster.iterate (s : CronCluster) (i : Nat) (t : Tick) : CronCluster :=
  let loop := (s.loops i).iterate cronos fold registry t
  { s with
    loops := Function.update s.loops i loop
    log := (loop.log.head?.toList.map fun r => (i, r)) ++ s.log }

/-- Between the check and the reading of `now` anything can happen. -/
def CronCluster.step (s : CronCluster) : CronEvent → Option CronCluster
  | .redis e => if e.ofLoop then none else (s.cluster.step e).map fun cluster => { s with cluster := cluster }
  | .check i => do
    let n ← s.cluster.nodes[i]?
    let cluster ← s.cluster.step (.act i .check)
    let s := { s with cluster := cluster }
    return if n.isLeaderAsync then s else s.iterate cronos fold registry i followerTick
  | .fire i t => do
    let cluster ← s.cluster.step (.act i .tickEnds)
    let s := { s with cluster := cluster }
    if t.leaderCheck = some true then some (s.iterate cronos fold registry i t) else none

/-- Grants are timely; a flag that goes up again finds a loop that has seen it
down; a leader still leads, in a process that is not being stopped, where it
reads `now`; the clocks agree; and no call of the slot gate throws. -/
structure Steady (s : CronCluster) (e : CronEvent) : Prop where
  timely : ∀ c, e = .redis c → Timely s.cluster c
  seen : ∀ i n, e = .redis (.act i .receive) → s.cluster.nodes[i]? = some n → n.isLeader = false →
    n.tick = .answered 1 → (s.loops i).wasLeader = false
  leads : ∀ i t n, e = .fire i t → s.cluster.nodes[i]? = some n → n.isLeader = true ∧ n.lifecycle = .running
  clocks : ∀ i t, e = .fire i t → t.bootNow ≤ t.now ∧ ∀ x ∈ s.log, x.2.tick.isLeader = true → x.2.tick.now ≤ t.bootNow
  gate : ∀ i t, e = .fire i t → ∀ job ∈ registry.all, t.tryAcquireAsync job ≠ .threw

end Step

/-! ## The iterations of one process -/

theorem ofProcess_cons (i j : Nat) (r : Iteration) (log : List (Nat × Iteration)) :
    ofProcess i ((j, r) :: log) = if j = i then r :: ofProcess i log else ofProcess i log := by
  unfold ofProcess
  by_cases hj : j = i
  · simp [hj]
  · simp [hj]

theorem ofProcess_append (i : Nat) (log log' : List (Nat × Iteration)) :
    ofProcess i (log ++ log') = ofProcess i log ++ ofProcess i log' := by
  unfold ofProcess
  rw [List.filter_append, List.map_append]

section Cluster
variable {ε : Type} {cronos : Cronos ε} {Occurs : ε → Instant → Prop} {fold : String → String} {registry : JobRegistry fold}

theorem iterate_log (s : Scheduler) (t : Tick) :
    ∃ r, r.tick = t ∧ (s.iterate cronos fold registry t).log = r :: s.log := by
  unfold Scheduler.iterate
  split
  · exact ⟨_, rfl, rfl⟩
  · exact ⟨_, rfl, rfl⟩

theorem CronCluster.iterate_eq (s : CronCluster) (i : Nat) (t : Tick) :
    ∃ r, r.tick = t ∧ ((s.loops i).iterate cronos fold registry t).log = r :: (s.loops i).log ∧
      s.iterate cronos fold registry i t = { s with
        loops := Function.update s.loops i ((s.loops i).iterate cronos fold registry t)
        log := (i, r) :: s.log } := by
  obtain ⟨r, htick, hlog⟩ := @iterate_log _ cronos fold registry (s.loops i) t
  refine ⟨r, htick, hlog, ?_⟩
  simp only [CronCluster.iterate, hlog]
  rfl

/-- A check is a step of the coordinator, and where the flag is down an iteration of the loop. -/
theorem CronCluster.check_cases {s s' : CronCluster} {i : Nat} (h : s.step cronos fold registry (.check i) = some s') :
    ∃ cluster, s.cluster.step (.act i .check) = some cluster ∧
      (s' = { s with cluster := cluster } ∨
        s' = CronCluster.iterate cronos fold registry { s with cluster := cluster } i followerTick) := by
  obtain ⟨n, -, h⟩ := Option.bind_eq_some_iff.1 h
  obtain ⟨cluster, hcluster, h⟩ := Option.bind_eq_some_iff.1 h
  refine ⟨cluster, hcluster, ?_⟩
  cases h
  split
  · exact .inl rfl
  · exact .inr rfl

theorem CronCluster.fire_cases {s s' : CronCluster} {i : Nat} {t : Tick}
    (h : s.step cronos fold registry (.fire i t) = some s') :
    ∃ cluster, s.cluster.step (.act i .tickEnds) = some cluster ∧ t.isLeader = true ∧
      s' = CronCluster.iterate cronos fold registry { s with cluster := cluster } i t := by
  obtain ⟨cluster, hcluster, h⟩ := Option.bind_eq_some_iff.1 h
  dsimp only at h
  split at h
  · rename_i hcheck
    cases h
    refine ⟨cluster, hcluster, ?_, rfl⟩
    unfold Tick.isLeader
    rw [hcheck]
    rfl
  · cases h

/-! ## The flag -/

/-- The flag goes up only when a granted result comes in. -/
theorem CoordinatorNode.flag_rises {clock id : Nat} {key key' : Option (Entry Nat)} {n n' : CoordinatorNode} {a : NodeAct}
    (h : n.step clock key id a = some (key', n')) (hup : n'.isLeader = true) :
    n.isLeader = true ∨ (a = .receive ∧ n.tick = .answered 1) := by
  cases a with
  | receive =>
    simp only [CoordinatorNode.step] at h
    split at h
    · rename_i result htick
      split at h <;> cases h
      have hone : result = 1 := by simpa using hup
      exact .inr ⟨rfl, by rw [htick, hone]⟩
    · cases h
  | fail =>
    simp only [CoordinatorNode.step] at h
    split at h <;> cases h
    cases hup
  | crash =>
    cases h
    exact .inl hup
  | awaited gaveUp =>
    simp only [CoordinatorNode.step] at h
    split at h
    · split at h <;> cases h <;> exact .inl hup
    · cases h
  | execute | executeStray | release =>
    simp only [CoordinatorNode.step] at h
    split at h <;> cases h
    exact .inl hup
  | begin_ | send | cancelled | exit | stop | stopReturns | check | fire | tickEnds | schedulerStops =>
    simp only [CoordinatorNode.step] at h
    split at h <;> cases h
    exact .inl hup

/-- A running process whose flag is up after a step had it up before, or has just received a grant. -/
theorem Cluster.flag_rises {s s' : Cluster} {e : ClusterEvent} (h : s.step e = some s') {i : Nat} {n' : CoordinatorNode}
    (hn' : s'.nodes[i]? = some n') (hrun : n'.lifecycle = .running) (hup : n'.isLeader = true) :
    ∃ n, s.nodes[i]? = some n ∧ n.lifecycle = .running ∧
      (n.isLeader = true ∨ (e = .act i .receive ∧ n.tick = .answered 1)) := by
  cases e with
  | start leaderTtl =>
    cases h
    rcases getElem?_snoc_cases hn' with ⟨-, rfl⟩ | hn
    · cases hup
    · exact ⟨n', hn, hrun, .inl hup⟩
  | advance d =>
    cases h
    exact ⟨n', hn', hrun, .inl hup⟩
  | act j a =>
    obtain ⟨m, key', m', hm, hs, rfl⟩ := Cluster.act_cases h
    rcases getElem?_set_cases hn' with ⟨rfl, rfl⟩ | ⟨-, hn⟩
    · refine ⟨m, hm, (CoordinatorNode.step_moves hs).running hrun, ?_⟩
      rcases CoordinatorNode.flag_rises hs hup with hflag | ⟨rfl, htick⟩
      · exact .inl hflag
      · exact .inr ⟨rfl, htick⟩
    · exact ⟨n', hn, hrun, .inl hup⟩

/-! ## Every reading counts from the last attempt anywhere -/

variable (cronos Occurs fold registry) in
structure CronInv (s : CronCluster) : Prop where
  leader : LeaderInv s.cluster
  own : ∀ i, (s.loops i).log = ofProcess i s.log
  firing : ∀ i, FiringInv cronos Occurs fold registry (s.loops i)
  /-- A loop that leads, and led before, counts from no earlier than the last attempt of any process. -/
  ahead : ∀ (i : Nat) (n : CoordinatorNode), s.cluster.nodes[i]? = some n → n.lifecycle = .running → n.isLeader = true →
    (s.loops i).wasLeader = true → ∀ x ∈ s.log, ∀ job, x.2.Attempted job → ∀ t, x.2.tick.now ≤ since job t (s.loops i).log
  once : ∀ post i r mid j q past job, s.log = post ++ (i, r) :: (mid ++ (j, q) :: past) → r.Attempted job → q.Attempted job →
    q.tick.now ≤ since job r.tick (ofProcess i (mid ++ (j, q) :: past))

theorem cronInv_empty : CronInv cronos Occurs fold registry .empty where
  leader := leaderInv_empty
  own _ := rfl
  firing _ := firingInv_start
  ahead i n hn := by cases hn
  once post i r mid j q past job h := by cases post <;> cases h

/-- Where an iteration of the leader counts from: not before any attempt so far. -/
theorem since_ahead {s : CronCluster} (hi : CronInv cronos Occurs fold registry s) {i : Nat} {n : CoordinatorNode}
    (hn : s.cluster.nodes[i]? = some n) (hrun : n.lifecycle = .running) (hup : n.isLeader = true) {t : Tick}
    {x : Nat × Iteration} (hx : x ∈ s.log) (hclock : x.2.tick.now ≤ t.bootNow) {job : JobDescriptor}
    (hatt : x.2.Attempted job) : x.2.tick.now ≤ since job t (s.loops i).log := by
  cases hwas : (s.loops i).wasLeader with
  | true => exact hi.ahead i n hn hrun hup hwas x hx job hatt t
  | false =>
    rw [since_of_not_led ((hi.firing i).led ▸ hwas)]
    exact hclock

/-- An iteration that attempts a job is a leader's. -/
theorem CronInv.leads {s : CronCluster} (hi : CronInv cronos Occurs fold registry s) {x : Nat × Iteration} (hx : x ∈ s.log)
    {job : JobDescriptor} (hatt : x.2.Attempted job) : x.2.tick.isLeader = true := by
  obtain ⟨i, r⟩ := x
  have hmem : r ∈ (s.loops i).log := by
    rw [hi.own]
    exact List.mem_map.2 ⟨(i, r), List.mem_filter.2 ⟨hx, by simp⟩, rfl⟩
  obtain ⟨post, past, hsplit⟩ := List.append_of_mem hmem
  exact (((hi.firing i).rules post r past hsplit).leads job hatt).1

/-- A step of a coordinator whose flag stays down where its loop has not seen it down. -/
theorem cronInv_cluster {s : CronCluster} (hi : CronInv cronos Occurs fold registry s) {e : ClusterEvent} {cluster : Cluster}
    (htimely : Timely s.cluster e)
    (hseen : ∀ (i : Nat) n, e = .act i .receive → s.cluster.nodes[i]? = some n → n.isLeader = false → n.tick = .answered 1 →
      (s.loops i).wasLeader = false)
    (h : s.cluster.step e = some cluster) : CronInv cronos Occurs fold registry { s with cluster := cluster } := by
  refine { hi with leader := leaderInv_step hi.leader htimely h, ahead := ?_ }
  intro i n' hn' hrun hup hwas
  obtain ⟨n, hn, hrun', hflag⟩ := Cluster.flag_rises h hn' hrun hup
  cases hbefore : n.isLeader with
  | true => exact hi.ahead i n hn hrun' hbefore hwas
  | false =>
    -- The flag has gone up, and the loop had seen it down: it did not lead last.
    obtain ⟨rfl, htick⟩ : e = .act i .receive ∧ n.tick = .answered 1 := by
      rcases hflag with hflag | hflag
      · rw [hbefore] at hflag
        cases hflag
      · exact hflag
    have hnot := hseen i n rfl hn hbefore htick
    rw [hnot] at hwas
    cases hwas

theorem cronInv_check {s : CronCluster} (hi : CronInv cronos Occurs fold registry s) {i : Nat} {a : NodeAct} {cluster : Cluster}
    (ha : a = .check ∨ a = .tickEnds) (h : s.cluster.step (.act i a) = some cluster) :
    CronInv cronos Occurs fold registry { s with cluster := cluster } := by
  refine cronInv_cluster hi (timely_of_not_execute fun j he => ?_) (fun j n he => ?_) h
  · rcases ha with rfl | rfl <;> cases he
  · rcases ha with rfl | rfl <;> cases he

/-- An iteration, of a follower or of a process that leads where it reads `now`. -/
theorem cronInv_iterate (hc : cronos.Lawful Occurs) {s : CronCluster} (hi : CronInv cronos Occurs fold registry s)
    {i : Nat} {t : Tick} (hgate : ∀ job ∈ registry.all, t.tryAcquireAsync job ≠ .threw)
    (hleads : t.isLeader = true → ∃ n, s.cluster.nodes[i]? = some n ∧ n.isLeader = true ∧ n.lifecycle = .running)
    (hclocks : t.isLeader = true → t.bootNow ≤ t.now ∧
      ∀ x ∈ s.log, x.2.tick.isLeader = true → x.2.tick.now ≤ t.bootNow) :
    CronInv cronos Occurs fold registry (s.iterate cronos fold registry i t) := by
  obtain ⟨r, rfl, hlog, hs'⟩ := @CronCluster.iterate_eq _ cronos fold registry s i t
  have hfiring := firingInv_iterate hc (hi.firing i) hgate
  have hrule : FiringRule cronos Occurs registry.all r (s.loops i).log := hfiring.rules [] r _ hlog
  rw [hs']
  refine ⟨hi.leader, ?_, ?_, ?_, ?_⟩
  · intro j
    dsimp only
    rw [ofProcess_cons]
    by_cases hj : i = j
    · subst hj
      rw [Function.update_self, if_pos rfl, hlog, hi.own]
    · rw [Function.update_of_ne (Ne.symm hj), if_neg hj, hi.own]
  · intro j
    dsimp only
    by_cases hj : i = j
    · subst hj
      rw [Function.update_self]
      exact hfiring
    · rw [Function.update_of_ne (Ne.symm hj)]
      exact hi.firing j
  · intro j m hm hmrun hmup hwas x hx job hatt t
    dsimp only at hm hwas ⊢
    by_cases hj : i = j
    · subst hj
      rw [Function.update_self] at hwas ⊢
      have hlead : r.tick.isLeader = true := by
        rw [hfiring.led, hlog] at hwas
        exact hwas
      obtain ⟨hboot, hclock⟩ := hclocks hlead
      rw [hlog, since_of_leader hlead]
      rcases List.mem_cons.1 hx with rfl | hx
      · exact Int.le_of_eq (if_pos hatt).symm
      · have hbefore := hclock x hx (hi.leads hx hatt)
        split
        · exact Int.le_trans hbefore hboot
        · exact since_ahead hi hm hmrun hmup hx hbefore hatt
    · rw [Function.update_of_ne (Ne.symm hj)] at hwas ⊢
      rcases List.mem_cons.1 hx with rfl | hx
      · -- The process that attempts something leads, so this one does not.
        obtain ⟨n, hn, hup, hrun⟩ := hleads (hrule.leads job hatt).1
        have hclaims : ∀ l : CoordinatorNode, l.isLeader = true → l.claims = true := by
          intro l hl
          rw [CoordinatorNode.claims, hl, Bool.true_or]
        exact absurd (hi.leader.one i j n m hn hm hrun hmrun (hclaims n hup) (hclaims m hmup)) hj
      · exact hi.ahead j m hm hmrun hmup hwas x hx job hatt t
  · intro post j r' mid k q past job hsplit hatt hqatt
    cases post with
    | nil =>
      obtain ⟨hhead, hrest⟩ := List.cons.inj hsplit
      cases hhead
      have hlead := (hrule.leads job hatt).1
      obtain ⟨n, hn, hup, hrun⟩ := hleads hlead
      have hq : (k, q) ∈ s.log := by
        rw [hrest]
        exact List.mem_append_right _ List.mem_cons_self
      have hbefore := (hclocks hlead).2 (k, q) hq (hi.leads hq hqatt)
      have hahead := since_ahead hi hn hrun hup hq hbefore hqatt
      rwa [hi.own, hrest] at hahead
    | cons p post =>
      obtain ⟨-, hrest⟩ := List.cons.inj hsplit
      exact hi.once post j r' mid k q past job hrest hatt hqatt

/-- Neither the check nor the end of the tick moves the flag. -/
theorem tickEnds_node {s cluster : Cluster} {i : Nat} {n : CoordinatorNode} (h : s.step (.act i .tickEnds) = some cluster)
    (hn : s.nodes[i]? = some n) : ∃ n', cluster.nodes[i]? = some n' ∧ n'.isLeader = n.isLeader ∧ n'.lifecycle = n.lifecycle := by
  obtain ⟨m, key, m', hm, hstep, rfl⟩ := Cluster.act_cases h
  rw [hn] at hm
  obtain rfl := Option.some.inj hm
  have hlt : i < s.nodes.length := (List.getElem?_eq_some_iff.1 hn).1
  refine ⟨m', by simp [hlt], ?_⟩
  simp only [CoordinatorNode.step] at hstep
  split at hstep <;> cases hstep
  exact ⟨rfl, rfl⟩

theorem followerTick_gate (job : JobDescriptor) : followerTick.tryAcquireAsync job ≠ .threw := by
  intro h
  have hlocal := (tryAcquireAsync_threw.1 h).1
  cases hlocal

theorem cronInv_step (hc : cronos.Lawful Occurs) {s s' : CronCluster} {e : CronEvent}
    (hi : CronInv cronos Occurs fold registry s) (hs : Steady fold registry s e)
    (h : s.step cronos fold registry e = some s') : CronInv cronos Occurs fold registry s' := by
  cases e with
  | redis e =>
    simp only [CronCluster.step] at h
    split at h
    · cases h
    · obtain ⟨cluster, hcluster, rfl⟩ := Option.map_eq_some_iff.1 h
      refine cronInv_cluster hi (hs.timely e rfl) (fun i n he => ?_) hcluster
      exact hs.seen i n (congrArg CronEvent.redis he)
  | check i =>
    obtain ⟨cluster, hcluster, hcase⟩ := CronCluster.check_cases h
    have hi' := cronInv_check hi (.inl rfl) hcluster
    rcases hcase with rfl | rfl
    · exact hi'
    · exact cronInv_iterate hc hi' (fun job _ => followerTick_gate job) (fun hlead => by cases hlead) fun hlead => by cases hlead
  | fire i t =>
    obtain ⟨cluster, hcluster, -, rfl⟩ := CronCluster.fire_cases h
    refine cronInv_iterate hc (cronInv_check hi (.inr rfl) hcluster) (hs.gate i t rfl) (fun _ => ?_) fun _ => hs.clocks i t rfl
    obtain ⟨n, -, -, hn, -⟩ := Cluster.act_cases hcluster
    obtain ⟨hup, hrun⟩ := hs.leads i t n rfl hn
    obtain ⟨n', hn', hflag, hlife⟩ := tickEnds_node hcluster hn
    exact ⟨n', hn', hflag.trans hup, hlife.trans hrun⟩

/-- In every steady run of the cluster each iteration follows the firing rule,
counting from its own loop's readings, and of two attempts of a job, by whatever
processes, the later is caused by occurrences after the earlier one's reading:
no occurrence causes both. -/
theorem fires_once_in_cluster (hc : cronos.Lawful Occurs) (es : List CronEvent) (s : CronCluster)
    (hrun : exec (CronCluster.step cronos fold registry) .empty es = some s)
    (hsteady : Along (CronCluster.step cronos fold registry) (Steady fold registry) .empty es) :
    (∀ post i r past, s.log = post ++ (i, r) :: past → FiringRule cronos Occurs registry.all r (ofProcess i past)) ∧
    ∀ post i r mid j q past job, s.log = post ++ (i, r) :: (mid ++ (j, q) :: past) → r.Attempted job → q.Attempted job →
      ∀ o, Causes cronos Occurs job r (ofProcess i (mid ++ (j, q) :: past)) o →
        q.tick.now < o ∧ ¬ Causes cronos Occurs job q (ofProcess j past) o := by
  have hi := exec_inv_along (Steady fold registry) (CronInv cronos Occurs fold registry)
    (fun _ _ _ hi hs h => cronInv_step hc hi hs h) cronInv_empty hsteady hrun
  constructor
  · intro post i r past hsplit
    have hown : (s.loops i).log = ofProcess i post ++ r :: ofProcess i past := by
      rw [hi.own, hsplit, ofProcess_append, ofProcess_cons, if_pos rfl]
    exact (hi.firing i).rules _ r _ hown
  · intro post i r mid j q past job hsplit hr hq o hcause
    have hfrom := hi.once post i r mid j q past job hsplit hr hq
    obtain ⟨expr, -, -, hafter, -⟩ := hcause
    have hlater : q.tick.now < o := Int.lt_of_le_of_lt hfrom hafter
    refine ⟨hlater, ?_⟩
    rintro ⟨-, -, -, -, hle⟩
    exact absurd hle (Int.not_le.2 hlater)

/-! ## Leadership that goes on -/

theorem steady_quiet {s : CronCluster} {e : ClusterEvent} (hexecute : ∀ i, e ≠ .act i .execute) (hreceive : ∀ i, e ≠ .act i .receive) :
    Steady fold registry s (.redis e) where
  timely c hc := by
    cases hc
    exact timely_of_not_execute hexecute
  seen i n he := by
    cases he
    exact absurd rfl (hreceive i)
  leads i t n he := by cases he
  clocks i t he := by cases he
  gate i t he := by cases he

/-- A script that is run where no other running process claims to lead. -/
theorem steady_execute {s : CronCluster} {j : Nat}
    (halone : ∀ (i : Nat) (n : CoordinatorNode), i ≠ j → s.cluster.nodes[i]? = some n → n.lifecycle ≠ .running) :
    Steady fold registry s (.redis (.act j .execute)) where
  timely c hc k m he _ _ _ i n hi hn hrun := by
    cases hc
    cases he
    exact absurd hrun (halone i n hi hn)
  seen i n he := by cases he
  leads i t n he := by cases he
  clocks i t he := by cases he
  gate i t he := by cases he

theorem steady_receive {s : CronCluster} {j : Nat} (hseen : (s.loops j).wasLeader = false) :
    Steady fold registry s (.redis (.act j .receive)) where
  timely c hc := by
    cases hc
    exact timely_of_not_execute fun i he => by cases he
  seen i n he := by
    cases he
    exact fun _ _ _ => hseen
  leads i t n he := by cases he
  clocks i t he := by cases he
  gate i t he := by cases he

theorem steady_check {s : CronCluster} (i : Nat) : Steady fold registry s (.check i) where
  timely c hc := by cases hc
  seen i n he := by cases he
  leads i t n he := by cases he
  clocks i t he := by cases he
  gate i t he := by cases he

theorem steady_fire {s : CronCluster} {i : Nat} {t : Tick}
    (hleads : ∀ n, s.cluster.nodes[i]? = some n → n.isLeader = true ∧ n.lifecycle = .running) (hboot : t.bootNow ≤ t.now)
    (hclocks : ∀ x ∈ s.log, x.2.tick.isLeader = true → x.2.tick.now ≤ t.bootNow)
    (hgate : ∀ job ∈ registry.all, t.tryAcquireAsync job ≠ .threw) : Steady fold registry s (.fire i t) where
  timely c hc := by cases hc
  seen i n he := by cases he
  leads j u n he := by
    cases he
    exact hleads n
  clocks j u he := by
    cases he
    exact ⟨hboot, hclocks⟩
  gate j u he := by
    cases he
    exact hgate

end Cluster

/-- Process 0 leads at the first full minute and is stopped, process 1 leads at the second. -/
def handedOver : List CronEvent :=
  (.start 15 :: wholeTick 0).map .redis ++ [.check 0, .fire 0 (minuteTick .granted)] ++
    [.act 0 .stop, .act 0 .exit, .act 0 (.awaited false), .act 0 .release, .act 0 .stopReturns].map .redis ++
    (.start 15 :: wholeTick 1).map .redis ++ [.check 1, .fire 1 { minuteTick .granted with bootNow := 600000000, now := 1200000000 }]

theorem fires_once_handedOver :
    ∃ s r q, exec (CronCluster.step cronosOfPeriods id everyMinuteRegistry) .empty handedOver = some s ∧
      s.log = [(1, r), (0, q)] ∧ r.Attempted everyMinute ∧ q.Attempted everyMinute ∧
      ∀ o, Causes cronosOfPeriods (fun period o => period.ticks ∣ o) everyMinute r [] o →
        ¬ Causes cronosOfPeriods (fun period o => period.ticks ∣ o) everyMinute q [] o := by
  refine ⟨_, _, _, rfl, rfl, by decide +kernel, by decide +kernel, fun o hcause => ?_⟩
  have hsteady : Along (CronCluster.step cronosOfPeriods id everyMinuteRegistry) (Steady id everyMinuteRegistry) .empty handedOver := by
    have hquiet : ∀ {s : CronCluster} {e : ClusterEvent}, (∀ i, e ≠ .act i .execute) ∧ (∀ i, e ≠ .act i .receive) →
        Steady id everyMinuteRegistry s (.redis e) := fun h => steady_quiet h.1 h.2
    refine along_cons (hquiet (by simp)) rfl (along_cons (hquiet (by simp)) rfl ?_)
    refine along_cons (steady_execute fun i n hi hn => ?_) rfl (along_cons (steady_receive rfl) rfl
      (along_cons (steady_check 0) rfl ?_))
    · match i, hi, hn with
      | 0, hi, _ => exact absurd rfl hi
    refine along_cons (steady_fire (fun n hn => ?_) (by decide) (fun x hx => ?_)
      fun job _ => gate_returns .granted (by decide) job) rfl ?_
    · cases hn
      exact ⟨rfl, rfl⟩
    · cases hx
    refine along_cons (hquiet (by simp)) rfl (along_cons (hquiet (by simp)) rfl (along_cons (hquiet (by simp)) rfl
      (along_cons (hquiet (by simp)) rfl (along_cons (hquiet (by simp)) rfl (along_cons (hquiet (by simp)) rfl
        (along_cons (t := ⟨⟨0, none, [⟨15, true, .exited, 0, .stopped, false, .polling, some 0, true, false⟩,
          ⟨15, false, .sent, 0, .running, false, .polling, none, false, false⟩]⟩, _, _⟩) (hquiet (by simp)) rfl ?_))))))
    -- The process that led has been stopped when the script of the other is run.
    refine along_cons (steady_execute fun i n hi hn => ?_) rfl (along_cons (steady_receive rfl) rfl
      (along_cons (steady_check 1) rfl ?_))
    · rcases i with - | i
      · cases hn
        decide
      · rcases i with - | i
        · exact absurd rfl hi
        · cases hn
    refine along_cons (steady_fire (fun n hn => ?_) (by decide) (fun x hx _ => ?_)
      fun job _ => gate_returns .granted (by decide) job) rfl trivial
    · cases hn
      exact ⟨rfl, rfl⟩
    · rw [List.mem_singleton.1 hx]
      decide
  exact ((fires_once_in_cluster cronosOfPeriods_lawful handedOver _ rfl hsteady).2 [] 1 _ [] 0 _ [] everyMinute rfl
    (by decide +kernel) (by decide +kernel) o hcause).2

end DuckRun.Redis

import DuckRun.Redis.ClusterSlots
import DuckRun.Runtime.Operations
import Mathlib.Data.List.Nodup
/-!
# The cap across the cluster

A slot is in the set until its time is over, so a body that is over by then is
always covered by its slot, and the script never lets the set outgrow the cap.
`Punctual` is what the bodies have to do for it: end within the hour of their
slot, and end before the executor leaves them.
-/

namespace DuckRun.Redis

open DuckRun.Lib DuckRun.Lib.Expiry DuckRun.Runtime

/-! ## Threads of the cluster -/

def threadAt (nodes : List Node) (id : SlotId) : Option Thread := (nodes[id.1]?).bind fun n => n.threads[id.2]?

theorem threadAt_some {nodes : List Node} {id : SlotId} {t : Thread} :
    threadAt nodes id = some t ↔ ∃ n, nodes[id.1]? = some n ∧ n.threads[id.2]? = some t := Option.bind_eq_some_iff

/-- The threads after thread `id` took a step. -/
theorem threadAt_set {nodes : List Node} {id other : SlotId} {n n' : Node} {t t' x : Thread}
    (hn : nodes[id.1]? = some n) (ht : n.threads[id.2]? = some t) (hn' : n'.threads = n.threads.set id.2 t') :
    threadAt (nodes.set id.1 n') other = some x ↔
      (other = id ∧ x = t') ∨ (other ≠ id ∧ threadAt nodes other = some x) := by
  obtain ⟨hlt, -⟩ := List.getElem?_eq_some_iff.1 hn
  obtain ⟨hlt', -⟩ := List.getElem?_eq_some_iff.1 ht
  rw [threadAt_some, threadAt_some]
  constructor
  · rintro ⟨m, hm, hx⟩
    rcases getElem?_set_cases hm with ⟨h1, rfl⟩ | ⟨h1, hm⟩
    · rw [hn'] at hx
      rcases getElem?_set_cases hx with ⟨h2, rfl⟩ | ⟨h2, hx⟩
      · exact .inl ⟨Prod.ext h1 h2, rfl⟩
      · exact .inr ⟨fun he => h2 (congrArg Prod.snd he), n, h1 ▸ hn, hx⟩
    · exact .inr ⟨fun he => h1 (congrArg Prod.fst he), m, hm, hx⟩
  · rintro (⟨rfl, rfl⟩ | ⟨hne, m, hm, hx⟩)
    · exact ⟨n', by simp [hlt], by simp [hn', hlt']⟩
    · by_cases h1 : other.1 = id.1
      · have h2 : other.2 ≠ id.2 := fun h2 => hne (Prod.ext h1 h2)
        rw [h1, hn] at hm
        obtain rfl := Option.some.inj hm
        exact ⟨n', by simp [h1, hlt], by simp [hn', Ne.symm h2, hx]⟩
      · exact ⟨m, by simp [Ne.symm h1, hm], hx⟩

/-- The nodes go on with the threads they have; a thread that is new holds nothing. -/
structure Grows (nodes nodes' : List Node) : Prop where
  keeps : ∀ id t, threadAt nodes id = some t → threadAt nodes' id = some t
  fresh : ∀ id t, threadAt nodes' id = some t → threadAt nodes id = some t ∨ t.holdsRemote = false

theorem grows_join (nodes : List Node) : Grows nodes (nodes ++ [.empty]) where
  keeps id t h := by
    obtain ⟨n, hn, ht⟩ := threadAt_some.1 h
    exact threadAt_some.2 ⟨n, by rw [List.getElem?_append_left (List.getElem?_eq_some_iff.1 hn).1, hn], ht⟩
  fresh id t h := by
    obtain ⟨n, hn, ht⟩ := threadAt_some.1 h
    rcases getElem?_snoc_cases hn with ⟨-, rfl⟩ | hn
    · cases ht
    · exact .inl (threadAt_some.2 ⟨n, hn, ht⟩)

theorem grows_refl (nodes : List Node) : Grows nodes nodes := ⟨fun _ _ h => h, fun _ _ h => .inl h⟩

theorem grows_arrive {nodes : List Node} {i : Nat} {n : Node} (hn : nodes[i]? = some n) (job : JobDescriptor)
    (source : Source) : Grows nodes (nodes.set i { n with threads := n.threads ++ [.new job source] }) where
  keeps id t h := by
    obtain ⟨hlt, -⟩ := List.getElem?_eq_some_iff.1 hn
    obtain ⟨m, hm, ht⟩ := threadAt_some.1 h
    by_cases hi : id.1 = i
    · rw [hi, hn] at hm
      obtain rfl := Option.some.inj hm
      refine threadAt_some.2 ⟨{ n with threads := n.threads ++ [.new job source] }, by simp [hi, hlt], ?_⟩
      dsimp only
      rw [List.getElem?_append_left (List.getElem?_eq_some_iff.1 ht).1, ht]
    · exact threadAt_some.2 ⟨m, by simp [Ne.symm hi, hm], ht⟩
  fresh id t h := by
    obtain ⟨m, hm, ht⟩ := threadAt_some.1 h
    rcases getElem?_set_cases hm with ⟨hi, rfl⟩ | ⟨-, hm⟩
    · rcases getElem?_snoc_cases ht with ⟨-, rfl⟩ | ht
      · exact .inr rfl
      · exact .inl (threadAt_some.2 ⟨n, hi ▸ hn, ht⟩)
    · exact .inl (threadAt_some.2 ⟨m, hm, ht⟩)

section Step
variable {fold : String → String} {registry : List JobDescriptor}

theorem grows_node {nodes : List Node} {i : Nat} {n n' : Node} {e : NodeEvent} (hn : nodes[i]? = some n)
    (h : n.step fold registry e = some n') (he : ∀ k a, e ≠ .act k a) : Grows nodes (nodes.set i n') := by
  have hsame : nodes.set i n = nodes := by
    obtain ⟨hlt, rfl⟩ := List.getElem?_eq_some_iff.1 hn
    exact List.set_getElem_self hlt
  cases e with
  | fire job =>
    simp only [Node.step] at h
    split at h <;> cases h
    exact grows_arrive hn job .cron
  | trigger jobName =>
    simp only [Node.step] at h
    split at h
    · cases h
      rw [hsame]
      exact grows_refl nodes
    · split at h <;> cases h
      · exact grows_arrive hn _ .manual
      · rw [hsame]
        exact grows_refl nodes
  | act k a => exact absurd rfl (he k a)

/-- A thread gets a distributed slot by a grant and loses it by the disposal. -/
theorem step_holdsRemote {tr tr' : ConcurrencyTracker} {t t' : Thread} {a : Act} (h : t.step tr a = some (tr', t')) :
    Act.disposes a = true ∧ t'.holdsRemote = false ∨
      Act.disposes a = false ∧ (a = .coordinator .granted ∧ t'.holdsRemote = true ∨ t'.holdsRemote = t.holdsRemote) := by
  cases Thread.step_cases h with
  | disposed => exact .inl ⟨rfl, rfl⟩
  | granted => exact .inr ⟨rfl, .inl ⟨rfl, rfl⟩⟩
  | full | free | won | lost | refused | rolledBack | released => exact .inr ⟨rfl, .inr rfl⟩
  | body hb => cases hb <;> exact .inr ⟨rfl, .inr rfl⟩

/-! ## The invariant -/

/-- The time of the slot is not over at `t`. -/
def InTime (s : SlotCluster) (id : SlotId) (t : Nat) : Prop := ∃ score, s.granted id = some score ∧ t < seconds score

/-- The bodies of jobs with a finite cap keep within their slots: each begins
before the time of its slot is over, time does not pass it while the body goes
on, and the slot is not disposed of before the body has ended. -/
def Punctual (s : SlotCluster) : SlotClusterEvent → Prop
  | .advance d => ∀ b ∈ s.bodies, b.job.finite = true → InTime s b.slotId (s.clock + d)
  | .local_ i (.act k a) => ∀ t, threadAt s.nodes (i, k) = some t → t.job.finite = true →
      (Thread.invokes t a = true → InTime s (i, k) s.clock) ∧
      (Act.disposes a = true → ∀ b ∈ s.bodies, b.slotId ≠ (i, k))
  | _ => True

/-- The slot set of a job with the cap `cap`. -/
structure KeyInv (now : Nat) (cap : Int) (key : Option (Entry (SortedSet SlotId))) : Prop where
  outlives : Outlives key
  scores : ∀ e, key = some e → ∀ m ∈ e.value, seconds m.2 ≤ now + seconds slotTtl
  room : 1 ≤ cap → ((members now key).length : Int) ≤ cap

/-- The slot of the thread is in the set until its time is over. -/
def SlotHeld (s : SlotCluster) (id : SlotId) (t : Thread) : Prop :=
  ∃ score, s.granted id = some score ∧
    (s.clock < seconds score → (id, score) ∈ members s.clock (s.slots t.job.name))

/-- The body belongs to a thread that holds its slot, in time. -/
def BodyHeld (s : SlotCluster) (b : Body) : Prop :=
  ∃ t, threadAt s.nodes b.slotId = some t ∧ t.job = b.job ∧
    (b.job.finite = true → t.holdsRemote = true ∧ InTime s b.slotId s.clock)

structure CapInv (fold : String → String) (registry : List JobDescriptor) (s : SlotCluster) : Prop where
  nodes : ∀ n ∈ s.nodes, NodeInv fold registry n
  asked : ∀ r ∈ s.requests, seconds r.reading ≤ s.clock
  keys : ∀ job ∈ registry, KeyInv s.clock job.maxConcurrency (s.slots job.name)
  slots : ∀ id t, threadAt s.nodes id = some t → t.holdsRemote = true → SlotHeld s id t
  bodies : ∀ b ∈ s.bodies, BodyHeld s b
  nodup : s.bodies.Nodup

/-! ## The keys -/

theorem keyInv_none (now : Nat) (cap : Int) : KeyInv now cap none where
  outlives := by rintro _ ⟨⟩
  scores := by rintro _ ⟨⟩
  room h := by
    have hnil : members now (none : Option (Entry (SortedSet SlotId))) = [] := rfl
    simp only [hnil, List.length_nil]
    omega

theorem keyInv_later {now later : Nat} {cap : Int} {key : Option (Entry (SortedSet SlotId))} (h : KeyInv now cap key)
    (hle : now ≤ later) : KeyInv later cap key where
  outlives := h.outlives
  scores e he m hm := by
    have hscore := h.scores e he m hm
    omega
  room hcap := by
    have hroom := h.room hcap
    rcases members_later hle key with hm | hm <;> rw [hm]
    · exact hroom
    · simp only [List.length_nil]
      omega

/-- A key from which one member is removed. -/
theorem members_length_zrem (now : Nat) (id : SlotId) (key : Option (Entry (SortedSet SlotId))) :
    (members now (zrem now id key)).length ≤ (members now key).length := by
  rw [members_zrem]
  exact List.length_filter_le _ _

theorem keyInv_zrem {now : Nat} {cap : Int} {key : Option (Entry (SortedSet SlotId))} (h : KeyInv now cap key)
    (id : SlotId) : KeyInv now cap (zrem now id key) where
  outlives := outlives_zrem h.outlives _ _
  scores e he m hm := by
    obtain ⟨e0, he0, hm0⟩ := zrem_value he hm
    exact h.scores e0 he0 m hm0
  room hcap := by
    have hroom := h.room hcap
    have hle := members_length_zrem now id key
    omega

section Acquire
variable {now reading : Nat} {cap : Int} {id : SlotId} {key : Option (Entry (SortedSet SlotId))}

/-- What the script answers, and the members it leaves. -/
theorem acquireSlot_cases :
    (acquireSlot now reading cap slotTtl id key).2 = 1 ∧
        members now (acquireSlot now reading cap slotTtl id key).1 =
          (kept now reading key).filter (fun m => m.1 ≠ id) ++ [(id, reading + slotTtl)] ∧
        (kept now reading key).length < cap ∨
      (acquireSlot now reading cap slotTtl id key).2 = 0 ∧
        members now (acquireSlot now reading cap slotTtl id key).1 = kept now reading key := by
  by_cases hroom : ((kept now reading key).length : Int) < cap
  · obtain ⟨hone, hmem⟩ := @acquireSlot_granted _ _ now reading slotTtl _ id _ hroom
    exact .inl ⟨hone, hmem, hroom⟩
  · exact .inr (@acquireSlot_refused _ _ now reading slotTtl _ id _ hroom)

/-- A slot whose time is not over survives the purge. -/
theorem acquireSlot_keeps (hread : seconds reading ≤ now) {other : SlotId} {score : Nat} (hne : other ≠ id)
    (hlt : now < seconds score) (h : (other, score) ∈ members now key) :
    (other, score) ∈ members now (acquireSlot now reading cap slotTtl id key).1 := by
  have hk : (other, score) ∈ kept now reading key := by
    refine List.mem_filter.2 ⟨h, ?_⟩
    unfold seconds at hread hlt
    simp only [decide_eq_true_eq]
    omega
  rcases @acquireSlot_cases now reading cap id key with ⟨-, hmem, -⟩ | ⟨-, hmem⟩
  · rw [hmem]
    exact List.mem_append_left _ (List.mem_filter.2 ⟨hk, by simpa using hne⟩)
  · rw [hmem]
    exact hk

theorem keyInv_acquireSlot (h : KeyInv now cap key) (hread : seconds reading ≤ now) :
    KeyInv now cap (acquireSlot now reading cap slotTtl id key).1 where
  outlives := outlives_acquireSlot h.outlives hread h.scores
  scores e he m hm := by
    rcases acquireSlot_value he hm with ⟨e0, he0, hm0⟩ | rfl
    · exact h.scores e0 he0 m hm0
    · unfold seconds at hread ⊢
      dsimp only
      omega
  room hcap := by
    have hroom := h.room hcap
    have hle : (kept now reading key).length ≤ (members now key).length := List.length_filter_le _ _
    rcases @acquireSlot_cases now reading cap id key with ⟨-, hmem, hlt⟩ | ⟨-, hmem⟩
    · have hfil := List.length_filter_le (fun m : SlotId × Nat => decide (m.1 ≠ id)) (kept now reading key)
      rw [hmem, List.length_append, List.length_singleton]
      omega
    · rw [hmem]
      omega

end Acquire

/-- The keys of the jobs after one of them was written. -/
theorem keys_update {now : Nat} {slots : String → Option (Entry (SortedSet SlotId))}
    (hnames : ∀ a ∈ registry, ∀ b ∈ registry, a.name = b.name → a = b)
    (hkeys : ∀ job ∈ registry, KeyInv now job.maxConcurrency (slots job.name)) {job : JobDescriptor}
    (hjob : job ∈ registry) {key : Option (Entry (SortedSet SlotId))} (hkey : KeyInv now job.maxConcurrency key) :
    ∀ other ∈ registry, KeyInv now other.maxConcurrency (Function.update slots job.name key other.name) := by
  intro other hother
  by_cases hname : other.name = job.name
  · obtain rfl := hnames other hother job hjob hname
    rw [Function.update_self]
    exact hkey
  · rw [Function.update_of_ne hname]
    exact hkeys other hother

/-! ## Steps that leave the threads alone -/

variable {s : SlotCluster}

theorem capInv_empty : CapInv fold registry .empty where
  nodes := by simp [SlotCluster.empty]
  asked := by simp [SlotCluster.empty]
  keys job _ := keyInv_none 0 job.maxConcurrency
  slots id t h := by
    obtain ⟨n, hn, -⟩ := threadAt_some.1 h
    cases hn
  bodies := by simp [SlotCluster.empty]
  nodup := List.nodup_nil

theorem capInv_grows (hi : CapInv fold registry s) {nodes : List Node} (hg : Grows s.nodes nodes)
    (hnodes : ∀ n ∈ nodes, NodeInv fold registry n) : CapInv fold registry { s with nodes := nodes } := by
  refine { hi with nodes := hnodes, slots := ?_, bodies := ?_ }
  · intro id t h hr
    rcases hg.fresh id t h with h | h
    · exact hi.slots id t h hr
    · rw [h] at hr
      cases hr
  · intro b hb
    obtain ⟨t, ht, hrest⟩ := hi.bodies b hb
    exact ⟨t, hg.keeps _ _ ht, hrest⟩

theorem capInv_advance (hi : CapInv fold registry s) {d : Nat} (hp : Punctual s (.advance d)) :
    CapInv fold registry { s with clock := s.clock + d } := by
  refine { hi with asked := ?_, keys := ?_, slots := ?_, bodies := ?_ }
  · intro r hr
    exact Nat.le_trans (hi.asked r hr) (Nat.le_add_right _ _)
  · intro job hjob
    exact keyInv_later (hi.keys job hjob) (Nat.le_add_right _ _)
  · intro id t h hr
    obtain ⟨n, hn, ht⟩ := threadAt_some.1 h
    have hjob := (hi.nodes n (List.mem_of_getElem? hn)).jobs t (List.mem_of_getElem? ht)
    obtain ⟨score, hscore, hmem⟩ := hi.slots id t h hr
    refine ⟨score, hscore, fun hlt => ?_⟩
    dsimp only at hlt ⊢
    refine member_later (hi.keys t.job hjob).outlives (hmem (by omega)) ?_
    unfold seconds at hlt ⊢
    dsimp only
    omega
  · intro b hb
    obtain ⟨t, ht, hjob, hfin⟩ := hi.bodies b hb
    exact ⟨t, ht, hjob, fun hf => ⟨(hfin hf).1, hp b hb hf⟩⟩

/-! ## Steps of one thread -/

/-- Thread `id` took its step `a` from `t` to `t'`, and the nodes are `nodes` now. -/
structure Acted (fold : String → String) (registry : List JobDescriptor) (s : SlotCluster) (id : SlotId) (a : Act)
    (nodes : List Node) (t t' : Thread) : Prop where
  inv : ∀ n ∈ nodes, NodeInv fold registry n
  before : threadAt s.nodes id = some t
  after : ∀ other x, threadAt nodes other = some x ↔
    (other = id ∧ x = t') ∨ (other ≠ id ∧ threadAt s.nodes other = some x)
  registered : t.job ∈ registry
  ok : t.Ok t.job.cap
  job : t'.job = t.job
  step : ∃ tr tr', t.step tr a = some (tr', t')

/-- The invariants of the nodes after node `i` took a step. -/
theorem nodes_step (hnames : ∀ a ∈ registry, ∀ b ∈ registry, fold a.name = fold b.name → a = b)
    (hi : CapInv fold registry s) {i : Nat} {n n' : Node} {e : NodeEvent} (hn : s.nodes[i]? = some n)
    (h : n.step fold registry e = some n') : ∀ m ∈ s.nodes.set i n', NodeInv fold registry m := by
  intro m hm
  rcases List.mem_or_eq_of_mem_set hm with hm | rfl
  · exact hi.nodes m hm
  · exact nodeInv_step hnames (hi.nodes n (List.mem_of_getElem? hn)) h

theorem acted (hnames : ∀ a ∈ registry, ∀ b ∈ registry, fold a.name = fold b.name → a = b)
    (hi : CapInv fold registry s) {id : SlotId} {a : Act} {n n' : Node} {t : Thread} (hn : s.nodes[id.1]? = some n)
    (ht : n.threads[id.2]? = some t) (hs : n.step fold registry (.act id.2 a) = some n') :
    ∃ t', Acted fold registry s id a (s.nodes.set id.1 n') t t' := by
  have hnodes := nodes_step hnames hi hn hs
  have hinv := hi.nodes n (List.mem_of_getElem? hn)
  have htm := List.mem_of_getElem? ht
  obtain ⟨t0, tr, t', ht0, hstep, rfl⟩ := Node.act_cases hs
  rw [ht] at ht0
  obtain rfl := Option.some.inj ht0
  have hjob := hinv.jobs t htm
  have hok := hinv.ok t htm
  have hmoves := Thread.step_moves (hinv.max t.job hjob ▸ hok) hstep
  exact ⟨t', hnodes, threadAt_some.2 ⟨n, hn, ht⟩, fun other x => threadAt_set hn ht rfl, hjob, hok, hmoves.job,
    _, _, hstep⟩

/-! ### A local step -/

/-- The slot keys after a local step of thread `id`: its own slot may be gone. -/
def afterLocal (s : SlotCluster) (id : SlotId) (t : Thread) (a : Act) : String → Option (Entry (SortedSet SlotId)) :=
  if Act.disposes a && t.holdsRemote then
    Function.update s.slots t.job.name (zrem s.clock id (s.slots t.job.name))
  else s.slots

theorem keys_afterLocal (hnames : ∀ a ∈ registry, ∀ b ∈ registry, a.name = b.name → a = b)
    (hi : CapInv fold registry s) {id : SlotId} {t : Thread} {a : Act} (hjob : t.job ∈ registry) :
    ∀ job ∈ registry, KeyInv s.clock job.maxConcurrency (afterLocal s id t a job.name) := by
  unfold afterLocal
  split
  · exact keys_update hnames hi.keys hjob (keyInv_zrem (hi.keys t.job hjob) id)
  · exact hi.keys

theorem members_afterLocal {id other : SlotId} {t : Thread} {a : Act} {name : String} {score : Nat} (hne : other ≠ id)
    (h : (other, score) ∈ members s.clock (s.slots name)) :
    (other, score) ∈ members s.clock (afterLocal s id t a name) := by
  unfold afterLocal
  split
  · by_cases hname : name = t.job.name
    · subst hname
      rw [Function.update_self, members_zrem]
      exact List.mem_filter.2 ⟨h, by simpa using hne⟩
    · rw [Function.update_of_ne hname]
      exact h
  · exact h

section Local
variable {id : SlotId} {a : Act} {nodes : List Node} {t t' : Thread}

/-- A thread that still holds its slot held it before, and no key changed. -/
theorem held_before (hact : Acted fold registry s id a nodes t t') (ha : Act.answered a = false)
    (hr : t'.holdsRemote = true) : t.holdsRemote = true ∧ afterLocal s id t a = s.slots := by
  obtain ⟨tr, tr', hstep⟩ := hact.step
  rcases step_holdsRemote hstep with ⟨-, hno⟩ | ⟨hd, ⟨rfl, -⟩ | heq⟩
  · rw [hr] at hno
    cases hno
  · cases ha
  · refine ⟨heq ▸ hr, ?_⟩
    unfold afterLocal
    rw [hd]
    rfl

theorem slotHeld_local (hi : CapInv fold registry s) (hact : Acted fold registry s id a nodes t t')
    (ha : Act.answered a = false) {other : SlotId} {x : Thread} (hx : threadAt nodes other = some x)
    (hr : x.holdsRemote = true) : SlotHeld { s with slots := afterLocal s id t a } other x := by
  rcases (hact.after other x).1 hx with ⟨rfl, rfl⟩ | ⟨hne, hx⟩
  · obtain ⟨hold, hkeys⟩ := held_before hact ha hr
    obtain ⟨score, hscore, hmem⟩ := hi.slots other t hact.before hold
    refine ⟨score, hscore, fun hlt => ?_⟩
    dsimp only
    rw [hkeys, hact.job]
    exact hmem hlt
  · obtain ⟨score, hscore, hmem⟩ := hi.slots other x hx hr
    exact ⟨score, hscore, fun hlt => members_afterLocal hne (hmem hlt)⟩

/-- A body in progress stays covered: its own thread disposes of no slot. -/
theorem bodyHeld_local (hi : CapInv fold registry s) (hact : Acted fold registry s id a nodes t t')
    {b : Body} (hb : b ∈ s.bodies) (hp : t.job.finite = true → Act.disposes a = true → b.slotId ≠ id) :
    BodyHeld { s with nodes := nodes } b := by
  obtain ⟨x, hx, hxjob, hfin⟩ := hi.bodies b hb
  by_cases hid : b.slotId = id
  · rw [hid, hact.before] at hx
    obtain rfl := Option.some.inj hx
    refine ⟨t', (hact.after b.slotId t').2 (.inl ⟨hid, rfl⟩), hact.job.trans hxjob, fun hf => ?_⟩
    obtain ⟨hr, htime⟩ := hfin hf
    refine ⟨?_, htime⟩
    obtain ⟨tr, tr', hstep⟩ := hact.step
    rcases step_holdsRemote hstep with ⟨hd, -⟩ | ⟨-, ⟨-, hr'⟩ | heq⟩
    · exact absurd hid (hp (hxjob ▸ hf) hd)
    · exact hr'
    · rw [heq, hr]
  · exact ⟨x, (hact.after b.slotId x).2 (.inr ⟨hid, hx⟩), hxjob, hfin⟩

/-- The method is called while the thread executes. -/
theorem invokes_cases (h : Thread.invokes t a = true) : a = .effect ∧ t.phase.holdsRemote = true := by
  unfold Thread.invokes at h
  split at h
  · split at h
    · rename_i rest hphase
      exact ⟨rfl, by rw [hphase]; rfl⟩
    · cases h
  · cases h

/-- The body that begins belongs to a thread that holds its slot. -/
theorem bodyHeld_invoked (hact : Acted fold registry s id a nodes t t') (hinvokes : Thread.invokes t a = true)
    (htime : t.job.finite = true → InTime s id s.clock) : BodyHeld { s with nodes := nodes } ⟨id, t.job⟩ := by
  refine ⟨t', (hact.after id t').2 (.inl ⟨rfl, rfl⟩), hact.job, fun hf => ⟨?_, htime hf⟩⟩
  obtain ⟨rfl, hphase⟩ := invokes_cases hinvokes
  obtain ⟨tr, tr', hstep⟩ := hact.step
  rcases step_holdsRemote hstep with ⟨hd, -⟩ | ⟨-, ⟨hg, -⟩ | heq⟩
  · cases hd
  · cases hg
  · rw [heq, hact.ok.remote, hphase]
    exact hf

end Local

theorem capInv_local (hnames : ∀ a ∈ registry, ∀ b ∈ registry, fold a.name = fold b.name → a = b)
    (hi : CapInv fold registry s) {i k : Nat} {a : Act} {n n' : Node} {t : Thread} (hn : s.nodes[i]? = some n)
    (ht : n.threads[k]? = some t) (hs : n.step fold registry (.act k a) = some n') (ha : Act.answered a = false)
    (hp : Punctual s (.local_ i (.act k a))) :
    CapInv fold registry { s with
      nodes := s.nodes.set i n'
      slots := afterLocal s (i, k) t a
      bodies := if Thread.invokes t a then s.bodies.insert ⟨(i, k), t.job⟩ else s.bodies } := by
  have hnames' : ∀ a ∈ registry, ∀ b ∈ registry, a.name = b.name → a = b :=
    fun a ha b hb h => hnames a ha b hb (congrArg fold h)
  obtain ⟨t', hact⟩ := @acted _ _ _ hnames hi (i, k) a n n' t hn ht hs
  have hpunctual := hp t hact.before
  refine { hi with nodes := hact.inv, keys := ?_, slots := ?_, bodies := ?_, nodup := ?_ }
  · exact keys_afterLocal hnames' hi hact.registered
  · intro id x hx hr
    exact slotHeld_local hi hact ha hx hr
  · intro b hb
    have hold : ∀ b ∈ s.bodies, BodyHeld { s with nodes := s.nodes.set i n' } b :=
      fun b hb => bodyHeld_local hi hact hb fun hf hd => (hpunctual hf).2 hd b hb
    dsimp only at hb
    split at hb
    · rename_i hinvokes
      rcases List.mem_insert_iff.1 hb with rfl | hb
      · exact bodyHeld_invoked hact hinvokes fun hf => (hpunctual hf).1 hinvokes
      · exact hold b hb
    · exact hold b hb
  · dsimp only
    split
    · exact hi.nodup.insert
    · exact hi.nodup

/-! ### An answer of the script -/

section Script
variable {r : SlotRequest} {nodes : List Node} {t t' : Thread} {answer : Answer}

/-- A thread that waits for the coordinator holds no slot yet, and its cap is finite. -/
theorem waiting (hact : Acted fold registry s r.slotId (.coordinator answer) nodes t t') :
    t.job.finite = true ∧ t.holdsRemote = false := by
  obtain ⟨tr, tr', hstep⟩ := hact.step
  have hphase : t.phase = .coordinator := by
    cases Thread.step_cases hstep with
    | granted hp | refused hp => exact hp
    | body hb => cases hb
  have hsane := hact.ok.sane
  have hremote := hact.ok.remote
  rw [hphase] at hsane hremote
  exact ⟨hsane, hremote⟩

variable {call : Option (Entry (SortedSet SlotId)) × Nat}

/-- The grants after the script: a refusal writes none. -/
def afterScript (s : SlotCluster) (r : SlotRequest) (answer : Nat) : SlotId → Option Nat :=
  if answer = 1 then Function.update s.granted r.slotId (some (r.reading + slotTtl)) else s.granted

theorem afterScript_other {id : SlotId} (hne : id ≠ r.slotId) (answer : Nat) :
    afterScript s r answer id = s.granted id := by
  unfold afterScript
  split
  · rw [Function.update_of_ne hne]
  · rfl

/-- The caller has a slot only by this grant, and its time has just begun. -/
theorem slotHeld_caller
    (hact : Acted fold registry s r.slotId (.coordinator (if call.2 = 1 then .granted else .refused)) nodes t t')
    (hcall : call = acquireSlot s.clock r.reading t.job.maxConcurrency slotTtl r.slotId (s.slots t.job.name))
    (hr : t'.holdsRemote = true) :
    SlotHeld { s with slots := Function.update s.slots t.job.name call.1, granted := afterScript s r call.2 }
      r.slotId t' := by
  have hcases := @acquireSlot_cases s.clock r.reading t.job.maxConcurrency r.slotId (s.slots t.job.name)
  rw [← hcall] at hcases
  rcases hcases with ⟨hone, hmem, -⟩ | ⟨hzero, -⟩
  · refine ⟨r.reading + slotTtl, ?_, fun _ => ?_⟩
    · unfold afterScript
      dsimp only
      rw [if_pos hone, Function.update_self]
    · dsimp only
      rw [hact.job, Function.update_self, hmem]
      simp
  · obtain ⟨tr, tr', hstep⟩ := hact.step
    rcases step_holdsRemote hstep with ⟨hd, -⟩ | ⟨-, ⟨hg, -⟩ | heq⟩
    · cases hd
    · rw [if_neg (by rw [hzero]; decide)] at hg
      cases hg
    · rw [heq, (waiting hact).2] at hr
      cases hr

/-- The slots of the other threads that are in time survive the purge. -/
theorem slotHeld_script (hi : CapInv fold registry s) (hasked : seconds r.reading ≤ s.clock)
    (hcall : call = acquireSlot s.clock r.reading t.job.maxConcurrency slotTtl r.slotId (s.slots t.job.name))
    {id : SlotId} {x : Thread} (hne : id ≠ r.slotId) (hx : threadAt s.nodes id = some x) (hr : x.holdsRemote = true) :
    SlotHeld { s with slots := Function.update s.slots t.job.name call.1, granted := afterScript s r call.2 } id x := by
  obtain ⟨score, hscore, hmem⟩ := hi.slots id x hx hr
  refine ⟨score, (afterScript_other hne _).trans hscore, fun hlt => ?_⟩
  dsimp only at hlt ⊢
  by_cases hname : x.job.name = t.job.name
  · rw [hname, Function.update_self, hcall]
    exact acquireSlot_keeps hasked hne hlt (hname ▸ hmem hlt)
  · rw [Function.update_of_ne hname]
    exact hmem hlt

/-- The caller has no body yet, and the bodies of the others keep their grants. -/
theorem bodyHeld_script (hi : CapInv fold registry s)
    (hact : Acted fold registry s r.slotId (.coordinator answer) nodes t t') {b : Body} (hb : b ∈ s.bodies) (n : Nat) :
    BodyHeld { s with nodes := nodes, granted := afterScript s r n } b := by
  obtain ⟨x, hx, hxjob, hfin⟩ := hi.bodies b hb
  obtain ⟨hfinite, hnone⟩ := waiting hact
  have hne : b.slotId ≠ r.slotId := by
    intro hid
    rw [hid, hact.before] at hx
    obtain rfl := Option.some.inj hx
    have hheld := (hfin (hxjob ▸ hfinite)).1
    rw [hnone] at hheld
    cases hheld
  refine ⟨x, (hact.after b.slotId x).2 (.inr ⟨hne, hx⟩), hxjob, fun hf => ?_⟩
  obtain ⟨hheld, score, hscore, hlt⟩ := hfin hf
  exact ⟨hheld, score, (afterScript_other hne n).trans hscore, hlt⟩

theorem capInv_script (hnames : ∀ a ∈ registry, ∀ b ∈ registry, fold a.name = fold b.name → a = b)
    (hi : CapInv fold registry s) (hr : r ∈ s.requests) {n n' : Node} (hn : s.nodes[r.slotId.1]? = some n)
    (ht : n.threads[r.slotId.2]? = some t)
    (hcall : call = acquireSlot s.clock r.reading t.job.maxConcurrency slotTtl r.slotId (s.slots t.job.name))
    (hs : n.step fold registry (.act r.slotId.2 (.coordinator (if call.2 = 1 then .granted else .refused))) = some n') :
    CapInv fold registry { s with
      nodes := s.nodes.set r.slotId.1 n'
      slots := Function.update s.slots t.job.name call.1
      requests := s.requests.erase r
      granted := afterScript s r call.2 } := by
  have hnames' : ∀ a ∈ registry, ∀ b ∈ registry, a.name = b.name → a = b :=
    fun a ha b hb h => hnames a ha b hb (congrArg fold h)
  obtain ⟨t', hact⟩ := acted hnames hi hn ht hs
  have hasked := hi.asked r hr
  refine { hi with nodes := hact.inv, asked := ?_, keys := ?_, slots := ?_, bodies := ?_ }
  · intro q hq
    exact hi.asked q (List.mem_of_mem_erase hq)
  · refine keys_update hnames' hi.keys hact.registered ?_
    rw [hcall]
    exact keyInv_acquireSlot (hi.keys t.job hact.registered) hasked
  · intro id x hx hxr
    rcases (hact.after id x).1 hx with ⟨rfl, rfl⟩ | ⟨hne, hx⟩
    · exact slotHeld_caller hact hcall hxr
    · exact slotHeld_script hi hasked hcall hne hx hxr
  · intro b hb
    exact bodyHeld_script hi hact hb call.2

end Script

/-! ## The run -/

theorem capInv_step (hnames : ∀ a ∈ registry, ∀ b ∈ registry, fold a.name = fold b.name → a = b)
    {s' : SlotCluster} {e : SlotClusterEvent} (hi : CapInv fold registry s) (hp : Punctual s e) (h : s.step fold registry e = some s') :
    CapInv fold registry s' := by
  cases e with
  | join =>
    cases h
    refine capInv_grows hi (grows_join _) fun n hn => ?_
    rcases List.mem_append.1 hn with hn | hn
    · exact hi.nodes n hn
    · rw [List.mem_singleton.1 hn]
      exact nodeInv_empty
  | advance d =>
    cases h
    exact capInv_advance hi hp
  | local_ i e =>
    cases e with
    | act k a =>
      simp only [SlotCluster.step] at h
      split at h
      · cases h
      · rename_i ha
        obtain ⟨n, hn, h⟩ := Option.bind_eq_some_iff.1 h
        obtain ⟨t, ht, h⟩ := Option.bind_eq_some_iff.1 h
        obtain ⟨n', hs, h⟩ := Option.bind_eq_some_iff.1 h
        cases h
        exact capInv_local hnames hi hn ht hs (Bool.eq_false_iff.2 ha) hp
    | fire job | trigger jobName =>
      obtain ⟨n, hn, h⟩ := Option.bind_eq_some_iff.1 h
      obtain ⟨n', hs, h⟩ := Option.bind_eq_some_iff.1 h
      cases h
      exact capInv_grows hi (grows_node hn hs (by simp)) (nodes_step hnames hi hn hs)
  | request slotId =>
    obtain ⟨n, hn, h⟩ := Option.bind_eq_some_iff.1 h
    obtain ⟨t, ht, h⟩ := Option.bind_eq_some_iff.1 h
    split at h <;> cases h
    refine { hi with asked := fun r hr => ?_ }
    rcases List.mem_append.1 hr with hr | hr
    · exact hi.asked r hr
    · rw [List.mem_singleton.1 hr]
      exact seconds_reading_le s.clock
  | script r =>
    simp only [SlotCluster.step] at h
    split at h
    · rename_i hr
      obtain ⟨n, hn, h⟩ := Option.bind_eq_some_iff.1 h
      obtain ⟨t, ht, h⟩ := Option.bind_eq_some_iff.1 h
      obtain ⟨n', hs, h⟩ := Option.bind_eq_some_iff.1 h
      cases h
      exact capInv_script hnames hi hr hn ht rfl hs
    · cases h
  | bodyEnds b =>
    simp only [SlotCluster.step] at h
    split at h <;> cases h
    exact { hi with
      bodies := fun c hc => hi.bodies c (List.mem_of_mem_erase hc)
      nodup := hi.nodup.erase b }

/-- Each body of a job is in the job's slot set, under an id of its own. -/
theorem inProgress_le (hi : CapInv fold registry s) {job : JobDescriptor} (hjob : job ∈ registry)
    (hcap : 1 ≤ job.maxConcurrency) (hfinite : job.finite = true) : ((s.inProgress job).length : Int) ≤ job.maxConcurrency := by
  have hids : ((s.inProgress job).map Body.slotId).Nodup := by
    refine List.Nodup.map_on ?_ (hi.nodup.filter _)
    intro b hb c hc hid
    obtain ⟨t, ht, htb, -⟩ := hi.bodies b (List.mem_of_mem_filter hb)
    obtain ⟨u, hu, huc, -⟩ := hi.bodies c (List.mem_of_mem_filter hc)
    rw [hid, hu] at ht
    obtain rfl := Option.some.inj ht
    cases b
    cases c
    simp only at hid htb huc
    rw [hid, ← htb, ← huc]
  have hsub : (s.inProgress job).map Body.slotId ⊆ (members s.clock (s.slots job.name)).map Prod.fst := by
    intro id hid
    obtain ⟨b, hb, rfl⟩ := List.mem_map.1 hid
    obtain ⟨hmem, hbjob⟩ := List.mem_filter.1 hb
    obtain rfl : b.job = job := by simpa using hbjob
    obtain ⟨t, ht, htjob, hfin⟩ := hi.bodies b hmem
    obtain ⟨hr, score, hscore, hlt⟩ := hfin hfinite
    obtain ⟨score', hscore', hin⟩ := hi.slots b.slotId t ht hr
    rw [hscore] at hscore'
    obtain rfl := Option.some.inj hscore'
    rw [htjob] at hin
    exact List.mem_map.2 ⟨_, hin hlt, rfl⟩
  have hle := List.Nodup.length_le_of_subset hids hsub
  have hroom := (hi.keys job hjob).room hcap
  rw [List.length_map, List.length_map] at hle
  omega

end Step

/-- In every run whose bodies are punctual, no job with a finite cap has more
bodies in progress across the cluster than its `MaxConcurrency`. -/
theorem cluster_cap (fold : String → String) (registry : List JobDescriptor)
    (hnames : (registry.map fun job => fold job.name).Nodup) (es : List SlotClusterEvent) (s : SlotCluster)
    (hrun : exec (SlotCluster.step fold registry) .empty es = some s)
    (hpunctual : Along (SlotCluster.step fold registry) Punctual .empty es) :
    ∀ job ∈ registry, 1 ≤ job.maxConcurrency → job.maxConcurrency < intMaxValue →
      ((s.inProgress job).length : Int) ≤ job.maxConcurrency := by
  have hi := exec_inv_along Punctual (CapInv fold registry)
    (fun _ _ _ hi hp hs => capInv_step (names_inj hnames) hi hp hs) capInv_empty hpunctual hrun
  intro job hjob hcap hlt
  exact inProgress_le hi hjob hcap (decide_eq_true hlt)

/-! ## A body that outlives its slot -/

/-- A cron fire on node `i` up to the thread's execution; its request carries `reading`. -/
def fireOn (i reading : Nat) : List SlotClusterEvent :=
  [.local_ i (.fire nightly), .local_ i (.act 0 .read), .local_ i (.act 0 .swap), .request (i, 0),
    .script ⟨(i, 0), reading⟩, .local_ i (.act 0 .enqueue), .local_ i (.act 0 .start),
    .local_ i (.act 0 (.create true)), .local_ i (.act 0 (.begin_ 7 0 JobExecutor.quietOutcomes))]

/-- The executor's steps up to the call of the method. -/
def untilInvoked (i : Nat) : List SlotClusterEvent := List.replicate 6 (.local_ i (.act 0 .effect))

/-- The job runs on one node for an hour; then it is due on the other. -/
def hourLongBody : List SlotClusterEvent :=
  [.join, .join] ++ fireOn 0 0 ++ untilInvoked 0 ++ [.advance 3600000] ++ fireOn 1 3600 ++ untilInvoked 1

theorem two_bodies_in_progress : (exec (SlotCluster.step id [nightly]) .empty hourLongBody).map
    (fun s => (s.inProgress nightly).length) = some 2 := by
  decide +kernel

theorem cap_can_be_exceeded :
    ¬ ∀ (fold : String → String) (registry : List JobDescriptor), (registry.map fun job => fold job.name).Nodup →
      (∀ job ∈ registry, 1 ≤ job.maxConcurrency) → ∀ es s,
        exec (SlotCluster.step fold registry) .empty es = some s →
          ∀ job ∈ registry, job.maxConcurrency < intMaxValue →
            ((s.inProgress job).length : Int) ≤ job.maxConcurrency := by
  intro h
  obtain ⟨s, hs, hlen⟩ := Option.map_eq_some_iff.1 two_bodies_in_progress
  have hbad := h id [nightly] (by decide) (by decide) hourLongBody s hs nightly List.mem_cons_self (by decide)
  rw [hlen] at hbad
  exact absurd hbad (by decide)

/-- Steps of an executor within the time of its slot are punctual. -/
theorem along_effects {fold : String → String} {registry : List JobDescriptor} {i k m : Nat} {s : SlotCluster}
    (h : InTime s (i, k) s.clock) :
    Along (SlotCluster.step fold registry) Punctual s (List.replicate m (.local_ i (.act k .effect))) := by
  induction m generalizing s with
  | zero => trivial
  | succ m ih =>
    refine ⟨fun t _ _ => ⟨fun _ => h, nofun⟩, fun s' hs' => ih ?_⟩
    simp only [SlotCluster.step] at hs'
    split at hs'
    · cases hs'
    · obtain ⟨n, -, hs'⟩ := Option.bind_eq_some_iff.1 hs'
      obtain ⟨t, -, hs'⟩ := Option.bind_eq_some_iff.1 hs'
      obtain ⟨n', -, hs'⟩ := Option.bind_eq_some_iff.1 hs'
      cases hs'
      exact h

theorem fireOn_granted : (exec (SlotCluster.step id [nightly]) .empty (.join :: fireOn 0 0)).map
    (fun s => (s.granted (0, 0), s.clock)) = some (some 3600, 0) := by
  decide +kernel

theorem one_body_in_progress : (exec (SlotCluster.step id [nightly]) .empty (.join :: fireOn 0 0 ++ untilInvoked 0)).map
    (fun s => (s.inProgress nightly).length) = some 1 := by
  decide +kernel

/-- Only the executor's steps and the disposal have to be punctual. -/
theorem punctual_other {s : SlotCluster} {i k : Nat} {a : Act} (he : a ≠ .effect) (hd : a ≠ .dispose) :
    Punctual s (.local_ i (.act k a)) := by
  intro t _ _
  constructor
  · intro h
    cases a <;> first | exact absurd rfl he | cases h
  · intro h
    cases a <;> first | exact absurd rfl hd | cases h

theorem along_fireOn : Along (SlotCluster.step id [nightly]) Punctual .empty (.join :: fireOn 0 0) := by
  have hall : ∀ e ∈ SlotClusterEvent.join :: fireOn 0 0, ∀ s, Punctual s e := by
    intro e he s
    simp only [fireOn, List.mem_cons, List.not_mem_nil, or_false] at he
    rcases he with rfl | rfl | rfl | rfl | rfl | rfl | rfl | rfl | rfl | rfl <;>
      first | trivial | exact punctual_other (by simp) (by simp)
  exact along_mono (fun s _ h => h s) (along_of_forall hall)

theorem cluster_cap_oneBody :
    ∃ s, exec (SlotCluster.step id [nightly]) .empty (.join :: fireOn 0 0 ++ untilInvoked 0) = some s ∧
      (s.inProgress nightly).length = 1 ∧
      ∀ job ∈ [nightly], 1 ≤ job.maxConcurrency → job.maxConcurrency < intMaxValue →
        ((s.inProgress job).length : Int) ≤ job.maxConcurrency := by
  obtain ⟨s, hs, hlen⟩ := Option.map_eq_some_iff.1 one_body_in_progress
  refine ⟨s, hs, hlen, cluster_cap id [nightly] (by decide) _ s hs ?_⟩
  refine along_append_intro along_fireOn fun t ht => ?_
  obtain ⟨u, hu, hgranted⟩ := Option.map_eq_some_iff.1 fireOn_granted
  rw [ht] at hu
  obtain rfl := Option.some.inj hu
  obtain ⟨hscore, hclock⟩ := Prod.mk.inj hgranted
  exact along_effects ⟨3600, hscore, by rw [hclock]; decide⟩

end DuckRun.Redis

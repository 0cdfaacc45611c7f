import DuckRun.Redis.Scripts
import DuckRun.Lib.Machine
/-!
# The lease on the leader key

Any number of nodes run `AcquireOrRefreshLeader` and `ReleaseLeader` against one
server, in any order and at any times of its clock. A grant protects its node
until it releases the key or the lease is over (`LeaseInv`).
-/

namespace DuckRun.Redis

open DuckRun.Lib DuckRun.Lib.Expiry

inductive LeaderScript where
  | acquireOrRefresh
  | release
  deriving DecidableEq, Repr

/-- One execution of a script on the server. -/
structure LeaderCall (ν : Type) where
  time : Nat
  nodeId : ν
  script : LeaderScript
  deriving DecidableEq, Repr

/-- The server: its clock, the leader key, and every call so far with what it returned. -/
structure LeaderServer (ν : Type) where
  clock : Nat
  key : Option (Entry ν)
  log : List (LeaderCall ν × Nat)

def LeaderServer.empty {ν : Type} : LeaderServer ν := ⟨0, none, []⟩

section Server
variable {ν : Type} [DecidableEq ν]

/-- `ScriptEvaluateAsync` of one of the two scripts. -/
def evaluate (ttl : Nat) (c : LeaderCall ν) (key : Option (Entry ν)) : Option (Entry ν) × Nat :=
  match c.script with
  | .acquireOrRefresh => acquireOrRefreshLeader c.time c.nodeId ttl key
  | .release => releaseLeader c.time c.nodeId key

/-- The server's clock does not go back. -/
def LeaderServer.step (ttl : Nat) (s : LeaderServer ν) (c : LeaderCall ν) : Option (LeaderServer ν) :=
  if s.clock ≤ c.time then
    some ⟨c.time, (evaluate ttl c s.key).1, s.log ++ [(c, (evaluate ttl c s.key).2)]⟩
  else none

/-! ## What a call does -/

/-- The four outcomes of a call. -/
inductive CallEffect (ttl : Nat) (c : LeaderCall ν) (key : Option (Entry ν)) : Option (Entry ν) × Nat → Prop where
  | granted (hs : c.script = .acquireOrRefresh) (hfree : valueAt c.time key = none ∨ valueAt c.time key = some c.nodeId) :
      CallEffect ttl c key (some ⟨c.nodeId, some (c.time + seconds ttl)⟩, 1)
  | refused (hs : c.script = .acquireOrRefresh) (owner : ν) (ho : valueAt c.time key = some owner)
      (hne : owner ≠ c.nodeId) : CallEffect ttl c key (key, 0)
  | released (hs : c.script = .release) (ho : valueAt c.time key = some c.nodeId) : CallEffect ttl c key (none, 1)
  | kept (hs : c.script = .release) (ho : valueAt c.time key ≠ some c.nodeId) : CallEffect ttl c key (key, 0)

theorem evaluate_effect (ttl : Nat) (c : LeaderCall ν) (key : Option (Entry ν)) :
    CallEffect ttl c key (evaluate ttl c key) := by
  cases hs : c.script with
  | acquireOrRefresh =>
    have he : evaluate ttl c key = acquireOrRefreshLeader c.time c.nodeId ttl key := by
      unfold evaluate
      rw [hs]
    rw [he]
    rcases acquireOrRefreshLeader_cases c.time c.nodeId ttl key with ⟨hfree, h⟩ | ⟨⟨owner, ho, hne⟩, h⟩
    · rw [h]
      exact .granted hs hfree
    · rw [h]
      exact .refused hs owner ho hne
  | release =>
    have he : evaluate ttl c key = releaseLeader c.time c.nodeId key := by
      unfold evaluate
      rw [hs]
    rw [he]
    rcases releaseLeader_cases c.time c.nodeId key with ⟨ho, h⟩ | ⟨ho, h⟩
    · rw [h]
      exact .released hs ho
    · rw [h]
      exact .kept hs ho

theorem LeaderServer.step_some {ttl : Nat} {s s' : LeaderServer ν} {c : LeaderCall ν} (h : s.step ttl c = some s') :
    s.clock ≤ c.time ∧ s' = ⟨c.time, (evaluate ttl c s.key).1, s.log ++ [(c, (evaluate ttl c s.key).2)]⟩ := by
  unfold LeaderServer.step at h
  split at h
  · rename_i hle
    cases h
    exact ⟨hle, rfl⟩
  · cases h

/-! ## The lease -/

/-- `n` ran `AcquireOrRefreshLeader` at `t` and it returned 1. -/
def grant (n : ν) (t : Nat) : LeaderCall ν × Nat := (⟨t, n, .acquireOrRefresh⟩, 1)

/-- The log has a release by `n` that deleted the key. -/
def Releases (n : ν) (log : List (LeaderCall ν × Nat)) : Prop := ∃ t, (⟨t, n, .release⟩, 1) ∈ log

/-- The key is `n`'s at least until `d`. -/
def Owns (n : ν) (d : Nat) (key : Option (Entry ν)) : Prop := ∃ d', d ≤ d' ∧ key = some ⟨n, some d'⟩

/-- After a grant that no release of its own followed, the key is still the
node's, or the lease is over. -/
def Protected (ttl : Nat) (s : LeaderServer ν) : Prop :=
  ∀ pre n t post, s.log = pre ++ grant n t :: post → ¬ Releases n post →
    s.clock < t + seconds ttl → Owns n (t + seconds ttl) s.key

/-- The key in the server is from a grant, no grant of its owner outlives it, and the log is of the past. -/
structure LeaseInv (ttl : Nat) (s : LeaderServer ν) : Prop where
  past : ∀ x ∈ s.log, x.1.time ≤ s.clock
  held : Protected ttl s
  deadline : ∀ e, s.key = some e → ∃ d, e.deadline = some d ∧ ∀ t, grant e.value t ∈ s.log → t + seconds ttl ≤ d

omit [DecidableEq ν] in
theorem owns_valueAt {n : ν} {d now : Nat} {key : Option (Entry ν)} (h : Owns n d key) (hlt : now < d) :
    valueAt now key = some n := by
  obtain ⟨d', hle, rfl⟩ := h
  exact valueAt_some.2 ⟨some d', lookup_of_lt (by omega)⟩

omit [DecidableEq ν] in
theorem leaseInv_empty (ttl : Nat) : LeaseInv ttl (.empty : LeaderServer ν) where
  past := by simp [LeaderServer.empty]
  held := by
    intro pre n t post h
    simp [LeaderServer.empty] at h
  deadline := by simp [LeaderServer.empty]

theorem protected_step {ttl : Nat} {s s' : LeaderServer ν} {c : LeaderCall ν} (hi : LeaseInv ttl s)
    (h : s.step ttl c = some s') : Protected ttl s' := by
  obtain ⟨hle, rfl⟩ := LeaderServer.step_some h
  have heff := evaluate_effect ttl c s.key
  intro pre n t post hlog hrel hlt
  dsimp only at hlog hlt ⊢
  rcases snoc_eq_split hlog with ⟨rfl, hgrant, -⟩ | ⟨post', rfl, hold⟩
  · -- The call is the grant itself.
    obtain ⟨hc, hone⟩ := Prod.mk.inj hgrant
    subst hc
    generalize evaluate ttl _ s.key = r at heff hone
    cases heff with
    | granted hs hfree => exact ⟨_, Nat.le_refl _, rfl⟩
    | refused hs owner ho hne => cases hone
    | released hs ho => cases hs
    | kept hs ho => cases hs
  · -- The grant is older: the key was `n`'s before the call, and only `n` could change it.
    have hrel' : ¬ Releases n post' := fun ⟨t', ht'⟩ => hrel ⟨t', List.mem_append_left _ ht'⟩
    have hown := hi.held pre n t post' hold hrel' (by omega)
    have hget := owns_valueAt hown hlt
    have hlast : (c, (evaluate ttl c s.key).2) ∈ post' ++ [(c, (evaluate ttl c s.key).2)] := by simp
    generalize evaluate ttl c s.key = r at heff hlast hrel
    cases heff with
    | granted hs hfree =>
      rw [hget] at hfree
      have hn : n = c.nodeId := by
        rcases hfree with hnone | hsome
        · cases hnone
        · exact Option.some.inj hsome
      subst hn
      have hpast : t ≤ s.clock := hi.past (grant c.nodeId t) (by rw [hold]; simp)
      exact ⟨_, by omega, rfl⟩
    | refused hs owner ho hne => exact hown
    | released hs ho =>
      rw [hget] at ho
      obtain rfl := Option.some.inj ho
      refine absurd ⟨c.time, ?_⟩ hrel
      cases c
      cases hs
      exact hlast
    | kept hs ho => exact hown

theorem leaseInv_step {ttl : Nat} {s s' : LeaderServer ν} {c : LeaderCall ν} (hi : LeaseInv ttl s)
    (h : s.step ttl c = some s') : LeaseInv ttl s' := by
  have hheld := protected_step hi h
  obtain ⟨hle, rfl⟩ := LeaderServer.step_some h
  refine ⟨?_, hheld, ?_⟩
  · intro x hx
    rcases List.mem_append.1 hx with hx | hx
    · exact Nat.le_trans (hi.past x hx) hle
    · exact Nat.le_of_eq (congrArg (fun x => x.1.time) (List.mem_singleton.1 hx))
  · have heff := evaluate_effect ttl c s.key
    dsimp only
    generalize evaluate ttl c s.key = r at heff
    cases heff with
    | granted hs hfree =>
      rintro e ⟨⟩
      refine ⟨_, rfl, fun t ht => ?_⟩
      have hpast : t ≤ c.time := by
        rcases List.mem_append.1 ht with ht | ht
        · exact Nat.le_trans (hi.past _ ht) hle
        · have heq := congrArg (fun x => x.1.time) (List.mem_singleton.1 ht)
          exact Nat.le_of_eq heq
      omega
    | refused hs owner ho hne =>
      intro e he
      obtain ⟨d, hd, hall⟩ := hi.deadline e he
      refine ⟨d, hd, fun t ht => hall t ?_⟩
      simpa [grant] using ht
    | released hs ho =>
      rintro e ⟨⟩
    | kept hs ho =>
      intro e he
      obtain ⟨d, hd, hall⟩ := hi.deadline e he
      refine ⟨d, hd, fun t ht => hall t ?_⟩
      simpa [grant] using ht

theorem leaseInv_exec {ttl : Nat} {s : LeaderServer ν} {cs : List (LeaderCall ν)}
    (h : exec (LeaderServer.step ttl) .empty cs = some s) : LeaseInv ttl s :=
  exec_inv (LeaseInv ttl) (fun _ _ _ hi hs => leaseInv_step hi hs) (leaseInv_empty ttl) h

/-! ## Who can take the key -/

/-- Within the lease, another node's call is refused. -/
theorem protected_refuses {ttl : Nat} {s : LeaderServer ν} (hi : LeaseInv ttl s) {pre post : List (LeaderCall ν × Nat)}
    {n m : ν} {t t' : Nat} (hlog : s.log = pre ++ grant n t :: post) (hrel : ¬ Releases n post) (hne : n ≠ m)
    (hclock : s.clock ≤ t') (hlt : t' < t + seconds ttl) :
    (evaluate ttl ⟨t', m, .acquireOrRefresh⟩ s.key).2 = 0 := by
  have hget := owns_valueAt (hi.held pre n t post hlog hrel (by omega)) hlt
  have heq : evaluate ttl ⟨t', m, .acquireOrRefresh⟩ s.key = (s.key, 0) :=
    acquireOrRefreshLeader_refused hget hne
  rw [heq]

/-- A call that takes the key away from `n`: its own release, or a grant to
another node once every lease of `n` is over. -/
def TakesFrom (ttl : Nat) (n : ν) (s : LeaderServer ν) (c : LeaderCall ν) : Prop :=
  (evaluate ttl c s.key).2 = 1 ∧
    (c.script = .release ∧ c.nodeId = n ∨
      c.script = .acquireOrRefresh ∧ c.nodeId ≠ n ∧ ∀ t, grant n t ∈ s.log → t + seconds ttl ≤ c.time)

/-- The owner of the key stays until a call takes the key from it. -/
theorem owner_step {ttl : Nat} {s s' : LeaderServer ν} {c : LeaderCall ν} (hi : LeaseInv ttl s) {e : Entry ν}
    (he : s.key = some e) (h : s.step ttl c = some s') :
    (∃ e', s'.key = some e' ∧ e'.value = e.value) ∨ TakesFrom ttl e.value s c := by
  obtain ⟨-, rfl⟩ := LeaderServer.step_some h
  obtain ⟨d, hd, hall⟩ := hi.deadline e he
  have heff := evaluate_effect ttl c s.key
  unfold TakesFrom
  dsimp only
  generalize evaluate ttl c s.key = r at heff
  cases heff with
  | granted hs hfree =>
    by_cases hn : c.nodeId = e.value
    · exact .inl ⟨_, rfl, hn⟩
    · refine .inr ⟨rfl, .inr ⟨hs, hn, fun t ht => ?_⟩⟩
      -- The key was not the caller's, so it had expired.
      have hexp : ¬ c.time < d := by
        intro hlt
        have hown : Owns e.value d s.key := by
          refine ⟨d, Nat.le_refl _, ?_⟩
          rw [he, ← hd]
        rw [owns_valueAt hown hlt] at hfree
        rcases hfree with hnone | hsome
        · cases hnone
        · exact hn (Option.some.inj hsome).symm
      have := hall t ht
      omega
  | refused hs owner ho hne => exact .inl ⟨e, he, rfl⟩
  | released hs ho =>
    obtain ⟨d', hlook⟩ := valueAt_some.1 ho
    have hkey := (lookup_some.1 hlook).1
    rw [he] at hkey
    obtain rfl := Option.some.inj hkey
    exact .inr ⟨rfl, .inl ⟨hs, rfl⟩⟩
  | kept hs ho => exact .inl ⟨e, he, rfl⟩

theorem owner_exec {ttl : Nat} {s s' : LeaderServer ν} {cs : List (LeaderCall ν)} (hi : LeaseInv ttl s) {e e' : Entry ν}
    (he : s.key = some e) (h : exec (LeaderServer.step ttl) s cs = some s') (he' : s'.key = some e')
    (hne : e'.value ≠ e.value) :
    ∃ pre c post t, cs = pre ++ c :: post ∧ exec (LeaderServer.step ttl) s pre = some t ∧
      TakesFrom ttl e.value t c := by
  induction cs generalizing s e with
  | nil =>
    cases h
    rw [he] at he'
    obtain rfl := Option.some.inj he'
    exact absurd rfl hne
  | cons c cs ih =>
    obtain ⟨t, ht, h⟩ := exec_cons_some.1 h
    rcases owner_step hi he ht with ⟨e1, he1, hv⟩ | htake
    · obtain ⟨pre, c', post, u, rfl, hu, htake⟩ := ih (leaseInv_step hi ht) he1 h (by rwa [hv])
      rw [hv] at htake
      exact ⟨c :: pre, c', post, u, rfl, exec_cons_some.2 ⟨t, ht, hu⟩, htake⟩
    · exact ⟨[], c, cs, s, rfl, rfl, htake⟩

end Server

/-- The leader key is a lease. In every run of the two scripts by any nodes:
a grant keeps every other node out for `ttl` seconds, unless its node deletes
the key; a release by another node than the owner changes nothing; and the key
passes from one node to another only after a release by the first, or when
every one of its grants is `ttl` seconds old. -/
theorem leader_key_lease {ν : Type} [DecidableEq ν] (ttl : Nat) (cs : List (LeaderCall ν)) (s : LeaderServer ν)
    (hrun : exec (LeaderServer.step ttl) .empty cs = some s) :
    (∀ pre n t mid m t' r post, s.log = pre ++ grant n t :: mid ++ (⟨t', m, .acquireOrRefresh⟩, r) :: post →
      n ≠ m → t' < t + seconds ttl → ¬ Releases n mid → r = 0) ∧
    (∀ t m, valueAt t s.key ≠ some m → evaluate ttl ⟨t, m, .release⟩ s.key = (s.key, 0)) ∧
    ∀ later s' n m, exec (LeaderServer.step ttl) s later = some s' → valueAt s.clock s.key = some n →
      valueAt s'.clock s'.key = some m → n ≠ m →
        ∃ pre c post u, later = pre ++ c :: post ∧ exec (LeaderServer.step ttl) s pre = some u ∧
          TakesFrom ttl n u c := by
  refine ⟨?_, ?_, ?_⟩
  · -- Of every call of the log, by induction on the run.
    have hall : LeaseInv ttl s ∧ ∀ pre n t mid m t' r post,
        s.log = pre ++ grant n t :: mid ++ (⟨t', m, .acquireOrRefresh⟩, r) :: post →
          n ≠ m → t' < t + seconds ttl → ¬ Releases n mid → r = 0 := by
      refine exec_inv (fun s => LeaseInv ttl s ∧ ∀ pre n t mid m t' r post,
        s.log = pre ++ grant n t :: mid ++ (⟨t', m, .acquireOrRefresh⟩, r) :: post →
          n ≠ m → t' < t + seconds ttl → ¬ Releases n mid → r = 0) ?_ ⟨leaseInv_empty ttl, ?_⟩ hrun
      · rintro s c s' ⟨hi, hlog⟩ hs
        refine ⟨leaseInv_step hi hs, ?_⟩
        obtain ⟨hle, rfl⟩ := LeaderServer.step_some hs
        intro pre n t mid m t' r post heq hne hlt hrel
        rcases snoc_eq_split heq with ⟨rfl, hlast, hold⟩ | ⟨post', rfl, hold⟩
        · obtain ⟨rfl, rfl⟩ := Prod.mk.inj hlast
          exact protected_refuses hi hold hrel hne hle hlt
        · exact hlog pre n t mid m t' r post' hold hne hlt hrel
      · intro pre n t mid m t' r post heq
        simp [LeaderServer.empty] at heq
    exact hall.2
  · intro t m hne
    exact if_neg hne
  · intro later s' n m hlater hn hm hne
    obtain ⟨d, hd⟩ := valueAt_some.1 hn
    obtain ⟨d', hd'⟩ := valueAt_some.1 hm
    exact owner_exec (leaseInv_exec hrun) (lookup_some.1 hd).1 hlater (lookup_some.1 hd').1 hne.symm

/-- Node 1 takes the key at 0 s and dies; node 2 asks at 3 s and at 15 s. -/
def takeOver : List (LeaderCall Nat) :=
  [⟨0, 1, .acquireOrRefresh⟩, ⟨3000, 2, .acquireOrRefresh⟩, ⟨4000, 2, .release⟩, ⟨15000, 2, .acquireOrRefresh⟩]

theorem leader_key_lease_takeOver :
    ∃ s, exec (LeaderServer.step 15) .empty (takeOver.take 1) = some s ∧
      ∃ pre c post u, takeOver.drop 1 = pre ++ c :: post ∧ exec (LeaderServer.step 15) s pre = some u ∧
        TakesFrom 15 1 u c := by
  refine ⟨_, rfl, ?_⟩
  obtain ⟨-, -, hpass⟩ := leader_key_lease 15 (takeOver.take 1) _ rfl
  exact hpass (takeOver.drop 1) _ 1 2 rfl rfl rfl (by decide)

end DuckRun.Redis

import DuckRun.Lib.Digits
import DuckRun.Lib.Paths
/-!
# Redis keys

`RedisClusterCoordinator` joins its keys from free texts with a colon. Within
one deployment they are always distinct. Two deployments share a key exactly
when their project and environment read the same with the colon between them,
or when one of these texts goes on where the other's slot keys begin.
-/

namespace DuckRun.Redis

open DuckRun.Lib

/-- The options that go into the keys. -/
structure DuckRunRedisOptions where
  projectId : List Char
  environment : List Char
  deriving DecidableEq, Repr

/-- `Guid.ToString("N")`. -/
def nodeIdText (nodeId : BitVec 128) : List Char := (lastDigits 16 32 nodeId.toNat).map Nat.digitChar

section Keys
variable (o : DuckRunRedisOptions)

def keyPrefix : List Char := "duckrun:".toList ++ o.projectId ++ ":".toList ++ o.environment

def leaderKey : List Char := keyPrefix o ++ ":leader".toList

/-- The key of `UpdateHeartbeatAsync`. -/
def nodeKey (nodeId : BitVec 128) : List Char := keyPrefix o ++ ":nodes:".toList ++ nodeIdText nodeId

def slotKey (jobName : List Char) : List Char := keyPrefix o ++ ":slots:".toList ++ jobName

end Keys

/-- What a deployment has a key for. A job may have any name: `AddJob` and the registry take it as it is. -/
inductive Purpose where
  | leader
  | node (nodeId : BitVec 128)
  | slots (jobName : List Char)
  deriving DecidableEq, Repr

def key (o : DuckRunRedisOptions) : Purpose → List Char
  | .leader => leaderKey o
  | .node nodeId => nodeKey o nodeId
  | .slots jobName => slotKey o jobName

/-- Project and environment as the keys spell them. -/
def DuckRunRedisOptions.joined (o : DuckRunRedisOptions) : List Char := o.projectId ++ ':' :: o.environment

/-- The texts differ, and neither is that of the other's slots or begins with it and a colon. -/
structure Apart (o o' : DuckRunRedisOptions) : Prop where
  joined : o.joined ≠ o'.joined
  left : ¬ Under ':' (o.joined ++ ":slots".toList) o'.joined
  right : ¬ Under ':' (o'.joined ++ ":slots".toList) o.joined

theorem Apart.symm {o o' : DuckRunRedisOptions} (h : Apart o o') : Apart o' o where
  joined := Ne.symm h.joined
  left := h.right
  right := h.left

/-! ## Keys as paths -/

section Paths
variable {o o' : DuckRunRedisOptions}

theorem keyPrefix_eq (o : DuckRunRedisOptions) : keyPrefix o = "duckrun:".toList ++ o.joined := by
  have hcolon : ":".toList = [':'] := by decide
  unfold keyPrefix DuckRunRedisOptions.joined
  rw [hcolon, List.append_assoc, List.append_assoc, List.singleton_append]

theorem keyPrefix_inj : keyPrefix o = keyPrefix o' ↔ o.joined = o'.joined := by
  rw [keyPrefix_eq, keyPrefix_eq, List.append_right_inj]

/-- The path that the slot keys are under. -/
def slotPath (o : DuckRunRedisOptions) : List Char := keyPrefix o ++ ':' :: "slots".toList

theorem under_slotPath : Under ':' (slotPath o) (keyPrefix o') ↔ Under ':' (o.joined ++ ":slots".toList) o'.joined := by
  have hslots : slotPath o = "duckrun:".toList ++ (o.joined ++ ":slots".toList) := by
    have hslots : ":slots".toList = ':' :: "slots".toList := by decide
    rw [slotPath, keyPrefix_eq, List.append_assoc, hslots]
  unfold Under
  rw [hslots, keyPrefix_eq, List.append_right_inj, List.append_assoc, List.prefix_append_right_inj]

theorem leaderKey_eq (o : DuckRunRedisOptions) : leaderKey o = keyPrefix o ++ ':' :: "leader".toList := by
  have hleader : ":leader".toList = ':' :: "leader".toList := by decide
  rw [leaderKey, hleader]

theorem nodeKey_eq (o : DuckRunRedisOptions) (nodeId : BitVec 128) :
    nodeKey o nodeId = (keyPrefix o ++ ':' :: "nodes".toList) ++ ':' :: nodeIdText nodeId := by
  have hnodes : ":nodes:".toList = ':' :: "nodes".toList ++ [':'] := by decide
  rw [nodeKey, hnodes]
  simp only [List.append_assoc, List.cons_append, List.nil_append]

theorem slotKey_eq (o : DuckRunRedisOptions) (jobName : List Char) : slotKey o jobName = slotPath o ++ ':' :: jobName := by
  have hslots : ":slots:".toList = ':' :: "slots".toList ++ [':'] := by decide
  rw [slotKey, slotPath, hslots]
  simp only [List.append_assoc, List.cons_append, List.nil_append]

theorem length_nodeIdText (nodeId : BitVec 128) : (nodeIdText nodeId).length = 32 := by
  rw [nodeIdText, List.length_map, length_lastDigits]

theorem colon_not_mem_nodeIdText (nodeId : BitVec 128) : ':' ∉ nodeIdText nodeId := by
  intro hmem
  obtain ⟨d, hd, he⟩ := List.mem_map.1 hmem
  have hlt : d < 16 := lt_of_mem_lastDigits (by decide) hd
  have hne : ∀ d < 16, Nat.digitChar d ≠ ':' := by decide
  exact hne d hlt he

theorem nodeIdText_inj {a b : BitVec 128} (h : nodeIdText a = nodeIdText b) : a = b := by
  have hchar : ∀ d < 16, ∀ e < 16, Nat.digitChar d = Nat.digitChar e → d = e := by decide
  have hdigits : lastDigits 16 32 a.toNat = lastDigits 16 32 b.toNat := by
    refine List.ext_getElem (by simp) fun i hi hi' => hchar _ ?_ _ ?_ ?_
    · exact lt_of_mem_lastDigits (by decide) (List.getElem_mem hi)
    · exact lt_of_mem_lastDigits (by decide) (List.getElem_mem hi')
    · have hi32 := congrArg (fun l => l[i]?) h
      simpa [nodeIdText, List.getElem?_map, List.getElem?_eq_getElem hi, List.getElem?_eq_getElem hi'] using hi32
  have hvalue := congrArg (List.foldl (fun v d => v * 16 + d) 0) hdigits
  have hlt : ∀ c : BitVec 128, c.toNat < 16 ^ 32 := fun c => c.isLt
  rw [foldl_lastDigits, foldl_lastDigits, Nat.mod_eq_of_lt (hlt a), Nat.mod_eq_of_lt (hlt b)] at hvalue
  exact BitVec.eq_of_toNat_eq hvalue

/-! ## Collisions -/

theorem leader_ne_node (nodeId : BitVec 128) : leaderKey o ≠ nodeKey o' nodeId := by
  intro h
  rw [leaderKey_eq, nodeKey_eq] at h
  have hsegment := (path_inj (by decide) (colon_not_mem_nodeIdText nodeId) h).2
  have hlength := congrArg List.length hsegment
  rw [length_nodeIdText] at hlength
  exact absurd hlength (by decide)

/-- A text is under a slot path if it goes on from there, up to its last segment. -/
theorem under_of_slotKey_eq {jobName : List Char} {q seg : List Char} (hseg : ':' ∉ seg)
    (h : slotKey o jobName = q ++ ':' :: seg) : Under ':' (slotPath o) q := by
  refine (snoc_prefix_iff hseg _ _).1 ⟨jobName, ?_⟩
  rw [← h, slotKey_eq, List.append_assoc, List.singleton_append]

theorem slotPath_inj (h : slotPath o = slotPath o') : keyPrefix o = keyPrefix o' :=
  (path_inj (by decide) (by decide) h).1

theorem leader_eq_slots {jobName : List Char} (h : leaderKey o = slotKey o' jobName) : Under ':' (slotPath o') (keyPrefix o) := by
  rw [leaderKey_eq] at h
  exact under_of_slotKey_eq (by decide) h.symm

theorem node_eq_slots {nodeId : BitVec 128} {jobName : List Char} (h : nodeKey o nodeId = slotKey o' jobName) :
    Under ':' (slotPath o') (keyPrefix o) := by
  rw [nodeKey_eq] at h
  have hunder := under_of_slotKey_eq (colon_not_mem_nodeIdText nodeId) h.symm
  refine ((under_child_iff (by decide) _ _).1 hunder).resolve_left fun he => ?_
  exact absurd (path_inj (by decide) (by decide) he).2 (by decide)

theorem slots_eq_slots {a b : List Char} (h : slotKey o a = slotKey o' b) :
    keyPrefix o = keyPrefix o' ∨ Under ':' (slotPath o) (keyPrefix o') ∨ Under ':' (slotPath o') (keyPrefix o) := by
  -- The shorter of the two slot paths is a prefix of the other.
  have hshorter : ∀ {o o' : DuckRunRedisOptions}, slotPath o ++ [':'] <+: slotPath o' ++ [':'] →
      keyPrefix o = keyPrefix o' ∨ Under ':' (slotPath o) (keyPrefix o') := by
    intro o o' hprefix
    have hunder : Under ':' (slotPath o) (slotPath o') := (snoc_prefix_iff List.not_mem_nil _ _).1 hprefix
    rcases (under_child_iff (by decide) _ _).1 hunder with he | hunder
    · exact .inl (slotPath_inj he.symm)
    · exact .inr hunder
  rw [slotKey_eq, slotKey_eq] at h
  have hleft : slotPath o ++ [':'] <+: slotPath o ++ ':' :: a := ⟨a, by simp⟩
  have hright : slotPath o' ++ [':'] <+: slotPath o ++ ':' :: a := ⟨b, by simp [h]⟩
  rcases List.prefix_or_prefix_of_prefix hleft hright with hprefix | hprefix
  · exact (hshorter hprefix).imp_right .inl
  · exact (hshorter hprefix).imp Eq.symm .inr

/-- Deployments that are apart have no key in common. -/
theorem key_ne_of_apart (h : Apart o o') (p q : Purpose) : key o p ≠ key o' q := by
  have hprefix : keyPrefix o ≠ keyPrefix o' := fun he => h.joined (keyPrefix_inj.1 he)
  have hleft : ¬ Under ':' (slotPath o) (keyPrefix o') := fun hu => h.left (under_slotPath.1 hu)
  have hright : ¬ Under ':' (slotPath o') (keyPrefix o) := fun hu => h.right (under_slotPath.1 hu)
  intro he
  cases p with
  | leader =>
    cases q with
    | leader =>
      change leaderKey o = leaderKey o' at he
      rw [leaderKey_eq, leaderKey_eq] at he
      exact hprefix (path_inj (by decide) (by decide) he).1
    | node nodeId => exact leader_ne_node nodeId he
    | slots jobName => exact hright (leader_eq_slots he)
  | node nodeId =>
    cases q with
    | leader => exact leader_ne_node nodeId he.symm
    | node nodeId' =>
      change nodeKey o nodeId = nodeKey o' nodeId' at he
      rw [nodeKey_eq, nodeKey_eq] at he
      have hpath := (path_inj (colon_not_mem_nodeIdText nodeId) (colon_not_mem_nodeIdText nodeId') he).1
      exact hprefix (path_inj (by decide) (by decide) hpath).1
    | slots jobName => exact hright (node_eq_slots he)
  | slots jobName =>
    cases q with
    | leader => exact hleft (leader_eq_slots he.symm)
    | node nodeId => exact hleft (node_eq_slots he.symm)
    | slots jobName' =>
      rcases slots_eq_slots he with he | hu | hu
      · exact hprefix he
      · exact hleft hu
      · exact hright hu

/-- Where a project and environment go on from another's slots, the leader key is the slot key of a job. -/
theorem leader_eq_slots_of_under (h : Under ':' (slotPath o') (keyPrefix o)) : ∃ jobName, leaderKey o = slotKey o' jobName := by
  rcases h with he | ⟨t, ht⟩
  · refine ⟨"leader".toList, ?_⟩
    rw [leaderKey_eq, slotKey_eq, he]
  · refine ⟨t ++ ':' :: "leader".toList, ?_⟩
    rw [leaderKey_eq, slotKey_eq, ← ht]
    simp only [List.append_assoc, List.cons_append, List.nil_append]

/-! ## One deployment -/

/-- A deployment's keys are all different. -/
theorem key_inj {p q : Purpose} (h : key o p = key o q) : p = q := by
  have hself : ¬ Under ':' (slotPath o) (keyPrefix o) := by
    intro hu
    have hlength : (slotPath o).length ≤ (keyPrefix o).length := by
      rcases hu with he | hp
      · rw [he]
      · exact (List.prefix_append _ _).length_le.trans hp.length_le
    rw [slotPath, List.length_append] at hlength
    simp only [List.length_cons] at hlength
    omega
  cases p with
  | leader =>
    cases q with
    | leader => rfl
    | node nodeId => exact absurd h (leader_ne_node nodeId)
    | slots jobName => exact absurd (leader_eq_slots h) hself
  | node nodeId =>
    cases q with
    | leader => exact absurd h.symm (leader_ne_node nodeId)
    | node nodeId' => rw [nodeIdText_inj (List.append_cancel_left h)]
    | slots jobName => exact absurd (node_eq_slots h) hself
  | slots jobName =>
    cases q with
    | leader => exact absurd (leader_eq_slots h.symm) hself
    | node nodeId => exact absurd (node_eq_slots h.symm) hself
    | slots jobName' => exact congrArg Purpose.slots (List.append_cancel_left h)

end Paths

/-- A deployment's keys are all different. Two deployments have no key in
common exactly when they are apart. -/
theorem redis_keys_apart_iff (o o' : DuckRunRedisOptions) :
    (∀ p q, key o p = key o q → p = q) ∧ ((∀ p q, key o p ≠ key o' q) ↔ Apart o o') := by
  refine ⟨fun _ _ => key_inj, fun hne => ⟨fun hjoined => ?_, fun hu => ?_, fun hu => ?_⟩, fun h p q => key_ne_of_apart h p q⟩
  · refine hne .leader .leader ?_
    change leaderKey o = leaderKey o'
    rw [leaderKey, leaderKey, keyPrefix_inj.2 hjoined]
  · obtain ⟨jobName, he⟩ := leader_eq_slots_of_under (under_slotPath.2 hu)
    exact hne (.slots jobName) .leader he.symm
  · obtain ⟨jobName, he⟩ := leader_eq_slots_of_under (under_slotPath.2 hu)
    exact hne .leader (.slots jobName) he

/-- Project a:b in c has the leader key of project a in b:c. -/
theorem leaders_share_key :
    ¬ ∀ o o' : DuckRunRedisOptions, (o.projectId, o.environment) ≠ (o'.projectId, o'.environment) →
      ∀ p q, key o p ≠ key o' q := by
  intro h
  exact h ⟨"a:b".toList, "c".toList⟩ ⟨"a".toList, "b:c".toList⟩ (by decide) .leader .leader (by decide)

end DuckRun.Redis

import DuckRun.Lib.Expiry
import Mathlib.Data.List.Basic
/-!
# The Lua scripts

`RedisLuaScripts` as functions of the key they work on: the key afterwards and
the number the script returns. A script runs at one moment `now` of the server.
-/

namespace DuckRun.Redis

open DuckRun.Lib.Expiry

/-! ## The leader key -/

section Leader
variable {ν : Type} [DecidableEq ν]

/-- `AcquireOrRefreshLeader`. -/
def acquireOrRefreshLeader (now : Nat) (nodeId : ν) (ttl : Nat) (key : Option (Entry ν)) : Option (Entry ν) × Nat :=
  let owner := valueAt now key
  if owner = some nodeId then (expire now ttl key, 1)
  else if owner = none then
    match setNxEx now nodeId ttl key with
    | (key', true) => (key', 1)
    | (key', false) => (key', 0)
  else (key, 0)

/-- `ReleaseLeader`. -/
def releaseLeader (now : Nat) (nodeId : ν) (key : Option (Entry ν)) : Option (Entry ν) × Nat :=
  if valueAt now key = some nodeId then (none, 1) else (key, 0)

/-- Granted where the key is free or the node's own, and good for `ttl` from now on. -/
theorem acquireOrRefreshLeader_granted {now ttl : Nat} {nodeId : ν} {key : Option (Entry ν)}
    (h : valueAt now key = none ∨ valueAt now key = some nodeId) :
    acquireOrRefreshLeader now nodeId ttl key = (some ⟨nodeId, some (now + seconds ttl)⟩, 1) := by
  unfold acquireOrRefreshLeader
  dsimp only
  rcases h with h | h
  · rw [h, if_neg nofun, if_pos rfl]
    unfold setNxEx
    rw [valueAt_eq_none.1 h]
  · rw [if_pos h]
    obtain ⟨d, hd⟩ := valueAt_some.1 h
    unfold expire
    rw [hd]
    rfl

theorem acquireOrRefreshLeader_refused {now ttl : Nat} {nodeId owner : ν} {key : Option (Entry ν)}
    (h : valueAt now key = some owner) (hne : owner ≠ nodeId) : acquireOrRefreshLeader now nodeId ttl key = (key, 0) := by
  unfold acquireOrRefreshLeader
  dsimp only
  rw [h, if_neg fun he => hne (Option.some.inj he), if_neg nofun]

/-- The two ways through the script. -/
theorem acquireOrRefreshLeader_cases (now : Nat) (nodeId : ν) (ttl : Nat) (key : Option (Entry ν)) :
    (valueAt now key = none ∨ valueAt now key = some nodeId) ∧
        acquireOrRefreshLeader now nodeId ttl key = (some ⟨nodeId, some (now + seconds ttl)⟩, 1) ∨
      (∃ owner, valueAt now key = some owner ∧ owner ≠ nodeId) ∧
        acquireOrRefreshLeader now nodeId ttl key = (key, 0) := by
  cases hget : valueAt now key with
  | none => exact .inl ⟨.inl rfl, acquireOrRefreshLeader_granted (.inl hget)⟩
  | some owner =>
    by_cases hne : owner = nodeId
    · subst hne
      exact .inl ⟨.inr rfl, acquireOrRefreshLeader_granted (.inr hget)⟩
    · exact .inr ⟨⟨owner, rfl, hne⟩, acquireOrRefreshLeader_refused hget hne⟩

theorem releaseLeader_cases (now : Nat) (nodeId : ν) (key : Option (Entry ν)) :
    valueAt now key = some nodeId ∧ releaseLeader now nodeId key = (none, 1) ∨
      valueAt now key ≠ some nodeId ∧ releaseLeader now nodeId key = (key, 0) := by
  unfold releaseLeader
  by_cases h : valueAt now key = some nodeId
  · rw [if_pos h]
    exact .inl ⟨h, rfl⟩
  · rw [if_neg h]
    exact .inr ⟨h, rfl⟩

end Leader

/-! ## The slots of a job -/

section Slots
variable {κ : Type} [DecidableEq κ]

/-- A sorted set: members and scores. -/
abbrev SortedSet (κ : Type) := List (κ × Nat)

/-- A key is removed with its last member. -/
def withMembers (e : Entry (SortedSet κ)) (set : SortedSet κ) : Option (Entry (SortedSet κ)) :=
  if set.isEmpty then none else some { e with value := set }

/-- `ZREMRANGEBYSCORE key lo hi`. -/
def zremrangebyscore (now lo hi : Nat) (key : Option (Entry (SortedSet κ))) : Option (Entry (SortedSet κ)) :=
  match lookup now key with
  | none => none
  | some e => withMembers e (e.value.filter fun m => !(lo ≤ m.2 && m.2 ≤ hi))

def zcard (now : Nat) (key : Option (Entry (SortedSet κ))) : Nat := ((valueAt now key).getD []).length

/-- `ZADD key score member`: a member that is there gets the new score. -/
def zadd (now score : Nat) (member : κ) (key : Option (Entry (SortedSet κ))) : Option (Entry (SortedSet κ)) :=
  match lookup now key with
  | none => some ⟨[(member, score)], none⟩
  | some e => some { e with value := e.value.filter (fun m => m.1 ≠ member) ++ [(member, score)] }

/-- `ZREM key member`. -/
def zrem (now : Nat) (member : κ) (key : Option (Entry (SortedSet κ))) : Option (Entry (SortedSet κ)) :=
  match lookup now key with
  | none => none
  | some e => withMembers e (e.value.filter fun m => m.1 ≠ member)

/-- `AcquireSlot`. The server's time is `now`; `reading` is the time the caller sent. -/
def acquireSlot (now reading : Nat) (maxConcurrency : Int) (ttl : Nat) (slotId : κ)
    (key : Option (Entry (SortedSet κ))) : Option (Entry (SortedSet κ)) × Nat :=
  let key := zremrangebyscore now 0 reading key
  let current := zcard now key
  if (current : Int) < maxConcurrency then (expire now (ttl + 60) (zadd now (reading + ttl) slotId key), 1)
  else (key, 0)

end Slots

end DuckRun.Redis

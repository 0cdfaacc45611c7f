import DuckRun.Lib.Grouping
/-!
# A table whose keys the server gives out

Writers insert rows in transactions that are open at the same time. The server
gives every inserted row the next key, also if its transaction is rolled back
later, so keys of different writers interleave and have gaps. The rows of one
writer still come back in the order in which it inserted them.
-/

namespace DuckRun.Lib

/-- The committed rows, and for each writer those of its open transaction. -/
structure IdentityTable (ι ρ : Type) where
  rows : List ρ
  nextId : Nat
  opened : ι → List ρ

namespace IdentityTable

variable {ι ρ : Type} [DecidableEq ι]

/-- The next key goes to the row. -/
def insert (t : IdentityTable ι ρ) (i : ι) (row : Nat → ρ) : IdentityTable ι ρ :=
  { t with nextId := t.nextId + 1, opened := Function.update t.opened i (t.opened i ++ [row t.nextId]) }

def commit (t : IdentityTable ι ρ) (i : ι) : IdentityTable ι ρ :=
  { t with rows := t.rows ++ t.opened i, opened := Function.update t.opened i [] }

def rollback (t : IdentityTable ι ρ) (i : ι) : IdentityTable ι ρ := { t with opened := Function.update t.opened i [] }

/-- `WHERE p ORDER BY key`. -/
def select (key : ρ → Nat) (p : ρ → Bool) (t : IdentityTable ι ρ) : List ρ := (OrderBy.linear Nat).sort key (t.rows.filter p)

/-- Every writer's keys rise in the order in which it inserted them. -/
structure Rising (key : ρ → Nat) (writer : ρ → ι) (t : IdentityTable ι ρ) : Prop where
  given : ∀ r ∈ t.rows, key r < t.nextId
  rising : ∀ i, (t.rows.filter fun r => writer r = i).Pairwise fun a b => key a < key b
  opened : ∀ i, (t.opened i).Pairwise fun a b => key a < key b
  own : ∀ i, ∀ r ∈ t.opened i, writer r = i ∧ key r < t.nextId
  ahead : ∀ i, ∀ r ∈ t.rows, writer r = i → ∀ x ∈ t.opened i, key r < key x

variable {key : ρ → Nat} {writer : ρ → ι} {t : IdentityTable ι ρ} {i : ι}

/-- A table at rest, listed by key. -/
theorem rising_of_rows {rows : List ρ} {nextId : Nat} (hrows : rows.Pairwise fun a b => key a < key b)
    (hgiven : ∀ r ∈ rows, key r < nextId) : Rising key writer ⟨rows, nextId, fun _ => []⟩ where
  given := hgiven
  rising _ := hrows.filter _
  opened _ := List.Pairwise.nil
  own _ _ h := absurd h List.not_mem_nil
  ahead _ _ _ _ _ h := absurd h List.not_mem_nil

theorem Rising.insert (h : Rising key writer t) {row : Nat → ρ} (hkey : ∀ n, key (row n) = n)
    (hwriter : ∀ n, writer (row n) = i) : Rising key writer (t.insert i row) where
  given r hr := Nat.lt_succ_of_lt (h.given r hr)
  rising := h.rising
  opened j := by
    dsimp only [IdentityTable.insert]
    by_cases hj : j = i
    · subst hj
      rw [Function.update_self, List.pairwise_append]
      refine ⟨h.opened j, List.pairwise_singleton _ _, fun a ha b hb => ?_⟩
      rw [List.mem_singleton.1 hb, hkey]
      exact (h.own j a ha).2
    · rw [Function.update_of_ne hj]
      exact h.opened j
  own j r hr := by
    dsimp only [IdentityTable.insert] at hr ⊢
    by_cases hj : j = i
    · subst hj
      rw [Function.update_self, List.mem_append, List.mem_singleton] at hr
      rcases hr with hr | rfl
      · exact ⟨(h.own j r hr).1, Nat.lt_succ_of_lt (h.own j r hr).2⟩
      · exact ⟨hwriter _, by rw [hkey]; omega⟩
    · rw [Function.update_of_ne hj] at hr
      exact ⟨(h.own j r hr).1, Nat.lt_succ_of_lt (h.own j r hr).2⟩
  ahead j r hr hrj x hx := by
    dsimp only [IdentityTable.insert] at hr hx
    by_cases hj : j = i
    · subst hj
      rw [Function.update_self, List.mem_append, List.mem_singleton] at hx
      rcases hx with hx | rfl
      · exact h.ahead j r hr hrj x hx
      · rw [hkey]
        exact h.given r hr
    · rw [Function.update_of_ne hj] at hx
      exact h.ahead j r hr hrj x hx

theorem Rising.rollback (h : Rising key writer t) (i : ι) : Rising key writer (t.rollback i) where
  given := h.given
  rising := h.rising
  opened j := by
    dsimp only [IdentityTable.rollback]
    by_cases hj : j = i
    · subst hj
      rw [Function.update_self]
      exact List.Pairwise.nil
    · rw [Function.update_of_ne hj]
      exact h.opened j
  own j r hr := by
    dsimp only [IdentityTable.rollback] at hr
    by_cases hj : j = i
    · subst hj
      rw [Function.update_self] at hr
      exact absurd hr List.not_mem_nil
    · rw [Function.update_of_ne hj] at hr
      exact h.own j r hr
  ahead j r hr hrj x hx := by
    dsimp only [IdentityTable.rollback] at hr hx
    by_cases hj : j = i
    · subst hj
      rw [Function.update_self] at hx
      exact absurd hx List.not_mem_nil
    · rw [Function.update_of_ne hj] at hx
      exact h.ahead j r hr hrj x hx

theorem Rising.commit (h : Rising key writer t) (i : ι) : Rising key writer (t.commit i) where
  given r hr := by
    rcases List.mem_append.1 hr with hr | hr
    · exact h.given r hr
    · exact (h.own i r hr).2
  rising j := by
    dsimp only [IdentityTable.commit]
    rw [List.filter_append, List.pairwise_append]
    refine ⟨h.rising j, (h.opened i).filter _, fun a ha b hb => ?_⟩
    obtain ⟨ha, haj⟩ := List.mem_filter.1 ha
    obtain ⟨hb, hbj⟩ := List.mem_filter.1 hb
    have hij : i = j := by rw [← (h.own i b hb).1]; simpa using hbj
    exact h.ahead i a ha (by rw [hij]; simpa using haj) b hb
  opened := (h.rollback i).opened
  own := (h.rollback i).own
  ahead j r hr hrj x hx := by
    dsimp only [IdentityTable.commit] at hr hx
    by_cases hj : j = i
    · subst hj
      rw [Function.update_self] at hx
      exact absurd hx List.not_mem_nil
    · rw [Function.update_of_ne hj] at hx
      rcases List.mem_append.1 hr with hr | hr
      · exact h.ahead j r hr hrj x hx
      · -- Only the rows of the writer that commits are new.
        exact absurd ((h.own i r hr).1 ▸ hrj) (Ne.symm hj)

/-- Rows of one writer come in the order in which they were committed. -/
theorem Rising.select_eq (h : Rising key writer t) {p : ρ → Bool} (hp : ∀ r, p r = true → writer r = i) :
    t.select key p = t.rows.filter p := by
  have hsub : t.rows.filter p = (t.rows.filter fun r => writer r = i).filter p := by
    rw [List.filter_filter]
    refine List.filter_congr fun r _ => ?_
    cases hpr : p r with
    | false => rfl
    | true => simp [hp r hpr]
  have hrising : (t.rows.filter p).Pairwise fun a b => key a < key b := by
    rw [hsub]
    exact (h.rising i).filter _
  refine OrderBy.sort_eq _ (fun a b => le_antisymm) (List.Perm.refl _) ?_ (hrising.imp fun hlt => le_of_lt hlt)
  rw [List.nodup_iff_pairwise_ne, List.pairwise_map]
  exact hrising.imp fun hlt => Nat.ne_of_lt hlt

end IdentityTable

end DuckRun.Lib

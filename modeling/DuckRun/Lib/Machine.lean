import Mathlib.Data.List.Basic
/-!
# Machines

A machine is a step function: `step s e` is the state after event `e`, or
`none` where `e` cannot happen in `s`. `exec` runs a list of events, so a
theorem about every `exec` is a theorem about every order of steps. `Along`
says that every event of a run met a condition in the state it happened in.
-/

namespace DuckRun.Lib

universe u v
variable {σ : Type u} {ε : Type v}

/-- The state after a list of events, or `none` if one of them cannot happen. -/
def exec (step : σ → ε → Option σ) : σ → List ε → Option σ
  | s, [] => some s
  | s, e :: es => (step s e).bind fun s' => exec step s' es

/-- Every event of the run from `s` meets `G` in the state it happens in. -/
def Along (step : σ → ε → Option σ) (G : σ → ε → Prop) : σ → List ε → Prop
  | _, [] => True
  | s, e :: es => G s e ∧ ∀ s', step s e = some s' → Along step G s' es

variable {step : σ → ε → Option σ}

@[simp] theorem exec_nil (s : σ) : exec step s [] = some s := rfl

theorem exec_cons (s : σ) (e : ε) (es : List ε) :
    exec step s (e :: es) = (step s e).bind fun s' => exec step s' es := rfl

theorem exec_cons_some {s s' : σ} {e : ε} {es : List ε} :
    exec step s (e :: es) = some s' ↔ ∃ t, step s e = some t ∧ exec step t es = some s' := by
  rw [exec_cons, Option.bind_eq_some_iff]

theorem exec_append (s : σ) (es fs : List ε) :
    exec step s (es ++ fs) = (exec step s es).bind fun t => exec step t fs := by
  induction es generalizing s with
  | nil => rfl
  | cons e es ih =>
    simp only [List.cons_append, exec_cons]
    cases step s e with
    | none => rfl
    | some t => exact ih t

/-- A machine that is never stuck runs any list of events. -/
theorem exec_total (hstep : ∀ s e, ∃ s', step s e = some s') (s : σ) (es : List ε) : ∃ s', exec step s es = some s' := by
  induction es generalizing s with
  | nil => exact ⟨s, rfl⟩
  | cons e es ih =>
    obtain ⟨t, ht⟩ := hstep s e
    obtain ⟨s', hs'⟩ := ih t
    exact ⟨s', exec_cons_some.2 ⟨t, ht, hs'⟩⟩

/-- An invariant kept by every step holds after every run. -/
theorem exec_inv (I : σ → Prop) (hstep : ∀ s e s', I s → step s e = some s' → I s')
    {s s' : σ} {es : List ε} (h0 : I s) (h : exec step s es = some s') : I s' := by
  induction es generalizing s with
  | nil => cases h; exact h0
  | cons e es ih =>
    obtain ⟨t, ht, h⟩ := exec_cons_some.1 h
    exact ih (hstep s e t h0 ht) h

/-- An invariant kept by every step that meets `G` holds after every run whose
steps all meet `G`. -/
theorem exec_inv_along (G : σ → ε → Prop) (I : σ → Prop)
    (hstep : ∀ s e s', I s → G s e → step s e = some s' → I s')
    {s s' : σ} {es : List ε} (h0 : I s) (hG : Along step G s es) (h : exec step s es = some s') : I s' := by
  induction es generalizing s with
  | nil => cases h; exact h0
  | cons e es ih =>
    obtain ⟨t, ht, h⟩ := exec_cons_some.1 h
    exact ih (hstep s e t h0 hG.1 ht) (hG.2 t ht) h

/-- Where every step of one machine is a run of another between related states, so is every run. -/
theorem exec_refines {τ : Type*} {φ : Type*} {other : τ → φ → Option τ} (R : σ → τ → Prop)
    (hstep : ∀ s e s' t, R s t → step s e = some s' → ∃ fs t', exec other t fs = some t' ∧ R s' t')
    {s s' : σ} {t : τ} {es : List ε} (h0 : R s t) (h : exec step s es = some s') :
    ∃ fs t', exec other t fs = some t' ∧ R s' t' := by
  induction es generalizing s t with
  | nil =>
    cases h
    exact ⟨[], t, rfl, h0⟩
  | cons e es ih =>
    obtain ⟨r, hr, h⟩ := exec_cons_some.1 h
    obtain ⟨fs, u, hu, hru⟩ := hstep s e r t h0 hr
    obtain ⟨gs, t', ht', hR⟩ := ih hru h
    refine ⟨fs ++ gs, t', ?_, hR⟩
    rw [exec_append, hu]
    exact ht'

/-- What the events so far say about the state, event by event. -/
theorem exec_history (I : List ε → σ → Prop) (hstep : ∀ es s e s', I es s → step s e = some s' → I (es ++ [e]) s')
    {s s' : σ} {es : List ε} (h0 : I [] s) (h : exec step s es = some s') : I es s' := by
  suffices hgen : ∀ pre, I pre s → I (pre ++ es) s' from hgen [] h0
  clear h0
  induction es generalizing s with
  | nil =>
    cases h
    intro pre hpre
    rwa [List.append_nil]
  | cons e es ih =>
    obtain ⟨t, ht, h⟩ := exec_cons_some.1 h
    intro pre hpre
    have hnext := ih h (pre ++ [e]) (hstep pre s e t hpre ht)
    rwa [List.append_assoc, List.singleton_append] at hnext

/-- A property that a step from a state with `I` keeps exactly when it meets `G`
holds at the end of a run exactly when all its steps meet `G`. -/
theorem exec_iff_along {G : σ → ε → Prop} (I P : σ → Prop) {es : List ε}
    (hstep : ∀ s e s', e ∈ es → I s → step s e = some s' → I s' ∧ (P s' ↔ P s ∧ G s e))
    {s s' : σ} (hI : I s) (h0 : P s) (h : exec step s es = some s') : P s' ↔ Along step G s es := by
  suffices hboth : (P s → (P s' ↔ Along step G s es)) ∧ (¬ P s → ¬ P s') from hboth.1 h0
  clear h0
  induction es generalizing s with
  | nil =>
    cases h
    exact ⟨fun hs => ⟨fun _ => trivial, fun _ => hs⟩, id⟩
  | cons e es ih =>
    obtain ⟨t, ht, h⟩ := exec_cons_some.1 h
    obtain ⟨hIt, hone⟩ := hstep s e t List.mem_cons_self hI ht
    obtain ⟨hkept, hlost⟩ := ih (fun s e s' he => hstep s e s' (List.mem_cons_of_mem _ he)) hIt h
    refine ⟨fun hs => ?_, fun hs => hlost fun htp => hs (hone.1 htp).1⟩
    by_cases hG : G s e
    · refine (hkept (hone.2 ⟨hs, hG⟩)).trans ⟨fun hrest => ⟨hG, fun t' ht' => ?_⟩, fun hall => hall.2 t ht⟩
      rw [ht] at ht'
      cases ht'
      exact hrest
    · have hgone : ¬ P s' := hlost fun htp => hG (hone.1 htp).2
      exact ⟨fun hs' => absurd hs' hgone, fun hall => absurd hall.1 hG⟩

/-- The state after an event that leaves it as it is where it cannot happen. -/
def attempt (step : σ → ε → Option σ) (s : σ) (e : ε) : σ := (step s e).getD s

theorem foldl_attempt_inv (I : σ → Prop) (hstep : ∀ s e s', I s → step s e = some s' → I s') {s : σ} (h0 : I s) (es : List ε) :
    I (es.foldl (attempt step) s) := by
  induction es generalizing s with
  | nil => exact h0
  | cons e es ih =>
    refine ih ?_
    unfold attempt
    cases h : step s e with
    | none => exact h0
    | some t => exact hstep s e t h0 h

theorem along_cons {G : σ → ε → Prop} {s t : σ} {e : ε} {es : List ε} (hG : G s e) (h : step s e = some t)
    (hrest : Along step G t es) : Along step G s (e :: es) := by
  refine ⟨hG, fun t' ht' => ?_⟩
  rw [h] at ht'
  cases ht'
  exact hrest

theorem along_append {G : σ → ε → Prop} {s t : σ} {es fs : List ε} (h : Along step G s (es ++ fs))
    (ht : exec step s es = some t) : Along step G s es ∧ Along step G t fs := by
  induction es generalizing s with
  | nil => cases ht; exact ⟨trivial, h⟩
  | cons e es ih =>
    obtain ⟨r, hr, ht⟩ := exec_cons_some.1 ht
    refine ⟨⟨h.1, fun r' hr' => ?_⟩, (ih (h.2 r hr) ht).2⟩
    rw [hr] at hr'
    cases hr'
    exact (ih (h.2 r hr) ht).1

/-- A property that a step first loses exactly when it does not meet `G` holds
all along a run exactly when all its steps meet `G`. -/
theorem forall_prefix_iff_along {G : σ → ε → Prop} (I P : σ → Prop) (hP : ∀ s, I s → P s)
    (hkeep : ∀ s e s', I s → step s e = some s' → G s e → I s') (hlose : ∀ s e s', I s → step s e = some s' → P s' → G s e)
    {s s' : σ} {es : List ε} (h0 : I s) (h : exec step s es = some s') :
    (∀ pre t, pre <+: es → exec step s pre = some t → P t) ↔ Along step G s es := by
  constructor
  · intro hall
    induction es generalizing s with
    | nil => trivial
    | cons e es ih =>
      obtain ⟨t, ht, h⟩ := exec_cons_some.1 h
      have hone := hall [e] t ⟨es, rfl⟩ (exec_cons_some.2 ⟨t, ht, rfl⟩)
      have hG := hlose s e t h0 ht hone
      refine along_cons hG ht (ih (hkeep s e t h0 ht hG) h fun pre u hpre hu => ?_)
      exact hall (e :: pre) u (List.cons_prefix_cons.2 ⟨rfl, hpre⟩) (exec_cons_some.2 ⟨t, ht, hu⟩)
  · rintro hall pre t ⟨rest, rfl⟩ ht
    exact hP t (exec_inv_along G I (fun s e s' hi hG hs => hkeep s e s' hi hs hG) h0 (along_append hall ht).1 ht)

theorem along_of_forall {G : ε → Prop} {s : σ} {es : List ε} (h : ∀ e ∈ es, G e) : Along step (fun _ => G) s es := by
  induction es generalizing s with
  | nil => trivial
  | cons e es ih => exact ⟨h e List.mem_cons_self, fun _ _ => ih fun x hx => h x (List.mem_cons_of_mem _ hx)⟩

theorem along_append_intro {G : σ → ε → Prop} {s : σ} {es fs : List ε} (h : Along step G s es)
    (hrest : ∀ t, exec step s es = some t → Along step G t fs) : Along step G s (es ++ fs) := by
  induction es generalizing s with
  | nil => exact hrest s rfl
  | cons e es ih =>
    exact ⟨h.1, fun r hr => ih (h.2 r hr) fun t ht => hrest t (exec_cons_some.2 ⟨r, hr, ht⟩)⟩

theorem along_mono {G H : σ → ε → Prop} (hGH : ∀ s e, G s e → H s e) {s : σ} {es : List ε}
    (h : Along step G s es) : Along step H s es := by
  induction es generalizing s with
  | nil => trivial
  | cons e es ih => exact ⟨hGH s e h.1, fun s' hs' => ih (h.2 s' hs')⟩

/-! ## Logs -/

/-- Every entry of a log, newest first, meets `P` given the entries before it. -/
def Each {α : Type u} (P : List α → α → Prop) : List α → Prop
  | [] => True
  | x :: earlier => P earlier x ∧ Each P earlier

theorem Each.mem {α : Type u} {P : List α → α → Prop} {l : List α} (h : Each P l) {x : α} (hx : x ∈ l) :
    ∃ earlier, earlier ⊆ l ∧ P earlier x := by
  induction l with
  | nil => cases hx
  | cons y l ih =>
    rcases List.mem_cons.1 hx with rfl | hx
    · exact ⟨l, List.subset_cons_self _ _, h.1⟩
    · obtain ⟨earlier, hsub, hp⟩ := ih h.2 hx
      exact ⟨earlier, fun z hz => List.mem_cons_of_mem _ (hsub hz), hp⟩

/-- A log is in order key by key where the entries of each key are. -/
theorem pairwise_of_keys {α κ : Type*} [DecidableEq κ] (key : α → κ) {R : α → α → Prop} {l : List α}
    (h : ∀ k, (l.filter fun x => key x = k).Pairwise R) : l.Pairwise fun x y => key x = key y → R x y := by
  induction l with
  | nil => exact List.Pairwise.nil
  | cons a l ih =>
    refine List.pairwise_cons.2 ⟨fun b hb heq => ?_, ih fun k => (h k).sublist ((List.sublist_cons_self a l).filter _)⟩
    have hkey := h (key a)
    rw [List.filter_cons_of_pos (by simp)] at hkey
    exact (List.pairwise_cons.1 hkey).1 b (List.mem_filter.2 ⟨hb, by simpa using heq.symm⟩)

/-- Where an equation splits a log that grew by one entry. -/
theorem snoc_eq_split {α : Type u} {l pre post : List α} {x y : α} (h : l ++ [x] = pre ++ y :: post) :
    (post = [] ∧ x = y ∧ l = pre) ∨ ∃ post', post = post' ++ [x] ∧ l = pre ++ y :: post' := by
  rcases List.eq_nil_or_concat post with rfl | ⟨post', z, rfl⟩
  · obtain ⟨rfl, hxy⟩ := List.append_inj' h rfl
    exact .inl ⟨rfl, by simpa using hxy, rfl⟩
  · rw [List.concat_eq_append] at h ⊢
    have hsplit : l ++ [x] = (pre ++ y :: post') ++ [z] := by simpa using h
    obtain ⟨hl, hx⟩ := List.append_inj' hsplit rfl
    obtain rfl : x = z := by simpa using hx
    exact .inr ⟨post', rfl, hl⟩

end DuckRun.Lib

import Mathlib.Data.Set.BooleanAlgebra
import Mathlib.Data.Set.Function
import Mathlib.Order.CompletePartialOrder
import Mathlib.Tactic.Common

/-!
# Operations on parts of a store

A store shows a value at every key. An operation is `Confined` to a set of keys when what it does is
decided by the values there and it changes no other: from two stores that look alike on the set it
gives the same reply or the same failure, and the results look alike again. It may rely on an
invariant of its part, which it then has to keep.

`Matched` compares two executions step by step; a step that gives the same on both sides
(`Matched.bind_same`) or a write inside the part (`Matched.after`) is peeled off in front.

* **`run_purge`**: in a run of operations that are confined to disjoint parts, the replies and the
  values of one part are those of the run of its own operations alone.
* **`run_interleave`**: a run ends well if each part's own run does.
-/

namespace Footprint

variable {σ κ β ε α γ : Type} (view : σ → κ → β)

/-- Two stores that have the same values in `P`, and the invariant. -/
structure Alike (P : Set κ) (I : σ → Prop) (f g : σ) : Prop where
  eqOn : Set.EqOn (view f) (view g) P
  left : I f
  right : I g

/-- Outcomes of one operation on `f` and on `g` that agree, with nothing changed outside `P`. -/
inductive Matched (P : Set κ) (I : σ → Prop) (f g : σ) :
    Except ε (σ × α) → Except ε (σ × α) → Prop
  | ok {f' g' : σ} (a : α) (alike : Alike view P I f' g')
      (left : Set.EqOn (view f') (view f) Pᶜ) (right : Set.EqOn (view g') (view g) Pᶜ) :
      Matched P I f g (.ok (f', a)) (.ok (g', a))
  | error (e : ε) : Matched P I f g (.error e) (.error e)

/-- The operation reads and writes only in `P`. -/
def Confined (P : Set κ) (I : σ → Prop) (op : σ → Except ε (σ × α)) : Prop :=
  ∀ f g, Alike view P I f g → Matched view P I f g (op f) (op g)

variable {view} {P : Set κ} {I : σ → Prop} {f g : σ}

theorem Alike.refl (h : I f) : Alike view P I f f := ⟨fun _ _ => rfl, h, h⟩

namespace Matched

/-- An operation that leaves the store as it is. -/
theorem unchanged (h : Alike view P I f g) (a : α) :
    Matched view P I f g (.ok (f, a) : Except ε (σ × α)) (.ok (g, a)) :=
  .ok a h (fun _ _ => rfl) fun _ _ => rfl

/-- A step that gives the same on both sides. -/
theorem bind_same {x : Except ε γ} {F G : γ → Except ε (σ × α)}
    (h : ∀ c, x = .ok c → Matched view P I f g (F c) (G c)) :
    Matched view P I f g (x >>= F) (x >>= G) := by
  cases x with
  | ok c => exact h c rfl
  | error e => exact .error e

/-- Writes inside `P` before the rest. -/
theorem after {f₁ g₁ : σ} {x y : Except ε (σ × α)} (hf : Set.EqOn (view f₁) (view f) Pᶜ)
    (hg : Set.EqOn (view g₁) (view g) Pᶜ) (h : Matched view P I f₁ g₁ x y) :
    Matched view P I f g x y := by
  cases h with
  | ok a alike left right => exact .ok a alike (left.trans hf) (right.trans hg)
  | error e => exact .error e

/-- One execution followed by another. -/
theorem bind {δ : Type} {x y : Except ε (σ × γ)} {F G : σ × γ → Except ε (σ × δ)}
    (h : Matched view P I f g x y)
    (hF : ∀ f' g' c, Alike view P I f' g' → Matched view P I f' g' (F (f', c)) (G (g', c))) :
    Matched view P I f g (x >>= F) (y >>= G) := by
  cases h with
  | ok a alike left right => exact (hF _ _ a alike).after left right
  | error e => exact .error e

end Matched

/-- What a confined operation does to one store. -/
theorem Confined.ok {op : σ → Except ε (σ × α)} (h : Confined view P I op) (hI : I f) {f' : σ}
    {a : α} (hop : op f = .ok (f', a)) : I f' ∧ Set.EqOn (view f') (view f) Pᶜ := by
  have hm := h f f (.refl hI)
  rw [hop] at hm
  cases hm with
  | ok _ alike left _ => exact ⟨alike.left, left⟩

/-- The same operation on a store that looks alike. -/
theorem Confined.transfer {op : σ → Except ε (σ × α)} (h : Confined view P I op)
    (hfg : Alike view P I f g) {f' : σ} {a : α} (hop : op f = .ok (f', a)) :
    ∃ g', op g = .ok (g', a) ∧ Alike view P I f' g' := by
  have hm := h f g hfg
  rw [hop] at hm
  generalize hy : op g = y at hm
  cases hm with
  | ok _ alike _ _ => exact ⟨_, rfl, alike⟩

/-! ## Runs -/

section runs

variable {ι ω : Type} {ρ : ω → Type}

/-- The operations one after the other, with their replies, up to the first that fails. -/
def run (step : (o : ω) → σ → Except ε (σ × ρ o)) : σ → List ω → Except ε (σ × List (Σ o, ρ o))
  | s, [] => .ok (s, [])
  | s, o :: os => do
    let (s, r) ← step o s
    let (s, rs) ← run step s os
    pure (s, ⟨o, r⟩ :: rs)

variable {step : (o : ω) → σ → Except ε (σ × ρ o)} {P : ι → Set κ} {I : ι → σ → Prop}
  {owner : ω → ι}

theorem run_cons {s s' : σ} {o : ω} {os : List ω} {log : List (Σ o, ρ o)}
    (h : run step s (o :: os) = .ok (s', log)) :
    ∃ s₁ r rs, step o s = .ok (s₁, r) ∧ run step s₁ os = .ok (s', rs) ∧ log = ⟨o, r⟩ :: rs := by
  unfold run at h
  cases hstep : step o s with
  | error e => rw [hstep] at h; cases h
  | ok p =>
    obtain ⟨s₁, r⟩ := p
    simp only [hstep, bind, Except.bind] at h
    cases hrun : run step s₁ os with
    | error e => rw [hrun] at h; cases h
    | ok q =>
      obtain ⟨s₂, rs⟩ := q
      rw [hrun] at h
      cases h
      exact ⟨s₁, r, rs, rfl, hrun, rfl⟩

theorem run_cons_ok {s s₁ s' : σ} {o : ω} {os : List ω} {r : ρ o} {rs : List (Σ o, ρ o)}
    (hstep : step o s = .ok (s₁, r)) (hrun : run step s₁ os = .ok (s', rs)) :
    run step s (o :: os) = .ok (s', ⟨o, r⟩ :: rs) := by
  simp only [run, hstep, hrun, bind, Except.bind, pure, Except.pure]

variable (hdisj : ∀ i j, i ≠ j → Disjoint (P i) (P j))
  (hlocal : ∀ i s t, Set.EqOn (view s) (view t) (P i) → I i s → I i t)
  (hconf : ∀ o, Confined view (P (owner o)) (I (owner o)) (step o))

include hdisj hconf in
/-- A step shows the same as before in the parts of others. -/
theorem step_other {s s₁ : σ} {o : ω} {r : ρ o} {i : ι} (hI : I (owner o) s)
    (hstep : step o s = .ok (s₁, r)) (hne : owner o ≠ i) :
    Set.EqOn (view s₁) (view s) (P i) := by
  have hsub : P i ⊆ (P (owner o))ᶜ := fun k hk ho =>
    Set.disjoint_left.mp (hdisj _ _ hne) ho hk
  exact ((hconf o).ok hI hstep).2.mono hsub

include hdisj hlocal hconf in
/-- A step keeps the invariants of all parts. -/
theorem step_invariants {s s₁ : σ} {o : ω} {r : ρ o} (hI : ∀ i, I i s)
    (hstep : step o s = .ok (s₁, r)) (i : ι) : I i s₁ := by
  by_cases hne : owner o = i
  · subst hne
    exact ((hconf o).ok (hI _) hstep).1
  · exact hlocal i s s₁ (step_other hdisj hconf (hI _) hstep hne).symm (hI i)

variable [DecidableEq ι]

include hdisj hlocal hconf in
/-- **A part of a run.** The replies to one owner, and the values of its part, are those of its own
operations alone. -/
theorem run_purge (i : ι) (ops : List ω) {s t s' : σ} {log : List (Σ o, ρ o)}
    (hI : ∀ j, I j s) (hst : Alike view (P i) (I i) s t) (hrun : run step s ops = .ok (s', log)) :
    ∃ t', run step t (ops.filter (owner · = i)) = .ok (t', log.filter (owner ·.1 = i)) ∧
      Alike view (P i) (I i) s' t' := by
  induction ops generalizing s t log with
  | nil =>
    cases hrun
    exact ⟨t, rfl, hst⟩
  | cons o os ih =>
    obtain ⟨s₁, r, rs, hstep, hrest, rfl⟩ := run_cons hrun
    have hI₁ := step_invariants hdisj hlocal hconf hI hstep
    by_cases ho : owner o = i
    · subst ho
      obtain ⟨t₁, ht₁, halike⟩ := (hconf o).transfer hst hstep
      obtain ⟨t', ht', hend⟩ := ih hI₁ halike hrest
      refine ⟨t', ?_, hend⟩
      rw [List.filter_cons_of_pos (by simp), List.filter_cons_of_pos (by simp)]
      exact run_cons_ok ht₁ ht'
    · -- a step of another owner is left out
      have hother := step_other hdisj hconf (hI _) hstep ho
      obtain ⟨t', ht', hend⟩ := ih hI₁ ⟨hother.trans hst.eqOn, hI₁ i, hst.right⟩ hrest
      refine ⟨t', ?_, hend⟩
      rw [List.filter_cons_of_neg (by simpa using ho), List.filter_cons_of_neg (by simpa using ho)]
      exact ht'

include hdisj hlocal hconf in
/-- **No step fails because of another part.** If every owner's operations alone end well, so does
the run. -/
theorem run_interleave (ops : List ω) {s : σ} {t : ι → σ} (hI : ∀ j, I j s)
    (hst : ∀ i, Alike view (P i) (I i) s (t i))
    (halone : ∀ i, ∃ out, run step (t i) (ops.filter (owner · = i)) = .ok out) :
    ∃ out, run step s ops = .ok out := by
  induction ops generalizing s t with
  | nil => exact ⟨_, rfl⟩
  | cons o os ih =>
    obtain ⟨⟨t', log⟩, hown⟩ := halone (owner o)
    rw [List.filter_cons_of_pos (by simp)] at hown
    obtain ⟨t₁, r, rs, ht₁, hrest, -⟩ := run_cons hown
    have hsym : Alike view (P (owner o)) (I (owner o)) (t (owner o)) s :=
      ⟨(hst _).eqOn.symm, (hst _).right, (hst _).left⟩
    obtain ⟨s₁, hs₁, halike⟩ := (hconf o).transfer hsym ht₁
    have hI₁ := step_invariants hdisj hlocal hconf hI hs₁
    have hst₁ : ∀ i, Alike view (P i) (I i) s₁ (Function.update t (owner o) t₁ i) := by
      intro i
      by_cases hi : i = owner o
      · subst hi
        rw [Function.update_self]
        exact ⟨halike.eqOn.symm, halike.right, halike.left⟩
      · rw [Function.update_of_ne hi]
        have hother := step_other hdisj hconf (hI _) hs₁ (Ne.symm hi)
        exact ⟨hother.trans (hst i).eqOn, hI₁ i, (hst i).right⟩
    obtain ⟨⟨s', log'⟩, hs'⟩ := ih hI₁ hst₁ fun i => by
      by_cases hi : i = owner o
      · subst hi
        rw [Function.update_self]
        exact ⟨_, hrest⟩
      · rw [Function.update_of_ne hi]
        obtain ⟨out, hout⟩ := halone i
        rw [List.filter_cons_of_neg (by simpa using Ne.symm hi)] at hout
        exact ⟨out, hout⟩
    exact ⟨_, run_cons_ok hs₁ hs'⟩

end runs

end Footprint

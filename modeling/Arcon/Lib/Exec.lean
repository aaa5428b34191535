import Mathlib.Tactic.Common

/-!
# Programs with a state that survives a fault

A program `EStateM ε σ α` runs on a state `σ` and ends in a value or in a fault `ε`; either way
it leaves a state behind. This file gives such programs a weakest precondition with one
postcondition for each way of ending (`wp`), the rules for the program formers (`wp_bind`,
`wp_forM`, `wp_zoom`), and the reading of a concrete result off a `wp` (`wp_ok`, `wp_error`).

`zoom` runs a program over a part of the state.
-/

namespace Exec

variable {ε σ ρ α β : Type}

/-- The state a result leaves behind, after a fault too. -/
def final : EStateM.Result ε σ α → σ
  | .ok _ s => s
  | .error _ s => s

/-- The program returned. -/
def isOk : EStateM.Result ε σ α → Bool
  | .ok _ _ => true
  | .error _ _ => false

theorem eq_ok_of_isOk {r : EStateM.Result ε σ Unit} (h : isOk r = true) : r = .ok () (final r) := by
  cases r with
  | ok a s => rfl
  | error e s => cases h

theorem exists_of_isOk {r : EStateM.Result ε σ α} (h : isOk r = true) : ∃ a s, r = .ok a s := by
  cases r with
  | ok a s => exact ⟨a, s, rfl⟩
  | error e s => cases h

/-- The fault that ended the program. -/
def fault? : EStateM.Result ε σ α → Option ε
  | .ok _ _ => none
  | .error e _ => some e

theorem eq_error_of_fault {r : EStateM.Result ε σ α} {e : ε} (h : fault? r = some e) :
    r = .error e (final r) := by
  cases r with
  | ok a s => cases h
  | error e' s => cases h; rfl

/-- The weakest precondition: `Q` holds of the value and the state of a normal end, `E` of the
fault and the state of a faulty one. -/
def wp (x : EStateM ε σ α) (Q : α → σ → Prop) (E : ε → σ → Prop) (s : σ) : Prop :=
  match x s with
  | .ok a s' => Q a s'
  | .error e s' => E e s'

/-- Run a program on a part of the state. -/
def zoom (get : σ → ρ) (put : ρ → σ → σ) (x : EStateM ε ρ α) : EStateM ε σ α := fun s =>
  match x (get s) with
  | .ok a r => .ok a (put r s)
  | .error e r => .error e (put r s)

variable {Q : α → σ → Prop} {E : ε → σ → Prop} {s s' : σ}

/-! ## Reading results -/

theorem wp_ok {x : EStateM ε σ α} {a : α} (h : wp x Q E s) (hx : x s = .ok a s') : Q a s' := by
  unfold wp at h
  rwa [hx] at h

theorem wp_error {x : EStateM ε σ α} {e : ε} (h : wp x Q E s) (hx : x s = .error e s') :
    E e s' := by
  unfold wp at h
  rwa [hx] at h

theorem wp_of_eq_ok {x : EStateM ε σ α} {a : α} (hx : x s = .ok a s') (h : Q a s') :
    wp x Q E s := by
  unfold wp
  rwa [hx]

theorem wp_of_eq_error {x : EStateM ε σ α} {e : ε} (hx : x s = .error e s') (h : E e s') :
    wp x Q E s := by
  unfold wp
  rwa [hx]

/-- A postcondition that leaves one result only. -/
theorem eq_ok_of_wp {x : EStateM ε σ α} {a : α}
    (h : wp x (fun b t => b = a ∧ t = s') (fun _ _ => False) s) : x s = .ok a s' := by
  unfold wp at h
  cases hx : x s with
  | ok b t =>
    rw [hx] at h
    obtain ⟨rfl, rfl⟩ := h
    rfl
  | error e t =>
    rw [hx] at h
    exact h.elim

/-- A postcondition that does not look at how the program ended is one of the final state. -/
theorem wp_final {x : EStateM ε σ α} {P : σ → Prop} :
    wp x (fun _ => P) (fun _ => P) s ↔ P (final (x s)) := by
  unfold wp
  cases x s <;> rfl

/-- What holds of every result holds as a `wp`. -/
theorem wp_intro {x : EStateM ε σ α} (hok : ∀ a s', x s = .ok a s' → Q a s')
    (herr : ∀ e s', x s = .error e s' → E e s') : wp x Q E s := by
  unfold wp
  cases h : x s with
  | ok a s' => exact hok a s' h
  | error e s' => exact herr e s' h

/-! ## Rules -/

theorem wp_mono {x : EStateM ε σ α} {Q' : α → σ → Prop} {E' : ε → σ → Prop} (h : wp x Q E s)
    (hQ : ∀ a s', Q a s' → Q' a s') (hE : ∀ e s', E e s' → E' e s') : wp x Q' E' s := by
  unfold wp at h ⊢
  cases hx : x s with
  | ok a s' => rw [hx] at h; exact hQ a s' h
  | error e s' => rw [hx] at h; exact hE e s' h

theorem wp_and {x : EStateM ε σ α} {Q' : α → σ → Prop} {E' : ε → σ → Prop} (h : wp x Q E s)
    (h' : wp x Q' E' s) :
    wp x (fun a s' => Q a s' ∧ Q' a s') (fun e s' => E e s' ∧ E' e s') s := by
  unfold wp at h h' ⊢
  cases hx : x s with
  | ok a s' => rw [hx] at h h'; exact ⟨h, h'⟩
  | error e s' => rw [hx] at h h'; exact ⟨h, h'⟩

@[simp] theorem wp_pure (a : α) : wp (pure a) Q E s ↔ Q a s := Iff.rfl

@[simp] theorem wp_throw (e : ε) : wp (throw e : EStateM ε σ α) Q E s ↔ E e s := Iff.rfl

@[simp] theorem wp_get {Q : σ → σ → Prop} : wp get Q E s ↔ Q s s := Iff.rfl

@[simp] theorem wp_set {Q : PUnit → σ → Prop} (t : σ) : wp (set t) Q E s ↔ Q ⟨⟩ t := Iff.rfl

@[simp] theorem wp_modify {Q : PUnit → σ → Prop} (f : σ → σ) :
    wp (modify f) Q E s ↔ Q ⟨⟩ (f s) := Iff.rfl

@[simp] theorem wp_bind {x : EStateM ε σ α} {f : α → EStateM ε σ β} {Q : β → σ → Prop} :
    wp (x >>= f) Q E s ↔ wp x (fun a s' => wp (f a) Q E s') E s := by
  simp only [wp, bind, EStateM.bind]
  cases x s <;> rfl

theorem wp_ite {c : Prop} [Decidable c] {x y : EStateM ε σ α} :
    wp (if c then x else y) Q E s ↔ (c → wp x Q E s) ∧ (¬c → wp y Q E s) := by
  by_cases h : c <;> simp [h]

theorem wp_zoom {get : σ → ρ} {put : ρ → σ → σ} {x : EStateM ε ρ α} :
    wp (zoom get put x) Q E s ↔
      wp x (fun a r => Q a (put r s)) (fun e r => E e (put r s)) (get s) := by
  simp only [wp, zoom]
  cases x (get s) <;> rfl

/-- **The loop rule.** `I` holds of the part of the list still to be run and the state. -/
theorem wp_forM {f : α → EStateM ε σ PUnit} {I : List α → σ → Prop}
    (step : ∀ a l s, I (a :: l) s → wp (f a) (fun _ s' => I l s') E s) :
    ∀ {l : List α} {s : σ}, I l s → wp (forM l f) (fun _ s' => I [] s') E s
  | [], _, h => h
  | a :: l, s, h => by
    rw [List.forM_cons, wp_bind]
    exact wp_mono (step a l s h) (fun _ _ h' => wp_forM step h') (fun _ _ h' => h')

/-- The loop rule with a look back: `J` holds of the part of the list already run and the state, and
the state is the one this part leads to. -/
theorem wp_forM_done {f : α → EStateM ε σ PUnit} {J : List α → σ → Prop} {l : List α}
    (init : J [] s)
    (step : ∀ done a rest s', l = done ++ a :: rest →
      (forM done f : EStateM ε σ PUnit) s = .ok ⟨⟩ s' → J done s' →
      wp (f a) (fun _ s'' => J (done ++ [a]) s'') E s') :
    wp (forM l f) (fun _ s' => J l s') E s := by
  suffices h : ∀ rest done s', l = done ++ rest →
      (forM done f : EStateM ε σ PUnit) s = .ok ⟨⟩ s' → J done s' →
      wp (forM rest f) (fun _ s'' => J l s'') E s' from h l [] s rfl rfl init
  intro rest
  induction rest with
  | nil =>
    intro done s' hl _ hJ
    rw [List.append_nil] at hl
    rw [List.forM_nil, wp_pure, hl]
    exact hJ
  | cons a rest ih =>
    intro done s' hl hrun hJ
    rw [List.forM_cons, wp_bind]
    have hstep := step done a rest s' hl hrun hJ
    refine wp_intro (fun _ s'' hx => ?_) (fun e s'' hx => wp_error hstep hx)
    refine ih (done ++ [a]) s'' (by rw [hl, List.append_assoc]; rfl) ?_
      (wp_ok (Q := fun _ s'' => J (done ++ [a]) s'') hstep hx)
    rw [List.forM_append, List.forM_cons, List.forM_nil]
    simp only [bind, EStateM.bind, hrun, hx]
    rfl

/-- The rule for a fold: `J` holds of the part of the list already run, the value and the state. -/
theorem wp_foldlM {f : β → α → EStateM ε σ β} {J : List α → β → σ → Prop}
    (step : ∀ done a b s, J done b s → wp (f b a) (fun b' s' => J (done ++ [a]) b' s') E s)
    (l : List α) {b : β} (init : J [] b s) :
    wp (l.foldlM f b) (fun b' s' => J l b' s') E s := by
  suffices h : ∀ rest done b s, l = done ++ rest → J done b s →
      wp (rest.foldlM f b) (fun b' s' => J l b' s') E s from h l [] b s rfl init
  intro rest
  induction rest with
  | nil =>
    intro done b s hl hJ
    rw [List.append_nil] at hl
    rw [List.foldlM_nil, wp_pure, hl]
    exact hJ
  | cons a rest ih =>
    intro done b s hl hJ
    rw [List.foldlM_cons, wp_bind]
    refine wp_mono (step done a b s hJ) (fun b' s' hJ' => ?_) (fun _ _ h => h)
    exact ih (done ++ [a]) b' s' (by rw [hl, List.append_assoc]; rfl) hJ'

/-! ## Equal runs -/

theorem bind_ok {x : EStateM ε σ α} {f : α → EStateM ε σ β} {a : α} (h : x s = .ok a s') :
    (x >>= f) s = f a s' := by
  show EStateM.bind x f s = _
  unfold EStateM.bind
  rw [h]

theorem bind_error {x : EStateM ε σ α} {f : α → EStateM ε σ β} {e : ε} (h : x s = .error e s') :
    (x >>= f) s = .error e s' := by
  show EStateM.bind x f s = _
  unfold EStateM.bind
  rw [h]

/-- The parts of a program that returned. -/
theorem of_bind_ok {x : EStateM ε σ α} {f : α → EStateM ε σ β} {b : β}
    (h : (x >>= f) s = .ok b s') : ∃ a s₁, x s = .ok a s₁ ∧ f a s₁ = .ok b s' := by
  cases hx : x s with
  | ok a s₁ =>
    rw [bind_ok hx] at h
    exact ⟨a, s₁, rfl, h⟩
  | error e s₁ =>
    rw [bind_error hx] at h
    cases h

theorem zoom_ok {get : σ → ρ} {put : ρ → σ → σ} {x : EStateM ε ρ α} {a : α} {r : ρ}
    (h : x (get s) = .ok a r) : zoom get put x s = .ok a (put r s) := by
  unfold zoom
  rw [h]

/-- Reading the state first. -/
theorem get_bind (f : σ → EStateM ε σ β) : (get >>= f) s = f s s := rfl

/-- Writing the state first. -/
theorem modify_bind (g : σ → σ) (f : PUnit → EStateM ε σ β) :
    (modify g >>= f) s = f ⟨⟩ (g s) := rfl

/-- Two continuations that agree on every state `x` can end in give the same run. -/
theorem bind_congr_wp {x : EStateM ε σ α} {f g : α → EStateM ε σ β}
    (h : wp x (fun a s' => f a s' = g a s') (fun _ _ => True) s) : (x >>= f) s = (x >>= g) s := by
  simp only [bind, EStateM.bind]
  cases hx : x s with
  | ok a s' =>
    exact wp_ok (Q := fun a s' => f a s' = g a s') h hx
  | error e s' => rfl

/-- Two loop bodies that agree as long as `I` holds give the same loop. -/
theorem forM_congr_wp {f g : α → EStateM ε σ PUnit} {I : List α → σ → Prop}
    (heq : ∀ a l s, I (a :: l) s → f a s = g a s)
    (step : ∀ a l s, I (a :: l) s → wp (g a) (fun _ s' => I l s') (fun _ _ => True) s) :
    ∀ {l : List α} {s : σ}, I l s → (forM l f : EStateM ε σ PUnit) s = forM l g s
  | [], _, _ => rfl
  | a :: l, s, h => by
    rw [List.forM_cons, List.forM_cons]
    have h₁ : (f a >>= fun _ => forM l f) s = (g a >>= fun _ => forM l f) s := by
      simp only [bind, EStateM.bind, heq a l s h]
    rw [h₁]
    exact bind_congr_wp (wp_mono (step a l s h) (fun _ _ h' => forM_congr_wp heq step h')
      (fun _ _ _ => trivial))

/-! ## Runs that end alike -/

/-- Two results, the second over what `view` shows of the first one's state: both normal, with
values in `R`, or both with the same fault. -/
def EndsAs (view : σ → ρ) (R : α → σ → β → Prop) :
    EStateM.Result ε σ α → EStateM.Result ε ρ β → Prop
  | .ok a s, .ok b r => view s = r ∧ R a s b
  | .error e s, .error e' r => e = e' ∧ view s = r
  | _, _ => False

namespace EndsAs

variable {γ δ : Type} {view : σ → ρ} {R : α → σ → β → Prop} {R' : γ → σ → δ → Prop}
  {x : EStateM ε σ α} {y : EStateM ε ρ β} {r : ρ}

theorem mono {S : α → σ → β → Prop} {q : EStateM.Result ε σ α} {q' : EStateM.Result ε ρ β}
    (h : EndsAs view R q q') (hRS : ∀ a s b, R a s b → S a s b) : EndsAs view S q q' := by
  cases q with
  | ok a s =>
    cases q' with
    | ok b r => exact ⟨h.1, hRS a s b h.2⟩
    | error e r => exact h.elim
  | error e s =>
    cases q' with
    | ok b r => exact h.elim
    | error e' r => exact h

/-- What follows ends alike, so the whole does. -/
theorem bind {f : α → EStateM ε σ γ} {g : β → EStateM ε ρ δ} (h : EndsAs view R (x s) (y r))
    (hfg : ∀ a s' b, R a s' b → EndsAs view R' (f a s') (g b (view s'))) :
    EndsAs view R' ((x >>= f) s) ((y >>= g) r) := by
  cases hx : x s with
  | ok a s' =>
    cases hy : y r with
    | ok b r' =>
      rw [hx, hy] at h
      obtain ⟨rfl, hR⟩ := h
      rw [bind_ok hx, bind_ok hy]
      exact hfg a s' b hR
    | error e r' =>
      rw [hx, hy] at h
      exact h.elim
  | error e s' =>
    cases hy : y r with
    | ok b r' =>
      rw [hx, hy] at h
      exact h.elim
    | error e' r' =>
      rw [hx, hy] at h
      rw [bind_error hx, bind_error hy]
      exact h

/-- A program on a part of the state ends as it does on that part alone. -/
theorem zoom {get : σ → ρ} {put : ρ → σ → σ} (hget : ∀ r s, get (put r s) = r)
    (z : EStateM ε ρ α) (s : σ) :
    EndsAs get (fun a s' b => a = b ∧ s' = put (get s') s) (Exec.zoom get put z s) (z (get s)) := by
  unfold Exec.zoom
  cases z (get s) with
  | ok a r' => exact ⟨hget r' s, rfl, by rw [hget]⟩
  | error e r' => exact ⟨rfl, hget r' s⟩

end EndsAs

end Exec

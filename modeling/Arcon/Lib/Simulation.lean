import Arcon.Lib.Exec

/-!
# Programs that follow others

A program over `ρ` reads choices off a tape that is part of its state. A `Simulation` relates the
states `σ` of a program to states `ρ`; `FollowsAt x y s r` says that `y` does from `r` what `x` does
from `s`: there are choices, all of them read by the time `x` ends, with which `y` gives the same
value and comes to a state that is related to the one `x` ends in. Unlike an `Abstraction`, a
simulation need not determine the state of the program that follows.

Two switches make one set of rules serve for weaker comparisons: a simulation in which nothing
`chooses` lets `y` read no choices, and one without `faults` says nothing of the runs of `x` that
end in a fault.
-/

namespace Exec

variable {ε σ ρ ω α β : Type}

/-- States `σ` related to states `ρ` that hold a tape of choices `ω`. -/
structure Simulation (ε σ ρ ω : Type) where
  Rel : σ → ρ → Prop
  /-- What is left of it at a fault. -/
  Fails : ε → σ → ρ → Prop
  /-- Put a tape in. -/
  load : List ω → ρ → ρ
  /-- Choices may be read. -/
  chooses : Prop
  /-- Faults are followed too. -/
  faults : Prop

namespace Simulation

variable (S : Simulation ε σ ρ ω)

/-- From the state `r`, the program `y` does what `x` does from `s`. -/
def FollowsAt (x : EStateM ε σ α) (y : EStateM ε ρ α) (s : σ) (r : ρ) : Prop :=
  wp x
    (fun a s' => ∃ o r', (¬S.chooses → o = []) ∧ S.Rel s' r' ∧
      ∀ o', y (S.load (o ++ o') r) = .ok a (S.load o' r'))
    (fun e s' => S.faults → ∃ o r', (¬S.chooses → o = []) ∧ S.Fails e s' r' ∧
      ∀ o', y (S.load (o ++ o') r) = .error e (S.load o' r')) s

/-- From related states, the program `y` does what `x` does. -/
def Follows (x : EStateM ε σ α) (y : EStateM ε ρ α) : Prop :=
  ∀ s r, S.Rel s r → S.FollowsAt x y s r

variable {S} {x : EStateM ε σ α} {y : EStateM ε ρ α} {s s' : σ} {r r' : ρ}

/-! ## Reading results -/

theorem FollowsAt.ok (h : S.FollowsAt x y s r) {a : α} (hx : x s = .ok a s') :
    ∃ o r', (¬S.chooses → o = []) ∧ S.Rel s' r' ∧
      ∀ o', y (S.load (o ++ o') r) = .ok a (S.load o' r') := by
  unfold FollowsAt wp at h
  rwa [hx] at h

theorem FollowsAt.error (h : S.FollowsAt x y s r) (hf : S.faults) {e : ε}
    (hx : x s = .error e s') :
    ∃ o r', (¬S.chooses → o = []) ∧ S.Fails e s' r' ∧
      ∀ o', y (S.load (o ++ o') r) = .error e (S.load o' r') := by
  unfold FollowsAt wp at h
  rw [hx] at h
  exact h hf

/-! ## Rules -/

theorem follows_pure (a : α) : S.Follows (pure a) (pure a) := fun _ r h =>
  ⟨[], r, fun _ => rfl, h, fun _ => rfl⟩

theorem followsAt_throw {e : ε} (h : S.Fails e s r) :
    S.FollowsAt (throw e : EStateM ε σ α) (throw e) s r := fun _ =>
  ⟨[], r, fun _ => rfl, h, fun _ => rfl⟩

/-- Other programs with the same runs. -/
theorem FollowsAt.congr {x' : EStateM ε σ α} {y' : EStateM ε ρ α} (h : S.FollowsAt x' y' s r)
    (hx : x s = x' s) (hy : ∀ o, y (S.load o r) = y' (S.load o r)) : S.FollowsAt x y s r := by
  unfold FollowsAt wp at h ⊢
  rw [hx]
  simpa only [hy] using h

/-- An update of both states. -/
theorem follows_modify {f : σ → σ} {g : ρ → ρ} (hrel : ∀ s r, S.Rel s r → S.Rel (f s) (g r))
    (hload : ∀ o r, g (S.load o r) = S.load o (g r)) :
    S.Follows (modify f : EStateM ε σ PUnit) (modify g) := by
  intro s r h
  refine ⟨[], g r, fun _ => rfl, hrel s r h, fun o' => ?_⟩
  show EStateM.Result.ok _ (g (S.load o' r)) = _
  rw [hload]

/-- **Sequencing.** -/
theorem FollowsAt.bind {f : α → EStateM ε σ β} {g : α → EStateM ε ρ β} (h : S.FollowsAt x y s r)
    (hf : ∀ a, S.Follows (f a) (g a)) : S.FollowsAt (x >>= f) (y >>= g) s r := by
  unfold FollowsAt
  rw [wp_bind]
  refine wp_intro (fun a s' hx => ?_) (fun e s' hx hfaults => ?_)
  · obtain ⟨o₁, r₁, hsilent₁, hrel₁, hrun₁⟩ := h.ok hx
    refine wp_mono (hf a s' r₁ hrel₁) ?_ ?_
    · rintro b s'' ⟨o₂, r₂, hsilent₂, hrel₂, hrun₂⟩
      refine ⟨o₁ ++ o₂, r₂, fun hc => ?_, hrel₂, fun o' => ?_⟩
      · rw [hsilent₁ hc, hsilent₂ hc]
        rfl
      · rw [List.append_assoc, bind_ok (hrun₁ _)]
        exact hrun₂ o'
    · intro e s'' he hfaults
      obtain ⟨o₂, r₂, hsilent₂, hfails, hrun₂⟩ := he hfaults
      refine ⟨o₁ ++ o₂, r₂, fun hc => ?_, hfails, fun o' => ?_⟩
      · rw [hsilent₁ hc, hsilent₂ hc]
        rfl
      · rw [List.append_assoc, bind_ok (hrun₁ _)]
        exact hrun₂ o'
  · obtain ⟨o, r', hsilent, hfails, hrun⟩ := h.error hfaults hx
    exact ⟨o, r', hsilent, hfails, fun o' => bind_error (hrun o')⟩

theorem Follows.bind {f : α → EStateM ε σ β} {g : α → EStateM ε ρ β} (h : S.Follows x y)
    (hf : ∀ a, S.Follows (f a) (g a)) : S.Follows (x >>= f) (y >>= g) := fun s r hrel =>
  (h s r hrel).bind hf

/-- Reading the state: what `g` reads does not depend on the choices. -/
theorem follows_get {f : σ → EStateM ε σ α} {g : ρ → EStateM ε ρ α}
    (hload : ∀ o r, g (S.load o r) = g r)
    (h : ∀ s r, S.Rel s r → S.FollowsAt (f s) (g r) s r) :
    S.Follows (get >>= f) (get >>= g) := by
  intro s r hrel
  refine (h s r hrel).congr rfl fun o => ?_
  rw [← hload o r]
  rfl

theorem followsAt_ite {c : Prop} [Decidable c] {x' : EStateM ε σ α} {y' : EStateM ε ρ α}
    (h : c → S.FollowsAt x y s r) (h' : ¬c → S.FollowsAt x' y' s r) :
    S.FollowsAt (if c then x else x') (if c then y else y') s r := by
  by_cases hc : c
  · rw [if_pos hc, if_pos hc]
    exact h hc
  · rw [if_neg hc, if_neg hc]
    exact h' hc

/-- **Loops.** -/
theorem Follows.forM {f : α → EStateM ε σ PUnit} {g : α → EStateM ε ρ PUnit}
    (h : ∀ a, S.Follows (f a) (g a)) : ∀ l : List α, S.Follows (forM l f) (forM l g)
  | [] => follows_pure _
  | a :: l => by
    rw [List.forM_cons, List.forM_cons]
    exact (h a).bind fun _ => Follows.forM h l

/-! ## A part of the state -/

section Part

variable {ε' σ' ρ' : Type}

/-- What a program on a part of the state makes of the whole; its faults are wrapped. -/
def within (put : ρ' → ρ → ρ) (wrap : ε' → ε) (r : ρ) :
    EStateM.Result ε' ρ' α → EStateM.Result ε ρ α
  | .ok a p => .ok a (put p r)
  | .error e p => .error (wrap e) (put p r)

/-- `T` relates parts of the states that `S` relates. -/
structure Part (T : Simulation ε' σ' ρ' ω) (S : Simulation ε σ ρ ω) (get : σ → σ')
    (put : σ' → σ → σ) (get' : ρ → ρ') (put' : ρ' → ρ → ρ) (wrap : ε' → ε) : Prop where
  rel_get : ∀ s r, S.Rel s r → T.Rel (get s) (get' r)
  rel_put : ∀ s r p q, S.Rel s r → T.Rel p q → S.Rel (put p s) (put' q r)
  fails : ∀ e s r p q, S.Rel s r → T.Fails e p q → S.Fails (wrap e) (put p s) (put' q r)
  get_load : ∀ o r, get' (S.load o r) = T.load o (get' r)
  put_load : ∀ o o' q r, put' (T.load o' q) (S.load o r) = S.load o' (put' q r)
  chooses : T.chooses → S.chooses
  faults : T.faults

/-- **Programs on a part of the state.** -/
theorem Part.follows {T : Simulation ε' σ' ρ' ω} {get : σ → σ'} {put : σ' → σ → σ} {get' : ρ → ρ'}
    {put' : ρ' → ρ → ρ} {wrap : ε' → ε} (h : Part T S get put get' put' wrap)
    {x' : EStateM ε' σ' α} {y' : EStateM ε' ρ' α} (hfol : T.Follows x' y')
    (hx : ∀ s, x s = within put wrap s (x' (get s)))
    (hy : ∀ r, y r = within put' wrap r (y' (get' r))) : S.Follows x y := by
  intro s r hrel
  have hpart := hfol _ _ (h.rel_get s r hrel)
  have hrun : ∀ o, y (S.load o r) = within put' wrap (S.load o r) (y' (T.load o (get' r))) := by
    intro o
    rw [hy, h.get_load]
  cases hx' : x' (get s) with
  | ok a p =>
    obtain ⟨o, q, hsilent, hrel', hy'⟩ := hpart.ok hx'
    refine wp_of_eq_ok (show x s = .ok a (put p s) by rw [hx, hx']; rfl) ?_
    refine ⟨o, put' q r, fun hc => hsilent (mt h.chooses hc), h.rel_put s r p q hrel hrel',
      fun o' => ?_⟩
    rw [hrun, hy', ← h.put_load (o ++ o')]
    rfl
  | error e p =>
    obtain ⟨o, q, hsilent, hfails, hy'⟩ := hpart.error h.faults hx'
    refine wp_of_eq_error (show x s = .error (wrap e) (put p s) by rw [hx, hx']; rfl) fun _ => ?_
    refine ⟨o, put' q r, fun hc => hsilent (mt h.chooses hc), h.fails e s r p q hrel hfails,
      fun o' => ?_⟩
    rw [hrun, hy', ← h.put_load (o ++ o')]
    rfl

end Part

end Simulation

end Exec

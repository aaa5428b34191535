import Arcon.Lib.Exec

/-!
# Programs seen through an abstraction

An `Abstraction` shows a state `σ` as a state `ρ`, together with a tape of choices that the program
over `ρ` has still to read. `Follows x y` says that `y`, on the abstract state, does what `x` does:
there are choices, all of them read by the time `x` ends, with which `y` gives the same value and
the abstraction of the state `x` ends in. Nothing is said of the state a fault leaves behind unless
the program goes on after it (`Resumes`).

The rules build `Follows` along the program: `Follows.bind`, `Follows.forM`, `follows_get`.
-/

namespace Exec

variable {ε σ ρ ω α β : Type}

/-- States `σ` shown as states `ρ` with a tape of choices `ω`, for the states that are `Ok`. -/
structure Abstraction (ε σ ρ ω : Type) where
  abs : σ → List ω → ρ
  Ok : σ → Prop
  Resumes : ε → Prop

namespace Abstraction

variable (A : Abstraction ε σ ρ ω)

/-- From the state `s`, the program `y` does what `x` does. -/
def FollowsAt (x : EStateM ε σ α) (y : EStateM ε ρ α) (s : σ) : Prop :=
  wp x (fun a s' => A.Ok s' ∧ ∃ o, ∀ o', y (A.abs s (o ++ o')) = .ok a (A.abs s' o'))
    (fun e s' => ∃ o, ∀ o', ∃ t, y (A.abs s (o ++ o')) = .error e t ∧
      (A.Resumes e → A.Ok s' ∧ t = A.abs s' o')) s

/-- From every state that is `Ok`, the program `y` does what `x` does. -/
def Follows (x : EStateM ε σ α) (y : EStateM ε ρ α) : Prop := ∀ s, A.Ok s → A.FollowsAt x y s

variable {A} {x : EStateM ε σ α} {y : EStateM ε ρ α} {s s' : σ}

theorem Follows.ok (h : A.Follows x y) (hs : A.Ok s) {a : α} (hx : x s = .ok a s') :
    A.Ok s' ∧ ∃ o, ∀ o', y (A.abs s (o ++ o')) = .ok a (A.abs s' o') := by
  have := h s hs
  unfold FollowsAt wp at this
  rwa [hx] at this

theorem Follows.error (h : A.Follows x y) (hs : A.Ok s) {e : ε} (hx : x s = .error e s') :
    ∃ o, ∀ o', ∃ t, y (A.abs s (o ++ o')) = .error e t ∧
      (A.Resumes e → A.Ok s' ∧ t = A.abs s' o') := by
  have := h s hs
  unfold FollowsAt wp at this
  rwa [hx] at this

theorem follows_pure (a : α) : A.Follows (pure a) (pure a) := fun _ hs => ⟨hs, [], fun _ => rfl⟩

theorem follows_throw (e : ε) : A.Follows (throw e : EStateM ε σ α) (throw e) := fun s hs =>
  ⟨[], fun o' => ⟨A.abs s o', rfl, fun _ => ⟨hs, rfl⟩⟩⟩

/-- An update of the state that is an update of the abstract state. -/
theorem follows_modify {f : σ → σ} {g : ρ → ρ} (hok : ∀ s, A.Ok s → A.Ok (f s))
    (hfg : ∀ s o, A.Ok s → g (A.abs s o) = A.abs (f s) o) :
    A.Follows (modify f : EStateM ε σ PUnit) (modify g) := by
  intro s hs
  refine ⟨hok s hs, [], fun o' => ?_⟩
  show EStateM.Result.ok _ (g (A.abs s o')) = _
  rw [hfg s o' hs]

/-- **Sequencing.** -/
theorem FollowsAt.bind {f : α → EStateM ε σ β} {g : α → EStateM ε ρ β} (h : A.FollowsAt x y s)
    (hf : ∀ a s', x s = .ok a s' → A.Ok s' → A.FollowsAt (f a) (g a) s') :
    A.FollowsAt (x >>= f) (y >>= g) s := by
  unfold FollowsAt
  rw [wp_bind]
  refine wp_intro (fun a s' hx => ?_) (fun e s' hx => ?_)
  · obtain ⟨hs', o₁, ho₁⟩ := wp_ok h hx
    refine wp_mono (hf a s' hx hs') ?_ ?_
    · rintro b s'' ⟨hs'', o₂, ho₂⟩
      refine ⟨hs'', o₁ ++ o₂, fun o' => ?_⟩
      rw [List.append_assoc, bind_ok (ho₁ _)]
      exact ho₂ o'
    · rintro e s'' ⟨o₂, ho₂⟩
      refine ⟨o₁ ++ o₂, fun o' => ?_⟩
      obtain ⟨t, ht, hres⟩ := ho₂ o'
      refine ⟨t, ?_, hres⟩
      rw [List.append_assoc, bind_ok (ho₁ _)]
      exact ht
  · obtain ⟨o, ho⟩ := wp_error h hx
    refine ⟨o, fun o' => ?_⟩
    obtain ⟨t, ht, hres⟩ := ho o'
    exact ⟨t, bind_error ht, hres⟩

theorem Follows.bind {f : α → EStateM ε σ β} {g : α → EStateM ε ρ β} (h : A.Follows x y)
    (hf : ∀ a, A.Follows (f a) (g a)) : A.Follows (x >>= f) (y >>= g) := fun s hs =>
  (h s hs).bind fun a s' _ hs' => hf a s' hs'

/-- Reading the state: what `g` reads does not depend on the choices. -/
theorem follows_get {f : σ → EStateM ε σ α} {g : ρ → EStateM ε ρ α}
    (h : ∀ s, A.Ok s → ∃ y, (∀ o, g (A.abs s o) = y) ∧ A.FollowsAt (f s) y s) :
    A.Follows (get >>= f) (get >>= g) := by
  intro s hs
  obtain ⟨y, hy, hfol⟩ := h s hs
  unfold FollowsAt
  rw [wp_bind, wp_get]
  refine wp_mono hfol ?_ ?_
  · rintro a s' ⟨hs', o, ho⟩
    refine ⟨hs', o, fun o' => ?_⟩
    rw [← ho o', ← hy (o ++ o')]
    rfl
  · rintro e s' ⟨o, ho⟩
    refine ⟨o, fun o' => ?_⟩
    obtain ⟨t, ht, hres⟩ := ho o'
    refine ⟨t, ?_, hres⟩
    rw [← ht, ← hy (o ++ o')]
    rfl

/-- **Loops.** -/
theorem Follows.forM {f : α → EStateM ε σ PUnit} {g : α → EStateM ε ρ PUnit}
    (h : ∀ a, A.Follows (f a) (g a)) : ∀ l : List α, A.Follows (forM l f) (forM l g)
  | [] => follows_pure _
  | a :: l => by
    rw [List.forM_cons, List.forM_cons]
    exact (h a).bind fun _ => Follows.forM h l

end Abstraction

end Exec

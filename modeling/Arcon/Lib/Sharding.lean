import Arcon.Lib.Exec
import Mathlib.Data.List.Basic

/-!
# One computation, dealt out by key

Each step looks at and changes only that part of the state which belongs to the key of its input.
Then the inputs can be dealt out to workers, each with the keys it owns, and no worker hears of the
others.

* `Local`: steps of that kind.
* **`Local.shard`**: a worker does its share of what is done on all inputs, on its own part of the
  state.
* **`Local.merge`**: if all workers get through their inputs, then one gets through all of them.
-/

namespace Sharding

open Exec

variable {α β ε σ K V I : Type}

/-- Some inputs in order, each with its result. -/
def each (step : α → EStateM ε σ β) : List α → EStateM ε σ (List (α × β))
  | [] => pure []
  | x :: xs => do
    let result ← step x
    let rest ← each step xs
    pure ((x, result) :: rest)

section each

variable {step : α → EStateM ε σ β} {x : α} {xs ys : List α} {log : List (α × β)} {s s' : σ}

theorem each_cons_ok (h : each step (x :: xs) s = .ok log s') :
    ∃ b s₁ rest, step x s = .ok b s₁ ∧ each step xs s₁ = .ok rest s' ∧ log = (x, b) :: rest := by
  obtain ⟨b, s₁, hx, h⟩ := of_bind_ok h
  obtain ⟨rest, s₂, hxs, h⟩ := of_bind_ok h
  cases h
  exact ⟨b, s₁, rest, hx, hxs, rfl⟩

theorem each_cons_of_ok {b : β} {s₁ : σ} (hx : step x s = .ok b s₁)
    (hxs : each step xs s₁ = .ok log s') : each step (x :: xs) s = .ok ((x, b) :: log) s' :=
  (bind_ok hx).trans (bind_ok hxs)

/-- The first inputs give the first results. -/
theorem each_of_prefix (h : each step xs s = .ok log s') (hys : ys <+: xs) :
    ∃ log₁ s₁, each step ys s = .ok log₁ s₁ ∧ log₁ <+: log := by
  induction ys generalizing xs log s with
  | nil => exact ⟨[], s, rfl, List.nil_prefix⟩
  | cons y ys ih =>
    obtain ⟨rest, rfl⟩ := hys
    obtain ⟨b, s₁, tail, hy, htail, rfl⟩ := each_cons_ok h
    obtain ⟨log₁, s₂, hys, hpre⟩ := ih htail (List.prefix_append ys rest)
    exact ⟨(y, b) :: log₁, s₂, each_cons_of_ok hy hys, List.cons_prefix_cons.mpr ⟨rfl, hpre⟩⟩

end each

/-- A step looks at the part of its key only, and changes no other. -/
structure Local (step : α → EStateM ε σ β) (key : α → K) (part : K → σ → V) : Prop where
  congr : ∀ {x s t b s'}, part (key x) t = part (key x) s → step x s = .ok b s' →
    ∃ t', step x t = .ok b t' ∧ part (key x) t' = part (key x) s'
  frame : ∀ {x s b s'}, step x s = .ok b s' → ∀ k, k ≠ key x → part k s' = part k s

namespace Local

variable {step : α → EStateM ε σ β} {key : α → K} {part : K → σ → V} (own : K → I)

/-- The two states agree on the keys of a worker. -/
def Agree (part : K → σ → V) (own : K → I) (i : I) (t s : σ) : Prop :=
  ∀ k, own k = i → part k t = part k s

/-- Inputs that come with other things. -/
theorem comp (h : Local step key part) {γ : Type} (f : γ → α) :
    Local (fun y => step (f y)) (fun y => key (f y)) part :=
  ⟨h.congr, h.frame⟩

variable {own} {x : α} {xs : List α} {log : List (α × β)} {b : β} {i : I} {s s' s₁ t t₁ : σ}

/-- The worker of the key keeps step. -/
theorem agree_step (h : Local step key part) (hagree : Agree part own i t s)
    (hs : step x s = .ok b s₁) (ht : step x t = .ok b t₁)
    (hpart : part (key x) t₁ = part (key x) s₁) : Agree part own i t₁ s₁ := by
  intro k hk
  by_cases hkey : k = key x
  · rw [hkey]
    exact hpart
  · rw [h.frame ht k hkey, h.frame hs k hkey]
    exact hagree k hk

/-- The other workers need not do anything. -/
theorem agree_skip (h : Local step key part) (hagree : Agree part own i t s)
    (hs : step x s = .ok b s₁) (hi : own (key x) ≠ i) : Agree part own i t s₁ := by
  intro k hk
  rw [h.frame hs k fun hkey => hi (hkey ▸ hk)]
  exact hagree k hk

variable [DecidableEq I]

/-- **A worker does its share.** -/
theorem shard (h : Local step key part) (hrun : each step xs s = .ok log s')
    (hagree : Agree part own i t s) :
    ∃ t', each step (xs.filter fun x => own (key x) = i) t =
        .ok (log.filter fun p => own (key p.1) = i) t' ∧ Agree part own i t' s' := by
  induction xs generalizing log s t with
  | nil =>
    cases hrun
    exact ⟨t, rfl, hagree⟩
  | cons x xs ih =>
    obtain ⟨b, s₁, rest, hx, hxs, rfl⟩ := each_cons_ok hrun
    by_cases hi : own (key x) = i
    · obtain ⟨t₁, ht, hpart⟩ := h.congr (hagree _ hi) hx
      obtain ⟨t', hrest, hagree'⟩ := ih hxs (h.agree_step hagree hx ht hpart)
      rw [List.filter_cons_of_pos (by simpa using hi), List.filter_cons_of_pos (by simpa using hi)]
      exact ⟨t', each_cons_of_ok ht hrest, hagree'⟩
    · rw [List.filter_cons_of_neg (by simpa using hi), List.filter_cons_of_neg (by simpa using hi)]
      exact ih hxs (h.agree_skip hagree hx hi)

/-- **What the workers can do one can do.** -/
theorem merge (h : Local step key part) (own : K → I) {W : I → Prop}
    (hown : ∀ x ∈ xs, W (own (key x)))
    (hrun : ∀ i, W i → ∃ t log t', Agree part own i t s ∧
      each step (xs.filter fun x => own (key x) = i) t = .ok log t') :
    ∃ log s', each step xs s = .ok log s' := by
  induction xs generalizing s with
  | nil => exact ⟨[], s, rfl⟩
  | cons x xs ih =>
    obtain ⟨t, log, t', hagree, ht⟩ := hrun _ (hown x List.mem_cons_self)
    rw [List.filter_cons_of_pos (by simp)] at ht
    obtain ⟨b, t₁, rest, hx, hrest, rfl⟩ := each_cons_ok ht
    obtain ⟨s₁, hs, hpart⟩ := h.congr (hagree _ rfl).symm hx
    have hxs : ∃ log s', each step xs s₁ = .ok log s' := by
      refine ih (fun y hy => hown y (List.mem_cons_of_mem x hy)) fun i hi => ?_
      by_cases hix : own (key x) = i
      · subst hix
        exact ⟨t₁, rest, t', h.agree_step hagree hs hx hpart.symm, hrest⟩
      · obtain ⟨t, log, t', hagree, ht⟩ := hrun i hi
        rw [List.filter_cons_of_neg (by simpa using hix)] at ht
        exact ⟨t, log, t', h.agree_skip hagree hs hix, ht⟩
    obtain ⟨log', s', hxs⟩ := hxs
    exact ⟨_, s', each_cons_of_ok hs hxs⟩

end Local

end Sharding

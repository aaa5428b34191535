import Mathlib.Data.List.Induction
import Mathlib.Data.List.ReduceOption
import Mathlib.Tactic.Common

/-!
# Batches

Items come one by one and leave in batches. They are collected up to a number `cap`; an item for
which there is no room sends off what was collected before it; an `urgent` item leaves at once, as
the last of its batch. Now and then somebody asks for a flush.

* `run_flatten`: no item is lost, doubled or moved.
* `run_shaped`: a batch has an urgent item at its end only, and nothing urgent stays behind.
* `run_urgent`: what one urgent item does.
-/

namespace Batching

variable {T : Type} (cap : Nat) (urgent : T → Bool)

/-- One more item: the batches it sends off, and what is collected after it. -/
def add (l : List T) (a : T) : List (List T) × List T :=
  if urgent a then
    if l.length < cap then ([l ++ [a]], []) else ([l, [a]], [])
  else
    if l.length < cap then ([], l ++ [a]) else ([l], [a])

/-- One more item, as if it were not urgent. -/
def put (l : List T) (a : T) : List (List T) × List T :=
  if l.length < cap then ([], l ++ [a]) else ([l], [a])

/-- One more item, or a flush. -/
def step (l : List T) : Option T → List (List T) × List T
  | some a => add cap urgent l a
  | none => ([l], [])

/-- The batches of a run, and what is collected at its end. -/
def run (is : List (Option T)) : List (List T) × List T :=
  is.foldl (fun s i => (s.1 ++ (step cap urgent s.2 i).1, (step cap urgent s.2 i).2)) ([], [])

/-- Nothing urgent. -/
def Calm (l : List T) : Prop := ∀ a ∈ l, urgent a = false

/-- Nothing urgent but maybe the last item. -/
def Shaped (l : List T) : Prop :=
  Calm urgent l ∨ ∃ l' a, l = l' ++ [a] ∧ Calm urgent l' ∧ urgent a = true

variable {cap urgent} {l : List T} {a : T} {i : Option T} {is : List (Option T)}

theorem run_snoc (is : List (Option T)) (i : Option T) :
    run cap urgent (is ++ [i]) =
      ((run cap urgent is).1 ++ (step cap urgent (run cap urgent is).2 i).1,
        (step cap urgent (run cap urgent is).2 i).2) := by
  unfold run
  rw [List.foldl_append]
  rfl

/-- An urgent item is put in and sent off. -/
theorem add_eq_put (l : List T) (a : T) : add cap urgent l a =
    if urgent a then ((put cap l a).1 ++ [(put cap l a).2], []) else put cap l a := by
  unfold add put
  split <;> split <;> rfl

/-! ## Nothing is lost -/

theorem add_flatten (l : List T) (a : T) :
    (add cap urgent l a).1.flatten ++ (add cap urgent l a).2 = l ++ [a] := by
  unfold add
  split <;> split <;> simp

theorem step_flatten (l : List T) (i : Option T) :
    (step cap urgent l i).1.flatten ++ (step cap urgent l i).2 = l ++ i.toList := by
  cases i with
  | none => simp [step]
  | some a => exact add_flatten l a

/-- **No item is lost, doubled or moved.** -/
theorem run_flatten (cap : Nat) (urgent : T → Bool) (is : List (Option T)) :
    (run cap urgent is).1.flatten ++ (run cap urgent is).2 = is.reduceOption := by
  induction is using List.reverseRecOn with
  | nil => rfl
  | append_singleton is i ih =>
    rw [run_snoc, List.flatten_append, List.append_assoc, step_flatten, ← List.append_assoc, ih,
      List.reduceOption_append]
    cases i <;> rfl

/-! ## Urgent items -/

theorem calm_nil : Calm urgent ([] : List T) := fun _ h => absurd h List.not_mem_nil

theorem calm_snoc (h : Calm urgent l) (ha : urgent a = false) : Calm urgent (l ++ [a]) := by
  intro b hb
  rcases List.mem_append.mp hb with hb | hb
  · exact h b hb
  · obtain rfl := List.mem_singleton.mp hb
    exact ha

theorem add_urgent (ha : urgent a = true) (l : List T) : (add cap urgent l a).2 = [] := by
  unfold add
  rw [if_pos ha]
  split <;> rfl

theorem shaped_snoc (h : Calm urgent l) (a : T) : Shaped urgent (l ++ [a]) := by
  cases ha : urgent a with
  | true => exact .inr ⟨l, a, rfl, h, ha⟩
  | false => exact .inl (calm_snoc h ha)

theorem put_shaped (h : Calm urgent l) (a : T) : Shaped urgent (put cap l a).2 := by
  unfold put
  split
  · exact shaped_snoc h a
  · exact shaped_snoc calm_nil a

theorem step_calm (h : Calm urgent l) (i : Option T) : Calm urgent (step cap urgent l i).2 := by
  cases i with
  | none => exact calm_nil
  | some a =>
    show Calm urgent (add cap urgent l a).2
    cases ha : urgent a with
    | true =>
      rw [add_urgent ha]
      exact calm_nil
    | false =>
      unfold add
      rw [if_neg (by simp [ha])]
      split
      · exact calm_snoc h ha
      · exact calm_snoc calm_nil ha

theorem step_shaped (cap : Nat) (h : Calm urgent l) (i : Option T) :
    ∀ b ∈ (step cap urgent l i).1, Shaped urgent b := by
  intro b hb
  cases i with
  | none =>
    obtain rfl := List.mem_singleton.mp hb
    exact .inl h
  | some a =>
    change b ∈ (add cap urgent l a).1 at hb
    unfold add at hb
    split at hb
    · rename_i ha
      split at hb
      · obtain rfl := List.mem_singleton.mp hb
        exact .inr ⟨l, a, rfl, h, ha⟩
      · rcases List.mem_cons.mp hb with rfl | hb
        · exact .inl h
        · obtain rfl := List.mem_singleton.mp hb
          exact .inr ⟨[], a, rfl, calm_nil, ha⟩
    · split at hb
      · exact absurd hb List.not_mem_nil
      · obtain rfl := List.mem_singleton.mp hb
        exact .inl h

/-- What is collected is never urgent. -/
theorem run_calm (cap : Nat) (urgent : T → Bool) (is : List (Option T)) :
    Calm urgent (run cap urgent is).2 := by
  induction is using List.reverseRecOn with
  | nil => exact calm_nil
  | append_singleton is i ih =>
    rw [run_snoc]
    exact step_calm ih i

/-- **A batch has an urgent item at its end only.** -/
theorem run_shaped (is : List (Option T)) : ∀ b ∈ (run cap urgent is).1, Shaped urgent b := by
  induction is using List.reverseRecOn with
  | nil => exact fun b hb => absurd hb List.not_mem_nil
  | append_singleton is i ih =>
    rw [run_snoc]
    intro b hb
    rcases List.mem_append.mp hb with hb | hb
    · exact ih b hb
    · exact step_shaped cap (run_calm cap urgent is) i b hb

/-- **An urgent item leaves at once**, after all that came before it. -/
theorem run_urgent (ha : urgent a = true) (is : List (Option T)) :
    (run cap urgent (is ++ [some a])).2 = [] ∧
      (run cap urgent (is ++ [some a])).1.flatten = is.reduceOption ++ [a] := by
  have hnil : (run cap urgent (is ++ [some a])).2 = [] := by
    rw [run_snoc]
    exact add_urgent ha _
  refine ⟨hnil, ?_⟩
  have h := run_flatten cap urgent (is ++ [some a])
  rw [hnil, List.append_nil, List.reduceOption_append] at h
  exact h

/-- The batches of a run stay the first ones of a longer run. -/
theorem run_prefix_append (cap : Nat) (urgent : T → Bool) (is js : List (Option T)) :
    (run cap urgent is).1 <+: (run cap urgent (is ++ js)).1 := by
  induction js using List.reverseRecOn with
  | nil => exact ⟨[], by rw [List.append_nil, List.append_nil]⟩
  | append_singleton js j ih =>
    rw [← List.append_assoc, run_snoc]
    exact ih.trans ⟨_, rfl⟩

end Batching

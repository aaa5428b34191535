import Mathlib.Algebra.GroupWithZero.Nat
import Mathlib.Data.Finmap
import Mathlib.Data.Set.List
import Mathlib.Tactic.Common

/-!
# Listings of finite maps

A list of pairs `Lists` a partial function when it has every pair of the function exactly once. Two
listings of one function differ in order only, so a listing of a finite map is its entries as a
multiset.

* `Lists.filter`: a part of a listing lists a part of the function.
* `Lists.snoc`, `Lists.sum_filter_ne`: a key comes, a key goes.
* **`Lists.pull`**: a listing of a function whose keys and values are codes is the list of the codes
  of a listing.
* **`Lists.entries`**: a listing of a finite map is its entries.
-/

namespace Listing

variable {κ ν κ' ν' : Type}

/-- `l` has every pair of `f` exactly once. -/
def Lists (l : List (κ × ν)) (f : κ → Option ν) : Prop :=
  (l.map Prod.fst).Nodup ∧ ∀ k v, (k, v) ∈ l ↔ f k = some v

namespace Lists

variable {l l' : List (κ × ν)} {f : κ → Option ν}

theorem nodup (h : Lists l f) : l.Nodup := List.Nodup.of_map _ h.1

theorem filter (h : Lists l f) (p : κ → Bool) :
    Lists (l.filter fun e => p e.1) (fun k => if p k then f k else none) := by
  refine ⟨h.1.sublist (List.filter_sublist.map _), fun k v => ?_⟩
  rw [List.mem_filter, h.2]
  by_cases hp : p k
  · simp [hp]
  · simp [hp]

theorem key_notMem (h : Lists l f) {k : κ} (hk : f k = none) : k ∉ l.map Prod.fst := by
  intro hmem
  obtain ⟨e, he, rfl⟩ := List.mem_map.mp hmem
  rw [(h.2 e.1 e.2).mp he] at hk
  cases hk

/-- A new key. -/
theorem snoc [DecidableEq κ] (h : Lists l f) {k : κ} (hk : f k = none) (v : ν) :
    Lists (l ++ [(k, v)]) (Function.update f k (some v)) := by
  refine ⟨?_, fun k' v' => ?_⟩
  · rw [List.map_append]
    exact h.1.append (List.nodup_singleton k)
      (List.disjoint_singleton.mpr (h.key_notMem hk))
  · rw [List.mem_append, List.mem_singleton, h.2]
    by_cases heq : k' = k
    · subst heq
      rw [Function.update_self, hk]
      simp [eq_comm]
    · rw [Function.update_of_ne heq]
      simp [heq]

/-- Without a key that is not there, the listing is the same. -/
theorem filter_ne_of_none [DecidableEq κ] (h : Lists l f) {k : κ} (hk : f k = none) :
    (l.filter fun e => e.1 ≠ k) = l := by
  refine List.filter_eq_self.mpr fun e he => ?_
  have hne : e.1 ≠ k := by
    rintro rfl
    exact h.key_notMem hk (List.mem_map_of_mem he)
  simpa using hne

/-- Without a key the sum of the values is less by its value. -/
theorem sum_filter_ne [DecidableEq κ] {l : List (κ × Nat)} {f : κ → Option Nat} (h : Lists l f)
    {k : κ} {n : Nat} (hk : f k = some n) :
    ((l.filter fun e => e.1 ≠ k).map Prod.snd).sum + n = (l.map Prod.snd).sum := by
  obtain ⟨l₁, l₂, rfl⟩ := List.append_of_mem ((h.2 k n).mpr hk)
  have hnodup := h.1
  rw [List.map_append, List.map_cons, List.nodup_middle, List.nodup_cons, ← List.map_append]
    at hnodup
  -- the pair is the only one with its key
  have hrest : ((l₁ ++ l₂).filter fun e => e.1 ≠ k) = l₁ ++ l₂ := by
    refine List.filter_eq_self.mpr fun e he => ?_
    have hne : e.1 ≠ k := by
      rintro rfl
      exact hnodup.1 (List.mem_map.mpr ⟨e, he, rfl⟩)
    simpa using hne
  have hfilter : ((l₁ ++ (k, n) :: l₂).filter fun e => e.1 ≠ k) = l₁ ++ l₂ := by
    rw [← hrest, List.filter_append, List.filter_append, List.filter_cons_of_neg (by simp)]
  rw [hfilter]
  simp only [List.map_append, List.map_cons, List.sum_append, List.sum_cons]
  omega

theorem perm (h : Lists l f) (h' : Lists l' f) : l.Perm l' := by
  refine (List.perm_ext_iff_of_nodup h.nodup h'.nodup).mpr fun e => ?_
  rw [h.2 e.1 e.2, h'.2 e.1 e.2]

/-- **A listing of coded pairs** is the codes of a listing. -/
theorem pull (h : Lists l f) {g : κ' → κ} (hg : Function.Injective g) {c : ν' → ν}
    (hc : Function.Injective c) {f' : κ' → Option ν'} (hf : ∀ k, f (g k) = (f' k).map c)
    (hrange : ∀ k, (f k).isSome → ∃ k', g k' = k) :
    ∃ l', l = l'.map (fun e => (g e.1, c e.2)) ∧ Lists l' f' := by
  have hmem : l ∈ Set.range (List.map fun e : κ' × ν' => (g e.1, c e.2)) := by
    rw [Set.range_list_map]
    intro e he
    have hval := (h.2 e.1 e.2).mp he
    obtain ⟨k', hk'⟩ := hrange e.1 (by rw [hval]; rfl)
    rw [← hk', hf] at hval
    obtain ⟨v', _, hv'⟩ := Option.map_eq_some_iff.mp hval
    exact ⟨(k', v'), Prod.ext hk' hv'⟩
  obtain ⟨l', rfl⟩ := hmem
  refine ⟨l', rfl, ?_, fun k v => ?_⟩
  · have hnodup := h.1
    rw [List.map_map] at hnodup
    exact List.Nodup.of_map g (by rwa [List.map_map])
  · -- at a code, `c` can be taken off the value
    have hcode : (k, v) ∈ l' ↔ (g k, c v) ∈ l'.map (fun e => (g e.1, c e.2)) := by
      refine ⟨fun hin => List.mem_map.mpr ⟨(k, v), hin, rfl⟩, fun hin => ?_⟩
      obtain ⟨⟨k₁, v₁⟩, hin₁, heq⟩ := List.mem_map.mp hin
      injection heq with hk hv
      rwa [← hg hk, ← hc hv]
    rw [hcode, h.2, hf, Option.map_eq_some_iff]
    refine ⟨fun ⟨v', hv', heq⟩ => ?_, fun hv => ⟨v, hv, rfl⟩⟩
    rw [hv', hc heq]

/-- The entries of a finite map as pairs. -/
def pairs {κ ν : Type} (m : Finmap fun _ : κ => ν) : Multiset (κ × ν) :=
  m.entries.map fun e => (e.1, e.2)

variable [DecidableEq κ]

/-- The entries of an association list are a listing. -/
theorem of_alist (a : AList fun _ : κ => ν) :
    Lists (a.entries.map fun e => (e.1, e.2)) (fun k => a.lookup k) := by
  refine ⟨?_, fun k v => ?_⟩
  · rw [List.map_map]
    exact a.nodupKeys
  · dsimp only
    rw [← Option.mem_def, AList.mem_lookup_iff, List.mem_map]
    refine ⟨fun ⟨e, he, heq⟩ => ?_, fun he => ⟨⟨k, v⟩, he, rfl⟩⟩
    cases heq
    exact he

/-- **A listing of a finite map** is its entries. -/
theorem entries {m : Finmap fun _ : κ => ν} (h : Lists l (m.lookup ·)) :
    (l : Multiset (κ × ν)) = pairs m := by
  induction m using Finmap.induction_on with
  | H a =>
    have ha : Lists (a.entries.map fun e => (e.1, e.2)) ((AList.toFinmap a).lookup ·) := of_alist a
    exact Multiset.coe_eq_coe.mpr (h.perm ha)

theorem keys_eq {m : Finmap fun _ : κ => ν} (h : Lists l (m.lookup ·)) :
    (l.map Prod.fst : Multiset κ) = m.keys.val := by
  have he := congrArg (Multiset.map Prod.fst) h.entries
  rw [Multiset.map_coe, pairs, Multiset.map_map] at he
  exact he

theorem length_eq {m : Finmap fun _ : κ => ν} (h : Lists l (m.lookup ·)) :
    l.length = m.keys.card := by
  have hk := congrArg Multiset.card h.keys_eq
  rw [Multiset.coe_card, List.length_map] at hk
  exact hk

/-- A list of the keys of a finite map, each once, can be completed to a listing. -/
theorem exists_of_keys {m : Finmap fun _ : κ => ν} {ks : List κ} (hnodup : ks.Nodup)
    (hmem : ∀ k, k ∈ ks ↔ k ∈ m) : ∃ es, Lists es (m.lookup ·) ∧ es.map Prod.fst = ks := by
  have hfst : ∀ l : List κ, (∀ k ∈ l, k ∈ m) →
      (l.filterMap fun k => (m.lookup k).map (Prod.mk k)).map Prod.fst = l := by
    intro l hl
    induction l with
    | nil => rfl
    | cons k l ih =>
      obtain ⟨v, hv⟩ := Finmap.mem_iff.mp (hl k (by simp))
      rw [List.filterMap_cons, hv]
      simp only [Option.map_some, List.map_cons]
      rw [ih fun k' hk' => hl k' (by simp [hk'])]
  have hks := hfst ks fun k hk => (hmem k).mp hk
  refine ⟨_, ⟨by rw [hks]; exact hnodup, fun k v => ?_⟩, hks⟩
  rw [List.mem_filterMap]
  constructor
  · rintro ⟨k', _, hk'⟩
    obtain ⟨v', hv', heq⟩ := Option.map_eq_some_iff.mp hk'
    cases heq
    exact hv'
  · intro hv
    exact ⟨k, (hmem k).mpr (Finmap.mem_of_lookup_eq_some hv), by
      rw [show m.lookup k = some v from hv]
      rfl⟩

end Lists

end Listing

import Arcon.Data
import Arcon.Lib.Listing
import Arcon.Lib.Ring
import Arcon.Lib.RunningMean
import Arcon.Operator
import Mathlib.Data.List.DropRight
import Mathlib.Order.Bounds.Basic

/-!
# Metrics of a state backend (`arcon_state/src/metered/mod.rs`)

A `Metered` backend measures its operations. `Metrics` keeps the last measurements in a ring, and
`summary` tells the count, the least, the mean and the greatest duration of each operation among
them. The mean is a running one in whole numbers: every measurement costs a truncating division, and
what the divisions drop adds up.

Sums are exact here: `num_pushed` and the products of the mean do not overflow. A `HashMap` is
iterated in any order, so the rows of the summary are any listing of it.

* `pushed_eq`: a ring of at least one place takes every measurement, and keeps the last ones.
* `lookup_summaries`: the row of an operation is made of its durations in order.
* **`summary_exact`**: the counts, minima and maxima of the last measurements, and a mean that is at
  most half the count less one below the true one.
* `summary_mean_off`: durations 0, 1 and 2.
-/

namespace Arcon.State

open Listing

/-- `DataPoint`. A duration is a `u64`. -/
structure DataPoint where
  operation : String
  start : Nat
  duration : Nat
  isU64 : duration ≤ u64Max

/-- `DataPoint::default()`. -/
instance : Inhabited DataPoint := ⟨⟨"", 0, 0, Nat.zero_le _⟩⟩

/-- `Metrics`. -/
structure Metrics where
  numPushed : Nat
  storage : List DataPoint

/-- `Summary`. -/
structure Summary where
  count : Nat
  min : Nat
  avg : Nat
  max : Nat
  deriving DecidableEq, Repr

namespace Summary

/-- The one that is inserted for an operation that has none. -/
def fresh : Summary := ⟨0, u64Max, 0, 0⟩

/-- One more duration. -/
def add (s : Summary) (duration : Nat) : Summary where
  min := Nat.min s.min duration
  max := Nat.max s.max duration
  avg := (s.avg * s.count + duration) / (s.count + 1)
  count := s.count + 1

/-- The row of a summary. -/
def row (operation : String) (s : Summary) : String :=
  "\n" ++ operation.rightpad 25 ++ "\t" ++ toString s.count ++ "\t" ++ toString s.min ++ "\t" ++
    toString s.avg ++ "\t" ++ toString s.max

/-- The summary of some durations, in order. -/
def of (ds : List Nat) : Summary := ds.foldl add fresh

theorem of_snoc (ds : List Nat) (d : Nat) : of (ds ++ [d]) = (of ds).add d := by
  unfold of
  rw [List.foldl_append, List.foldl_cons, List.foldl_nil]

@[simp] theorem of_count (ds : List Nat) : (of ds).count = ds.length := by
  induction ds using List.reverseRecOn with
  | nil => rfl
  | append_singleton ds d ih =>
    rw [of_snoc, List.length_append, List.length_singleton, ← ih]
    rfl

/-- The mean is a running one. -/
theorem of_avg (ds : List Nat) : (of ds).avg = RunningMean.mean ds := by
  induction ds using List.reverseRecOn with
  | nil => rfl
  | append_singleton ds d ih =>
    rw [of_snoc, RunningMean.mean_snoc, ← ih, ← of_count ds]
    rfl

/-- The minimum starts at the greatest number there is. -/
theorem of_min (ds : List Nat) :
    (∀ d ∈ ds, (of ds).min ≤ d) ∧ ((of ds).min ∈ ds ∨ (of ds).min = u64Max) := by
  induction ds using List.reverseRecOn with
  | nil => exact ⟨by simp, .inr rfl⟩
  | append_singleton ds d ih =>
    have hmin : (of (ds ++ [d])).min = Min.min (of ds).min d := by rw [of_snoc]; rfl
    rw [hmin]
    constructor
    · intro e he
      rcases List.mem_append.mp he with he | he
      · exact (Nat.min_le_left _ _).trans (ih.1 e he)
      · rw [List.mem_singleton.mp he]
        exact Nat.min_le_right _ _
    · rcases Nat.le_total (of ds).min d with hle | hle
      · rw [Nat.min_eq_left hle]
        exact ih.2.imp (List.mem_append_left _) id
      · rw [Nat.min_eq_right hle]
        exact .inl (by simp)

/-- The maximum starts at 0. -/
theorem of_max (ds : List Nat) :
    (∀ d ∈ ds, d ≤ (of ds).max) ∧ ((of ds).max ∈ ds ∨ (of ds).max = 0) := by
  induction ds using List.reverseRecOn with
  | nil => exact ⟨by simp, .inr rfl⟩
  | append_singleton ds d ih =>
    have hmax : (of (ds ++ [d])).max = Max.max (of ds).max d := by rw [of_snoc]; rfl
    rw [hmax]
    constructor
    · intro e he
      rcases List.mem_append.mp he with he | he
      · exact (ih.1 e he).trans (Nat.le_max_left _ _)
      · rw [List.mem_singleton.mp he]
        exact Nat.le_max_right _ _
    · rcases Nat.le_total (of ds).max d with hle | hle
      · rw [Nat.max_eq_right hle]
        exact .inl (by simp)
      · rw [Nat.max_eq_left hle]
        exact ih.2.imp (List.mem_append_left _) id

/-- What a summary tells of some durations. -/
structure Describes (s : Summary) (ds : List Nat) : Prop where
  count : s.count = ds.length
  min : IsLeast {d | d ∈ ds} s.min
  max : IsGreatest {d | d ∈ ds} s.max
  /-- The mean is not above the true one. -/
  avg_le : (s.avg : ℚ) ≤ (ds.sum : ℚ) / ds.length
  /-- And it is not further below it than this. -/
  le_avg : (ds.sum : ℚ) / ds.length ≤ s.avg + ((s.count : ℚ) - 1) / 2

/-- **The summary of some durations** describes them. -/
theorem of_describes {ds : List Nat} (hne : ds ≠ []) (hu64 : ∀ d ∈ ds, d ≤ u64Max) :
    Describes (of ds) ds := by
  obtain ⟨d₀, hd₀⟩ := List.exists_mem_of_ne_nil ds hne
  obtain ⟨hlow, hhigh⟩ := RunningMean.mean_error hne
  refine ⟨of_count ds, ⟨?_, (of_min ds).1⟩, ⟨?_, (of_max ds).1⟩, ?_, ?_⟩
  · rcases (of_min ds).2 with hmem | heq
    · exact hmem
    · -- a duration that is not below the first minimum is the first minimum
      have hle := (of_min ds).1 d₀ hd₀
      have hge := hu64 d₀ hd₀
      have : (of ds).min = d₀ := by omega
      exact this ▸ hd₀
  · rcases (of_max ds).2 with hmem | heq
    · exact hmem
    · have hle := (of_max ds).1 d₀ hd₀
      have : (of ds).max = d₀ := by omega
      exact this ▸ hd₀
  · rw [of_avg]
    linarith
  · rw [of_avg, of_count]
    linarith

/-- Whatever the order of the durations is. -/
theorem Describes.perm {s : Summary} {ds ds' : List Nat} (h : s.Describes ds) (hp : ds.Perm ds') :
    s.Describes ds' := by
  have hmem : {d | d ∈ ds} = {d | d ∈ ds'} := by
    ext d
    exact hp.mem_iff
  have hlen := hp.length_eq
  have hsum := hp.sum_eq
  exact ⟨hlen ▸ h.count, hmem ▸ h.min, hmem ▸ h.max, hsum ▸ hlen ▸ h.avg_le, hsum ▸ hlen ▸ h.le_avg⟩

/-- **The bound is attained**: of the durations 0, 1, 2, … the mean is told to be 0. -/
theorem of_range (n : Nat) : (of (List.range n)).avg = 0 := by
  rw [of_avg, RunningMean.mean_range]

end Summary

namespace Metrics

/-- `new`. -/
def new (cap : Nat) : Metrics := ⟨0, List.replicate cap default⟩

/-- `push`. -/
def push (m : Metrics) (dp : DataPoint) : Except Crash Metrics :=
  if m.storage.length = 0 then
    .error (.panic "attempt to calculate the remainder with a divisor of zero")
  else .ok ⟨m.numPushed + 1, m.storage.set (m.numPushed % m.storage.length) dp⟩

/-- `deref`: the measurements that are there. -/
def deref (m : Metrics) : List DataPoint :=
  if m.numPushed > m.storage.length then m.storage else m.storage.take m.numPushed

/-- The map that `summary` builds. -/
def summaries (points : List DataPoint) : AList fun _ : String => Summary :=
  points.foldl (fun acc dp => acc.insert dp.operation
    (((acc.lookup dp.operation).getD .fresh).add dp.duration)) ∅

/-- The text of `summary`, the map being iterated in this order. -/
def text (rows : List (String × Summary)) : String :=
  rows.foldl (fun res r => res ++ r.2.row r.1) ("operation".rightpad 25 ++ "\tcount\tmin\tavg\tmax")

/-- What `summary` may return. -/
def IsSummary (m : Metrics) (res : String) : Prop :=
  ∃ rows, Lists rows (fun op => (summaries m.deref).lookup op) ∧ res = text rows

/-- The measurements of a run. -/
def pushAll (m : Metrics) (points : List DataPoint) : Except Crash Metrics :=
  points.foldlM push m

/-- **The ring takes every measurement**, and keeps the last ones. -/
theorem pushed_eq {cap : Nat} (hcap : 1 ≤ cap) (points : List DataPoint) :
    ∃ ring, (new cap).pushAll points = .ok ⟨points.length, ring⟩ ∧ ring.length = cap ∧
      Ring.Keeps ring points := by
  induction points using List.reverseRecOn with
  | nil => exact ⟨_, rfl, List.length_replicate, Ring.keeps_nil _⟩
  | append_singleton points dp ih =>
    obtain ⟨ring, hrun, hlen, hkeeps⟩ := ih
    refine ⟨ring.set (points.length % ring.length) dp, ?_, ?_, hkeeps.set (by omega) dp⟩
    · unfold pushAll at hrun ⊢
      rw [List.foldlM_append, hrun, List.length_append, List.length_singleton]
      have hne : ring.length ≠ 0 := by omega
      show push ⟨points.length, ring⟩ dp >>= pure = _
      rw [bind_pure, push, if_neg hne]
    · rw [List.length_set, hlen]

/-- **What is there** is the last measurements, in some order. -/
theorem deref_perm {cap : Nat} {ring points : List DataPoint} (hlen : ring.length = cap)
    (hkeeps : Ring.Keeps ring points) :
    (deref ⟨points.length, ring⟩).Perm (points.rtake (min points.length cap)) := by
  unfold deref List.rtake
  rcases Nat.lt_or_ge ring.length points.length with hlt | hge
  · rw [if_pos hlt, ← hlen, Nat.min_eq_right hlt.le, ← hkeeps.rotate hlt.le]
    exact (List.rotate_perm ring points.length).symm
  · rw [if_neg (by simpa using hge), hkeeps.take hge, ← hlen, Nat.min_eq_left hge, Nat.sub_self,
      List.drop_zero]

/-- The durations of an operation. -/
def durations (op : String) (points : List DataPoint) : List Nat :=
  (points.filter fun dp => dp.operation = op).map DataPoint.duration

theorem durations_snoc (op : String) (points : List DataPoint) (dp : DataPoint) :
    durations op (points ++ [dp]) =
      durations op points ++ if dp.operation = op then [dp.duration] else [] := by
  unfold durations
  rw [List.filter_append, List.map_append]
  by_cases hop : dp.operation = op
  · rw [if_pos hop, List.filter_cons_of_pos (by simpa using hop)]
    rfl
  · rw [if_neg hop, List.filter_cons_of_neg (by simpa using hop)]
    rfl

theorem durations_ne_nil {op : String} {points : List DataPoint} :
    durations op points ≠ [] ↔ ∃ dp ∈ points, dp.operation = op := by
  unfold durations
  rw [Ne, List.map_eq_nil_iff, List.filter_eq_nil_iff]
  simp

theorem durations_le {op : String} {points : List DataPoint} :
    ∀ d ∈ durations op points, d ≤ u64Max := by
  intro d hd
  obtain ⟨dp, -, rfl⟩ := List.mem_map.mp hd
  exact dp.isU64

/-- **The row of an operation** is made of its durations. -/
theorem lookup_summaries (points : List DataPoint) (op : String) :
    (summaries points).lookup op =
      if durations op points = [] then none else some (.of (durations op points)) := by
  induction points using List.reverseRecOn with
  | nil => rfl
  | append_singleton points dp ih =>
    have hsnoc : summaries (points ++ [dp]) = (summaries points).insert dp.operation
        ((((summaries points).lookup dp.operation).getD .fresh).add dp.duration) := by
      unfold summaries
      rw [List.foldl_append, List.foldl_cons, List.foldl_nil]
    rw [hsnoc, durations_snoc]
    by_cases hop : dp.operation = op
    · subst hop
      have hget : ((summaries points).lookup dp.operation).getD .fresh =
          .of (durations dp.operation points) := by
        rw [ih]
        by_cases hnil : durations dp.operation points = []
        · rw [if_pos hnil, hnil]
          rfl
        · rw [if_neg hnil]
          rfl
      rw [AList.lookup_insert, hget, if_pos rfl, if_neg (by simp), Summary.of_snoc]
    · rw [AList.lookup_insert_ne (Ne.symm hop), if_neg hop, List.append_nil, ih]

theorem lookup_eq_some {points : List DataPoint} {op : String} {s : Summary} :
    (summaries points).lookup op = some s ↔
      durations op points ≠ [] ∧ .of (durations op points) = s := by
  rw [lookup_summaries]
  by_cases hnil : durations op points = []
  · simp [hnil]
  · simp [hnil]

/-- **The statistics of the last measurements.** For every capacity of at least 1 and every sequence
of measurements: what is there is the last ones, as many as there are places, and in every
text that `summary` may return (there is one), each operation among them has one row. Its count, its
minimum and its maximum are exact, and its mean is not above the true one, and below it by at most
half the count less one. -/
theorem summary_exact {cap : Nat} (hcap : 1 ≤ cap) (points : List DataPoint) :
    ∃ m, (new cap).pushAll points = .ok m ∧
      m.deref.Perm (points.rtake (min points.length cap)) ∧ (∃ res, m.IsSummary res) ∧
      ∀ res, m.IsSummary res → ∃ rows, res = text rows ∧ (rows.map Prod.fst).Nodup ∧
        (∀ op, op ∈ rows.map Prod.fst ↔
          ∃ dp ∈ points.rtake (min points.length cap), dp.operation = op) ∧
        ∀ op s, (op, s) ∈ rows →
          s.Describes (durations op (points.rtake (min points.length cap))) := by
  obtain ⟨ring, hrun, hlen, hkeeps⟩ := pushed_eq hcap points
  have hperm := deref_perm hlen hkeeps
  refine ⟨_, hrun, hperm, ⟨_, _, Lists.of_alist _, rfl⟩, ?_⟩
  rintro _ ⟨rows, hrows, rfl⟩
  have hmem : ∀ op s, (op, s) ∈ rows ↔ _ := fun op s => (hrows.2 op s).trans lookup_eq_some
  refine ⟨rows, rfl, hrows.1, fun op => ?_, fun op s hs => ?_⟩
  · have hthere : (∃ dp ∈ points.rtake (min points.length cap), dp.operation = op) ↔
        ∃ dp ∈ deref ⟨points.length, ring⟩, dp.operation = op := by simp only [hperm.mem_iff]
    rw [hthere, ← durations_ne_nil, List.mem_map]
    constructor
    · rintro ⟨⟨op', s⟩, hs, rfl⟩
      exact ((hmem op' s).mp hs).1
    · intro hne
      exact ⟨(op, _), (hmem op _).mpr ⟨hne, rfl⟩, rfl⟩
  · obtain ⟨hne, rfl⟩ := (hmem op s).mp hs
    exact (Summary.of_describes hne durations_le).perm ((hperm.filter _).map _)

/-- Two places, three measurements: the first is gone. -/
theorem summary_exact_two :
    ∃ m, (new 2).pushAll [⟨"get", 0, 9, by decide⟩, ⟨"get", 1, 4, by decide⟩,
        ⟨"get", 2, 7, by decide⟩] = .ok m ∧
      ∀ res, m.IsSummary res → ∃ rows, res = text rows ∧
        ∀ s, ("get", s) ∈ rows → s.Describes [4, 7] := by
  obtain ⟨m, hm, -, -, hsummary⟩ := summary_exact (show 1 ≤ 2 by decide)
    [⟨"get", 0, 9, by decide⟩, ⟨"get", 1, 4, by decide⟩, ⟨"get", 2, 7, by decide⟩]
  refine ⟨m, hm, fun res hres => ?_⟩
  obtain ⟨rows, htext, -, -, hrows⟩ := hsummary res hres
  exact ⟨rows, htext, fun s hs => hrows "get" s hs⟩

/-- **A mean that is one off.** The durations 0, 1 and 2 have the mean 1, and the running mean of
them is 0: the divisions of 1 by 2 and of 2 by 3 drop all there is. -/
theorem summary_mean_off :
    ∃ m s, (new 3).pushAll [⟨"get", 0, 0, by decide⟩, ⟨"get", 1, 1, by decide⟩,
        ⟨"get", 2, 2, by decide⟩] = .ok m ∧
      (summaries m.deref).lookup "get" = some s ∧ s.avg = 0 ∧
      durations "get" m.deref = [0, 1, 2] ∧ ¬|(s.avg : ℚ) - (0 + 1 + 2) / 3| < 1 := by
  refine ⟨_, ⟨3, 0, 0, 2⟩, rfl, ?_, rfl, rfl, ?_⟩
  · rw [lookup_summaries]
    rfl
  · norm_num

end Metrics

end Arcon.State

import Arcon.Lib.Exec
import Arcon.Lib.Listing
import Arcon.Operator

/-!
# The allocator (`arcon/src/allocator/mod.rs`)

`ArconAllocator` hands out memory of the system allocator up to a limit. It keeps the layout of
every allocation under an identifier, a pair of an epoch and a counter that starts again in every
epoch, and counts the bytes in use.

The system allocator is the pointer it answers with (`mem`), which may be null at will. Sums and
differences are those of a build with overflow checks (they panic) or without (they wrap), and
`usize` has 64 bits. The product of the capacity and the size of an element is a `checked_mul`, and
the request is refused where it does not fit. The sum of the product and the bytes in use is an
ordinary one.

* `alloc_eq`, `dealloc_eq`: what a call does, as long as that sum fits.
* `Sound`: the bytes in use are those of the live allocations, within the limit, and no identifier
  was given twice. Kept by every such call (`Sound.served`, `Sound.returned`).
* **`allocator_accounts`**: all of it, for every run.
* `allocator_overflows`: requests that are refused for their capacity, or that overflow.
-/

namespace Arcon

open Exec Listing

/-- `AllocId`: an epoch and a counter. -/
abbrev AllocId := Nat × Nat

/-- `AllocPtr`, an address; 0 is null. -/
abbrev AllocPtr := Nat

/-- `Layout`. -/
structure Layout where
  size : Nat
  align : Nat
  deriving DecidableEq, Repr

/-- `AllocResult`. -/
inductive AllocResult
  | alloc (id : AllocId) (ptr : AllocPtr)
  | arconOOM (remaining : Nat)
  | systemOOM
  | capacityErr (msg : String)
  deriving DecidableEq, Repr

/-- `ArconAllocator`. -/
structure ArconAllocator where
  allocations : AList fun _ : AllocId => AllocPtr × Layout
  limit : Nat
  allocEpoch : Nat
  allocCounter : Nat
  currAlloc : Nat

namespace ArconAllocator

/-- The code of the allocator. -/
abbrev AllocM := EStateM Crash ArconAllocator

variable (overflowChecks : Bool)

/-- `a + b` on integers up to `max`. -/
def addIn (max a b : Nat) : AllocM Nat :=
  if a + b ≤ max then pure (a + b)
  else if overflowChecks then throw (.panic "attempt to add with overflow")
  else pure ((a + b) % (max + 1))

/-- `a - b` on integers up to `max`. -/
def subIn (max a b : Nat) : AllocM Nat :=
  if b ≤ a then pure (a - b)
  else if overflowChecks then throw (.panic "attempt to subtract with overflow")
  else pure ((a + (max + 1) - b) % (max + 1))

/-- `new`. -/
def new (limit : Nat) : ArconAllocator := ⟨∅, limit, 1, 0, 0⟩

/-- `bytes_remaining`. -/
def bytesRemaining : AllocM Nat := do
  let s ← get
  subIn overflowChecks u64Max s.limit s.currAlloc

/-- `alloc::<T>`, where `size` and `align` are those of `T`. -/
def alloc (size align capacity : Nat) (mem : AllocPtr) : AllocM AllocResult := do
  if capacity = 0 then
    return .capacityErr "Cannot alloc for 0 sized pointer"
  match checkedMul capacity size with
  | none => return .capacityErr "Capacity overflow"
  | some requiredBytes =>
    if (← get).limit < (← addIn overflowChecks u64Max (← get).currAlloc requiredBytes) then
      return .arconOOM (← bytesRemaining overflowChecks)
    let layout : Layout := ⟨requiredBytes, align⟩
    if mem = 0 then
      return .systemOOM
    let currAlloc ← addIn overflowChecks u64Max (← get).currAlloc layout.size
    modify fun s => { s with currAlloc := currAlloc }
    if (← get).allocCounter = u64Max then
      let allocEpoch ← addIn overflowChecks u32Max (← get).allocEpoch 1
      modify fun s => { s with allocEpoch := allocEpoch, allocCounter := 0 }
    let id := (← get).allocCounter
    let allocCounter ← addIn overflowChecks u64Max (← get).allocCounter 1
    modify fun s => { s with allocCounter := allocCounter }
    modify fun s => { s with
      allocations := s.allocations.insert (s.allocEpoch, id) (mem, layout) }
    return .alloc ((← get).allocEpoch, id) mem

/-- `dealloc`. -/
def dealloc (id : AllocId) : AllocM Unit := do
  match (← get).allocations.lookup id with
  | none => pure ()
  | some (_, layout) =>
    modify fun s => { s with allocations := s.allocations.erase id }
    let currAlloc ← subIn overflowChecks u64Max (← get).currAlloc layout.size
    modify fun s => { s with currAlloc := currAlloc }

/-- `allocated_bytes`. -/
def allocatedBytes (a : ArconAllocator) : Nat := a.currAlloc

/-! ## One call -/

/-- The identifier that the next allocation gets. -/
def nextId (a : ArconAllocator) : AllocId :=
  if a.allocCounter = u64Max then (a.allocEpoch + 1, 0) else (a.allocEpoch, a.allocCounter)

/-- The allocator once memory is handed out. -/
def granted (a : ArconAllocator) (mem : AllocPtr) (layout : Layout) : ArconAllocator where
  allocations := a.allocations.insert a.nextId (mem, layout)
  limit := a.limit
  allocEpoch := a.nextId.1
  allocCounter := a.nextId.2 + 1
  currAlloc := a.currAlloc + layout.size

/-- The request is not too large: there is memory for it below the limit. -/
def Admits (a : ArconAllocator) (size capacity : Nat) : Prop :=
  capacity ≠ 0 ∧ capacity * size ≤ u64Max ∧ a.currAlloc + capacity * size ≤ a.limit

/-- The sum of the bytes in use and the bytes of a request fits, if the latter do. -/
def SumFits (a : ArconAllocator) (size capacity : Nat) : Prop :=
  capacity * size ≤ u64Max → a.currAlloc + capacity * size ≤ u64Max

/-- All identifiers have been given. -/
def Exhausted (a : ArconAllocator) : Prop := a.allocCounter = u64Max ∧ a.allocEpoch = u32Max

variable {overflowChecks} {a : ArconAllocator} {size align capacity : Nat} {mem : AllocPtr}

theorem addIn_of_le {max x y : Nat} (h : x + y ≤ max) :
    addIn overflowChecks max x y = pure (x + y) := if_pos h

theorem subIn_of_le {max x y : Nat} (h : y ≤ x) :
    subIn overflowChecks max x y = pure (x - y) := if_pos h

/-- What `alloc` comes to if nothing overflows. -/
def served (a : ArconAllocator) (size align capacity : Nat) (mem : AllocPtr) :
    AllocResult × ArconAllocator :=
  if capacity = 0 then (.capacityErr "Cannot alloc for 0 sized pointer", a)
  else if u64Max < capacity * size then (.capacityErr "Capacity overflow", a)
  else if a.limit < a.currAlloc + capacity * size then (.arconOOM (a.limit - a.currAlloc), a)
  else if mem = 0 then (.systemOOM, a)
  else (.alloc a.nextId mem, a.granted mem ⟨capacity * size, align⟩)

/-- **`alloc`**, where the sum and the epoch fit. -/
theorem alloc_eq (hsum : a.SumFits size capacity) (hle : a.currAlloc ≤ a.limit)
    (hepoch : a.allocEpoch ≤ u32Max) (hcounter : a.allocCounter ≤ u64Max)
    (hids : mem ≠ 0 → a.Admits size capacity → ¬a.Exhausted) :
    alloc overflowChecks size align capacity mem a =
      .ok (a.served size align capacity mem).1 (a.served size align capacity mem).2 := by
  refine eq_ok_of_wp ?_
  unfold alloc bytesRemaining served
  rw [wp_ite]
  refine ⟨fun hzero => ?_, fun hne => ?_⟩
  · rw [if_pos hzero]
    exact ⟨rfl, rfl⟩
  rw [if_neg hne]
  unfold checkedMul
  by_cases hmul : capacity * size ≤ u64Max
  swap
  · rw [if_neg hmul, if_pos (not_le.mp hmul)]
    exact ⟨rfl, rfl⟩
  rw [if_pos hmul, if_neg (not_lt.mpr hmul)]
  have hfits := hsum hmul
  simp only [wp_bind, wp_get, addIn_of_le hfits, subIn_of_le hle, wp_pure, wp_ite, wp_modify]
  refine ⟨fun hlt => ?_, fun hlt => ?_⟩
  · rw [if_pos hlt]
    exact ⟨rfl, rfl⟩
  rw [if_neg hlt]
  refine ⟨fun hmem => ?_, fun hmem => ?_⟩
  · rw [if_pos hmem]
    exact ⟨rfl, rfl⟩
  rw [if_neg hmem]
  unfold granted nextId
  refine ⟨fun hlast => ?_, fun hlast => ?_⟩
  · have hnext : a.allocEpoch + 1 ≤ u32Max := by
      have : a.allocEpoch ≠ u32Max := fun h => hids hmem ⟨hne, hmul, not_lt.mp hlt⟩ ⟨hlast, h⟩
      omega
    rw [addIn_of_le hnext, wp_pure, addIn_of_le (by decide), wp_pure, if_pos hlast]
    exact ⟨rfl, rfl⟩
  · rw [addIn_of_le (by omega), wp_pure, if_neg hlast]
    exact ⟨rfl, rfl⟩

/-- What `dealloc` comes to. -/
def returned (a : ArconAllocator) (id : AllocId) : ArconAllocator :=
  match a.allocations.lookup id with
  | none => a
  | some (_, layout) => { a with
      allocations := a.allocations.erase id, currAlloc := a.currAlloc - layout.size }

/-- **`dealloc`**, where the bytes given back are in use. -/
theorem dealloc_eq {id : AllocId}
    (hle : ∀ ptr layout, a.allocations.lookup id = some (ptr, layout) →
      layout.size ≤ a.currAlloc) :
    dealloc overflowChecks id a = .ok () (a.returned id) := by
  refine eq_ok_of_wp ?_
  unfold dealloc returned
  rw [wp_bind, wp_get]
  cases hlook : a.allocations.lookup id with
  | none => exact ⟨rfl, rfl⟩
  | some entry =>
    obtain ⟨ptr, layout⟩ := entry
    simp only [wp_bind, wp_modify, wp_get, subIn_of_le (hle ptr layout hlook), wp_pure]
    exact ⟨trivial, trivial⟩

/-! ## Runs -/

/-- What the allocator is asked for. -/
inductive Call
  | alloc (size align capacity : Nat) (mem : AllocPtr)
  | dealloc (id : AllocId)

/-- A call with its result. -/
inductive Entry
  | alloc (size capacity : Nat) (result : AllocResult)
  | dealloc (id : AllocId)
  deriving DecidableEq, Repr

/-- One call. -/
def Call.exec (overflowChecks : Bool) : Call → AllocM Entry
  | .alloc size align capacity mem => do
    return .alloc size capacity (← ArconAllocator.alloc overflowChecks size align capacity mem)
  | .dealloc id => do
    ArconAllocator.dealloc overflowChecks id
    return .dealloc id

/-- The identifier that was returned. -/
def Entry.issued? : Entry → Option AllocId
  | .alloc _ _ (.alloc id _) => some id
  | _ => none

/-- All identifiers that were returned. -/
def issued (log : List Entry) : List AllocId := log.filterMap Entry.issued?

/-- What a call does to the live allocations, with the bytes they were asked for. -/
def Entry.update (live : List (AllocId × Nat)) : Entry → List (AllocId × Nat)
  | .alloc size capacity (.alloc id _) => live ++ [(id, capacity * size)]
  | .alloc _ _ _ => live
  | .dealloc id => live.filter fun e => e.1 ≠ id

/-- The live allocations. -/
def live (log : List Entry) : List (AllocId × Nat) := log.foldl Entry.update []

/-- The bytes of the live allocations. -/
def inUse (log : List Entry) : Nat := ((live log).map Prod.snd).sum

/-- The sum of `alloc` and its epoch fit. -/
def Fits (a : ArconAllocator) : Call → Prop
  | .alloc size _ capacity mem => a.SumFits size capacity ∧
      (mem ≠ 0 → a.Admits size capacity → ¬a.Exhausted)
  | .dealloc _ => True

/-- The calls of a run so far, with their results, and the allocator they lead to. -/
inductive Reaches (overflowChecks : Bool) (limit : Nat) : List Entry → ArconAllocator → Prop
  | new : Reaches overflowChecks limit [] (new limit)
  | call {log : List Entry} {a a' : ArconAllocator} {c : Call} {e : Entry} :
      Reaches overflowChecks limit log a → a.Fits c → c.exec overflowChecks a = .ok e a' →
      Reaches overflowChecks limit (log ++ [e]) a'

/-- The bytes in use are those of the live allocations, and no identifier was given twice. -/
structure Sound (limit : Nat) (log : List Entry) (a : ArconAllocator) : Prop where
  limit : a.limit = limit
  lists : Lists (live log) fun id => (a.allocations.lookup id).map fun e => e.2.size
  currAlloc : a.currAlloc = inUse log
  le : a.currAlloc ≤ a.limit
  allocEpoch : a.allocEpoch ≤ u32Max
  allocCounter : a.allocCounter ≤ u64Max
  nodup : (issued log).Nodup
  before : ∀ id ∈ issued log, Prod.Lex (· < ·) (· < ·) id (a.allocEpoch, a.allocCounter)
  known : ∀ id ∈ a.allocations, id ∈ issued log

variable {limit : Nat} {log : List Entry}

theorem issued_snoc (log : List Entry) (e : Entry) :
    issued (log ++ [e]) = issued log ++ e.issued?.toList := by
  unfold issued
  rw [List.filterMap_append]
  cases h : e.issued? <;> simp [h]

theorem live_snoc (log : List Entry) (e : Entry) : live (log ++ [e]) = e.update (live log) := by
  unfold live
  rw [List.foldl_append]
  rfl

theorem sound_new (limit : Nat) : Sound limit [] (new limit) where
  limit := rfl
  lists := ⟨List.nodup_nil, fun k v => by simp [live, new]⟩
  currAlloc := rfl
  le := Nat.zero_le limit
  allocEpoch := by
    show 1 ≤ u32Max
    decide
  allocCounter := Nat.zero_le _
  nodup := List.nodup_nil
  before := by simp [issued]
  known := by simp [new]

/-- A call that was refused. -/
theorem Sound.refused (h : Sound limit log a) {e : Entry} (hissued : e.issued? = none)
    (hlive : e.update (live log) = live log) : Sound limit (log ++ [e]) a := by
  have hi : issued (log ++ [e]) = issued log := by
    rw [issued_snoc, hissued]
    exact List.append_nil _
  have hl : live (log ++ [e]) = live log := by
    rw [live_snoc, hlive]
  have hu : inUse (log ++ [e]) = inUse log := by
    unfold inUse
    rw [hl]
  refine ⟨h.limit, ?_, ?_, h.le, h.allocEpoch, h.allocCounter, ?_, ?_, ?_⟩
  · rw [hl]
    exact h.lists
  · rw [hu]
    exact h.currAlloc
  · rw [hi]
    exact h.nodup
  · rw [hi]
    exact h.before
  · rw [hi]
    exact h.known

/-- The next identifier is new. -/
theorem Sound.nextId_notMem (h : Sound limit log a) : a.nextId ∉ issued log := by
  intro hmem
  have hlex := Prod.lex_def.mp (h.before _ hmem)
  unfold nextId at hlex
  split_ifs at hlex
  · simp only at hlex
    omega
  · simp only at hlex
    omega

/-- Identifiers stay before the counters. -/
theorem lex_granted {id : AllocId} {layout : Layout}
    (h : Prod.Lex (· < ·) (· < ·) id (a.allocEpoch, a.allocCounter)) :
    Prod.Lex (· < ·) (· < ·) id
      ((a.granted mem layout).allocEpoch, (a.granted mem layout).allocCounter) := by
  rw [Prod.lex_def] at h ⊢
  unfold granted nextId
  split_ifs
  · simp only at h ⊢
    omega
  · simp only at h ⊢
    omega

/-- The sizes of the allocations, with the new one. -/
theorem sizes_granted (mem : AllocPtr) (layout : Layout) :
    (fun id => ((a.granted mem layout).allocations.lookup id).map fun e => e.2.size) =
      Function.update (fun id => (a.allocations.lookup id).map fun e => e.2.size) a.nextId
        (some layout.size) := by
  funext id
  unfold granted
  by_cases hid : id = a.nextId
  · subst hid
    rw [Function.update_self, AList.lookup_insert]
    rfl
  · rw [Function.update_of_ne hid, AList.lookup_insert_ne hid]

/-- The counters stay in their types as long as they do not run out. -/
theorem Sound.counters_granted (h : Sound limit log a) (hids : ¬a.Exhausted) {layout : Layout} :
    (a.granted mem layout).allocEpoch ≤ u32Max ∧ (a.granted mem layout).allocCounter ≤ u64Max := by
  have hepoch := h.allocEpoch
  have hcounter := h.allocCounter
  unfold ArconAllocator.granted nextId
  split_ifs with hlast
  · have hne : a.allocEpoch ≠ u32Max := fun he => hids ⟨hlast, he⟩
    refine ⟨?_, show 0 + 1 ≤ u64Max by decide⟩
    simp only
    omega
  · refine ⟨hepoch, ?_⟩
    simp only
    omega

/-- **Memory is handed out.** -/
theorem Sound.granted (h : Sound limit log a) (hadm : a.Admits size capacity)
    (hids : ¬a.Exhausted) :
    Sound limit (log ++ [.alloc size capacity (.alloc a.nextId mem)])
      (a.granted mem ⟨capacity * size, align⟩) := by
  have hnone : a.allocations.lookup a.nextId = none := by
    rw [AList.lookup_eq_none]
    exact fun hmem => h.nextId_notMem (h.known _ hmem)
  have hissued : issued (log ++ [.alloc size capacity (.alloc a.nextId mem)]) =
      issued log ++ [a.nextId] := issued_snoc _ _
  have hlive : live (log ++ [.alloc size capacity (.alloc a.nextId mem)]) =
      live log ++ [(a.nextId, capacity * size)] := live_snoc _ _
  obtain ⟨hepoch, hcounter⟩ := h.counters_granted hids
  refine ⟨h.limit, ?_, ?_, hadm.2.2, hepoch, hcounter, ?_, ?_, ?_⟩
  · rw [hlive, sizes_granted]
    exact h.lists.snoc (by rw [hnone]; rfl) (capacity * size)
  · unfold inUse
    rw [hlive, List.map_append, List.sum_append]
    show a.currAlloc + capacity * size = _
    rw [h.currAlloc]
    rfl
  · rw [hissued]
    exact h.nodup.append (List.nodup_singleton _) (List.disjoint_singleton.mpr h.nextId_notMem)
  · rw [hissued]
    intro id hid
    rcases List.mem_append.mp hid with hid | hid
    · exact lex_granted (h.before id hid)
    · obtain rfl := List.mem_singleton.mp hid
      exact Prod.lex_def.mpr (.inr ⟨rfl, Nat.lt_succ_self _⟩)
  · rw [hissued]
    intro id hid
    rcases (AList.mem_insert a.allocations).mp hid with rfl | hid
    · simp
    · exact List.mem_append_left _ (h.known id hid)

/-- The bytes of a live allocation are in use. -/
theorem Sound.sum_returned (h : Sound limit log a) {id : AllocId} {ptr : AllocPtr}
    {layout : Layout} (hlook : a.allocations.lookup id = some (ptr, layout)) :
    inUse (log ++ [.dealloc id]) + layout.size = a.currAlloc := by
  unfold inUse
  rw [h.currAlloc, live_snoc]
  exact h.lists.sum_filter_ne (by rw [hlook]; rfl)

/-- **Memory is given back**, or the identifier is not live. -/
theorem Sound.returned (h : Sound limit log a) (id : AllocId) :
    Sound limit (log ++ [.dealloc id]) (a.returned id) := by
  unfold ArconAllocator.returned
  split
  · rename_i hnone
    exact h.refused rfl (h.lists.filter_ne_of_none (by rw [hnone]; rfl))
  · rename_i ptr layout hlook
    have hcurr := h.sum_returned hlook
    have hissued : issued (log ++ [.dealloc id]) = issued log := by
      rw [issued_snoc]
      exact List.append_nil _
    refine ⟨h.limit, ?_, ?_, ?_, h.allocEpoch, h.allocCounter, ?_, ?_, ?_⟩
    · have hlists := h.lists.filter fun k => decide (k ≠ id)
      have hlive : live (log ++ [.dealloc id]) = (live log).filter fun e => e.1 ≠ id :=
        live_snoc _ _
      rw [hlive]
      convert hlists using 1
      funext k
      by_cases hk : k = id
      · subst hk
        simp
      · simp [AList.lookup_erase_ne hk, hk]
    · show a.currAlloc - layout.size = _
      omega
    · show a.currAlloc - layout.size ≤ a.limit
      have := h.le
      omega
    · rw [hissued]
      exact h.nodup
    · rw [hissued]
      exact h.before
    · rw [hissued]
      exact fun k hk => h.known k (AList.mem_erase.mp hk).2

/-- **A request**, whatever comes of it. -/
theorem Sound.served (h : Sound limit log a)
    (hids : mem ≠ 0 → a.Admits size capacity → ¬a.Exhausted) :
    Sound limit (log ++ [.alloc size capacity (a.served size align capacity mem).1])
      (a.served size align capacity mem).2 := by
  unfold ArconAllocator.served
  split_ifs with hzero hover hfull hmem
  · exact h.refused rfl rfl
  · exact h.refused rfl rfl
  · exact h.refused rfl rfl
  · exact h.refused rfl rfl
  · have hadm : a.Admits size capacity := ⟨hzero, not_lt.mp hover, not_lt.mp hfull⟩
    exact h.granted hadm (hids hmem hadm)

theorem Sound.alloc_eq (h : Sound limit log a) (hfits : a.Fits (.alloc size align capacity mem)) :
    alloc overflowChecks size align capacity mem a =
      .ok (a.served size align capacity mem).1 (a.served size align capacity mem).2 :=
  ArconAllocator.alloc_eq hfits.1 h.le h.allocEpoch h.allocCounter hfits.2

theorem Sound.dealloc_eq (h : Sound limit log a) (id : AllocId) :
    dealloc overflowChecks id a = .ok () (a.returned id) := by
  refine ArconAllocator.dealloc_eq fun ptr layout hlook => ?_
  have := h.sum_returned hlook
  omega

/-- Every state of a run is sound. -/
theorem Reaches.sound (h : Reaches overflowChecks limit log a) : Sound limit log a := by
  induction h with
  | new => exact sound_new limit
  | @call log a a' c e _ hfits hexec ih =>
    cases c with
    | alloc size align capacity mem =>
      have hrun : (Call.alloc size align capacity mem).exec overflowChecks a = _ :=
        bind_ok (ih.alloc_eq hfits)
      rw [hrun] at hexec
      cases hexec
      exact ih.served hfits.2
    | dealloc id =>
      have hrun : (Call.dealloc id).exec overflowChecks a = _ := bind_ok (ih.dealloc_eq id)
      rw [hrun] at hexec
      cases hexec
      exact ih.returned id

/-- `ArconOOM` is returned for a request that does not fit below the limit. -/
theorem served_arconOOM_iff (hle : a.currAlloc ≤ a.limit) :
    (∃ n, (a.served size align capacity mem).1 = .arconOOM n) ↔
      capacity * size ≤ u64Max ∧ a.limit < a.currAlloc + capacity * size := by
  unfold served
  split_ifs with hzero hover hfull hmem
  · refine iff_of_false (by simp) ?_
    rw [hzero]
    omega
  · exact iff_of_false (by simp) (by omega)
  · exact iff_of_true ⟨_, rfl⟩ (by omega)
  · exact iff_of_false (by simp) (by omega)
  · exact iff_of_false (by simp) (by omega)

/-- `CapacityErr` is returned for no request at all, or for one whose bytes are not a `usize`. -/
theorem served_capacityErr_iff :
    (∃ msg, (a.served size align capacity mem).1 = .capacityErr msg) ↔
      capacity = 0 ∨ u64Max < capacity * size := by
  unfold served
  split_ifs with hzero hover hfull hmem
  · exact iff_of_true ⟨_, rfl⟩ (.inl hzero)
  · exact iff_of_true ⟨_, rfl⟩ (.inr hover)
  · exact iff_of_false (by simp) (by omega)
  · exact iff_of_false (by simp) (by omega)
  · exact iff_of_false (by simp) (by omega)

/-- **The allocator accounts for what it hands out.** In every run of requests and returns, with
any identifiers, in which the sum of the bytes in use and the bytes of a request fits if the latter
do, and the epoch fits: the bytes in use are those of the live allocations and not above the limit,
and no identifier was returned twice. The next call overflows nowhere, so that both builds do the
same; a request is refused for its capacity exactly if this is 0 or its bytes are not a `usize`, and
for the limit exactly if they are and the sum exceeds it. -/
theorem allocator_accounts {overflowChecks : Bool} {limit : Nat} {log : List Entry}
    {a : ArconAllocator} (h : Reaches overflowChecks limit log a) :
    a.allocatedBytes = inUse log ∧ inUse log ≤ limit ∧ (issued log).Nodup ∧
      (∀ checks, bytesRemaining checks a = .ok (limit - inUse log) a) ∧
      (∀ id, ∃ a', ∀ checks, dealloc checks id a = .ok () a') ∧
      ∀ size align capacity mem, a.Fits (.alloc size align capacity mem) →
        ∃ r a', (∀ checks, alloc checks size align capacity mem a = .ok r a') ∧
          ((∃ n, r = .arconOOM n) ↔
            capacity * size ≤ u64Max ∧ limit < inUse log + capacity * size) ∧
          ((∃ msg, r = .capacityErr msg) ↔ capacity = 0 ∨ u64Max < capacity * size) := by
  have hs := h.sound
  obtain rfl := hs.limit
  rw [← hs.currAlloc]
  refine ⟨rfl, hs.le, hs.nodup, fun checks => ?_, fun id => ⟨_, fun checks => hs.dealloc_eq id⟩,
    fun size align capacity mem hfits => ⟨_, _, fun checks => hs.alloc_eq hfits, ?_, ?_⟩⟩
  · refine eq_ok_of_wp ?_
    unfold bytesRemaining
    rw [wp_bind, wp_get, subIn_of_le hs.le]
    exact ⟨rfl, rfl⟩
  · exact served_arconOOM_iff hs.le
  · exact served_capacityErr_iff

/-- An allocator of 1024 bytes that has handed out 100 numbers of 8 bytes. -/
def hundred : ArconAllocator := (new 1024).granted 4096 ⟨800, 8⟩

/-- Its only call so far. -/
def hundredLog : List Entry := [.alloc 8 100 (.alloc (1, 0) 4096)]

theorem reaches_hundred (checks : Bool) : Reaches checks 1024 hundredLog hundred := by
  have hfits : (new 1024).Fits (.alloc 8 8 100 4096) := by
    refine ⟨fun _ => by decide, ?_⟩
    rintro - - ⟨-, hepoch⟩
    exact absurd hepoch (by decide)
  have hserved : (new 1024).served 8 8 100 4096 = (.alloc (1, 0) 4096, hundred) := by
    unfold served
    rw [if_neg (by decide), if_neg (by decide), if_neg (by decide), if_neg (by decide)]
    rfl
  have hrun : (Call.alloc 8 8 100 4096).exec checks (new 1024) = _ :=
    bind_ok ((sound_new 1024).alloc_eq hfits)
  rw [hserved] at hrun
  exact Reaches.call .new hfits hrun

/-- A request of 500 numbers of 4 bytes is then refused, with 224 bytes left. -/
theorem allocator_accounts_hundred :
    (∀ checks, Reaches checks 1024 hundredLog hundred) ∧ inUse hundredLog = 800 ∧
      ∃ r a', (∀ checks, alloc checks 4 4 500 8192 hundred = .ok r a') ∧ ∃ n, r = .arconOOM n := by
  have hfits : hundred.Fits (.alloc 4 4 500 8192) :=
    ⟨fun _ => by decide, fun _ hadm => absurd hadm.2.2 (by decide)⟩
  obtain ⟨-, -, -, -, -, halloc⟩ := allocator_accounts (reaches_hundred true)
  obtain ⟨r, a', hrun, hoom, -⟩ := halloc 4 4 500 8192 hfits
  exact ⟨reaches_hundred, rfl, r, a', hrun, hoom.mpr (by decide)⟩

/-- **Requests that no memory can meet.** A request of 2 ^ 61 numbers of 8 bytes exceeds the limit
and is refused for its capacity, by design. A request of 2 ^ 64 - 1 bytes next to the 800 in use
makes the sum overflow: with overflow checks it panics, and without the request passes for one below
the limit, so that less counts as used than before. -/
theorem allocator_overflows :
    (1024 < inUse [] + 2 ^ 61 * 8 ∧
      alloc true 8 8 (2 ^ 61) 4096 (new 1024) = .ok (.capacityErr "Capacity overflow") (new 1024)) ∧
    ((∀ checks, Reaches checks 1024 hundredLog hundred) ∧ 1024 < inUse hundredLog + u64Max * 1 ∧
      fault? (alloc true 1 1 u64Max 8192 hundred) =
        some (.panic "attempt to add with overflow") ∧
      isOk (alloc false 1 1 u64Max 8192 hundred) = true ∧
      (final (alloc false 1 1 u64Max 8192 hundred)).allocatedBytes = 799) := by
  refine ⟨⟨by decide, ?_⟩, reaches_hundred, by decide, by decide +kernel, by decide +kernel,
    by decide +kernel⟩
  refine eq_ok_of_wp ?_
  unfold alloc
  rw [wp_ite]
  refine ⟨fun hzero => absurd hzero (by decide), fun _ => ?_⟩
  rw [show checkedMul (2 ^ 61) 8 = none from if_neg (by decide)]
  exact ⟨rfl, rfl⟩

end ArconAllocator

end Arcon

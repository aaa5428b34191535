import Arcon.Lib.Footprint
import Arcon.State.FasterOps

/-!
# States do not touch each other on Faster

Every operation of a handle works on keys that start with the key of the handle. For a state with
one record that is plain from the code. A map reads its own keys back out of the store, from the key
list, and `map_clear` and the iterators go wherever the list says: so a map is confined to its part
of the key space as long as its list has only keys of that part, which is what `Indexed` says and
every operation keeps.

* **`confined_exec`**: every call of a slot is confined to the keys of the slot.
* **`keys_apart_isolated`**: the keys of a schema are apart, and in every run of calls on any slots,
  what one slot returns and holds is what it does in the run of its own calls alone.
-/

namespace Arcon.State

open FixedBytes Footprint

/-! ## The part of a handle -/

section part

variable {IK N : Type} [FixedBytes IK] [FixedBytes N]

theorem Handle.idMetakeys_mem (h : Handle IK N) : h.idMetakeys ∈ h.region := List.prefix_refl _

theorem Handle.entry_mem (h : Handle IK N) (b : Bytes) : h.idMetakeys ++ b ∈ h.region :=
  List.prefix_append _ _

/-- A record that stands for a list of keys of the handle, or for none. -/
def Handle.IndexRecord (h : Handle IK N) (r : Option FasterRecord) : Prop :=
  ∀ v l, r = some (.vecOps v) → v.elems = .ok l → ∀ x ∈ l, x ∈ h.region

/-- The key list of a map has only keys of the map. -/
def Faster.Indexed (h : Handle IK N) (isMap : Bool) (f : Faster) : Prop :=
  isMap = true → h.IndexRecord (f.db h.idMetakeys)

/-- Stores that look alike to a handle. -/
abbrev LooksAlike (h : Handle IK N) (isMap : Bool) :=
  Alike Faster.db h.region (Faster.Indexed h isMap)

/-- Outcomes that look alike to a handle. -/
abbrev SameCourse {α : Type} (h : Handle IK N) (isMap : Bool) (f g : Faster)
    (x y : Result (Faster × α)) : Prop :=
  Matched Faster.db h.region (Faster.Indexed h isMap) f g x y

variable {h : Handle IK N} {isMap : Bool} {f g : Faster}

namespace LooksAlike

theorem db_eq (hfg : LooksAlike h isMap f g) {x : Bytes} (hx : x ∈ h.region) : f.db x = g.db x :=
  hfg.eqOn hx

theorem get_eq (hfg : LooksAlike h isMap f g) {x : Bytes} (hx : x ∈ h.region) :
    f.get x = g.get x := by
  unfold Faster.get
  rw [hfg.db_eq hx]

theorem getVec_eq (hfg : LooksAlike h isMap f g) {x : Bytes} (hx : x ∈ h.region) :
    f.getVec x = g.getVec x := by
  unfold Faster.getVec
  rw [hfg.db_eq hx]

theorem getAgg_eq (hfg : LooksAlike h isMap f g) {x : Bytes} (hx : x ∈ h.region) :
    f.getAgg x = g.getAgg x := by
  unfold Faster.getAgg
  rw [hfg.db_eq hx]

end LooksAlike

theorem Faster.set_eqOn_compl {x : Bytes} (hx : x ∈ h.region) (r : Option FasterRecord) :
    Set.EqOn (f.set x r).db f.db h.regionᶜ := by
  intro y hy
  have hne : y ≠ x := fun heq => hy (heq ▸ hx)
  simp [Faster.set, hne]

/-- A write of one record of the handle; of a map, the record of the key list has to stand for a
list of its keys. -/
theorem LooksAlike.set (hfg : LooksAlike h isMap f g) {x : Bytes} {r : Option FasterRecord}
    (hr : isMap = true → x = h.idMetakeys → h.IndexRecord r) :
    LooksAlike h isMap (f.set x r) (g.set x r) := by
  have hkeeps : ∀ f' : Faster, f'.Indexed h isMap → (f'.set x r).Indexed h isMap := by
    intro f' hf' hm
    by_cases hx : h.idMetakeys = x
    · simpa [Faster.set, hx] using hr hm hx.symm
    · simpa [Faster.set, hx] using hf' hm
  refine ⟨fun y hy => ?_, hkeeps f hfg.left, hkeeps g hfg.right⟩
  by_cases hyx : y = x
  · simp [Faster.set, hyx]
  · simpa [Faster.set, hyx] using hfg.eqOn hy

namespace SameCourse

variable {α : Type}

/-- A write in front of the rest. -/
theorem set {x : Bytes} {r : Option FasterRecord} {X Y : Result (Faster × α)}
    (hx : x ∈ h.region) (hXY : SameCourse h isMap (f.set x r) (g.set x r) X Y) :
    SameCourse h isMap f g X Y :=
  Matched.after (Faster.set_eqOn_compl hx r) (Faster.set_eqOn_compl hx r) hXY

/-- A write at the end. -/
theorem set_ok {x : Bytes} {r : Option FasterRecord} (hfg : LooksAlike h isMap f g)
    (hx : x ∈ h.region) (hr : isMap = true → x = h.idMetakeys → h.IndexRecord r) (a : α) :
    SameCourse h isMap f g (.ok (f.set x r, a)) (.ok (g.set x r, a)) :=
  set hx (.unchanged (hfg.set hr) a)

/-- An operation that only reads, and reads the same. -/
theorem readOnly (hfg : LooksAlike h isMap f g) {r r' : Result α} (heq : r = r') :
    SameCourse h isMap f g (State.readOnly f r) (State.readOnly g r') := by
  subst heq
  exact Matched.bind_same fun c _ => .unchanged hfg c

end SameCourse

end part

/-! ## Changes inside the store -/

namespace Faster

/-- The record that `rmw` leaves. -/
def rmwRecord (modification : FasterVecOps) : Option FasterRecord → Result FasterRecord
  | none => .ok (.vecOps modification)
  | some (.vecOps old) => do
    let new ← old.rmw modification
    pure (.vecOps new)
  | some (.bytes _) | some (.agg _) => .error (.panic "not a list")

theorem rmw_eq (f : Faster) (x : Bytes) (m : FasterVecOps) :
    f.rmw x m = (rmwRecord m (f.db x) >>= fun r => pure (f.set x (some r))) := by
  unfold rmw rmwRecord
  cases f.db x with
  | none => rfl
  | some r =>
    cases r with
    | vecOps old => simp only; cases old.rmw m <;> rfl
    | bytes b => rfl
    | agg a => rfl

/-- The record that `aggregate` leaves. -/
def aggregateRecord (fns : String → Option AggregatorFn) (new : Bytes) (id : String)
    (r : Option FasterRecord) : Result FasterRecord :=
  match fns id with
  | none => .error (.panic "aggregate fn missing; handle not registered?")
  | some fn =>
    match r with
    | none => .ok (.agg (.modify new id))
    | some (.agg old) => do
      let res ← old.rmw new fn
      pure (.agg res)
    | some (.bytes _) | some (.vecOps _) => .error (.panic "not an aggregate")

theorem aggregate_eq (f : Faster) (fns : String → Option AggregatorFn) (x new : Bytes)
    (id : String) :
    f.aggregate fns x new id =
      (aggregateRecord fns new id (f.db x) >>= fun r => pure (f.set x (some r))) := by
  unfold aggregate aggregateRecord
  cases fns id with
  | none => rfl
  | some fn =>
    cases f.db x with
    | none => rfl
    | some r =>
      cases r with
      | agg old => simp only; cases old.rmw new fn <;> rfl
      | bytes b => rfl
      | vecOps v => rfl

end Faster

section calls

variable {IK N : Type} [FixedBytes IK] [FixedBytes N] {h : Handle IK N} {f g : Faster}

/-- What changes the key list of a map: an entry key of the map comes or goes. -/
def IndexChange (h : Handle IK N) (m : FasterVecOps) : Prop :=
  ∃ x ∈ h.region, m = .pushIfAbsent x ∨ m = .remove x

/-- Such a change leaves a list of keys of the map. -/
theorem indexRecord_rmw {m : FasterVecOps} (hm : IndexChange h m) {r : Option FasterRecord}
    {r' : FasterRecord} (hr : h.IndexRecord r) (hrmw : Faster.rmwRecord m r = .ok r') :
    h.IndexRecord (some r') := by
  obtain ⟨x, hx, hm⟩ := hm
  intro v l hv hl y hy
  cases hv
  cases r with
  | none =>
    cases hrmw
    rcases hm with rfl | rfl
    · cases hl
      rw [List.mem_singleton] at hy
      exact hy ▸ hx
    · cases hl
  | some old =>
    cases old with
    | bytes b => cases hrmw
    | agg a => cases hrmw
    | vecOps old =>
      have hold := hr old
      cases helems : old.elems with
      | error e =>
        simp only [Faster.rmwRecord, FasterVecOps.rmw, helems] at hrmw
        cases hrmw
      | ok res =>
        have hres : ∀ z ∈ res, z ∈ h.region := hold res rfl helems
        rcases hm with rfl | rfl
        · simp only [Faster.rmwRecord, FasterVecOps.rmw, helems, ok_bind, pure_eq_ok] at hrmw
          cases hrmw
          cases hl
          split_ifs at hy with hin
          · exact hres y hy
          · rcases List.mem_append.mp hy with hy | hy
            · exact hres y hy
            · rw [List.mem_singleton] at hy
              exact hy ▸ hx
        · simp only [Faster.rmwRecord, FasterVecOps.rmw_remove helems, ok_bind, pure_eq_ok] at hrmw
          cases hrmw
          cases hl
          exact hres y (List.mem_of_mem_erase hy)

/-! ### States with one record -/

namespace LooksAlike

variable (hfg : LooksAlike h false f g)
include hfg

/-- Setting the record of the handle to something that was computed from it. -/
theorem update {α γ : Type} {x : Result γ} (r : γ → Option FasterRecord) (a : γ → α) :
    SameCourse h false f g
      (x >>= fun c => .ok (f.set h.idMetakeys (r c), a c))
      (x >>= fun c => .ok (g.set h.idMetakeys (r c), a c)) :=
  Matched.bind_same fun c _ =>
    SameCourse.set_ok hfg h.idMetakeys_mem (fun hm => by cases hm) (a c)

theorem rmw (m : FasterVecOps) :
    SameCourse h false f g (noReply (f.rmw h.idMetakeys m)) (noReply (g.rmw h.idMetakeys m)) := by
  simp only [noReply, Faster.rmw_eq, hfg.db_eq h.idMetakeys_mem, bind_assoc, pure_eq_ok, ok_bind]
  exact hfg.update (fun r => some r) fun _ => ()

theorem aggregate (fns : String → Option AggregatorFn) (new : Bytes) (id : String) :
    SameCourse h false f g (noReply (f.aggregate fns h.idMetakeys new id))
      (noReply (g.aggregate fns h.idMetakeys new id)) := by
  simp only [noReply, Faster.aggregate_eq, hfg.db_eq h.idMetakeys_mem, bind_assoc, pure_eq_ok,
    ok_bind]
  exact hfg.update (fun r => some r) fun _ => ()

variable [LawfulFixedBytes IK] [LawfulFixedBytes N]

theorem clear : SameCourse h false f g (noReply (f.clear h)) (noReply (g.clear h)) := by
  simp only [noReply, Faster.clear, Handle.serializeIdAndMetakeys_eq, ok_bind, pure_eq_ok]
  exact SameCourse.set_ok hfg h.idMetakeys_mem (fun hm => by cases hm) ()

end LooksAlike

variable [LawfulFixedBytes IK] [LawfulFixedBytes N]

/-- Values. -/
theorem ValueCall.confined {T : Type} [Message T] (c : ValueCall T) :
    Confined Faster.db h.region (Faster.Indexed h false) fun f => c.exec h f := by
  intro f g hfg
  have hget := LooksAlike.get_eq hfg h.idMetakeys_mem
  cases c with
  | clear => exact LooksAlike.clear hfg
  | get =>
    refine SameCourse.readOnly hfg ?_
    simp only [Faster.valueGet, Handle.serializeIdAndMetakeys_eq, ok_bind, hget]
    rfl
  | set value =>
    simp only [exec, Faster.valueSet, Handle.serializeIdAndMetakeys_eq, ok_bind, hget, pure_eq_ok]
    refine Matched.bind_same fun stored _ => ?_
    exact LooksAlike.update hfg (fun _ => some (.bytes (protobuf.serialize value))) fun old => old
  | fastSet value =>
    simp only [exec, noReply, Faster.valueFastSet, Handle.serializeIdAndMetakeys_eq, ok_bind,
      pure_eq_ok]
    exact SameCourse.set_ok hfg h.idMetakeys_mem (fun hm => by cases hm) ()

/-- Lists. -/
theorem VecCall.confined {T : Type} [Message T] (c : VecCall T) :
    Confined Faster.db h.region (Faster.Indexed h false) fun f => c.exec h f := by
  intro f g hfg
  have hget := LooksAlike.getVec_eq hfg h.idMetakeys_mem
  cases c with
  | clear => exact LooksAlike.clear hfg
  | append value =>
    simp only [exec, Faster.vecAppend, Handle.serializeIdAndMetakeys_eq, ok_bind]
    exact LooksAlike.rmw hfg _
  | get =>
    refine SameCourse.readOnly hfg ?_
    simp only [Faster.vecGet, Handle.serializeIdAndMetakeys_eq, ok_bind, hget]
    rfl
  | iter =>
    refine SameCourse.readOnly hfg ?_
    simp only [Faster.vecIter, Handle.serializeIdAndMetakeys_eq, ok_bind, hget]
    rfl
  | set value =>
    simp only [exec, noReply, Faster.vecSetAll, Handle.serializeIdAndMetakeys_eq, ok_bind,
      pure_eq_ok]
    exact SameCourse.set_ok hfg h.idMetakeys_mem (fun hm => by cases hm) ()
  | addAll values =>
    simp only [exec, Faster.vecAddAll, Handle.serializeIdAndMetakeys_eq, ok_bind]
    exact LooksAlike.rmw hfg _
  | len =>
    refine SameCourse.readOnly hfg ?_
    simp only [Faster.vecLen, Handle.serializeIdAndMetakeys_eq, ok_bind, hget]
    rfl
  | isEmpty =>
    refine SameCourse.readOnly hfg ?_
    simp only [Faster.vecIsEmpty, Handle.serializeIdAndMetakeys_eq, ok_bind, hget]
    rfl

/-- Reducers. -/
theorem AggCall.confined_reducer {T : Type} [Message T] (fns : String → Option AggregatorFn)
    (c : AggCall T) :
    Confined Faster.db h.region (Faster.Indexed h false) fun f => c.execReducer h fns f := by
  intro f g hfg
  cases c with
  | clear => exact LooksAlike.clear hfg
  | get =>
    refine SameCourse.readOnly hfg ?_
    simp only [Faster.reducerGet, Handle.serializeIdAndMetakeys_eq, ok_bind,
      LooksAlike.getAgg_eq hfg h.idMetakeys_mem]
    rfl
  | add value =>
    simp only [execReducer, Faster.reducerReduce, Handle.serializeIdAndMetakeys_eq, ok_bind]
    exact LooksAlike.aggregate hfg fns _ h.id

/-- Aggregators. -/
theorem AggCall.confined_aggregator (A : Aggregator) (fns : String → Option AggregatorFn)
    (c : AggCall A.Input) :
    Confined Faster.db h.region (Faster.Indexed h false) fun f => c.execAggregator h A fns f := by
  intro f g hfg
  cases c with
  | clear => exact LooksAlike.clear hfg
  | get =>
    refine SameCourse.readOnly hfg ?_
    simp only [Faster.aggregatorGet, Handle.serializeIdAndMetakeys_eq, ok_bind,
      LooksAlike.getAgg_eq hfg h.idMetakeys_mem]
    rfl
  | add value =>
    simp only [execAggregator, Faster.aggregatorAggregate, Handle.serializeIdAndMetakeys_eq,
      ok_bind]
    exact LooksAlike.aggregate hfg fns _ h.id

/-! ### Maps -/

namespace LooksAlike

variable (hfg : LooksAlike h true f g)
include hfg

omit [LawfulFixedBytes IK] [LawfulFixedBytes N]

/-- A change of the key list. -/
theorem rmw_index {α : Type} {m : FasterVecOps} (hm : IndexChange h m) (a : α) :
    SameCourse h true f g (f.rmw h.idMetakeys m >>= fun f' => .ok (f', a))
      (g.rmw h.idMetakeys m >>= fun g' => .ok (g', a)) := by
  simp only [Faster.rmw_eq, hfg.db_eq h.idMetakeys_mem, bind_assoc, pure_eq_ok, ok_bind]
  refine Matched.bind_same fun r hr => ?_
  refine SameCourse.set_ok hfg h.idMetakeys_mem (fun _ _ => ?_) a
  exact indexRecord_rmw hm (hfg.right rfl) hr

/-- An entry is written or removed, and the key list is changed. -/
theorem entry_index {α : Type} {b : Bytes} (hb : b ≠ []) {r : Option FasterRecord}
    {m : FasterVecOps} (hm : IndexChange h m) (a : α) :
    SameCourse h true f g
      ((f.set (h.idMetakeys ++ b) r).rmw h.idMetakeys m >>= fun f' => .ok (f', a))
      ((g.set (h.idMetakeys ++ b) r).rmw h.idMetakeys m >>= fun g' => .ok (g', a)) := by
  refine SameCourse.set (r := r) (h.entry_mem b) ?_
  exact rmw_index (hfg.set fun _ heq => absurd (List.append_right_eq_self.mp heq) hb) hm a

/-- The keys in the list are keys of the map. -/
theorem keys_mem {keys : Option (List Bytes)} (hkeys : g.getVec h.idMetakeys = .ok keys) :
    ∀ x ∈ keys.getD [], x ∈ h.region := by
  have hindex := hfg.right rfl
  intro x hx
  unfold Faster.getVec at hkeys
  cases hdb : g.db h.idMetakeys with
  | none =>
    rw [hdb] at hkeys
    cases hkeys
    cases hx
  | some r =>
    rw [hdb] at hkeys
    cases r with
    | bytes b => cases hkeys
    | agg a => cases hkeys
    | vecOps v =>
      cases helems : v.elems with
      | error e => simp only [helems] at hkeys; cases hkeys
      | ok l =>
        simp only [helems, ok_bind, pure_eq_ok] at hkeys
        cases hkeys
        exact hindex v l hdb helems x hx

/-- What an iterator reads for one key of the list. -/
theorem getPresent_eq {x : Bytes} (hx : x ∈ h.region) : f.getPresent x = g.getPresent x := by
  unfold Faster.getPresent
  rw [hfg.get_eq hx]

/-- An iterator over the key list. -/
theorem iterate {α : Type} {F G : Bytes → α} (hFG : ∀ x ∈ h.region, F x = G x) :
    (g.getVec h.idMetakeys >>= fun keys => (.ok ((keys.getD []).map F) : Result (List α))) =
      g.getVec h.idMetakeys >>= fun keys => .ok ((keys.getD []).map G) := by
  cases hkeys : g.getVec h.idMetakeys with
  | error e => rfl
  | ok keys =>
    simp only [ok_bind]
    congr 1
    exact List.map_congr_left fun x hx => hFG x (hfg.keys_mem hkeys x hx)

variable [LawfulFixedBytes IK] [LawfulFixedBytes N] {K V : Type} [Message K] [Message V]

/-- The removals of `map_clear`. -/
theorem mapClear : SameCourse h true f g (noReply (f.mapClear h)) (noReply (g.mapClear h)) := by
  simp only [noReply, Faster.mapClear, Handle.serializeIdAndMetakeys_eq, ok_bind,
    hfg.getVec_eq h.idMetakeys_mem, bind_assoc]
  refine Matched.bind_same fun keys hkeys => ?_
  have hmem := hfg.keys_mem hkeys
  cases keys with
  | none => exact .unchanged hfg ()
  | some keys =>
    rw [Option.getD_some] at hmem
    -- everything that is removed is a key of the map
    have hcompl : ∀ f' : Faster,
        Set.EqOn (keys.foldl Faster.remove (f'.remove h.idMetakeys)).db f'.db h.regionᶜ := by
      intro f' x hx
      have hne : x ≠ h.idMetakeys := fun heq => hx (heq ▸ h.idMetakeys_mem)
      rw [Faster.foldl_remove_db, if_neg fun hin => hx (hmem x hin)]
      simp [Faster.remove, Faster.set, hne]
    have hindexed : ∀ f' : Faster,
        (keys.foldl Faster.remove (f'.remove h.idMetakeys)).Indexed h true := by
      intro f' _ v l hv
      rw [Faster.foldl_remove_db] at hv
      simp [Faster.remove, Faster.set] at hv
    refine .ok () ⟨fun x hx => ?_, hindexed f, hindexed g⟩ (hcompl f) (hcompl g)
    rw [Faster.foldl_remove_db, Faster.foldl_remove_db]
    by_cases hx₀ : x = h.idMetakeys
    · simp [Faster.remove, Faster.set, hx₀]
    · simp [Faster.remove, Faster.set, hx₀, hfg.db_eq hx]

variable [LawfulMessage K]

theorem mapFastInsert (key : K) (value : V) :
    SameCourse h true f g (noReply (f.mapFastInsert h key value))
      (noReply (g.mapFastInsert h key value)) := by
  simp only [noReply, Faster.mapFastInsert, Handle.serializeIdMetakeysAndKey_eq,
    Handle.serializeIdAndMetakeys_eq, ok_bind]
  exact hfg.entry_index (LawfulMessage.encode_ne_nil key) ⟨_, h.entry_mem _, .inl rfl⟩ ()

/-- `map_insert_all`, by induction over the pairs. -/
theorem mapInsertAll (pairs : List (K × V)) :
    SameCourse h true f g (noReply (Faster.mapInsertAll h f pairs))
      (noReply (Faster.mapInsertAll h g pairs)) := by
  have hcons : ∀ (f' : Faster) (p : K × V) (ps : List (K × V)),
      noReply (Faster.mapInsertAll h f' (p :: ps)) =
        noReply (f'.mapFastInsert h p.1 p.2) >>= fun r =>
          noReply (Faster.mapInsertAll h r.1 ps) := by
    intro f' p ps
    simp only [noReply, Faster.mapInsertAll, List.foldlM_cons, bind_assoc, pure_eq_ok, ok_bind]
  induction pairs generalizing f g with
  | nil => exact .unchanged hfg ()
  | cons p ps ih =>
    rw [hcons, hcons]
    exact (hfg.mapFastInsert p.1 p.2).bind fun _ _ _ halike => ih halike

end LooksAlike

/-- Maps. -/
theorem MapCall.confined {K V : Type} [Message K] [LawfulMessage K] [Message V]
    (c : MapCall K V) :
    Confined Faster.db h.region (Faster.Indexed h true) fun f => c.exec h f := by
  intro f g hfg
  have hindex := LooksAlike.getVec_eq hfg h.idMetakeys_mem
  have hget : ∀ key : K, f.get (h.idMetakeys ++ protobuf.serialize key) =
      g.get (h.idMetakeys ++ protobuf.serialize key) := fun key =>
    LooksAlike.get_eq hfg (h.entry_mem _)
  cases c with
  | clear => exact LooksAlike.mapClear hfg
  | get key =>
    refine SameCourse.readOnly hfg ?_
    simp only [Faster.mapGet, Handle.serializeIdMetakeysAndKey_eq, ok_bind, hget]
    rfl
  | fastInsert key value => exact LooksAlike.mapFastInsert hfg key value
  | insert key value =>
    simp only [exec, Faster.mapInsert, Handle.serializeIdMetakeysAndKey_eq,
      Handle.serializeIdAndMetakeys_eq, ok_bind, hget]
    refine Matched.bind_same fun stored _ => Matched.bind_same fun old _ => ?_
    exact LooksAlike.entry_index hfg (LawfulMessage.encode_ne_nil key)
      ⟨_, h.entry_mem _, .inl rfl⟩ old
  | insertAll pairs => exact LooksAlike.mapInsertAll hfg pairs
  | remove key =>
    simp only [exec, Faster.mapRemove, Handle.serializeIdMetakeysAndKey_eq,
      Handle.serializeIdAndMetakeys_eq, ok_bind, hget]
    refine Matched.bind_same fun stored _ => Matched.bind_same fun old _ => ?_
    exact LooksAlike.entry_index hfg (LawfulMessage.encode_ne_nil key)
      ⟨_, h.entry_mem _, .inr rfl⟩ old
  | fastRemove key =>
    simp only [exec, noReply, Faster.mapFastRemove, Handle.serializeIdMetakeysAndKey_eq,
      Handle.serializeIdAndMetakeys_eq, ok_bind]
    exact LooksAlike.entry_index hfg (LawfulMessage.encode_ne_nil key)
      ⟨_, h.entry_mem _, .inr rfl⟩ ()
  | contains key =>
    refine SameCourse.readOnly hfg ?_
    simp only [Faster.mapContains, Handle.serializeIdMetakeysAndKey_eq, ok_bind, hget]
    rfl
  | iter =>
    refine SameCourse.readOnly hfg ?_
    simp only [Faster.mapIter, Handle.serializeIdAndMetakeys_eq, ok_bind, hindex, pure_eq_ok]
    exact LooksAlike.iterate hfg fun x hx => by rw [LooksAlike.getPresent_eq hfg hx]
  | keys =>
    refine SameCourse.readOnly hfg ?_
    simp only [Faster.mapKeys, Handle.serializeIdAndMetakeys_eq, ok_bind, hindex]
    rfl
  | values =>
    refine SameCourse.readOnly hfg ?_
    simp only [Faster.mapValues, Handle.serializeIdAndMetakeys_eq, ok_bind, hindex, pure_eq_ok]
    exact LooksAlike.iterate hfg fun x hx => by rw [LooksAlike.getPresent_eq hfg hx]
  | len =>
    refine SameCourse.readOnly hfg ?_
    simp only [Faster.mapLen, Handle.serializeIdAndMetakeys_eq, ok_bind, hindex]
    rfl
  | isEmpty =>
    refine SameCourse.readOnly hfg ?_
    simp only [Faster.mapIsEmpty, Handle.serializeIdAndMetakeys_eq, ok_bind, hindex]
    rfl

end calls

/-! ## All slots together -/

/-- A call on one slot. -/
structure SlotCall (S : Schema) where
  slot : Slot S
  call : (S.state slot.id).Call

namespace SlotCall

variable {S : Schema}

/-- What it returns. -/
abbrev Reply (o : SlotCall S) : Type := (S.state o.slot.id).Reply o.call

/-- The call on a store, after all handles are registered. -/
def exec (o : SlotCall S) (f : Faster) : Result (Faster × o.Reply) :=
  StateType.exec o.slot.handle (fun id => (S.state id).aggregateFn) f (S.state o.slot.id) o.call

end SlotCall

/-- The states with a key list. -/
def StateType.isMap : StateType → Bool
  | map _ _ => true
  | value _ | vec _ | reducer _ _ | aggregator _ => false

/-- **Every call of a handle is confined to the keys of the handle.** -/
theorem confined_exec {IK N : Type} [FixedBytes IK] [FixedBytes N] [LawfulFixedBytes IK]
    [LawfulFixedBytes N] (h : Handle IK N) (fns : String → Option AggregatorFn) (st : StateType)
    (c : st.Call) :
    Confined Faster.db h.region (Faster.Indexed h st.isMap) fun f => st.exec h fns f c := by
  cases st with
  | value T => exact ValueCall.confined c
  | map K V => exact MapCall.confined c
  | vec T => exact VecCall.confined c
  | reducer T reduce => exact AggCall.confined_reducer fns c
  | aggregator A => exact AggCall.confined_aggregator A fns c

section runs

variable (S : Schema)

/-- Calls on a new store. -/
abbrev Faster.runCalls (ops : List (SlotCall S)) :
    Result (Faster × List (Σ o : SlotCall S, o.Reply)) :=
  Footprint.run SlotCall.exec Faster.create ops

variable {S} in
theorem indexed_local (s : Slot S) (b : Bool) (f g : Faster)
    (heq : Set.EqOn f.db g.db s.handle.region) (hf : f.Indexed s.handle b) :
    g.Indexed s.handle b := by
  intro hb
  rw [← heq s.handle.idMetakeys_mem]
  exact hf hb

/-- What the slots of a schema see of each other on Faster. -/
structure Isolated : Prop where
  /-- A call leaves the data of every other slot as it is. -/
  writes : ∀ ops f log (o : SlotCall S) f' r, Faster.runCalls S ops = .ok (f, log) →
    o.exec f = .ok (f', r) → ∀ t : Slot S, t ≠ o.slot →
      ∀ key ∈ t.handle.region, f'.db key = f.db key
  /-- What a slot returns and holds after a run is what it does after its own calls alone. -/
  reads : ∀ ops f log (s : Slot S), Faster.runCalls S ops = .ok (f, log) →
    ∃ g, Faster.runCalls S (ops.filter (·.slot = s)) = .ok (g, log.filter (·.1.slot = s)) ∧
      ∀ key ∈ s.handle.region, f.db key = g.db key
  /-- A run fails only if the calls of one slot alone do. -/
  failures : ∀ ops, (∀ s : Slot S, ∃ out, Faster.runCalls S (ops.filter (·.slot = s)) = .ok out) →
    ∃ out, Faster.runCalls S ops = .ok out

theorem isolated : Isolated S := by
  have hdisj : ∀ s t : Slot S, s ≠ t → Disjoint s.handle.region t.handle.region :=
    fun _ _ => Slot.region_disjoint
  have hconf : ∀ o : SlotCall S, Confined Faster.db o.slot.handle.region
      (Faster.Indexed o.slot.handle (S.state o.slot.id).isMap) o.exec :=
    fun o => confined_exec o.slot.handle _ (S.state o.slot.id) o.call
  have hlocal := fun s : Slot S => indexed_local s (S.state s.id).isMap
  have hinit : ∀ s : Slot S, Faster.create.Indexed s.handle (S.state s.id).isMap := by
    intro s _ v l hv
    cases hv
  refine ⟨fun ops f log o f' r hrun hstep t hne key hkey => ?_, fun ops f log s hrun => ?_,
    fun ops halone => ?_⟩
  · -- the run reaches a store in which the list of the slot is in order
    obtain ⟨g, _, halike⟩ := run_purge hdisj hlocal hconf o.slot ops hinit
      (.refl (hinit o.slot)) hrun
    exact step_other (I := fun s => Faster.Indexed s.handle (S.state s.id).isMap) hdisj hconf
      halike.left hstep hne.symm hkey
  · obtain ⟨g, hg, halike⟩ := run_purge hdisj hlocal hconf s ops hinit (.refl (hinit s)) hrun
    exact ⟨g, hg, fun key hkey => halike.eqOn hkey⟩
  · exact run_interleave hdisj hlocal hconf ops (t := fun _ => Faster.create) hinit
      (fun s => .refl (hinit s)) halone

/-- **Storage keys never collide.** For every schema, the key functions give different slots and
entries different keys, the entries of a slot are those under its prefix, and on Faster no call of
one slot reads or changes what belongs to another. -/
theorem keys_apart_isolated : KeysApart S ∧ Isolated S := ⟨keysApart S, isolated S⟩

end runs

end Arcon.State

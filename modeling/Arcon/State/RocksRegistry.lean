import Arcon.State.VecOps
import Mathlib.Data.List.Induction

/-!
# Registering states with Rocks (`rocks/mod.rs`)

RocksDB has to be opened with all column families it has, each with its options, and the options are
known only when the states are registered. So a `Rocks` on a database with column families starts
`Uninitialized`: registrations are collected until none of the column families of the database is
unknown, and then the database is opened. On a database without any the backend is `Initialized`
from the start, and every registration creates its column family.

The database is not part of the repository. `Disk` is what is in its directory: the column family
`default`, and those of the states. `openCfDescriptors` fails if a column family is named that the
database does not have (`create_missing_column_families` is not set), or one that it has is not
named. The lists here stand for the `HashMap`s and `HashSet`s of the source, the first entry of a
name counts.

* `Tracks`: what the backend knows after the registrations so far.
* **`registers_fine_iff`**: registering works exactly if no state that is new to the database is
  registered while one of its column families is still unknown.
-/

namespace Arcon.State

/-! ## The database -/

/-- `rocksdb::Options`, what the backend sets in it. -/
structure Options where
  prefixExtractor : Option Nat
  mergeOperator : Option (String × RocksMerge)

/-- `Options::default()`. -/
def Options.default : Options := ⟨none, none⟩

/-- A database on disk. -/
structure Disk where
  cfs : List (String × (Bytes → Merging.Pending Bytes))
  hasDefault : "default" ∈ cfs.map Prod.fst

/-- `DB::list_cf`. -/
def Disk.names (disk : Disk) : List String := disk.cfs.map Prod.fst

theorem Disk.default_mem (disk : Disk) : "default" ∈ disk.names := disk.hasDefault

/-- `DB::open_cf_descriptors_borrowed`. -/
def openCfDescriptors (disk : Disk) (cfds : List (String × Options)) : Result Rocks :=
  match (cfds.map Prod.fst).find? (· ∉ disk.names) with
  | some name => .error (.err (.rocksError ("Column family not found: " ++ name)))
  | none =>
    match disk.names.find? (· ∉ cfds.map Prod.fst) with
    | some name => .error (.err (.rocksError ("Column families not opened: " ++ name)))
    | none => .ok ⟨fun name =>
        match cfds.lookup name, disk.cfs.lookup name with
        | some opts, some data => some ⟨opts.mergeOperator.map Prod.snd, data⟩
        | _, _ => none⟩

namespace Rocks

/-- `DB::create_cf`. -/
def createCf (db : Rocks) (name : String) (opts : Options) : Result Rocks :=
  match db.cfs name with
  | some _ => .error (.err (.rocksError ("Column family already exists: " ++ name)))
  | none => .ok (db.setCf name ⟨opts.mergeOperator.map Prod.snd, fun _ => .absent⟩)

/-- `DB::drop_cf`. -/
def dropCf (db : Rocks) (name : String) : Result Rocks :=
  match db.cfs name with
  | none => .error (.err (.rocksError ("Invalid column family: " ++ name)))
  | some _ =>
    if name = "default" then .error (.err (.rocksError "Can't drop default column family"))
    else .ok ⟨fun n => if n = name then none else db.cfs n⟩

end Rocks

/-! ## The opened backend -/

/-- `InitializedRocksDb`. -/
structure InitializedRocksDb where
  db : Rocks
  options : List (String × Options)

namespace InitializedRocksDb

variable (i : InitializedRocksDb)

/-- `get`. -/
def get (cfName : String) (key : Bytes) : Result (Option Bytes) := i.db.get cfName key

/-- `put`. -/
def put (cfName : String) (key value : Bytes) : Result InitializedRocksDb := do
  let db ← i.db.put cfName key value
  pure { i with db }

/-- `remove`. -/
def remove (cfName : String) (key : Bytes) : Result InitializedRocksDb := do
  let db ← i.db.remove cfName key
  pure { i with db }

/-- `contains`. -/
def contains (cfName : String) (key : Bytes) : Result Bool := do
  let value ← i.db.get cfName key
  pure value.isSome

/-- The end of the range of a prefix: its last byte is incremented. -/
def prefixEnd : Bytes → Result Bytes
  | [] => .error (.panic "unreachable, the empty case is covered a few lines above")
  | [b] => if b = 255 then .error (.panic "attempt to add with overflow") else .ok [b + 1]
  | b :: rest => do
    let rest ← prefixEnd rest
    pure (b :: rest)

/-- `remove_prefix`. -/
def removePrefix (cfName : String) (pre : Bytes) : Result InitializedRocksDb :=
  if pre = [] then
    -- the fast path of dropping and re-creating the whole column family
    match i.options.lookup cfName with
    | none => .error (.err (.rocksMissingOptions cfName))
    | some cfOpts => do
      let db ← i.db.dropCf cfName
      let db ← db.createCf cfName cfOpts
      pure { i with db }
  else do
    let cf ← i.db.getCfHandle cfName
    let stop ← prefixEnd pre
    let data := fun k => if pre ≤ k ∧ k < stop then .absent else cf.data k
    pure { i with db := i.db.setCf cfName { cf with data } }

/-- `create_column_family_if_doesnt_exist`. -/
def createColumnFamilyIfDoesntExist (cfName : String) (opts : Options) :
    Result InitializedRocksDb :=
  match i.db.cfs cfName with
  | some _ => .ok i
  | none => do
    let db ← i.db.createCf cfName opts
    pure { db, options := (cfName, opts) :: i.options }

/-- What successful operations can turn the database into. -/
inductive Reaches : InitializedRocksDb → InitializedRocksDb → Prop
  | refl (i : InitializedRocksDb) : Reaches i i
  | put {i j k : InitializedRocksDb} {cfName key value} (h : Reaches i j)
      (hput : j.put cfName key value = .ok k) : Reaches i k
  | remove {i j k : InitializedRocksDb} {cfName key} (h : Reaches i j)
      (hremove : j.remove cfName key = .ok k) : Reaches i k
  | removePrefix {i j k : InitializedRocksDb} {cfName pre} (h : Reaches i j)
      (hremove : j.removePrefix cfName pre = .ok k) : Reaches i k

end InitializedRocksDb

/-! ## The backend -/

/-- `Inner`. -/
inductive Inner
  | initialized (i : InitializedRocksDb)
  | uninitialized (unknownCfs : List String) (knownCfs : List (String × Options))

/-- `Rocks`, opened or not, with the directory that its path points to. -/
structure RocksBackend where
  inner : Inner
  disk : Disk
  restored : Bool

/-- A call of the backend. -/
inductive RocksCall
  | get (cfName : String) (key : Bytes)
  | put (cfName : String) (key value : Bytes)
  | remove (cfName : String) (key : Bytes)
  | removePrefix (cfName : String) (pre : Bytes)
  | contains (cfName : String) (key : Bytes)

/-- What a call returns. -/
def RocksCall.Reply : RocksCall → Type
  | get .. => Option Bytes
  | put .. | remove .. | removePrefix .. => InitializedRocksDb
  | contains .. => Bool

namespace RocksBackend

variable (r : RocksBackend)

/-- `is_initialized`. -/
def isInitialized : Bool :=
  match r.inner with
  | .initialized _ => true
  | .uninitialized .. => false

/-- `initialized` and `initialized_mut`. -/
def initialized : Result InitializedRocksDb :=
  match r.inner with
  | .initialized i => .ok i
  | .uninitialized unknownCfs _ => .error (.err (.rocksUninitialized unknownCfs))

/-- `get`, `put`, `remove`, `remove_prefix` and `contains`. -/
def call : (c : RocksCall) → Result c.Reply
  | .get cfName key => do
    let i ← r.initialized
    i.get cfName key
  | .put cfName key value => do
    let i ← r.initialized
    i.put cfName key value
  | .remove cfName key => do
    let i ← r.initialized
    i.remove cfName key
  | .removePrefix cfName pre => do
    let i ← r.initialized
    i.removePrefix cfName pre
  | .contains cfName key => do
    let i ← r.initialized
    i.contains cfName key

/-- `checkpoint`: the database that is written. -/
def checkpoint : Result Rocks := do
  let i ← r.initialized
  pure i.db

/-- `initialize`. -/
def initializeDb (knownCfs : List (String × Options)) : Result RocksBackend := do
  let db ← openCfDescriptors r.disk knownCfs
  pure { r with inner := .initialized ⟨db, knownCfs⟩ }

/-- `create_column_family`. -/
def createColumnFamily (cfName : String) (opts : Options) : Result RocksBackend :=
  match r.inner with
  | .initialized i => do
    let i ← i.createColumnFamilyIfDoesntExist cfName opts
    pure { r with inner := .initialized i }
  | .uninitialized unknownCfs knownCfs =>
    if cfName ∈ knownCfs.map Prod.fst then .ok r
    else
      let unknownCfs := unknownCfs.filter (· ≠ cfName)
      let knownCfs := (cfName, opts) :: knownCfs
      if unknownCfs = [] then r.initializeDb knownCfs
      else .ok { r with inner := .uninitialized unknownCfs knownCfs }

/-- `create`, on a path with this database. -/
def create (disk : Disk) : Result RocksBackend := do
  let columnFamilies := disk.names.filter (· ≠ "default")
  let defaults := [("default", Options.default)]
  if columnFamilies = [] then
    let db ← openCfDescriptors disk defaults
    pure ⟨.initialized ⟨db, defaults⟩, disk, false⟩
  else pure ⟨.uninitialized columnFamilies defaults, disk, false⟩

/-- `restore`: the files of the checkpoint are copied into an empty directory, which is opened. -/
def restore (checkpoint : Disk) : Result RocksBackend := do
  let r ← create checkpoint
  pure { r with restored := true }

end RocksBackend

/-! ## Registrations -/

/-- A call of one of the `register_*_handle`, by the id and the size of the metakeys of the handle;
the merge operators of reducers and aggregators are made from their functions. -/
inductive Register
  | value (id : String) (metakeySize : Nat)
  | map (id : String) (metakeySize : Nat)
  | vec (id : String) (metakeySize : Nat)
  | reducer (id : String) (metakeySize : Nat) (merge : RocksMerge)
  | aggregator (id : String) (metakeySize : Nat) (merge : RocksMerge)

namespace Register

/-- `common_options`. -/
def commonOptions (prefixSize : Nat) : Options :=
  { Options.default with prefixExtractor := some prefixSize }

/-- `handle.id`. -/
def id : Register → String
  | value id _ | map id _ | vec id _ | reducer id _ _ | aggregator id _ _ => id

/-- The options of the column family. -/
def options : Register → Options
  | value _ size | map _ size => commonOptions size
  | vec _ size => { commonOptions size with mergeOperator := some ("vec_merge", Rocks.vecMerge) }
  | reducer _ size merge =>
    { commonOptions size with mergeOperator := some ("reducer_merge", merge) }
  | aggregator _ size merge =>
    { commonOptions size with mergeOperator := some ("aggregator_merge", merge) }

/-- `register_value_handle` and the others. -/
def run (r : RocksBackend) (reg : Register) : Result RocksBackend :=
  match r.createColumnFamily reg.id reg.options with
  | .ok r => .ok r
  | .error _ => .error (.panic "Could not create column family")

end Register

/-- Registrations one after the other. -/
def RocksBackend.registerAll (r : RocksBackend) (regs : List Register) : Result RocksBackend :=
  regs.foldlM Register.run r

/-! ## Opening -/

theorem openCfDescriptors_ok {disk : Disk} {cfds : List (String × Options)}
    (hknown : ∀ c ∈ cfds.map Prod.fst, c ∈ disk.names)
    (hall : ∀ c ∈ disk.names, c ∈ cfds.map Prod.fst) :
    ∃ db, openCfDescriptors disk cfds = .ok db ∧ ∀ c, (db.cfs c).isSome ↔ c ∈ disk.names := by
  have hfound : (cfds.map Prod.fst).find? (· ∉ disk.names) = none := by
    simpa using hknown
  have hopened : disk.names.find? (· ∉ cfds.map Prod.fst) = none := by
    simpa using hall
  unfold openCfDescriptors
  rw [hfound, hopened]
  refine ⟨_, rfl, fun c => ?_⟩
  constructor
  · intro hsome
    by_contra hc
    have hnone : disk.cfs.lookup c = none := by
      rw [List.lookup_eq_none_iff]
      intro p hp
      have hne : c ≠ p.1 := fun heq => hc (List.mem_map.mpr ⟨p, hp, heq.symm⟩)
      simpa using hne
    simp [hnone] at hsome
  · intro hc
    have hmem : ∀ {β : Type} (l : List (String × β)), c ∈ l.map Prod.fst →
        ∃ b, l.lookup c = some b := by
      intro β l hl
      obtain ⟨p, hp, rfl⟩ := List.mem_map.mp hl
      exact Option.isSome_iff_exists.mp (List.lookup_isSome_iff.mpr ⟨p, hp, by simp⟩)
    obtain ⟨opts, hopts⟩ := hmem cfds (hall c hc)
    obtain ⟨data, hdata⟩ := hmem disk.cfs hc
    simp [hopts, hdata]

/-- A name that the database does not have. -/
theorem openCfDescriptors_foreign {disk : Disk} {cfds : List (String × Options)}
    (hforeign : ∃ c ∈ cfds.map Prod.fst, c ∉ disk.names) :
    ∃ e, openCfDescriptors disk cfds = .error e := by
  obtain ⟨c, hc, hnot⟩ := hforeign
  unfold openCfDescriptors
  cases hfind : (cfds.map Prod.fst).find? (· ∉ disk.names) with
  | some name => exact ⟨_, rfl⟩
  | none =>
    rw [List.find?_eq_none] at hfind
    exact absurd hnot (by simpa using hfind c hc)

/-! ## What the backend knows -/

section registry

variable {disk : Disk} {names : List String} {r : RocksBackend}

/-- What the backend knows of the database after states of these names were registered. -/
def Tracks (disk : Disk) (names : List String) (r : RocksBackend) : Prop :=
  r.disk = disk ∧
  match r.inner with
  | .uninitialized unknown known => unknown ≠ [] ∧
      (∀ c, c ∈ unknown ↔ c ∈ disk.names ∧ c ≠ "default" ∧ c ∉ names) ∧
      ∀ c, c ∈ known.map Prod.fst ↔ c = "default" ∨ c ∈ names
  | .initialized i => (∀ c ∈ disk.names, c = "default" ∨ c ∈ names) ∧
      ∀ c, ((i.db.cfs c).isSome ↔ c ∈ disk.names ∨ c ∈ names) ∧
        (c ∈ i.options.map Prod.fst ↔ c ∈ disk.names ∨ c ∈ names)

/-- What a registration does: it succeeds, unless it opens the database while a state that is new to
it is among those registered. -/
def Registered (disk : Disk) (names : List String) (r : RocksBackend) (reg : Register)
    (out : Result RocksBackend) : Prop :=
  (∃ r', out = .ok r' ∧ Tracks disk (names ++ [reg.id]) r' ∧
    (r'.isInitialized = true → r.isInitialized = false →
      ∀ c ∈ names ++ [reg.id], c ∈ disk.names)) ∨
  ((∃ e, out = .error e) ∧ r.isInitialized = false ∧ ∃ c ∈ names ++ [reg.id], c ∉ disk.names)

/-- The database is open. -/
theorem registered_initialized {i : InitializedRocksDb} {restored : Bool}
    (h : Tracks disk names ⟨.initialized i, disk, restored⟩) (reg : Register) :
    Registered disk names ⟨.initialized i, disk, restored⟩ reg
      (reg.run ⟨.initialized i, disk, restored⟩) := by
  obtain ⟨-, hcover, hcfs⟩ := h
  have hcover' : ∀ c ∈ disk.names, c = "default" ∨ c ∈ names ++ [reg.id] := fun c hc =>
    (hcover c hc).imp_right fun hin => List.mem_append_left _ hin
  unfold Register.run RocksBackend.createColumnFamily
  dsimp only [InitializedRocksDb.createColumnFamilyIfDoesntExist]
  cases hcf : i.db.cfs reg.id with
  | some cf =>
    have hold : reg.id ∈ disk.names ∨ reg.id ∈ names := (hcfs reg.id).1.mp (by rw [hcf]; rfl)
    have hsame : ∀ c, c ∈ disk.names ∨ c ∈ names ↔ c ∈ disk.names ∨ c ∈ names ++ [reg.id] := by
      intro c
      simp only [List.mem_append, List.mem_singleton]
      constructor
      · tauto
      · rintro (hc | hc | rfl)
        · exact .inl hc
        · exact .inr hc
        · exact hold
    refine .inl ⟨_, rfl, ⟨rfl, hcover', fun c => ?_⟩, fun _ hun => by cases hun⟩
    rw [← hsame]
    exact hcfs c
  | none =>
    have hnew : i.db.createCf reg.id reg.options = .ok (i.db.setCf reg.id
        ⟨reg.options.mergeOperator.map Prod.snd, fun _ => .absent⟩) := by
      rw [Rocks.createCf, hcf]
    dsimp only
    rw [hnew]
    refine .inl ⟨_, rfl, ⟨rfl, hcover', fun c => ⟨?_, ?_⟩⟩, fun _ hun => by cases hun⟩
    · by_cases hc : c = reg.id
      · simp [Rocks.setCf, hc]
      · simpa [Rocks.setCf, hc] using (hcfs c).1
    · have hopts := (hcfs c).2
      simp only [List.map_cons, List.mem_cons, List.mem_append, hopts]
      tauto

/-- The state was registered before, or is `default`. -/
theorem tracks_known {unknown : List String} {known : List (String × Options)} {restored : Bool}
    (h : Tracks disk names ⟨.uninitialized unknown known, disk, restored⟩) {name : String}
    (hmem : name ∈ known.map Prod.fst) :
    Tracks disk (names ++ [name]) ⟨.uninitialized unknown known, disk, restored⟩ := by
  obtain ⟨-, hne, hunknown, hknown⟩ := h
  rw [hknown] at hmem
  refine ⟨rfl, hne, fun c => ?_, fun c => ?_⟩
  · rw [hunknown, List.mem_append, List.mem_singleton]
    constructor
    · rintro ⟨hd, hdef, hn⟩
      refine ⟨hd, hdef, ?_⟩
      rintro (hc | rfl)
      · exact hn hc
      · exact hmem.elim hdef hn
    · tauto
  · rw [hknown, List.mem_append, List.mem_singleton]
    constructor
    · tauto
    · rintro (hc | hc | rfl)
      · exact .inl hc
      · exact .inr hc
      · exact hmem

/-- Opening the database with these states. -/
theorem tracks_initializeDb {known : List (String × Options)} (hdisk : r.disk = disk)
    (hknown : ∀ c, c ∈ known.map Prod.fst ↔ c = "default" ∨ c ∈ names)
    (hcover : ∀ c ∈ disk.names, c = "default" ∨ c ∈ names)
    (hold : ∀ c ∈ names, c ∈ disk.names) :
    ∃ r', r.initializeDb known = .ok r' ∧ Tracks disk names r' := by
  obtain ⟨db, hdb, hcfs⟩ := @openCfDescriptors_ok disk known
    (fun c hc => ((hknown c).mp hc).elim (fun h => h ▸ disk.default_mem) (hold c))
    fun c hc => (hknown c).mpr (hcover c hc)
  unfold RocksBackend.initializeDb
  rw [hdisk, hdb]
  refine ⟨_, rfl, rfl, hcover, fun c => ⟨?_, ?_⟩⟩
  · rw [hcfs]
    exact ⟨.inl, fun h => h.elim (fun h => h) (hold c)⟩
  · rw [hknown]
    constructor
    · rintro (rfl | hc)
      · exact .inl disk.default_mem
      · exact .inr hc
    · exact fun h => h.elim (hcover c) .inr

/-- The database is not open, and the state is registered for the first time. -/
theorem registered_uninitialized {unknown : List String} {known : List (String × Options)}
    {restored : Bool} (h : Tracks disk names ⟨.uninitialized unknown known, disk, restored⟩)
    (reg : Register) (hmem : reg.id ∉ known.map Prod.fst) :
    Registered disk names ⟨.uninitialized unknown known, disk, restored⟩ reg
      (reg.run ⟨.uninitialized unknown known, disk, restored⟩) := by
  obtain ⟨-, hne, hunknown, hknown⟩ := h
  have hunknown' : ∀ c, c ∈ unknown.filter (· ≠ reg.id) ↔
      c ∈ disk.names ∧ c ≠ "default" ∧ c ∉ names ++ [reg.id] := by
    intro c
    simp only [List.mem_filter, hunknown, List.mem_append, List.mem_singleton, decide_eq_true_eq]
    tauto
  have hknown' : ∀ c, c ∈ ((reg.id, reg.options) :: known).map Prod.fst ↔
      c = "default" ∨ c ∈ names ++ [reg.id] := by
    intro c
    simp only [List.map_cons, List.mem_cons, hknown, List.mem_append]
    tauto
  unfold Register.run RocksBackend.createColumnFamily
  dsimp only
  rw [if_neg hmem]
  by_cases hlast : unknown.filter (· ≠ reg.id) = []
  · rw [if_pos hlast]
    have hcover : ∀ c ∈ disk.names, c = "default" ∨ c ∈ names ++ [reg.id] := by
      intro c hc
      by_contra hno
      rw [not_or] at hno
      have hin := (hunknown' c).mpr ⟨hc, hno.1, hno.2⟩
      rw [hlast] at hin
      cases hin
    by_cases hforeign : ∃ c ∈ names ++ [reg.id], c ∉ disk.names
    · -- the database is opened with a column family that it does not have
      obtain ⟨c, hc, hnot⟩ := hforeign
      obtain ⟨e, he⟩ := @openCfDescriptors_foreign disk _
        ⟨c, (hknown' c).mpr (.inr hc), hnot⟩
      unfold RocksBackend.initializeDb
      dsimp only
      rw [he]
      exact .inr ⟨⟨_, rfl⟩, rfl, c, hc, hnot⟩
    · have hold : ∀ c ∈ names ++ [reg.id], c ∈ disk.names := by
        intro c hc
        by_contra hnot
        exact hforeign ⟨c, hc, hnot⟩
      obtain ⟨r', hr', htracks⟩ := tracks_initializeDb
        (r := ⟨.uninitialized unknown known, disk, restored⟩) rfl hknown' hcover hold
      rw [hr']
      exact .inl ⟨r', rfl, htracks, fun _ _ => hold⟩
  · rw [if_neg hlast]
    exact .inl ⟨_, rfl, ⟨rfl, hlast, hunknown', hknown'⟩, fun hin => by cases hin⟩

/-- **One registration**, whatever the backend knows. -/
theorem tracks_run (h : Tracks disk names r) (reg : Register) :
    Registered disk names r reg (reg.run r) := by
  obtain ⟨inner, d, restored⟩ := r
  obtain rfl : d = disk := h.1
  cases inner with
  | initialized i => exact registered_initialized h reg
  | uninitialized unknown known =>
    by_cases hmem : reg.id ∈ known.map Prod.fst
    · refine .inl ⟨_, ?_, tracks_known h hmem, fun hin => by cases hin⟩
      unfold Register.run RocksBackend.createColumnFamily
      dsimp only
      rw [if_pos hmem]
    · exact registered_uninitialized h reg hmem

/-- A backend that waits has a column family of the database to wait for. -/
theorem Tracks.waiting (h : Tracks disk names r) (hun : r.isInitialized = false) :
    ∃ c ∈ disk.names, c ≠ "default" ∧ c ∉ names := by
  obtain ⟨inner, d, restored⟩ := r
  obtain ⟨rfl, h⟩ := h
  cases inner with
  | initialized i => cases hun
  | uninitialized unknown known =>
    obtain ⟨c, hc⟩ := List.exists_mem_of_ne_nil unknown h.1
    exact ⟨c, (h.2.1 c).mp hc⟩

/-- A backend that is opened waits for nothing. -/
theorem Tracks.opened (h : Tracks disk names r) (hin : r.isInitialized = true) {c : String}
    (hc : c ∈ disk.names) (hdef : c ≠ "default") : c ∈ names := by
  obtain ⟨inner, d, restored⟩ := r
  obtain ⟨rfl, h⟩ := h
  cases inner with
  | initialized i => exact (h.1 c hc).resolve_left hdef
  | uninitialized unknown known => cases hin

/-- A restored backend, before any registration. -/
theorem tracks_restore (disk : Disk) :
    ∃ r, RocksBackend.restore disk = .ok r ∧ Tracks disk [] r := by
  unfold RocksBackend.restore RocksBackend.create
  dsimp only
  by_cases hcfs : disk.names.filter (· ≠ "default") = []
  · rw [if_pos hcfs]
    have honly : ∀ c ∈ disk.names, c = "default" := by
      intro c hc
      by_contra hne
      have hin : c ∈ disk.names.filter (· ≠ "default") := by simp [hc, hne]
      rw [hcfs] at hin
      cases hin
    obtain ⟨db, hdb, hsome⟩ := @openCfDescriptors_ok disk
      [("default", Options.default)] (by simpa using disk.default_mem)
      (by simpa using honly)
    rw [hdb]
    refine ⟨_, rfl, rfl, fun c hc => .inl (honly c hc), fun c => ⟨by simpa using hsome c, ?_⟩⟩
    simp only [List.map_cons, List.map_nil, List.mem_singleton, List.not_mem_nil, or_false]
    exact ⟨fun h => h ▸ disk.hasDefault, honly c⟩
  · rw [if_neg hcfs]
    exact ⟨_, rfl, rfl, hcfs, fun c => by simp, fun c => by simp⟩

/-! ## Runs -/

theorem registerAll_append (r : RocksBackend) (done rest : List Register) :
    r.registerAll (done ++ rest) = r.registerAll done >>= fun r => r.registerAll rest :=
  List.foldlM_append

theorem registerAll_append_ok {r r' : RocksBackend} {done rest : List Register}
    (h : r.registerAll (done ++ rest) = .ok r') :
    ∃ r₁, r.registerAll done = .ok r₁ ∧ r₁.registerAll rest = .ok r' := by
  rw [registerAll_append] at h
  cases hdone : r.registerAll done with
  | error e => rw [hdone] at h; cases h
  | ok r₁ =>
    rw [hdone] at h
    exact ⟨r₁, rfl, h⟩

theorem registerAll_cons {r : RocksBackend} {reg : Register} {regs : List Register} :
    r.registerAll (reg :: regs) = reg.run r >>= fun r => r.registerAll regs :=
  List.foldlM_cons

/-- Every run keeps track; and one with a new state waiting never opens the database. -/
theorem tracks_registerAll {regs : List Register} {r' : RocksBackend} (h : Tracks disk names r)
    (hrun : r.registerAll regs = .ok r') :
    Tracks disk (names ++ regs.map Register.id) r' ∧
      ((∃ c ∈ names, c ∉ disk.names) → r.isInitialized = false → r'.isInitialized = false) := by
  induction regs generalizing names r with
  | nil =>
    cases hrun
    exact ⟨by simpa using h, fun _ hun => hun⟩
  | cons reg regs ih =>
    rw [registerAll_cons] at hrun
    rcases tracks_run h reg with ⟨r₁, hok, htracks, hold⟩ | ⟨⟨e, herr⟩, -, -⟩
    · rw [hok, ok_bind] at hrun
      obtain ⟨htracks', hstays⟩ := ih htracks hrun
      refine ⟨by simpa using htracks', fun ⟨c, hc, hnot⟩ hun => hstays ⟨c, by simp [hc], hnot⟩ ?_⟩
      cases hin : r₁.isInitialized with
      | false => rfl
      | true => exact absurd (hold hin hun c (by simp [hc])) hnot
    · rw [herr] at hrun
      cases hrun

/-- No state that is new to the database is registered while one of its column families is not. -/
def OldFirst (disk : Disk) (regs : List Register) : Prop :=
  ∀ pre reg post, regs = pre ++ reg :: post →
    (∃ c ∈ disk.names, c ≠ "default" ∧ c ∉ pre.map Register.id) → reg.id ∈ disk.names

/-- In this order the registrations succeed. -/
theorem OldFirst.registerAll {r₀ : RocksBackend} (h₀ : Tracks disk [] r₀) {regs : List Register}
    (hold : OldFirst disk regs) :
    ∃ r, r₀.registerAll regs = .ok r ∧ Tracks disk (regs.map Register.id) r ∧
      (r.isInitialized = false → ∀ c ∈ regs.map Register.id, c ∈ disk.names) := by
  induction regs using List.reverseRecOn with
  | nil => exact ⟨r₀, rfl, h₀, fun _ c hc => by cases hc⟩
  | append_singleton regs reg ih =>
    obtain ⟨r, hrun, htracks, hall⟩ := ih fun pre reg' post heq =>
      hold pre reg' (post ++ [reg]) (by simp [heq])
    rw [List.map_append, List.map_singleton, registerAll_append, hrun, ok_bind, registerAll_cons]
    have hnew : r.isInitialized = false → reg.id ∈ disk.names := fun hun =>
      hold regs reg [] rfl (htracks.waiting hun)
    have hnames : r.isInitialized = false →
        ∀ c ∈ regs.map Register.id ++ [reg.id], c ∈ disk.names := by
      intro hun c hc
      rcases List.mem_append.mp hc with hc | hc
      · exact hall hun c hc
      · rw [List.mem_singleton.mp hc]
        exact hnew hun
    rcases tracks_run htracks reg with ⟨r', hok, htracks', -⟩ | ⟨-, hun, c, hc, hnot⟩
    · refine ⟨r', by rw [hok]; rfl, htracks', fun hun' => hnames ?_⟩
      -- a backend that waits now was waiting before
      cases hin : r.isInitialized with
      | false => rfl
      | true =>
        obtain ⟨c, hc, hdef, hn⟩ := htracks'.waiting hun'
        exact absurd (List.mem_append_left _ (htracks.opened hin hc hdef)) hn
    · exact absurd (hnames hun c hc) hnot

end registry

/-! ## What registering should give -/

namespace InitializedRocksDb

/-- A change of the database only. -/
theorem options_of_db {i k : InitializedRocksDb} {x : Result Rocks}
    (h : (x >>= fun db => (pure { i with db } : Result InitializedRocksDb)) = .ok k) :
    k.options = i.options := by
  cases x with
  | error e => cases h
  | ok db => cases h; rfl

theorem removePrefix_options {i k : InitializedRocksDb} {cfName : String} {pre : Bytes}
    (h : i.removePrefix cfName pre = .ok k) : k.options = i.options := by
  unfold removePrefix at h
  split_ifs at h
  · cases hopts : i.options.lookup cfName with
    | none => rw [hopts] at h; cases h
    | some cfOpts =>
      rw [hopts] at h
      dsimp only at h
      rw [← bind_assoc] at h
      exact options_of_db h
  · cases hcf : i.db.getCfHandle cfName with
    | error e => rw [hcf] at h; cases h
    | ok cf =>
      cases hstop : prefixEnd pre with
      | error e => rw [hcf, hstop] at h; cases h
      | ok stop => rw [hcf, hstop] at h; cases h; rfl

/-- No operation forgets the options of a column family. -/
theorem Reaches.options {i j : InitializedRocksDb} (h : i.Reaches j) : j.options = i.options := by
  induction h with
  | refl => rfl
  | put _ hput ih => exact (options_of_db hput).trans ih
  | remove _ hremove ih => exact (options_of_db hremove).trans ih
  | removePrefix _ hremove ih => exact (removePrefix_options hremove).trans ih

/-- Clearing a state whose options are known finds them. -/
theorem removePrefix_nil {i : InitializedRocksDb} {cfName : String}
    (h : (i.options.lookup cfName).isSome) (name : String) :
    i.removePrefix cfName [] ≠ .error (.err (.rocksMissingOptions name)) := by
  obtain ⟨cfOpts, hopts⟩ := Option.isSome_iff_exists.mp h
  unfold removePrefix Rocks.dropCf
  rw [if_pos rfl, hopts]
  dsimp only
  cases i.db.cfs cfName with
  | none => intro heq; cases heq
  | some cf =>
    dsimp only
    split_ifs
    · intro heq; cases heq
    · intro heq
      simp only [ok_bind, Rocks.createCf, if_true] at heq
      cases heq

end InitializedRocksDb

/-- Registering these states in this order works. -/
structure RegistersFine (disk : Disk) (regs : List Register) : Prop where
  /-- No registration panics. -/
  succeeds : ∃ r₀ r, RocksBackend.restore disk = .ok r₀ ∧ r₀.registerAll regs = .ok r
  /-- The database is open once all its column families are registered. -/
  opens : ∀ done r₀ r, done <+: regs → RocksBackend.restore disk = .ok r₀ →
    r₀.registerAll done = .ok r →
    (∀ c ∈ disk.names, c ≠ "default" → c ∈ done.map Register.id) → r.isInitialized = true
  /-- Before that, every operation says so. -/
  waits : ∀ done r₀ r, done <+: regs → RocksBackend.restore disk = .ok r₀ →
    r₀.registerAll done = .ok r → r.isInitialized = false →
    ∃ unknown, (∀ c, r.call c = .error (.err (.rocksUninitialized unknown))) ∧
      r.checkpoint = .error (.err (.rocksUninitialized unknown))
  /-- Then every registered state has a column family and options, and whatever is done to the
  database they are found when the state is cleared. -/
  ready : ∀ done r₀ r i, done <+: regs → RocksBackend.restore disk = .ok r₀ →
    r₀.registerAll done = .ok r → r.inner = .initialized i → ∀ reg ∈ done,
    (i.db.cfs reg.id).isSome ∧ (i.options.lookup reg.id).isSome ∧
      ∀ j, i.Reaches j → ∀ name,
        j.removePrefix reg.id [] ≠ .error (.err (.rocksMissingOptions name))

/-- **When registering works.** For every database and every sequence of registrations that covers
its column families: it works exactly if no state that is new to the database is registered while
one of its column families is still unknown. -/
theorem registers_fine_iff (disk : Disk) (regs : List Register)
    (hcover : ∀ c ∈ disk.names, c ≠ "default" → c ∈ regs.map Register.id) :
    RegistersFine disk regs ↔ OldFirst disk regs := by
  obtain ⟨r₀, hr₀, h₀⟩ := tracks_restore disk
  constructor
  · intro hfine pre reg post heq ⟨c, hc, hdef, hn⟩
    obtain ⟨r₀', r, hr₀', hrun⟩ := hfine.succeeds
    cases hr₀.symm.trans hr₀'
    subst heq
    obtain ⟨r₁, hpre, hpost⟩ := registerAll_append_ok hrun
    obtain ⟨htracks, -⟩ := tracks_registerAll h₀ hpre
    rw [List.nil_append] at htracks
    -- the column family `c` is missing, so the database is not open yet
    have hun : r₁.isInitialized = false := by
      cases hin : r₁.isInitialized with
      | false => rfl
      | true => exact absurd (htracks.opened hin hc hdef) hn
    by_contra hnew
    rw [registerAll_cons] at hpost
    rcases tracks_run htracks reg with ⟨r₂, hok, htracks₂, hold⟩ | ⟨⟨e, herr⟩, -, -⟩
    · rw [hok, ok_bind] at hpost
      have hun₂ : r₂.isInitialized = false := by
        cases hin : r₂.isInitialized with
        | false => rfl
        | true => exact absurd (hold hin hun reg.id (by simp)) hnew
      obtain ⟨htracks₃, hstays⟩ := tracks_registerAll htracks₂ hpost
      obtain ⟨c', hc', hdef', hn'⟩ := htracks₃.waiting (hstays ⟨reg.id, by simp, hnew⟩ hun₂)
      exact hn' (by simpa using hcover c' hc' hdef')
    · rw [herr] at hpost
      cases hpost
  · intro hold
    have htracks : ∀ done r₀' r, RocksBackend.restore disk = .ok r₀' →
        r₀'.registerAll done = .ok r → Tracks disk (done.map Register.id) r := by
      intro done r₀' r hr₀' hrun
      cases hr₀.symm.trans hr₀'
      simpa using (tracks_registerAll h₀ hrun).1
    refine ⟨?_, fun done r₀' r _ hr₀' hrun hall => ?_, fun done r₀' r _ hr₀' hrun hun => ?_,
      fun done r₀' r i _ hr₀' hrun hi reg hreg => ?_⟩
    · obtain ⟨r, hrun, -⟩ := hold.registerAll h₀
      exact ⟨r₀, r, hr₀, hrun⟩
    · cases hin : r.isInitialized with
      | true => rfl
      | false =>
        obtain ⟨c, hc, hdef, hn⟩ := (htracks done r₀' r hr₀' hrun).waiting hin
        exact absurd (hall c hc hdef) hn
    · obtain ⟨inner, d, restored⟩ := r
      cases inner with
      | initialized i => cases hun
      | uninitialized unknown known => exact ⟨unknown, fun c => by cases c <;> rfl, rfl⟩
    · have h := htracks done r₀' r hr₀' hrun
      obtain ⟨inner, d, restored⟩ := r
      cases hi
      obtain ⟨rfl, -, hcfs⟩ := h
      have hmem : reg.id ∈ done.map Register.id := List.mem_map.mpr ⟨reg, hreg, rfl⟩
      obtain ⟨p, hp, hpid⟩ := List.mem_map.mp ((hcfs reg.id).2.mpr (.inr hmem))
      have hopts : (i.options.lookup reg.id).isSome :=
        List.lookup_isSome_iff.mpr ⟨p, hp, by simp [hpid]⟩
      refine ⟨(hcfs reg.id).1.mpr (.inr hmem), hopts, fun j hj name => ?_⟩
      exact InitializedRocksDb.removePrefix_nil (by rw [hj.options]; exact hopts) name

/-- A database with one state. -/
def oneState : Disk := ⟨[("default", fun _ => .absent), ("a", fun _ => .absent)], by decide⟩

theorem registers_fine_old_first :
    OldFirst oneState [.value "a" 0, .vec "b" 8] ∧
      RegistersFine oneState [.value "a" 0, .vec "b" 8] := by
  have hold : OldFirst oneState [.value "a" 0, .vec "b" 8] := by
    rintro pre reg post heq ⟨c, hc, hdef, hn⟩
    cases pre with
    | nil =>
      cases heq
      decide
    | cons first pre =>
      obtain ⟨rfl, -⟩ := List.cons.inj heq
      have hca : c = "a" := by
        simp only [oneState, Disk.names, List.map_cons, List.map_nil, List.mem_cons,
          List.not_mem_nil, or_false] at hc
        exact hc.resolve_left hdef
      simp [hca, Register.id] at hn
  exact ⟨hold, (registers_fine_iff oneState _ (by decide)).mpr hold⟩

/-- **A new state before an old one.** The registration of the old one panics. -/
theorem registers_new_first :
    (RocksBackend.restore oneState >>= fun r => r.registerAll [.value "b" 0, .value "a" 0]) =
        .error (.panic "Could not create column family") ∧
      ¬RegistersFine oneState [.value "b" 0, .value "a" 0] := by
  have hpanic : (RocksBackend.restore oneState >>= fun r =>
      r.registerAll [.value "b" 0, .value "a" 0]) =
      .error (.panic "Could not create column family") := rfl
  refine ⟨hpanic, fun hfine => ?_⟩
  obtain ⟨r₀, r, hr₀, hrun⟩ := hfine.succeeds
  rw [hr₀, ok_bind, hrun] at hpanic
  cases hpanic

end Arcon.State

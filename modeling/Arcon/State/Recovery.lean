import Arcon.Node.Rules
import Arcon.State.Serialization
import Mathlib.Data.Finset.Sort

/-!
# Choosing a checkpoint (`Backend::restore_or_create`, `arcon_state/src/lib.rs`)

A node that starts looks through the checkpoint directory, where every node has left a directory
`checkpoint_<id>_<epoch>` for every epoch it finished, and restores from the last epoch that all
nodes have finished. The epochs of each node are collected in a `BTreeSet`, and the sets are
intersected in the order in which the `HashMap` gives them out.

`Fs` is what the file system answers: `readDir` after `removeDirAll`, in an order it chooses. The
order of the `HashMap` is a parameter too. The set of a node is a `Finset`; its iterator is
ascending.

* `saveState_dir`: the name that a node gives the directory of its checkpoint.
* `scanDir_name`: a directory that `save_state` named is counted for its node and its epoch.
* `mem_completeCheckpoints`: what the intersection has in it, in any order.
* **`restores_last_complete`**: the epoch restored from is the greatest that every node has a
  directory for, and there is none if and only if the backend is created.
-/

namespace Arcon.State

/-! ## Paths and directories -/

/-- `OsStr::to_str`. -/
def OsStr.toStr : OsStr → Option String
  | utf8 s => some s
  | other _ => none

/-- `PathBuf`, by its components. -/
abbrev PathBuf := List OsStr

/-- `PathBuf::push`: an absolute path replaces what was there. -/
def PathBuf.push (p : PathBuf) (c : OsStr) : PathBuf :=
  match c with
  | .utf8 s => if s.toList.head? = some '/' then [c] else p ++ [c]
  | .other bytes => if bytes.head? = some 0x2F then [c] else p ++ [c]

/-- `DirEntry`: its name, and `metadata().map(is_dir).unwrap_or(false)`. -/
structure DirEntry where
  fileName : OsStr
  isDir : Bool
  deriving DecidableEq, Repr

/-- `Config`. -/
structure Config where
  liveStateBasePath : PathBuf
  checkpointsBasePath : PathBuf
  backendIds : List String

/-- The answers of the file system. -/
structure Fs where
  pathExists : PathBuf → Bool
  removeDirAll : PathBuf → Result Unit
  readDir : PathBuf → Result (List (Result DirEntry))

/-! ## Names -/

/-- `str::parse::<u64>`: digits, with an optional plus in front. -/
def parseU64 (s : List Char) : Option Nat :=
  let digits := match s with
    | '+' :: rest => rest
    | _ => s
  if digits = [] then none
  else if digits.all Char.isDigit then
    let n := Nat.ofDigitChars 10 digits 0
    if n ≤ u64Max then some n else none
  else none

/-- `checkpoint_{id}_{epoch}`, in `restore_or_create` and, for the number of a node, in
`Node::save_state`. -/
def checkpointName (id : String) (epoch : Nat) : String :=
  "checkpoint_" ++ id ++ "_" ++ toString epoch

/-! ## The function -/

/-- The sets of epochs by id. -/
abbrev Checkpoints := List (String × Finset Nat)

/-- `checkpoints.get_mut(id)` and `insert(epoch)`. -/
def Checkpoints.insert (checkpoints : Checkpoints) (id : String) (epoch : Nat) :
    Option Checkpoints :=
  if id ∈ checkpoints.map Prod.fst then
    some (checkpoints.map fun c => if c.1 = id then (c.1, Insert.insert epoch c.2) else c)
  else none

/-- The body of the loop over the directory. -/
def scanDir (config : Config) (checkpoints : Checkpoints) (directory : Result DirEntry) :
    Result Checkpoints := do
  let directory ← directory
  let invalidPath {α : Type} : Result α :=
    .error (.err (.invalidPath (config.checkpointsBasePath.push directory.fileName)))
  match directory.fileName.toStr with
  | none => invalidPath
  | some dirName =>
    if "checkpoint_".toList.isPrefixOf dirName.toList && directory.isDir then
      match (dirName.toList.drop "checkpoint_".toList.length).splitOn '_' with
      | id :: epoch :: more =>
        match parseU64 epoch with
        | none => invalidPath
        | some epoch =>
          if more = [] then
            match checkpoints.insert (String.ofList id) epoch with
            | some checkpoints => .ok checkpoints
            | none => .error (.err (.unknownNode (String.ofList id) config.backendIds))
          else invalidPath
      | _ => invalidPath
    else invalidPath

/-- The intersection of the sets, in the order in which they are given out. -/
def completeCheckpoints : Checkpoints → Option (Finset Nat)
  | [] => none
  | (_, first) :: others => some (others.foldl (fun complete other => complete ∩ other.2) first)

/-- `restore_or_create`; `order` is the order of the `HashMap`, and `restore` and `create` are those
of the backend. -/
def restoreOrCreate {B : Type} (fs : Fs) (order : Checkpoints → Checkpoints)
    (restore : PathBuf → PathBuf → Result B) (create : PathBuf → Result B) (config : Config)
    (id : String) : Result B := do
  let statePath := config.liveStateBasePath.push (.utf8 id)
  if fs.pathExists statePath then fs.removeDirAll statePath
  let checkpoints : Checkpoints := config.backendIds.dedup.map fun id => (id, ∅)
  let directories ← fs.readDir config.checkpointsBasePath
  let checkpoints ← directories.foldlM (scanDir config) checkpoints
  let lastCompleteCheckpoint :=
    (completeCheckpoints (order checkpoints)).bind fun ce => ce.sort.getLast?
  match lastCompleteCheckpoint with
  | some epoch =>
    restore statePath (config.checkpointsBasePath.push (.utf8 (checkpointName id epoch)))
  | none => create statePath

/-! ## Reading a name -/

theorem toList_checkpointName (id : String) (epoch : Nat) :
    (checkpointName id epoch).toList =
      "checkpoint_".toList ++ (id.toList ++ '_' :: Nat.toDigits 10 epoch) := by
  simp [checkpointName]

theorem splitOn_name (id : List Char) (epoch : Nat) :
    (id ++ '_' :: Nat.toDigits 10 epoch).splitOn '_' =
      id.splitOn '_' ++ [Nat.toDigits 10 epoch] := by
  rw [List.splitOn_append_cons_self,
    List.splitOn_eq_singleton Nat.underscore_not_in_toDigits]

/-- Names with the same text have the same id and epoch, whatever the ids are. -/
theorem checkpointName_inj {id id' : String} {e e' : Nat}
    (heq : checkpointName id e = checkpointName id' e') : id = id' ∧ e = e' := by
  have hlist := congrArg String.toList heq
  rw [toList_checkpointName, toList_checkpointName] at hlist
  have hparts := congrArg (List.splitOn '_') (List.append_cancel_left hlist)
  rw [splitOn_name, splitOn_name] at hparts
  obtain ⟨hid, he⟩ := List.append_inj' hparts rfl
  have hids : id.toList = id'.toList := by
    have hjoin : ['_'].intercalate (id.toList.splitOn '_') = id.toList :=
      List.intercalate_splitOn '_'
    rw [← hjoin, hid, List.intercalate_splitOn]
  have hnum := congrArg (fun ds => Nat.ofDigitChars 10 ds 0) (List.singleton_inj.mp he)
  simp only [Nat.ofDigitChars_ten_toDigits] at hnum
  exact ⟨String.toList_inj.mp hids, hnum⟩

/-- A number that was written out is read back. -/
theorem parseU64_toDigits {n : Nat} (hn : n ≤ u64Max) : parseU64 (Nat.toDigits 10 n) = some n := by
  have hdigits : ∀ c ∈ Nat.toDigits 10 n, c.isDigit = true := fun c hc =>
    Nat.isDigit_of_mem_toDigits (by decide) (by decide) hc
  have hplus : ∀ rest, Nat.toDigits 10 n ≠ '+' :: rest := by
    intro rest heq
    have := hdigits '+' (by rw [heq]; exact List.mem_cons_self)
    cases this
  have hhead : (match Nat.toDigits 10 n with
      | '+' :: rest => rest
      | _ => Nat.toDigits 10 n) = Nat.toDigits 10 n := by
    split
    · exact absurd ‹_› (hplus _)
    · rfl
  unfold parseU64
  rw [hhead]
  dsimp only
  rw [if_neg Nat.toDigits_ne_nil, if_pos (List.all_eq_true.mpr hdigits),
    Nat.ofDigitChars_ten_toDigits, if_pos hn]

open Exec in
/-- A checkpoint of a node is written to the directory of this name. -/
theorem saveState_dir {σ τ TS IN OUT P : Type} [TimerBackend τ TS P] (n : Node σ TS IN OUT)
    (s : NodeSt σ τ IN OUT TS P) :
    wp (Node.saveState n) (fun _ s' => ∃ dir epoch snapshot, n.checkpointDir = some dir ∧
        s.state.currentEpoch = some epoch ∧
        s'.checkpoints =
          s.checkpoints ++ [(dir ++ "/" ++ checkpointName (toString n.id) epoch, snapshot)])
      (fun _ s' => s'.checkpoints = s.checkpoints) s := by
  unfold Node.saveState
  rw [wp_bind, wp_get]
  cases hdir : n.checkpointDir with
  | none => exact rfl
  | some dir =>
    cases hepoch : s.state.currentEpoch with
    | none => exact rfl
    | some epoch =>
      simp only [wp_ite, wp_throw, wp_bind, wp_modify, Node.note]
      have hname : dir ++ "/checkpoint_" ++ toString n.id ++ "_" ++ toString epoch =
          dir ++ "/" ++ checkpointName (toString n.id) epoch := by
        simp [checkpointName, ← String.toList_inj]
      rw [hname]
      exact ⟨fun _ => trivial, fun _ => ⟨dir, epoch, _, rfl, rfl, rfl⟩⟩

/-! ## The loop over the directory -/

/-- A directory that `Node::save_state` made for a node and an epoch. -/
def savedDir (nodeId epoch : Nat) : DirEntry :=
  ⟨.utf8 (checkpointName (toString nodeId) epoch), true⟩

/-- The sets after these directories. -/
def collected (ids : List String) (saved : List (Nat × Nat)) : Checkpoints :=
  ids.map fun id => (id, ((saved.filter (toString ·.1 = id)).map Prod.snd).toFinset)

/-- **One directory.** It is counted for its node and its epoch. -/
theorem scanDir_name (config : Config) {checkpoints checkpoints' : Checkpoints} {nodeId epoch : Nat}
    (he : epoch ≤ u64Max)
    (hinsert : checkpoints.insert (toString nodeId) epoch = some checkpoints') :
    scanDir config checkpoints (.ok (savedDir nodeId epoch)) = .ok checkpoints' := by
  have hname := toList_checkpointName (toString nodeId) epoch
  have hid : (toString nodeId).toList = Nat.toDigits 10 nodeId := by simp
  have hsplit : ((checkpointName (toString nodeId) epoch).toList.drop
      "checkpoint_".toList.length).splitOn '_' =
      [Nat.toDigits 10 nodeId, Nat.toDigits 10 epoch] := by
    rw [hname, List.drop_left' rfl, splitOn_name, hid,
      List.splitOn_eq_singleton Nat.underscore_not_in_toDigits]
    rfl
  have hstarts : "checkpoint_".toList.isPrefixOf
      (checkpointName (toString nodeId) epoch).toList = true := by
    rw [List.isPrefixOf_iff_prefix, hname]
    exact List.prefix_append _ _
  have hback : String.ofList (Nat.toDigits 10 nodeId) = toString nodeId :=
    Nat.toString_eq_ofList_toDigits.symm
  simp only [scanDir, savedDir, ok_bind, OsStr.toStr, hstarts, Bool.and_self, if_true, hsplit,
    parseU64_toDigits he, hback, hinsert]

theorem collected_insert {ids : List String} {saved : List (Nat × Nat)} {nodeId epoch : Nat}
    (hmem : toString nodeId ∈ ids) :
    (collected ids saved).insert (toString nodeId) epoch =
      some (collected ids (saved ++ [(nodeId, epoch)])) := by
  unfold Checkpoints.insert collected
  rw [if_pos (by simpa using hmem)]
  congr 1
  rw [List.map_map]
  refine List.map_congr_left fun id _ => ?_
  dsimp only [Function.comp_apply]
  rw [List.filter_append, List.map_append, List.toFinset_append]
  by_cases hid : id = toString nodeId
  · rw [if_pos hid, List.filter_cons_of_pos (by simpa using hid.symm), Finset.union_comm]
    rfl
  · have hne : ¬toString nodeId = id := fun h => hid h.symm
    rw [if_neg hid, List.filter_cons_of_neg (by simpa using hne)]
    simp

/-- The whole loop. -/
theorem foldlM_scanDir (config : Config) {ids : List String} (todo : List (Nat × Nat))
    (done : List (Nat × Nat)) (hknown : ∀ p ∈ todo, toString p.1 ∈ ids)
    (hepochs : ∀ p ∈ todo, p.2 ≤ u64Max) :
    (todo.map fun p => (.ok (savedDir p.1 p.2) : Result DirEntry)).foldlM (scanDir config)
      (collected ids done) = .ok (collected ids (done ++ todo)) := by
  induction todo generalizing done with
  | nil => simp
  | cons p todo ih =>
    rw [List.map_cons, List.foldlM_cons,
      scanDir_name config (hepochs p (by simp)) (collected_insert (hknown p (by simp))), ok_bind,
      ih _ (fun q hq => hknown q (by simp [hq])) fun q hq => hepochs q (by simp [hq])]
    simp

/-! ## The intersection -/

theorem mem_foldl_inter (others : Checkpoints) (first : Finset Nat) (e : Nat) :
    e ∈ others.foldl (fun complete other => complete ∩ other.2) first ↔
      e ∈ first ∧ ∀ c ∈ others, e ∈ c.2 := by
  induction others generalizing first with
  | nil => simp
  | cons c others ih =>
    rw [List.foldl_cons, ih, Finset.mem_inter, List.forall_mem_cons]
    tauto

/-- **The intersection, in any order**: an epoch is in it if it is in every set. -/
theorem mem_completeCheckpoints {checkpoints given : Checkpoints} (hperm : given.Perm checkpoints)
    (hne : checkpoints ≠ []) :
    ∃ complete, completeCheckpoints given = some complete ∧
      ∀ e, e ∈ complete ↔ ∀ c ∈ checkpoints, e ∈ c.2 := by
  cases given with
  | nil => exact absurd hperm.nil_eq.symm hne
  | cons c others =>
    refine ⟨_, rfl, fun e => ?_⟩
    rw [mem_foldl_inter]
    constructor
    · rintro ⟨hc, hothers⟩ d hd
      rcases List.mem_cons.mp (hperm.mem_iff.mpr hd) with rfl | hd
      · exact hc
      · exact hothers d hd
    · intro h
      exact ⟨h c (hperm.mem_iff.mp (by simp)), fun d hd => h d (hperm.mem_iff.mp (by simp [hd]))⟩

/-- The last of an ascending iterator is the greatest. -/
theorem getLast?_sort {s : Finset Nat} {e : Nat} (he : IsGreatest (s : Set Nat) e) :
    s.sort.getLast? = some e := by
  have hne : s.sort ≠ [] := by
    intro hnil
    have := (Finset.mem_sort (· ≤ ·)).mpr he.1
    rw [hnil] at this
    cases this
  rw [List.getLast?_eq_some_getLast hne, Option.some_inj]
  refine le_antisymm (he.2 ?_) ?_
  · exact (Finset.mem_sort (· ≤ ·)).mp (List.getLast_mem hne)
  · have hmem : e ∈ s.sort := (Finset.mem_sort (· ≤ ·)).mpr he.1
    exact (Finset.pairwise_sort s (· ≤ ·)).rel_getLast hmem

/-! ## The epoch that is restored -/

/-- There is a directory for this id and this epoch. -/
def HasCheckpoint (saved : List (Nat × Nat)) (id : String) (epoch : Nat) : Prop :=
  ∃ p ∈ saved, checkpointName (toString p.1) p.2 = checkpointName id epoch

/-- There is one for every id. -/
def Complete (saved : List (Nat × Nat)) (ids : List String) (epoch : Nat) : Prop :=
  ∀ id ∈ ids, HasCheckpoint saved id epoch

theorem hasCheckpoint_iff {saved : List (Nat × Nat)} {id : String} {epoch : Nat} :
    HasCheckpoint saved id epoch ↔
      epoch ∈ ((saved.filter (toString ·.1 = id)).map Prod.snd).toFinset := by
  simp only [HasCheckpoint, List.mem_toFinset, List.mem_map, List.mem_filter, decide_eq_true_eq]
  constructor
  · rintro ⟨p, hp, hname⟩
    obtain ⟨hid, he⟩ := checkpointName_inj hname
    exact ⟨p, ⟨hp, hid⟩, he⟩
  · rintro ⟨p, ⟨hp, hid⟩, rfl⟩
    exact ⟨p, hp, by rw [hid]⟩

theorem complete_iff {saved : List (Nat × Nat)} {ids : List String} {epoch : Nat} :
    Complete saved ids epoch ↔ ∀ c ∈ collected ids.dedup saved, epoch ∈ c.2 := by
  simp only [Complete, collected, List.mem_map, List.mem_dedup, forall_exists_index, and_imp,
    forall_apply_eq_imp_iff₂, hasCheckpoint_iff]

section recovery

variable {B : Type} {fs : Fs} {order : Checkpoints → Checkpoints} {config : Config} {id : String}
  {saved listing : List (Nat × Nat)}

theorem complete_perm (hperm : listing.Perm saved) {ids : List String} {epoch : Nat} :
    Complete listing ids epoch ↔ Complete saved ids epoch := by
  simp only [Complete, HasCheckpoint, hperm.mem_iff]

/-- **Recovery picks one globally complete checkpoint.** For every listing of directories that nodes
have left, in any order, and any order of the `HashMap`: if an epoch is complete there is a greatest
one, and the backend is restored from the directory of the node for it, which exists; if none is,
the backend is created. The epoch does not depend on the node or on any order. -/
theorem restores_last_complete (horder : ∀ checkpoints, (order checkpoints).Perm checkpoints)
    (restore : PathBuf → PathBuf → Result B) (create : PathBuf → Result B)
    (hid : id ∈ config.backendIds)
    (hknown : ∀ p ∈ saved, toString p.1 ∈ config.backendIds)
    (hepochs : ∀ p ∈ saved, p.2 ≤ u64Max)
    (hperm : listing.Perm saved)
    (hread : fs.readDir config.checkpointsBasePath =
      .ok (listing.map fun p => .ok (savedDir p.1 p.2)))
    (hremove : fs.pathExists (config.liveStateBasePath.push (.utf8 id)) = true →
      fs.removeDirAll (config.liveStateBasePath.push (.utf8 id)) = .ok ()) :
    ((∃ e, Complete saved config.backendIds e) →
      ∃ e, IsGreatest {e | Complete saved config.backendIds e} e) ∧
    (∀ e, IsGreatest {e | Complete saved config.backendIds e} e →
      HasCheckpoint saved id e ∧
      restoreOrCreate fs order restore create config id =
        restore (config.liveStateBasePath.push (.utf8 id))
          (config.checkpointsBasePath.push (.utf8 (checkpointName id e)))) ∧
    ((∀ e, ¬Complete saved config.backendIds e) →
      restoreOrCreate fs order restore create config id =
        create (config.liveStateBasePath.push (.utf8 id))) := by
  have hscan : (listing.map fun p => (.ok (savedDir p.1 p.2) : Result DirEntry)).foldlM
      (scanDir config) (config.backendIds.dedup.map fun id => (id, ∅)) =
      .ok (collected config.backendIds.dedup listing) :=
    foldlM_scanDir config listing []
      (fun p hp => List.mem_dedup.mpr (hknown p (hperm.mem_iff.mp hp)))
      fun p hp => hepochs p (hperm.mem_iff.mp hp)
  have hne : collected config.backendIds.dedup listing ≠ [] := by
    intro hnil
    have hmem := List.mem_dedup.mpr hid
    rw [List.map_eq_nil_iff.mp hnil] at hmem
    cases hmem
  obtain ⟨complete, hcomplete, hmem⟩ :=
    mem_completeCheckpoints (horder (collected config.backendIds.dedup listing)) hne
  have hset : (complete : Set Nat) = {e | Complete saved config.backendIds e} := by
    ext e
    rw [Finset.mem_coe, hmem, ← complete_iff, complete_perm hperm]
    rfl
  have hrun : restoreOrCreate fs order restore create config id =
      match complete.sort.getLast? with
      | some epoch => restore (config.liveStateBasePath.push (.utf8 id))
          (config.checkpointsBasePath.push (.utf8 (checkpointName id epoch)))
      | none => create (config.liveStateBasePath.push (.utf8 id)) := by
    unfold restoreOrCreate
    simp only [hread, hscan, hcomplete, ok_bind, Option.bind_some]
    split_ifs with hlive
    · rw [hremove hlive, ok_bind]
    · rfl
  rw [← hset]
  refine ⟨fun ⟨e, he⟩ => ?_, fun e he => ?_, fun hnone => ?_⟩
  · have hmem : e ∈ (complete : Set Nat) := hset ▸ he
    exact ⟨_, complete.isGreatest_max' ⟨e, Finset.mem_coe.mp hmem⟩⟩
  · have hdir : e ∈ {e | Complete saved config.backendIds e} := hset ▸ he.1
    exact ⟨hdir id hid, by rw [hrun, getLast?_sort he]⟩
  · have hempty : complete = ∅ := by
      refine Finset.eq_empty_of_forall_notMem fun e he => hnone e ?_
      have hdir : e ∈ {e | Complete saved config.backendIds e} := hset ▸ Finset.mem_coe.mpr he
      exact hdir
    rw [hrun, hempty, Finset.sort_empty]
    rfl

end recovery

/-- Two nodes, the first one epoch ahead. -/
def twoNodes : Config := ⟨[.utf8 "live"], [.utf8 "checkpoints"], ["1", "2"]⟩

/-- What they have left. -/
def twoNodesSaved : List (Nat × Nat) := [(1, 1), (2, 1), (1, 2)]

/-- A file system that lists it in another order. -/
def twoNodesFs : Fs where
  pathExists _ := true
  removeDirAll _ := .ok ()
  readDir _ := .ok (twoNodesSaved.reverse.map fun p => .ok (savedDir p.1 p.2))

theorem restores_last_complete_two :
    ∃ e, IsGreatest {e | Complete twoNodesSaved twoNodes.backendIds e} e ∧
      restoreOrCreate twoNodesFs List.reverse (fun _ checkpoint => .ok checkpoint) .ok twoNodes
        "2" = .ok (twoNodes.checkpointsBasePath.push (.utf8 (checkpointName "2" e))) := by
  obtain ⟨hsome, hrestore, -⟩ := @restores_last_complete PathBuf twoNodesFs List.reverse twoNodes
    "2" twoNodesSaved twoNodesSaved.reverse List.reverse_perm
    (fun _ checkpoint => .ok checkpoint) .ok (by decide) (by decide) (by decide)
    (List.reverse_perm _) rfl fun _ => rfl
  have hone : Complete twoNodesSaved twoNodes.backendIds 1 := by
    unfold Complete HasCheckpoint
    decide
  obtain ⟨e, he⟩ := hsome ⟨1, hone⟩
  exact ⟨e, he, (hrestore e he).2⟩

end Arcon.State

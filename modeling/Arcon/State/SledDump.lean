import Arcon.Lib.Files
import Arcon.State.Serialization

/-!
# Checkpoints of Sled (`Sled::checkpoint`, `parse_dumped_sled_export`, `sled/mod.rs`)

Sled has no checkpoints, so the whole database is exported and written to a file. The export is a
list of collections, each with a type, a name and entries, and an entry is a list of byte strings.
Everything is written with its length in front, as a `usize` of eight bytes. The entries of a
collection come from an iterator, and their number is known only behind them: it is written as zero
first, and overwritten when the entries are written, with the position of the file put back behind
them.

The file system does not fail here. A length in memory is a `usize` (`Export`); running out of
memory is not modelled.

* `flushed_writeCollection`: the writer appends the encoding of a collection and ends behind it.
* `readCollection_eq`: the reader takes a collection off whatever starts with one.
* **`dump_round_trip`**: an export that was written is read back.
-/

namespace Arcon.State

open Bytes Prim

/-- `(typ, name, vvecs)` of an export. -/
structure Collection where
  typ : Bytes
  name : Bytes
  vvecs : List (List Bytes)
  deriving DecidableEq, Repr

/-- The bytes of a `usize`. -/
def lenBytes (n : Nat) : Bytes := toLeBytes (usize n)

@[simp] theorem length_lenBytes (n : Nat) : (lenBytes n).length = 8 := length_toLeBytes _

/-! ## The writer -/

namespace Sled

/-- `write_len_and_bytes`. -/
def writeLenAndBytes (w : BufWriter) (bytes : Bytes) : BufWriter :=
  (w.writeAll (lenBytes bytes.length)).writeAll bytes

/-- The body of the loop over the entries. -/
def writeVecs (w : BufWriter) (vecs : List Bytes) : BufWriter :=
  vecs.foldl writeLenAndBytes (w.writeAll (lenBytes vecs.length))

/-- The body of the loop over the collections. -/
def writeCollection (w : BufWriter) (c : Collection) : BufWriter :=
  let w := writeLenAndBytes w c.typ
  let w := writeLenAndBytes w c.name
  -- the number of entries is not known yet
  let (w, lengthSpot) := w.tell
  let w := w.writeAll (lenBytes 0)
  let (w, length) := c.vvecs.foldl (fun (w, length) vecs => (writeVecs w vecs, length + 1)) (w, 0)
  let (w, afterVecs) := w.tell
  let w := w.seek lengthSpot
  let w := w.writeAll (lenBytes length)
  w.seek afterVecs

/-- The writer after these collections of an export of `total`. `BufWriter::new` keeps 8 KiB
back. -/
def writeCollections (total : Nat) (collections : List Collection) : BufWriter :=
  collections.foldl writeCollection
    ((BufWriter.new File.create (8 * 1024)).writeAll (lenBytes total))

/-- `checkpoint`: the contents of the file, once the writer is dropped. -/
def checkpoint (exportData : List Collection) : Bytes :=
  (writeCollections exportData.length exportData).flushed.contents

/-! ## The reader -/

/-- `read_exact`. -/
def readExact (n : Nat) (source : Bytes) : Result (Bytes × Bytes) :=
  if source.length < n then .error (.err (.io "failed to fill whole buffer"))
  else .ok (source.take n, source.drop n)

/-- `read_length`. -/
def readLength (source : Bytes) : Result (Nat × Bytes) := do
  let (lengthBytes, source) ← readExact 8 source
  pure ((fromLeBytes lengthBytes : Prim 8).toNat, source)

/-- `read_bytes_starting_with_len`. -/
def readBytesStartingWithLen (source : Bytes) : Result (Bytes × Bytes) := do
  let (length, source) ← readLength source
  readExact length source

/-- One entry. -/
def readVecs (source : Bytes) : Result (List Bytes × Bytes) := do
  let (vecsLength, source) ← readLength source
  readMany readBytesStartingWithLen vecsLength source

/-- One collection. -/
def readCollection (source : Bytes) : Result (Collection × Bytes) := do
  let (typ, source) ← readBytesStartingWithLen source
  let (name, source) ← readBytesStartingWithLen source
  let (vvecsLength, source) ← readLength source
  let (vvecs, source) ← readMany readVecs vvecsLength source
  pure (⟨typ, name, vvecs⟩, source)

/-- `parse_dumped_sled_export`. -/
def parseDumpedSledExport (dump : Bytes) : Result (List Collection) := do
  let (length, source) ← readLength dump
  let (res, _) ← readMany readCollection length source
  pure res

/-! ## What is written -/

/-- A byte string with its length. -/
def encBytes (bytes : Bytes) : Bytes := lenBytes bytes.length ++ bytes

/-- An entry with its length. -/
def encVecs (vecs : List Bytes) : Bytes := lenBytes vecs.length ++ vecs.flatMap encBytes

/-- A collection. -/
def encCollection (c : Collection) : Bytes :=
  encBytes c.typ ++ encBytes c.name ++ (lenBytes c.vvecs.length ++ c.vvecs.flatMap encVecs)

section writer

variable {w : BufWriter} {contents : Bytes}

theorem flushed_write (h : w.flushed = .ended contents) (data : Bytes) :
    (w.writeAll data).flushed = .ended (contents ++ data) := by
  rw [BufWriter.flushed_writeAll, h, File.write_ended]

theorem flushed_writeLenAndBytes (h : w.flushed = .ended contents) (bytes : Bytes) :
    (writeLenAndBytes w bytes).flushed = .ended (contents ++ encBytes bytes) := by
  have h' := flushed_write (flushed_write h (lenBytes bytes.length)) bytes
  rw [List.append_assoc] at h'
  exact h'

theorem flushed_writeVecs (h : w.flushed = .ended contents) (vecs : List Bytes) :
    (writeVecs w vecs).flushed = .ended (contents ++ encVecs vecs) := by
  have hloop : ∀ (vecs : List Bytes) (w : BufWriter) (contents : Bytes),
      w.flushed = .ended contents →
      (vecs.foldl writeLenAndBytes w).flushed = .ended (contents ++ vecs.flatMap encBytes) := by
    intro vecs
    induction vecs with
    | nil => intro w contents h; simpa using h
    | cons vec vecs ih =>
      intro w contents h
      rw [List.foldl_cons, List.flatMap_cons, ← List.append_assoc]
      exact ih _ _ (flushed_writeLenAndBytes h vec)
  have h' := hloop vecs _ _ (flushed_write h (lenBytes vecs.length))
  rw [List.append_assoc] at h'
  exact h'

/-- The loop over the entries counts them. -/
theorem flushed_entries (vvecs : List (List Bytes)) (h : w.flushed = .ended contents)
    (length : Nat) :
    (vvecs.foldl (fun (p : BufWriter × Nat) vecs => (writeVecs p.1 vecs, p.2 + 1))
        (w, length)).1.flushed = .ended (contents ++ vvecs.flatMap encVecs) ∧
      (vvecs.foldl (fun (p : BufWriter × Nat) vecs => (writeVecs p.1 vecs, p.2 + 1))
        (w, length)).2 = length + vvecs.length := by
  induction vvecs generalizing w contents length with
  | nil => simpa using h
  | cons vecs vvecs ih =>
    rw [List.foldl_cons, List.flatMap_cons, ← List.append_assoc]
    obtain ⟨hw, hlen⟩ := ih (flushed_writeVecs h vecs) (length + 1)
    exact ⟨hw, by rw [hlen, List.length_cons]; omega⟩

/-- **One collection.** The number of entries ends up where the placeholder was, and the position
behind the entries. -/
theorem flushed_writeCollection (h : w.flushed = .ended contents) (c : Collection) :
    (writeCollection w c).flushed = .ended (contents ++ encCollection c) := by
  set w₁ := writeLenAndBytes (writeLenAndBytes w c.typ) c.name with hw₁
  have h₁ : w₁.flushed = .ended (contents ++ (encBytes c.typ ++ encBytes c.name)) := by
    have := flushed_writeLenAndBytes (flushed_writeLenAndBytes h c.typ) c.name
    rwa [List.append_assoc] at this
  set before := contents ++ (encBytes c.typ ++ encBytes c.name) with hbefore
  have hspot : w₁.tell.2 = before.length := by
    rw [(BufWriter.flushed_tell w₁).2, h₁]
    rfl
  have h₂ : (w₁.tell.1.writeAll (lenBytes 0)).flushed = .ended (before ++ lenBytes 0) :=
    flushed_write ((BufWriter.flushed_tell w₁).1.trans h₁) _
  obtain ⟨h₃, hlength⟩ := flushed_entries c.vvecs h₂ 0
  set p := c.vvecs.foldl (fun (p : BufWriter × Nat) vecs => (writeVecs p.1 vecs, p.2 + 1))
    (w₁.tell.1.writeAll (lenBytes 0), 0) with hp
  have hafter : p.1.tell.2 = (before ++ lenBytes 0 ++ c.vvecs.flatMap encVecs).length := by
    rw [(BufWriter.flushed_tell p.1).2, h₃]
    rfl
  have hrun : writeCollection w c =
      ((p.1.tell.1.seek w₁.tell.2).writeAll (lenBytes p.2)).seek p.1.tell.2 := rfl
  rw [hrun, BufWriter.flushed_seek, BufWriter.flushed_writeAll, BufWriter.flushed_seek,
    (BufWriter.flushed_tell p.1).1, h₃, hspot, hafter, hlength, Nat.zero_add,
    File.patch_ended _ _ _ _ (by simp)]
  simp only [encCollection, hbefore, List.append_assoc]

/-- All collections so far. -/
theorem flushed_writeCollections (total : Nat) (collections : List Collection) :
    (writeCollections total collections).flushed =
      .ended (lenBytes total ++ collections.flatMap encCollection) := by
  have hloop : ∀ (collections : List Collection) (w : BufWriter) (contents : Bytes),
      w.flushed = .ended contents → (collections.foldl writeCollection w).flushed =
        .ended (contents ++ collections.flatMap encCollection) := by
    intro collections
    induction collections with
    | nil => intro w contents h; simpa using h
    | cons c collections ih =>
      intro w contents h
      rw [List.foldl_cons, List.flatMap_cons, ← List.append_assoc]
      exact ih _ _ (flushed_writeCollection h c)
  have hempty : (BufWriter.new File.create (8 * 1024)).flushed = .ended [] := rfl
  exact hloop collections _ _ (flushed_write hempty (lenBytes total))

end writer

/-! ## What is read -/

theorem readExact_append (bytes rest : Bytes) :
    readExact bytes.length (bytes ++ rest) = .ok (bytes, rest) := by
  unfold readExact
  rw [if_neg (by simp), List.take_left' rfl, List.drop_left' rfl]

theorem readLength_eq {n : Nat} (hn : n ≤ u64Max) (rest : Bytes) :
    readLength (lenBytes n ++ rest) = .ok (n, rest) := by
  have h := readExact_append (lenBytes n) rest
  rw [length_lenBytes] at h
  have hback : (fromLeBytes (lenBytes n) : Prim 8).toNat = n := by
    rw [lenBytes, fromLeBytes_toLeBytes, toNat_usize hn]
  unfold readLength
  simp only [h, ok_bind, hback, pure_eq_ok]

theorem readBytes_eq {bytes : Bytes} (h : bytes.length ≤ u64Max) (rest : Bytes) :
    readBytesStartingWithLen (encBytes bytes ++ rest) = .ok (bytes, rest) := by
  unfold readBytesStartingWithLen encBytes
  rw [List.append_assoc]
  simp only [readLength_eq h, ok_bind, readExact_append]

/-- The lengths of a list of byte strings are `usize`s. -/
def FitsVecs (vecs : List Bytes) : Prop :=
  vecs.length ≤ u64Max ∧ ∀ vec ∈ vecs, vec.length ≤ u64Max

theorem readVecs_eq {vecs : List Bytes} (h : FitsVecs vecs) (rest : Bytes) :
    readVecs (encVecs vecs ++ rest) = .ok (vecs, rest) := by
  unfold readVecs encVecs
  rw [List.append_assoc]
  simp only [readLength_eq h.1, ok_bind]
  exact readMany_flatMap vecs (fun vec hvec rest => readBytes_eq (h.2 vec hvec) rest) rest

/-- The lengths in a collection are `usize`s. -/
structure Fits (c : Collection) : Prop where
  typ : c.typ.length ≤ u64Max
  name : c.name.length ≤ u64Max
  vvecs : c.vvecs.length ≤ u64Max
  vecs : ∀ vecs ∈ c.vvecs, FitsVecs vecs

/-- **A collection is taken off** whatever starts with one. -/
theorem readCollection_eq {c : Collection} (h : Fits c) (rest : Bytes) :
    readCollection (encCollection c ++ rest) = .ok (c, rest) := by
  have hvvecs := readMany_flatMap c.vvecs (fun vecs hv rest => readVecs_eq (h.vecs vecs hv) rest)
    rest
  unfold readCollection encCollection
  simp only [List.append_assoc]
  simp only [readBytes_eq h.typ, readBytes_eq h.name, readLength_eq h.vvecs, hvvecs, ok_bind,
    pure_eq_ok]

end Sled

/-- What `Db::export` gives: every length is one of a value in memory. -/
def Export : Type := { l : List Collection // l.length ≤ u64Max ∧ ∀ c ∈ l, Sled.Fits c }

/-- **Sled's dump is read back.** For every export the parser returns from the file that
`checkpoint` wrote exactly the same list; and after each collection the file ends at the position of
the writer, with the numbers of entries in their places. -/
theorem dump_round_trip (e : Export) :
    Sled.parseDumpedSledExport (Sled.checkpoint e.val) = .ok e.val ∧
    ∀ done rest, e.val = done ++ rest →
      (Sled.writeCollections e.val.length done).flushed =
        .ended (lenBytes e.val.length ++ done.flatMap Sled.encCollection) := by
  obtain ⟨l, hlen, hfits⟩ := e
  refine ⟨?_, fun done _ _ => Sled.flushed_writeCollections l.length done⟩
  have hfile : Sled.checkpoint l = lenBytes l.length ++ l.flatMap Sled.encCollection := by
    rw [Sled.checkpoint, Sled.flushed_writeCollections]
    rfl
  have hread := readMany_flatMap l (fun c hc rest => Sled.readCollection_eq (hfits c hc) rest) []
  rw [List.append_nil] at hread
  unfold Sled.parseDumpedSledExport
  simp only [hfile, Sled.readLength_eq hlen, hread, ok_bind, pure_eq_ok]

/-- Two collections, one of them with an empty entry and an empty string. -/
def twoTrees : List Collection :=
  [⟨[116], [97], [[[1], [2, 3]], [], [[]]]⟩, ⟨[116], [], []⟩]

example : Sled.parseDumpedSledExport (Sled.checkpoint twoTrees) = .ok twoTrees := by
  decide +kernel

end Arcon.State

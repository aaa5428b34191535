import Arcon.Lib.Bytes

/-!
# Files and buffered writers

A file with a position, and a writer that keeps bytes back in a buffer until the buffer is full, the
writer is asked to seek, or it is dropped. What such a writer has written, kept back or not, is
`BufWriter.flushed`; `flushed_writeAll` and `flushed_seek` say that the buffer makes no difference.

A file is `Ended` when the position is at its end. Writing there appends, and a field that was
written as a placeholder and is overwritten later, with the position put back to the end, is as if
it had been written right away (`patch_ended`).
-/

namespace Bytes

/-- A file and the position in it. -/
structure File where
  contents : Bytes
  pos : Nat
  deriving DecidableEq, Repr

namespace File

/-- `File::create`. -/
def create : File := ⟨[], 0⟩

/-- The contents up to a position; a gap is filled with zeros. -/
def upTo (contents : Bytes) (pos : Nat) : Bytes :=
  contents.take pos ++ List.replicate (pos - contents.length) 0

/-- Write at the position. Writing nothing changes nothing. -/
def write (f : File) (data : Bytes) : File :=
  if data = [] then f
  else ⟨upTo f.contents f.pos ++ data ++ f.contents.drop (f.pos + data.length),
    f.pos + data.length⟩

/-- `SeekFrom::Start`. -/
def seek (f : File) (pos : Nat) : File := { f with pos }

/-- A file with these contents and the position at their end. -/
def ended (contents : Bytes) : File := ⟨contents, contents.length⟩

@[simp] theorem length_upTo (contents : Bytes) (pos : Nat) : (upTo contents pos).length = pos := by
  simp only [upTo, List.length_append, List.length_take, List.length_replicate]
  omega

theorem upTo_append_left (before after : Bytes) :
    upTo (before ++ after) before.length = before := by
  simp [upTo]

@[simp] theorem write_nil (f : File) : f.write [] = f := rfl

/-- Two writes in a row are one. -/
theorem write_write (f : File) (a b : Bytes) : (f.write a).write b = f.write (a ++ b) := by
  by_cases ha : a = []
  · subst ha
    rfl
  by_cases hb : b = []
  · subst hb
    rw [write_nil, List.append_nil]
  have hab : a ++ b ≠ [] := by simp [ha]
  have hlen : (upTo f.contents f.pos ++ a).length = f.pos + a.length := by simp
  have hdrop : (upTo f.contents f.pos ++ a ++ f.contents.drop (f.pos + a.length)).drop
      (f.pos + a.length + b.length) = f.contents.drop (f.pos + a.length + b.length) := by
    rw [← hlen, List.drop_length_add_append, List.drop_drop]
  rw [write, write, write, if_neg ha, if_neg hb, if_neg hab]
  simp only
  rw [hdrop, ← hlen, upTo_append_left, hlen, List.length_append, Nat.add_assoc]
  simp only [List.append_assoc]

theorem write_ended (contents data : Bytes) :
    (ended contents).write data = ended (contents ++ data) := by
  by_cases hd : data = []
  · subst hd
    simp
  · simp [ended, write, hd, upTo]

/-- Overwriting a field in the middle. -/
theorem write_middle (before old after new : Bytes) (hlen : new.length = old.length) :
    (File.mk (before ++ old ++ after) before.length).write new =
      ⟨before ++ new ++ after, before.length + new.length⟩ := by
  by_cases hn : new = []
  · subst hn
    rw [List.length_nil, eq_comm, List.length_eq_zero_iff] at hlen
    subst hlen
    rfl
  have hdrop : (before ++ old ++ after).drop (before.length + new.length) = after := by
    rw [hlen, ← List.length_append, List.drop_left]
  rw [write, if_neg hn]
  simp only
  rw [hdrop, List.append_assoc before old, upTo_append_left]

/-- **A placeholder that is overwritten.** After the position is put back, the file is as if the
field had been written in the first place. -/
theorem patch_ended (before old after new : Bytes) (hlen : new.length = old.length) :
    (((ended (before ++ old ++ after)).seek before.length).write new).seek
      (before ++ old ++ after).length = ended (before ++ new ++ after) := by
  have hend : (before ++ old ++ after).length = (before ++ new ++ after).length := by
    simp only [List.length_append, hlen]
  show ((File.mk (before ++ old ++ after) before.length).write new).seek _ = _
  rw [write_middle before old after new hlen, hend]
  rfl

end File

/-- A writer that keeps up to `capacity` bytes back. -/
structure BufWriter where
  inner : File
  buf : Bytes
  capacity : Nat
  deriving DecidableEq, Repr

namespace BufWriter

/-- `BufWriter::with_capacity`. -/
def new (inner : File) (capacity : Nat) : BufWriter := ⟨inner, [], capacity⟩

/-- `flush_buf`. -/
def flushBuf (w : BufWriter) : BufWriter := { w with inner := w.inner.write w.buf, buf := [] }

/-- `write_all`: a buffer that would run over is flushed first, and data that does not fit into an
empty one is not buffered. -/
def writeAll (w : BufWriter) (data : Bytes) : BufWriter :=
  let w := if w.capacity < w.buf.length + data.length then w.flushBuf else w
  if w.capacity ≤ data.length then { w with inner := w.inner.write data }
  else { w with buf := w.buf ++ data }

/-- `seek(SeekFrom::Current(0))`: the position, after a flush. -/
def tell (w : BufWriter) : BufWriter × Nat := (w.flushBuf, w.flushBuf.inner.pos)

/-- `seek(SeekFrom::Start(pos))`, after a flush. -/
def seek (w : BufWriter) (pos : Nat) : BufWriter :=
  { w.flushBuf with inner := w.flushBuf.inner.seek pos }

/-- The file once everything is flushed, as it is when the writer is dropped. -/
def flushed (w : BufWriter) : File := w.flushBuf.inner

/-- **The buffer makes no difference to a write.** -/
theorem flushed_writeAll (w : BufWriter) (data : Bytes) :
    (w.writeAll data).flushed = w.flushed.write data := by
  unfold writeAll
  by_cases hover : w.capacity < w.buf.length + data.length
  · rw [if_pos hover]
    dsimp only
    split_ifs
    · simp [flushed, flushBuf]
    · simp [flushed, flushBuf]
  · rw [if_neg hover]
    dsimp only
    split_ifs with hbig
    · -- nothing was kept back, or the data would not have fitted
      have hbuf : w.buf = [] := List.length_eq_zero_iff.mp (by omega)
      simp [flushed, flushBuf, hbuf]
    · simp [flushed, flushBuf, File.write_write]

theorem flushed_tell (w : BufWriter) : w.tell.1.flushed = w.flushed ∧ w.tell.2 = w.flushed.pos := by
  simp [tell, flushed, flushBuf]

theorem flushed_seek (w : BufWriter) (pos : Nat) : (w.seek pos).flushed = w.flushed.seek pos := by
  simp [seek, flushed, flushBuf]

end BufWriter

/-! ## Reading a number of items -/

section many

variable {α ε : Type}

/-- Read `n` items. -/
def readMany (dec : Bytes → Except ε (α × Bytes)) : Nat → Bytes → Except ε (List α × Bytes)
  | 0, source => .ok ([], source)
  | n + 1, source => do
    let (a, source) ← dec source
    let (as, source) ← readMany dec n source
    pure (a :: as, source)

/-- **Items one after the other are read back**, if each of them is whatever comes behind it. -/
theorem readMany_flatMap {enc : α → Bytes} {dec : Bytes → Except ε (α × Bytes)} (l : List α)
    (h : ∀ a ∈ l, ∀ rest, dec (enc a ++ rest) = .ok (a, rest)) (rest : Bytes) :
    readMany dec l.length (l.flatMap enc ++ rest) = .ok (l, rest) := by
  induction l with
  | nil => rfl
  | cons a l ih =>
    rw [List.flatMap_cons, List.append_assoc, List.length_cons, readMany,
      h a (by simp) (l.flatMap enc ++ rest)]
    simp only [bind, Except.bind, ih fun b hb => h b (by simp [hb])]
    rfl

end many

end Bytes

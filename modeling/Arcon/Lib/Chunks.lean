import Arcon.Lib.Bytes

/-!
# Byte buffers in chunks

A buffer whose bytes lie in several contiguous chunks, as network data does (`bytes::Buf`). Two ways
of reading it differ: `chunk` shows what is left of the current chunk only, while `copy` collects
bytes over as many chunks as it takes. A buffer never shows an empty chunk while bytes are left, so
the chunks are non-empty.

* `copy_fst`, `whole_copy`: `copy` takes the first bytes of the whole and leaves the others.
* **`chunk_copy_eq_iff`**: after `n` bytes were taken, the current chunk shows all that is left
  exactly when every chunk starts at `n` or before (`StartsWithin`).
-/

namespace Bytes

/-- A buffer: the chunks that are left, none of them empty. -/
structure Buf where
  chunks : List Bytes
  nonempty : [] ∉ chunks
  deriving DecidableEq

namespace Buf

/-- The bytes that are left, over all chunks. -/
def whole (b : Buf) : Bytes := b.chunks.flatten

/-- `Buf::remaining`. -/
def remaining (b : Buf) : Nat := b.whole.length

/-- `Buf::bytes`: what is left of the current chunk, empty when nothing is left. -/
def chunk (b : Buf) : Bytes := b.chunks.headD []

/-- Take `n` bytes off the front of some chunks. -/
def copyChunks : Nat → List Bytes → Bytes × List Bytes
  | _, [] => ([], [])
  | n, c :: cs =>
    if n < c.length then (c.take n, c.drop n :: cs)
    else
      let (bs, rest) := copyChunks (n - c.length) cs
      (c ++ bs, rest)

theorem copyChunks_nonempty (n : Nat) {cs : List Bytes} (h : [] ∉ cs) :
    [] ∉ (copyChunks n cs).2 := by
  induction cs generalizing n with
  | nil => exact h
  | cons c cs ih =>
    rw [List.mem_cons, not_or] at h
    unfold copyChunks
    split_ifs with hn
    · rw [List.mem_cons, not_or]
      refine ⟨fun hnil => ?_, h.2⟩
      have hlen : (c.drop n).length = 0 := by rw [← hnil, List.length_nil]
      rw [List.length_drop] at hlen
      omega
    · exact ih (n - c.length) h.2

/-- The loop of `Buf::copy_to_slice`: the next `n` bytes, and the buffer behind them. -/
def copy (n : Nat) (b : Buf) : Bytes × Buf :=
  ((copyChunks n b.chunks).1, ⟨(copyChunks n b.chunks).2, copyChunks_nonempty n b.nonempty⟩)

/-- Every chunk starts at offset `n` or before, so what lies behind `n` is in one piece. -/
def StartsWithin (n : Nat) (b : Buf) : Prop :=
  ∀ i < b.chunks.length, ((b.chunks.take i).flatten).length ≤ n

instance (n : Nat) (b : Buf) : Decidable (b.StartsWithin n) := by
  unfold StartsWithin
  infer_instance

/-! ## What a copy takes and leaves -/

theorem copyChunks_fst (n : Nat) (cs : List Bytes) : (copyChunks n cs).1 = cs.flatten.take n := by
  induction cs generalizing n with
  | nil => simp [copyChunks]
  | cons c cs ih =>
    unfold copyChunks
    split_ifs with hn
    · rw [List.flatten_cons, List.take_append_of_le_length (by omega)]
    · simp only [ih]
      rw [List.flatten_cons, List.take_append, List.take_of_length_le (Nat.le_of_not_lt hn)]

theorem flatten_copyChunks (n : Nat) (cs : List Bytes) :
    (copyChunks n cs).2.flatten = cs.flatten.drop n := by
  induction cs generalizing n with
  | nil => simp [copyChunks]
  | cons c cs ih =>
    unfold copyChunks
    split_ifs with hn
    · rw [List.flatten_cons, List.flatten_cons, List.drop_append_of_le_length (by omega)]
    · simp only [ih]
      rw [List.flatten_cons, List.drop_append, List.drop_of_length_le (Nat.le_of_not_lt hn),
        List.nil_append]

theorem copy_fst (n : Nat) (b : Buf) : (b.copy n).1 = b.whole.take n := copyChunks_fst n b.chunks

theorem whole_copy (n : Nat) (b : Buf) : (b.copy n).2.whole = b.whole.drop n :=
  flatten_copyChunks n b.chunks

theorem chunk_isPrefix_whole (b : Buf) : b.chunk <+: b.whole := by
  unfold chunk whole
  cases b.chunks with
  | nil => exact List.prefix_rfl
  | cons c cs => exact List.prefix_append c cs.flatten

theorem flatten_eq_nil {cs : List Bytes} (h : [] ∉ cs) (hflat : cs.flatten = []) : cs = [] := by
  cases cs with
  | nil => rfl
  | cons c cs =>
    rw [List.flatten_cons, List.append_eq_nil_iff] at hflat
    exact absurd (by simp [hflat.1]) h

/-- The current chunk behind `n` bytes, over lists of chunks. -/
theorem headD_copyChunks_eq_iff (n : Nat) {cs : List Bytes} (h : [] ∉ cs) :
    (copyChunks n cs).2.headD [] = cs.flatten.drop n ↔
      ∀ i < cs.length, ((cs.take i).flatten).length ≤ n := by
  induction cs generalizing n with
  | nil => simp [copyChunks]
  | cons c cs ih =>
    rw [List.mem_cons, not_or] at h
    unfold copyChunks
    split_ifs with hn
    · -- the bytes end within the first chunk, so there may be no second one
      rw [List.headD_cons, List.flatten_cons, List.drop_append_of_le_length (by omega),
        List.self_eq_append_right]
      constructor
      · intro hflat i hi
        have hcs : cs = [] := flatten_eq_nil h.2 hflat
        subst hcs
        have hzero : i = 0 := by simpa using hi
        simp [hzero]
      · intro hall
        by_contra hflat
        have hpos : 1 < (c :: cs).length := by
          cases cs with
          | nil => exact absurd rfl hflat
          | cons => simp
        have hone := hall 1 hpos
        simp only [List.take_succ_cons, List.take_zero, List.flatten_singleton] at hone
        omega
    · simp only
      rw [List.flatten_cons, List.drop_append, List.drop_of_length_le (Nat.le_of_not_lt hn),
        List.nil_append, ih (n - c.length) h.2]
      constructor
      · intro hall i hi
        cases i with
        | zero => simp
        | succ i =>
          have hi' := hall i (by simpa using hi)
          simp only [List.take_succ_cons, List.flatten_cons, List.length_append]
          omega
      · intro hall i hi
        have hi' := hall (i + 1) (by simpa using hi)
        simp only [List.take_succ_cons, List.flatten_cons, List.length_append] at hi'
        omega

/-- **What the current chunk shows.** After `n` bytes were taken it shows all that is left exactly
when every chunk starts at `n` or before. -/
theorem chunk_copy_eq_iff (n : Nat) (b : Buf) :
    (b.copy n).2.chunk = b.whole.drop n ↔ b.StartsWithin n :=
  headD_copyChunks_eq_iff n b.nonempty

theorem chunk_eq_iff (b : Buf) : b.chunk = b.whole ↔ b.StartsWithin 0 := by
  have h := chunk_copy_eq_iff 0 b
  have hcopy : (b.copy 0).2.chunk = b.chunk := by
    unfold chunk copy
    simp only
    cases hcs : b.chunks with
    | nil => rfl
    | cons c cs =>
      have hc : c ≠ [] := fun hnil => b.nonempty (by simp [hcs, hnil])
      rw [copyChunks, if_pos (List.length_pos_iff.mpr hc)]
      rfl
  rwa [hcopy, List.drop_zero] at h

end Buf

end Bytes

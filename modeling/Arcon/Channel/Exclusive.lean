import Arcon.Channel.Strategy
import Mathlib.Data.Finset.Card

/-!
# Every buffer has one owner

The invariant of an exchange (`Exclusive`): a buffer is free, or written by one writer, or held by
one live reader; and what stands in the buffer of a live reader is what was written there when its
message was made. `Owns` says moreover what the writers hold.

* `receive_exclusive`: the receivers keep it, whatever they do and when.
* `Owns.tryGet`, `Owns.push`, `Owns.copyFromWriter`, `Owns.reader`: so do the sender's steps, and
  they do to the contents of the writers what they are meant to do.
-/

namespace Arcon

variable {T : Type}

namespace BufferPool

variable {p : BufferPool T} {i j n : Nat} {b : EventBuffer T}

theorem read_eq (h : p.buffers[i]? = some b) (n : Nat) : p.read i n = b.read n := by
  unfold read
  rw [h]

theorem length_read (h : i < p.buffers.length) (n : Nat) : (p.read i n).length = n := by
  rw [read_eq (List.getElem?_eq_getElem h)]
  simp [EventBuffer.read]

/-- A change that keeps the slots. -/
theorem read_set_of_slots (b' : EventBuffer T) (h : p.buffers[i]? = some b)
    (hb : b'.slots = b.slots) (j n : Nat) :
    BufferPool.read { p with buffers := p.buffers.set i b' } j n = p.read j n := by
  have hi : i < p.buffers.length := (List.getElem?_eq_some_iff.mp h).1
  unfold read
  by_cases hij : i = j
  · subst hij
    rw [List.getElem?_set_self hi, h]
    show b'.read n = b.read n
    unfold EventBuffer.read
    rw [hb]
  · rw [List.getElem?_set_ne hij]

/-- A change of another buffer. -/
theorem read_set_of_ne {b' : EventBuffer T} (h : i ≠ j) (n : Nat) :
    BufferPool.read { p with buffers := p.buffers.set i b' } j n = p.read j n := by
  unfold read
  rw [List.getElem?_set_ne h]

theorem read_indexIncr (j n : Nat) : p.indexIncr.read j n = p.read j n := by
  unfold indexIncr
  split <;> rfl

theorem read_release (i j n : Nat) : (p.release i).read j n = p.read j n := by
  unfold read release
  rw [List.getElem?_modify]
  cases p.buffers[j]? with
  | none => rfl
  | some b =>
    by_cases hij : i = j
    · simp [hij, EventBuffer.release, EventBuffer.read]
    · simp [hij]

theorem push_of_lt {w : BufferWriter} {v : T} (h : p.buffers[w.buffer]? = some b)
    (hlt : w.len < b.capacity) :
    p.push w v = (none, { w with len := w.len + 1 }, { p with
      buffers := p.buffers.set w.buffer
        { b with slots := Function.update b.slots w.len (some v) } }) := by
  unfold push EventBuffer.push
  simp only [h, if_neg (not_le.mpr hlt)]

theorem push_of_le {w : BufferWriter} {v : T} (h : p.buffers[w.buffer]? = some b)
    (hle : b.capacity ≤ w.len) : p.push w v = (some v, w, p) := by
  unfold push EventBuffer.push
  simp only [h, if_pos hle]

end BufferPool

/-- One more slot. -/
theorem EventBuffer.read_succ (b : EventBuffer T) (n : Nat) :
    b.read (n + 1) = b.read n ++ [b.slots n] := by
  unfold EventBuffer.read
  rw [List.range_succ, List.map_append]
  rfl

namespace Exchange

/-- The buffers of the live readers. -/
def reading (x : Exchange T) : List Nat :=
  x.readings.filterMap fun r => if r.live then some r.reader.buffer else none

/-- The messages sent, in order: the channel and the events. -/
def messages (x : Exchange T) : List (Nat × List (Option T)) :=
  x.readings.filterMap fun r => r.channel.map fun c => (c, r.written)

/-- **Every buffer has one owner**, and the readers' events stay as they were written. -/
structure Exclusive (x : Exchange T) : Prop where
  curr : x.pool.currBuffer < x.pool.buffers.length
  size : ∀ b ∈ x.pool.buffers, b.capacity = x.pool.bufferSize
  nodup : (x.writing ++ x.reading).Nodup
  bound : ∀ i ∈ x.writing ++ x.reading, i < x.pool.buffers.length
  free : ∀ i b, x.pool.buffers[i]? = some b → (b.free = true ↔ i ∉ x.writing ++ x.reading)
  kept : ∀ r ∈ x.readings, r.live = true → x.pool.read r.reader.buffer r.reader.len = r.written
  seen : ∀ r ∈ x.readings, r.seen <+: r.written
  len : ∀ r ∈ x.readings, r.written.length = r.reader.len

/-- The writers in use and what they hold. -/
structure Owns (x : Exchange T) (ws : List (BufferWriter × List T)) : Prop where
  exclusive : x.Exclusive
  writing : x.writing.Perm (ws.map fun w => w.1.buffer)
  len : ∀ w ∈ ws, w.1.len = w.2.length
  holds : ∀ w ∈ ws, x.pool.read w.1.buffer w.1.len = w.2.map some

variable {x : Exchange T} {ws : List (BufferWriter × List T)}

theorem Owns.perm {ws' : List (BufferWriter × List T)} (h : x.Owns ws) (hp : ws.Perm ws') :
    x.Owns ws' :=
  ⟨h.exclusive, h.writing.trans (hp.map _), fun w hw => h.len w (hp.mem_iff.mpr hw),
    fun w hw => h.holds w (hp.mem_iff.mpr hw)⟩

/-! ## Changing a message -/

theorem map_modify_of_eq {α β : Type} {f : α → α} {g : α → β} (h : ∀ a, g (f a) = g a)
    (l : List α) (i : Nat) : (l.modify i f).map g = l.map g := by
  refine List.ext_getElem? fun j => ?_
  rw [List.getElem?_map, List.getElem?_map, List.getElem?_modify]
  cases l[j]? with
  | none => rfl
  | some a =>
    by_cases hij : i = j <;> simp [hij, h]

theorem filterMap_modify_of_eq {α β : Type} {f : α → α} {g : α → Option β} (h : ∀ a, g (f a) = g a)
    (l : List α) (i : Nat) : (l.modify i f).filterMap g = l.filterMap g := by
  have := congrArg (List.filterMap id) (map_modify_of_eq h l i)
  rwa [List.filterMap_map, List.filterMap_map] at this

theorem mem_modify {α : Type} {f : α → α} {l : List α} {i : Nat} {a : α} (h : a ∈ l.modify i f) :
    a ∈ l ∨ ∃ b ∈ l, a = f b := by
  obtain ⟨j, hj⟩ := List.mem_iff_getElem?.mp h
  rw [List.getElem?_modify] at hj
  cases hl : l[j]? with
  | none => simp [hl] at hj
  | some b =>
    have hb : b ∈ l := List.mem_of_getElem? hl
    rw [hl] at hj
    by_cases hij : i = j
    · exact .inr ⟨b, hb, by simpa [hij, eq_comm] using hj⟩
    · exact .inl (by simpa [hij] using (by simpa [hij] using hj : b = a) ▸ hb)

/-- A change of what was read, or of where the message is. -/
theorem Exclusive.modifyReading (h : x.Exclusive) (i : Nat) {f : Reading T → Reading T}
    (hreader : ∀ r, (f r).reader = r.reader) (hwritten : ∀ r, (f r).written = r.written)
    (hlive : ∀ r, (f r).live = r.live) (hseen : ∀ r ∈ x.readings, (f r).seen <+: r.written) :
    (x.modifyReading i f).Exclusive := by
  have hreading : (x.modifyReading i f).reading = x.reading :=
    filterMap_modify_of_eq (fun r => by rw [hlive, hreader]) _ _
  refine ⟨h.curr, h.size, ?_, ?_, ?_, fun r hr hl => ?_, fun r hr => ?_, fun r hr => ?_⟩
  · rw [hreading]
    exact h.nodup
  · rw [hreading]
    exact h.bound
  · rw [hreading]
    exact h.free
  · rcases mem_modify hr with hr | ⟨r', hr', rfl⟩
    · exact h.kept r hr hl
    · rw [hreader, hwritten]
      exact h.kept r' hr' ((hlive r').symm.trans hl)
  · rcases mem_modify hr with hr | ⟨r', hr', rfl⟩
    · exact h.seen r hr
    · rw [hwritten]
      exact hseen r' hr'
  · rcases mem_modify hr with hr | ⟨r', hr', rfl⟩
    · exact h.len r hr
    · rw [hreader, hwritten]
      exact h.len r' hr'

theorem modify_split {α : Type} (f : α → α) (l₁ l₂ : List α) (a : α) :
    (l₁ ++ a :: l₂).modify l₁.length f = l₁ ++ f a :: l₂ := by
  induction l₁ with
  | nil => rfl
  | cons b l₁ ih =>
    rw [List.cons_append, List.length_cons, List.modify_succ_cons, ih]
    rfl

theorem split_of_getElem? {α : Type} {l : List α} {i : Nat} {a : α} (h : l[i]? = some a) :
    ∃ l₁ l₂, l = l₁ ++ a :: l₂ ∧ l₁.length = i := by
  obtain ⟨hi, rfl⟩ := List.getElem?_eq_some_iff.mp h
  refine ⟨l.take i, l.drop (i + 1), ?_, ?_⟩
  · rw [List.getElem_cons_drop, List.take_append_drop]
  · rw [List.length_take]
    omega

/-! ## The receivers -/

theorem readNext_exclusive (h : x.Exclusive) (i : Nat) : (x.readNext i).Exclusive := by
  refine h.modifyReading i (fun r => ?_) (fun r => ?_) (fun r => ?_) (fun r hr => ?_)
  · split <;> rfl
  · split <;> rfl
  · split <;> rfl
  · split
    · rename_i hc
      rw [h.kept r hr hc.1]
      obtain ⟨rest, hrest⟩ := h.seen r hr
      rw [← hrest, List.drop_left]
      exact (List.prefix_append_right_inj _).mpr (List.take_prefix 1 rest)
    · exact h.seen r hr

theorem readAll_exclusive (h : x.Exclusive) (i : Nat) : (x.readAll i).Exclusive := by
  refine h.modifyReading i (fun r => ?_) (fun r => ?_) (fun r => ?_) (fun r hr => ?_)
  · split <;> rfl
  · split <;> rfl
  · split <;> rfl
  · split
    · rename_i hc
      show x.pool.read _ _ <+: r.written
      rw [h.kept r hr hc]
    · exact h.seen r hr

/-- What the drop of a reader does. -/
theorem dropReader_cases (x : Exchange T) (i : Nat) : x.dropReader i = x ∨
    ∃ l₁ r l₂, x.readings = l₁ ++ r :: l₂ ∧ l₁.length = i ∧ r.live = true ∧
      x.dropReader i = { x with
        readings := l₁ ++ { r with live := false } :: l₂
        pool := x.pool.release r.reader.buffer } := by
  unfold dropReader
  cases hr : x.readings[i]? with
  | none => exact .inl rfl
  | some r =>
    by_cases hlive : r.live = true
    · obtain ⟨l₁, l₂, hl, rfl⟩ := split_of_getElem? hr
      refine .inr ⟨l₁, r, l₂, hl, rfl, hlive, ?_⟩
      simp only [hlive, if_true, modifyReading, hl, modify_split]
    · exact .inl (by simp [hlive])

/-- **A reader is dropped**: its buffer, and no other, becomes free. -/
theorem dropReader_exclusive (h : x.Exclusive) (i : Nat) : (x.dropReader i).Exclusive := by
  obtain heq | ⟨l₁, r, l₂, hl, -, hlive, heq⟩ := x.dropReader_cases i
  · rwa [heq]
  rw [heq]
  set y : Exchange T := { x with
    readings := l₁ ++ { r with live := false } :: l₂
    pool := x.pool.release r.reader.buffer } with hy
  have hreading : x.reading.Perm (r.reader.buffer :: y.reading) := by
    unfold reading
    rw [hl, hy, List.filterMap_append, List.filterMap_append, List.filterMap_cons,
      List.filterMap_cons, if_pos hlive]
    exact List.perm_middle
  have hin : (x.writing ++ x.reading).Perm (r.reader.buffer :: (y.writing ++ y.reading)) :=
    (hreading.append_left x.writing).trans List.perm_middle
  obtain ⟨hnot, hnd⟩ := List.nodup_cons.mp (hin.nodup_iff.mp h.nodup)
  have hlen : y.pool.buffers.length = x.pool.buffers.length := List.length_modify _ _ _
  have hmem : ∀ r' ∈ y.readings, (r' ∈ x.readings) ∨ r' = { r with live := false } := by
    intro r' hr'
    rw [hl, List.mem_append, List.mem_cons]
    rcases List.mem_append.mp hr' with hr' | hr'
    · exact .inl (.inl hr')
    · rcases List.mem_cons.mp hr' with rfl | hr'
      · exact .inr rfl
      · exact .inl (.inr (.inr hr'))
  refine ⟨hlen ▸ h.curr, fun b hb => ?_, hnd, fun j hj => ?_, fun j b hb => ?_,
    fun r' hr' hl' => ?_, fun r' hr' => ?_, fun r' hr' => ?_⟩
  · rcases mem_modify hb with hb | ⟨b', hb', rfl⟩
    · exact h.size b hb
    · exact h.size b' hb'
  · rw [hlen]
    exact h.bound j (hin.mem_iff.mpr (List.mem_cons_of_mem _ hj))
  · have hbuf : (x.pool.buffers.modify r.reader.buffer EventBuffer.release)[j]? = some b := hb
    rw [List.getElem?_modify] at hbuf
    cases hb' : x.pool.buffers[j]? with
    | none => simp [hb'] at hbuf
    | some b' =>
      have hfree := h.free j b' hb'
      rw [hin.mem_iff, List.mem_cons] at hfree
      rw [hb'] at hbuf
      by_cases hj : r.reader.buffer = j
      · subst hj
        have : b = b'.release := by simpa [eq_comm] using hbuf
        rw [this]
        exact iff_of_true rfl hnot
      · have : b = b' := by simpa [hj, eq_comm] using hbuf
        rw [this, hfree]
        simp [Ne.symm hj]
  · show (x.pool.release r.reader.buffer).read _ _ = _
    rw [BufferPool.read_release]
    rcases hmem r' hr' with hr' | rfl
    · exact h.kept r' hr' hl'
    · cases hl'
  · rcases hmem r' hr' with hr' | rfl
    · exact h.seen r' hr'
    · exact h.seen r (hl ▸ List.mem_append_right _ List.mem_cons_self)
  · rcases hmem r' hr' with hr' | rfl
    · exact h.len r' hr'
    · exact h.len r (hl ▸ List.mem_append_right _ List.mem_cons_self)

/-- **The receivers keep the owners.** -/
theorem receive_exclusive (h : x.Exclusive) (c : Receive) : (x.receive c).Exclusive := by
  cases c <;> unfold receive
  all_goals dsimp only
  all_goals split
  · exact readNext_exclusive h _
  · exact h
  · exact readAll_exclusive h _
  · exact h
  · exact dropReader_exclusive h _
  · exact h

/-! ## The sender -/

theorem mem_reading {r : Reading T} (hr : r ∈ x.readings) (hl : r.live = true) :
    r.reader.buffer ∈ x.reading :=
  List.mem_filterMap.mpr ⟨r, hr, if_pos hl⟩

/-- A change of the slots of a buffer that is being written. -/
theorem Exclusive.setBuffer (h : x.Exclusive) {i : Nat} (hi : i ∈ x.writing)
    {b b' : EventBuffer T} (hb : x.pool.buffers[i]? = some b) (hcap : b'.capacity = b.capacity)
    (hfree : b'.free = b.free) :
    Exclusive { x with pool := { x.pool with buffers := x.pool.buffers.set i b' } } := by
  have hlen : (x.pool.buffers.set i b').length = x.pool.buffers.length := List.length_set
  have hbound : i < x.pool.buffers.length := (List.getElem?_eq_some_iff.mp hb).1
  refine ⟨hlen ▸ h.curr, fun c hc => ?_, h.nodup, fun j hj => hlen ▸ h.bound j hj,
    fun j c hc => ?_, fun r hr hl => ?_, h.seen, h.len⟩
  · rcases List.mem_or_eq_of_mem_set hc with hc | rfl
    · exact h.size c hc
    · rw [hcap]
      exact h.size b (List.mem_of_getElem? hb)
  · by_cases hij : i = j
    · subst hij
      have : b' = c := by simpa [hbound] using hc
      rw [← this, hfree]
      exact h.free i b hb
    · refine h.free j c ?_
      rwa [show (x.pool.buffers.set i b')[j]? = x.pool.buffers[j]? from
        List.getElem?_set_ne hij] at hc
  · rw [BufferPool.read_set_of_ne]
    · exact h.kept r hr hl
    · rintro rfl
      exact (List.nodup_append'.mp h.nodup).2.2 hi (mem_reading hr hl)

theorem Owns.mem_writing (h : x.Owns ws) {w : BufferWriter × List T} (hw : w ∈ ws) :
    w.1.buffer ∈ x.writing :=
  h.writing.mem_iff.mpr (List.mem_map_of_mem hw)

theorem Owns.getElem? (h : x.Owns ws) {w : BufferWriter × List T} (hw : w ∈ ws) :
    ∃ b, x.pool.buffers[w.1.buffer]? = some b ∧ b.capacity = x.pool.bufferSize := by
  have hlt := h.exclusive.bound _ (List.mem_append_left _ (h.mem_writing hw))
  exact ⟨_, List.getElem?_eq_getElem hlt, h.exclusive.size _ (List.getElem_mem hlt)⟩

/-- The writers' buffers are different ones. -/
theorem Owns.ne (h : x.Owns (w :: ws)) {w' : BufferWriter × List T} (hw' : w' ∈ ws) :
    w.1.buffer ≠ w'.1.buffer := by
  have hnd := h.writing.nodup_iff.mp (List.nodup_append'.mp h.exclusive.nodup).1
  rw [List.map_cons, List.nodup_cons] at hnd
  intro heq
  exact hnd.1 (heq ▸ List.mem_map_of_mem hw')

/-- The contents of the first writer change. -/
theorem Owns.setBuffer {w w' : BufferWriter} {l l' : List T} (h : x.Owns ((w, l) :: ws))
    {b b' : EventBuffer T} (hb : x.pool.buffers[w.buffer]? = some b)
    (hcap : b'.capacity = b.capacity) (hfree : b'.free = b.free) (hbuf : w'.buffer = w.buffer)
    (hlen : w'.len = l'.length) (hread : b'.read l'.length = l'.map some) :
    Owns { x with pool := { x.pool with buffers := x.pool.buffers.set w.buffer b' } }
      ((w', l') :: ws) := by
  refine ⟨h.exclusive.setBuffer (h.mem_writing List.mem_cons_self) hb hcap hfree, ?_,
    fun v hv => ?_, fun v hv => ?_⟩
  · simpa [hbuf] using h.writing
  · rcases List.mem_cons.mp hv with rfl | hv
    · exact hlen
    · exact h.len v (List.mem_cons_of_mem _ hv)
  · rcases List.mem_cons.mp hv with rfl | hv
    · have : (x.pool.buffers.set w.buffer b')[w'.buffer]? = some b' := by
        rw [hbuf]
        exact List.getElem?_set_self (List.getElem?_eq_some_iff.mp hb).1
      rw [BufferPool.read_eq this, hlen]
      exact hread
    · rw [BufferPool.read_set_of_ne (h.ne hv)]
      exact h.holds v (List.mem_cons_of_mem _ hv)

/-- **`push`** adds the value at the end, unless the buffer is full. -/
theorem Owns.push {w : BufferWriter} {l : List T} (h : x.Owns ((w, l) :: ws)) (v : T) :
    (l.length < x.pool.bufferSize ∧ ∃ w' pool, x.pool.push w v = (none, w', pool) ∧
      pool.bufferSize = x.pool.bufferSize ∧ Owns { x with pool := pool } ((w', l ++ [v]) :: ws)) ∨
    (x.pool.bufferSize ≤ l.length ∧ x.pool.push w v = (some v, w, x.pool)) := by
  obtain ⟨b, hb, hcap⟩ := h.getElem? List.mem_cons_self
  have hlen : w.len = l.length := h.len _ List.mem_cons_self
  have hread : b.read l.length = l.map some := by
    have := h.holds _ List.mem_cons_self
    rwa [BufferPool.read_eq hb, hlen] at this
  by_cases hroom : l.length < x.pool.bufferSize
  · refine .inl ⟨hroom, _, _, BufferPool.push_of_lt hb (by rw [hlen, hcap]; exact hroom), rfl, ?_⟩
    refine h.setBuffer hb rfl rfl rfl (by simp [hlen]) ?_
    rw [List.length_append, List.length_singleton, EventBuffer.read_succ, List.map_append, ← hread,
      hlen]
    congr 1
    · refine List.map_congr_left fun i hi => Function.update_of_ne ?_ _ _
      exact Nat.ne_of_lt (List.mem_range.mp hi)
    · show [Function.update b.slots l.length (some v) l.length] = [some v]
      rw [Function.update_self]
  · exact .inr ⟨not_lt.mp hroom, BufferPool.push_of_le hb (by rw [hlen, hcap]; omega)⟩

/-- **`copy_from_writer`** makes the contents those of the other writer. -/
theorem Owns.copyFromWriter {w other : BufferWriter} {l : List T}
    (h : x.Owns ((w, []) :: (other, l) :: ws)) :
    ∃ w' pool, x.pool.copyFromWriter w other = (w', pool) ∧ pool.bufferSize = x.pool.bufferSize ∧
      Owns { x with pool := pool } ((w', l) :: (other, l) :: ws) := by
  have hother : (other, l) ∈ (w, []) :: (other, l) :: ws := by simp
  obtain ⟨b, hb, -⟩ := h.getElem? List.mem_cons_self
  obtain ⟨c, hc, -⟩ := h.getElem? hother
  have hlen : other.len = l.length := h.len _ hother
  have hread : c.read l.length = l.map some := by
    have := h.holds _ hother
    rwa [BufferPool.read_eq hc, hlen] at this
  refine ⟨{ w with len := other.len }, { x.pool with
    buffers := x.pool.buffers.set w.buffer (b.copyFrom c other.len) }, ?_, rfl, ?_⟩
  · unfold BufferPool.copyFromWriter
    simp only [show x.pool.buffers[w.buffer]? = some b from hb,
      show x.pool.buffers[other.buffer]? = some c from hc]
  · refine h.setBuffer hb rfl rfl rfl hlen ?_
    rw [← hread, hlen]
    refine List.map_congr_left fun i hi => ?_
    exact if_pos (List.mem_range.mp hi)

/-- **`reader`** passes the buffer of the writer on to the reader. -/
theorem Owns.reader {w : BufferWriter} {l : List T} (h : x.Owns ((w, l) :: ws)) (sender : NodeID) :
    x.pool.read w.buffer w.len = l.map some ∧
      Owns { x with
        writing := x.writing.erase w.buffer
        readings := x.readings ++ [Reading.new sender w.reader (l.map some)] } ws := by
  have hread := h.holds _ List.mem_cons_self
  set y : Exchange T := { x with
    writing := x.writing.erase w.buffer
    readings := x.readings ++ [Reading.new sender w.reader (l.map some)] } with hy
  have hwriting : x.writing.Perm (w.buffer :: y.writing) :=
    List.perm_cons_erase (h.mem_writing List.mem_cons_self)
  have hreading : y.reading = x.reading ++ [w.buffer] := by
    unfold reading
    rw [hy, List.filterMap_append]
    rfl
  have hin : (y.writing ++ y.reading).Perm (x.writing ++ x.reading) := by
    rw [hreading, ← List.append_assoc]
    refine (List.perm_append_singleton _ _).trans ?_
    exact (hwriting.append_right x.reading).symm
  have hex := h.exclusive
  refine ⟨hread, ⟨hex.curr, hex.size, hin.nodup_iff.mpr hex.nodup,
    fun i hi => hex.bound i (hin.mem_iff.mp hi), fun i b hb => ?_, fun r hr hl => ?_,
    fun r hr => ?_, fun r hr => ?_⟩, ?_, fun v hv => h.len v (List.mem_cons_of_mem _ hv),
    fun v hv => h.holds v (List.mem_cons_of_mem _ hv)⟩
  · rw [hin.mem_iff]
    exact hex.free i b hb
  · rcases List.mem_append.mp hr with hr | hr
    · exact hex.kept r hr hl
    · obtain rfl := List.mem_singleton.mp hr
      exact hread
  · rcases List.mem_append.mp hr with hr | hr
    · exact hex.seen r hr
    · obtain rfl := List.mem_singleton.mp hr
      exact List.nil_prefix
  · rcases List.mem_append.mp hr with hr | hr
    · exact hex.len r hr
    · obtain rfl := List.mem_singleton.mp hr
      exact (List.length_map some).trans (h.len _ List.mem_cons_self).symm
  · exact List.Perm.cons_inv (hwriting.symm.trans h.writing)

/-- The pool after the flag of its current buffer was taken. -/
theorem BufferPool.tryGet_eq {p : BufferPool T} {b : EventBuffer T}
    (h : p.buffers[p.currBuffer]? = some b) :
    p.tryGet = some (if b.free then some ⟨p.currBuffer, 0, b.capacity⟩ else none,
      BufferPool.indexIncr { p with
        buffers := p.buffers.set p.currBuffer { b with free := false } }) := by
  unfold BufferPool.tryGet EventBuffer.tryReserve
  simp only [h]

@[simp] theorem indexIncr_buffers (p : BufferPool T) : p.indexIncr.buffers = p.buffers := by
  unfold BufferPool.indexIncr
  split <;> rfl

@[simp] theorem indexIncr_bufferSize (p : BufferPool T) :
    p.indexIncr.bufferSize = p.bufferSize := by
  unfold BufferPool.indexIncr
  split <;> rfl

theorem indexIncr_lt {p : BufferPool T} (h : p.currBuffer < p.buffers.length) :
    p.indexIncr.currBuffer < p.indexIncr.buffers.length := by
  unfold BufferPool.indexIncr
  split
  · exact lt_of_le_of_lt (Nat.zero_le _) h
  · show p.currBuffer + 1 < p.buffers.length
    omega

/-- The flag of the current buffer is taken; `writing` says whose it is then. -/
theorem Exclusive.reserve (h : x.Exclusive) {b : EventBuffer T}
    (hb : x.pool.buffers[x.pool.currBuffer]? = some b) {writing : List Nat}
    (hnd : (writing ++ x.reading).Nodup)
    (hin : ∀ i, i ∈ writing ++ x.reading ↔ i = x.pool.currBuffer ∨ i ∈ x.writing ++ x.reading) :
    Exclusive { x with
      writing := writing
      pool := BufferPool.indexIncr { x.pool with
        buffers := x.pool.buffers.set x.pool.currBuffer { b with free := false } } } := by
  have hlen : (x.pool.buffers.set x.pool.currBuffer { b with free := false }).length =
      x.pool.buffers.length := List.length_set
  refine ⟨?_, fun c hc => ?_, hnd, fun i hi => ?_, fun i c hc => ?_, fun r hr hl => ?_,
    h.seen, h.len⟩
  · refine indexIncr_lt ?_
    rw [hlen]
    exact h.curr
  · rw [indexIncr_buffers] at hc
    rw [indexIncr_bufferSize]
    rcases List.mem_or_eq_of_mem_set hc with hc | rfl
    · exact h.size c hc
    · exact h.size b (List.mem_of_getElem? hb)
  · rw [indexIncr_buffers, hlen]
    rcases (hin i).mp hi with rfl | hi
    · exact h.curr
    · exact h.bound i hi
  · rw [indexIncr_buffers] at hc
    show c.free = true ↔ i ∉ writing ++ x.reading
    rw [hin]
    by_cases hi : x.pool.currBuffer = i
    · subst hi
      have : { b with free := false } = c := by simpa [h.curr] using hc
      simp [← this]
    · rw [List.getElem?_set_ne hi] at hc
      rw [h.free i c hc]
      simp [Ne.symm hi]
  · rw [BufferPool.read_indexIncr]
    exact (BufferPool.read_set_of_slots { b with free := false } hb rfl _ _).trans (h.kept r hr hl)

/-- **`try_get`** hands out a free buffer or none. -/
theorem Owns.tryGet (h : x.Owns ws) : ∃ opt pool, x.pool.tryGet = some (opt, pool) ∧
    pool.bufferSize = x.pool.bufferSize ∧
    match opt with
    | none => Owns { x with pool := pool } ws
    | some w => w.buffer ∉ x.writing ++ x.reading ∧
      Owns { x with pool := pool, writing := w.buffer :: x.writing } ((w, []) :: ws) := by
  have hex := h.exclusive
  obtain ⟨b, hb⟩ : ∃ b, x.pool.buffers[x.pool.currBuffer]? = some b :=
    ⟨_, List.getElem?_eq_getElem hex.curr⟩
  have hfree := hex.free _ b hb
  have hread : ∀ j n, BufferPool.read (BufferPool.indexIncr { x.pool with
      buffers := x.pool.buffers.set x.pool.currBuffer { b with free := false } }) j n =
        x.pool.read j n := fun j n => by
    rw [BufferPool.read_indexIncr]
    exact BufferPool.read_set_of_slots { b with free := false } hb rfl j n
  refine ⟨_, _, BufferPool.tryGet_eq hb, by simp, ?_⟩
  cases hf : b.free with
  | true =>
    have hnot := hfree.mp hf
    refine ⟨hnot, hex.reserve hb (List.nodup_cons.mpr ⟨hnot, hex.nodup⟩) (fun i => List.mem_cons),
      h.writing.cons _, fun v hv => ?_, fun v hv => ?_⟩
    · rcases List.mem_cons.mp hv with rfl | hv
      · rfl
      · exact h.len v hv
    · rw [hread]
      rcases List.mem_cons.mp hv with rfl | hv
      · exact List.eq_nil_of_length_eq_zero (BufferPool.length_read hex.curr 0)
      · exact h.holds v hv
  | false =>
    have hnot : x.pool.currBuffer ∈ x.writing ++ x.reading := by
      by_contra hcon
      rw [hfree.mpr hcon] at hf
      cases hf
    refine ⟨hex.reserve hb hex.nodup fun i => ?_, h.writing, h.len, fun v hv => ?_⟩
    · exact ⟨.inr, fun hi => hi.elim (fun hi => hi ▸ hnot) id⟩
    · rw [hread]
      exact h.holds v hv

end Exchange

end Arcon

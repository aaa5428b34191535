import Arcon.Lib.Bytes
import Arcon.Lib.Exec

/-!
# Reading and writing binary messages

Programs that write to the end of a byte string of bounded size, and programs that read from the
front of one, both as `EStateM` programs over the string: after a fault the bytes written or left
are still there. Numbers are big-endian, in two's complement where they are signed.

`Writes` and `Reads` say which bytes a program appends or takes, and are closed under sequencing
(`Writes.seq`, `Reads.bind`), so that a message is written and read back one field after the other.
`Appends` says the same of programs that may fail, with the condition under which they do not.

* `reads_unsigned`, `reads_signed`: a number is read back from its bytes.
-/

namespace Bytes

/-! ## Big-endian numbers -/

/-- The `w` low bytes of `n`, the lowest last. -/
def toBe (w n : Nat) : Bytes := (toLe w n).reverse

/-- The number with these bytes, the lowest last. -/
def ofBe (bs : Bytes) : Nat := ofLe bs.reverse

/-- The bytes of a signed number. -/
def toBeSigned (w : Nat) (v : Int) : Bytes := toBe w (v % 256 ^ w).toNat

/-- The signed number with these bytes. -/
def ofBeSigned (bs : Bytes) : Int :=
  if 2 * ofBe bs < 256 ^ bs.length then ofBe bs else ofBe bs - 256 ^ bs.length

@[simp] theorem length_toBe (w n : Nat) : (toBe w n).length = w := by
  simp [toBe]

@[simp] theorem length_toBeSigned (w : Nat) (v : Int) : (toBeSigned w v).length = w :=
  length_toBe _ _

theorem ofBe_toBe {w n : Nat} (h : n < 256 ^ w) : ofBe (toBe w n) = n := by
  rw [ofBe, toBe, List.reverse_reverse, ofLe_toLe h]

theorem ofBeSigned_toBe {w n : Nat} (h : 2 * n < 256 ^ w) : ofBeSigned (toBe w n) = n := by
  have hn : n < 256 ^ w := by omega
  rw [ofBeSigned, ofBe_toBe hn, length_toBe, if_pos h]

/-! ## Writing -/

section writing

variable {ε : Type} {limit : Nat}

/-- Append bytes, if they do not exceed the limit. -/
def push (limit : Nat) (full : ε) (bs : Bytes) : EStateM ε Bytes Unit := fun out =>
  if out.length + bs.length ≤ limit then .ok () (out ++ bs) else .error full out

/-- The program appends these bytes wherever they fit. -/
def Writes (limit : Nat) (x : EStateM ε Bytes Unit) (bs : Bytes) : Prop :=
  ∀ out, out.length + bs.length ≤ limit → x out = .ok () (out ++ bs)

theorem writes_push (full : ε) (bs : Bytes) : Writes limit (push limit full bs) bs := by
  intro out h
  rw [push, if_pos h]

/-- The rest of a program runs behind the bytes written. -/
theorem Writes.next {x : EStateM ε Bytes Unit} {y : Unit → EStateM ε Bytes Unit} {bs out : Bytes}
    (hx : Writes limit x bs) (h : out.length + bs.length ≤ limit) :
    (x >>= y) out = y () (out ++ bs) := Exec.bind_ok (hx out h)

/-- Programs one after the other. -/
theorem Writes.seq {x y : EStateM ε Bytes Unit} {bs cs : Bytes} (hx : Writes limit x bs)
    (hy : Writes limit y cs) : Writes limit (x >>= fun _ => y) (bs ++ cs) := by
  intro out h
  rw [List.length_append] at h
  rw [Exec.bind_ok (hx out (by omega)), hy (out ++ bs) (by rw [List.length_append]; omega),
    List.append_assoc]

/-! ### Programs that may fail -/

/-- The program takes nothing away, and it returns with `n` bytes more exactly if `ok` holds and
they fit. -/
def Appends (limit : Nat) (x : EStateM ε Bytes Unit) (ok : Prop) (n : Nat) : Prop :=
  ∀ out, Exec.wp x
    (fun _ out' => out <+: out' ∧ out'.length = out.length + n ∧ ok ∧ out.length + n ≤ limit)
    (fun _ out' => out <+: out' ∧ ¬(ok ∧ out.length + n ≤ limit)) out

theorem appends_push (full : ε) (bs : Bytes) :
    Appends limit (push limit full bs) True bs.length := by
  intro out
  by_cases h : out.length + bs.length ≤ limit
  · exact Exec.wp_of_eq_ok (if_pos h) ⟨List.prefix_append out bs, List.length_append, trivial, h⟩
  · exact Exec.wp_of_eq_error (if_neg h) ⟨List.prefix_refl out, fun hfits => h hfits.2⟩

theorem appends_throw (e : ε) (n : Nat) :
    Appends limit (throw e : EStateM ε Bytes Unit) False n := fun out =>
  ⟨List.prefix_refl out, fun h => h.1⟩

/-- Programs one after the other. -/
theorem Appends.seq {x y : EStateM ε Bytes Unit} {ok ok' : Prop} {n m : Nat}
    (hx : Appends limit x ok n) (hy : Appends limit y ok' m) :
    Appends limit (x >>= fun _ => y) (ok ∧ ok') (n + m) := by
  intro out
  rw [Exec.wp_bind]
  refine Exec.wp_mono (hx out) ?_ ?_
  · rintro _ out₁ ⟨hpre, hlen, hok, -⟩
    refine Exec.wp_mono (hy out₁) ?_ ?_
    · rintro _ out₂ ⟨hpre', hlen', hok', hfits⟩
      exact ⟨hpre.trans hpre', by omega, ⟨hok, hok'⟩, by omega⟩
    · rintro _ out₂ ⟨hpre', hnot⟩
      refine ⟨hpre.trans hpre', fun h => hnot ⟨h.1.2, ?_⟩⟩
      have := h.2
      omega
  · rintro _ out₁ ⟨hpre, hnot⟩
    refine ⟨hpre, fun h => hnot ⟨h.1.1, ?_⟩⟩
    have := h.2
    omega

theorem Appends.of_iff {x : EStateM ε Bytes Unit} {ok ok' : Prop} {n m : Nat}
    (hx : Appends limit x ok n) (hok : ok ↔ ok') (hn : n = m) : Appends limit x ok' m := by
  subst hn
  rwa [propext hok] at hx

theorem Appends.isOk_iff {x : EStateM ε Bytes Unit} {ok : Prop} {n : Nat}
    (hx : Appends limit x ok n) (out : Bytes) :
    Exec.isOk (x out) = true ↔ ok ∧ out.length + n ≤ limit := by
  have hwp := hx out
  unfold Exec.wp at hwp
  cases hrun : x out with
  | ok a out' =>
    rw [hrun] at hwp
    exact iff_of_true rfl hwp.2.2
  | error e out' =>
    rw [hrun] at hwp
    exact iff_of_false (by simp [Exec.isOk]) hwp.2

/-- What is written stays, after a fault too. -/
theorem Appends.isPrefix_final {x : EStateM ε Bytes Unit} {ok : Prop} {n : Nat}
    (hx : Appends limit x ok n) (out : Bytes) : out <+: Exec.final (x out) :=
  Exec.wp_final.mp (Exec.wp_mono (hx out) (fun _ _ h => h.1) (fun _ _ h => h.1))

end writing

/-! ## Reading -/

section reading

variable {ε α β : Type}

/-- Take `n` bytes. -/
def pull (short : ε) (n : Nat) : EStateM ε Bytes Bytes := fun source =>
  if n ≤ source.length then .ok (source.take n) (source.drop n) else .error short source

/-- The program takes exactly these bytes, whatever follows them. -/
def Reads (x : EStateM ε Bytes α) (a : α) (bs : Bytes) : Prop := ∀ rest, x (bs ++ rest) = .ok a rest

theorem reads_pull (short : ε) (bs : Bytes) : Reads (pull short bs.length) bs bs := by
  intro rest
  rw [pull, if_pos (by rw [List.length_append]; omega), List.take_left, List.drop_left]

/-- Programs one after the other. -/
theorem Reads.bind {x : EStateM ε Bytes α} {f : α → EStateM ε Bytes β} {a : α} {b : β}
    {bs cs : Bytes} (hx : Reads x a bs) (hf : Reads (f a) b cs) : Reads (x >>= f) b (bs ++ cs) := by
  intro rest
  rw [List.append_assoc, Exec.bind_ok (hx (cs ++ rest)), hf rest]

/-- A program whose value is used at once. -/
theorem Reads.bind_pure {x : EStateM ε Bytes α} {a : α} {bs : Bytes} (hx : Reads x a bs)
    (f : α → β) : Reads (x >>= fun a => pure (f a)) (f a) bs := by
  intro rest
  rw [Exec.bind_ok (hx rest)]
  rfl

theorem Reads.map {x : EStateM ε Bytes α} {a : α} {bs : Bytes} (hx : Reads x a bs) (f : α → β) :
    Reads (f <$> x) (f a) bs := by
  intro rest
  show EStateM.map f x (bs ++ rest) = _
  rw [EStateM.map, hx rest]

/-- An unsigned number of `w` bytes. -/
def pullUnsigned (short : ε) (w : Nat) : EStateM ε Bytes Nat := ofBe <$> pull short w

/-- A signed number of `w` bytes. -/
def pullSigned (short : ε) (w : Nat) : EStateM ε Bytes Int := ofBeSigned <$> pull short w

theorem reads_unsigned (short : ε) {w n : Nat} (h : n < 256 ^ w) :
    Reads (pullUnsigned short w) n (toBe w n) := by
  have hget := reads_pull short (toBe w n)
  rw [length_toBe] at hget
  have hmap := hget.map ofBe
  rwa [ofBe_toBe h] at hmap

theorem reads_signed (short : ε) (w : Nat) {bs : Bytes} (h : bs.length = w) :
    Reads (pullSigned short w) (ofBeSigned bs) bs := by
  subst h
  exact (reads_pull short bs).map ofBeSigned

end reading

end Bytes

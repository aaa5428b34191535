import Arcon.Lib.Bytes

/-!
# Records on a wire

Decoders that read from the front of a byte string and never look further than they have to
(`Extends`): what they accept they accept in the same way when more bytes follow. A decoder that
`Delimits` an encoder and extends finds nothing in a string that stops short of an encoded value,
and a sequence of such values that is cut anywhere is either refused or read up to the cut
(`readAll_start`).

The Protocol Buffers wire format is such a sequence: fields of a number and a value, which is a
base-128 number or a byte string with its length in front. Numbers are not bounded here; the groups
and the two fixed-width value types are left out.

* **`readAll_start`**: a string that is the start of some encoded values and is accepted consists of
  the first of these values.
* `WireField.decode_delimits`, `WireField.decode_extends`: protobuf fields are read like that.
-/

namespace Bytes

variable {α ε : Type}

/-- What is accepted is accepted in the same way with more bytes behind it. -/
def Extends (dec : Bytes → Except ε (α × Bytes)) : Prop :=
  ∀ p a r q, dec p = .ok (a, r) → dec (p ++ q) = .ok (a, r ++ q)

/-- **What is read off the start of an encoded value** is the value, all of which was there. -/
theorem Delimits.start {enc : α → Bytes} {dec : Bytes → Except ε (α × Bytes)}
    (hd : Delimits enc dec)
    (he : Extends dec) {p q tail r : Bytes} {a b : α} (hp : p ++ q = enc a ++ tail)
    (h : dec p = .ok (b, r)) : b = a ∧ p = enc a ++ r ∧ tail = r ++ q := by
  have hab : (Except.ok (b, r ++ q) : Except ε (α × Bytes)) = .ok (a, tail) := by
    rw [← he p b r q h, hp, hd a tail]
  injection hab with hab
  injection hab with hba htail
  refine ⟨hba, ?_, htail.symm⟩
  rw [← htail, ← List.append_assoc] at hp
  exact List.append_cancel_right hp

/-- Read values until the bytes are used up; `fuel` bounds their number. -/
def readAll (dec : Bytes → Except ε (α × Bytes)) : Nat → Bytes → Except ε (List α)
  | _, [] => .ok []
  | 0, _ => .ok []
  | fuel + 1, bs =>
    match dec bs with
    | .error e => .error e
    | .ok (a, rest) =>
      match readAll dec fuel rest with
      | .error e => .error e
      | .ok as => .ok (a :: as)

section readAll

variable {enc : α → Bytes} {dec : Bytes → Except ε (α × Bytes)}

theorem readAll_nil (fuel : Nat) : readAll dec fuel [] = .ok [] := by
  cases fuel <;> rfl

theorem readAll_step (fuel : Nat) {bs : Bytes} (hbs : bs ≠ []) :
    readAll dec (fuel + 1) bs = match dec bs with
      | .error e => .error e
      | .ok (a, rest) =>
        match readAll dec fuel rest with
        | .error e => .error e
        | .ok as => .ok (a :: as) := by
  cases bs with
  | nil => exact absurd rfl hbs
  | cons b bs => rfl

/-- Encoded values one after the other are read back. -/
theorem readAll_flatMap (hd : Delimits enc dec) (hne : ∀ a, enc a ≠ []) (l : List α) (fuel : Nat)
    (hfuel : l.length ≤ fuel) : readAll dec fuel (l.flatMap enc) = .ok l := by
  induction l generalizing fuel with
  | nil => exact readAll_nil fuel
  | cons a l ih =>
    obtain ⟨fuel, rfl⟩ : ∃ n, fuel = n + 1 := Nat.exists_eq_add_of_le' (by simp at hfuel; omega)
    have hstart : (a :: l).flatMap enc ≠ [] := by
      rw [List.flatMap_cons]
      exact fun h => hne a (List.append_eq_nil_iff.mp h).1
    rw [readAll_step fuel hstart, List.flatMap_cons, hd a (l.flatMap enc)]
    simp only
    rw [ih fuel (by simpa using hfuel)]

/-- **A sequence that is cut.** If a string starts a sequence of encoded values and is accepted, it
consists of the first of these values. -/
theorem readAll_start (hd : Delimits enc dec) (he : Extends dec) (hne : ∀ a, enc a ≠ [])
    {l as : List α} {p : Bytes} (hp : p <+: l.flatMap enc)
    (fuel : Nat) (hfuel : p.length ≤ fuel) (h : readAll dec fuel p = .ok as) :
    as <+: l ∧ p = as.flatMap enc := by
  induction l generalizing p as fuel with
  | nil =>
    have hnil : p = [] := List.prefix_nil.mp hp
    subst hnil
    rw [readAll_nil] at h
    injection h with h
    subst h
    exact ⟨List.prefix_iff_eq_append.mpr rfl, rfl⟩
  | cons a l ih =>
    by_cases hnil : p = []
    · subst hnil
      rw [readAll_nil] at h
      injection h with h
      subst h
      exact ⟨List.prefix_iff_eq_append.mpr rfl, rfl⟩
    have hpos : 0 < p.length := List.length_pos_iff.mpr hnil
    obtain ⟨fuel, rfl⟩ : ∃ n, fuel = n + 1 := Nat.exists_eq_add_of_le' (by omega)
    rw [readAll_step fuel hnil] at h
    cases hdec : dec p with
    | error e => simp [hdec] at h
    | ok ar =>
      obtain ⟨b, r⟩ := ar
      obtain ⟨q, hq⟩ := hp
      rw [List.flatMap_cons] at hq
      obtain ⟨rfl, hpr, htail⟩ := hd.start he hq hdec
      have hlen : p.length = (enc b).length + r.length := by rw [hpr, List.length_append]
      have henc : 0 < (enc b).length := List.length_pos_iff.mpr (hne b)
      rw [hdec] at h
      simp only at h
      cases hrest : readAll dec fuel r with
      | error e => simp [hrest] at h
      | ok as' =>
        rw [hrest] at h
        injection h with h
        subst h
        obtain ⟨hpre, hr⟩ := ih ⟨q, htail.symm⟩ fuel (by omega) hrest
        exact ⟨List.cons_prefix_cons.mpr ⟨rfl, hpre⟩, by rw [hpr, List.flatMap_cons, ← hr]⟩

end readAll

/-! ## Base-128 numbers -/

/-- The base-128 digits of `n`, the lowest first, all but the last with the top bit set; `fuel`
bounds their number. -/
def varintDigits : Nat → Nat → Bytes
  | 0, _ => []
  | fuel + 1, n =>
    if n < 128 then [UInt8.ofNat n] else UInt8.ofNat (n % 128 + 128) :: varintDigits fuel (n / 128)

/-- A number in base 128. -/
def toVarint (n : Nat) : Bytes := varintDigits (n + 1) n

/-- Read a base-128 number. -/
def readVarint : Bytes → Except String (Nat × Bytes)
  | [] => .error "invalid varint"
  | b :: bs =>
    if b.toNat < 128 then .ok (b.toNat, bs)
    else
      match readVarint bs with
      | .error e => .error e
      | .ok (n, rest) => .ok (b.toNat - 128 + 128 * n, rest)

theorem readVarint_digits (fuel n : Nat) (h : n < fuel) (rest : Bytes) :
    readVarint (varintDigits fuel n ++ rest) = .ok (n, rest) := by
  induction fuel generalizing n with
  | zero => omega
  | succ fuel ih =>
    unfold varintDigits
    split_ifs with hn
    · have hb : (UInt8.ofNat n).toNat = n := by
        rw [UInt8.toNat_ofNat_of_lt']
        exact Nat.lt_trans hn (by decide)
      rw [List.singleton_append, readVarint, hb, if_pos hn]
    · have hb : (UInt8.ofNat (n % 128 + 128)).toNat = n % 128 + 128 := by
        rw [UInt8.toNat_ofNat_of_lt']
        show n % 128 + 128 < 256
        omega
      have hdiv : n / 128 < fuel := by omega
      rw [List.cons_append, readVarint, hb, if_neg (by omega), ih (n / 128) hdiv]
      simp only [Except.ok.injEq, Prod.mk.injEq, and_true]
      omega

theorem varint_delimits : Delimits toVarint readVarint := by
  intro n rest
  exact readVarint_digits (n + 1) n (by omega) rest

theorem toVarint_ne_nil (n : Nat) : toVarint n ≠ [] := by
  unfold toVarint varintDigits
  split_ifs <;> simp

theorem varint_extends : Extends readVarint := by
  intro p n r q h
  induction p generalizing n r with
  | nil => cases h
  | cons b bs ih =>
    unfold readVarint at h
    split_ifs at h with hb
    · injection h with h
      injection h with hn hr
      subst hn hr
      rw [List.cons_append, readVarint, if_pos hb]
    · cases hrest : readVarint bs with
      | error e => simp [hrest] at h
      | ok nr =>
        obtain ⟨n', r'⟩ := nr
        rw [hrest] at h
        injection h with h
        injection h with hn hr
        subst hn hr
        rw [List.cons_append, readVarint, if_neg hb, ih n' r' hrest]

/-! ## Fields -/

/-- The value of a field. -/
inductive Value
  | varint (n : Nat)
  | len (payload : Bytes)
  deriving DecidableEq, Repr

/-- A field: its number and its value. -/
structure WireField where
  num : Nat
  value : Value
  deriving DecidableEq, Repr

namespace WireField

/-- The key, the number and the type of the value in one, and then the value. -/
def encode (f : WireField) : Bytes :=
  match f.value with
  | .varint n => toVarint (8 * f.num) ++ toVarint n
  | .len payload => toVarint (8 * f.num + 2) ++ (toVarint payload.length ++ payload)

/-- The value of a field with this key. -/
def readValue (key : Nat) (bs : Bytes) : Except String (WireField × Bytes) :=
  match readVarint bs with
  | .error e => .error e
  | .ok (n, rest) =>
    if key % 8 = 0 then .ok (⟨key / 8, .varint n⟩, rest)
    else if key % 8 = 2 then
      if n ≤ rest.length then .ok (⟨key / 8, .len (rest.take n)⟩, rest.drop n)
      else .error "buffer underflow"
    else .error "invalid wire type value"

/-- Read a field. -/
def decode (bs : Bytes) : Except String (WireField × Bytes) :=
  match readVarint bs with
  | .error e => .error e
  | .ok (key, rest) => readValue key rest

theorem encode_ne_nil (f : WireField) : f.encode ≠ [] := by
  unfold encode
  cases f.value with
  | varint n => exact fun h => toVarint_ne_nil _ (List.append_eq_nil_iff.mp h).1
  | len payload => exact fun h => toVarint_ne_nil _ (List.append_eq_nil_iff.mp h).1

theorem decode_delimits : Delimits encode decode := by
  rintro ⟨num, value⟩ rest
  cases value with
  | varint n =>
    simp only [encode, decode, List.append_assoc, varint_delimits _ _, readValue]
    rw [if_pos (by omega)]
    simp
  | len payload =>
    simp only [encode, decode, List.append_assoc, varint_delimits _ _, readValue]
    rw [if_neg (by omega), if_pos (by omega), if_pos (by simp)]
    simp only [List.take_left, List.drop_left, Except.ok.injEq, Prod.mk.injEq, and_true,
      WireField.mk.injEq]
    omega

theorem readValue_extends (key : Nat) : Extends (readValue key) := by
  intro p f r q h
  unfold readValue at h ⊢
  cases hn : readVarint p with
  | error e => simp [hn] at h
  | ok nr =>
    obtain ⟨n, rest⟩ := nr
    rw [hn] at h
    rw [varint_extends p n rest q hn]
    simp only at h ⊢
    split_ifs at h with h0 h2 hle
    · injection h with h
      injection h with hf hr
      rw [if_pos h0, hf, hr]
    · injection h with h
      injection h with hf hr
      rw [if_neg h0, if_pos h2, if_pos (by rw [List.length_append]; omega),
        List.take_append_of_le_length hle, List.drop_append_of_le_length hle, hf, hr]

theorem decode_extends : Extends decode := by
  intro p f r q h
  unfold decode at h ⊢
  cases hk : readVarint p with
  | error e => simp [hk] at h
  | ok kr =>
    obtain ⟨key, rest⟩ := kr
    rw [hk] at h
    rw [varint_extends p key rest q hk]
    exact readValue_extends key rest f r q h

theorem length_le_encode (fs : List WireField) : fs.length ≤ (fs.flatMap encode).length := by
  induction fs with
  | nil => simp
  | cons f fs ih =>
    have hpos := List.length_pos_iff.mpr f.encode_ne_nil
    rw [List.flatMap_cons, List.length_append, List.length_cons]
    omega

/-- The fields of a message are read back. -/
theorem readAll_encode (fs : List WireField) :
    readAll decode (fs.flatMap encode).length (fs.flatMap encode) = .ok fs :=
  readAll_flatMap decode_delimits encode_ne_nil fs _ (length_le_encode fs)

end WireField

end Bytes

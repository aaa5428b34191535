import Arcon.Data
import Arcon.Lib.Splitting
import Arcon.Operator

/-!
# Decoders of lines (`arcon_macros/src/lib.rs`)

`#[arcon_decoder]` writes a `FromStr` for a struct: the line is trimmed and split at the delimiter,
the pieces are trimmed, and the field at a position is parsed from the piece at that position. A
struct is here the list of its fields, each with its type and the `FromStr` of the type. A text is
the list of its characters.

The pieces are indexed, so a line with too few of them is a panic and not an error, unless a piece
that is there does not parse.

* `parseFields_cases`, `fromStr_cases`: the three ways a line can end.
* `ok_iff`: what a decoded line has to look like.
* `Separable`: joined texts that come apart again. `separable_char`: those joined by one character.
* **`fromStr_exact`**: when a line is decoded, when it is an error, and when joined texts are
  decoded to their values.
* `fromStr_short`: a line that is too short, and a text that runs into its delimiter.
-/

namespace Arcon.LineDecoder

open Splitting

/-- A `&str`, by its characters. -/
abbrev Text := List Char

/-- `char::is_whitespace`: the characters with the Unicode property `White_Space`. -/
def isWhitespace (c : Char) : Bool :=
  (0x9 ≤ c.toNat && c.toNat ≤ 0xD) || c.toNat == 0x20 || c.toNat == 0x85 || c.toNat == 0xA0 ||
    c.toNat == 0x1680 || (0x2000 ≤ c.toNat && c.toNat ≤ 0x200A) || c.toNat == 0x2028 ||
    c.toNat == 0x2029 || c.toNat == 0x202F || c.toNat == 0x205F || c.toNat == 0x3000

/-- `str::trim`. -/
def trim (s : Text) : Text := Splitting.trim isWhitespace s

/-- A field: its type, and `FromStr` for it without the error. -/
structure Field where
  ty : Type
  parse : Text → Option ty

/-- The struct: a value for each field. -/
def Struct : List Field → Type
  | [] => Unit
  | f :: fs => f.ty × Struct fs

/-- The delimiter: a comma unless another one is given. -/
def delim (delimiter : Text) : Text := if delimiter.isEmpty then [','] else delimiter

/-- `string_vec`: the trimmed pieces of the trimmed line. -/
def stringVec (delimiter s : Text) : List Text :=
  (split (delim delimiter) (trim s)).map trim

/-- The struct expression, from this position on. -/
def parseFields (vec : List Text) : Nat → (fields : List Field) →
    Except Crash (Except String (Struct fields))
  | _, [] => .ok (.ok ())
  | pos, f :: fs =>
    match vec[pos]? with
    | none => .error (.panic ("index out of bounds: the len is " ++ toString vec.length ++
        " but the index is " ++ toString pos))
    | some piece =>
      match f.parse piece with
      | none => .ok (.error "Failed to parse field")
      | some v =>
        match parseFields vec (pos + 1) fs with
        | .error crash => .error crash
        | .ok (.error e) => .ok (.error e)
        | .ok (.ok vs) => .ok (.ok (v, vs))

/-- The generated `from_str`. -/
def fromStr (delimiter : Text) (fields : List Field) (s : Text) :
    Except Crash (Except String (Struct fields)) :=
  parseFields (stringVec delimiter s) 0 fields

/-! ## What a line is decoded to -/

/-- The first pieces parse as the fields, to these values. -/
def Reads : (fields : List Field) → List Text → Struct fields → Prop
  | [], _, _ => True
  | _ :: _, [], _ => False
  | f :: fs, piece :: pieces, vs => f.parse piece = some vs.1 ∧ Reads fs pieces vs.2

theorem Reads.unique {fields : List Field} {pieces : List Text} {vs vs' : Struct fields}
    (h : Reads fields pieces vs) (h' : Reads fields pieces vs') : vs = vs' := by
  induction fields generalizing pieces with
  | nil => rfl
  | cons f fs ih =>
    cases pieces with
    | nil => exact absurd h id
    | cons piece pieces =>
      refine Prod.ext ?_ (ih h.2 h'.2)
      exact Option.some.inj (h.1.symm.trans h'.1)

theorem exists_reads_iff {fields : List Field} {pieces : List Text} :
    (∃ vs, Reads fields pieces vs) ↔ fields.length ≤ pieces.length ∧
      ∀ e ∈ fields.zip pieces, (e.1.parse e.2).isSome := by
  induction fields generalizing pieces with
  | nil => exact iff_of_true ⟨(), trivial⟩ ⟨Nat.zero_le _, by simp⟩
  | cons f fs ih =>
    cases pieces with
    | nil => simp [Reads]
    | cons piece pieces =>
      rw [List.zip_cons_cons, List.forall_mem_cons, List.length_cons, List.length_cons,
        Nat.add_le_add_iff_right, ← and_left_comm, ← ih]
      constructor
      · rintro ⟨vs, hv, hvs⟩
        exact ⟨by rw [hv]; rfl, vs.2, hvs⟩
      · rintro ⟨hv, vs, hvs⟩
        obtain ⟨v, hv⟩ := Option.isSome_iff_exists.mp hv
        exact ⟨(v, vs), hv, hvs⟩

/-- **How the fields of a line end**: with the values, with the first piece that does not parse, or
behind the last piece. -/
theorem parseFields_cases (vec : List Text) (pos : Nat) (fields : List Field) :
    (∃ vs, parseFields vec pos fields = .ok (.ok vs) ∧ Reads fields (vec.drop pos) vs) ∨
    (parseFields vec pos fields = .ok (.error "Failed to parse field") ∧
      ∃ e ∈ fields.zip (vec.drop pos), e.1.parse e.2 = none) ∨
    ((∃ msg, parseFields vec pos fields = .error (.panic msg)) ∧
      (vec.drop pos).length < fields.length ∧
      ∀ e ∈ fields.zip (vec.drop pos), (e.1.parse e.2).isSome) := by
  induction fields generalizing pos with
  | nil => exact .inl ⟨(), rfl, trivial⟩
  | cons f fs ih =>
    unfold parseFields
    cases hpiece : vec[pos]? with
    | none =>
      have hnil : vec.drop pos = [] := List.drop_eq_nil_of_le (List.getElem?_eq_none_iff.mp hpiece)
      rw [hnil]
      exact .inr (.inr ⟨⟨_, rfl⟩, Nat.succ_pos _, by simp⟩)
    | some piece =>
      have hdrop : vec.drop pos = piece :: vec.drop (pos + 1) := by
        obtain ⟨hlt, rfl⟩ := List.getElem?_eq_some_iff.mp hpiece
        exact List.drop_eq_getElem_cons hlt
      rw [hdrop, List.zip_cons_cons]
      cases hv : f.parse piece with
      | none => exact .inr (.inl ⟨by simp [hv], _, List.mem_cons_self, hv⟩)
      | some v =>
        rcases ih (pos + 1) with
          ⟨vs, hrun, hreads⟩ | ⟨hrun, e, he, hnone⟩ | ⟨⟨msg, hrun⟩, hlt, hall⟩
        · exact .inl ⟨(v, vs), by simp [hv, hrun], hv, hreads⟩
        · exact .inr (.inl ⟨by simp [hv, hrun], e, List.mem_cons_of_mem _ he, hnone⟩)
        · refine .inr (.inr ⟨⟨msg, by simp [hv, hrun]⟩, Nat.succ_lt_succ hlt, ?_⟩)
          rw [List.forall_mem_cons]
          exact ⟨by rw [hv]; rfl, hall⟩

section line

variable {delimiter s : Text} {fields : List Field}

/-- **How a line ends.** -/
theorem fromStr_cases (delimiter s : Text) (fields : List Field) :
    (∃ vs, fromStr delimiter fields s = .ok (.ok vs) ∧
      Reads fields (stringVec delimiter s) vs) ∨
    (fromStr delimiter fields s = .ok (.error "Failed to parse field") ∧
      ∃ e ∈ fields.zip (stringVec delimiter s), e.1.parse e.2 = none) ∨
    ((∃ msg, fromStr delimiter fields s = .error (.panic msg)) ∧
      (stringVec delimiter s).length < fields.length ∧
      ∀ e ∈ fields.zip (stringVec delimiter s), (e.1.parse e.2).isSome) := by
  have hcases := parseFields_cases (stringVec delimiter s) 0 fields
  rwa [List.drop_zero] at hcases

/-- A piece that does not parse is not among pieces that do. -/
theorem not_all_isSome {pieces : List Text}
    (hsome : ∀ e ∈ fields.zip pieces, (e.1.parse e.2).isSome) :
    ¬∃ e ∈ fields.zip pieces, e.1.parse e.2 = none := by
  rintro ⟨e, he, hnone⟩
  have := hsome e he
  rw [hnone] at this
  cases this

/-- **A decoded line** is one whose first pieces parse. -/
theorem ok_iff {vs : Struct fields} :
    fromStr delimiter fields s = .ok (.ok vs) ↔ Reads fields (stringVec delimiter s) vs := by
  constructor
  · intro h
    rcases fromStr_cases delimiter s fields with ⟨vs', hrun, hreads⟩ | ⟨hrun, -⟩ | ⟨⟨msg, hrun⟩, -⟩
    · rw [h] at hrun
      cases hrun
      exact hreads
    · rw [h] at hrun
      cases hrun
    · rw [h] at hrun
      cases hrun
  · intro h
    obtain ⟨hle, hsome⟩ := exists_reads_iff.mp ⟨vs, h⟩
    rcases fromStr_cases delimiter s fields with ⟨vs', hrun, hreads⟩ | ⟨-, hfails⟩ | ⟨-, hlt, -⟩
    · rw [hrun, hreads.unique h]
    · exact absurd hfails (not_all_isSome hsome)
    · exact absurd hle (Nat.not_le.mpr hlt)

/-- **A line of enough pieces**, or one with a piece that does not parse, does not panic. -/
theorem returns (h : fields.length ≤ (stringVec delimiter s).length ∨
      ∃ e ∈ fields.zip (stringVec delimiter s), e.1.parse e.2 = none) :
    (∃ vs, fromStr delimiter fields s = .ok (.ok vs)) ∨
      fromStr delimiter fields s = .ok (.error "Failed to parse field") := by
  rcases fromStr_cases delimiter s fields with ⟨vs, hrun, -⟩ | ⟨hrun, -⟩ | ⟨-, hlt, hsome⟩
  · exact .inl ⟨vs, hrun⟩
  · exact .inr hrun
  · rcases h with hle | hfails
    · exact absurd hle (Nat.not_le.mpr hlt)
    · exact absurd hfails (not_all_isSome hsome)

end line

/-! ## Joined texts -/

theorem delim_ne_nil (delimiter : Text) : delim delimiter ≠ [] := by
  unfold delim
  split
  · exact List.cons_ne_nil _ _
  · rename_i h
    simpa using h

/-- Joined texts that come apart again: there is no white space around them, and no text runs into
the delimiter behind it. -/
def Separable (d : Text) (texts : List Text) : Prop :=
  trim (d.intercalate texts) = d.intercalate texts ∧ ∀ t ∈ texts.dropLast, Clear d t

/-- A field of type `String` takes every text as it is. -/
def stringField : Field := ⟨Text, some⟩

/-- The struct of `String`s with these texts. -/
def strings : (texts : List Text) → Struct (texts.map fun _ => stringField)
  | [] => ()
  | t :: ts => (t, strings ts)

theorem reads_strings (texts : List Text) : Reads _ texts (strings texts) := by
  induction texts with
  | nil => trivial
  | cons t ts ih => exact ⟨rfl, ih⟩

theorem isPrefix_of_reads {texts pieces : List Text} (h : Reads _ pieces (strings texts)) :
    texts <+: pieces := by
  induction texts generalizing pieces with
  | nil => exact List.nil_prefix
  | cons t ts ih =>
    cases pieces with
    | nil => exact absurd h id
    | cons piece pieces =>
      obtain rfl : piece = t := Option.some.inj h.1
      exact List.cons_prefix_cons.mpr ⟨rfl, ih h.2⟩

/-- The pieces of separable texts are the texts. -/
theorem stringVec_joined {delimiter : Text} {texts : List Text} (hne : texts ≠ [])
    (htexts : ∀ t ∈ texts, ¬delim delimiter <:+: t ∧ trim t = t)
    (hsep : Separable (delim delimiter) texts) :
    stringVec delimiter ((delim delimiter).intercalate texts) = texts := by
  have hsplit : split (delim delimiter) ((delim delimiter).intercalate texts) = texts := by
    cases texts with
    | nil => exact absurd rfl hne
    | cons t ts =>
      refine (split_join_iff (delim_ne_nil delimiter)).mpr ⟨hsep.2, fun u hu => ?_⟩
      exact (htexts u (List.mem_of_getLast? hu)).1
  unfold stringVec
  rw [hsep.1, hsplit]
  exact (List.map_congr_left fun t ht => (htexts t ht).2).trans (List.map_id texts)

/-- **When joined texts are decoded to their values**: for every struct whose fields they parse as,
exactly if they come apart again. -/
theorem joined_iff {delimiter : Text} {texts : List Text} (hne : texts ≠ [])
    (htexts : ∀ t ∈ texts, ¬delim delimiter <:+: t ∧ trim t = t) :
    (∀ fields vs, fields.length = texts.length → Reads fields texts vs →
        fromStr delimiter fields ((delim delimiter).intercalate texts) = .ok (.ok vs)) ↔
      Separable (delim delimiter) texts := by
  constructor
  · intro h
    -- a struct of `String`s shows what the pieces are
    have hok := h _ (strings texts) (List.length_map _) (reads_strings texts)
    obtain ⟨htrim, hsplit⟩ := split_trim_join (delim_ne_nil delimiter) hne
      (isPrefix_of_reads (ok_iff.mp hok))
    refine ⟨htrim, ?_⟩
    cases texts with
    | nil => exact absurd rfl hne
    | cons t ts => exact ((split_join_iff (delim_ne_nil delimiter)).mp hsplit).1
  · intro hsep fields vs _ hreads
    rw [ok_iff, stringVec_joined hne htexts hsep]
    exact hreads

/-- **One character** that is no white space, such as the comma, always comes apart. -/
theorem separable_char {c : Char} (hc : isWhitespace c = false) {texts : List Text}
    (htexts : ∀ t ∈ texts, ¬[c] <:+: t ∧ trim t = t) : Separable [c] texts := by
  constructor
  · refine trim_join (trim_eq_self_iff.mpr ?_) fun t ht => (htexts t ht).2
    simp [hc]
  · intro t ht k hk hpre
    have hmem : c ∈ t := by
      rw [List.drop_append_of_le_length hk.le, List.drop_eq_getElem_cons hk] at hpre
      rw [(List.cons_prefix_cons.mp hpre).1]
      exact List.getElem_mem hk
    exact (htexts t (List.mem_of_mem_dropLast ht)).1 ((List.singleton_infix_iff c t).mpr hmem)

/-- **The decoder.** For every delimiter, every struct and every line: the line is decoded exactly
if it has enough pieces and the first ones parse as the fields, and if it has enough pieces or one
of the first does not parse, what is not decoded is an error. Texts that parse, have no delimiter
inside and no white space around them are decoded from their join, whatever the struct is, exactly
if they come apart again; and with a delimiter of one character that is no white space they do. -/
theorem fromStr_exact (delimiter : Text) :
    (∀ fields s,
      ((∃ vs, fromStr delimiter fields s = .ok (.ok vs)) ↔
        fields.length ≤ (stringVec delimiter s).length ∧
          ∀ e ∈ fields.zip (stringVec delimiter s), (e.1.parse e.2).isSome) ∧
      (fields.length ≤ (stringVec delimiter s).length ∨
          (∃ e ∈ fields.zip (stringVec delimiter s), e.1.parse e.2 = none) →
        (∃ vs, fromStr delimiter fields s = .ok (.ok vs)) ∨
          fromStr delimiter fields s = .ok (.error "Failed to parse field"))) ∧
    (∀ texts, texts ≠ [] → (∀ t ∈ texts, ¬delim delimiter <:+: t ∧ trim t = t) →
      ((∀ fields vs, fields.length = texts.length → Reads fields texts vs →
          fromStr delimiter fields ((delim delimiter).intercalate texts) = .ok (.ok vs)) ↔
        Separable (delim delimiter) texts)) ∧
    ∀ c texts, delim delimiter = [c] → isWhitespace c = false →
      (∀ t ∈ texts, ¬[c] <:+: t ∧ trim t = t) → Separable (delim delimiter) texts := by
  refine ⟨fun fields s => ⟨?_, returns⟩, fun texts => joined_iff, fun c texts hdelim hc ht => ?_⟩
  · simp only [ok_iff]
    exact exists_reads_iff
  · rw [hdelim]
    exact separable_char hc ht

/-- `FromStr` for the unsigned numbers up to `max`: digits, with or without a plus sign. -/
def parseUnsigned (max : Nat) (s : Text) : Option Nat :=
  let digits := if s.head? = some '+' then s.tail else s
  let n := digits.foldl (fun n c => 10 * n + (c.toNat - '0'.toNat)) 0
  if digits ≠ [] ∧ digits.all Char.isDigit ∧ n ≤ max then some n else none

/-- A field of type `u64`. -/
def u64Field : Field := ⟨Nat, parseUnsigned u64Max⟩

/-- A field of type `u32`. -/
def u32Field : Field := ⟨Nat, parseUnsigned (2 ^ 32 - 1)⟩

/-- The `SemicolonItem` of the tests. -/
theorem fromStr_exact_semicolon :
    fromStr [';'] [u64Field, stringField, u32Field] "100;test;250".toList =
      .ok (.ok ((100 : Nat), "test".toList, (250 : Nat), ())) := by
  obtain ⟨-, hjoined, hchar⟩ := fromStr_exact [';']
  refine (hjoined ["100".toList, "test".toList, "250".toList] (by simp) ?_).mpr ?_
    [u64Field, stringField, u32Field] _ rfl ?_
  · decide
  · exact hchar ';' _ rfl (by decide) (by decide)
  · exact ⟨rfl, rfl, rfl, trivial⟩

/-- **A line that is too short.** The `CommaItem` of the tests has two fields: the line `1` has one
piece, which parses, and the second piece is indexed. And with the delimiter `::` the texts `x:` and
`y` have no delimiter inside and no white space around them, but their join is also that of `x` and
`:y`. -/
theorem fromStr_short :
    fromStr [','] [u64Field, u32Field] "1".toList =
        .error (.panic "index out of bounds: the len is 1 but the index is 1") ∧
      (∀ t ∈ ["x:".toList, "y".toList], ¬"::".toList <:+: t ∧ trim t = t) ∧
      "::".toList.intercalate ["x:".toList, "y".toList] = "x:::y".toList ∧
      fromStr "::".toList [stringField, stringField] "x:::y".toList =
        .ok (.ok ("x".toList, ":y".toList, ())) := by
  refine ⟨?_, by decide, by decide, ?_⟩
  · rfl
  · rfl

end Arcon.LineDecoder

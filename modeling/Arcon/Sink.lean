import Arcon.Function

/-!
# Sinks (`stream/operator/sink/*.rs`)

Operators that hand nothing on. A `LocalFileSink` appends a line to its file for every element. A
write can fail: then the error is printed, the element is not written again, and a part of its line
may be in the file. A `KafkaSink` keeps elements back until an epoch ends and then gives them to its
producer, in order; what becomes of them there it does not look at. Neither keeps anything in the
state backend: the state here is the file, or the buffer of the sink and what its producer was
given.

How data is written out is not part of the repository: `debug` is `Debug::fmt` of the data and
`toJson` is `serde_json::to_string`, which may fail.

* `drive_folds`: a run of an operator whose calls only work on its state.
* **`KafkaSink.foldl_step`**: what has been given to the producer, and what is kept back.
* `LocalFileSink.foldl_step`: what is in the file, whichever writes failed.
* **`lines_linesOf`**: the lines of a file, read back.

Out of scope: opening the file and creating the producer, both of which panic if they fail; the
printing of errors; a write that stops inside a character; the topic and the key of the payloads,
and what the producer reports about them, which the sink drops.
-/

namespace Arcon

open Exec

variable {σ τ TS IN OUT P : Type}

/-! ## The operators -/

/-- `LocalFileSink`: the text of its file, and how many lines it has tried to write. -/
structure LocalFileSink where
  text : List Char
  writes : Nat
  deriving DecidableEq, Repr

namespace LocalFileSink

variable (debug : IN → List Char) (fails : Nat → Option Nat)

/-- `writeln!`. For each write `fails` says whether it fails, and then how much of the line is in
the file all the same. -/
def writeln (line : List Char) (sink : LocalFileSink) : LocalFileSink :=
  let line := line ++ ['\n']
  match fails sink.writes with
  | none => ⟨sink.text ++ line, sink.writes + 1⟩
  | some n => ⟨sink.text ++ line.take n, sink.writes + 1⟩

/-- `LocalFileSink` as an operator. -/
def operator : Operator LocalFileSink Empty IN Empty where
  init := id
  -- an `Err` of the write is printed and nothing else
  handleElement element := OpM.update (writeln fails (debug element.data))
  handleWatermark _ := .pure ()
  handleEpoch _ := .pure ()
  handleTimeout timeout := nomatch timeout

/-- What a call does to the file. -/
def step (sink : LocalFileSink) : Call IN → LocalFileSink
  | .element e => writeln fails (debug e.data) sink
  | .watermark _ | .epoch _ => sink

end LocalFileSink

/-- `KafkaSink`: its buffer, and the payloads its producer was given. -/
structure KafkaSink (IN : Type) where
  buffer : List (ArconElement IN)
  produced : List String
  deriving DecidableEq, Repr

namespace KafkaSink

variable (toJson : IN → Option String)

/-- `commit_buffer`: data that cannot be written as JSON is left out. -/
def commitBuffer (k : KafkaSink IN) : KafkaSink IN :=
  k.buffer.foldl (fun k element =>
    match toJson element.data with
    | some serialized => { k with produced := k.produced ++ [serialized] }
    | none => k) { k with buffer := [] }

/-- `KafkaSink` as an operator. -/
def operator : Operator (KafkaSink IN) Empty IN Empty where
  init := id
  handleElement element := OpM.update fun k => { k with buffer := k.buffer ++ [element] }
  handleWatermark _ := .pure ()
  handleEpoch _ := OpM.update (commitBuffer toJson)
  handleTimeout timeout := nomatch timeout

/-- What a call does to the sink. -/
def step (k : KafkaSink IN) : Call IN → KafkaSink IN
  | .element e => { k with buffer := k.buffer ++ [e] }
  | .watermark _ => k
  | .epoch _ => commitBuffer toJson k

end KafkaSink

/-! ## Calls -/

/-- Every call returns, and takes the state one step. -/
def Collects (o : Operator σ Empty IN OUT) (step : σ → Call IN → σ) : Prop :=
  ∀ (x : Call IN) (c : OpCtx σ Unit IN OUT Empty),
    wp (o.call x) (fun _ c' => c'.operator = step c.operator x) (fun _ _ => False) c

theorem LocalFileSink.collects (debug : IN → List Char) (fails : Nat → Option Nat) :
    Collects (LocalFileSink.operator debug fails) (LocalFileSink.step debug fails) := by
  intro x c
  cases x with
  | element e => rfl
  | watermark w => rfl
  | epoch e => rfl

theorem KafkaSink.collects (toJson : IN → Option String) :
    Collects (KafkaSink.operator toJson) (KafkaSink.step toJson) := by
  intro x c
  cases x with
  | element e => rfl
  | watermark w => rfl
  | epoch e => rfl

/-- **A run of such an operator** takes the state from call to call. -/
theorem drive_folds {o : Operator σ Empty IN OUT} {step : σ → Call IN → σ} (h : Collects o step)
    (calls : List (Call IN)) (c : OpCtx σ Unit IN OUT Empty) :
    wp (o.drive calls) (fun _ c' => c'.operator = calls.foldl step c.operator) (fun _ _ => False)
      c := by
  induction calls generalizing c with
  | nil => exact (wp_pure PUnit.unit).mpr rfl
  | cons x calls ih =>
    unfold Operator.drive
    rw [List.forM_cons, wp_bind]
    refine wp_mono (h x c) (fun _ c₁ hc => ?_) (fun _ _ hf => hf)
    refine wp_mono (ih c₁) (fun _ c' hc' => ?_) (fun _ _ hf => hf)
    rw [hc', hc, List.foldl_cons]

/-! ## The Kafka sink -/

namespace KafkaSink

variable (toJson : IN → Option String)

/-- The payloads of some elements. -/
def payloads (es : List (ArconElement IN)) : List String := es.filterMap fun e => toJson e.data

theorem payloads_append (es es' : List (ArconElement IN)) :
    payloads toJson (es ++ es') = payloads toJson es ++ payloads toJson es' :=
  List.filterMap_append

theorem commitBuffer_eq (k : KafkaSink IN) :
    commitBuffer toJson k = ⟨[], k.produced ++ payloads toJson k.buffer⟩ := by
  have hfold : ∀ (es : List (ArconElement IN)) (produced : List String),
      es.foldl (fun k element =>
        match toJson element.data with
        | some serialized => { k with produced := k.produced ++ [serialized] }
        | none => k) (⟨[], produced⟩ : KafkaSink IN) = ⟨[], produced ++ payloads toJson es⟩ := by
    intro es
    induction es with
    | nil =>
      intro produced
      rw [payloads, List.filterMap_nil, List.append_nil]
      rfl
    | cons e es ih =>
      intro produced
      rw [List.foldl_cons, payloads, List.filterMap_cons]
      cases toJson e.data with
      | none => exact ih produced
      | some serialized =>
        refine (ih _).trans ?_
        rw [List.append_assoc]
        rfl
  exact hfold k.buffer k.produced

/-- The elements behind the last epoch. -/
def sinceEpoch (buffer : List (ArconElement IN)) : List (Call IN) → List (ArconElement IN)
  | [] => buffer
  | .element e :: calls => sinceEpoch (buffer ++ [e]) calls
  | .watermark _ :: calls => sinceEpoch buffer calls
  | .epoch _ :: calls => sinceEpoch [] calls

theorem sinceEpoch_epoch (buffer : List (ArconElement IN)) (calls : List (Call IN)) (e : Epoch) :
    sinceEpoch buffer (calls ++ [.epoch e]) = [] := by
  induction calls generalizing buffer with
  | nil => rfl
  | cons x calls ih =>
    cases x with
    | element e' => exact ih _
    | watermark w => exact ih _
    | epoch e' => exact ih _

/-- **What a run of the sink leaves**: the elements behind the last epoch are in the buffer, and
those before it were given to the producer, in order. -/
theorem foldl_step (calls : List (Call IN)) (k : KafkaSink IN) :
    (calls.foldl (step toJson) k).buffer = sinceEpoch k.buffer calls ∧
      (calls.foldl (step toJson) k).produced ++ payloads toJson (sinceEpoch k.buffer calls) =
        k.produced ++ payloads toJson (k.buffer ++ Call.elements calls) := by
  induction calls generalizing k with
  | nil =>
    refine ⟨rfl, ?_⟩
    rw [show Call.elements ([] : List (Call IN)) = [] from rfl, List.append_nil]
    rfl
  | cons x calls ih =>
    obtain ⟨hbuf, hall⟩ := ih (step toJson k x)
    rw [List.foldl_cons]
    cases x with
    | element e =>
      refine ⟨hbuf, hall.trans ?_⟩
      show k.produced ++ payloads toJson ((k.buffer ++ [e]) ++ _) = _
      rw [List.append_assoc]
      rfl
    | watermark w => exact ⟨hbuf, hall⟩
    | epoch e =>
      have hstep : step toJson k (.epoch e) = ⟨[], k.produced ++ payloads toJson k.buffer⟩ :=
        commitBuffer_eq toJson k
      rw [hstep] at hbuf hall ⊢
      refine ⟨hbuf, hall.trans ?_⟩
      show (k.produced ++ payloads toJson k.buffer) ++ payloads toJson (Call.elements calls) = _
      rw [List.append_assoc, ← payloads_append]
      rfl

/-- The producer is given more and more. -/
theorem produced_prefix (calls : List (Call IN)) (k : KafkaSink IN) :
    k.produced <+: (calls.foldl (step toJson) k).produced := by
  induction calls generalizing k with
  | nil => exact List.prefix_rfl
  | cons x calls ih =>
    refine List.IsPrefix.trans ?_ (ih _)
    cases x with
    | element e => exact List.prefix_rfl
    | watermark w => exact List.prefix_rfl
    | epoch e =>
      rw [show step toJson k (.epoch e) = commitBuffer toJson k from rfl, commitBuffer_eq]
      exact List.prefix_append _ _

end KafkaSink

/-! ## The file sink -/

namespace LocalFileSink

variable (debug : IN → List Char) (fails : Nat → Option Nat)

/-- Data as lines. -/
def linesOf (data : List IN) : List Char := data.flatMap fun x => debug x ++ ['\n']

/-- What comes into the file when data is written, from the write of this number on. -/
def written : Nat → List IN → List Char
  | _, [] => []
  | k, x :: xs => (writeln fails (debug x) ⟨[], k⟩).text ++ written (k + 1) xs

/-- The data of the writes that did not fail. -/
def landed : Nat → List IN → List IN
  | _, [] => []
  | k, x :: xs => if fails k = none then x :: landed (k + 1) xs else landed (k + 1) xs

theorem text_writeln (line : List Char) (sink : LocalFileSink) :
    (writeln fails line sink).text = sink.text ++ (writeln fails line ⟨[], sink.writes⟩).text := by
  unfold writeln
  cases fails sink.writes <;> rfl

theorem writes_writeln (line : List Char) (sink : LocalFileSink) :
    (writeln fails line sink).writes = sink.writes + 1 := by
  unfold writeln
  cases fails sink.writes <;> rfl

/-- **What is in the file** after a run of the sink. -/
theorem foldl_step (calls : List (Call IN)) (sink : LocalFileSink) :
    (calls.foldl (step debug fails) sink).text = sink.text ++
      written debug fails sink.writes ((Call.elements calls).map ArconElement.data) := by
  induction calls generalizing sink with
  | nil => exact (List.append_nil sink.text).symm
  | cons x calls ih =>
    rw [List.foldl_cons, ih]
    cases x with
    | element e =>
      rw [show step debug fails sink (.element e) = writeln fails (debug e.data) sink from rfl,
        text_writeln, writes_writeln, List.append_assoc]
      rfl
    | watermark w => rfl
    | epoch e => rfl

variable {fails}

/-- Where a failed write leaves nothing of its line, the file has the lines of the others. -/
theorem written_eq (hclean : ∀ k n, fails k = some n → n = 0) (k : Nat) (data : List IN) :
    written debug fails k data = linesOf debug (landed fails k data) := by
  induction data generalizing k with
  | nil => rfl
  | cons x data ih =>
    rw [written, landed, ih]
    cases hk : fails k with
    | none =>
      rw [if_pos rfl, writeln, hk]
      rfl
    | some n =>
      rw [if_neg (Option.some_ne_none n), writeln, hk, hclean k n hk]
      rfl

end LocalFileSink

/-! ## Lines -/

namespace Text

/-- A line without the carriage return at its end. -/
def stripCr (line : List Char) : List Char :=
  if line.getLast? = some '\r' then line.dropLast else line

/-- The lines of a text of which `line` was read already. -/
def linesFrom (line : List Char) : List Char → List (List Char)
  | [] => if line.isEmpty then [] else [line]
  | c :: rest =>
    if c = '\n' then stripCr line :: linesFrom [] rest else linesFrom (line ++ [c]) rest

/-- `BufRead::lines`: the pieces before each line feed, and what is left behind the last one. -/
def lines (text : List Char) : List (List Char) := linesFrom [] text

/-- A text that is read back as one line, if a line feed is put behind it. -/
structure Line (text : List Char) : Prop where
  no_feed : '\n' ∉ text
  no_return : text.getLast? ≠ some '\r'

theorem linesFrom_append {text : List Char} (h : '\n' ∉ text) (line rest : List Char) :
    linesFrom line (text ++ rest) = linesFrom (line ++ text) rest := by
  induction text generalizing line with
  | nil => rw [List.nil_append, List.append_nil]
  | cons c text ih =>
    have hc : c ≠ '\n' := fun heq => h (heq ▸ List.mem_cons_self)
    rw [List.cons_append, linesFrom, if_neg hc, ih fun hm => h (List.mem_cons_of_mem c hm),
      List.append_assoc]
    rfl

/-- **The lines of a file that was written line by line.** -/
theorem lines_linesOf {debug : IN → List Char} (h : ∀ x, Line (debug x)) (data : List IN) :
    lines (LocalFileSink.linesOf debug data) = data.map debug := by
  induction data with
  | nil => rfl
  | cons x data ih =>
    unfold lines at ih ⊢
    rw [show LocalFileSink.linesOf debug (x :: data) =
      debug x ++ ('\n' :: LocalFileSink.linesOf debug data) by simp [LocalFileSink.linesOf]]
    rw [linesFrom_append (h x).no_feed, linesFrom, if_pos rfl, ih, List.nil_append, stripCr,
      if_neg (h x).no_return]
    rfl

end Text

end Arcon

import Arcon.Source.Model
import Arcon.Node.Watermark

/-!
# What a source sends

With a timestamp extractor and an operator that passes elements on, both sources send the same
events for the same records: each record as an element, with a watermark at the greatest timestamp
so far after every `watermark_interval` records and at the end (`stream`).

* `collection_emits`, `file_emits`: the sources send that.
* `allAbove_stream`: the elements are all above the watermarks before them exactly if no interval
  ends between two records of the same time.
-/

namespace Arcon

open Exec

/-- The elements among some events. -/
def elements {A : Type} (evs : List (ArconEvent A)) : List (ArconElement A) :=
  evs.filterMap fun
    | .element e => some e
    | _ => none

theorem elements_append {A : Type} (evs evs' : List (ArconEvent A)) :
    elements (evs ++ evs') = elements evs ++ elements evs' := List.filterMap_append

/-- An operator that passes every element on as it is. -/
def Operator.Identity {σ TS IN : Type} (op : Operator σ TS IN IN) : Prop :=
  ∀ e, op.handleElement e = .output (.element e) (.pure ())

theorem Map.identity {IN : Type} : (Map.new (id : IN → IN)).Identity := fun _ => rfl

/-- The loop of a source: the counter, the watermark and the events so far. -/
structure Progress (IN : Type) where
  counter : Nat
  watermark : Watermark
  events : List (ArconEvent IN)

namespace Progress

variable {IN : Type} (interval : Nat) (f : IN → Nat)

/-- One more record. -/
def next (p : Progress IN) (a : IN) : Progress IN :=
  if p.counter + 1 = interval then
    ⟨0, max p.watermark (f a),
      p.events ++ [.element ⟨a, some (f a)⟩, .watermark (max p.watermark (f a))]⟩
  else ⟨p.counter + 1, max p.watermark (f a), p.events ++ [.element ⟨a, some (f a)⟩]⟩

/-- Some records from the start. -/
def after (data : List IN) : Progress IN := data.foldl (next interval f) ⟨0, 0, []⟩

variable {interval f}

theorem after_append (done data : List IN) :
    data.foldl (next interval f) (after interval f done) = after interval f (done ++ data) := by
  unfold after
  rw [List.foldl_append]

theorem after_snoc (data : List IN) (a : IN) :
    after interval f (data ++ [a]) = next interval f (after interval f data) a := by
  rw [← after_append]
  rfl

end Progress

/-- The events for some records. -/
def stream {IN : Type} (interval : Nat) (f : IN → Nat) (data : List IN) : List (ArconEvent IN) :=
  (Progress.after interval f data).events ++ [.watermark (Progress.after interval f data).watermark]

/-! ## The sources send it -/

section Context

variable {σ τ TS IN OUT P : Type} {src : SourceContext σ TS IN OUT} {f : IN → Nat}
  {s : SourceSt σ τ IN OUT TS}

theorem watermarkUpdate_eq (ts : Nat) :
    SourceContext.watermarkUpdate ts s =
      .ok () { s with currentWatermark := max s.currentWatermark ts } := by
  show EStateM.Result.ok () (if s.currentWatermark < ts then _ else s) = _
  split
  · rename_i h
    rw [max_eq_right (le_of_lt h)]
  · rename_i h
    rw [max_eq_left (not_lt.mp h)]

theorem generateWatermark_eq (hf : src.tsExtractor = some f) :
    src.generateWatermark s =
      .ok () { s with ctx := s.ctx.note (.forward (.watermark s.currentWatermark)) } := by
  unfold SourceContext.generateWatermark
  rw [hf]
  rfl

theorem extractElement_eq (hf : src.tsExtractor = some f) (a : IN) :
    src.extractElement a s = .ok ⟨a, some (f a)⟩
      { s with currentWatermark := max s.currentWatermark (f a) } := by
  unfold SourceContext.extractElement
  rw [hf]
  exact bind_ok (watermarkUpdate_eq (f a))

theorem new_start [TimerBackend τ TS P] {op : σ} {timer : τ} {clock : List Nat}
    (h : src.new op timer clock = .ok s) :
    s.currentWatermark = 0 ∧ s.ctx.log = [] := by
  unfold SourceContext.new at h
  cases ht : (TimerBackend.init timer : EStateM.Result Crash τ Unit) with
  | error e t => rw [ht] at h; cases h
  | ok _ t =>
    rw [ht] at h
    cases h
    exact ⟨rfl, rfl⟩

end Context

section Emits

variable {σ τ TS IN P : Type} [TimerBackend τ TS P] {src : SourceContext σ TS IN IN}
  {f : IN → Nat} {s : SourceSt σ τ IN IN TS} {p : Progress IN}

/-- A source in the middle of its loop. -/
structure Sends (p : Progress IN) (counter : Nat) (s : SourceSt σ τ IN IN TS) : Prop where
  counter : counter = p.counter
  watermark : s.currentWatermark = p.watermark
  events : handed s.ctx.log = p.events

theorem process_eq (hid : src.operator.Identity) (e : ArconElement IN) :
    src.process e s = .ok () { s with ctx := s.ctx.note (.output (.element e)) } := by
  unfold SourceContext.process zoom
  rw [hid e]
  rfl

/-- **One record.** -/
theorem wp_processRecord (hid : src.operator.Identity) (hf : src.tsExtractor = some f)
    {counter : Nat} (h : Sends p counter s) (a : IN) :
    wp (src.processRecord counter a)
      (fun k s' => Sends (p.next src.watermarkInterval f a) k s') (fun _ _ => False) s := by
  have hev : handed (s.ctx.log ++ [Act.output (.element ⟨a, some (f a)⟩)]) =
      p.events ++ [.element ⟨a, some (f a)⟩] := by
    rw [handed_append, h.events]
    rfl
  unfold wp SourceContext.processRecord
  rw [bind_ok (extractElement_eq hf a), bind_ok (process_eq hid _)]
  unfold Progress.next
  rw [← h.counter, ← h.watermark]
  by_cases hc : counter + 1 = src.watermarkInterval
  · rw [if_pos hc, if_pos hc, bind_ok (generateWatermark_eq hf)]
    refine ⟨rfl, rfl, ?_⟩
    show handed ((s.ctx.log ++ [_]) ++ [_]) = p.events ++ ([_] ++ [_])
    rw [handed_append, hev, List.append_assoc]
    rfl
  · rw [if_neg hc, if_neg hc]
    exact ⟨rfl, rfl, hev⟩

/-- Some records. -/
theorem wp_processRecords (hid : src.operator.Identity) (hf : src.tsExtractor = some f)
    {counter : Nat} (h : Sends p counter s) (data : List IN) :
    wp (data.foldlM src.processRecord counter)
      (fun k s' => Sends (data.foldl (Progress.next src.watermarkInterval f) p) k s')
      (fun _ _ => False) s :=
  wp_foldlM (J := fun done k s' =>
      Sends (done.foldl (Progress.next src.watermarkInterval f) p) k s')
    (fun done a k s' hs => by
      rw [List.foldl_append]
      exact wp_processRecord hid hf hs a) data h

/-- The watermark at the end. -/
theorem wp_generateWatermark (hf : src.tsExtractor = some f) {counter : Nat}
    (h : Sends p counter s) :
    wp src.generateWatermark
      (fun _ s' => handed s'.ctx.log = p.events ++ [.watermark p.watermark])
      (fun _ _ => False) s := by
  unfold wp
  rw [generateWatermark_eq hf]
  show handed (s.ctx.log ++ [_]) = _
  rw [handed_append, h.events, h.watermark]
  rfl

omit [TimerBackend τ TS P] in
theorem sends_start (counter : Nat) (hc : counter = 0) (hw : s.currentWatermark = 0)
    (hl : s.ctx.log = []) : Sends ⟨0, 0, []⟩ counter s :=
  ⟨hc, hw, by rw [hl]; rfl⟩

/-! ### A collection -/

/-- A `CollectionSource` over `data` has sent `evs` and is done. -/
def CollectionSource.Emits (τ : Type) [TimerBackend τ TS P] (src : SourceContext σ TS IN IN)
    (data : List IN) (evs : List (ArconEvent IN)) : Prop :=
  ∃ (op : σ) (timer : τ) (clock : List Nat) (s : SourceSt σ τ IN IN TS) (rounds : Nat)
    (c : CollectionSource σ τ IN IN TS), src.new op timer clock = .ok s ∧
    (do CollectionSource.onStart; CollectionSource.run src rounds) (CollectionSource.new data s) =
      .ok () c ∧ c.continueSending = false ∧ handed c.source.ctx.log = evs

/-- A collection source between two of its messages: it is done, or goes on with the rest. -/
def Continues (src : SourceContext σ TS IN IN) (f : IN → Nat) (data : List IN)
    (c : CollectionSource σ τ IN IN TS) : Prop :=
  (c.continueSending = false ∧ handed c.source.ctx.log = stream src.watermarkInterval f data) ∨
    c.continueSending = true ∧ ∃ done, data = done ++ c.collection ∧
      Sends (Progress.after src.watermarkInterval f done) c.counter c.source

/-- **One portion.** -/
theorem wp_processCollection (hid : src.operator.Identity) (hf : src.tsExtractor = some f)
    {data done : List IN} {c : CollectionSource σ τ IN IN TS} (hdata : data = done ++ c.collection)
    (hcont : c.continueSending = false)
    (h : Sends (Progress.after src.watermarkInterval f done) c.counter c.source) :
    wp (CollectionSource.processCollection src) (fun _ c' => Continues src f data c' ∧
      (c'.continueSending = true → c'.collection.length < c.collection.length))
      (fun _ _ => False) c := by
  unfold CollectionSource.processCollection
  rw [wp_bind, wp_get, wp_bind]
  unfold CollectionSource.onSource
  rw [wp_zoom]
  set drainTo := min rescheduleEvery c.collection.length
  refine wp_mono (wp_processRecords hid hf h (c.collection.take drainTo)) (fun k s' hs => ?_)
    (fun _ _ h' => h')
  rw [Progress.after_append] at hs
  rw [wp_bind, wp_modify]
  by_cases hempty : (c.collection.drop drainTo).isEmpty = true
  · rw [if_pos hempty, wp_zoom]
    have hall : done ++ c.collection.take drainTo = data := by
      rw [hdata, List.take_of_length_le (List.drop_eq_nil_iff.mp (List.isEmpty_iff.mp hempty))]
    rw [hall] at hs
    refine wp_mono (wp_generateWatermark hf hs) (fun _ s'' hs'' => ⟨.inl ⟨hcont, hs''⟩, ?_⟩)
      (fun _ _ h' => h')
    intro htrue
    rw [show c.continueSending = true from htrue] at hcont
    cases hcont
  · rw [if_neg hempty, wp_modify]
    refine ⟨.inr ⟨rfl, done ++ c.collection.take drainTo, ?_, hs⟩, fun _ => ?_⟩
    · rw [hdata, List.append_assoc, List.take_append_drop]
    · have hne : c.collection.drop drainTo ≠ [] := fun hnil => hempty (by rw [hnil]; rfl)
      have hlt : drainTo < c.collection.length := by
        by_contra hge
        exact hne (List.drop_eq_nil_iff.mpr (not_lt.mp hge))
      have hpos : 0 < drainTo := by
        show 0 < min 500000 c.collection.length
        omega
      show (c.collection.drop drainTo).length < _
      rw [List.length_drop]
      omega

/-- The messages of the source to itself: one for each portion. -/
theorem wp_continueSending (hid : src.operator.Identity) (hf : src.tsExtractor = some f)
    {data : List IN} (rounds : Nat) {c : CollectionSource σ τ IN IN TS}
    (h : Continues src f data c) :
    wp (CollectionSource.run src rounds) (fun _ c' => Continues src f data c' ∧
      (c.continueSending = false ∨ c.collection.length < rounds → c'.continueSending = false))
      (fun _ _ => False) c := by
  induction rounds generalizing c with
  | zero => exact ⟨h, fun hlt => hlt.elim id fun hlt => absurd hlt (Nat.not_lt_zero _)⟩
  | succ rounds ih =>
    unfold CollectionSource.run
    rw [wp_bind, wp_get]
    rcases h with ⟨hc, hev⟩ | ⟨hc, done, hdata, hs⟩
    · rw [hc]
      exact ⟨.inl ⟨hc, hev⟩, fun _ => hc⟩
    · rw [hc, if_pos rfl, wp_bind, wp_modify, wp_bind]
      refine wp_mono (wp_processCollection (c := { c with continueSending := false }) hid hf hdata
        rfl hs) (fun _ c' hc' => ?_) (fun _ _ h' => h')
      refine wp_mono (ih hc'.1) (fun _ c'' hc'' => ⟨hc''.1, fun hlt => ?_⟩) (fun _ _ h' => h')
      refine hc''.2 ?_
      cases hmore : c'.continueSending with
      | false => exact .inl rfl
      | true =>
        have hless : c'.collection.length < c.collection.length := hc'.2 hmore
        rcases hlt with hlt | hlt
        · cases hlt
        · exact .inr (by omega)

omit [TimerBackend τ TS P] in
theorem continues_start (hw : s.currentWatermark = 0) (hl : s.ctx.log = []) (data : List IN) :
    Continues src f data { CollectionSource.new data s with continueSending := true } :=
  .inr ⟨rfl, [], rfl, sends_start _ rfl hw hl⟩

/-- **A collection source sends the stream of its collection.** -/
theorem collection_emits (hid : src.operator.Identity) (hf : src.tsExtractor = some f)
    {data : List IN} {evs : List (ArconEvent IN)} (h : CollectionSource.Emits τ src data evs) :
    evs = stream src.watermarkInterval f data := by
  obtain ⟨op, timer, clock, s, rounds, c, hnew, hrun, hdone, rfl⟩ := h
  obtain ⟨hw, hl⟩ := new_start hnew
  have hc := (wp_ok (wp_continueSending hid hf rounds (continues_start hw hl data)) hrun).1
  rcases hc with ⟨-, hev⟩ | ⟨hc, -⟩
  · exact hev
  · rw [hc] at hdone
    cases hdone

/-- It comes to an end. -/
theorem collection_terminates (hid : src.operator.Identity) (hf : src.tsExtractor = some f)
    (op : σ) (timer : τ) (clock : List Nat) (hnew : src.new op timer clock = .ok s)
    (data : List IN) :
    CollectionSource.Emits τ src data (stream src.watermarkInterval f data) := by
  obtain ⟨hw, hl⟩ := new_start hnew
  have hwp := wp_continueSending hid hf (data.length + 1) (continues_start hw hl data)
  cases hrun : CollectionSource.run src (data.length + 1)
      { CollectionSource.new data s with continueSending := true } with
  | error e c => exact (wp_error hwp hrun).elim
  | ok _ c =>
    have hc := wp_ok hwp hrun
    have hdone := hc.2 (.inr (Nat.lt_succ_self _))
    refine ⟨op, timer, clock, s, data.length + 1, c, hnew, hrun, hdone, ?_⟩
    rcases hc.1 with ⟨-, hev⟩ | ⟨hcont, -⟩
    · exact hev
    · rw [hcont] at hdone
      cases hdone

/-! ### A file -/

/-- The records of some lines. -/
def LocalFileSource.records (parse : String → Option IN) (lines : List (Except String String)) :
    List IN :=
  lines.filterMap fun
    | .ok l => parse l
    | .error _ => none

/-- A `LocalFileSource` over a file with the records `data` has sent `evs`. -/
def LocalFileSource.Emits (τ : Type) [TimerBackend τ TS P] (src : SourceContext σ TS IN IN)
    (data : List IN) (evs : List (ArconEvent IN)) : Prop :=
  ∃ (op : σ) (timer : τ) (clock : List Nat) (s : SourceSt σ τ IN IN TS)
    (parse : String → Option IN) (lines : List (Except String String)) (s' : SourceSt σ τ IN IN TS),
    src.new op timer clock = .ok s ∧ LocalFileSource.records parse lines = data ∧
    LocalFileSource.processFile src parse (some lines) s = .ok () s' ∧ handed s'.ctx.log = evs

theorem wp_processLine (hid : src.operator.Identity) (hf : src.tsExtractor = some f)
    {parse : String → Option IN} {done : List (Except String String)} {counter : Nat}
    (h : Sends (Progress.after src.watermarkInterval f (LocalFileSource.records parse done)) counter
      s) (line : Except String String) :
    wp (LocalFileSource.processLine src parse counter line)
      (fun k s' => Sends (Progress.after src.watermarkInterval f
        (LocalFileSource.records parse (done ++ [line]))) k s') (fun _ _ => False) s := by
  unfold LocalFileSource.processLine LocalFileSource.records
  rw [List.filterMap_append]
  cases line with
  | error e =>
    rw [show List.filterMap _ [Except.error e] = [] from rfl, List.append_nil]
    exact h
  | ok l =>
    cases hl : parse l with
    | none =>
      simp only [List.filterMap_cons, hl, List.filterMap_nil, List.append_nil]
      exact h
    | some a =>
      simp only [List.filterMap_cons, hl, List.filterMap_nil]
      rw [Progress.after_snoc]
      exact wp_processRecord hid hf h a

/-- **A file source sends the stream of its records.** -/
theorem file_emits (hid : src.operator.Identity) (hf : src.tsExtractor = some f) {data : List IN}
    {evs : List (ArconEvent IN)} (h : LocalFileSource.Emits τ src data evs) :
    evs = stream src.watermarkInterval f data := by
  obtain ⟨op, timer, clock, s, parse, lines, s', hnew, rfl, hrun, rfl⟩ := h
  obtain ⟨hw, hl⟩ := new_start hnew
  have hwp : wp (LocalFileSource.processFile src parse (some lines))
      (fun _ s' => handed s'.ctx.log =
        stream src.watermarkInterval f (LocalFileSource.records parse lines))
      (fun _ _ => False) s := by
    unfold LocalFileSource.processFile
    rw [wp_bind]
    refine wp_mono (wp_foldlM (J := fun done k s' => Sends (Progress.after src.watermarkInterval f
      (LocalFileSource.records parse done)) k s') (fun done line k s' hs =>
        wp_processLine hid hf hs line) lines (sends_start 0 rfl hw hl)) (fun k s' hs => ?_)
      (fun _ _ h' => h')
    exact wp_generateWatermark hf hs
  have hev := wp_ok hwp hrun
  exact hev

end Emits

/-! ## Elements and the watermarks before them -/

section Above

variable {IN : Type} {interval : Nat} {f : IN → Nat}

/-- Every element is above the watermarks before it, on a channel that was at `w`. -/
def AllAbove (w : Watermark) (evs : List (ArconEvent IN)) : Prop :=
  ∀ before e after, evs = before ++ .element e :: after →
    reach w before < e.timestamp.getD u64Max

/-- No interval ends between two records of the same time. -/
def Separated (interval : Nat) (f : IN → Nat) (data : List IN) : Prop :=
  ∀ before a b after, data = before ++ a :: b :: after → interval ∣ before.length + 1 → f a < f b

theorem allAbove_snoc_watermark {w x : Watermark} {evs : List (ArconEvent IN)} :
    AllAbove w (evs ++ [.watermark x]) ↔ AllAbove w evs := by
  refine ⟨fun h before e after hev => h before e (after ++ [.watermark x]) (by simp [hev]),
    fun h before e after hev => ?_⟩
  rcases List.eq_nil_or_concat after with rfl | ⟨after', y, rfl⟩
  · have := List.append_inj_right' hev rfl
    cases this
  · have hinit := congrArg List.dropLast hev
    rw [List.dropLast_concat, List.concat_eq_append, ← List.cons_append, ← List.append_assoc,
      List.dropLast_concat] at hinit
    exact h before e after' hinit

theorem allAbove_snoc_element {w : Watermark} {e : ArconElement IN} {evs : List (ArconEvent IN)} :
    AllAbove w (evs ++ [.element e]) ↔
      AllAbove w evs ∧ reach w evs < e.timestamp.getD u64Max := by
  refine ⟨fun h => ⟨fun before e' after hev => h before e' (after ++ [.element e]) (by simp [hev]),
    h evs e [] rfl⟩, fun h before e' after hev => ?_⟩
  rcases List.eq_nil_or_concat after with rfl | ⟨after', y, rfl⟩
  · obtain ⟨rfl, hlast⟩ := List.append_inj' hev rfl
    cases hlast
    exact h.2
  · have hinit := congrArg List.dropLast hev
    rw [List.dropLast_concat, List.concat_eq_append, ← List.cons_append, ← List.append_assoc,
      List.dropLast_concat] at hinit
    exact h.1 before e' after' hinit

theorem separated_snoc {data : List IN} {a b : IN} : Separated interval f (data ++ [a] ++ [b]) ↔
    Separated interval f (data ++ [a]) ∧ (interval ∣ data.length + 1 → f a < f b) := by
  refine ⟨fun h => ⟨fun before x y after hd => h before x y (after ++ [b]) (by simp [hd]),
    fun hdvd => h data a b [] (by simp) hdvd⟩, fun h before x y after hd hdvd => ?_⟩
  rcases List.eq_nil_or_concat after with rfl | ⟨after', z, rfl⟩
  · have hd' : data ++ [a] ++ [b] = (before ++ [x]) ++ [y] := by simpa using hd
    obtain ⟨hinit, hlast⟩ := List.append_inj' hd' rfl
    obtain ⟨rfl, hx⟩ := List.append_inj' hinit rfl
    cases hlast
    cases hx
    exact h.2 hdvd
  · have hd' : data ++ [a] ++ [b] = (before ++ x :: y :: after') ++ [z] := by simpa using hd
    exact h.1 before x y after' (List.append_inj' hd' rfl).1 hdvd

theorem separated_singleton (a : IN) : Separated interval f [a] := by
  intro before x y after h
  have := congrArg List.length h
  simp at this
  omega

theorem separated_nil : Separated interval f ([] : List IN) := by
  intro before x y after h
  simp at h

namespace Progress

theorem next_counter (p : Progress IN) (a : IN) :
    (next interval f p a).counter = if p.counter + 1 = interval then 0 else p.counter + 1 := by
  unfold next
  split <;> rfl

theorem next_watermark (p : Progress IN) (a : IN) :
    (next interval f p a).watermark = max p.watermark (f a) := by
  unfold next
  split <;> rfl

theorem allAbove_next (p : Progress IN) (a : IN) :
    AllAbove 0 (next interval f p a).events ↔ AllAbove 0 p.events ∧ reach 0 p.events < f a := by
  unfold next
  split
  · show AllAbove 0 (p.events ++ ([_] ++ [_])) ↔ _
    rw [← List.append_assoc, allAbove_snoc_watermark, allAbove_snoc_element]
    rfl
  · rw [allAbove_snoc_element]
    rfl

theorem reach_next (p : Progress IN) (a : IN) : reach 0 (next interval f p a).events =
    if p.counter + 1 = interval then max (reach 0 p.events) (max p.watermark (f a))
    else reach 0 p.events := by
  unfold next
  split
  · show reach 0 (p.events ++ _) = _
    rw [reach_append]
    rfl
  · show reach 0 (p.events ++ _) = _
    rw [reach_append]
    rfl

/-- The counter counts the records since the last watermark. -/
theorem counter_after (hi : 0 < interval) (data : List IN) :
    (after interval f data).counter = data.length % interval := by
  induction data using List.reverseRecOn with
  | nil => rfl
  | append_singleton data a ih =>
    have hlt := Nat.mod_lt data.length hi
    rw [after_snoc, next_counter, ih, List.length_append, List.length_singleton,
      ← Nat.mod_add_mod]
    split
    · rename_i h
      rw [h, Nat.mod_self]
    · exact (Nat.mod_eq_of_lt (by omega)).symm

/-- It reaches the interval with every `interval`-th record. -/
theorem counter_after_eq_iff (hi : 0 < interval) (data : List IN) :
    (after interval f data).counter + 1 = interval ↔ interval ∣ data.length + 1 := by
  rw [counter_after hi, Nat.dvd_iff_mod_eq_zero, ← Nat.mod_add_mod]
  have hlt := Nat.mod_lt data.length hi
  constructor
  · intro h
    rw [h, Nat.mod_self]
  · intro h
    by_contra hne
    rw [Nat.mod_eq_of_lt (by omega)] at h
    omega

theorem watermark_after_le {data : List IN} {x : Nat} (h : ∀ b ∈ data, f b ≤ x) :
    (after interval f data).watermark ≤ x := by
  induction data using List.reverseRecOn with
  | nil => exact Nat.zero_le x
  | append_singleton data a ih =>
    rw [after_snoc, next_watermark]
    exact max_le (ih fun b hb => h b (List.mem_append_left _ hb)) (h a (by simp))

/-- The watermarks sent are not above the greatest timestamp. -/
theorem reach_after_le (data : List IN) :
    reach 0 (after interval f data).events ≤ (after interval f data).watermark := by
  induction data using List.reverseRecOn with
  | nil => exact le_rfl
  | append_singleton data a ih =>
    rw [after_snoc, reach_next, next_watermark]
    have hle := le_max_left (after interval f data).watermark (f a)
    split
    · exact max_le (ih.trans hle) le_rfl
    · exact ih.trans hle

/-- Where a watermark was just sent, it is at the last record. -/
theorem reach_after_dvd (hi : 0 < interval) {data : List IN} {a : IN}
    (hsorted : ∀ b ∈ data, f b ≤ f a) (hdvd : interval ∣ data.length + 1) :
    reach 0 (after interval f (data ++ [a])).events = f a := by
  have hw : max (after interval f data).watermark (f a) = f a :=
    max_eq_right (watermark_after_le hsorted)
  rw [after_snoc, reach_next, if_pos ((counter_after_eq_iff hi data).mpr hdvd), hw]
  exact max_eq_right ((reach_after_le data).trans (watermark_after_le hsorted))

/-- Else it is where it was. -/
theorem reach_after_not_dvd (hi : 0 < interval) {data : List IN} (a : IN)
    (hdvd : ¬interval ∣ data.length + 1) :
    reach 0 (after interval f (data ++ [a])).events = reach 0 (after interval f data).events := by
  have hc : (after interval f data).counter + 1 ≠ interval :=
    fun hc => hdvd ((counter_after_eq_iff hi data).mp hc)
  rw [after_snoc, reach_next, if_neg hc]

/-- In separated records the watermarks sent are below every later time. -/
theorem reach_after_lt (hi : 0 < interval) (data : List IN) {x : Nat}
    (hsorted : data.Pairwise fun a b => f a ≤ f b) (hpos : ∀ a ∈ data, 1 ≤ f a)
    (hsep : Separated interval f data) (hx : 1 ≤ x) (hle : ∀ b ∈ data, f b ≤ x)
    (hlast : ∀ before b, data = before ++ [b] → interval ∣ data.length → f b < x) :
    reach 0 (after interval f data).events < x := by
  induction data using List.reverseRecOn generalizing x with
  | nil => exact hx
  | append_singleton data b ih =>
    obtain ⟨hs, -, hsb⟩ := List.pairwise_append.mp hsorted
    have hsb' : ∀ c ∈ data, f c ≤ f b := fun c hc => hsb c hc b (by simp)
    by_cases hdvd : interval ∣ data.length + 1
    · rw [reach_after_dvd hi hsb' hdvd]
      exact hlast data b rfl (by simpa using hdvd)
    · rw [reach_after_not_dvd hi b hdvd]
      refine lt_of_lt_of_le (ih hs (fun a ha => hpos a (List.mem_append_left _ ha)) ?_
        (hpos b (by simp)) hsb' ?_) (hle b (by simp))
      · rcases List.eq_nil_or_concat data with rfl | ⟨before, c, rfl⟩
        · exact separated_nil
        · rw [List.concat_eq_append] at hsep ⊢
          exact (separated_snoc.mp hsep).1
      · rintro before c rfl hd
        refine (separated_snoc.mp hsep).2 ?_
        simpa using hd

/-- **Every element is above the watermarks before it** exactly if the records are separated. -/
theorem allAbove_after (hi : 0 < interval) (data : List IN)
    (hsorted : data.Pairwise fun a b => f a ≤ f b) (hpos : ∀ a ∈ data, 1 ≤ f a) :
    AllAbove 0 (after interval f data).events ↔ Separated interval f data := by
  induction data using List.reverseRecOn with
  | nil =>
    refine iff_of_true (fun before e after h => ?_) separated_nil
    simp [Progress.after] at h
  | append_singleton data a ih =>
    obtain ⟨hs, -, hsa⟩ := List.pairwise_append.mp hsorted
    have hsa' : ∀ b ∈ data, f b ≤ f a := fun b hb => hsa b hb a (by simp)
    have hp : ∀ b ∈ data, 1 ≤ f b := fun b hb => hpos b (List.mem_append_left _ hb)
    have ha : 1 ≤ f a := hpos a (by simp)
    rw [after_snoc, allAbove_next, ih hs hp]
    rcases List.eq_nil_or_concat data with rfl | ⟨before, b, rfl⟩
    · exact iff_of_true ⟨separated_nil, ha⟩ (separated_singleton a)
    · rw [List.concat_eq_append] at hs hsa' hp ⊢
      rw [separated_snoc]
      refine and_congr_right fun hsep => ⟨fun hlt hdvd => ?_, fun hnext => ?_⟩
      · obtain ⟨-, -, hsb⟩ := List.pairwise_append.mp hs
        rwa [reach_after_dvd hi (fun c hc => hsb c hc b (by simp)) hdvd] at hlt
      · refine reach_after_lt hi _ hs hp hsep ha hsa' ?_
        intro before' b' heq hdvd
        obtain ⟨-, hb⟩ := List.append_inj' heq rfl
        cases hb
        exact hnext (by simpa using hdvd)

end Progress

theorem allAbove_stream (hi : 0 < interval) (data : List IN)
    (hsorted : data.Pairwise fun a b => f a ≤ f b) (hpos : ∀ a ∈ data, 1 ≤ f a) :
    AllAbove 0 (stream interval f data) ↔ Separated interval f data := by
  unfold stream
  rw [allAbove_snoc_watermark, Progress.allAbove_after hi data hsorted hpos]

end Above

end Arcon

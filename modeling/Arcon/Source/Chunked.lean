import Arcon.Source.Stream

/-!
# A collection in chunks (`source/collection.rs`)

`process_collection` drains at most `RESCHEDULE_EVERY` records and sends itself a `ContinueSending`
for the rest, so that other messages of the component get their turn. The counter of the records
since the last watermark is kept between two chunks. `processChunk` has the chunk size as an
argument.

`deliver` is what the code does with one event: an element is handed to the operator, a watermark to
the channel strategy. The operator is any, and may panic; then both sides do, at the same record.

* `runChunks_ends`: the chunks come to an end and to what one pass comes to, with or without an
  extractor.
* `foldlM_delivers`: with an extractor the pass delivers the events of `stream`.
* `stream_eq_expectedStream`: these are the records in order, with the watermarks where they should
  be.
* **`chunked_agrees`**: all of it.
-/

namespace Arcon

open Exec

variable {σ τ TS IN OUT P : Type} [TimerBackend τ TS P]

namespace CollectionSource

variable (src : SourceContext σ TS IN OUT)

/-- `process_collection`, with `chunk` in the place of `RESCHEDULE_EVERY`. -/
def processChunk (chunk : Nat) : EStateM Crash (CollectionSource σ τ IN OUT TS) Unit := do
  let s ← get
  let drainTo := min chunk s.collection.length
  let counter ← onSource ((s.collection.take drainTo).foldlM src.processRecord s.counter)
  modify fun s => { s with counter := counter, collection := s.collection.drop drainTo }
  if (s.collection.drop drainTo).isEmpty then
    onSource src.generateWatermark
  else
    modify fun s => { s with continueSending := true }

/-- The messages of the source to itself, at most so many. -/
def runChunks (chunk : Nat) : Nat → EStateM Crash (CollectionSource σ τ IN OUT TS) Unit
  | 0 => pure ()
  | rounds + 1 => do
    if (← get).continueSending then
      modify fun s => { s with continueSending := false }
      processChunk src chunk
      runChunks chunk rounds

/-- The code is the one with this chunk size. -/
theorem run_eq_runChunks (rounds : Nat) :
    run (τ := τ) src rounds = runChunks src rescheduleEvery rounds := by
  induction rounds with
  | zero => rfl
  | succ rounds ih =>
    rw [run, runChunks, ih]
    rfl

/-- One pass over the records, from a count of records since the last watermark. -/
def onePass (counter : Nat) (data : List IN) : SourceM σ τ IN OUT TS Unit := do
  let _ ← data.foldlM src.processRecord counter
  src.generateWatermark

/-- Nothing is left to do. -/
def Done (c : CollectionSource σ τ IN OUT TS) : Prop :=
  c.collection = [] ∧ c.continueSending = false

variable {src} {chunk : Nat}

variable {c : CollectionSource σ τ IN OUT TS} {k rounds : Nat} {s : SourceSt σ τ IN OUT TS}

omit [TimerBackend τ TS P] in
theorem onSource_ok {α : Type} {x : SourceM σ τ IN OUT TS α} {a : α} (h : x c.source = .ok a s) :
    onSource x c = .ok a { c with source := s } := by
  unfold onSource zoom
  rw [h]

omit [TimerBackend τ TS P] in
theorem onSource_error {α : Type} {x : SourceM σ τ IN OUT TS α} {e : Crash}
    (h : x c.source = .error e s) : onSource x c = .error e { c with source := s } := by
  unfold onSource zoom
  rw [h]

/-! What a chunk does: the operator panics, or it is the last chunk, or another one follows. -/

theorem processChunk_error {e : Crash}
    (h : (c.collection.take (min chunk c.collection.length)).foldlM src.processRecord c.counter
      c.source = .error e s) :
    processChunk src chunk c = .error e { c with source := s } := by
  have hbind : processChunk src chunk c = (onSource _ >>= _) c := rfl
  rw [hbind]
  exact bind_error (onSource_error h)

theorem processChunk_last
    (h : (c.collection.take (min chunk c.collection.length)).foldlM src.processRecord c.counter
      c.source = .ok k s) (hlast : c.collection.drop (min chunk c.collection.length) = []) :
    processChunk src chunk c =
      onSource src.generateWatermark { c with source := s, counter := k, collection := [] } := by
  have hbind : processChunk src chunk c = (onSource _ >>= _) c := rfl
  rw [hbind, bind_ok (onSource_ok h), hlast]
  show onSource src.generateWatermark { c with
    source := s, counter := k, collection := c.collection.drop (min chunk c.collection.length) } = _
  rw [hlast]

theorem processChunk_more
    (h : (c.collection.take (min chunk c.collection.length)).foldlM src.processRecord c.counter
      c.source = .ok k s) (hmore : c.collection.drop (min chunk c.collection.length) ≠ []) :
    processChunk src chunk c =
      .ok () ⟨s, c.collection.drop (min chunk c.collection.length), k, true⟩ := by
  have hbind : processChunk src chunk c = (onSource _ >>= _) c := rfl
  have hne : (c.collection.drop (min chunk c.collection.length)).isEmpty = false := by
    simpa [List.isEmpty_eq_false_iff] using hmore
  rw [hbind, bind_ok (onSource_ok h), hne]
  rfl

theorem runChunks_done (h : c.continueSending = false) (rounds : Nat) :
    runChunks src chunk rounds c = .ok () c := by
  cases rounds with
  | zero => rfl
  | succ rounds =>
    have hif : runChunks src chunk (rounds + 1) c =
        (if c.continueSending = true then _ else pure () : EStateM Crash _ Unit) c := rfl
    rw [hif, if_neg (by rw [h]; decide)]
    rfl

theorem runChunks_succ (h : c.continueSending = true) (rounds : Nat) :
    runChunks src chunk (rounds + 1) c = (do
      processChunk src chunk
      runChunks src chunk rounds : EStateM Crash _ Unit) { c with continueSending := false } := by
  have hif : runChunks src chunk (rounds + 1) c =
      (if c.continueSending = true then _ else pure () : EStateM Crash _ Unit) c := rfl
  rw [hif, if_pos h]
  rfl

/-- **The chunks come to what one pass comes to.** -/
theorem runChunks_ends (hchunk : 1 ≤ chunk) (hcont : c.continueSending = true)
    (hrounds : c.collection.length < rounds) :
    EndsAs source (fun _ c' _ => c'.Done) (runChunks src chunk rounds c)
      (onePass src c.counter c.collection c.source) := by
  induction rounds generalizing c with
  | zero => omega
  | succ rounds ih =>
    have hpass : onePass (τ := τ) src c.counter c.collection = (do
        let counter ← (c.collection.take (min chunk c.collection.length)).foldlM
          src.processRecord c.counter
        onePass src counter (c.collection.drop (min chunk c.collection.length))) := by
      unfold onePass
      nth_rewrite 1 [← List.take_append_drop (min chunk c.collection.length) c.collection]
      rw [List.foldlM_append, bind_assoc]
    rw [hpass, runChunks_succ hcont]
    cases hfold : (c.collection.take (min chunk c.collection.length)).foldlM src.processRecord
        c.counter c.source with
    | error e s =>
      have hstep : processChunk src chunk { c with continueSending := false } = .error e _ :=
        processChunk_error hfold
      rw [bind_error hfold, bind_error hstep]
      exact ⟨rfl, rfl⟩
    | ok k s =>
      rw [bind_ok hfold]
      by_cases hlast : c.collection.drop (min chunk c.collection.length) = []
      · -- nothing is left: both end with the watermark
        have hstep : processChunk src chunk { c with continueSending := false } = onSource _ _ :=
          processChunk_last hfold hlast
        have hpass' : onePass (τ := τ) src k [] s = src.generateWatermark s := rfl
        rw [hlast, hpass']
        cases hwm : src.generateWatermark s with
        | error e s' =>
          rw [bind_error (hstep.trans (onSource_error hwm))]
          exact ⟨rfl, rfl⟩
        | ok u s' =>
          rw [bind_ok (hstep.trans (onSource_ok hwm)), runChunks_done rfl]
          exact ⟨rfl, rfl, rfl⟩
      · have hstep : processChunk src chunk { c with continueSending := false } = .ok () _ :=
          processChunk_more hfold hlast
        rw [bind_ok hstep]
        refine ih rfl ?_
        have hlt : min chunk c.collection.length < c.collection.length := by
          by_contra hge
          exact hlast (List.drop_eq_nil_iff.mpr (not_lt.mp hge))
        show (c.collection.drop (min chunk c.collection.length)).length < rounds
        rw [List.length_drop]
        omega

end CollectionSource

/-! ## What a pass delivers -/

/-- An element is handed to the operator and a watermark to the channel strategy. A source has no
other events of its own. -/
def SourceContext.deliver (src : SourceContext σ TS IN OUT) :
    ArconEvent IN → EStateM Crash (OpCtx σ τ IN OUT TS) Unit
  | .element e => (src.operator.handleElement e).run
  | .watermark w => modify (OpCtx.note (.forward (.watermark w)))
  | .epoch _ | .death _ => pure ()

/-- All events, in order. -/
def SourceContext.deliverAll (src : SourceContext σ TS IN OUT) (evs : List (ArconEvent IN)) :
    EStateM Crash (OpCtx σ τ IN OUT TS) Unit := forM evs src.deliver

section deliver

variable {src : SourceContext σ TS IN OUT} {f : IN → Nat} {s : SourceSt σ τ IN OUT TS}
  {p : Progress IN}

theorem deliverAll_append (evs evs' : List (ArconEvent IN)) :
    src.deliverAll (τ := τ) (evs ++ evs') = (do src.deliverAll evs; src.deliverAll evs') := by
  unfold SourceContext.deliverAll
  induction evs with
  | nil => rfl
  | cons ev evs ih =>
    rw [List.cons_append, List.forM_cons, List.forM_cons, ih, bind_assoc]

/-- The loop of a source has the counter and the watermark of `p`. -/
def Progress.Stands (p : Progress IN) (counter : Nat) (s : SourceSt σ τ IN OUT TS) : Prop :=
  counter = p.counter ∧ s.currentWatermark = p.watermark

/-- The events of one more record. -/
def Progress.news (interval : Nat) (f : IN → Nat) (p : Progress IN) (a : IN) :
    List (ArconEvent IN) :=
  if p.counter + 1 = interval then
    [.element ⟨a, some (f a)⟩, .watermark (max p.watermark (f a))]
  else [.element ⟨a, some (f a)⟩]

omit [TimerBackend τ TS P] in
theorem Progress.next_events (interval : Nat) (f : IN → Nat) (p : Progress IN) (a : IN) :
    (p.next interval f a).events = p.events ++ p.news interval f a := by
  unfold next news
  split <;> rfl

/-- **One record**: its element, and a watermark if it is time for one. -/
theorem processRecord_delivers (hf : src.tsExtractor = some f) {counter : Nat}
    (h : p.Stands counter s) (a : IN) :
    EndsAs SourceSt.ctx (fun k s' _ => (p.next src.watermarkInterval f a).Stands k s')
      (src.processRecord counter a s)
      (src.deliverAll (p.news src.watermarkInterval f a) s.ctx) := by
  obtain ⟨hcounter, hwatermark⟩ := h
  have hprocess : EndsAs SourceSt.ctx
      (fun _ s' _ => s'.currentWatermark = max p.watermark (f a))
      (src.process ⟨a, some (f a)⟩ { s with currentWatermark := max s.currentWatermark (f a) })
      (src.deliver (.element ⟨a, some (f a)⟩) s.ctx) := by
    refine (EndsAs.zoom (fun _ _ => rfl) _ _).mono fun _ s' _ hs' => ?_
    rw [hs'.2, ← hwatermark]
  unfold SourceContext.processRecord Progress.next Progress.news
  rw [bind_ok (extractElement_eq hf a), ← hcounter]
  by_cases hc : counter + 1 = src.watermarkInterval
  · rw [if_pos hc, if_pos hc, if_pos hc]
    refine hprocess.bind fun _ s' _ hs' => ?_
    rw [bind_ok (generateWatermark_eq hf), hs']
    exact ⟨rfl, rfl, rfl⟩
  · rw [if_neg hc, if_neg hc, if_neg hc]
    exact hprocess.bind fun _ s' _ hs' => ⟨rfl, rfl, hs'⟩

/-- The records of a pass. -/
theorem foldlM_delivers (hf : src.tsExtractor = some f) (hw : s.currentWatermark = 0)
    (data : List IN) :
    EndsAs SourceSt.ctx
      (fun k s' _ => (Progress.after src.watermarkInterval f data).Stands k s')
      (data.foldlM src.processRecord 0 s)
      (src.deliverAll (Progress.after src.watermarkInterval f data).events s.ctx) := by
  induction data using List.reverseRecOn with
  | nil => exact ⟨rfl, rfl, hw⟩
  | append_singleton data a ih =>
    have hsnoc : (data ++ [a]).foldlM (m := SourceM σ τ IN OUT TS) src.processRecord 0 =
        data.foldlM src.processRecord 0 >>= fun k => src.processRecord k a := by
      rw [List.foldlM_append]
      simp
    rw [hsnoc, Progress.after_snoc, Progress.next_events, deliverAll_append]
    exact ih.bind fun k s' _ hat => processRecord_delivers hf hat a

/-- **A pass delivers the events of `stream`.** -/
theorem onePass_delivers (hf : src.tsExtractor = some f) (hw : s.currentWatermark = 0)
    (data : List IN) :
    EndsAs SourceSt.ctx (fun _ _ _ => True) (CollectionSource.onePass src 0 data s)
      (src.deliverAll (stream src.watermarkInterval f data) s.ctx) := by
  unfold CollectionSource.onePass stream
  rw [deliverAll_append]
  refine (foldlM_delivers hf hw data).bind fun k s' _ hat => ?_
  rw [generateWatermark_eq hf, hat.2]
  exact ⟨rfl, trivial⟩

end deliver

/-! ## The events -/

/-- The greatest timestamp of some records, and zero for none. -/
def maxTimestamp (f : IN → Nat) (data : List IN) : Nat := (data.map f).foldl max 0

/-- The records in order, with a watermark after every `interval`-th of them and one at the end. A
watermark carries the greatest timestamp so far. -/
def expectedStream (interval : Nat) (f : IN → Nat) (data : List IN) : List (ArconEvent IN) :=
  (data.mapIdx fun i a => .element ⟨a, some (f a)⟩ ::
    if interval ∣ i + 1 then [.watermark (maxTimestamp f (data.take (i + 1)))] else []).flatten ++
    [.watermark (maxTimestamp f data)]

/-- The watermarks among some events. -/
def watermarksOf (evs : List (ArconEvent IN)) : List Watermark :=
  evs.filterMap fun
    | .watermark w => some w
    | _ => none

section events

variable {interval : Nat} {f : IN → Nat}

theorem maxTimestamp_snoc (data : List IN) (a : IN) :
    maxTimestamp f (data ++ [a]) = max (maxTimestamp f data) (f a) := by
  unfold maxTimestamp
  rw [List.map_append, List.foldl_append]
  rfl

theorem watermark_after (data : List IN) :
    (Progress.after interval f data).watermark = maxTimestamp f data := by
  induction data using List.reverseRecOn with
  | nil => rfl
  | append_singleton data a ih =>
    rw [Progress.after_snoc, Progress.next_watermark, ih, maxTimestamp_snoc]

theorem news_after (hi : 0 < interval) (data : List IN) (a : IN) :
    (Progress.after interval f data).news interval f a = .element ⟨a, some (f a)⟩ ::
      if interval ∣ data.length + 1 then [.watermark (maxTimestamp f (data ++ [a]))] else [] := by
  unfold Progress.news
  rw [watermark_after, ← maxTimestamp_snoc]
  by_cases h : interval ∣ data.length + 1
  · rw [if_pos ((Progress.counter_after_eq_iff hi data).mpr h), if_pos h]
  · rw [if_neg fun hc => h ((Progress.counter_after_eq_iff hi data).mp hc), if_neg h]

/-- **The events are the expected ones.** -/
theorem stream_eq_expectedStream (hi : 0 < interval) (data : List IN) :
    stream interval f data = expectedStream interval f data := by
  have hevents : ∀ data : List IN, (Progress.after interval f data).events =
      (data.mapIdx fun i a => .element ⟨a, some (f a)⟩ :: if interval ∣ i + 1 then
        [.watermark (maxTimestamp f (data.take (i + 1)))] else []).flatten := by
    intro data
    induction data using List.reverseRecOn with
    | nil => rfl
    | append_singleton data a ih =>
      -- the watermarks of the records before look at these only
      have htake : (data.mapIdx fun i x => ArconEvent.element ⟨x, some (f x)⟩ ::
          if interval ∣ i + 1 then [.watermark (maxTimestamp f ((data ++ [a]).take (i + 1)))]
          else []) = data.mapIdx fun i x => ArconEvent.element ⟨x, some (f x)⟩ ::
          if interval ∣ i + 1 then [.watermark (maxTimestamp f (data.take (i + 1)))] else [] := by
        refine List.ext_getElem (by simp) fun i hi' _ => ?_
        rw [List.length_mapIdx] at hi'
        rw [List.getElem_mapIdx, List.getElem_mapIdx, List.take_append_of_le_length (by omega)]
      have hall : (data ++ [a]).take (data.length + 1) = data ++ [a] :=
        List.take_of_length_le (by simp)
      rw [Progress.after_snoc, Progress.next_events, news_after hi, ih, List.mapIdx_append, htake]
      simp [hall]
  unfold stream expectedStream
  rw [hevents, watermark_after]

/-- No record is left out or repeated. -/
theorem elements_stream (data : List IN) :
    elements (stream interval f data) = data.map fun a => ⟨a, some (f a)⟩ := by
  have hevents : ∀ data : List IN, elements (Progress.after interval f data).events =
      data.map fun a => ⟨a, some (f a)⟩ := by
    intro data
    induction data using List.reverseRecOn with
    | nil => rfl
    | append_singleton data a ih =>
      rw [Progress.after_snoc, Progress.next_events, elements, List.filterMap_append,
        List.map_append, ← ih]
      unfold Progress.news
      split <;> rfl
  unfold stream
  rw [elements, List.filterMap_append, ← hevents]
  exact List.append_nil _

theorem length_watermarks_stream (hi : 0 < interval) (data : List IN) :
    (watermarksOf (stream interval f data)).length = data.length / interval + 1 := by
  have hevents : ∀ data : List IN,
      (watermarksOf (Progress.after interval f data).events).length = data.length / interval := by
    intro data
    induction data using List.reverseRecOn with
    | nil => exact (Nat.zero_div interval).symm
    | append_singleton data a ih =>
      rw [Progress.after_snoc, Progress.next_events, news_after hi, watermarksOf,
        List.filterMap_append, List.length_append, List.length_append, List.length_singleton,
        Nat.succ_div, ← ih]
      split <;> rfl
  unfold stream
  rw [watermarksOf, List.filterMap_append, List.length_append, ← hevents]
  rfl

end events

/-- **Chunked and unchunked sources agree.** For every operator, collection, chunk size and
watermark interval that are not zero: the source stops sending itself messages, and in the end it is
where one pass over the whole collection leads, or the operator has panicked in both at the same
record. With a timestamp extractor, what is handed to the operator and the channel strategy are the
records in order, a watermark with the greatest timestamp so far directly after every
`watermark_interval`-th of them, and one at the end: each record once, and `⌊n / watermark_interval⌋
+ 1` watermarks. -/
theorem chunked_agrees (src : SourceContext σ TS IN OUT) (hinterval : 1 ≤ src.watermarkInterval)
    {chunk : Nat} (hchunk : 1 ≤ chunk) (data : List IN) {op : σ} {timer : τ} {clock : List Nat}
    {s : SourceSt σ τ IN OUT TS} (hnew : src.new op timer clock = .ok s) {rounds : Nat}
    (hrounds : data.length < rounds) :
    EndsAs CollectionSource.source (fun _ c _ => c.Done)
      ((do CollectionSource.onStart; CollectionSource.runChunks src chunk rounds :
        EStateM Crash _ Unit) (CollectionSource.new data s))
      (CollectionSource.onePass src 0 data s) ∧
    ∀ f, src.tsExtractor = some f →
      EndsAs SourceSt.ctx (fun _ _ _ => True) (CollectionSource.onePass src 0 data s)
        (src.deliverAll (expectedStream src.watermarkInterval f data) s.ctx) ∧
      elements (expectedStream src.watermarkInterval f data) =
        data.map (fun a => ⟨a, some (f a)⟩) ∧
      (watermarksOf (expectedStream src.watermarkInterval f data)).length =
        data.length / src.watermarkInterval + 1 := by
  constructor
  · have hstart : CollectionSource.onStart (CollectionSource.new data s) =
        .ok () ⟨s, data, 0, true⟩ := rfl
    rw [bind_ok hstart]
    exact CollectionSource.runChunks_ends hchunk rfl hrounds
  · intro f hf
    rw [← stream_eq_expectedStream hinterval]
    exact ⟨onePass_delivers hf (new_start hnew).1 data, elements_stream data,
      length_watermarks_stream hinterval data⟩

/-- A source that sends its records as they are, with a watermark after every second one. -/
def everySecond : SourceContext Unit Empty Nat Nat := ⟨some id, 2, Map.new id⟩

/-- The end of the first chunk is not that of an interval. -/
theorem chunked_agrees_three :
    ∃ s : SourceSt Unit Unit Nat Nat Empty, everySecond.new () () [] = .ok s ∧
      EndsAs CollectionSource.source (fun _ c _ => c.Done)
        ((do CollectionSource.onStart; CollectionSource.runChunks everySecond 3 6 :
          EStateM Crash _ Unit) (CollectionSource.new [4, 1, 7, 5, 6] s))
        (CollectionSource.onePass everySecond 0 [4, 1, 7, 5, 6] s) ∧
      EndsAs SourceSt.ctx (fun _ _ _ => True)
        (CollectionSource.onePass everySecond 0 [4, 1, 7, 5, 6] s)
        (everySecond.deliverAll [.element ⟨4, some 4⟩, .element ⟨1, some 1⟩, .watermark 4,
          .element ⟨7, some 7⟩, .element ⟨5, some 5⟩, .watermark 7, .element ⟨6, some 6⟩,
          .watermark 7] s.ctx) := by
  have hnew : everySecond.new (τ := Unit) () () [] = .ok _ := rfl
  obtain ⟨hends, hevents⟩ := chunked_agrees everySecond (by decide) (by decide : 1 ≤ 3)
    [4, 1, 7, 5, 6] hnew (by decide : _ < 6)
  exact ⟨_, hnew, hends, (hevents id rfl).1⟩

end Arcon

import Arcon.Operator
import Mathlib.Data.List.AList
import Mathlib.Data.List.Induction

/-!
# The Kafka source (`arcon/src/stream/source/kafka.rs`)

A `KafkaSource` polls its consumer for a batch of messages, hands the ones it can parse to its
channel strategy, and ends the batch with a watermark and an epoch marker. The offset it has come to
is stored under the number of the epoch and committed at once.

The consumer is not part of the repository: a `Poll` is what a call of `receive` meets of it, which
are the items of its stream and whether its `assignment` and its `commit` succeed. `Offset` is its
type too, so it is a parameter with its `from_raw`, and so is the deserialiser (`fromStr`). The
fields `commit_epoch` and `increment_epoch` are never read.

* `tracks_run`: after a run the markers handed on are 0, 1, 2, …, one for each batch that was not
  empty, and the committed epochs are those of the batches whose commit succeeded.
-/

namespace Arcon

open Exec

/-- `i64::max_value()`. -/
def i64Max : Int := 2 ^ 63 - 1

/-- `ts as u64` on an `i64`. -/
def asU64 (ts : Int) : Nat := (ts % 2 ^ 64).toNat

/-- What the source reads of an `OwnedMessage`: its `payload_view::<str>()`, its
`timestamp().to_millis()` and its `offset()`. -/
structure OwnedMessage where
  payloadView : Option (Except String String)
  toMillis : Option Int
  offset : Int

/-- What a call of `receive` meets of the consumer. -/
structure Poll where
  stream : List (Except String OwnedMessage)
  assignment : Bool
  commit : Bool

namespace Poll

/-- There was something on the stream, if only an error. -/
def full (p : Poll) : Bool := !p.stream.isEmpty

/-- An offset handed to the consumer is committed. -/
def commits (p : Poll) : Bool := p.assignment && p.commit

end Poll

/-- `KafkaSource`, with the events it has handed to its channel strategy and the epochs whose offset
it has committed. -/
structure KafkaSource (Off OUT : Type) where
  offset : Off
  maxTimestamp : Nat
  batchSize : Nat
  epoch : Nat
  epochOffset : AList fun _ : Nat => Off
  added : List (ArconEvent OUT)
  committed : List (Nat × Off)

namespace KafkaSource

variable {Off OUT : Type}

/-- The code of the source. -/
abbrev KafkaM (Off OUT : Type) := EStateM Crash (KafkaSource Off OUT)

/-- `KafkaSource::new`, once the consumer has subscribed. -/
def new (fromRaw : Int → Off) (offset : Int) : KafkaSource Off OUT :=
  ⟨fromRaw offset, 0, 100, 0, ∅, [], []⟩

/-- `channel_strategy.borrow_mut().add(event, self)`. -/
def add (ev : ArconEvent OUT) : KafkaM Off OUT Unit :=
  modify fun s => { s with added := s.added ++ [ev] }

/-- `output_event`. -/
def outputEvent (data : OUT) (ts : Option Nat) : KafkaM Off OUT Unit :=
  match ts with
  | some time => add (.element (ArconElement.withTimestamp data time))
  | none => add (.element ⟨data, none⟩)

/-- `output_watermark`. -/
def outputWatermark : KafkaM Off OUT Unit := do
  add (.watermark (← get).maxTimestamp)

/-- `commit_epoch`. Whatever goes wrong is logged. -/
def commitEpoch (p : Poll) (epoch : Nat) : KafkaM Off OUT Unit :=
  modify fun s =>
    match s.epochOffset.lookup epoch with
    | some commitOffset =>
      if p.assignment then
        if p.commit then { s with committed := s.committed ++ [(epoch, commitOffset)] } else s
      else s
    | none => s

/-- `new_epoch`. -/
def newEpoch : KafkaM Off OUT Unit := do
  modify fun s => { s with epochOffset := s.epochOffset.insert s.epoch s.offset }
  add (.epoch (← get).epoch)
  match checkedAdd (← get).epoch 1 with
  | some epoch => modify fun s => { s with epoch := epoch }
  | none => throw (.panic "attempt to add with overflow")

/-- The loop that fetches the batch: its messages, and the number of items read from the stream. -/
def fetch (batchSize : Nat) (messages : List OwnedMessage) (counter : Nat) :
    List (Except String OwnedMessage) → List OwnedMessage × Nat
  | [] => (messages, counter)
  | item :: stream =>
    let messages := match item with
      | .ok m => messages ++ [m]
      | .error _ => messages
    if counter + 1 = batchSize then (messages, counter + 1)
    else fetch batchSize messages (counter + 1) stream

variable (fromRaw : Int → Off) (fromStr : String → Option OUT)

/-- The timestamp of a message moves `max_timestamp`. -/
def raiseTimestamp (timestamp : Option Nat) : KafkaM Off OUT Unit :=
  match timestamp with
  | some ts => modify fun s => if s.maxTimestamp < ts then { s with maxTimestamp := ts } else s
  | none => pure ()

/-- A message of the batch: one that cannot be parsed is logged and skipped, and its offset too. -/
def process (m : OwnedMessage) : KafkaM Off OUT Unit := do
  let payload := match m.payloadView with
    | some (.ok s) => s
    | some (.error _) => ""
    | none => ""
  let timestamp := m.toMillis.map asU64
  raiseTimestamp timestamp
  match fromStr payload with
  | some data => do
    if m.offset = i64Max then
      throw (.panic "attempt to add with overflow")
    modify fun s => { s with offset := fromRaw (m.offset + 1) }
    outputEvent data timestamp
  | none => pure ()

/-- `receive`; the call it schedules is the next one of the run. -/
def receive (p : Poll) : KafkaM Off OUT Unit := do
  let (messages, counter) := fetch (← get).batchSize [] 0 p.stream
  forM messages (process fromRaw fromStr)
  if 0 < counter then do
    outputWatermark
    newEpoch
    commitEpoch p ((← get).epoch - 1)

/-- `on_start` and the calls of `receive` that follow it. -/
def run (polls : List Poll) : KafkaM Off OUT Unit := forM polls (receive fromRaw fromStr)

/-- An offset is stored for the epoch, and it was committed. -/
def Committed (s : KafkaSource Off OUT) (e : Nat) : Prop :=
  ∃ o, s.epochOffset.lookup e = some o ∧ (e, o) ∈ s.committed

/-! ## What a run leaves -/

/-- The counter only grows. -/
theorem le_fetch (batchSize : Nat) (stream : List (Except String OwnedMessage))
    (messages : List OwnedMessage) (counter : Nat) :
    counter ≤ (fetch batchSize messages counter stream).2 := by
  induction stream generalizing messages counter with
  | nil => exact le_rfl
  | cons item stream ih =>
    unfold fetch
    dsimp only
    split_ifs
    · exact Nat.le_succ counter
    · exact le_trans (Nat.le_succ counter) (ih _ _)

/-- A batch is counted exactly if there was something on the stream. -/
theorem fetch_pos (batchSize : Nat) (p : Poll) :
    0 < (fetch batchSize [] 0 p.stream).2 ↔ p.full = true := by
  unfold Poll.full
  cases p.stream with
  | nil => exact iff_of_false (lt_irrefl 0) (by simp)
  | cons item stream =>
    refine iff_of_true ?_ (by simp)
    unfold fetch
    dsimp only
    split_ifs
    · exact Nat.one_pos
    · exact le_fetch batchSize stream _ 1

/-- What the messages of a batch leave alone. -/
structure SameEpochs (s s' : KafkaSource Off OUT) : Prop where
  epoch : s'.epoch = s.epoch
  epochOffset : s'.epochOffset = s.epochOffset
  committed : s'.committed = s.committed
  markers : markers s'.added = markers s.added

theorem SameEpochs.trans {s s' s'' : KafkaSource Off OUT} (h : SameEpochs s s')
    (h' : SameEpochs s' s'') : SameEpochs s s'' :=
  ⟨h'.epoch.trans h.epoch, h'.epochOffset.trans h.epochOffset, h'.committed.trans h.committed,
    h'.markers.trans h.markers⟩

/-- Handing on an event that is no marker. -/
theorem SameEpochs.add (s : KafkaSource Off OUT) {ev : ArconEvent OUT} (h : ev.marker? = none) :
    SameEpochs s { s with added := s.added ++ [ev] } := by
  refine ⟨rfl, rfl, rfl, ?_⟩
  rw [markers_append, show Arcon.markers [ev] = [] by simp [Arcon.markers, h], List.append_nil]

variable {fromRaw fromStr}

theorem wp_outputEvent (data : OUT) (ts : Option Nat) (s : KafkaSource Off OUT) :
    wp (outputEvent data ts) (fun _ s' => SameEpochs s s') (fun _ _ => True) s := by
  cases ts with
  | some time => exact SameEpochs.add s rfl
  | none => exact SameEpochs.add s rfl

theorem wp_raiseTimestamp (ts : Option Nat) (s : KafkaSource Off OUT) :
    wp (raiseTimestamp ts) (fun _ s' => SameEpochs s s') (fun _ _ => True) s := by
  cases ts with
  | none => exact ⟨rfl, rfl, rfl, rfl⟩
  | some ts =>
    rw [raiseTimestamp, wp_modify]
    split_ifs <;> exact ⟨rfl, rfl, rfl, rfl⟩

theorem wp_process (m : OwnedMessage) (s : KafkaSource Off OUT) :
    wp (process fromRaw fromStr m) (fun _ s' => SameEpochs s s') (fun _ _ => True) s := by
  unfold process
  simp only [wp_bind]
  refine wp_mono (wp_raiseTimestamp _ s) (fun _ s' h => ?_) (fun _ _ h => h)
  cases fromStr _ with
  | none => exact h
  | some data =>
    dsimp only
    rw [wp_ite, wp_bind, wp_throw, wp_bind, wp_modify]
    refine ⟨fun _ => trivial, fun _ => ?_⟩
    refine wp_mono (wp_outputEvent data _ _) (fun _ s'' h' => ?_) (fun _ _ h => h)
    exact h.trans ⟨h'.epoch, h'.epochOffset, h'.committed, h'.markers⟩

theorem wp_batch (messages : List OwnedMessage) (s : KafkaSource Off OUT) :
    wp (forM messages (process fromRaw fromStr)) (fun _ s' => SameEpochs s s')
      (fun _ _ => True) s :=
  wp_forM (I := fun _ s' => SameEpochs s s')
    (fun m _ s' h => wp_mono (wp_process m s') (fun _ _ h' => h.trans h') fun _ _ h => h)
    ⟨rfl, rfl, rfl, rfl⟩

/-- The source after some polls, those with something on the stream being `batches`. -/
structure Tracks (batches : List Poll) (s : KafkaSource Off OUT) : Prop where
  epoch : s.epoch = batches.length
  markers : markers s.added = List.range s.epoch
  stored : ∀ e o, (e, o) ∈ s.committed → s.epochOffset.lookup e = some o
  committed : ∀ e, (∃ o, (e, o) ∈ s.committed) ↔ ∃ p, batches[e]? = some p ∧ p.commits = true

theorem Tracks.of_same {batches : List Poll} {s s' : KafkaSource Off OUT} (h : Tracks batches s)
    (h' : SameEpochs s s') : Tracks batches s' := by
  refine ⟨h'.epoch.trans h.epoch, ?_, ?_, ?_⟩
  · rw [h'.markers, h'.epoch]
    exact h.markers
  · rw [h'.committed, h'.epochOffset]
    exact h.stored
  · rw [h'.committed]
    exact h.committed

theorem Tracks.lt {batches : List Poll} {s : KafkaSource Off OUT} (h : Tracks batches s) {e : Nat}
    {o : Off} (he : (e, o) ∈ s.committed) : e < s.epoch := by
  obtain ⟨p, hp, -⟩ := (h.committed e).mp ⟨o, he⟩
  rw [h.epoch]
  exact (List.getElem?_eq_some_iff.mp hp).1

/-- The source after the end of a batch. -/
def ended (s : KafkaSource Off OUT) (p : Poll) : KafkaSource Off OUT :=
  { s with
    epochOffset := s.epochOffset.insert s.epoch s.offset
    added := s.added ++ [.epoch s.epoch]
    epoch := s.epoch + 1
    committed := s.committed ++ if p.commits then [(s.epoch, s.offset)] else [] }

theorem wp_commitEpoch (p : Poll) {s : KafkaSource Off OUT} {e : Nat} {o : Off}
    (h : s.epochOffset.lookup e = some o) :
    wp (commitEpoch p e)
      (fun _ s' => s' = { s with committed := s.committed ++ if p.commits then [(e, o)] else [] })
      (fun _ _ => True) s := by
  unfold commitEpoch Poll.commits
  rw [wp_modify]
  split
  · rename_i o' h'
    obtain rfl : o = o' := Option.some.inj (h.symm.trans h')
    cases p.assignment <;> cases p.commit <;> simp
  · rename_i h'
    cases h.symm.trans h'

/-- **The end of a batch**: its epoch is stored and marked, and committed if the consumer lets
it. -/
theorem wp_endBatch (p : Poll) (s : KafkaSource Off OUT) :
    wp (do newEpoch; commitEpoch p ((← get).epoch - 1) : KafkaM Off OUT Unit)
      (fun _ s' => s' = s.ended p) (fun _ _ => True) s := by
  unfold newEpoch add
  simp only [wp_bind, wp_modify, wp_get]
  cases hadd : checkedAdd s.epoch 1 with
  | none => trivial
  | some epoch =>
    rw [checkedAdd] at hadd
    split_ifs at hadd
    obtain rfl := Option.some.inj hadd
    rw [wp_modify, Nat.add_sub_cancel]
    exact wp_commitEpoch p (AList.lookup_insert _)

theorem getElem?_snoc {α : Type} (l : List α) (a b : α) (i : Nat) :
    (l ++ [a])[i]? = some b ↔ l[i]? = some b ∨ i = l.length ∧ a = b := by
  rcases lt_trichotomy i l.length with hlt | rfl | hlt
  · rw [List.getElem?_append_left hlt]
    exact (or_iff_left fun h => absurd h.1 (ne_of_lt hlt)).symm
  · simp
  · rw [List.getElem?_eq_none (by simp; omega), List.getElem?_eq_none (le_of_lt hlt)]
    simp [ne_of_gt hlt]

theorem Tracks.ended {batches : List Poll} {s : KafkaSource Off OUT} (h : Tracks batches s)
    (p : Poll) : Tracks (batches ++ [p]) (s.ended p) := by
  have hmem : ∀ e o, (e, o) ∈ (s.ended p).committed ↔
      (e, o) ∈ s.committed ∨ p.commits = true ∧ e = s.epoch ∧ o = s.offset := by
    intro e o
    unfold KafkaSource.ended
    cases p.commits <;> simp
  refine ⟨?_, ?_, fun e o he => ?_, fun e => ?_⟩
  · rw [List.length_append, ← h.epoch]
    rfl
  · show Arcon.markers (s.added ++ [.epoch s.epoch]) = List.range (s.epoch + 1)
    rw [markers_append, h.markers, List.range_succ]
    rfl
  · show (s.epochOffset.insert s.epoch s.offset).lookup e = some o
    rcases (hmem e o).mp he with he | ⟨-, rfl, rfl⟩
    · rw [AList.lookup_insert_ne (ne_of_lt (h.lt he))]
      exact h.stored e o he
    · exact AList.lookup_insert _
  · simp only [hmem, getElem?_snoc, ← h.epoch, or_and_right, exists_or]
    refine or_congr (h.committed e) ⟨?_, ?_⟩
    · rintro ⟨o, hp, he, -⟩
      exact ⟨p, ⟨he, rfl⟩, hp⟩
    · rintro ⟨q, ⟨he, rfl⟩, hp⟩
      exact ⟨s.offset, hp, he, rfl⟩

/-- **A call of `receive`.** -/
theorem Tracks.receive {polls : List Poll} {s : KafkaSource Off OUT}
    (h : Tracks (polls.filter Poll.full) s) (p : Poll) :
    wp (receive fromRaw fromStr p) (fun _ s' => Tracks ((polls ++ [p]).filter Poll.full) s')
      (fun _ _ => True) s := by
  unfold KafkaSource.receive
  rw [wp_bind, wp_get, wp_bind]
  refine wp_mono (wp_batch _ s) (fun _ s₁ h₁ => ?_) (fun _ _ h => h)
  have htracks := h.of_same h₁
  rw [wp_ite, fetch_pos, List.filter_append]
  refine ⟨fun hfull => ?_, fun hfull => ?_⟩
  · rw [List.filter_cons_of_pos hfull, wp_bind]
    unfold outputWatermark add
    rw [wp_bind, wp_get, wp_modify]
    refine wp_mono (wp_endBatch p _) (fun _ s₂ h₂ => ?_) (fun _ _ h => h)
    rw [h₂]
    exact (htracks.of_same (SameEpochs.add s₁ rfl)).ended p
  · rw [List.filter_cons_of_neg hfull, List.filter_nil, List.append_nil]
    exact htracks

/-- **Every run**: one marker for each batch, committed as the consumer let it. -/
theorem tracks_run (polls : List Poll) (offset : Int) :
    wp (run fromRaw fromStr polls) (fun _ s => Tracks (polls.filter Poll.full) s) (fun _ _ => True)
      (new fromRaw offset : KafkaSource Off OUT) := by
  refine wp_forM_done (J := fun done s => Tracks (done.filter Poll.full) s) ?_ ?_
  · refine ⟨rfl, rfl, fun e o he => ?_, fun e => ?_⟩
    · cases he
    · exact iff_of_false (fun ⟨o, he⟩ => by cases he) fun ⟨p, hp, _⟩ => by simp at hp
  · intro done p rest s _ _ h
    exact h.receive p

/-- The committed epochs after a run. -/
theorem Tracks.committed_iff {batches : List Poll} {s : KafkaSource Off OUT} (h : Tracks batches s)
    (e : Nat) : s.Committed e ↔ ∃ p, batches[e]? = some p ∧ p.commits = true := by
  rw [← h.committed]
  exact ⟨fun ⟨o, _, he⟩ => ⟨o, he⟩, fun ⟨o, he⟩ => ⟨o, h.stored e o he, he⟩⟩

end KafkaSource

end Arcon

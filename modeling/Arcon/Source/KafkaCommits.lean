import Arcon.Source.Kafka
import Arcon.Source.Stream

/-!
# The offsets that a Kafka source commits (`arcon/src/stream/source/kafka.rs`)

A `KafkaSource` keeps one offset, that behind the message it has handed on last, and commits it for
every partition that is assigned to it (`set_all_offsets`). The partitions count their messages
separately, so the offset is right for the partition of that message and for no other: where it is
ahead of what a partition has delivered, messages are skipped after a restart.

`KafkaSource` does not look at partitions, so its model has none. Here the messages of a poll come
with their partition, and `offsets` is what the broker has for each of them. Offsets are raw
(`Offset::from_raw` loses nothing).

* `follows_run`: where the offset of the source is, and what it has handed on.
* **`commits_behind_iff`**: no commit of a run is ahead of a partition or goes back, if and only if
  at every commit each partition has come as far as the message that was handed on last.
* `one_partition`: with one partition it has.
* `commits_ahead`: two partitions.
-/

namespace Arcon

open Exec

/-- `payload`, of `receive`. -/
def OwnedMessage.payload (m : OwnedMessage) : String :=
  match m.payloadView with
  | some (.ok s) => s
  | some (.error _) => ""
  | none => ""

/-- What a call of `receive` meets of a consumer with `n` partitions. -/
structure PartitionedPoll (n : Nat) where
  stream : List (Except String (Fin n × OwnedMessage))
  assignment : Bool
  commit : Bool

namespace PartitionedPoll

variable {n : Nat}

/-- As the source sees it. -/
def poll (q : PartitionedPoll n) : Poll :=
  ⟨q.stream.map fun item => item.map Prod.snd, q.assignment, q.commit⟩

/-- The messages of the batch: of the first hundred items. -/
def batch (q : PartitionedPoll n) : List (Fin n × OwnedMessage) :=
  (q.stream.take 100).filterMap Except.toOption

variable {OUT : Type} (fromStr : String → Option OUT)

/-- The messages of the batch that are handed on: those that can be deserialised. -/
def handedOn (q : PartitionedPoll n) : List (Fin n × OwnedMessage) :=
  q.batch.filter fun m => (fromStr m.2.payload).isSome

/-- The partitions and offsets of the messages that some polls handed on. -/
def outputs (qs : List (PartitionedPoll n)) : List (Fin n × Int) :=
  qs.flatMap fun q => (q.handedOn fromStr).map fun m => (m.1, m.2.offset)

/-- The offsets of a partition increase along a run. They count from 0. -/
structure Increasing (qs : List (PartitionedPoll n)) : Prop where
  pairwise : (qs.flatMap batch).Pairwise fun a b => a.1 = b.1 → a.2.offset < b.2.offset
  nonneg : ∀ m ∈ qs.flatMap batch, 0 ≤ m.2.offset

/-- The highest offset of a partition, −1 where there is none. -/
def highest (outs : List (Fin n × Int)) (p : Fin n) : Int :=
  ((outs.filter fun m => m.1 = p).map Prod.snd).foldl max (-1)

/-- The offset behind the last message, or the one to start with. -/
def position (offset : Int) (outs : List (Fin n × Int)) : Int :=
  match outs.getLast? with
  | some m => m.2 + 1
  | none => offset

variable {fromStr}

theorem outputs_append (qs qs' : List (PartitionedPoll n)) :
    outputs fromStr (qs ++ qs') = outputs fromStr qs ++ outputs fromStr qs' := List.flatMap_append

theorem position_cons (offset : Int) (m : Fin n × Int) (outs : List (Fin n × Int)) :
    position offset (m :: outs) = position (m.2 + 1) outs := by
  unfold position
  cases outs with
  | nil => rfl
  | cons m' outs =>
    rw [List.getLast?_cons_cons]
    cases hlast : (m' :: outs).getLast? with
    | none => exact absurd (List.getLast?_eq_none_iff.mp hlast) (List.cons_ne_nil _ _)
    | some m₀ => rfl

theorem position_append (offset : Int) (outs outs' : List (Fin n × Int)) :
    position offset (outs ++ outs') = position (position offset outs) outs' := by
  induction outs generalizing offset with
  | nil => rfl
  | cons m outs ih => rw [List.cons_append, position_cons, position_cons, ih]

theorem highest_le_iff (outs : List (Fin n × Int)) (p : Fin n) (x : Int) :
    highest outs p ≤ x ↔ -1 ≤ x ∧ ∀ o, (p, o) ∈ outs → o ≤ x := by
  have hfold : ∀ (l : List Int) (a : Int), l.foldl max a ≤ x ↔ a ≤ x ∧ ∀ b ∈ l, b ≤ x := by
    intro l
    induction l with
    | nil => simp
    | cons b l ih =>
      intro a
      rw [List.foldl_cons, ih, max_le_iff, List.forall_mem_cons, and_assoc]
  unfold highest
  rw [hfold]
  refine and_congr_right fun _ => ⟨fun h o ho => h o ?_, fun h b hb => ?_⟩
  · exact List.mem_map.mpr ⟨(p, o), List.mem_filter.mpr ⟨ho, by simp⟩, rfl⟩
  · obtain ⟨m, hm, rfl⟩ := List.mem_map.mp hb
    obtain ⟨hin, hp⟩ := List.mem_filter.mp hm
    obtain rfl : m.1 = p := by simpa using hp
    exact h m.2 hin

theorem le_highest {outs : List (Fin n × Int)} {p : Fin n} {o : Int} (h : (p, o) ∈ outs) :
    o ≤ highest outs p := ((highest_le_iff outs p _).mp le_rfl).2 o h

/-- What was handed on stays so. -/
theorem highest_mono {outs outs' : List (Fin n × Int)} (h : outs ⊆ outs') (p : Fin n) :
    highest outs p ≤ highest outs' p :=
  (highest_le_iff outs p _).mpr
    ⟨((highest_le_iff outs' p _).mp le_rfl).1, fun _ ho => le_highest (h ho)⟩

/-- What is handed on is part of what is delivered. -/
theorem outputs_sublist (qs : List (PartitionedPoll n)) :
    (outputs fromStr qs).Sublist ((qs.flatMap batch).map fun m => (m.1, m.2.offset)) := by
  induction qs with
  | nil => exact List.Sublist.slnil
  | cons q qs ih =>
    show List.Sublist (_ ++ outputs fromStr qs) _
    rw [List.flatMap_cons, List.map_append]
    exact (List.filter_sublist.map _).append ih

theorem Increasing.outputs {qs : List (PartitionedPoll n)} (h : Increasing qs) :
    (outputs fromStr qs).Pairwise (fun a b => a.1 = b.1 → a.2 < b.2) ∧
      ∀ m ∈ outputs fromStr qs, 0 ≤ m.2 := by
  refine ⟨List.Pairwise.sublist (outputs_sublist qs) (List.pairwise_map.mpr h.pairwise),
    fun m hm => ?_⟩
  obtain ⟨m', hm', rfl⟩ := List.mem_map.mp ((outputs_sublist qs).subset hm)
  exact h.nonneg m' hm'

theorem Increasing.of_prefix {qs done : List (PartitionedPoll n)} (h : Increasing qs)
    (hpre : done <+: qs) : Increasing done := by
  obtain ⟨rest, rfl⟩ := hpre
  have happ : (done ++ rest).flatMap batch = done.flatMap batch ++ rest.flatMap batch :=
    List.flatMap_append
  refine ⟨?_, fun m hm => h.nonneg m ?_⟩
  · have := h.pairwise
    rw [happ] at this
    exact (List.pairwise_append.mp this).1
  · rw [happ]
    exact List.mem_append_left _ hm

end PartitionedPoll

namespace KafkaSource

open PartitionedPoll

variable {n : Nat} {OUT : Type} (fromStr : String → Option OUT) (offset : Int)

/-- `tpl.set_all_offsets(offset)`. -/
def setAllOffsets (offset : Int) (_tpl : Fin n → Option Int) : Fin n → Option Int :=
  fun _ => some offset

/-- What the broker has for each partition after the commits of the source. -/
def offsets (n : Nat) (k : KafkaSource Int OUT) : Fin n → Option Int :=
  k.committed.foldl (fun tpl c => setAllOffsets c.2 tpl) fun _ => none

/-- A run of a new source over some polls. -/
def runOn (qs : List (PartitionedPoll n)) : EStateM.Result Crash (KafkaSource Int OUT) Unit :=
  run id fromStr (qs.map PartitionedPoll.poll) (new id offset)

/-- After every `receive` the offset committed for a partition is at most the one behind the
highest offset that was handed on. -/
def CommitsBehind (qs : List (PartitionedPoll n)) : Prop :=
  ∀ done k, done <+: qs → runOn fromStr offset done = .ok () k →
    ∀ p c, k.offsets n p = some c → c ≤ 1 + highest (outputs fromStr done) p

/-- No `receive` lowers the offset committed for a partition. -/
def CommitsGrow (qs : List (PartitionedPoll n)) : Prop :=
  ∀ done q k k', done ++ [q] <+: qs → runOn fromStr offset done = .ok () k →
    runOn fromStr offset (done ++ [q]) = .ok () k' →
    ∀ p c, k.offsets n p = some c → ∃ c', k'.offsets n p = some c' ∧ c ≤ c'

/-- Each partition has come as far as the message that was handed on last. -/
def AllAsFar (outs : List (Fin n × Int)) : Prop :=
  ∀ p, match outs.getLast? with
    | some m => ∃ o, (p, o) ∈ outs ∧ m.2 ≤ o
    | none => offset ≤ 0

/-- The batch ends with a commit. -/
def Commits (q : PartitionedPoll n) : Prop := q.poll.full = true ∧ q.poll.commits = true

instance (q : PartitionedPoll n) : Decidable (Commits q) := inferInstanceAs (Decidable (_ ∧ _))

/-- All partitions have come as far whenever a batch is committed. -/
def CommitsTogether (qs : List (PartitionedPoll n)) : Prop :=
  ∀ done q, done ++ [q] <+: qs → isOk (runOn fromStr offset (done ++ [q])) = true →
    Commits q → AllAsFar offset (outputs fromStr (done ++ [q]))

/-! ## How far the partitions are -/

section partitions

variable {offset} {outs outs' : List (Fin n × Int)}

/-- All partitions have come as far as the last message if its offset is ahead of none. -/
theorem allAsFar_iff (hnonneg : ∀ m ∈ outs, 0 ≤ m.2) :
    AllAsFar offset outs ↔ ∀ p, position offset outs ≤ 1 + highest outs p := by
  unfold AllAsFar position
  refine forall_congr' fun p => ?_
  cases hlast : outs.getLast? with
  | none =>
    rw [List.getLast?_eq_none_iff.mp hlast]
    show offset ≤ 0 ↔ offset ≤ 1 + -1
    rfl
  | some m =>
    have hpos := hnonneg m (List.mem_of_getLast? hlast)
    show (∃ o, (p, o) ∈ outs ∧ m.2 ≤ o) ↔ m.2 + 1 ≤ 1 + highest outs p
    constructor
    · rintro ⟨o, ho, hle⟩
      have := le_highest ho
      omega
    · intro h
      by_contra hnone
      have hlow : highest outs p ≤ m.2 - 1 := by
        refine (highest_le_iff outs p _).mpr ⟨by omega, fun o ho => ?_⟩
        have : ¬m.2 ≤ o := fun hle => hnone ⟨o, ho, hle⟩
        omega
      omega

/-- **The offset does not go back** from where all partitions have come as far. -/
theorem position_mono (hinc : outs'.Pairwise fun a b => a.1 = b.1 → a.2 < b.2)
    (hnonneg : ∀ m ∈ outs', 0 ≤ m.2) (hpre : outs <+: outs') (hfar : AllAsFar offset outs) :
    position offset outs ≤ position offset outs' := by
  rcases List.eq_nil_or_concat outs' with rfl | ⟨before, m, rfl⟩
  · rw [List.prefix_nil.mp hpre]
  rw [List.concat_eq_append] at hinc hnonneg hpre ⊢
  have hpos := hnonneg m (by simp)
  have hend : position offset (before ++ [m]) = m.2 + 1 := by
    unfold position
    rw [List.getLast?_concat]
  rw [hend]
  have hm := hfar m.1
  unfold position
  cases hlast : outs.getLast? with
  | none =>
    rw [hlast] at hm
    show offset ≤ m.2 + 1
    have hle : offset ≤ 0 := hm
    omega
  | some m₀ =>
    rw [hlast] at hm
    -- the partition of the last message had come as far before
    obtain ⟨o, ho, hle⟩ := hm
    show m₀.2 + 1 ≤ m.2 + 1
    have hom : o ≤ m.2 := by
      rcases List.mem_append.mp (hpre.subset ho) with hin | hin
      · exact le_of_lt ((List.pairwise_append.mp hinc).2.2 _ hin m (by simp) rfl)
      · exact (congrArg Prod.snd (List.mem_singleton.mp hin)).le
    omega

end partitions

/-! ## What a run does -/

section runs

/-- The element that is handed on for a message. -/
def element? (m : OwnedMessage) : Option (ArconElement OUT) :=
  (fromStr m.payload).map fun data => ⟨data, m.toMillis.map asU64⟩

/-- What the messages of a batch do to the source. -/
structure Handles (ms : List (Fin n × OwnedMessage)) (s s' : KafkaSource Int OUT) : Prop where
  batchSize : s'.batchSize = s.batchSize
  epoch : s'.epoch = s.epoch
  committed : s'.committed = s.committed
  offset : s'.offset = position s.offset
    ((ms.filter fun m => (fromStr m.2.payload).isSome).map fun m => (m.1, m.2.offset))
  elements : elements s'.added = elements s.added ++ ms.filterMap fun m => element? fromStr m.2

variable {fromStr} {offset}

theorem wp_raiseTimestamp_eq (ts : Option Nat) (s : KafkaSource Int OUT) :
    wp (raiseTimestamp ts) (fun _ s' => ∃ t, s' = { s with maxTimestamp := t })
      (fun _ _ => False) s := by
  cases ts with
  | none => exact ⟨s.maxTimestamp, rfl⟩
  | some ts =>
    rw [raiseTimestamp, wp_modify]
    split_ifs
    · exact ⟨ts, rfl⟩
    · exact ⟨s.maxTimestamp, rfl⟩

theorem process_eq (m : OwnedMessage) : process id fromStr m = (do
    raiseTimestamp (m.toMillis.map asU64)
    match fromStr m.payload with
    | some data => do
      if m.offset = i64Max then
        throw (.panic "attempt to add with overflow")
      modify fun s => { s with offset := m.offset + 1 }
      outputEvent data (m.toMillis.map asU64)
    | none => pure () : KafkaM Int OUT Unit) := rfl

/-- **A message** that can be deserialised moves the offset behind it and is handed on. -/
theorem wp_process_handles (m : Fin n × OwnedMessage) (s : KafkaSource Int OUT) :
    wp (process id fromStr m.2) (fun _ s' => Handles fromStr [m] s s') (fun _ _ => True) s := by
  rw [process_eq, wp_bind]
  refine wp_mono (wp_raiseTimestamp_eq _ s) ?_ (fun _ _ h => h.elim)
  rintro _ s₁ ⟨t, rfl⟩
  cases hdata : fromStr m.2.payload with
  | none => exact ⟨rfl, rfl, rfl, by simp [hdata, position], by simp [element?, hdata]⟩
  | some data =>
    dsimp only
    rw [wp_ite, wp_bind, wp_throw, wp_bind, wp_modify]
    refine ⟨fun _ => trivial, fun _ => ?_⟩
    have hadd : ∀ e : ArconElement OUT, some e = element? fromStr m.2 →
        Handles fromStr [m] s { s with
          maxTimestamp := t, offset := m.2.offset + 1, added := s.added ++ [.element e] } := by
      intro e he
      refine ⟨rfl, rfl, rfl, by simp [hdata, position], ?_⟩
      rw [elements_append, List.filterMap_cons, ← he]
      rfl
    unfold outputEvent add ArconElement.withTimestamp
    cases hts : m.2.toMillis with
    | none => exact hadd _ (by simp [element?, hdata, hts])
    | some ts => exact hadd _ (by simp [element?, hdata, hts])

theorem Handles.trans {ms ms' : List (Fin n × OwnedMessage)} {s s' s'' : KafkaSource Int OUT}
    (h : Handles fromStr ms s s') (h' : Handles fromStr ms' s' s'') :
    Handles fromStr (ms ++ ms') s s'' := by
  refine ⟨h'.batchSize.trans h.batchSize, h'.epoch.trans h.epoch,
    h'.committed.trans h.committed, ?_, ?_⟩
  · rw [h'.offset, h.offset, List.filter_append, List.map_append, position_append]
  · rw [h'.elements, h.elements, List.filterMap_append, List.append_assoc]

theorem wp_batch_handles (ms : List (Fin n × OwnedMessage)) (s : KafkaSource Int OUT) :
    wp (forM (ms.map Prod.snd) (process id fromStr)) (fun _ s' => Handles fromStr ms s s')
      (fun _ _ => True) s := by
  induction ms generalizing s with
  | nil => exact ⟨rfl, rfl, rfl, rfl, (List.append_nil _).symm⟩
  | cons m ms ih =>
    rw [List.map_cons, List.forM_cons, wp_bind]
    refine wp_mono (wp_process_handles m s) (fun _ s₁ h₁ => ?_) (fun _ _ h => h)
    exact wp_mono (ih s₁) (fun _ _ h₂ => h₁.trans h₂) (fun _ _ h => h)

/-- The batch is what the first items of the stream hold. -/
theorem fetch_fst {stream : List (Except String OwnedMessage)} {batchSize counter : Nat}
    (h : counter < batchSize) (messages : List OwnedMessage) :
    (fetch batchSize messages counter stream).1 =
      messages ++ (stream.take (batchSize - counter)).filterMap Except.toOption := by
  induction stream generalizing messages counter with
  | nil => simp [fetch]
  | cons item stream ih =>
    have htake : batchSize - counter = (batchSize - (counter + 1)) + 1 := by omega
    have hnext : ∀ messages, (if counter + 1 = batchSize then (messages, counter + 1)
        else fetch batchSize messages (counter + 1) stream).1 =
          messages ++ (stream.take (batchSize - (counter + 1))).filterMap Except.toOption := by
      intro messages
      split_ifs with hlast
      · rw [hlast, Nat.sub_self]
        exact (List.append_nil messages).symm
      · exact ih (by omega) messages
    rw [htake, List.take_succ_cons]
    cases item with
    | ok m =>
      refine (hnext (messages ++ [m])).trans ?_
      rw [List.append_assoc]
      rfl
    | error e => exact hnext messages

theorem fetch_batch (q : PartitionedPoll n) :
    (fetch 100 [] 0 q.poll.stream).1 = q.batch.map Prod.snd := by
  rw [fetch_fst (by decide), List.nil_append]
  unfold PartitionedPoll.poll PartitionedPoll.batch
  dsimp only
  rw [← List.map_take, List.filterMap_map, List.map_filterMap]
  congr 1
  funext item
  cases item <;> rfl

/-- The source after some polls of a run. -/
structure Follows (fromStr : String → Option OUT) (offset : Int) (done : List (PartitionedPoll n))
    (k : KafkaSource Int OUT) : Prop where
  batchSize : k.batchSize = 100
  offset : k.offset = position offset (outputs fromStr done)
  elements : elements k.added = (done.flatMap batch).filterMap fun m => element? fromStr m.2

theorem follows_new : Follows (n := n) fromStr offset [] (new id offset) := ⟨rfl, rfl, rfl⟩

/-- **A call of `receive`.** -/
theorem Follows.receive {done : List (PartitionedPoll n)} {k : KafkaSource Int OUT}
    (h : Follows fromStr offset done k) (q : PartitionedPoll n) :
    wp (receive id fromStr q.poll)
      (fun _ k' => Follows fromStr offset (done ++ [q]) k' ∧
        k'.offsets n = if Commits q then fun _ => some k'.offset else k.offsets n)
      (fun _ _ => True) k := by
  -- the messages of the batch leave the source where it is after the batch
  have hfollows : ∀ k' : KafkaSource Int OUT, Handles fromStr q.batch k k' →
      Follows fromStr offset (done ++ [q]) k' := by
    intro k' hk'
    refine ⟨hk'.batchSize.trans h.batchSize, ?_, ?_⟩
    · rw [hk'.offset, h.offset, outputs_append, position_append]
      unfold outputs handedOn
      rw [List.flatMap_singleton]
    · rw [hk'.elements, h.elements, List.flatMap_append, List.filterMap_append,
        List.flatMap_singleton]
  unfold KafkaSource.receive
  rw [wp_bind, wp_get, wp_bind, h.batchSize, fetch_batch]
  refine wp_mono (wp_batch_handles q.batch k) (fun _ k₁ h₁ => ?_) (fun _ _ h => h)
  rw [wp_ite, fetch_pos]
  refine ⟨fun hfull => ?_, fun hfull => ?_⟩
  · rw [wp_bind]
    unfold outputWatermark add
    rw [wp_bind, wp_get, wp_modify]
    refine wp_mono (wp_endBatch q.poll _) (fun _ k₂ h₂ => ?_) (fun _ _ h => h)
    subst h₂
    have hf := hfollows k₁ h₁
    refine ⟨⟨hf.batchSize, hf.offset, ?_⟩, ?_⟩
    · rw [← hf.elements]
      show Arcon.elements (k₁.added ++ [.watermark k₁.maxTimestamp] ++ [.epoch k₁.epoch]) = _
      rw [elements_append, elements_append]
      exact (List.append_nil _).trans (List.append_nil _)
    · unfold KafkaSource.ended KafkaSource.offsets
      dsimp only
      rw [h₁.committed]
      by_cases hcommits : q.poll.commits = true
      · rw [if_pos hcommits, if_pos ⟨hfull, hcommits⟩, List.foldl_append]
        rfl
      · rw [if_neg hcommits, if_neg fun hq : Commits q => hcommits hq.2, List.append_nil]
  · refine ⟨hfollows k₁ h₁, ?_⟩
    rw [if_neg fun hq : Commits q => hfull hq.1]
    unfold KafkaSource.offsets
    rw [h₁.committed]

theorem runOn_snoc (done : List (PartitionedPoll n)) (q : PartitionedPoll n)
    {k' : KafkaSource Int OUT} (h : runOn fromStr offset (done ++ [q]) = .ok () k') :
    ∃ k, runOn fromStr offset done = .ok () k ∧ receive id fromStr q.poll k = .ok () k' := by
  have hrun : runOn fromStr offset (done ++ [q]) =
      (run id fromStr (done.map PartitionedPoll.poll) >>= fun _ => receive id fromStr q.poll)
        (new id offset) := by
    unfold runOn run
    rw [List.map_append, List.forM_append]
    refine bind_congr_wp (wp_intro (fun _ s' _ => ?_) fun _ _ _ => trivial)
    rw [List.map_cons, List.map_nil, List.forM_cons, List.forM_nil, bind_pure]
  rw [hrun] at h
  unfold runOn
  cases hdone : run id fromStr (done.map PartitionedPoll.poll) (new id offset) with
  | ok u k =>
    rw [bind_ok hdone] at h
    exact ⟨k, rfl, h⟩
  | error e k =>
    rw [bind_error hdone] at h
    cases h

/-- **Every run**: the offset is behind the last message that was handed on. -/
theorem follows_run {done : List (PartitionedPoll n)} {k : KafkaSource Int OUT}
    (h : runOn fromStr offset done = .ok () k) : Follows fromStr offset done k := by
  induction done using List.reverseRecOn generalizing k with
  | nil =>
    cases h
    exact follows_new
  | append_singleton done q ih =>
    obtain ⟨k₀, hdone, hq⟩ := runOn_snoc done q h
    exact (wp_ok ((ih hdone).receive q) hq).1

/-- What the last poll of a run does to the offsets of the partitions. -/
theorem offsets_snoc {done : List (PartitionedPoll n)} {q : PartitionedPoll n}
    {k k' : KafkaSource Int OUT} (h : runOn fromStr offset done = .ok () k)
    (h' : runOn fromStr offset (done ++ [q]) = .ok () k') :
    k'.offsets n = if Commits q then
      fun _ => some (position offset (outputs fromStr (done ++ [q]))) else k.offsets n := by
  obtain ⟨k₀, hdone, hq⟩ := runOn_snoc done q h'
  obtain rfl : k = k₀ := by
    rw [h] at hdone
    injection hdone
  rw [← (follows_run h').offset]
  exact (wp_ok ((follows_run h).receive q) hq).2

/-- What is committed was the offset at a time when all partitions had come as far. -/
theorem CommitsTogether.committed {qs done : List (PartitionedPoll n)} {k : KafkaSource Int OUT}
    (h : CommitsTogether fromStr offset qs) (hpre : done <+: qs)
    (hrun : runOn fromStr offset done = .ok () k) {p : Fin n} {c : Int}
    (hc : k.offsets n p = some c) :
    ∃ d, d <+: done ∧ c = position offset (outputs fromStr d) ∧
      AllAsFar offset (outputs fromStr d) := by
  induction done using List.reverseRecOn generalizing k with
  | nil =>
    cases hrun
    cases hc
  | append_singleton done q ih =>
    obtain ⟨k₀, hdone, -⟩ := runOn_snoc done q hrun
    rw [offsets_snoc hdone hrun] at hc
    by_cases hq : Commits q
    · rw [if_pos hq] at hc
      refine ⟨done ++ [q], List.prefix_refl _, (Option.some.inj hc).symm, ?_⟩
      exact h done q hpre (by rw [hrun]; rfl) hq
    · rw [if_neg hq] at hc
      obtain ⟨d, hd, heq, hfar⟩ := ih ((List.prefix_append done [q]).trans hpre) hdone hc
      exact ⟨d, hd.trans (List.prefix_append done [q]), heq, hfar⟩

theorem outputs_isPrefix {d done : List (PartitionedPoll n)} (h : d <+: done) :
    outputs fromStr d <+: outputs fromStr done := by
  obtain ⟨rest, rfl⟩ := h
  rw [outputs_append]
  exact List.prefix_append _ _

end runs

/-- **When the commits of a run stay behind its messages.** For every number of partitions and every
run in which the offsets of a partition increase: no committed offset is ahead of its partition and
none goes back, if and only if at every commit each partition has come as far as the message that
was handed on last (or none was handed on yet, and the source starts at 0 or before). -/
theorem commits_behind_iff {n : Nat} {OUT : Type} (fromStr : String → Option OUT) (offset : Int)
    {qs : List (PartitionedPoll n)} (hinc : Increasing qs) :
    CommitsBehind fromStr offset qs ∧ CommitsGrow fromStr offset qs ↔
      CommitsTogether fromStr offset qs := by
  have houts : ∀ done, done <+: qs →
      (outputs fromStr done).Pairwise (fun a b => a.1 = b.1 → a.2 < b.2) ∧
        ∀ m ∈ outputs fromStr done, 0 ≤ m.2 := fun done hpre => (hinc.of_prefix hpre).outputs
  constructor
  · rintro ⟨hbehind, -⟩ done q hpre hok hq
    have hrun := eq_ok_of_isOk hok
    obtain ⟨k, hdone, -⟩ := runOn_snoc done q hrun
    refine (allAsFar_iff (houts _ hpre).2).mpr fun p => hbehind _ _ hpre hrun p _ ?_
    rw [offsets_snoc hdone hrun, if_pos hq]
  · intro h
    refine ⟨fun done k hpre hrun p c hc => ?_, fun done q k k' hpre hrun hrun' p c hc => ?_⟩
    · obtain ⟨d, hd, rfl, hfar⟩ := h.committed hpre hrun hc
      have hle := (allAsFar_iff (houts d (hd.trans hpre)).2).mp hfar p
      have houts_pre : outputs fromStr d <+: outputs fromStr done := outputs_isPrefix hd
      have hmono := highest_mono houts_pre.subset p
      omega
    · have hdone := (List.prefix_append done [q]).trans hpre
      obtain ⟨d, hd, rfl, hfar⟩ := h.committed hdone hrun hc
      rw [offsets_snoc hrun hrun']
      by_cases hq : Commits q
      · rw [if_pos hq]
        refine ⟨_, rfl, position_mono (houts _ hpre).1 (houts _ hpre).2 ?_ hfar⟩
        exact outputs_isPrefix (hd.trans (List.prefix_append done [q]))
      · rw [if_neg hq]
        exact ⟨_, hc, le_rfl⟩

/-- **One partition** is always as far as itself. -/
theorem one_partition {OUT : Type} (fromStr : String → Option OUT) {offset : Int}
    (hoffset : offset ≤ 0) (qs : List (PartitionedPoll 1)) :
    CommitsTogether fromStr offset qs := by
  intro done q _ _ _ p
  cases hlast : (outputs fromStr (done ++ [q])).getLast? with
  | none => exact hoffset
  | some m =>
    refine ⟨m.2, ?_, le_rfl⟩
    rw [Subsingleton.elim p m.1]
    exact List.mem_of_getLast? hlast

/-- A message with the payload 7. -/
def sevenAt (offset : Int) : OwnedMessage := ⟨some (.ok "7"), none, offset⟩

/-- Only 7 is a number here. -/
def parseSeven (payload : String) : Option Nat := if payload = "7" then some 7 else none

/-- A batch with a message of each of two partitions. -/
def pair (o o' : Int) : List (PartitionedPoll 2) :=
  [⟨[.ok (1, sevenAt o), .ok (0, sevenAt o')], true, true⟩]

theorem increasing_pair {o o' : Int} (h : 0 ≤ o) (h' : 0 ≤ o') : Increasing (pair o o') := by
  have hbatch : (pair o o').flatMap batch = [(1, sevenAt o), (0, sevenAt o')] := rfl
  refine ⟨?_, ?_⟩
  · rw [hbatch]
    exact List.pairwise_pair.mpr fun heq => absurd (show (1 : Fin 2) = 0 from heq) (by decide)
  · rw [hbatch]
    simp [sevenAt, h, h']

/-- Two partitions that are equally far. -/
theorem commits_behind_iff_level :
    Increasing (pair 5 5) ∧ CommitsBehind parseSeven 0 (pair 5 5) ∧
      CommitsGrow parseSeven 0 (pair 5 5) := by
  have hinc : Increasing (pair 5 5) := increasing_pair (by decide) (by decide)
  refine ⟨hinc, (commits_behind_iff parseSeven 0 hinc).mpr fun done q hpre _ _ => ?_⟩
  have hall : done ++ [q] = pair 5 5 := by
    refine hpre.eq_of_length_le ?_
    rw [List.length_append]
    exact Nat.le_add_left 1 done.length
  have houts : outputs parseSeven (pair 5 5) = [(1, 5), (0, 5)] := by decide +kernel
  rw [hall, houts]
  exact fun p => ⟨5, by revert p; decide, le_rfl⟩

/-- **A commit ahead of its partition.** Message 3 of partition 1 and then message 41 of partition 0
are handed on, and 42 is committed for both: partition 1 goes on behind messages that it has not
delivered. -/
theorem commits_ahead :
    Increasing (pair 3 41) ∧ isOk (runOn parseSeven 0 (pair 3 41)) = true ∧
      (final (runOn parseSeven 0 (pair 3 41))).offsets 2 1 = some 42 ∧
      highest (outputs parseSeven (pair 3 41)) 1 = 3 ∧
      ¬(CommitsBehind parseSeven 0 (pair 3 41) ∧ CommitsGrow parseSeven 0 (pair 3 41)) := by
  have hok : isOk (runOn parseSeven 0 (pair 3 41)) = true := by decide +kernel
  have hoffset : (final (runOn parseSeven 0 (pair 3 41))).offsets 2 1 = some 42 := by
    decide +kernel
  have hhighest : highest (outputs parseSeven (pair 3 41)) 1 = 3 := by decide +kernel
  refine ⟨increasing_pair (by decide) (by decide), hok, hoffset, hhighest, fun h => ?_⟩
  have hle := h.1 _ _ (List.prefix_refl _) (eq_ok_of_isOk hok) 1 42 hoffset
  rw [hhighest] at hle
  omega

end KafkaSource

end Arcon

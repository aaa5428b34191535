import Arcon.Channel.Contract

/-!
# What the receivers can rely on

The contract of the strategies, for every run of `ChannelStrategy.run`: any calls, any interleaving
with the receivers, and any moment of it.

* `delivered_in_order`: no event is lost, doubled or moved; the ignored results of `push` are
  `None`.
* `message_shape`: a control event is the last one of its message, and is not kept back.
* `one_owner`: a buffer is free, or written by one writer, or read through one message, and what its
  receiver reads (`Reads`) is what was written.
-/

namespace Arcon

open Exec ExchangeM Exchange

variable {A : Type} {told : Prop} {cap : Nat} {x : Exchange (ArconEvent A)}

/-! ## The messages of one buffer -/

theorem sentOn_once {T : Type} {l : List Nat} {i : Nat} (hl : l.Nodup) (hi : i ∈ l)
    (v : List (Option T)) : sentOn (l.map fun c => (c, v)) i = [v] := by
  unfold sentOn
  rw [List.filter_map, List.map_map]
  show (l.filter fun c => c == i).map _ = _
  rw [List.filter_beq, List.count_eq_one_of_mem hl hi]
  rfl

/-- Each channel of the moment gets each batch. -/
theorem sentOn_sendAll {R : Type} (chans : R → List Nat) {r : R} {i : Nat} (hl : (chans r).Nodup)
    (hi : i ∈ chans r) (bs : List (List (ArconEvent A))) :
    sentOn (sendAll id chans r bs) i = bs.map (List.map some) := by
  induction bs with
  | nil => rfl
  | cons b bs ih =>
    rw [sendAll, sentOn_append, sentOn_once hl hi, id, ih]
    rfl

/-- All batches are sent, each once. -/
theorem snd_sendAll_next (bs : List (List (ArconEvent A))) (r : List Channel × NodeID × Nat) :
    (sendAll RoundRobin.next (fun r => [r.2.2]) r bs).map Prod.snd = bs.map (List.map some) := by
  induction bs generalizing r with
  | nil => rfl
  | cons b bs ih =>
    rw [sendAll, List.map_append, ih]
    rfl

/-- The channels take turns. -/
theorem fst_sendAll_next (bs : List (List (ArconEvent A))) {r : List Channel × NodeID × Nat}
    (hr : r.2.2 < r.1.length) :
    (sendAll RoundRobin.next (fun r => [r.2.2]) r bs).map Prod.fst =
      (List.range bs.length).map fun j => (r.2.2 + j) % r.1.length := by
  induction bs generalizing r with
  | nil => rfl
  | cons b bs ih =>
    have hnext : (RoundRobin.next r).2.2 = (r.2.2 + 1) % r.1.length := by
      show (if r.1.length ≤ r.2.2 + 1 then 0 else r.2.2 + 1) = _
      split
      · rw [show r.2.2 + 1 = r.1.length by omega, Nat.mod_self]
      · rw [Nat.mod_eq_of_lt (by omega)]
    have hlt : (RoundRobin.next r).2.2 < (RoundRobin.next r).1.length := by
      rw [hnext]
      exact Nat.mod_lt _ (by omega)
    have htail : (List.range bs.length).map (fun j => ((r.2.2 + 1) % r.1.length + j) % r.1.length) =
        (List.range bs.length).map fun j => (r.2.2 + (j + 1)) % r.1.length := by
      refine List.map_congr_left fun j _ => ?_
      rw [Nat.mod_add_mod, Nat.add_assoc, Nat.add_comm 1 j]
    rw [sendAll, List.map_append, ih hlt, hnext, List.length_cons, List.range_succ_eq_map]
    refine List.cons_eq_cons.mpr ⟨(Nat.mod_eq_of_lt hr).symm, ?_⟩
    rw [List.map_map (l := List.range bs.length)]
    exact htail

/-! ## Reading the description -/

/-- The events that some calls add. -/
def added (cs : List (StrategyCall A)) : List (ArconEvent A) := cs.filterMap StrategyCall.item

theorem reduceOption_feed (p : ArconEvent A → Bool) (cs : List (StrategyCall A)) :
    (feed p cs).reduceOption = (added cs).filter p := by
  induction cs using List.reverseRecOn with
  | nil => rfl
  | append_singleton cs c ih =>
    unfold added at ih ⊢
    rw [List.filterMap_append, List.filter_append, ← ih]
    cases c with
    | flush =>
      rw [feed_flush, List.reduceOption_append]
      rfl
    | add ev =>
      rw [feed_add]
      cases h : p ev with
      | true =>
        rw [if_pos rfl, List.reduceOption_append]
        simp [StrategyCall.item, h, List.reduceOption]
      | false => simp [StrategyCall.item, h]

/-- What waits in a writer. -/
def Exchange.contents {T : Type} (x : Exchange T) (w : BufferWriter) : List (Option T) :=
  x.pool.read w.buffer w.len

namespace ChannelStrategy

variable {senderId : NodeID} {info : PoolInfo} {conf : StrategyConf A}
  {cs : List (StrategyCall A)} {schedule : List Turn} {s : ChannelStrategy A} {i : Nat}

/-- The writers of a strategy. -/
def writers : ChannelStrategy A → List BufferWriter
  | .forward f => [f.currBuffer]
  | .broadcast b => [b.currBuffer]
  | .keyBy k => k.bufferMap.map Prod.snd
  | .roundRobin r => [r.currBuffer]
  | .mute => []

/-- The writer whose events go to channel `i` next. -/
def writer? (i : Nat) : ChannelStrategy A → Option BufferWriter
  | .forward f => some f.currBuffer
  | .broadcast b => some b.currBuffer
  | .keyBy k => k.bufferMap[i]?.map Prod.snd
  | .roundRobin r => if r.currIndex = i then some r.currBuffer else none
  | .mute => none

/-- What waits for channel `i`. -/
def waiting (s : ChannelStrategy A) (x : Exchange (ArconEvent A)) (i : Nat) :
    List (Option (ArconEvent A)) :=
  match s.writer? i with
  | none => []
  | some w => x.contents w

/-- The events of channel `i`, where the event alone decides. -/
def routes (i : Nat) : ChannelStrategy A → ArconEvent A → Bool
  | .keyBy k => k.routes i
  | _ => fun _ => true

theorem routes_of_same {k k₀ : KeyBy A} {bm : List (Channel × BufferWriter)}
    (h : k = { k₀ with bufferMap := bm }) (i : Nat) : k.routes i = k₀.routes i := by
  rw [h]
  rfl

theorem feed_all (cs : List (StrategyCall A)) :
    feed (fun _ => true) cs = cs.map StrategyCall.item := by
  unfold feed
  rw [List.filter_eq_self]
  intro i _
  cases i <;> rfl

/-- **One channel** of a strategy other than `RoundRobin`: its batches, and what waits for it. -/
theorem HasSent.channel (h : HasSent told cap senderId conf cs s x)
    (hs : ∀ r, s ≠ .roundRobin r) (hi : i < s.numChannels) :
    sentOn x.messages i = (Batching.run cap ArconEvent.isControl (feed (s.routes i) cs)).1.map
        (List.map some) ∧
      s.waiting x i =
        (Batching.run cap ArconEvent.isControl (feed (s.routes i) cs)).2.map some := by
  cases conf <;> cases s <;> try exact h.elim
  case forward.forward channel f =>
    obtain ⟨r', w, rfl, -, -, hat⟩ := h
    obtain rfl : i = 0 := Nat.lt_one_iff.mp hi
    show _ = (Batching.run cap _ (feed (fun _ => true) cs)).1.map _ ∧ _ =
      (Batching.run cap _ (feed (fun _ => true) cs)).2.map _
    rw [feed_all, hat.messages]
    exact ⟨sentOn_sendAll (fun _ => [0]) (List.nodup_singleton 0) List.mem_cons_self _,
      hat.owns.holds _ List.mem_cons_self⟩
  case broadcast.broadcast channels b =>
    obtain ⟨r', w, rfl, -, hr', hat⟩ := h
    rw [Function.iterate_id] at hr'
    subst hr'
    show _ = (Batching.run cap _ (feed (fun _ => true) cs)).1.map _ ∧ _ =
      (Batching.run cap _ (feed (fun _ => true) cs)).2.map _
    rw [feed_all, hat.messages]
    exact ⟨sentOn_sendAll (fun (r : List Channel × NodeID) => List.range r.1.length)
      List.nodup_range (List.mem_range.mpr hi) _, hat.owns.holds _ List.mem_cons_self⟩
  case keyBy.keyBy maxKey channels order dataKey k =>
    obtain ⟨bufferMap, -, h⟩ := h
    obtain ⟨m, hat, -, hsent⟩ := h.at_
    change i < k.bufferMap.length at hi
    show _ = (Batching.run cap _ (feed (k.routes i) cs)).1.map _ ∧ _ =
      (Batching.run cap _ (feed (k.routes i) cs)).2.map _
    rw [routes_of_same h.same, hat.messages]
    refine ⟨hsent i hi, ?_⟩
    unfold waiting writer?
    dsimp only
    rw [List.getElem?_eq_getElem hi]
    refine hat.owns.holds (k.bufferMap[i].2, _) (List.mem_iff_getElem.mpr ⟨i, ?_, ?_⟩)
    · unfold KeyBy.writers
      rwa [List.length_mapIdx]
    · simp [KeyBy.writers]
  case roundRobin.roundRobin channels r => exact absurd rfl (hs r)

theorem next_iterate (n : Nat) (r : List Channel × NodeID × Nat) :
    (RoundRobin.next^[n] r).1 = r.1 := by
  induction n with
  | zero => rfl
  | succ n ih =>
    rw [Function.iterate_succ_apply']
    exact ih

/-- **Round robin**: the batches of all items, one channel after the other. -/
theorem HasSent.roundRobin {r : RoundRobin}
    (h : HasSent told cap senderId conf cs (.roundRobin r) x) :
    x.messages.map Prod.snd = (Batching.run cap ArconEvent.isControl
        (cs.map StrategyCall.item)).1.map (List.map some) ∧
      x.messages.map Prod.fst = (List.range x.messages.length).map (· % r.channels.length) ∧
      x.contents r.currBuffer = (Batching.run cap ArconEvent.isControl
        (cs.map StrategyCall.item)).2.map some := by
  cases conf <;> try exact h.elim
  case roundRobin channels =>
    obtain ⟨r', w, rfl, hlt, hr', hat⟩ := h
    have hchannels : r'.1 = channels := by
      rw [hr', next_iterate]
    have hpos : 0 < channels.length := by
      rw [← hchannels]
      exact Nat.zero_lt_of_lt hlt
    have hsnd := snd_sendAll_next (Batching.run cap ArconEvent.isControl
      (cs.map StrategyCall.item)).1 (channels, senderId, 0)
    have hlen := congrArg List.length hsnd
    rw [List.length_map, List.length_map] at hlen
    have hfst := fst_sendAll_next (Batching.run cap ArconEvent.isControl
      (cs.map StrategyCall.item)).1 (r := (channels, senderId, 0)) hpos
    simp only [Nat.zero_add] at hfst
    rw [hat.messages, hlen]
    refine ⟨hsnd, ?_, hat.owns.holds _ List.mem_cons_self⟩
    show _ = List.map (· % r'.1.length) _
    rw [hchannels]
    exact hfst

/-- The state of the exchange, with the writers of the strategy. -/
theorem HasSent.at_ (h : HasSent told cap senderId conf cs s x) :
    ∃ ws m, At told cap x ws m ∧ (∀ a ∈ m, Proper a.2) ∧ ws.map Prod.fst = s.writers := by
  cases conf <;> cases s <;> try exact h.elim
  case keyBy.keyBy maxKey channels order dataKey k =>
    obtain ⟨bufferMap, -, h⟩ := h
    obtain ⟨m, hat, hm, -⟩ := h.at_
    refine ⟨_, m, hat, hm, List.ext_getElem (by simp [KeyBy.writers, writers]) fun i _ _ => ?_⟩
    simp [KeyBy.writers, writers]
  all_goals
    obtain ⟨r', w, rfl, -, -, hat⟩ := h
    exact ⟨_, _, hat, proper_run _ _ _ _ _, rfl⟩

theorem HasSent.safe (h : HasSent told cap senderId conf cs s x) : Safe Proper x := by
  obtain ⟨ws, m, hat, hm, -⟩ := h.at_
  exact hat.safe hm

/-- Where a run of a strategy ends, what it has done is in order. -/
theorem run_sound (senderId : NodeID) (info : PoolInfo) (cs : List (StrategyCall A))
    (schedule : List Turn) (hconf : conf.Iterates) :
    Sound (final (run senderId info conf cs schedule)) := by
  refine wp_final.mp (wp_mono (wp_run False senderId info hconf
    (fun h => h.elim) cs) (fun _ _ h => .inl h.2.safe) (fun _ _ h => h))

theorem run_hasSent (told : Prop) (hconf : conf.Iterates)
    (ht : told → ∀ tell, .sender tell ∈ schedule → tell = .ok ())
    (h : run senderId info conf cs schedule = .ok s x) :
    HasSent told info.bufferSize senderId conf cs s x :=
  (wp_ok (Q := fun s y => 0 < info.bufferSize ∧ HasSent told info.bufferSize senderId conf cs s y)
    (wp_run told senderId info hconf ht cs) h).2

/-- A pool of four buffers for two events each. -/
def smallPool : PoolInfo := ⟨2, 4⟩

/-- The schedule of a sender whose sends succeed and whose receivers do nothing. -/
def undisturbed (turns : Nat) : List Turn := List.replicate turns (.sender (.ok ()))

/-- Two channels by parity, iterated from the last to the first. -/
def byParity : StrategyConf Nat := .keyBy 2 [.onLocal, .remote] [1, 0] id

theorem byParity_iterates : byParity.Iterates := by
  show [1, 0].Perm (List.range 2)
  decide

/-! ## No event is lost, doubled or moved -/

/-- What has been sent and what waits are the events that were added, in order. -/
def InOrder (cs : List (StrategyCall A)) :
    ChannelStrategy A → Exchange (ArconEvent A) → Prop
  | .roundRobin r, x =>
    (x.messages.map Prod.snd).flatten ++ x.contents r.currBuffer = (added cs).map some ∧
      x.messages.map Prod.fst = (List.range x.messages.length).map (· % r.channels.length)
  | s, x => ∀ i < s.numChannels, (sentOn x.messages i).flatten ++ s.waiting x i =
      ((added cs).filter (s.routes i)).map some

theorem flatten_run (is : List (Option (ArconEvent A))) :
    ((Batching.run cap ArconEvent.isControl is).1.map (List.map some)).flatten ++
      (Batching.run cap ArconEvent.isControl is).2.map some = is.reduceOption.map some := by
  rw [← Batching.run_flatten cap ArconEvent.isControl, List.map_append,
    List.map_flatten]

theorem HasSent.flatten (h : HasSent told cap senderId conf cs s x)
    (hs : ∀ r, s ≠ .roundRobin r) (hi : i < s.numChannels) :
    (sentOn x.messages i).flatten ++ s.waiting x i =
      ((added cs).filter (s.routes i)).map some := by
  obtain ⟨hsent, hwait⟩ := h.channel hs hi
  rw [hsent, hwait, flatten_run, reduceOption_feed]

theorem HasSent.flatten_roundRobin {r : RoundRobin}
    (h : HasSent told cap senderId conf cs (.roundRobin r) x) :
    (x.messages.map Prod.snd).flatten ++ x.contents r.currBuffer = (added cs).map some := by
  obtain ⟨hsnd, -, hwait⟩ := h.roundRobin
  rw [hsnd, hwait, flatten_run, ← feed_all, reduceOption_feed, List.filter_eq_self.mpr]
  exact fun _ _ => rfl

/-- **No event is lost, doubled or moved**, and the ignored results are `None`. -/
theorem delivered_in_order (hconf : conf.Iterates) :
    (∀ s x, run senderId info conf cs schedule = .ok s x → InOrder cs s x) ∧
      ∀ r ∈ (final (run senderId info conf cs schedule)).ignored, r = none := by
  refine ⟨fun s x h => ?_, ?_⟩
  · have hsent := run_hasSent False hconf (fun h => h.elim) h
    cases s with
    | roundRobin r => exact ⟨hsent.flatten_roundRobin, hsent.roundRobin.2.1⟩
    | _ => exact fun i hi => hsent.flatten (fun r => nofun) hi
  · rcases run_sound senderId info cs schedule hconf with h | h
    · exact h.ignored
    · rw [h.ignored]
      exact fun r hr => absurd hr List.not_mem_nil

/-- Three elements by parity. -/
theorem delivered_in_order_byParity : ∃ s x,
    run 7 smallPool byParity [.add (.element ⟨1, none⟩), .add (.element ⟨4, none⟩),
      .add (.element ⟨3, none⟩), .add (.element ⟨5, none⟩)] (undisturbed 20) = .ok s x ∧
    InOrder [.add (.element ⟨1, none⟩), .add (.element ⟨4, none⟩), .add (.element ⟨3, none⟩),
      .add (.element ⟨5, none⟩)] s x := by
  obtain ⟨s, x, hrun⟩ := exists_of_isOk (r := run 7 smallPool byParity
    [.add (.element ⟨1, none⟩), .add (.element ⟨4, none⟩), .add (.element ⟨3, none⟩),
      .add (.element ⟨5, none⟩)] (undisturbed 20)) (by decide +kernel)
  exact ⟨s, x, hrun, (delivered_in_order byParity_iterates).1 s x hrun⟩

/-! ## The shape of a message -/

/-- What is in a writer are items that came after the last batch. -/
theorem HasSent.len_writer (h : HasSent told cap senderId conf cs s x) {w : BufferWriter}
    (hw : w ∈ s.writers) : ∃ p : ArconEvent A → Bool, (∀ ev, ev.isControl = true → p ev = true) ∧
      w.len = (Batching.run cap ArconEvent.isControl (feed p cs)).2.length := by
  cases conf <;> cases s <;> try exact h.elim
  case keyBy.keyBy maxKey channels order dataKey k =>
    obtain ⟨bufferMap, -, h⟩ := h
    obtain ⟨m, hat, -, -⟩ := h.at_
    obtain ⟨e, he, rfl⟩ := List.mem_map.mp hw
    obtain ⟨i, hi, rfl⟩ := List.mem_iff_getElem.mp he
    refine ⟨KeyBy.routes ⟨maxKey, channels.length, senderId, bufferMap, order, dataKey⟩ i,
      fun ev hev => ?_, hat.owns.len (k.bufferMap[i].2, _) (List.mem_iff_getElem.mpr ⟨i, ?_, ?_⟩)⟩
    · cases ev <;> first | rfl | cases hev
    · unfold KeyBy.writers
      rwa [List.length_mapIdx]
    · simp [KeyBy.writers]
  all_goals
    obtain ⟨r', w', rfl, -, -, hat⟩ := h
    obtain rfl := List.mem_singleton.mp hw
    refine ⟨fun _ => true, fun _ _ => rfl, ?_⟩
    rw [feed_all]
    exact hat.owns.len _ List.mem_cons_self

/-- **The shape of a message**: no control event but the last, and none is kept back. -/
theorem message_shape (hconf : conf.Iterates) :
    (∀ a ∈ (final (run senderId info conf cs schedule)).messages, Proper a.2) ∧
      ∀ cs' ev s x, cs = cs' ++ [.add ev] → ev.isControl = true →
        run senderId info conf cs schedule = .ok s x → ∀ w ∈ s.writers, w.len = 0 := by
  refine ⟨?_, fun cs' ev s x hcs hev h w hw => ?_⟩
  · rcases run_sound senderId info cs schedule hconf with h | h
    · exact h.shape
    · unfold messages
      rw [h.readings]
      exact fun a ha => absurd ha List.not_mem_nil
  · have hsent := run_hasSent False hconf (fun h => h.elim) h
    obtain ⟨p, hp, hlen⟩ := hsent.len_writer hw
    rw [hlen, hcs, feed_add, if_pos (hp ev hev), (Batching.run_urgent hev _).1]
    rfl

/-- An element and an epoch by parity. -/
theorem message_shape_byParity : ∃ s x,
    run 7 smallPool byParity [.add (.element ⟨1, none⟩), .add (.epoch 1)] (undisturbed 20) =
      .ok s x ∧ ∀ w ∈ s.writers, w.len = 0 := by
  obtain ⟨s, x, hrun⟩ := exists_of_isOk (r := run 7 smallPool byParity
    [.add (.element ⟨1, none⟩), .add (.epoch 1)] (undisturbed 20)) (by decide +kernel)
  exact ⟨s, x, hrun, (message_shape byParity_iterates).2 [.add (.element ⟨1, none⟩)] (.epoch 1) s x
    rfl rfl hrun⟩

/-! ## One owner -/

end ChannelStrategy

/-- A buffer is free, or held by one writer, or held by one live reader. -/
def Exchange.OneOwner {T : Type} (x : Exchange T) (i : Nat) (b : EventBuffer T) : Prop :=
  (b.free = true ∧ i ∉ x.writing ∧ i ∉ x.reading) ∨
    (b.free = false ∧ x.writing.count i = 1 ∧ i ∉ x.reading) ∨
    (b.free = false ∧ i ∉ x.writing ∧ x.reading.count i = 1)

theorem Exchange.Exclusive.oneOwner {T : Type} {x : Exchange T} (h : x.Exclusive) {i : Nat}
    {b : EventBuffer T} (hb : x.pool.buffers[i]? = some b) : x.OneOwner i b := by
  have hfree := h.free i b hb
  obtain ⟨hw, hr, hdisj⟩ := List.nodup_append'.mp h.nodup
  by_cases hiw : i ∈ x.writing
  · have hnot : b.free = false := by
      by_contra hf
      exact hfree.mp (by simpa using hf) (List.mem_append_left _ hiw)
    exact .inr (.inl ⟨hnot, List.count_eq_one_of_mem hw hiw, fun hir => hdisj hiw hir⟩)
  · by_cases hir : i ∈ x.reading
    · have hnot : b.free = false := by
        by_contra hf
        exact hfree.mp (by simpa using hf) (List.mem_append_right _ hir)
      exact .inr (.inr ⟨hnot, hiw, List.count_eq_one_of_mem hr hir⟩)
    · refine .inl ⟨hfree.mpr fun hi => ?_, hiw, hir⟩
      exact (List.mem_append.mp hi).elim hiw hir

/-- `try_get` only takes a free buffer. -/
theorem Exchange.Exclusive.tryGet_fresh {T : Type} {x : Exchange T} (h : x.Exclusive)
    {w : BufferWriter} {pool : BufferPool T} (hget : x.pool.tryGet = some (some w, pool)) :
    w.buffer ∉ x.writing ∧ w.buffer ∉ x.reading := by
  have hb := List.getElem?_eq_getElem h.curr
  rw [BufferPool.tryGet_eq hb] at hget
  obtain ⟨hw, -⟩ := Prod.mk.injEq .. ▸ Option.some.inj hget
  split at hw
  · rename_i hfree
    obtain rfl := Option.some.inj hw
    have hnot := (h.free _ _ hb).mp hfree
    exact ⟨fun hi => hnot (List.mem_append_left _ hi), fun hi => hnot (List.mem_append_right _ hi)⟩
  · cases hw

/-- **A receiver reads what was written**: so far a first part of it; with the next `next` the next
event of it, while there is one; with `as_slice` or `into_vec` all of it. An iterator that has come
to its end has yielded all of it. -/
structure Exchange.Reads {T : Type} (x : Exchange T) (i : Nat) (r : Reading T) : Prop where
  seen : r.seen <+: r.written
  kept : r.live = true → x.pool.read r.reader.buffer r.reader.len = r.written
  next : r.live = true → r.channel.isSome = true → ∀ v, r.written[r.seen.length]? = some v →
    (x.receive (.next i)).readings[i]? = some { r with seen := r.seen ++ [v] }
  slice : r.live = true → r.channel.isSome = true →
    (x.receive (.slice i)).readings[i]? = some { r with seen := r.written }
  exhausted : r.seen.length = r.reader.len → r.seen = r.written

/-- A change of message `i`. -/
theorem Exchange.getElem?_modifyReading {T : Type} {x : Exchange T} {i : Nat} {r : Reading T}
    (hr : x.readings[i]? = some r) (f : Reading T → Reading T) :
    (x.modifyReading i f).readings[i]? = some (f r) := by
  show (x.readings.modify i f)[i]? = _
  rw [List.getElem?_modify, hr]
  simp

theorem Exchange.Exclusive.reads {T : Type} {x : Exchange T} (h : x.Exclusive) {i : Nat}
    {r : Reading T} (hr : x.readings[i]? = some r) : x.Reads i r := by
  have hmem := List.mem_of_getElem? hr
  have hsent : r.channel.isSome = true → (x.readings[i]?.bind Reading.channel).isSome := by
    rw [hr]
    exact id
  refine ⟨h.seen r hmem, h.kept r hmem, fun hlive hc v hv => ?_, fun hlive hc => ?_, fun hend => ?_⟩
  · -- the slot at the place of the iterator is the one that the sender wrote there
    obtain ⟨hlt, -⟩ := List.getElem?_eq_some_iff.mp hv
    rw [h.len r hmem] at hlt
    rw [receive, if_pos (hsent hc), readNext, getElem?_modifyReading hr, if_pos ⟨hlive, hlt⟩,
      h.kept r hmem hlive, List.take_one, List.head?_drop, hv]
    rfl
  · rw [receive, if_pos (hsent hc), readAll, getElem?_modifyReading hr, if_pos hlive,
      h.kept r hmem hlive]
  · exact (h.seen r hmem).eq_of_length (hend.trans (h.len r hmem).symm)

namespace ChannelStrategy

variable {senderId : NodeID} {info : PoolInfo} {conf : StrategyConf A}
  {cs : List (StrategyCall A)} {schedule : List Turn} {s : ChannelStrategy A} {i : Nat}

/-- **One owner** for every buffer, at every moment of every interleaving, and every receiver reads
what was written. Events are plain values here: what an event owns on the heap is not modelled. -/
theorem one_owner (hconf : conf.Iterates)
    (hx : final (run senderId info conf cs schedule) = x) :
    (∀ i b, x.pool.buffers[i]? = some b → x.OneOwner i b) ∧
      (∀ w pool, x.pool.tryGet = some (some w, pool) →
        w.buffer ∉ x.writing ∧ w.buffer ∉ x.reading) ∧
      (x.pool.buffers ≠ [] → x.pool.currBuffer < x.pool.buffers.length) ∧
      (∀ i r, x.readings[i]? = some r → x.Reads i r) ∧
      ∀ s, run senderId info conf cs schedule = .ok s x →
        x.writing.Perm (s.writers.map BufferWriter.buffer) := by
  have hsound := run_sound senderId info cs schedule hconf
  rw [hx] at hsound
  have hwriting : ∀ s, run senderId info conf cs schedule = .ok s x →
      x.writing.Perm (s.writers.map BufferWriter.buffer) := by
    intro s hs
    obtain ⟨ws, m, hat, -, hws⟩ := (run_hasSent False hconf (fun h => h.elim) hs).at_
    rw [← hws, List.map_map]
    exact hat.owns.writing
  rcases hsound with h | h
  · exact ⟨fun i b hb => h.exclusive.oneOwner hb, fun w pool hget => h.exclusive.tryGet_fresh hget,
      fun _ => h.exclusive.curr, fun i r hr => h.exclusive.reads hr, hwriting⟩
  · refine ⟨fun i b hb => ?_, fun w pool hget => ?_, fun hne => absurd h.buffers hne,
      fun i r hr => ?_, hwriting⟩
    · rw [h.buffers] at hb
      cases hb
    · rw [h.writing]
      unfold reading
      rw [h.readings]
      exact ⟨List.not_mem_nil, List.not_mem_nil⟩
    · rw [h.readings] at hr
      cases hr

/-- An element and an epoch by parity: the messages still hold their buffers. -/
theorem one_owner_byParity : ∃ s x,
    run 7 smallPool byParity [.add (.element ⟨1, none⟩), .add (.epoch 1)] (undisturbed 20) =
      .ok s x ∧ ∀ i b, x.pool.buffers[i]? = some b → x.OneOwner i b := by
  obtain ⟨s, x, hrun⟩ := exists_of_isOk (r := run 7 smallPool byParity
    [.add (.element ⟨1, none⟩), .add (.epoch 1)] (undisturbed 20)) (by decide +kernel)
  exact ⟨s, x, hrun, (one_owner byParity_iterates (congrArg final hrun)).1⟩

end ChannelStrategy

end Arcon

import Arcon.Channel.Delivery

/-!
# What `KeyBy` sends

`KeyBy` has a buffer for each channel. What it has sent on a channel, and what waits in the buffer
of that channel, are the batches of the items for that channel alone (`KeyBy.Holds`).

* `KeyBy.wp_order`: a loop over the buffer map does to every channel what its body does to one.
* `KeyBy.wp_call`: after any calls, each channel has the batches of the items routed to it.
-/

namespace Arcon

open Exec ExchangeM Exchange

/-- The messages on one channel. -/
def sentOn {T : Type} (m : List (Nat × List (Option T))) (i : Nat) : List (List (Option T)) :=
  (m.filter fun a => a.1 = i).map Prod.snd

section SentOn

variable {T : Type} {m m' : List (Nat × List (Option T))} {i : Nat}

theorem sentOn_append : sentOn (m ++ m') i = sentOn m i ++ sentOn m' i := by
  unfold sentOn
  rw [List.filter_append, List.map_append]

/-- Messages that all went to channel `j`. -/
theorem sentOn_map {α : Type} (f : α → List (Option T)) (bs : List α) (j i : Nat) :
    sentOn (bs.map fun b => (j, f b)) i = if j = i then bs.map f else [] := by
  unfold sentOn
  rw [List.filter_map, List.map_map]
  split
  · rename_i h
    rw [List.filter_eq_self.mpr fun b _ => by simpa using h]
    rfl
  · rename_i h
    rw [List.filter_eq_nil_iff.mpr fun b _ => by simpa using h]
    rfl

end SentOn

/-- The items of some calls for a channel that gets the events in `p`. -/
def feed {A : Type} (p : ArconEvent A → Bool) (cs : List (StrategyCall A)) :
    List (Option (ArconEvent A)) :=
  (cs.map StrategyCall.item).filter fun i => i.all p

section Feed

variable {A : Type} (p : ArconEvent A → Bool) (cs : List (StrategyCall A))

theorem feed_add (ev : ArconEvent A) :
    feed p (cs ++ [.add ev]) = if p ev then feed p cs ++ [some ev] else feed p cs := by
  unfold feed
  rw [List.map_append, List.filter_append]
  cases h : p ev <;> simp [StrategyCall.item, h]

theorem feed_flush : feed p (cs ++ [.flush]) = feed p cs ++ [none] := by
  unfold feed
  rw [List.map_append, List.filter_append]
  rfl

end Feed

namespace KeyBy

variable {A : Type} {x : Exchange (ArconEvent A)} {told : Prop} {cap : Nat} {k₀ k : KeyBy A}
  {st st' : Nat → List (List (ArconEvent A)) × List (ArconEvent A)} {index : Nat}

/-- The writers, with what they hold. -/
def writers (k : KeyBy A) (held : Nat → List (ArconEvent A)) :
    List (BufferWriter × List (ArconEvent A)) :=
  k.bufferMap.mapIdx fun i e => (e.2, held i)

/-- A strategy made as `k₀`, with the batches sent on each channel and what waits for it. -/
structure Holds (told : Prop) (cap : Nat) (k₀ : KeyBy A)
    (st : Nat → List (List (ArconEvent A)) × List (ArconEvent A)) (k : KeyBy A)
    (x : Exchange (ArconEvent A)) : Prop where
  same : k = { k₀ with bufferMap := k.bufferMap }
  length : k.bufferMap.length = k₀.bufferMap.length
  at_ : ∃ m, At told cap x (k.writers fun i => (st i).2) m ∧ (∀ a ∈ m, Proper a.2) ∧
    ∀ i < k.bufferMap.length, sentOn m i = (st i).1.map (List.map some)

theorem Holds.congr (h : Holds told cap k₀ st k x)
    (heq : ∀ i < k.bufferMap.length, st' i = st i) : Holds told cap k₀ st' k x := by
  obtain ⟨m, hat, hm, hsent⟩ := h.at_
  have hw : (k.writers fun i => (st' i).2) = k.writers fun i => (st i).2 := by
    unfold writers
    refine List.ext_getElem (by simp) fun i hi _ => ?_
    rw [List.length_mapIdx] at hi
    simp [heq i hi]
  refine ⟨h.same, h.length, m, hw ▸ hat, hm, fun i hi => ?_⟩
  rw [heq i hi]
  exact hsent i hi

theorem writers_set (channel : Channel) (w : BufferWriter)
    (s : List (List (ArconEvent A)) × List (ArconEvent A)) :
    ({ k with bufferMap := k.bufferMap.set index (channel, w) } : KeyBy A).writers
        (fun i => (Function.update st index s i).2) =
      (k.writers fun i => (st i).2).set index (w, s.2) := by
  unfold writers
  refine List.ext_getElem (by simp) fun i hi _ => ?_
  by_cases hij : index = i
  · subst hij
    simp
  · simp [hij, Function.update_of_ne (Ne.symm hij)]

/-- **One channel at a time**: its writer can be taken out, and put back with what was sent. -/
theorem Holds.take (h : Holds told cap k₀ st k x) {channel : Channel} {w : BufferWriter}
    (hw : k.bufferMap[index]? = some (channel, w)) :
    ∃ ws m, At told cap x ((w, (st index).2) :: ws) m ∧ (∀ a ∈ m, Proper a.2) ∧
      ∀ y w' bs l', At told cap y ((w', l') :: ws)
          (m ++ bs.map fun l : List (ArconEvent A) => (index, l.map some)) →
        (∀ b ∈ bs, Proper (b.map some)) →
        Holds told cap k₀ (Function.update st index ((st index).1 ++ bs, l'))
          { k with bufferMap := k.bufferMap.set index (channel, w') } y := by
  obtain ⟨m, hat, hm, hsent⟩ := h.at_
  have hi : index < k.bufferMap.length := (List.getElem?_eq_some_iff.mp hw).1
  have hlen : index < (k.writers fun i => (st i).2).length := by
    unfold writers
    rwa [List.length_mapIdx]
  have hget : (k.writers fun i => (st i).2)[index] = (w, (st index).2) := by
    have := (List.getElem?_eq_some_iff.mp hw).2
    simp [writers, this]
  have hfront := List.getElem_cons_eraseIdx_perm hlen
  rw [hget] at hfront
  refine ⟨_, m, hat.perm hfront.symm, hm, fun y w' bs l' hy hbs => ?_⟩
  refine ⟨?_, (List.length_set ..).trans h.length,
    m ++ bs.map fun l => (index, l.map some), ?_, ?_, ?_⟩
  · conv_lhs => rw [h.same]
  · rw [writers_set]
    exact hy.perm (List.set_perm_cons_eraseIdx hlen _).symm
  · refine shape_append hm fun a ha => ?_
    obtain ⟨b, hb, rfl⟩ := List.mem_map.mp ha
    exact hbs b hb
  · intro i hi'
    rw [List.length_set] at hi'
    rw [sentOn_append, hsent i hi', sentOn_map]
    by_cases hij : index = i
    · subst hij
      rw [if_pos rfl, Function.update_self, List.map_append]
    · rw [if_neg hij, Function.update_of_ne (Ne.symm hij), List.append_nil]

theorem Holds.getElem? (h : Holds told cap k₀ st k x) (hi : index < k₀.bufferMap.length) :
    ∃ channel w, k.bufferMap[index]? = some (channel, w) := by
  rw [← h.length] at hi
  exact ⟨_, _, List.getElem?_eq_getElem hi⟩

/-- `flush_buffer`: the events of the writer are one more message, and an empty one follows it. -/
theorem wp_flushBuffer {w : BufferWriter} {l : List (ArconEvent A)}
    {ws : List (BufferWriter × List (ArconEvent A))}
    {m : List (Nat × List (Option (ArconEvent A)))} (h : At told cap x ((w, l) :: ws) m)
    (hm : ∀ a ∈ m, Proper a.2) (hl : Proper (l.map some)) (senderId : NodeID) (index : Nat)
    (channel : Channel) :
    wp (flushBuffer senderId index channel w)
      (fun w' y => At told cap y ((w', []) :: ws) (m ++ [(index, l.map some)]))
      (Halts told Proper) x := by
  unfold flushBuffer
  rw [wp_bind]
  refine wp_mono (wp_sendReader h hm hl senderId index channel) (fun _ y hy => ?_)
    (fun _ _ h' => h')
  exact wp_getBuffer hy (shape_append hm (by simpa using hl))

/-- **An event for one channel.** -/
theorem wp_pushInto (h : Holds told cap k₀ st k x) (hcap : 0 < cap)
    (hi : index < k₀.bufferMap.length) (hcalm : Batching.Calm ArconEvent.isControl (st index).2)
    (ev : ArconEvent A) :
    wp (k.pushInto ev index) (fun k' y => Holds told cap k₀
      (Function.update st index ((st index).1 ++ (Batching.put cap (st index).2 ev).1,
        (Batching.put cap (st index).2 ev).2)) k' y) (Halts told Proper) x := by
  obtain ⟨channel, w, hw⟩ := h.getElem? hi
  obtain ⟨ws, m, hat, hm, hback⟩ := h.take hw
  unfold pushInto Batching.put
  rw [hw]
  dsimp only
  rw [wp_bind]
  refine wp_push hat hm ev (fun hroom w' y hy => ?_) (fun hfull y hy => ?_)
  · rw [if_pos hroom]
    refine hback y w' [] _ ?_ (fun b hb => absurd hb List.not_mem_nil)
    rwa [List.map_nil, List.append_nil]
  · have hl : Proper ((st index).2.map some) := ⟨_, rfl, .inl hcalm⟩
    rw [if_neg (not_lt.mpr hfull)]
    dsimp only
    rw [wp_bind]
    refine wp_mono (wp_flushBuffer hy hm hl k.senderId index channel) (fun w' z hz => ?_)
      (fun _ _ h' => h')
    rw [wp_bind]
    refine wp_mono (wp_pushIgnored hz (shape_append hm (by simpa using hl)) ev hcap)
      (fun w'' z' hz' => ?_) (fun _ _ h' => h')
    exact hback z' w'' [(st index).2] [ev] hz' (by simpa using hl)

/-- **A flush of one channel.** -/
theorem wp_flushInto (h : Holds told cap k₀ st k x) (hi : index < k₀.bufferMap.length)
    (hshaped : Batching.Shaped ArconEvent.isControl (st index).2) :
    wp (k.flushInto index) (fun k' y => Holds told cap k₀
      (Function.update st index ((st index).1 ++ [(st index).2], [])) k' y)
      (Halts told Proper) x := by
  obtain ⟨channel, w, hw⟩ := h.getElem? hi
  obtain ⟨ws, m, hat, hm, hback⟩ := h.take hw
  have hl : Proper ((st index).2.map some) := ⟨_, rfl, hshaped⟩
  unfold flushInto
  rw [hw]
  dsimp only
  rw [wp_bind]
  refine wp_mono (wp_flushBuffer hat hm hl k.senderId index channel) (fun w' y hy => ?_)
    (fun _ _ h' => h')
  exact hback y w' [(st index).2] [] hy (by simpa using hl)

/-- **A loop over the buffer map** does to every channel what its body does to one. -/
theorem wp_order {f : KeyBy A → Nat → ExchangeM (ArconEvent A) (KeyBy A)}
    {g : List (List (ArconEvent A)) × List (ArconEvent A) →
      List (List (ArconEvent A)) × List (ArconEvent A)}
    {Pre : List (ArconEvent A) → Prop}
    (step : ∀ {st k index x}, Holds told cap k₀ st k x → index < k₀.bufferMap.length →
      Pre (st index).2 → wp (f k index)
        (fun k' y => Holds told cap k₀ (Function.update st index (g (st index))) k' y)
        (Halts told Proper) x)
    (horder : k₀.order.Perm (List.range k₀.bufferMap.length)) (h : Holds told cap k₀ st k x)
    (hpre : ∀ i < k₀.bufferMap.length, Pre (st i).2) :
    wp (k.order.foldlM f k) (fun k' y => Holds told cap k₀ (fun i => g (st i)) k' y)
      (Halts told Proper) x := by
  have hord : k.order = k₀.order := by
    rw [h.same]
  have hlt : ∀ i ∈ k₀.order, i < k₀.bufferMap.length := fun i hi =>
    List.mem_range.mp (horder.mem_iff.mp hi)
  have hnodup : k₀.order.Nodup := horder.nodup_iff.mpr List.nodup_range
  rw [hord]
  -- the channels in `done` have had their turn
  suffices hloop : ∀ rest done k x, k₀.order = done ++ rest →
      Holds told cap k₀ (fun i => if i ∈ done then g (st i) else st i) k x →
      wp (rest.foldlM f k) (fun k' y => Holds told cap k₀ (fun i => g (st i)) k' y)
        (Halts told Proper) x from
    hloop k₀.order [] k x rfl (h.congr fun i _ => by simp)
  intro rest
  induction rest with
  | nil =>
    intro done k x hdone hk
    rw [List.append_nil] at hdone
    refine hk.congr fun i hi => ?_
    rw [hk.length] at hi
    rw [if_pos (hdone ▸ horder.mem_iff.mpr (List.mem_range.mpr hi))]
  | cons index rest ih =>
    intro done k x hdone hk
    have hmem : index ∈ k₀.order := by
      rw [hdone]
      exact List.mem_append_right _ List.mem_cons_self
    have hnot : index ∉ done := by
      rw [hdone] at hnodup
      exact fun hd => List.disjoint_of_nodup_append hnodup hd List.mem_cons_self
    rw [List.foldlM_cons, wp_bind]
    refine wp_mono (step hk (hlt index hmem) ?_) (fun k' y hy => ?_) (fun _ _ h' => h')
    · rw [if_neg hnot]
      exact hpre index (hlt index hmem)
    · refine ih (done ++ [index]) k' y (by rw [hdone, List.append_assoc]; rfl) (hy.congr ?_)
      intro i _
      by_cases hi : i = index
      · subst hi
        simp [hnot]
      · simp [hi]

/-! ## The calls -/

/-- The channels of an event: those of its key range, and all for a control event. -/
def routes (k : KeyBy A) (i : Nat) : ArconEvent A → Bool
  | .element e =>
    match k.range e.data with
    | .ok index => index == i
    | .error _ => false
  | _ => true

/-- The strategy after some calls: each channel has the batches of the items routed to it. -/
def HasSent (told : Prop) (cap : Nat) (k₀ : KeyBy A) (cs : List (StrategyCall A)) (k : KeyBy A)
    (x : Exchange (ArconEvent A)) : Prop :=
  Holds told cap k₀
    (fun i => Batching.run cap ArconEvent.isControl (feed (k₀.routes i) cs)) k x

theorem Holds.safe (h : Holds told cap k₀ st k x) : Safe Proper x := by
  obtain ⟨m, hat, hm, -⟩ := h.at_
  exact hat.safe hm

theorem Holds.range (h : Holds told cap k₀ st k x) (data : A) : k.range data = k₀.range data := by
  rw [h.same]
  rfl

variable {cs : List (StrategyCall A)}

theorem run_calm (i : Nat) : Batching.Calm ArconEvent.isControl
    (Batching.run cap ArconEvent.isControl (feed (k₀.routes i) cs)).2 := Batching.run_calm _ _ _

/-- An element goes to its key range. -/
theorem wp_add_element (hcap : 0 < cap) (h : HasSent told cap k₀ cs k x) (e : ArconElement A) :
    wp (k.add (.element e)) (fun k' y => HasSent told cap k₀ (cs ++ [.add (.element e)]) k' y)
      (fun _ y => Safe Proper y) x := by
  unfold add
  dsimp only
  rw [h.range]
  cases hr : k₀.range e.data with
  | error stop => exact h.safe
  | ok index =>
    dsimp only
    by_cases hi : index < k₀.bufferMap.length
    · refine wp_mono (wp_pushInto h hcap hi (run_calm index) (.element e)) (fun k' y hy => ?_)
        (fun _ _ h' => h'.2)
      refine Holds.congr hy fun i _ => ?_
      have hroute : k₀.routes i (.element e) = (index == i) := by
        unfold routes
        dsimp only
        rw [hr]
      rw [feed_add, hroute]
      by_cases hij : index = i
      · subst hij
        rw [Function.update_self, if_pos (by simp), Batching.run_snoc]
        rfl
      · rw [Function.update_of_ne (Ne.symm hij), if_neg (by simpa using hij)]
    · have hnone : k.bufferMap[index]? = none := by
        rw [List.getElem?_eq_none_iff, h.length]
        exact not_lt.mp hi
      unfold pushInto
      rw [hnone]
      exact h.safe

/-- A flush of all channels. -/
theorem wp_flush (horder : k₀.order.Perm (List.range k₀.bufferMap.length))
    (h : Holds told cap k₀ st k x)
    (hpre : ∀ i < k₀.bufferMap.length, Batching.Shaped ArconEvent.isControl (st i).2) :
    wp k.flush (fun k' y => Holds told cap k₀ (fun i => ((st i).1 ++ [(st i).2], [])) k' y)
      (Halts told Proper) x :=
  wp_order (g := fun s => (s.1 ++ [s.2], [])) wp_flushInto horder h hpre

/-- A control event goes to all channels. -/
theorem wp_add_control (hcap : 0 < cap)
    (horder : k₀.order.Perm (List.range k₀.bufferMap.length)) (h : HasSent told cap k₀ cs k x)
    {ev : ArconEvent A} (hev : ev.isControl = true) :
    wp (k.add ev) (fun k' y => HasSent told cap k₀ (cs ++ [.add ev]) k' y)
      (fun _ y => Safe Proper y) x := by
  have hadd : k.add ev = (k.order.foldlM (fun k index => k.pushInto ev index) k) >>= flush := by
    cases ev <;> first | rfl | cases hev
  have hroute : ∀ i, k₀.routes i ev = true := by
    intro i
    cases ev <;> first | rfl | cases hev
  rw [hadd, wp_bind]
  refine wp_mono (wp_order (g := fun s => (s.1 ++ (Batching.put cap s.2 ev).1,
    (Batching.put cap s.2 ev).2)) (fun hk hi hc => wp_pushInto hk hcap hi hc ev) horder h
    (fun i _ => run_calm i)) (fun k' y hy => ?_) (fun _ _ h' => h'.2)
  refine wp_mono (wp_flush horder hy fun i _ => Batching.put_shaped (run_calm i) ev)
    (fun k'' z hz => Holds.congr hz fun i _ => ?_) (fun _ _ h' => h'.2)
  rw [feed_add, if_pos (hroute i), Batching.run_snoc]
  show (_ ++ (Batching.add cap ArconEvent.isControl _ ev).1, _) = _
  rw [Batching.add_eq_put, if_pos hev, ← List.append_assoc]
  show (_, (Batching.add cap ArconEvent.isControl _ ev).2) = _
  rw [Batching.add_urgent hev]

/-- **One more call.** -/
theorem wp_call (hcap : 0 < cap) (horder : k₀.order.Perm (List.range k₀.bufferMap.length))
    (h : HasSent told cap k₀ cs k x) (c : StrategyCall A) :
    wp (match c with
      | .add ev => k.add ev
      | .flush => k.flush) (fun k' y => HasSent told cap k₀ (cs ++ [c]) k' y)
      (fun _ y => Safe Proper y) x := by
  cases c with
  | add ev =>
    cases hev : ev.isControl with
    | true => exact wp_add_control hcap horder h hev
    | false =>
      cases ev <;> first | exact wp_add_element hcap h _ | cases hev
  | flush =>
    refine wp_mono (wp_flush horder h fun i _ => .inl (run_calm i)) (fun k' y hy => ?_)
      (fun _ _ h' => h'.2)
    refine Holds.congr hy fun i _ => ?_
    rw [feed_flush, Batching.run_snoc]
    rfl

end KeyBy

end Arcon

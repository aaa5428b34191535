import Arcon.Channel.Rules
import Arcon.Lib.Batching

/-!
# What the strategies send

Each strategy sends batches: `Forward` and `Broadcast` those of all their events, to all channels;
`RoundRobin` those of all its events, to one channel after the other; and `KeyBy`, to each channel,
those of the events that are routed there.

* `Buffered.wp_add`: the `add` that the strategies with one buffer share.
* `Buffered.wp_call`: after any calls, the batches of their items are sent.
* `Forward.buffered`, `Broadcast.buffered`, `RoundRobin.buffered`: where each strategy sends them.
-/

namespace Arcon

open Exec ExchangeM Exchange

variable {A : Type} {x : Exchange (ArconEvent A)} {m : List (Nat × List (Option (ArconEvent A)))}
  {told : Prop} {cap : Nat} {P : List (Option (ArconEvent A)) → Prop} {w : BufferWriter}
  {l : List (ArconEvent A)}

/-! ## One buffer -/

section Buffered

variable {S R : Type} {mk : R → BufferWriter → S} {currBuffer : S → BufferWriter}
  {setBuffer : BufferWriter → S → S} {flush : S → ExchangeM (ArconEvent A) S}
  {after : R → R} {chans : R → List Nat} {Good : R → Prop} {r : R}

/-- The messages of some batches: each goes to the channels of the moment. -/
def sendAll (after : R → R) (chans : R → List Nat) :
    R → List (List (ArconEvent A)) → List (Nat × List (Option (ArconEvent A)))
  | _, [] => []
  | r, b :: bs => (chans r).map (fun c => (c, b.map some)) ++ sendAll after chans (after r) bs

/-- A strategy with one buffer, seen as that buffer and the rest of it: a flush sends what is in the
buffer to the channels of the moment, and leaves an empty buffer behind. -/
structure Buffered (told : Prop) (cap : Nat) (P : List (Option (ArconEvent A)) → Prop)
    (mk : R → BufferWriter → S) (currBuffer : S → BufferWriter)
    (setBuffer : BufferWriter → S → S) (flush : S → ExchangeM (ArconEvent A) S)
    (after : R → R) (chans : R → List Nat) (Good : R → Prop) : Prop where
  get : ∀ r w, currBuffer (mk r w) = w
  set : ∀ r w w', setBuffer w' (mk r w) = mk r w'
  good : ∀ r, Good r → Good (after r)
  flush : ∀ r w x l m, Good r → At told cap x [(w, l)] m → (∀ a ∈ m, P a.2) → P (l.map some) →
    wp (flush (mk r w)) (fun s y => ∃ w', s = mk (after r) w' ∧
      At told cap y [(w', [])] (m ++ sendAll after chans r [l])) (Halts told P) x

theorem sendAll_append (after : R → R) (chans : R → List Nat) (r : R)
    (bs bs' : List (List (ArconEvent A))) :
    sendAll after chans r (bs ++ bs') =
      sendAll after chans r bs ++ sendAll after chans (after^[bs.length] r) bs' := by
  induction bs generalizing r with
  | nil => rfl
  | cons b bs ih =>
    rw [List.cons_append, sendAll, ih, sendAll, List.append_assoc]
    rfl

theorem shape_sendAll {bs : List (List (ArconEvent A))} (hP : ∀ b ∈ bs, P (b.map some)) :
    ∀ a ∈ sendAll after chans r bs, P a.2 := by
  induction bs generalizing r with
  | nil => exact fun a ha => absurd ha List.not_mem_nil
  | cons b bs ih =>
    intro a ha
    rcases List.mem_append.mp ha with ha | ha
    · obtain ⟨c, -, rfl⟩ := List.mem_map.mp ha
      exact hP b List.mem_cons_self
    · exact ih (fun b hb => hP b (List.mem_cons_of_mem _ hb)) a ha

theorem shape_append {m' : List (Nat × List (Option (ArconEvent A)))} (h : ∀ a ∈ m, P a.2)
    (h' : ∀ a ∈ m', P a.2) : ∀ a ∈ m ++ m', P a.2 := by
  intro a ha
  rcases List.mem_append.mp ha with ha | ha
  · exact h a ha
  · exact h' a ha

/-- A full buffer is sent before the event goes into the next one. -/
theorem Buffered.wp_retry (hb : Buffered told cap P mk currBuffer setBuffer flush after chans Good)
    (hcap : 0 < cap) (hgood : Good r) (h : At told cap x [(w, l)] m) (hm : ∀ a ∈ m, P a.2)
    (hl : P (l.map some)) (ev : ArconEvent A) {Q : S → Exchange (ArconEvent A) → Prop}
    {k : S → ExchangeM (ArconEvent A) S}
    (hk : ∀ w' y, At told cap y [(w', [ev])] (m ++ sendAll after chans r [l]) →
      wp (k (mk (after r) w')) Q (Halts told P) y) :
    wp (do
      let s ← flush (mk r w)
      let w ← pushIgnored (currBuffer s) ev
      k (setBuffer w s)) Q (Halts told P) x := by
  have hm' : ∀ a ∈ m ++ sendAll after chans r [l], P a.2 :=
    shape_append hm (shape_sendAll (by simpa using hl))
  rw [wp_bind]
  refine wp_mono (hb.flush r w x l m hgood h hm hl) ?_ (fun _ _ h' => h')
  rintro s y ⟨w', rfl, hy⟩
  rw [wp_bind, hb.get]
  refine wp_mono (wp_pushIgnored hy hm' ev hcap) (fun w'' z hz => ?_) (fun _ _ h' => h')
  rw [hb.set]
  exact hk w'' z hz

/-- The shared `add`, by whether the event is a control event and whether there is room. -/
theorem addBuffered_eq (s : S) (ev : ArconEvent A) :
    addBuffered currBuffer setBuffer flush s ev = (do
      let (refused, w) ← push (currBuffer s) ev
      match refused with
      | none => if ev.isControl then flush (setBuffer w s) else pure (setBuffer w s)
      | some e => do
        let s ← flush (setBuffer w s)
        let w ← pushIgnored (currBuffer s) e
        if ev.isControl then flush (setBuffer w s) else pure (setBuffer w s)) := by
  unfold addBuffered
  cases ev <;>
  · refine congrArg (push _ _ >>= ·) (funext fun ⟨refused, w⟩ => ?_)
    cases refused <;> rfl

/-- **The shared `add`** sends the batches of one more item. -/
theorem Buffered.wp_add (hb : Buffered told cap P mk currBuffer setBuffer flush after chans Good)
    (hcap : 0 < cap) (hgood : Good r) (h : At told cap x [(w, l)] m) (hm : ∀ a ∈ m, P a.2)
    (ev : ArconEvent A)
    (hP : ∀ b ∈ (Batching.add cap ArconEvent.isControl l ev).1, P (b.map some)) :
    wp (addBuffered currBuffer setBuffer flush (mk r w) ev)
      (fun s y => ∃ w',
        s = mk (after^[(Batching.add cap ArconEvent.isControl l ev).1.length] r) w' ∧
        At told cap y [(w', (Batching.add cap ArconEvent.isControl l ev).2)]
          (m ++ sendAll after chans r (Batching.add cap ArconEvent.isControl l ev).1))
      (Halts told P) x := by
  rw [addBuffered_eq, wp_bind, hb.get]
  unfold Batching.add at hP ⊢
  refine wp_push h hm ev (fun hroom w' y hy => ?_) (fun hfull y hy => ?_)
  · dsimp only
    rw [hb.set]
    rw [if_pos hroom, if_pos hroom] at hP ⊢
    cases hc : ev.isControl with
    | true =>
      rw [hc, if_pos rfl] at hP
      exact hb.flush r w' y (l ++ [ev]) m hgood hy hm (hP _ List.mem_cons_self)
    | false => exact ⟨w', rfl, by simpa [sendAll] using hy⟩
  · have hroom : ¬l.length < cap := not_lt.mpr hfull
    dsimp only
    rw [hb.set]
    rw [if_neg hroom, if_neg hroom] at hP ⊢
    cases hc : ev.isControl with
    | true =>
      rw [hc, if_pos rfl] at hP
      have hl : P (l.map some) := hP _ List.mem_cons_self
      refine hb.wp_retry hcap hgood hy hm hl ev fun w' z hz => ?_
      refine wp_mono (hb.flush (after r) w' z [ev] _ (hb.good r hgood) hz
        (shape_append hm (shape_sendAll (by simpa using hl)))
        (hP [ev] (List.mem_cons_of_mem _ List.mem_cons_self))) ?_ (fun _ _ h' => h')
      rintro s z' ⟨w'', rfl, hz'⟩
      exact ⟨w'', rfl, by simpa [sendAll] using hz'⟩
    | false =>
      rw [hc, if_neg (by simp)] at hP
      exact hb.wp_retry hcap hgood hy hm (hP _ List.mem_cons_self) ev
        fun w' z hz => ⟨w', rfl, hz⟩

end Buffered

/-- A message as the node downstream relies on it: no control event but maybe the last one. -/
def Proper (l : List (Option (ArconEvent A))) : Prop :=
  ∃ b, l = b.map some ∧ Batching.Shaped ArconEvent.isControl b

/-- What a call hands to the buffers: an event, or a flush. -/
def StrategyCall.item : StrategyCall A → Option (ArconEvent A)
  | .add ev => some ev
  | .flush => none

section Flushes

variable {S R : Type} {mk : R → BufferWriter → S} {currBuffer : S → BufferWriter}
  {setBuffer : BufferWriter → S → S} {flush : S → ExchangeM (ArconEvent A) S}
  {after : R → R} {chans : R → List Nat} {Good : R → Prop}

/-- A strategy with one buffer after some calls: the batches of their items are sent. -/
def HasSent (told : Prop) (cap : Nat) (mk : R → BufferWriter → S) (after : R → R)
    (chans : R → List Nat) (Good : R → Prop) (r : R) (is : List (Option (ArconEvent A))) (s : S)
    (x : Exchange (ArconEvent A)) : Prop :=
  ∃ r' w, s = mk r' w ∧ Good r' ∧
    r' = after^[(Batching.run cap ArconEvent.isControl is).1.length] r ∧
    At told cap x [(w, (Batching.run cap ArconEvent.isControl is).2)]
      (sendAll after chans r (Batching.run cap ArconEvent.isControl is).1)

theorem proper_run (cap : Nat) (after : R → R) (chans : R → List Nat) (r : R)
    (is : List (Option (ArconEvent A))) :
    ∀ a ∈ sendAll after chans r (Batching.run cap ArconEvent.isControl is).1, Proper a.2 :=
  shape_sendAll fun b hb => ⟨b, rfl, Batching.run_shaped is b hb⟩

/-- **One more call.** -/
theorem Buffered.wp_call
    (hb : Buffered told cap Proper mk currBuffer setBuffer flush after chans Good) (hcap : 0 < cap)
    {r : R} {is : List (Option (ArconEvent A))} {s : S}
    (h : HasSent told cap mk after chans Good r is s x) (c : StrategyCall A) :
    wp (match c with
      | .add ev => addBuffered currBuffer setBuffer flush s ev
      | .flush => flush s)
      (fun s' y => HasSent told cap mk after chans Good r (is ++ [c.item]) s' y)
      (Halts told Proper) x := by
  have hm := proper_run cap after chans r is
  obtain ⟨r', w, rfl, hgood, hr', hat⟩ := h
  have hcalm := Batching.run_calm cap ArconEvent.isControl is
  have hgoods : ∀ n, Good (after^[n] r') := by
    intro n
    induction n with
    | zero => exact hgood
    | succ n ih =>
      rw [Function.iterate_succ_apply']
      exact hb.good _ ih
  -- the batches that the call sends, and what it leaves
  have key : ∀ {bs : List (List (ArconEvent A))} {l' : List (ArconEvent A)} {w' : BufferWriter}
      {y : Exchange (ArconEvent A)},
      (bs, l') = Batching.step cap ArconEvent.isControl
        (Batching.run cap ArconEvent.isControl is).2 c.item →
      At told cap y [(w', l')]
        (sendAll after chans r (Batching.run cap ArconEvent.isControl is).1 ++
          sendAll after chans r' bs) →
      HasSent told cap mk after chans Good r (is ++ [c.item]) (mk (after^[bs.length] r') w') y := by
    intro bs l' w' y hstep hy
    refine ⟨_, w', rfl, hgoods _, ?_, ?_⟩
    · rw [Batching.run_snoc, ← hstep, List.length_append, hr', ← Function.iterate_add_apply,
        Nat.add_comm]
    · rw [Batching.run_snoc, ← hstep, sendAll_append, ← hr']
      exact hy
  have hshape := Batching.step_shaped cap hcalm c.item
  cases c with
  | add ev =>
    refine wp_mono (hb.wp_add hcap hgood hat hm ev fun b hb => ⟨b, rfl, hshape b hb⟩) ?_
      (fun _ _ h' => h')
    rintro s' y ⟨w', rfl, hy⟩
    exact key rfl hy
  | flush =>
    refine wp_mono (hb.flush r' w x _ _ hgood hat hm ⟨_, rfl, .inl hcalm⟩) ?_ (fun _ _ h' => h')
    rintro s' y ⟨w', rfl, hy⟩
    exact key rfl hy

end Flushes

/-! ## The strategies with one buffer -/

theorem Forward.buffered : Buffered (A := A) told cap Proper
    (fun (r : Channel × NodeID) w => (⟨w, r.1, r.2⟩ : Forward)) Forward.currBuffer
    (fun w f => { f with currBuffer := w }) Forward.flush id (fun _ => [0]) (fun _ => True) := by
  refine ⟨fun _ _ => rfl, fun _ _ _ => rfl, fun _ _ => trivial, ?_⟩
  intro r w x l m _ h hm hl
  unfold Forward.flush
  rw [wp_bind]
  refine wp_mono (wp_sendReader h hm hl r.2 0 r.1) (fun _ y hy => ?_) (fun _ _ h' => h')
  rw [wp_bind]
  refine wp_mono (wp_getBuffer hy (shape_append hm (by simpa using hl))) (fun w' z hz => ?_)
    (fun _ _ h' => h')
  exact ⟨w', rfl, hz⟩

/-- Where round robin goes next. -/
def RoundRobin.next (r : List Channel × NodeID × Nat) : List Channel × NodeID × Nat :=
  (r.1, r.2.1, if r.1.length ≤ r.2.2 + 1 then 0 else r.2.2 + 1)

theorem RoundRobin.buffered : Buffered (A := A) told cap Proper
    (fun (r : List Channel × NodeID × Nat) w => (⟨w, r.1, r.2.1, r.2.2⟩ : RoundRobin))
    RoundRobin.currBuffer (fun w r => { r with currBuffer := w }) RoundRobin.flush RoundRobin.next
    (fun r => [r.2.2]) (fun r => r.2.2 < r.1.length) := by
  refine ⟨fun _ _ => rfl, fun _ _ _ => rfl, fun r h => ?_, ?_⟩
  · show (if r.1.length ≤ r.2.2 + 1 then 0 else r.2.2 + 1) < r.1.length
    split <;> omega
  intro r w x l m hgood h hm hl
  unfold RoundRobin.flush
  dsimp only
  rw [List.getElem?_eq_getElem hgood]
  dsimp only
  rw [wp_bind]
  refine wp_mono (wp_sendReader h hm hl r.2.1 r.2.2 _) (fun _ y hy => ?_) (fun _ _ h' => h')
  rw [wp_bind]
  refine wp_mono (wp_getBuffer hy (shape_append hm (by simpa using hl))) (fun w' z hz => ?_)
    (fun _ _ h' => h')
  exact ⟨w', rfl, hz⟩

/-- The last channel gets the buffer itself. -/
theorem Broadcast.wp_sendTo_last (b : Broadcast) {k : Nat} (hk : k + 1 = b.channels.length)
    (channel : Channel) (h : At told cap x [(b.currBuffer, l)] m) (hm : ∀ a ∈ m, P a.2)
    (hl : P (l.map some)) :
    wp (b.sendTo k channel) (fun _ y => At told cap y [] (m ++ [(k, l.map some)]))
      (Halts told P) x := by
  unfold sendTo
  rw [if_pos (by omega)]
  exact wp_sendReader h hm hl b.senderId k channel

/-- Another channel gets a copy. -/
theorem Broadcast.wp_sendTo_copy (b : Broadcast) {k : Nat} (hk : k + 1 < b.channels.length)
    (channel : Channel) (h : At told cap x [(b.currBuffer, l)] m) (hm : ∀ a ∈ m, P a.2)
    (hl : P (l.map some)) :
    wp (b.sendTo k channel)
      (fun _ y => At told cap y [(b.currBuffer, l)] (m ++ [(k, l.map some)])) (Halts told P) x := by
  unfold sendTo
  rw [if_neg (by omega), wp_bind]
  refine wp_mono (wp_getBuffer h hm) (fun w' y hy => ?_) (fun _ _ h' => h')
  rw [wp_bind]
  refine wp_mono (wp_copyFromWriter hy hm) (fun w'' z hz => ?_) (fun _ _ h' => h')
  exact wp_sendReader hz hm hl b.senderId k channel

/-- The loop of `flush` from channel `k` on: each channel gets the events once. -/
theorem Broadcast.wp_sendTo_all (b : Broadcast) (hl : P (l.map some)) :
    ∀ (channels : List Channel) (k : Nat), channels ≠ [] → k + channels.length = b.channels.length →
      ∀ {x : Exchange (ArconEvent A)} {m : List (Nat × List (Option (ArconEvent A)))},
      At told cap x [(b.currBuffer, l)] m → (∀ a ∈ m, P a.2) →
      wp (forM (channels.zipIdx k) fun (channel, index) => b.sendTo index channel)
        (fun _ y => At told cap y []
          (m ++ (List.range' k channels.length).map fun c => (c, l.map some)))
        (Halts told P) x := by
  intro channels
  induction channels with
  | nil => exact fun k hne => absurd rfl hne
  | cons channel channels ih =>
    intro k _ hlen x m h hm
    rw [List.zipIdx_cons, List.forM_cons, wp_bind]
    rw [List.length_cons] at hlen
    cases channels with
    | nil => exact b.wp_sendTo_last hlen channel h hm hl
    | cons channel' channels =>
      have hk : k + 1 < b.channels.length := by
        rw [List.length_cons] at hlen
        omega
      refine wp_mono (b.wp_sendTo_copy hk channel h hm hl) (fun _ y hy => ?_) (fun _ _ h' => h')
      refine wp_mono (ih (k + 1) (List.cons_ne_nil _ _) (by omega) hy
        (shape_append hm (by simpa using hl))) (fun _ z hz => ?_) (fun _ _ h' => h')
      rw [List.append_assoc] at hz
      exact hz

theorem Broadcast.buffered : Buffered (A := A) told cap Proper
    (fun (r : List Channel × NodeID) w => (⟨r.1, w, r.2⟩ : Broadcast)) Broadcast.currBuffer
    (fun w b => { b with currBuffer := w }) Broadcast.flush id (fun r => List.range r.1.length)
    (fun r => r.1 ≠ []) := by
  refine ⟨fun _ _ => rfl, fun _ _ _ => rfl, fun _ h => h, ?_⟩
  intro r w x l m hgood h hm hl
  unfold Broadcast.flush
  rw [wp_bind]
  refine wp_mono (Broadcast.wp_sendTo_all ⟨r.1, w, r.2⟩ hl r.1 0 hgood (Nat.zero_add _) h hm)
    (fun _ y hy => ?_) (fun _ _ h' => h')
  rw [← List.range_eq_range'] at hy
  have hsent : ∀ a ∈ (List.range r.1.length).map fun c => (c, l.map some), Proper a.2 := by
    intro a ha
    obtain ⟨c, -, rfl⟩ := List.mem_map.mp ha
    exact hl
  rw [wp_bind]
  refine wp_mono (wp_getBuffer hy (shape_append hm hsent)) (fun w' z hz => ?_) (fun _ _ h' => h')
  refine ⟨w', rfl, ?_⟩
  rw [sendAll, sendAll, List.append_nil]
  exact hz

end Arcon

import Arcon.Channel.Strategy
import Arcon.Lib.EvenSplit

/-!
# The key space of `KeyBy` (`strategy/key_by.rs`)

`add` puts a key into range `(key % max_key) * key_ranges / max_key`. The product is one of `u64`:
with overflow checks (the dev and test profiles) it panics where it does not fit, and without (the
release profile) it wraps. A wrapped product is smaller than the real one, so the index is one of a
channel all the same; but then the ranges are no intervals any more.

`KeyBy.add` of `Strategy.lean` has the checks; `KeyBy.addIn` is the code under both profiles.

* `keyIndex_lt`: an index is always below the number of channels.
* `KeyBy.neverBad_runIn`: so no run ends with "Bad KeyBy setup".
* **`key_by_partitions`**: and while no product overflows, the channels split the key space evenly.
-/

namespace Arcon

open Exec ExchangeM

variable {A T α β : Type}

/-- `a * b` on `u64`, with or without overflow checks. -/
def mulU64 (overflowChecks : Bool) (a b : Nat) : Except Stop Nat :=
  if a * b ≤ u64Max then .ok (a * b)
  else if overflowChecks then .error (.panic "attempt to multiply with overflow")
  else .ok (a * b % 2 ^ 64)

/-- The key range that `add` computes for a key. -/
def keyIndex (overflowChecks : Bool) (maxKey keyRanges key : Nat) : Except Stop Nat :=
  if maxKey = 0 then .error (.panic "attempt to calculate the remainder with a divisor of zero")
  else do
    let product ← mulU64 overflowChecks (key % maxKey) keyRanges
    pure (product / maxKey)

namespace KeyBy

/-- `add`, in a build with or without overflow checks. -/
def addIn (overflowChecks : Bool) (k : KeyBy A) (event : ArconEvent A) :
    ExchangeM (ArconEvent A) (KeyBy A) :=
  match event with
  | .element e =>
    match keyIndex overflowChecks k.maxKey k.keyRanges (k.dataKey e.data) with
    | .error stop => throw stop
    | .ok index => k.pushInto event index
  | _ => do
    let k ← k.order.foldlM (fun k index => k.pushInto event index) k
    k.flush

theorem range_eq (k : KeyBy A) (data : A) :
    k.range data = keyIndex true k.maxKey k.keyRanges (k.dataKey data) := by
  unfold range keyIndex mulU64 checkedMul
  by_cases hzero : k.maxKey = 0
  · rw [if_pos hzero, if_pos hzero]
  · rw [if_neg hzero, if_neg hzero]
    by_cases hfits : k.dataKey data % k.maxKey * k.keyRanges ≤ u64Max
    · rw [if_pos hfits, if_pos hfits]
      rfl
    · rw [if_neg hfits, if_neg hfits]
      rfl

/-- The dev and test profiles have the checks. -/
theorem add_eq_addIn (k : KeyBy A) (event : ArconEvent A) : k.add event = k.addIn true event := by
  cases event with
  | element e =>
    exact congrArg (fun r : Except Stop Nat =>
      match r with
      | .error stop => throw stop
      | .ok index => k.pushInto (.element e) index) (range_eq k e.data)
  | watermark w => rfl
  | epoch e => rfl
  | death s => rfl

/-- A call, in a build with or without overflow checks. -/
def callIn (overflowChecks : Bool) (k : KeyBy A) :
    StrategyCall A → ExchangeM (ArconEvent A) (KeyBy A)
  | .add event => k.addIn overflowChecks event
  | .flush => k.flush

/-- A new strategy and calls of it. -/
def runIn (overflowChecks : Bool) (maxKey : Nat) (channels : List Channel) (order : List Nat)
    (dataKey : A → Nat) (senderId : NodeID) (info : PoolInfo) (cs : List (StrategyCall A)) :
    ExchangeM (ArconEvent A) (KeyBy A) := do
  let k ← new maxKey channels order dataKey senderId info
  cs.foldlM (callIn overflowChecks) k

end KeyBy

/-! ## The index -/

section index

variable {overflowChecks : Bool} {maxKey n key : Nat}

/-- A product that fits is the same under both profiles. -/
theorem keyIndex_of_fits (hmax : 0 < maxKey) (hfits : key % maxKey * n ≤ u64Max) :
    keyIndex overflowChecks maxKey n key = .ok (EvenSplit.part maxKey n (key % maxKey)) := by
  unfold keyIndex mulU64
  rw [if_neg (by omega), if_pos hfits]
  rfl

/-- A product that does not fit is a panic, or wraps. -/
theorem keyIndex_of_overflows (hmax : 0 < maxKey) (hover : u64Max < key % maxKey * n) :
    keyIndex overflowChecks maxKey n key =
      if overflowChecks then .error (.panic "attempt to multiply with overflow")
      else .ok (key % maxKey * n % 2 ^ 64 / maxKey) := by
  unfold keyIndex mulU64
  rw [if_neg (by omega), if_neg (by omega)]
  cases overflowChecks <;> rfl

/-- **The index is one of a channel.** -/
theorem keyIndex_lt (hmax : 0 < maxKey) (hn : 0 < n) {index : Nat}
    (h : keyIndex overflowChecks maxKey n key = .ok index) : index < n := by
  have hpart : EvenSplit.part maxKey n (key % maxKey) < n :=
    EvenSplit.part_lt hn (Nat.mod_lt key hmax)
  by_cases hfits : key % maxKey * n ≤ u64Max
  · rw [keyIndex_of_fits hmax hfits] at h
    cases h
    exact hpart
  · rw [keyIndex_of_overflows hmax (by omega)] at h
    cases overflowChecks with
    | true => cases h
    | false =>
      cases h
      exact (Nat.div_le_div_right (Nat.mod_le _ _)).trans_lt hpart

end index

/-! ## Runs -/

/-- The code ends with a result in `Q`, or in another way than with the panic of a bad setup. -/
def NeverBad (Q : α → Prop) (x : ExchangeM T α) : Prop :=
  ∀ s, wp x (fun a _ => Q a) (fun e _ => e ≠ .panic "Bad KeyBy setup") s

namespace NeverBad

variable {x : ExchangeM T α} {Q : α → Prop} {R : β → Prop} {f : α → ExchangeM T β}

theorem pure {a : α} (h : Q a) : NeverBad Q (Pure.pure a : ExchangeM T α) := fun _ => h

theorem throw {e : Stop} (h : e ≠ .panic "Bad KeyBy setup") :
    NeverBad Q (MonadExcept.throw e : ExchangeM T α) := fun _ => h

theorem bind (hx : NeverBad Q x) (hf : ∀ a, Q a → NeverBad R (f a)) : NeverBad R (x >>= f) := by
  intro s
  rw [wp_bind]
  exact wp_mono (hx s) (fun a s' ha => hf a ha s') (fun _ _ h => h)

theorem foldlM {f : β → α → ExchangeM T β} {l : List α}
    (h : ∀ b, R b → ∀ a ∈ l, NeverBad R (f b a)) {b : β} (hb : R b) :
    NeverBad R (l.foldlM f b) := by
  induction l generalizing b with
  | nil => exact NeverBad.pure hb
  | cons a l ih =>
    rw [List.foldlM_cons]
    refine (h b hb a List.mem_cons_self).bind fun b' hb' => ?_
    exact ih (fun b hb a ha => h b hb a (List.mem_cons_of_mem _ ha)) hb'

/-! The steps of the exchange. -/

theorem turn : NeverBad (fun _ => True) (ExchangeM.turn : ExchangeM T _) := by
  have hfrom : ∀ (ts : List Turn) (s : Exchange T),
      wp (fun _ => turnFrom ts s) (fun _ _ => True)
        (fun e _ => e ≠ .panic "Bad KeyBy setup") s := by
    intro ts
    induction ts with
    | nil => exact fun s => by simp [wp, turnFrom]
    | cons t ts ih =>
      intro s
      cases t with
      | receiver r => exact ih (s.receive r)
      | sender tell => trivial
  exact fun s => hfrom s.schedule s

theorem get : NeverBad (fun _ => True) (MonadState.get : ExchangeM T (Exchange T)) :=
  fun _ => trivial

theorem set (s : Exchange T) : NeverBad (fun _ => True) (MonadStateOf.set s : ExchangeM T PUnit) :=
  fun _ => trivial

theorem modify (g : Exchange T → Exchange T) :
    NeverBad (fun _ => True) (modify g : ExchangeM T PUnit) := fun _ => trivial

theorem tryGet : NeverBad (fun _ => True) (ExchangeM.tryGet : ExchangeM T _) := by
  refine turn.bind fun _ _ => get.bind fun s _ => ?_
  cases s.pool.tryGet with
  | none => exact throw (by decide)
  | some r => exact (modify _).bind fun _ _ => pure trivial

theorem getLoop (rounds : Nat) :
    NeverBad (fun _ => True) (ExchangeM.getLoop rounds : ExchangeM T _) := by
  induction rounds with
  | zero => exact throw (by decide)
  | succ rounds ih =>
    refine tryGet.bind fun opt _ => ?_
    cases opt with
    | none => exact ih
    | some w => exact pure trivial

theorem getBuffer : NeverBad (fun _ => True) (ExchangeM.getBuffer : ExchangeM T _) :=
  get.bind fun _ _ => getLoop _

theorem push (w : BufferWriter) (value : T) : NeverBad (fun _ => True) (ExchangeM.push w value) :=
  turn.bind fun _ _ => get.bind fun _ _ => (set _).bind fun _ _ => pure trivial

theorem pushIgnored (w : BufferWriter) (value : T) :
    NeverBad (fun _ => True) (ExchangeM.pushIgnored w value) :=
  (push w value).bind fun _ _ => (modify _).bind fun _ _ => pure trivial

theorem send (index : Nat) (channel : Channel) (i : Nat) :
    NeverBad (fun _ => True) (ExchangeM.send (T := T) index channel i) := by
  cases channel with
  | onLocal => exact turn.bind fun _ _ => (modify _).bind fun _ _ => pure trivial
  | remote =>
    refine turn.bind fun _ _ => (modify _).bind fun _ _ => ?_
    refine turn.bind fun _ _ => (modify _).bind fun _ _ => ?_
    exact turn.bind fun _ _ => (modify _).bind fun _ _ => pure trivial

theorem sendReader (sender : NodeID) (index : Nat) (channel : Channel) (w : BufferWriter) :
    NeverBad (fun _ => True) (ExchangeM.sendReader (T := T) sender index channel w) := by
  have hreader : NeverBad (fun _ => True) (ExchangeM.reader (T := T) sender w) :=
    turn.bind fun _ _ => get.bind fun _ _ => (set _).bind fun _ _ => pure trivial
  refine hreader.bind fun i _ => (send index channel i).bind fun r _ => ?_
  cases r with
  | ok u => exact pure trivial
  | error e =>
    cases e with
    | bufferError msg =>
      refine throw fun heq => ?_
      -- the second letters differ
      have hletters := congrArg String.toList (Stop.panic.inj heq)
      simp [String.toList_append] at hletters
    | other msg => exact pure trivial

end NeverBad

namespace KeyBy

/-- The strategy as `new` makes it: a buffer for every range, and iterated over all of them. -/
structure Intact (maxKey n : Nat) (dataKey : A → Nat) (k : KeyBy A) : Prop where
  maxKey : k.maxKey = maxKey
  keyRanges : k.keyRanges = n
  dataKey : k.dataKey = dataKey
  length : k.bufferMap.length = n
  order : ∀ i ∈ k.order, i < n

variable {maxKey n : Nat} {dataKey : A → Nat} {k : KeyBy A}

theorem Intact.setBuffer (h : Intact maxKey n dataKey k) (index : Nat)
    (entry : Channel × BufferWriter) :
    Intact maxKey n dataKey { k with bufferMap := k.bufferMap.set index entry } :=
  ⟨h.maxKey, h.keyRanges, h.dataKey, (List.length_set ..).trans h.length, h.order⟩

theorem neverBad_flushBuffer (senderId : NodeID) (index : Nat) (channel : Channel)
    (w : BufferWriter) : NeverBad (fun _ => True) (flushBuffer (A := A) senderId index channel w) :=
  (NeverBad.sendReader senderId index channel w).bind fun _ _ => NeverBad.getBuffer

theorem neverBad_pushInto (h : Intact maxKey n dataKey k) (event : ArconEvent A) {index : Nat}
    (hindex : index < n) : NeverBad (Intact maxKey n dataKey) (k.pushInto event index) := by
  rw [← h.length] at hindex
  unfold pushInto
  rw [List.getElem?_eq_getElem hindex]
  refine (NeverBad.push _ event).bind fun ⟨refused, w⟩ _ => ?_
  cases refused with
  | none => exact NeverBad.pure (h.setBuffer index _)
  | some e =>
    refine (neverBad_flushBuffer _ _ _ _).bind fun w _ => ?_
    exact (NeverBad.pushIgnored w e).bind fun w' _ => NeverBad.pure (h.setBuffer index _)

theorem neverBad_flush (h : Intact maxKey n dataKey k) :
    NeverBad (Intact maxKey n dataKey) k.flush := by
  refine NeverBad.foldlM (fun k hk index _ => ?_) h
  unfold flushInto
  cases hget : k.bufferMap[index]? with
  | none => exact NeverBad.pure hk
  | some entry =>
    exact (neverBad_flushBuffer _ _ _ _).bind fun w _ => NeverBad.pure (hk.setBuffer index _)

/-- **`add` finds a buffer for every event.** -/
theorem neverBad_addIn (hmax : 0 < maxKey) (hn : 0 < n) (h : Intact maxKey n dataKey k)
    (overflowChecks : Bool) (event : ArconEvent A) :
    NeverBad (Intact maxKey n dataKey) (k.addIn overflowChecks event) := by
  have hcontrol : NeverBad (Intact maxKey n dataKey) (do
      let k ← k.order.foldlM (fun k index => k.pushInto event index) k
      k.flush) := by
    refine (NeverBad.foldlM (fun k' hk' index hindex => ?_) h).bind fun k' hk' => neverBad_flush hk'
    exact neverBad_pushInto hk' event (h.order index hindex)
  cases event with
  | element e =>
    unfold addIn
    dsimp only
    rw [h.maxKey, h.keyRanges]
    cases hindex : keyIndex overflowChecks maxKey n (k.dataKey e.data) with
    | ok index => exact neverBad_pushInto h _ (keyIndex_lt hmax hn hindex)
    | error stop =>
      refine NeverBad.throw ?_
      by_cases hfits : k.dataKey e.data % maxKey * n ≤ u64Max
      · rw [keyIndex_of_fits hmax hfits] at hindex
        cases hindex
      · rw [keyIndex_of_overflows hmax (by omega)] at hindex
        cases overflowChecks with
        | true =>
          cases hindex
          decide
        | false => cases hindex
  | watermark w => exact hcontrol
  | epoch e => exact hcontrol
  | death msg => exact hcontrol

theorem neverBad_new (channels : List Channel) {order : List Nat}
    (horder : order.Perm (List.range channels.length)) (senderId : NodeID) (info : PoolInfo) :
    NeverBad (Intact maxKey channels.length dataKey)
      (new maxKey channels order dataKey senderId info) := by
  have hmap : ∀ cs : List Channel, NeverBad (fun m => m.length = cs.length)
      (cs.mapM fun channel => do
        Pure.pure (channel, ← (initialBuffer : ExchangeM (ArconEvent A) _))) := by
    intro cs
    induction cs with
    | nil => exact NeverBad.pure rfl
    | cons c cs ih =>
      have hbuffer : NeverBad (fun _ => True) (initialBuffer : ExchangeM (ArconEvent A) _) := by
        refine NeverBad.tryGet.bind fun opt _ => ?_
        cases opt with
        | none => exact NeverBad.throw (by decide)
        | some w => exact NeverBad.pure trivial
      rw [List.mapM_cons]
      have hentry : NeverBad (fun _ => True) (do
          Pure.pure (c, ← (initialBuffer : ExchangeM (ArconEvent A) _))) :=
        hbuffer.bind fun w _ => NeverBad.pure trivial
      refine hentry.bind fun e _ => ih.bind fun m hm => NeverBad.pure ?_
      rw [List.length_cons, List.length_cons, hm]
  unfold new
  split
  · exact NeverBad.throw (by decide)
  · have hpool : NeverBad (fun _ => True)
        (initialPool info "failed to initialise BufferPool" : ExchangeM (ArconEvent A) Unit) := by
      unfold initialPool
      cases BufferPool.new info.capacity info.bufferSize with
      | none => exact NeverBad.throw (by decide)
      | some pool => exact NeverBad.modify _
    refine hpool.bind fun _ _ => (hmap channels).bind fun m hm => NeverBad.pure ?_
    exact ⟨rfl, rfl, rfl, hm, fun i hi => List.mem_range.mp (horder.mem_iff.mp hi)⟩

/-- **No run ends with the panic of a bad setup.** -/
theorem neverBad_runIn (hmax : 0 < maxKey) {channels : List Channel} (hn : 0 < channels.length)
    {order : List Nat} (horder : order.Perm (List.range channels.length)) (overflowChecks : Bool)
    (senderId : NodeID) (info : PoolInfo) (cs : List (StrategyCall A)) :
    NeverBad (Intact maxKey channels.length dataKey)
      (runIn overflowChecks maxKey channels order dataKey senderId info cs) := by
  refine (neverBad_new channels horder senderId info).bind fun k hk => ?_
  refine NeverBad.foldlM (fun k hk c _ => ?_) hk
  cases c with
  | add event => exact neverBad_addIn hmax hn hk overflowChecks event
  | flush => exact neverBad_flush hk

end KeyBy

/-! ## The split -/

/-- The numbers below `m` are split into `n` intervals in order, whose sizes are as even as can be.
-/
structure SplitsEvenly (m n : Nat) (index : Nat → Nat) : Prop where
  mono : ∀ r r', r ≤ r' → r' < m → index r ≤ index r'
  interval : ∀ c < n, ∃ first last, first ≤ last ∧ last ≤ m ∧
    (∀ r < m, index r = c ↔ first ≤ r ∧ r < last) ∧
    (last - first = m / n ∨ last - first = m ⌈/⌉ n)

theorem splitsEvenly_part {m n : Nat} (hm : 0 < m) (hn : 0 < n) :
    SplitsEvenly m n (EvenSplit.part m n) where
  mono _ _ h _ := EvenSplit.part_mono h
  interval c hc := ⟨EvenSplit.first m n c, EvenSplit.first m n (c + 1), EvenSplit.first_mono hn c,
    EvenSplit.first_le hn hc, fun _ _ => EvenSplit.part_eq_iff hm hn, EvenSplit.size_part hn c⟩

/-- **`KeyBy` partitions the key space.** For every `max_key` and number of channels that are not
zero, and every key: the index is one of a channel, also where the product wraps; so no run of a
strategy that `KeyBy::new` made, in either profile and against any receivers, ends with "Bad KeyBy
setup". If no product can overflow, the index of a key is that of its residue under both profiles,
it grows with the residue, and each channel has an interval of `⌊max_key / n⌋` or `⌈max_key / n⌉` of
them. -/
theorem key_by_partitions {maxKey : Nat} (hmax : 1 ≤ maxKey) {channels : List Channel}
    (hn : 1 ≤ channels.length) {order : List Nat}
    (horder : order.Perm (List.range channels.length)) (dataKey : A → Nat) :
    (∀ key, ∃ index, keyIndex false maxKey channels.length key = .ok index ∧
      index < channels.length) ∧
    (∀ overflowChecks key index, keyIndex overflowChecks maxKey channels.length key = .ok index →
      index < channels.length) ∧
    (∀ overflowChecks senderId info cs schedule stop x,
      KeyBy.runIn overflowChecks maxKey channels order dataKey senderId info cs
        (Exchange.start schedule) = .error stop x → stop ≠ .panic "Bad KeyBy setup") ∧
    ((maxKey - 1) * channels.length < 2 ^ 64 → ∀ overflowChecks, ∃ index : Nat → Nat,
      (∀ key, keyIndex overflowChecks maxKey channels.length key = .ok (index (key % maxKey))) ∧
      SplitsEvenly maxKey channels.length index) := by
  refine ⟨fun key => ?_, fun _ _ _ => keyIndex_lt hmax hn, ?_, fun hprod overflowChecks => ?_⟩
  · have hok : ∃ index, keyIndex false maxKey channels.length key = .ok index := by
      by_cases hfits : key % maxKey * channels.length ≤ u64Max
      · exact ⟨_, keyIndex_of_fits hmax hfits⟩
      · exact ⟨_, keyIndex_of_overflows hmax (by omega)⟩
    obtain ⟨index, hindex⟩ := hok
    exact ⟨index, hindex, keyIndex_lt hmax hn hindex⟩
  · intro overflowChecks senderId info cs schedule stop x hstop
    have hnever : NeverBad (KeyBy.Intact maxKey channels.length dataKey) _ :=
      KeyBy.neverBad_runIn hmax hn horder overflowChecks senderId info cs
    have hother := wp_error (hnever _) hstop
    exact hother
  · refine ⟨EvenSplit.part maxKey channels.length, fun key => ?_, splitsEvenly_part hmax hn⟩
    refine keyIndex_of_fits hmax ?_
    have hres : key % maxKey ≤ maxKey - 1 := Nat.le_pred_of_lt (Nat.mod_lt key hmax)
    have hle : key % maxKey * channels.length ≤ (maxKey - 1) * channels.length :=
      Nat.mul_le_mul_right _ hres
    unfold u64Max
    omega

/-- Ten keys for three channels. -/
theorem key_by_partitions_ten :
    [2, 0, 1].Perm (List.range [Channel.onLocal, .remote, .onLocal].length) ∧
      ∃ index : Nat → Nat, (∀ key, keyIndex true 10 3 key = .ok (index (key % 10))) ∧
        SplitsEvenly 10 3 index := by
  have horder : [2, 0, 1].Perm (List.range [Channel.onLocal, .remote, .onLocal].length) := by decide
  have hsplit := key_by_partitions (by decide : 1 ≤ 10) (by decide) horder (id : Nat → Nat)
  exact ⟨horder, hsplit.2.2.2 (by decide) true⟩

/-- A product that wraps puts a greater key into a smaller range. -/
example : keyIndex false (2 ^ 63) 4 (2 ^ 62 - 1) = .ok 1 ∧
    keyIndex false (2 ^ 63) 4 (2 ^ 62) = .ok 0 :=
  ⟨rfl, rfl⟩

end Arcon

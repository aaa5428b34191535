import Arcon.Channel.KeyRanges

/-!
# What the strategies guarantee

One description of all strategies after any calls (`ChannelStrategy.HasSent`), and what follows from
it for the receivers.

* `ChannelStrategy.wp_run`: a strategy that was made and called is as described, in every
  interleaving with its receivers; where it stops, what it has sent so far is in order.
-/

namespace Arcon

open Exec ExchangeM Exchange

variable {A : Type} {told : Prop} {cap : Nat} {x : Exchange (ArconEvent A)}

/-! ## Making a strategy -/

theorem BufferPool.new_eq {T : Type} {capacity bufferSize : Nat} {pool : BufferPool T}
    (h : BufferPool.new capacity bufferSize = some pool) :
    (0 < capacity → 0 < bufferSize) ∧
      pool = ⟨bufferSize, List.replicate capacity ⟨fun _ => none, bufferSize, true⟩, 0⟩ := by
  unfold BufferPool.new at h
  cases hb : (EventBuffer.new bufferSize : Option (EventBuffer T)) with
  | none =>
    cases capacity with
    | zero =>
      refine ⟨fun h' => absurd h' (lt_irrefl 0), ?_⟩
      simpa using h.symm
    | succ n =>
      rw [hb, List.replicate_succ] at h
      simp at h
  | some b =>
    have hmap : ∀ n, (List.replicate n (some b)).mapM id = some (List.replicate n b) := by
      intro n
      induction n with
      | zero => rfl
      | succ n ih =>
        rw [List.replicate_succ, List.mapM_cons, ih]
        rfl
    unfold EventBuffer.new at hb
    split at hb
    · cases hb
    · rename_i hne
      obtain rfl := Option.some.inj hb
      refine ⟨fun _ => Nat.pos_of_ne_zero hne, ?_⟩
      unfold EventBuffer.new at h
      rw [if_neg hne, hmap] at h
      exact (Option.some.inj h).symm

/-- The exchange with a pool of free buffers, before anything else. -/
theorem at_start {capacity bufferSize : Nat} {pool : BufferPool (ArconEvent A)}
    (h : BufferPool.new capacity bufferSize = some pool) (hc : 0 < capacity) {schedule : List Turn}
    (ht : told → ∀ tell, .sender tell ∈ schedule → tell = .ok ()) :
    At told bufferSize { (start schedule : Exchange (ArconEvent A)) with pool := pool } [] [] := by
  obtain ⟨-, rfl⟩ := BufferPool.new_eq h
  refine ⟨⟨⟨by simpa [start] using hc, ?_, List.nodup_nil, ?_, ?_, ?_, ?_, ?_⟩, List.Perm.nil, ?_,
    ?_⟩, rfl, ?_, rfl, ht, fun _ _ h' => absurd h' List.not_mem_nil⟩
  · intro b hb
    rw [List.eq_of_mem_replicate hb]
  · exact fun i hi => absurd hi List.not_mem_nil
  · intro i b hb
    rw [List.eq_of_mem_replicate (List.mem_of_getElem? hb)]
    exact iff_of_true rfl List.not_mem_nil
  all_goals exact fun _ h' => absurd h' List.not_mem_nil

/-- Nothing has happened, and there are no buffers. -/
structure Idle (x : Exchange (ArconEvent A)) : Prop where
  buffers : x.pool.buffers = []
  writing : x.writing = []
  readings : x.readings = []
  ignored : x.ignored = []

/-- Where a strategy stops, what it has done is in order, or it has not begun. -/
def Sound (x : Exchange (ArconEvent A)) : Prop := Safe Proper x ∨ Idle x

theorem idle_start (schedule : List Turn) : Idle (start schedule : Exchange (ArconEvent A)) :=
  ⟨rfl, rfl, rfl, rfl⟩

theorem wp_initialPool (info : PoolInfo) (msg : String) {schedule : List Turn}
    (ht : told → ∀ tell, .sender tell ∈ schedule → tell = .ok ()) (hc : 0 < info.capacity) :
    wp (initialPool (A := A) info msg)
      (fun _ y => 0 < info.bufferSize ∧ At told info.bufferSize y [] []) (fun _ y => Sound y)
      (start schedule) := by
  unfold initialPool
  cases h : (BufferPool.new info.capacity info.bufferSize : Option (BufferPool (ArconEvent A))) with
  | none => exact .inr (idle_start schedule)
  | some pool => exact ⟨(BufferPool.new_eq h).1 hc, at_start h hc ht⟩

theorem wp_initialBuffer {ws : List (BufferWriter × List (ArconEvent A))}
    (h : At told cap x ws []) :
    wp initialBuffer (fun w y => At told cap y ((w, []) :: ws) []) (fun _ y => Sound y) x := by
  unfold initialBuffer
  rw [wp_bind]
  refine wp_mono (wp_tryGet (P := Proper) h fun _ ha => absurd ha List.not_mem_nil)
    (fun opt y hy => ?_) (fun _ _ h' => .inl h'.2)
  cases opt with
  | none => exact .inl (hy.safe fun _ ha => absurd ha List.not_mem_nil)
  | some w => exact hy

/-- There is no buffer in a pool without buffers. -/
theorem wp_initialBuffer_idle {Q : BufferWriter → Exchange (ArconEvent A) → Prop} (h : Idle x) :
    wp initialBuffer Q (fun _ y => Sound y) x := by
  unfold initialBuffer tryGet
  rw [wp_bind, wp_bind]
  refine wp_turn (I := Idle) (fun y c hy => ?_) h (fun _ s y hy _ _ => ?_)
    (fun y hy => .inr ⟨hy.buffers, hy.writing, hy.readings, hy.ignored⟩)
  · have hsame : y.receive c = y := by
      cases c <;> simp [receive, hy.readings]
    rw [hsame]
    exact hy
  · rw [wp_bind, wp_get]
    have hnone : ({ y with schedule := s } : Exchange (ArconEvent A)).pool.tryGet = none := by
      unfold BufferPool.tryGet
      rw [hy.buffers]
      rfl
    rw [hnone]
    exact .inr ⟨hy.buffers, hy.writing, hy.readings, hy.ignored⟩

/-- The pool and the one buffer that most strategies start with. -/
theorem wp_initial (info : PoolInfo) (msg : String) {schedule : List Turn}
    (ht : told → ∀ tell, .sender tell ∈ schedule → tell = .ok ()) :
    wp (do initialPool (A := A) info msg; initialBuffer)
      (fun w y => 0 < info.bufferSize ∧ At told info.bufferSize y [(w, [])] [])
      (fun _ y => Sound y) (start schedule) := by
  rw [wp_bind]
  rcases Nat.eq_zero_or_pos info.capacity with hc | hc
  · unfold initialPool
    cases h : (BufferPool.new info.capacity info.bufferSize :
        Option (BufferPool (ArconEvent A))) with
    | none => exact .inr (idle_start schedule)
    | some pool =>
      refine wp_initialBuffer_idle ⟨?_, rfl, rfl, rfl⟩
      show pool.buffers = []
      rw [(BufferPool.new_eq h).2, hc]
      rfl
  · refine wp_mono (wp_initialPool info msg ht hc) (fun _ y hy => ?_) (fun _ _ h' => h')
    exact wp_mono (wp_initialBuffer hy.2) (fun w z hz => ⟨hy.1, hz⟩) (fun _ _ h' => h')

/-- The buffers of `KeyBy`. -/
theorem wp_initialBuffers (channels : List Channel) :
    ∀ {x : Exchange (ArconEvent A)} {ws : List (BufferWriter × List (ArconEvent A))},
      At told cap x ws [] →
      wp (channels.mapM fun channel => do pure (channel, ← initialBuffer))
        (fun bufferMap y => bufferMap.length = channels.length ∧
          At told cap y (bufferMap.map (fun e => (e.2, [])) ++ ws) []) (fun _ y => Sound y) x := by
  induction channels with
  | nil => exact fun h => ⟨rfl, h⟩
  | cons channel channels ih =>
    intro x ws h
    rw [List.mapM_cons, wp_bind, wp_bind]
    refine wp_mono (wp_initialBuffer h) (fun w y hy => ?_) (fun _ _ h' => h')
    rw [wp_pure, wp_bind]
    refine wp_mono (ih hy) (fun bufferMap z hz => ⟨congrArg (· + 1) hz.1, ?_⟩) (fun _ _ h' => h')
    exact hz.2.perm List.perm_middle

/-! ## All strategies -/

/-- The channels of a strategy. -/
def StrategyConf.channels : StrategyConf A → List Channel
  | .forward channel => [channel]
  | .broadcast channels => channels
  | .keyBy _ channels _ _ => channels
  | .roundRobin channels => channels

/-- The iteration of the buffer map meets every channel once. -/
def StrategyConf.Iterates : StrategyConf A → Prop
  | .keyBy _ channels order _ => order.Perm (List.range channels.length)
  | _ => True

namespace ChannelStrategy

variable {senderId : NodeID} {conf : StrategyConf A} {cs : List (StrategyCall A)}
  {s : ChannelStrategy A}

/-- A strategy after some calls. -/
def HasSent (told : Prop) (cap : Nat) (senderId : NodeID) (conf : StrategyConf A)
    (cs : List (StrategyCall A)) (s : ChannelStrategy A) (x : Exchange (ArconEvent A)) : Prop :=
  match conf, s with
  | .forward channel, .forward f => Arcon.HasSent told cap
      (fun (r : Channel × NodeID) w => (⟨w, r.1, r.2⟩ : Forward)) id (fun _ => [0])
      (fun _ => True) (channel, senderId) (cs.map StrategyCall.item) f x
  | .broadcast channels, .broadcast b => Arcon.HasSent told cap
      (fun (r : List Channel × NodeID) w => (⟨r.1, w, r.2⟩ : Broadcast)) id
      (fun r => List.range r.1.length) (fun r => r.1 ≠ []) (channels, senderId)
      (cs.map StrategyCall.item) b x
  | .keyBy maxKey channels order dataKey, .keyBy k => ∃ bufferMap,
      bufferMap.length = channels.length ∧
      KeyBy.HasSent told cap ⟨maxKey, channels.length, senderId, bufferMap, order, dataKey⟩ cs k x
  | .roundRobin channels, .roundRobin r => Arcon.HasSent told cap
      (fun (r : List Channel × NodeID × Nat) w => (⟨w, r.1, r.2.1, r.2.2⟩ : RoundRobin))
      RoundRobin.next (fun r => [r.2.2]) (fun r => r.2.2 < r.1.length) (channels, senderId, 0)
      (cs.map StrategyCall.item) r x
  | _, _ => False

/-- **A new strategy** has sent nothing. -/
theorem wp_new (info : PoolInfo) (hconf : conf.Iterates) {schedule : List Turn}
    (ht : told → ∀ tell, .sender tell ∈ schedule → tell = .ok ()) :
    wp (new senderId info conf)
      (fun s y => 0 < info.bufferSize ∧ HasSent told info.bufferSize senderId conf [] s y)
      (fun _ y => Sound y) (start schedule) := by
  cases conf with
  | forward channel =>
    unfold new Forward.new
    refine wp_bind.mpr (wp_bind.mpr ?_)
    refine wp_mono (wp_bind.mp (wp_initial info _ ht)) (fun _ y hy => ?_) (fun _ _ h' => h')
    refine wp_bind.mpr (wp_mono hy (fun w z hz => ⟨hz.1, ?_⟩) (fun _ _ h' => h'))
    exact ⟨_, w, rfl, trivial, rfl, hz.2⟩
  | broadcast channels =>
    unfold new Broadcast.new
    rw [wp_bind, wp_ite]
    refine ⟨fun _ => .inr (idle_start schedule), fun hlen => ?_⟩
    rw [wp_ite]
    refine ⟨fun _ => .inr (idle_start schedule), fun _ => wp_bind.mpr ?_⟩
    refine wp_mono (wp_bind.mp (wp_initial info _ ht)) (fun _ y hy => ?_) (fun _ _ h' => h')
    refine wp_bind.mpr (wp_mono hy (fun w z hz => ⟨hz.1, ?_⟩) (fun _ _ h' => h'))
    refine ⟨_, w, rfl, ?_, rfl, hz.2⟩
    rintro rfl
    exact hlen (Nat.zero_le 1)
  | keyBy maxKey channels order dataKey =>
    unfold new KeyBy.new
    rw [wp_bind, wp_ite]
    refine ⟨fun _ => .inr (idle_start schedule), fun hlen => wp_bind.mpr ?_⟩
    refine wp_mono (wp_initialPool info _ ht (by omega)) (fun _ y hy => ?_) (fun _ _ h' => h')
    refine wp_bind.mpr (wp_mono (wp_initialBuffers channels hy.2) (fun bufferMap z hz => ⟨hy.1, ?_⟩)
      (fun _ _ h' => h'))
    refine ⟨bufferMap, hz.1, rfl, rfl, [], ?_, fun _ ha => absurd ha List.not_mem_nil,
      fun _ _ => rfl⟩
    have hw : (bufferMap.mapIdx fun _ e => ((e.2, []) : BufferWriter × List (ArconEvent A))) =
        bufferMap.map fun e => (e.2, []) := by
      refine List.ext_getElem (by simp) fun i hi _ => ?_
      simp
    have hat := hz.2
    rw [List.append_nil, ← hw] at hat
    exact hat
  | roundRobin channels =>
    unfold new RoundRobin.new
    rw [wp_bind, wp_ite]
    refine ⟨fun _ => .inr (idle_start schedule), fun hlen => wp_bind.mpr ?_⟩
    refine wp_mono (wp_bind.mp (wp_initial info _ ht)) (fun _ y hy => ?_) (fun _ _ h' => h')
    refine wp_bind.mpr (wp_mono hy (fun w z hz => ⟨hz.1, ?_⟩) (fun _ _ h' => h'))
    exact ⟨_, w, rfl, Nat.lt_trans Nat.zero_lt_one (not_le.mp hlen), rfl, hz.2⟩

/-- **One more call.** -/
theorem wp_call (hconf : conf.Iterates) (hcap : 0 < cap)
    (h : HasSent told cap senderId conf cs s x) (c : StrategyCall A) :
    wp (s.call c) (fun s' y => HasSent told cap senderId conf (cs ++ [c]) s' y)
      (fun _ y => Safe Proper y) x := by
  have hitem : cs.map StrategyCall.item ++ [c.item] = (cs ++ [c]).map StrategyCall.item := by
    rw [List.map_append]
    rfl
  cases conf <;> cases s <;> try exact h.elim
  case forward.forward channel f =>
    have hcall := Forward.buffered.wp_call hcap h c
    rw [hitem] at hcall
    cases c <;>
    · exact wp_bind.mpr (wp_mono hcall (fun _ _ hy => hy) (fun _ _ h' => h'.2))
  case broadcast.broadcast channels b =>
    have hcall := Broadcast.buffered.wp_call hcap h c
    rw [hitem] at hcall
    cases c <;>
    · exact wp_bind.mpr (wp_mono hcall (fun _ _ hy => hy) (fun _ _ h' => h'.2))
  case keyBy.keyBy maxKey channels order dataKey k =>
    obtain ⟨bufferMap, hlen, h⟩ := h
    have horder : order.Perm (List.range bufferMap.length) := hlen ▸ hconf
    have hcall := KeyBy.wp_call hcap horder h c
    cases c <;>
    · exact wp_bind.mpr (wp_mono hcall (fun k' y hy => ⟨bufferMap, hlen, hy⟩) (fun _ _ h' => h'))
  case roundRobin.roundRobin channels r =>
    have hcall := RoundRobin.buffered.wp_call hcap h c
    rw [hitem] at hcall
    cases c <;>
    · exact wp_bind.mpr (wp_mono hcall (fun _ _ hy => hy) (fun _ _ h' => h'.2))

/-- Calls in a row. -/
theorem wp_calls (hconf : conf.Iterates) (hcap : 0 < cap)
    (h : HasSent told cap senderId conf cs s x) (cs' : List (StrategyCall A)) :
    wp (s.calls cs') (fun s' y => HasSent told cap senderId conf (cs ++ cs') s' y)
      (fun _ y => Safe Proper y) x :=
  wp_foldlM (J := fun done s' y => HasSent told cap senderId conf (cs ++ done) s' y)
    (fun done c s' y hy => by
      rw [← List.append_assoc]
      exact wp_call hconf hcap hy c)
    cs' (by rwa [List.append_nil])

/-- A strategy is made and called, while its receivers do as the schedule says. -/
def run (senderId : NodeID) (info : PoolInfo) (conf : StrategyConf A) (cs : List (StrategyCall A))
    (schedule : List Turn) :
    EStateM.Result Stop (Exchange (ArconEvent A)) (ChannelStrategy A) :=
  (do (← new senderId info conf).calls cs) (start schedule)

theorem wp_run (told : Prop) (senderId : NodeID) (info : PoolInfo) (hconf : conf.Iterates)
    {schedule : List Turn}
    (ht : told → ∀ tell, .sender tell ∈ schedule → tell = .ok ()) (cs : List (StrategyCall A)) :
    wp (do (← new senderId info conf).calls cs)
      (fun s y => 0 < info.bufferSize ∧ HasSent told info.bufferSize senderId conf cs s y)
      (fun _ y => Sound y) (start schedule) := by
  refine wp_bind.mpr (wp_mono (wp_new info hconf ht) (fun s y hy => ?_) (fun _ _ h' => h'))
  exact wp_mono (wp_calls hconf hy.1 hy.2 cs) (fun _ _ h' => ⟨hy.1, h'⟩) (fun _ _ h' => .inl h')

end ChannelStrategy

end Arcon

import Arcon.Channel.Guarantee

/-!
# Control events on all channels

Watermarks, epochs and deaths are for all receivers. `Broadcast` and `KeyBy` give them to every
channel; `RoundRobin` sends them like any other event, to the channel whose turn it is, so that the
other channels never see them.

* `control_reaches_all`: the strategies with several channels for which a run has every control
  event on every channel, in its place.
* `watermark_on_one_channel`: a run of `RoundRobin` that has not.
-/

namespace Arcon

open Exec ExchangeM Exchange

variable {A : Type}

/-- The events that arrived on a channel. -/
def Exchange.received {T : Type} (x : Exchange T) (i : Nat) : List (Option T) :=
  (x.readings.filter fun r => r.channel = some i ∧ r.arrived = true).flatMap Reading.written

/-- The control events among some. -/
def controls (l : List (Option (ArconEvent A))) : List (Option (ArconEvent A)) :=
  l.filter fun e => e.any ArconEvent.isControl

/-- Every send succeeds. -/
def Delivers (schedule : List Turn) : Prop := ∀ tell, .sender tell ∈ schedule → tell = .ok ()

section Received

variable {cap : Nat} {x : Exchange (ArconEvent A)} {ws : List (BufferWriter × List (ArconEvent A))}
  {m : List (Nat × List (Option (ArconEvent A)))}

/-- Where sends succeed, what arrived is what was sent. -/
theorem Exchange.At.received (h : At True cap x ws m) (i : Nat) :
    x.received i = (sentOn x.messages i).flatten := by
  have hall := h.arrived trivial
  unfold Exchange.received Exchange.messages sentOn
  generalize x.readings = rs at hall
  induction rs with
  | nil => rfl
  | cons r rs ih =>
    have ih := ih fun r' hr' => hall r' (List.mem_cons_of_mem _ hr')
    cases hc : r.channel with
    | none => simpa [hc] using ih
    | some c =>
      have harr : r.arrived = true := hall r List.mem_cons_self (by rw [hc]; rfl)
      by_cases hci : c = i
      · simpa [hc, hci, harr] using ih
      · simpa [hc, hci] using ih

end Received

theorem controls_append (l l' : List (Option (ArconEvent A))) :
    controls (l ++ l') = controls l ++ controls l' := List.filter_append ..

theorem controls_map_some (l : List (ArconEvent A)) :
    controls (l.map some) = (l.filter ArconEvent.isControl).map some := by
  unfold controls
  rw [List.filter_map]
  rfl

/-- No message counts for two channels. -/
theorem length_controls_le (m : List (Nat × List (Option (ArconEvent A)))) {i j : Nat}
    (hij : i ≠ j) :
    (controls (sentOn m i).flatten).length + (controls (sentOn m j).flatten).length ≤
      (controls (m.map Prod.snd).flatten).length := by
  induction m with
  | nil => exact le_rfl
  | cons a m ih =>
    have hsplit : ∀ k, (sentOn (a :: m) k).flatten =
        (if a.1 = k then a.2 else []) ++ (sentOn m k).flatten := by
      intro k
      by_cases hk : a.1 = k <;> simp [sentOn, hk]
    have hall : ((a :: m).map Prod.snd).flatten = a.2 ++ (m.map Prod.snd).flatten := rfl
    rw [hsplit i, hsplit j, hall, controls_append, controls_append, controls_append,
      List.length_append, List.length_append, List.length_append]
    by_cases hi : a.1 = i
    · rw [if_pos hi, if_neg (fun hj => hij (hi.symm.trans hj))]
      show _ + (0 + _) ≤ _
      omega
    · rw [if_neg hi]
      show 0 + _ + _ ≤ _
      split
      · omega
      · show 0 + _ + (0 + _) ≤ _
        omega

namespace ChannelStrategy

variable {cap : Nat} {senderId : NodeID} {info : PoolInfo} {conf : StrategyConf A}
  {cs : List (StrategyCall A)} {schedule : List Turn} {s : ChannelStrategy A}
  {x : Exchange (ArconEvent A)} {i : Nat}

/-- **Every control event is on every channel once, in its place**: after what was sent on the
channel or waited for it before, and before all that follows. -/
def ControlReachesAll (senderId : NodeID) (info : PoolInfo) (conf : StrategyConf A)
    (cs : List (StrategyCall A)) (schedule : List Turn) (x : Exchange (ArconEvent A)) : Prop :=
  ∀ i < conf.channels.length,
    controls (x.received i) = controls ((added cs).map some) ∧
    ∀ cs₁ ev cs₂ s₀ x₀ s₁ x₁, cs = cs₁ ++ .add ev :: cs₂ → ev.isControl = true →
      run senderId info conf cs₁ schedule = .ok s₀ x₀ →
      run senderId info conf (cs₁ ++ [.add ev]) schedule = .ok s₁ x₁ →
      x₁.received i = x₀.received i ++ s₀.waiting x₀ i ++ [some ev] ∧
        x₁.received i <+: x.received i

/-- The routing is the same in the whole run. -/
theorem HasSent.routes_eq {told : Prop} {cs' : List (StrategyCall A)} {s' : ChannelStrategy A}
    {x' : Exchange (ArconEvent A)} (h : HasSent told cap senderId conf cs s x)
    (h' : HasSent told cap senderId conf cs' s' x') (i : Nat) : s.routes i = s'.routes i := by
  cases conf <;> cases s <;> (try exact h.elim) <;> cases s' <;> try exact h'.elim
  case keyBy.keyBy.keyBy maxKey channels order dataKey k k' =>
    obtain ⟨bufferMap, -, h⟩ := h
    obtain ⟨bufferMap', -, h'⟩ := h'
    show k.routes i = k'.routes i
    rw [h.same, h'.same]
    rfl
  all_goals rfl

theorem HasSent.numChannels {told : Prop} (h : HasSent told cap senderId conf cs s x) :
    s.numChannels = conf.channels.length := by
  cases conf <;> cases s <;> try exact h.elim
  case forward.forward => rfl
  case broadcast.broadcast channels b =>
    obtain ⟨r', w, rfl, -, hr', -⟩ := h
    rw [Function.iterate_id] at hr'
    subst hr'
    rfl
  case keyBy.keyBy maxKey channels order dataKey k =>
    obtain ⟨bufferMap, hlen, h⟩ := h
    exact h.length.trans hlen
  case roundRobin.roundRobin channels r =>
    obtain ⟨r', w, rfl, -, hr', -⟩ := h
    show r'.1.length = channels.length
    rw [hr', next_iterate]

theorem routes_control (s : ChannelStrategy A) (i : Nat) {ev : ArconEvent A}
    (hev : ev.isControl = true) : s.routes i ev = true := by
  cases s with
  | keyBy k => cases ev <;> first | rfl | cases hev
  | _ => rfl

theorem HasSent.received {told : Prop} (ht : told) (h : HasSent told cap senderId conf cs s x)
    (i : Nat) : x.received i = (sentOn x.messages i).flatten := by
  obtain ⟨ws, m, hat, -, -⟩ := h.at_
  have htold : told = True := eq_true ht
  subst htold
  exact hat.received i

/-- The control events of a channel, for the strategies that replicate them. -/
theorem HasSent.controls_received (h : HasSent True cap senderId conf cs s x)
    (hs : ∀ r, s ≠ .roundRobin r) (hi : i < s.numChannels) :
    controls (x.received i) = controls ((added cs).map some) := by
  obtain ⟨hsent, hwait⟩ := h.channel hs hi
  have hcalm : controls (s.waiting x i) = [] := by
    rw [hwait, controls_map_some, List.map_eq_nil_iff, List.filter_eq_nil_iff]
    intro ev hev
    rw [Batching.run_calm _ _ _ ev hev]
    exact Bool.false_ne_true
  have hflat := congrArg controls (h.flatten hs hi)
  rw [controls_append, hcalm, List.append_nil, controls_map_some, List.filter_filter] at hflat
  rw [h.received trivial, hflat, controls_map_some]
  congr 1
  refine List.filter_congr fun ev _ => ?_
  cases hev : ev.isControl with
  | true => rw [routes_control s i hev]; rfl
  | false => rfl

theorem feed_append (p : ArconEvent A → Bool) (cs cs' : List (StrategyCall A)) :
    feed p (cs ++ cs') = feed p cs ++ feed p cs' := by
  unfold feed
  rw [List.map_append, List.filter_append]

/-- A control event comes right after what was sent or waited before it, and stays there. -/
theorem HasSent.control_placed {cs₁ cs₂ : List (StrategyCall A)} {ev : ArconEvent A}
    {s₀ s₁ : ChannelStrategy A} {x₀ x₁ : Exchange (ArconEvent A)}
    (h₀ : HasSent True cap senderId conf cs₁ s₀ x₀)
    (h₁ : HasSent True cap senderId conf (cs₁ ++ [.add ev]) s₁ x₁)
    (h : HasSent True cap senderId conf (cs₁ ++ .add ev :: cs₂) s x) (hev : ev.isControl = true)
    (hs : ∀ channels, conf ≠ .roundRobin channels) (hi : i < conf.channels.length) :
    x₁.received i = x₀.received i ++ s₀.waiting x₀ i ++ [some ev] ∧
      x₁.received i <+: x.received i := by
  have hkind : ∀ {cs s x}, HasSent True cap senderId conf cs s x → ∀ r, s ≠ .roundRobin r := by
    rintro cs s x h r rfl
    cases conf with
    | roundRobin channels => exact hs channels rfl
    | _ => exact h.elim
  have hsent₁ := (h₁.channel (hkind h₁) (h₁.numChannels ▸ hi)).1
  have hsent := (h.channel (hkind h) (h.numChannels ▸ hi)).1
  have hflat := h₀.flatten (hkind h₀) (h₀.numChannels ▸ hi)
  rw [h₁.received trivial, h.received trivial, h₀.received trivial, hsent₁, hsent, hflat,
    h₁.routes_eq h₀ i, h.routes_eq h₀ i, ← List.map_flatten, ← List.map_flatten]
  refine ⟨?_, ?_⟩
  · rw [feed_add, if_pos (routes_control s₀ i hev), (Batching.run_urgent hev _).2,
      reduceOption_feed, List.map_append]
    rfl
  · have hcs : cs₁ ++ .add ev :: cs₂ = cs₁ ++ [.add ev] ++ cs₂ := by
      rw [List.append_assoc]
      rfl
    rw [hcs, feed_append _ (cs₁ ++ [StrategyCall.add ev]) cs₂]
    obtain ⟨bs, hbs⟩ := Batching.run_prefix_append cap ArconEvent.isControl
      (feed (s₀.routes i) (cs₁ ++ [.add ev])) (feed (s₀.routes i) cs₂)
    rw [← hbs, List.flatten_append, List.map_append]
    exact ⟨_, rfl⟩

/-- Round robin has no more control events on two channels together than were added. -/
theorem HasSent.controls_roundRobin {r : RoundRobin} {j : Nat} (hij : i ≠ j)
    (h : HasSent True cap senderId conf cs (.roundRobin r) x) :
    (controls (x.received i)).length + (controls (x.received j)).length ≤
      (controls ((added cs).map some)).length := by
  rw [h.received trivial, h.received trivial]
  refine (length_controls_le x.messages hij).trans ?_
  rw [← h.flatten_roundRobin, controls_append, List.length_append]
  exact Nat.le_add_right _ _

/-- **Control events reach every channel**, but for `RoundRobin`, where they never do. -/
theorem control_reaches_all (hconf : conf.Iterates) (hmany : 2 ≤ conf.channels.length)
    (hd : Delivers schedule) (hrun : run senderId info conf cs schedule = .ok s x) :
    ControlReachesAll senderId info conf cs schedule x ↔
      (∀ channels, conf ≠ .roundRobin channels) ∨ ∀ ev ∈ added cs, ev.isControl = false := by
  have hsent : ∀ {cs s x}, run senderId info conf cs schedule = .ok s x →
      HasSent True info.bufferSize senderId conf cs s x :=
    fun h => run_hasSent True hconf (fun _ => hd) h
  have h := hsent hrun
  by_cases hs : ∀ channels, conf ≠ .roundRobin channels
  · refine ⟨fun _ => .inl hs, fun _ i hi => ⟨?_, ?_⟩⟩
    · refine h.controls_received (fun r hr => ?_) (h.numChannels ▸ hi)
      subst hr
      cases conf with
      | roundRobin channels => exact hs channels rfl
      | _ => exact h.elim
    · rintro cs₁ ev cs₂ s₀ x₀ s₁ x₁ rfl hev hrun₀ hrun₁
      exact (hsent hrun₀).control_placed (hsent hrun₁) h hev hs hi
  · obtain ⟨channels, rfl⟩ := not_forall_not.mp hs
    cases s with
    | roundRobin r =>
      refine ⟨fun hall => .inr fun ev hev => ?_, fun hnone => ?_⟩
      · -- channels 0 and 1 would have every control event each
        have hle := h.controls_roundRobin Nat.zero_ne_one
        rw [(hall 0 (by omega)).1, (hall 1 hmany).1] at hle
        have hzero : (controls ((added cs).map some)).length = 0 := by omega
        have hnil := List.eq_nil_of_length_eq_zero hzero
        have := List.filter_eq_nil_iff.mp hnil (some ev) (List.mem_map_of_mem hev)
        simpa using this
      · have hnone : ∀ ev ∈ added cs, ev.isControl = false :=
          hnone.resolve_left fun hne => hne channels rfl
        have hnil : controls ((added cs).map some) = [] := by
          rw [controls_map_some, List.map_eq_nil_iff, List.filter_eq_nil_iff]
          intro ev hev
          rw [hnone ev hev]
          exact Bool.false_ne_true
        refine fun i _ => ⟨?_, ?_⟩
        · have hle := h.controls_roundRobin (Nat.succ_ne_self i).symm
          rw [hnil] at hle ⊢
          exact List.eq_nil_of_length_eq_zero
            (Nat.eq_zero_of_add_eq_zero_right (Nat.le_zero.mp hle))
        · rintro cs₁ ev cs₂ s₀ x₀ s₁ x₁ rfl hev - -
          have hmem : ev ∈ added (cs₁ ++ .add ev :: cs₂) := by
            unfold added
            rw [List.filterMap_append]
            exact List.mem_append_right _ List.mem_cons_self
          rw [hnone ev hmem] at hev
          cases hev
    | _ => exact h.elim

theorem delivers_undisturbed (n : Nat) : Delivers (undisturbed n) := by
  intro tell h
  have := List.eq_of_mem_replicate h
  cases this
  rfl

/-- An element and a watermark by parity. -/
theorem control_reaches_all_byParity : ∃ s x,
    run 7 smallPool byParity [.add (.element ⟨1, some 1⟩), .add (.watermark 1)] (undisturbed 20) =
      .ok s x ∧
    ControlReachesAll 7 smallPool byParity [.add (.element ⟨1, some 1⟩), .add (.watermark 1)]
      (undisturbed 20) x := by
  obtain ⟨s, x, hrun⟩ := exists_of_isOk (r := run 7 smallPool byParity
    [.add (.element ⟨1, some 1⟩), .add (.watermark 1)] (undisturbed 20)) (by decide +kernel)
  exact ⟨s, x, hrun, (control_reaches_all byParity_iterates (by decide) (delivers_undisturbed 20)
    hrun).mpr (.inl fun _ => nofun)⟩

/-- **The watermark on one channel only**: the second channel of a round robin never sees it. -/
theorem watermark_on_one_channel :
    isOk (run 7 smallPool (.roundRobin [.onLocal, .onLocal] : StrategyConf Nat)
      [.add (.watermark 1)] (undisturbed 20)) = true ∧
    ¬ControlReachesAll 7 smallPool (.roundRobin [.onLocal, .onLocal] : StrategyConf Nat)
      [.add (.watermark 1)] (undisturbed 20)
      (final (run 7 smallPool (.roundRobin [.onLocal, .onLocal])
        [.add (.watermark 1)] (undisturbed 20))) := by
  refine ⟨by decide +kernel, fun h => ?_⟩
  have hnone := (h 1 (by decide)).1
  revert hnone
  decide +kernel

end ChannelStrategy

end Arcon

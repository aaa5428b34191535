import Arcon.Channel.Control
import Arcon.Channel.KeySpace

/-!
# What arrives of a node's events

A node hands its events to a strategy, which sends them on in messages, while its receivers read.
Sends may fail, messages may not have been sent yet, and a strategy may send an event elsewhere.
What arrives on one channel is in the order in which it was handed over all the same.

* **`Arrives.sublist`**: through any strategy.
* **`Forwards.isPrefix`**: through a `Forward` whose sends succeed, nothing is missing in between.
* **`Deals.isPrefix`**: through a `KeyBy` whose sends succeed, nothing of its share is missing.
-/

namespace Arcon

open Exec Exchange

variable {A : Type}

/-- What has arrived was sent. -/
theorem Exchange.received_sublist (x : Exchange (ArconEvent A)) (i : Nat) :
    (x.received i).Sublist (sentOn x.messages i).flatten := by
  unfold Exchange.received Exchange.messages sentOn
  generalize x.readings = rs
  induction rs with
  | nil => exact List.Sublist.refl _
  | cons r rs ih =>
    cases hc : r.channel with
    | none => simpa [hc] using ih
    | some c =>
      by_cases hci : c = i
      · cases harr : r.arrived with
        | true => simpa [hc, hci, harr] using ih
        | false => simpa [hc, hci, harr] using ih.trans (List.sublist_append_right r.written _)
      · simpa [hc, hci] using ih

/-- The messages of one channel are some of all messages. -/
theorem sentOn_sublist {T : Type} (m : List (Nat × List (Option T))) (i : Nat) :
    (sentOn m i).flatten.Sublist (m.map Prod.snd).flatten := by
  unfold sentOn
  induction m with
  | nil => exact List.Sublist.refl _
  | cons a m ih =>
    by_cases ha : a.1 = i
    · simpa [ha] using ih
    · simpa [ha] using ih.trans (List.sublist_append_right a.2 _)

theorem filterMap_map_some {T : Type} (l : List T) : (l.map some).filterMap id = l := by
  rw [List.filterMap_map]
  exact List.filterMap_some

namespace ChannelStrategy

variable {senderId : NodeID} {info : PoolInfo} {conf : StrategyConf A} {cs : List (StrategyCall A)}
  {schedule : List Turn} {s : ChannelStrategy A} {x : Exchange (ArconEvent A)}
  {sent arrived : List (ArconEvent A)}

/-- Of the events that were handed to some strategy these have arrived on one of its channels. -/
def Arrives (senderId : NodeID) (sent arrived : List (ArconEvent A)) : Prop :=
  ∃ info conf cs schedule s x i, conf.Iterates ∧
    run senderId info conf cs schedule = .ok s x ∧ added cs = sent ∧ i < conf.channels.length ∧
      arrived.map some <+: x.received i

/-- A run that can be followed to its end. -/
theorem arrives_of_isOk (info : PoolInfo) (schedule : List Turn) (i : Nat) (hconf : conf.Iterates)
    (hi : i < conf.channels.length)
    (hok : isOk (run senderId info conf cs schedule) = true)
    (harr : arrived.map some <+: (final (run senderId info conf cs schedule)).received i) :
    Arrives senderId (added cs) arrived := by
  obtain ⟨s, x, hrun⟩ := exists_of_isOk hok
  rw [hrun] at harr
  exact ⟨info, conf, cs, schedule, s, x, i, hconf, hrun, rfl, hi, harr⟩

/-- **They are in order.** -/
theorem Arrives.sublist (h : Arrives senderId sent arrived) : arrived.Sublist sent := by
  obtain ⟨info, conf, cs, schedule, s, x, i, hconf, hrun, rfl, hi, harr⟩ := h
  have hsent := run_hasSent False hconf False.elim hrun
  have hsub : (x.received i).Sublist ((added cs).map some) := by
    refine (x.received_sublist i).trans ?_
    by_cases hs : ∀ r, s ≠ .roundRobin r
    · have hflat := hsent.flatten hs (hsent.numChannels ▸ hi)
      have hmap : (((added cs).filter (s.routes i)).map some).Sublist ((added cs).map some) :=
        List.filter_sublist.map some
      rw [← hflat] at hmap
      exact (List.sublist_append_left _ _).trans hmap
    · push Not at hs
      obtain ⟨r, rfl⟩ := hs
      rw [← hsent.flatten_roundRobin]
      exact (sentOn_sublist _ i).trans (List.sublist_append_left _ _)
  have hmap := (harr.sublist.trans hsub).filterMap id
  rwa [filterMap_map_some, filterMap_map_some] at hmap

/-- Of the events that were handed to a `Forward` whose sends succeed these have arrived. -/
def Forwards (senderId : NodeID) (sent arrived : List (ArconEvent A)) : Prop :=
  ∃ info channel cs schedule s x, Delivers schedule ∧
    run senderId info (.forward channel) cs schedule = .ok s x ∧ added cs = sent ∧
      arrived.map some <+: x.received 0

theorem forwards_of_isOk (info : PoolInfo) (channel : Channel) (schedule : List Turn)
    (hd : Delivers schedule)
    (hok : isOk (run senderId info (.forward channel) cs schedule) = true)
    (harr : arrived.map some <+:
      (final (run senderId info (.forward channel) cs schedule)).received 0) :
    Forwards senderId (added cs) arrived := by
  obtain ⟨s, x, hrun⟩ := exists_of_isOk hok
  rw [hrun] at harr
  exact ⟨info, channel, cs, schedule, s, x, hd, hrun, rfl, harr⟩

/-- What has arrived on a channel, where sends succeed. -/
theorem received_isPrefix (hconf : conf.Iterates) (hd : Delivers schedule)
    (hrun : run senderId info conf cs schedule = .ok s x) (hs : ∀ r, s ≠ .roundRobin r) {i : Nat}
    (hi : i < conf.channels.length) (harr : arrived.map some <+: x.received i) :
    arrived <+: (added cs).filter (s.routes i) := by
  have hsent := run_hasSent True hconf (fun _ => hd) hrun
  have hflat := hsent.flatten hs (hsent.numChannels ▸ hi)
  rw [← hsent.received trivial] at hflat
  have hpre : arrived.map some <+: ((added cs).filter (s.routes i)).map some := by
    rw [← hflat]
    exact harr.trans (List.prefix_append _ _)
  have hmap := hpre.filterMap id
  rwa [filterMap_map_some, filterMap_map_some] at hmap

/-- **They are the first ones.** -/
theorem Forwards.isPrefix (h : Forwards senderId sent arrived) : arrived <+: sent := by
  obtain ⟨info, channel, cs, schedule, s, x, hd, hrun, rfl, harr⟩ := h
  have hconf : (StrategyConf.forward channel : StrategyConf A).Iterates := trivial
  have hsent := run_hasSent True hconf (fun _ => hd) hrun
  cases s with
  | forward f =>
    have hpre := received_isPrefix hconf hd hrun (fun _ h => nomatch h) Nat.one_pos harr
    have hall : (added cs).filter (routes 0 (.forward f)) = added cs :=
      List.filter_eq_self.mpr fun _ _ => rfl
    rwa [hall] at hpre
  | _ => exact hsent.elim

/-! ## Shares -/

/-- A run that gets through some calls gets through the first of them. -/
theorem run_split {c : StrategyCall A} {rest : List (StrategyCall A)}
    (h : run senderId info conf (cs ++ c :: rest) schedule = .ok s x) :
    ∃ s₁ x₁ s₂ x₂, run senderId info conf cs schedule = .ok s₁ x₁ ∧
      s₁.call c x₁ = .ok s₂ x₂ := by
  unfold run at h ⊢
  obtain ⟨s₀, x₀, hnew, h⟩ := of_bind_ok h
  unfold calls at h
  rw [List.foldlM_append] at h
  obtain ⟨s₁, x₁, hcs, h⟩ := of_bind_ok h
  rw [List.foldlM_cons] at h
  obtain ⟨s₂, x₂, hc, -⟩ := of_bind_ok h
  exact ⟨s₁, x₁, s₂, x₂, (bind_ok hnew).trans hcs, hc⟩

end ChannelStrategy

namespace KeyBy

variable {k k' : KeyBy A} {x x' : Exchange (ArconEvent A)} {e : ArconElement A}

/-- The channel of a key. -/
def owner (maxKey n key : Nat) : Nat := EvenSplit.part maxKey n (key % maxKey)

/-- The events for a channel: the elements with keys of its own, and all control events. -/
def share (maxKey n : Nat) (key : A → Nat) (i : Nat) : ArconEvent A → Bool
  | .element e => owner maxKey n (key e.data) = i
  | _ => true

theorem range_ok {data : A} {index : Nat} (h : k.range data = .ok index) :
    index = owner k.maxKey k.keyRanges (k.dataKey data) := by
  unfold range checkedMul at h
  split_ifs at h
  cases h
  rfl

theorem pushInto_of_none {index : Nat} (ev : ArconEvent A) (h : k.bufferMap[index]? = none) :
    k.pushInto ev index = throw (.panic "Bad KeyBy setup") := by
  unfold pushInto
  rw [h]

/-- An element that was added has a channel. -/
theorem add_element_ok (h : k.add (.element e) x = .ok k' x') :
    k.range e.data = .ok (owner k.maxKey k.keyRanges (k.dataKey e.data)) ∧
      owner k.maxKey k.keyRanges (k.dataKey e.data) < k.bufferMap.length := by
  cases hr : k.range e.data with
  | error stop =>
    simp only [add, hr] at h
    cases h
  | ok index =>
    simp only [add, hr] at h
    rw [← range_ok hr]
    refine ⟨rfl, ?_⟩
    by_contra hge
    have hnone := pushInto_of_none (.element e) (List.getElem?_eq_none (not_lt.mp hge))
    have hthrow : (throw (.panic "Bad KeyBy setup") : ExchangeM (ArconEvent A) (KeyBy A)) x =
        .ok k' x' := hnone ▸ h
    cases hthrow

end KeyBy

namespace ChannelStrategy

variable {senderId : NodeID} {info : PoolInfo} {maxKey n : Nat} {key : A → Nat}
  {sent : List (ArconEvent A)} {arrived : Fin n → List (ArconEvent A)}

/-- Of the events that were handed to a `KeyBy` with `n` channels whose sends succeed these have
arrived on the channels. -/
def Deals (senderId : NodeID) (maxKey : Nat) (key : A → Nat) (n : Nat) (sent : List (ArconEvent A))
    (arrived : Fin n → List (ArconEvent A)) : Prop :=
  ∃ info channels order cs schedule s x, channels.length = n ∧
    order.Perm (List.range channels.length) ∧ Delivers schedule ∧
      run senderId info (.keyBy maxKey channels order key) cs schedule = .ok s x ∧
        added cs = sent ∧ ∀ i, (arrived i).map some <+: x.received i

/-- A run that can be followed to its end. -/
theorem deals_of_isOk {cs : List (StrategyCall A)} (info : PoolInfo) (channels : List Channel)
    (order : List Nat) (schedule : List Turn) (horder : order.Perm (List.range channels.length))
    (hd : Delivers schedule)
    (hok : isOk (run senderId info (.keyBy maxKey channels order key) cs schedule) = true)
    {arrived : Fin channels.length → List (ArconEvent A)}
    (harr : ∀ i, (arrived i).map some <+:
      (final (run senderId info (.keyBy maxKey channels order key) cs schedule)).received i) :
    Deals senderId maxKey key channels.length (added cs) arrived := by
  obtain ⟨s, x, hrun⟩ := exists_of_isOk hok
  rw [hrun] at harr
  exact ⟨info, channels, order, cs, schedule, s, x, rfl, horder, hd, hrun, rfl, harr⟩

/-- Every element that was added has a channel. -/
theorem owner_of_added {channels : List Channel} {order : List Nat} {schedule : List Turn}
    {cs : List (StrategyCall A)} {s : ChannelStrategy A} {x : Exchange (ArconEvent A)}
    (horder : order.Perm (List.range channels.length))
    (hrun : run senderId info (.keyBy maxKey channels order key) cs schedule = .ok s x)
    {e : ArconElement A} (he : .element e ∈ added cs) :
    KeyBy.owner maxKey channels.length (key e.data) < channels.length ∧ ∀ i,
      s.routes i (.element e) = KeyBy.share maxKey channels.length key i (.element e) := by
  obtain ⟨c, hc, hitem⟩ := List.mem_filterMap.mp he
  cases c with
  | flush => cases hitem
  | add ev =>
    cases hitem
    obtain ⟨cs₁, cs₂, rfl⟩ := List.append_of_mem hc
    obtain ⟨s₁, x₁, s₂, x₂, hrun₁, hcall⟩ := run_split hrun
    have hconf : (StrategyConf.keyBy maxKey channels order key).Iterates := horder
    have hsent := run_hasSent False hconf False.elim hrun
    have hsent₁ := run_hasSent False hconf False.elim hrun₁
    cases s₁ with
    | keyBy k =>
      have hroutes := hsent.routes_eq hsent₁
      obtain ⟨bufferMap, hlen, hholds⟩ := hsent₁
      obtain ⟨k', y, hadd, -⟩ := of_bind_ok hcall
      obtain ⟨hrange, hlt⟩ := KeyBy.add_element_ok hadd
      have hmax : k.maxKey = maxKey := by rw [hholds.same]
      have hranges : k.keyRanges = channels.length := by rw [hholds.same]
      have hkey : k.dataKey = key := by rw [hholds.same]
      rw [hmax, hranges, hkey] at hrange hlt
      refine ⟨hlt.trans_eq (hholds.length.trans hlen), fun i => ?_⟩
      rw [hroutes i]
      simp only [routes, KeyBy.routes, hrange]
      rfl
    | _ => exact hsent₁.elim

/-- Every element is for one of the channels. -/
theorem Deals.owner_lt (h : Deals senderId maxKey key n sent arrived) {e : ArconElement A}
    (he : .element e ∈ sent) : KeyBy.owner maxKey n (key e.data) < n := by
  obtain ⟨info, channels, order, cs, schedule, s, x, rfl, horder, -, hrun, rfl, -⟩ := h
  exact (owner_of_added horder hrun he).1

/-- **Each channel has the first ones of its share.** -/
theorem Deals.isPrefix (h : Deals senderId maxKey key n sent arrived) (i : Fin n) :
    arrived i <+: sent.filter (KeyBy.share maxKey n key i) := by
  obtain ⟨info, channels, order, cs, schedule, s, x, rfl, horder, hd, hrun, rfl, harr⟩ := h
  have hconf : (StrategyConf.keyBy maxKey channels order key).Iterates := horder
  have hsent := run_hasSent False hconf False.elim hrun
  have hs : ∀ r, s ≠ .roundRobin r := by
    rintro r rfl
    exact hsent.elim
  have hpre := received_isPrefix hconf hd hrun hs i.isLt (harr i)
  rwa [List.filter_congr fun ev hev => ?_] at hpre
  cases ev with
  | element e => exact (owner_of_added horder hrun hev).2 i
  | _ => exact routes_control s i rfl

end ChannelStrategy

end Arcon

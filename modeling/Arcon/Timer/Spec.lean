import Arcon.Timer.EventTimer

/-!
# What the event timer does

`InStep` says that the wheel and the stored timeouts agree. The timer is then an agenda of payloads
with their deadlines:

* `wp_scheduleAfter`, `wp_scheduleAt`: a timeout in the future is added, any other one is given
  back;
* `wp_advanceTo_takes`, `wp_advanceTo`: what is due fires, in the order of the deadlines, and the
  time is the given one;
* `wp_init`: a timer rebuilt on what the backend holds is in step with it, or it panics on a
  deadline that has passed or does not fit a `u64`.
-/

namespace Arcon

open Exec Agenda

namespace EventTimer

variable {W Id E : Type} [HashWheel W Id] [DecidableEq Id]

/-- The time. -/
def time (t : EventTimer W Id E) : Nat := t.state.currentTime.getD 0

/-- The timeouts in a map, in no order. -/
def entriesOf (m : AList fun _ : Id => EventTimerEvent E) :
    Multiset (Sigma fun _ : Id => EventTimerEvent E) := m.entries

/-- The stored timeouts. -/
def entries (t : EventTimer W Id E) : Multiset (Sigma fun _ : Id => EventTimerEvent E) :=
  entriesOf t.state.timeouts

/-- A stored timeout as an entry of an agenda. -/
def appointment (e : Sigma fun _ : Id => EventTimerEvent E) : Nat × E :=
  (e.2.deadline, e.2.payload)

/-- The stored timeouts as an agenda. -/
def agenda (t : EventTimer W Id E) : Multiset (Nat × E) := t.entries.map appointment

/-- A stored timeout with its deadline. -/
def date (e : Sigma fun _ : Id => EventTimerEvent E) :
    Nat × Sigma fun _ : Id => EventTimerEvent E := (e.2.deadline, e)

/-- The stored timeouts with their deadlines. -/
def dated (t : EventTimer W Id E) : Multiset (Nat × Sigma fun _ : Id => EventTimerEvent E) :=
  t.entries.map date

/-- The payload of a stored timeout. -/
def payloadOf (e : Sigma fun _ : Id => EventTimerEvent E) : E := e.2.payload

/-- A stored timeout as an entry of the wheel at time `now`. -/
def away (now : Nat) (e : Sigma fun _ : Id => EventTimerEvent E) : Id × Nat :=
  (e.1, e.2.deadline - now)

/-- The time is set, all timeouts are still to come, and they are what the wheel holds. -/
structure InStep (t : EventTimer W Id E) : Prop where
  started : t.state.currentTime = some t.time
  pending : ∀ e ∈ t.entries, t.time < e.2.deadline
  wheel : HashWheel.delays t.timer = t.entries.map (away t.time)

variable {t : EventTimer W Id E}

omit [HashWheel W Id] [DecidableEq Id] in
theorem agenda_eq : t.agenda = t.dated.map (Prod.map id payloadOf) := by
  unfold agenda dated
  rw [Multiset.map_map]
  rfl

omit [DecidableEq Id] in
theorem InStep.dated_lt (h : InStep t) {x : Nat × Sigma fun _ : Id => EventTimerEvent E}
    (hx : x ∈ t.dated) : t.time < x.1 := by
  obtain ⟨e, he, rfl⟩ := Multiset.mem_map.mp hx
  exact h.pending e he

section Wp

variable {α : Type} {Q : α → EventTimer W Id E → Prop} {F : Crash → EventTimer W Id E → Prop}

omit [HashWheel W Id] [DecidableEq Id] in
theorem wp_expect {msg : String} {a : α} : wp (expect msg (some a)) Q F t ↔ Q a t := Iff.rfl

omit [HashWheel W Id] [DecidableEq Id] in
theorem wp_currentTime {Q : Nat → EventTimer W Id E → Prop} {now : Nat}
    (h : t.state.currentTime = some now) : wp currentTime Q F t ↔ Q now t := by
  unfold currentTime
  rw [wp_bind, wp_get, h, wp_expect]

omit [HashWheel W Id] [DecidableEq Id] in
@[simp] theorem wp_modifyWheel {Q : Unit → EventTimer W Id E → Prop} {f : W → W} :
    wp (modifyWheel f) Q F t ↔ Q () { t with timer := f t.timer } := Iff.rfl

omit [HashWheel W Id] [DecidableEq Id] in
theorem wp_addTime {Q : Unit → EventTimer W Id E → Prop} {now ms : Nat}
    (h : t.state.currentTime = some now)
    (hover : u64Max < now + ms → F (.panic "attempt to add with overflow") t)
    (hQ : now + ms ≤ u64Max →
      Q () { t with state := { t.state with currentTime := some (now + ms) } }) :
    wp (addTime ms) Q F t := by
  unfold addTime
  rw [wp_bind, wp_currentTime h, checkedAdd, wp_bind]
  by_cases hfit : now + ms ≤ u64Max
  · rw [if_pos hfit, wp_expect]
    exact hQ hfit
  · rw [if_neg hfit]
    exact hover (not_le.mp hfit)

end Wp

/-! ## One turn of the loop -/

omit [HashWheel W Id] in
/-- Taking an entry out of the stored timeouts. -/
theorem entries_erase {m : AList fun _ : Id => EventTimerEvent E}
    {e : Sigma fun _ : Id => EventTimerEvent E} (he : e ∈ m.entries) :
    entriesOf m = e ::ₘ entriesOf (m.erase e.1) := by
  have hkey : e.1 ∈ m.entries.keys := List.mem_keys_of_mem he
  obtain ⟨b, l₁, l₂, -, hl, hker⟩ := List.exists_of_kerase hkey
  have hb : b = e.2 := by
    have h₁ : b ∈ m.lookup e.1 := AList.mem_lookup_iff.mpr (by rw [hl]; simp)
    have h₂ : e.2 ∈ m.lookup e.1 := AList.mem_lookup_iff.mpr he
    exact Option.mem_unique h₁ h₂
  have herase : (m.erase e.1).entries = l₁ ++ l₂ := hker
  rw [entriesOf, entriesOf, herase, hl, hb, Multiset.cons_coe, Multiset.coe_eq_coe]
  exact List.perm_middle

omit [HashWheel W Id] in
/-- **Collecting the expired entries** takes them out of the stored timeouts. -/
theorem wp_collect {el : List (Sigma fun _ : Id => EventTimerEvent E)}
    {R : Multiset (Sigma fun _ : Id => EventTimerEvent E)} {res : List E}
    {Q : List E → EventTimer W Id E → Prop} {F : Crash → EventTimer W Id E → Prop}
    (h : t.entries = el + R)
    (hQ : ∀ m : AList fun _ : Id => EventTimerEvent E, entriesOf m = R →
      Q (res ++ el.map fun e => e.2.payload) { t with state := { t.state with timeouts := m } }) :
    wp (collect (el.map Sigma.fst) res) Q F t := by
  induction el generalizing t res with
  | nil =>
    have hR : t.entries = R := by simpa using h
    have := hQ t.state.timeouts hR
    rw [List.map_nil, List.append_nil] at this
    exact this
  | cons e el ih =>
    have he : e ∈ t.state.timeouts.entries := by
      have : e ∈ t.entries := by rw [h]; simp
      exact this
    have hlook : t.state.timeouts.lookup e.1 = some e.2 := AList.mem_lookup_iff.mpr he
    rw [List.map_cons, collect, wp_bind]
    unfold takeEntry
    rw [wp_bind, wp_get, wp_bind, wp_set, wp_pure, hlook]
    refine ih ?_ fun m hm => ?_
    · have hcons : t.entries = e ::ₘ entriesOf (t.state.timeouts.erase e.1) := entries_erase he
      rw [h, ← Multiset.cons_coe, Multiset.cons_add] at hcons
      exact ((Multiset.cons_inj_right _).mp hcons).symm
    · have := hQ m hm
      rw [List.map_cons, ← List.singleton_append, ← List.append_assoc] at this
      exact this

omit [HashWheel W Id] [DecidableEq Id] in
/-- What is due and what is later, among the stored timeouts. -/
theorem filter_dated (p : Nat → Prop) [DecidablePred p] :
    (t.dated.filter fun x => p x.1) = (t.entries.filter fun e => p e.2.deadline).map date := by
  unfold dated
  rw [Multiset.filter_map]
  rfl

/-- What moving the timer to `ts` does to the stored timeouts: `l` are taken out. -/
structure Takes (t : EventTimer W Id E) (ts : Nat)
    (l : List (Nat × Sigma fun _ : Id => EventTimerEvent E)) (t' : EventTimer W Id E) : Prop where
  inStep : InStep t'
  time : t'.time = ts
  fires : Fires t.dated ts l
  left : t'.dated = later ts t.dated

/-- What moving the timer to `ts` does to its agenda. -/
structure Moves (t : EventTimer W Id E) (ts : Nat) (l : List (Nat × E)) (t' : EventTimer W Id E) :
    Prop where
  inStep : InStep t'
  time : t'.time = ts
  fires : Fires t.agenda ts l
  agenda : t'.agenda = later ts t.agenda

omit [DecidableEq Id] in
theorem Takes.moves {t' : EventTimer W Id E} {ts : Nat}
    {l : List (Nat × Sigma fun _ : Id => EventTimerEvent E)} (h : Takes t ts l t') :
    Moves t ts (l.map (Prod.map id payloadOf)) t' := by
  refine ⟨h.inStep, h.time, ?_, ?_⟩
  · rw [agenda_eq]
    exact h.fires.map _
  · rw [agenda_eq, agenda_eq, h.left, later_map]

omit [DecidableEq Id] in
theorem Takes.trans {t' t'' : EventTimer W Id E} {ts ts' : Nat}
    {l l' : List (Nat × Sigma fun _ : Id => EventTimerEvent E)} (h : Takes t ts l t')
    (h' : Takes t' ts' l' t'') (hle : ts ≤ ts') : Takes t ts' (l ++ l') t'' := by
  refine ⟨h'.inStep, h'.time, h.fires.append hle ?_, ?_⟩
  · rw [← h.left]
    exact h'.fires
  · rw [h'.left, h.left, later_later hle]

omit [DecidableEq Id] in
/-- **Skipping** to a time before which nothing is due. -/
theorem InStep.skip (h : InStep t) {ms : Nat} {w : W}
    (hlt : ∀ e ∈ t.entries, t.time + ms < e.2.deadline)
    (hw : HashWheel.delays w = (HashWheel.delays t.timer).map (sooner ms)) :
    Takes t (t.time + ms) []
      { timer := w, state := { t.state with currentTime := some (t.time + ms) } } := by
  have hlt' : ∀ x ∈ t.dated, t.time + ms < x.1 := by
    intro x hx
    obtain ⟨e, he, rfl⟩ := Multiset.mem_map.mp hx
    exact hlt e he
  refine ⟨⟨rfl, hlt, ?_⟩, rfl, Fires.nil hlt', (later_eq_self hlt').symm⟩
  show HashWheel.delays w = t.entries.map (away (t.time + ms))
  rw [hw, h.wheel, Multiset.map_map]
  refine Multiset.map_congr rfl fun e _ => ?_
  simp only [Function.comp_apply, sooner, away]
  rw [Nat.sub_sub]

omit [DecidableEq Id] in
/-- The entries that expire with the next tick are those of the next time. -/
theorem InStep.expired (h : InStep t) : ((HashWheel.tick t.timer).1 : Multiset Id) =
    (t.entries.filter fun e => e.2.deadline ≤ t.time + 1).map Sigma.fst := by
  rw [HashWheel.tick_expired, h.wheel, Multiset.filter_map, Multiset.map_map]
  refine congrArg _ (Multiset.filter_congr fun e he => ?_)
  have := h.pending e he
  simp only [Function.comp_apply, away]
  omega

omit [DecidableEq Id] in
/-- **One tick**, once the expired entries `el` are taken out. -/
theorem InStep.tick (h : InStep t) {el : List (Sigma fun _ : Id => EventTimerEvent E)}
    {m : AList fun _ : Id => EventTimerEvent E}
    (hel : (el : Multiset _) = t.entries.filter fun e => e.2.deadline ≤ t.time + 1)
    (hm : entriesOf m = t.entries.filter fun e => ¬e.2.deadline ≤ t.time + 1) :
    Takes t (t.time + 1) (el.map date)
      { timer := (HashWheel.tick t.timer).2, state := ⟨some (t.time + 1), m⟩ } := by
  have hdl : ∀ e ∈ el, e.2.deadline = t.time + 1 := by
    intro e he
    have hmem : e ∈ (el : Multiset _) := he
    rw [hel, Multiset.mem_filter] at hmem
    have := h.pending e hmem.1
    omega
  refine ⟨⟨rfl, ?_, ?_⟩, rfl, ⟨?_, ?_⟩, ?_⟩
  · intro e he
    have hmem : e ∈ entriesOf m := he
    rw [hm, Multiset.mem_filter] at hmem
    exact not_le.mp hmem.2
  · show HashWheel.delays (HashWheel.tick t.timer).2 = (entriesOf m).map (away (t.time + 1))
    rw [HashWheel.tick_delays, h.wheel, Multiset.filter_map, Multiset.map_map, hm]
    have hfilter : (t.entries.filter ((fun e => e.2 ≠ 1) ∘ away t.time)) =
        t.entries.filter fun e => ¬e.2.deadline ≤ t.time + 1 := by
      refine Multiset.filter_congr fun e he => ?_
      have := h.pending e he
      simp only [Function.comp_apply, away]
      omega
    rw [hfilter]
    refine Multiset.map_congr rfl fun e _ => ?_
    simp only [Function.comp_apply, sooner, away]
    rw [Nat.sub_sub]
  · rw [List.pairwise_map]
    refine List.pairwise_of_forall_mem_list fun a ha b hb => ?_
    show a.2.deadline ≤ b.2.deadline
    rw [hdl a ha, hdl b hb]
  · rw [← Multiset.map_coe, hel]
    exact (filter_dated fun d => d ≤ t.time + 1).symm
  · show (entriesOf m).map date = _
    rw [hm]
    have hfilter : (t.entries.filter fun e => ¬e.2.deadline ≤ t.time + 1) =
        t.entries.filter fun e => t.time + 1 < e.2.deadline :=
      Multiset.filter_congr fun e _ => not_le
    rw [hfilter]
    exact (filter_dated fun d => t.time + 1 < d).symm

/-! ## Advancing -/

omit [DecidableEq Id] in
theorem InStep.stay (h : InStep t) : Takes t t.time [] t :=
  ⟨h, rfl, Fires.nil fun _ hx => h.dated_lt hx, (later_eq_self fun _ hx => h.dated_lt hx).symm⟩

omit [DecidableEq Id] in
/-- What `can_skip` allows is in front of every timeout. -/
theorem InStep.lt_deadline (h : InStep t) {ms : Nat}
    (hms : ∀ e ∈ HashWheel.delays t.timer, ms < e.2)
    {e : Sigma fun _ : Id => EventTimerEvent E} (he : e ∈ t.entries) :
    t.time + ms < e.2.deadline := by
  have := hms (away t.time e) (by rw [h.wheel]; exact Multiset.mem_map_of_mem _ he)
  simp only [away] at this
  omega

/-- **`tick_and_collect`** moves the timer on by the time it is given, or panics if this takes it
past the last time there is. -/
theorem wp_tickAndCollect {Q : List E → EventTimer W Id E → Prop}
    {F : Crash → EventTimer W Id E → Prop} {bound timeLeft : Nat} {res : List E} (h : InStep t)
    (hle : timeLeft ≤ bound)
    (hover : 0 < timeLeft → u64Max < t.time + timeLeft →
      ∀ t', F (.panic "attempt to add with overflow") t')
    (hQ : (0 < timeLeft → t.time + timeLeft ≤ u64Max) → ∀ l t', Takes t (t.time + timeLeft) l t' →
      Q (res ++ l.map fun x => payloadOf x.2) t') :
    wp (tickAndCollect bound timeLeft res) Q F t := by
  induction bound generalizing timeLeft res t with
  | zero =>
    obtain rfl : timeLeft = 0 := by omega
    have := hQ (fun hpos => absurd rfl hpos.ne) [] t h.stay
    rw [List.map_nil, List.append_nil] at this
    exact this
  | succ bound ih =>
    -- where nothing fires, the result stays as it is
    have hquiet : (0 < timeLeft → t.time + timeLeft ≤ u64Max) → ∀ t',
        Takes t (t.time + timeLeft) [] t' → Q res t' := by
      intro hfit t' ht'
      have := hQ hfit [] t' ht'
      rwa [List.map_nil, List.append_nil] at this
    rw [tickAndCollect, wp_ite]
    refine ⟨?_, fun hne => ?_⟩
    · rintro rfl
      exact hquiet (fun hpos => absurd rfl hpos.ne) t h.stay
    rw [wp_bind, wp_get]
    cases hskip : HashWheel.canSkip t.timer with
    | empty =>
      have hzero := HashWheel.empty_delays _ hskip
      have hleft : ∀ e ∈ HashWheel.delays t.timer, timeLeft < e.2 := by
        rw [hzero]
        exact fun e he => absurd he (Multiset.notMem_zero e)
      simp only [wp_bind, wp_pure]
      refine wp_addTime h.started (fun hgt => hover (by omega) hgt _) fun hfit => ?_
      exact hquiet (fun _ => hfit) _ (h.skip (w := t.timer) (fun e he => h.lt_deadline hleft he)
        (by rw [hzero]; rfl))
    | millis ms =>
      have hpos := HashWheel.millis_pos _ _ hskip
      have hms := HashWheel.millis_lt _ _ hskip
      simp only [wp_ite]
      constructor
      · -- nothing is due in the time left
        intro hle
        have hleft : ∀ e ∈ HashWheel.delays t.timer, timeLeft < e.2 := fun e he =>
          lt_of_le_of_lt hle (hms e he)
        simp only [wp_bind, wp_modifyWheel, wp_pure]
        refine wp_addTime ?_ (fun hgt => hover (by omega) hgt _) fun hfit => ?_
        · exact h.started
        exact hquiet (fun _ => hfit) _ (h.skip (fun e he => h.lt_deadline hleft he)
          (HashWheel.skip_delays _ _ hleft))
      · intro hlt
        have hmove := h.skip (fun e he => h.lt_deadline hms he) (HashWheel.skip_delays _ _ hms)
        simp only [wp_bind, wp_modifyWheel]
        refine wp_addTime ?_ (fun hgt => hover (by omega) (by omega) _)
          fun _ => ih hmove.inStep (by omega) (fun _ hgt => hover (by omega) ?_) ?_
        · exact h.started
        · rw [hmove.time] at hgt
          omega
        · intro hfit l t' hl
          rw [hmove.time, show t.time + ms + (timeLeft - ms) = t.time + timeLeft by omega] at hl
          rw [hmove.time, show t.time + ms + (timeLeft - ms) = t.time + timeLeft by omega] at hfit
          exact hQ (fun _ => hfit (by omega)) l t' (hmove.trans hl (by omega))
    | none =>
      simp only [wp_bind, wp_modifyWheel]
      obtain ⟨el, hel, hids⟩ := exists_list_of_map h.expired.symm
      have hsplit : t.entries = el + t.entries.filter fun e => ¬e.2.deadline ≤ t.time + 1 := by
        rw [hel]
        exact (Multiset.filter_add_not _ _).symm
      rw [← hids]
      refine wp_collect hsplit fun m hm => ?_
      have hmove := h.tick hel hm
      refine wp_addTime ?_ (fun hgt => hover (by omega) (by omega) _)
        fun hnext => ih hmove.inStep (by omega) (fun _ hgt => hover (by omega) ?_) ?_
      · exact h.started
      · rw [hmove.time] at hgt
        omega
      · intro hfit l t' hl
        rw [hmove.time, show t.time + 1 + (timeLeft - 1) = t.time + timeLeft by omega] at hl
        rw [hmove.time, show t.time + 1 + (timeLeft - 1) = t.time + timeLeft by omega] at hfit
        have := hQ (fun _ => by omega) _ t' (hmove.trans hl (by omega))
        rw [List.map_append, ← List.append_assoc, List.map_map] at this
        exact this

theorem wp_advanceLoop {Q : List E → EventTimer W Id E → Prop}
    {F : Crash → EventTimer W Id E → Prop} {bound timeLeft : Nat} {res : List E} (h : InStep t)
    (hle : timeLeft ≤ bound)
    (hover : 0 < timeLeft → u64Max < t.time + timeLeft →
      ∀ t', F (.panic "attempt to add with overflow") t')
    (hQ : (0 < timeLeft → t.time + timeLeft ≤ u64Max) → ∀ l t', Takes t (t.time + timeLeft) l t' →
      Q (res ++ l.map fun x => payloadOf x.2) t') :
    wp (advanceLoop bound timeLeft res) Q F t := by
  induction bound generalizing timeLeft res t with
  | zero => exact wp_tickAndCollect h (le_refl _) hover hQ
  | succ bound ih =>
    rw [advanceLoop, wp_ite]
    refine ⟨fun hlt => ?_, fun _ => wp_tickAndCollect h (le_refl _) hover hQ⟩
    have hpos : 0 < u32Max := by decide
    rw [wp_bind]
    refine wp_tickAndCollect h (le_refl _) (fun _ hgt => hover (by omega) (by omega))
      fun _ l t₁ hmove => ?_
    have htime : t₁.time + (timeLeft - u32Max) = t.time + timeLeft := by
      rw [hmove.time]
      omega
    refine ih hmove.inStep (by omega) (fun _ hgt => hover (by omega) (htime ▸ hgt)) ?_
    · intro hfit l' t' hl
      rw [htime] at hl hfit
      have := hQ (fun _ => hfit (by omega)) _ t' (hmove.trans hl (by omega))
      rwa [List.map_append, ← List.append_assoc] at this

/-- **`advance_to`** takes out what is due, in the order of the deadlines. -/
theorem wp_advanceTo_takes {Q : List E → EventTimer W Id E → Prop}
    {F : Crash → EventTimer W Id E → Prop} {ts : Nat} (h : InStep t)
    (hover : t.time < ts → u64Max < ts → ∀ t', F (.panic "attempt to add with overflow") t')
    (hpast : ts < t.time → Q [] t)
    (hQ : t.time ≤ ts → (t.time < ts → ts ≤ u64Max) → ∀ l t', Takes t ts l t' →
      Q (l.map fun x => payloadOf x.2) t') :
    wp (advanceTo ts) Q F t := by
  unfold advanceTo
  rw [wp_bind, wp_currentTime h.started, wp_ite]
  refine ⟨hpast, fun hle => ?_⟩
  rw [not_lt] at hle
  refine wp_advanceLoop h (le_refl _) (fun hpos hgt => hover (by omega) (by omega))
    fun hfit l t' hl => ?_
  rw [show t.time + (ts - t.time) = ts by omega] at hl hfit
  exact hQ hle (fun hlt => hfit (by omega)) l t' hl

/-- **`advance_to`** fires what is due on the agenda. -/
theorem wp_advanceTo {Q : List E → EventTimer W Id E → Prop} {F : Crash → EventTimer W Id E → Prop}
    {ts : Nat} (h : InStep t)
    (hover : u64Max < ts → ∀ t', F (.panic "attempt to add with overflow") t')
    (hpast : ts < t.time → Q [] t)
    (hQ : t.time ≤ ts → ∀ l t', Moves t ts l t' → Q (l.map Prod.snd) t') :
    wp (advanceTo ts) Q F t := by
  refine wp_advanceTo_takes h (fun _ => hover) hpast fun hle _ l t' hl => ?_
  have := hQ hle _ t' hl.moves
  rwa [List.map_map] at this

/-! ## Scheduling -/

/-- What scheduling a timeout for `deadline` does: only the stored timeouts change, by one. -/
structure Schedules (t : EventTimer W Id E) (deadline : Nat) (entry : E)
    (t' : EventTimer W Id E) : Prop where
  inStep : InStep t'
  time : t'.time = t.time
  agenda : t'.agenda = (deadline, entry) ::ₘ t.agenda

variable [UuidSource Id]

/-- The stored state with a timeout added. -/
def withTimeout (st : TimerState Id E) (delay : Nat) (entry : E) : TimerState Id E :=
  ⟨st.currentTime, st.timeouts.insert (UuidSource.newV4 st.timeouts.keys)
    ⟨st.currentTime.getD 0, delay, entry⟩⟩

omit [HashWheel W Id] in
theorem entriesOf_withTimeout (st : TimerState Id E) (delay : Nat) (entry : E) :
    entriesOf (withTimeout st delay entry).timeouts =
      ⟨UuidSource.newV4 st.timeouts.keys, ⟨st.currentTime.getD 0, delay, entry⟩⟩ ::ₘ
        entriesOf st.timeouts := by
  have hfresh : UuidSource.newV4 st.timeouts.keys ∉ st.timeouts := UuidSource.newV4_fresh _
  unfold entriesOf withTimeout
  rw [AList.entries_insert_of_notMem hfresh]
  rfl

/-- **`schedule_after`.** -/
theorem wp_scheduleAfter {Q : Except E Unit → EventTimer W Id E → Prop}
    {F : Crash → EventTimer W Id E → Prop} {delay : Nat} {entry : E} (h : InStep t)
    (hzero : delay = 0 → Q (.error entry) t)
    (hpos : 0 < delay → ∀ t', t'.state = withTimeout t.state delay entry →
      Schedules t (t.time + delay) entry t' → Q (.ok ()) t') :
    wp (scheduleAfter delay entry) Q F t := by
  unfold scheduleAfter
  rw [wp_bind, wp_get]
  rcases Nat.eq_zero_or_pos delay with rfl | hd
  · simp only [HashWheel.insert_zero]
    exact hzero rfl
  · obtain ⟨w, hw, hdelays⟩ :=
      HashWheel.insert_pos (UuidSource.newV4 t.state.timeouts.keys) delay t.timer hd
    simp only [hw, wp_bind, wp_modifyWheel]
    rw [wp_currentTime (by exact h.started)]
    have hent : entriesOf (withTimeout t.state delay entry).timeouts = _ ::ₘ t.entries :=
      entriesOf_withTimeout t.state delay entry
    refine hpos hd ⟨w, withTimeout t.state delay entry⟩ rfl ⟨⟨h.started, ?_, ?_⟩, rfl, ?_⟩
    · intro e he
      have he : e ∈ entriesOf (withTimeout t.state delay entry).timeouts := he
      rw [hent] at he
      rcases Multiset.mem_cons.mp he with rfl | he
      · show t.time < t.time + delay
        omega
      · exact h.pending e he
    · show HashWheel.delays w = Multiset.map _ (entriesOf _)
      rw [hdelays, h.wheel, hent, Multiset.map_cons]
      congr 2
      show delay = t.time + delay - t.time
      omega
    · show Multiset.map _ (entriesOf _) = _
      rw [hent, Multiset.map_cons]
      rfl

/-- **`schedule_at`.** -/
theorem wp_scheduleAt {Q : Except E Unit → EventTimer W Id E → Prop}
    {F : Crash → EventTimer W Id E → Prop} {time : Nat} {entry : E} (h : InStep t)
    (hpast : time ≤ t.time → Q (.error entry) t)
    (hQ : t.time < time → ∀ t', t'.state = withTimeout t.state (time - t.time) entry →
      Schedules t time entry t' → Q (.ok ()) t') :
    wp (scheduleAt time entry) Q F t := by
  unfold scheduleAt
  rw [wp_bind, wp_currentTime h.started, wp_ite]
  refine ⟨hpast, fun hlt => ?_⟩
  rw [not_le] at hlt
  refine wp_scheduleAfter h (fun hz => by omega) fun _ t' hst hsch => ?_
  rw [show t.time + (time - t.time) = time by omega] at hsch
  exact hQ hlt t' hst hsch

/-! ## Rebuilding -/

/-- The deadline is to come at time `now`, and fits a `u64`. -/
def Ahead (now : Nat) (e : EventTimerEvent E) : Prop := now < e.deadline ∧ e.deadline ≤ u64Max

omit [DecidableEq Id] [UuidSource Id] in
/-- One stored timeout goes back into the wheel, if it is ahead. -/
theorem wp_replayEvent {Q : Unit → EventTimer W Id E → Prop} {F : Crash → EventTimer W Id E → Prop}
    {now : Nat} {e : Sigma fun _ : Id => EventTimerEvent E}
    (hahead : Ahead now e.2 → ∀ w, HashWheel.delays w = away now e ::ₘ HashWheel.delays t.timer →
      Q () { t with timer := w })
    (hpanic : ¬Ahead now e.2 → ∀ msg, F (.panic msg) t) :
    wp (replayEvent now e) Q F t := by
  unfold replayEvent
  have hadd : e.2.timeWhenScheduled + e.2.timeoutMillis = e.2.deadline := rfl
  by_cases hfit : e.2.deadline ≤ u64Max
  swap
  · rw [checkedAdd, hadd, if_neg hfit, wp_bind]
    exact hpanic (fun h => hfit h.2) _
  rw [checkedAdd, hadd, if_pos hfit, wp_bind, wp_expect, checkedSub, wp_bind]
  by_cases hle : now ≤ e.2.deadline
  swap
  · rw [if_neg hle]
    exact hpanic (fun h => hle h.1.le) _
  rw [if_pos hle, wp_expect, wp_bind, wp_get]
  rcases Nat.eq_zero_or_pos (e.2.deadline - now) with hzero | hpos
  · simp only [hzero, HashWheel.insert_zero]
    exact hpanic (fun h => absurd h.1 (by omega)) _
  · obtain ⟨w, hw, hdelays⟩ := HashWheel.insert_pos e.1 (e.2.deadline - now) t.timer hpos
    simp only [hw, wp_modifyWheel]
    exact hahead ⟨by omega, hfit⟩ w hdelays

omit [DecidableEq Id] [UuidSource Id] in
/-- The loop of `replay_events`. -/
theorem wp_replayLoop {now : Nat} (es : List (Sigma fun _ : Id => EventTimerEvent E)) :
    wp (forM es (replayEvent now))
      (fun _ t' => (∀ e ∈ es, Ahead now e.2) ∧ t'.state = t.state ∧
        HashWheel.delays t'.timer =
          Multiset.ofList (es.map (away now)) + HashWheel.delays t.timer)
      (fun _ _ => ∃ e ∈ es, ¬Ahead now e.2) t := by
  induction es generalizing t with
  | nil => exact ⟨by simp, rfl, by simp⟩
  | cons e es ih =>
    rw [List.forM_cons, wp_bind]
    refine wp_replayEvent (fun hahead w hw => ?_) (fun hnot _ => ⟨e, List.mem_cons_self, hnot⟩)
    refine wp_mono ih ?_ ?_
    · rintro _ t' ⟨hall, hst, hdelays⟩
      refine ⟨?_, hst, ?_⟩
      · intro e' he'
        rcases List.mem_cons.mp he' with rfl | he'
        · exact hahead
        · exact hall e' he'
      · rw [hdelays, hw, List.map_cons, ← Multiset.cons_coe, Multiset.cons_add, Multiset.add_cons]
    · rintro _ t' ⟨e', he', hnot⟩
      exact ⟨e', List.mem_cons_of_mem _ he', hnot⟩

omit [DecidableEq Id] [UuidSource Id] in
/-- **A timer rebuilt on stored timeouts** is in step with them, if they are all ahead; else it
panics. -/
theorem wp_init {st : TimerState Id E} {now : Nat} (hnow : st.currentTime.getD 0 = now) :
    wp init
      (fun _ t' => (∀ e ∈ entriesOf st.timeouts, Ahead now e.2) ∧ InStep t' ∧
        t'.state = { st with currentTime := some now })
      (fun _ _ => ∃ e ∈ entriesOf st.timeouts, ¬Ahead now e.2)
      (new st : EventTimer W Id E) := by
  unfold init replayEvents
  subst hnow
  rw [wp_bind, wp_modify, wp_bind, wp_currentTime rfl, wp_bind, wp_get]
  refine wp_mono (wp_replayLoop st.timeouts.entries) ?_ (fun _ _ h => h)
  rintro _ t' ⟨hall, hst, hdelays⟩
  have htime : t'.time = st.currentTime.getD 0 := by
    unfold time
    rw [hst]
    rfl
  have hent : t'.entries = entriesOf st.timeouts := by
    unfold entries
    rw [hst]
    rfl
  refine ⟨hall, ⟨?_, ?_, ?_⟩, hst⟩
  · rw [htime, hst]
    rfl
  · rw [hent, htime]
    exact fun e he => (hall e he).1
  · rw [hdelays, hent, htime]
    show _ + HashWheel.delays HashWheel.default = _
    rw [HashWheel.delays_default, Multiset.add_zero]
    rfl

end EventTimer

end Arcon

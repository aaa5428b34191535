import Arcon.Timer.Spec

/-!
# `advance_to` is exact

`Spec.lean` follows the loops of the timer from a state in which the wheel and the stored timeouts
agree. Here this is put together for every timer that can come up (`Reachable`), in terms of what
the backend stores:

* `Reachable.inStep`: the wheel and the stored timeouts always agree.
* `Takes.advanced`: what is taken out of the timer is taken out of the stored map, and is what is
  returned.
* `advance_to_exact`: `advance_to` returns the payloads of the timeouts that are due, each once and
  in the order of the deadlines, and removes these and no others; two calls are as good as one.
-/

namespace Arcon

open Exec Agenda

namespace EventTimer

variable {W Id E : Type} [HashWheel W Id] [DecidableEq Id] [UuidSource Id]
  {t t' : EventTimer W Id E} {ts : Nat}

/-- The timers that come up: set up on an empty backend, or again on what the backend holds, and
moved and given timeouts in any order. -/
inductive Reachable : EventTimer W Id E → Prop
  | init {t : EventTimer W Id E} (h : init (new (TimerState.new Id E)) = .ok () t) : Reachable t
  | restart {t t' : EventTimer W Id E} (h : Reachable t) (hinit : init (new t.state) = .ok () t') :
    Reachable t'
  | scheduleAfter {t t' : EventTimer W Id E} {delay : Nat} {entry : E} {r : Except E Unit}
    (h : Reachable t) (hrun : scheduleAfter delay entry t = .ok r t') : Reachable t'
  | scheduleAt {t t' : EventTimer W Id E} {time : Nat} {entry : E} {r : Except E Unit}
    (h : Reachable t) (hrun : scheduleAt time entry t = .ok r t') : Reachable t'
  | advanceTo {t t' : EventTimer W Id E} {ts : Nat} {res : List E} (h : Reachable t)
    (hrun : advanceTo ts t = .ok res t') : Reachable t'

/-- **The wheel and the stored timeouts agree.** -/
theorem Reachable.inStep (h : Reachable t) : InStep t := by
  induction h with
  | init h => exact (wp_ok (wp_init rfl) h).2.1
  | restart _ hinit _ => exact (wp_ok (wp_init rfl) hinit).2.1
  | scheduleAfter _ hrun ih =>
    exact wp_ok (Q := fun _ t => InStep t) (E := fun _ _ => True)
      (wp_scheduleAfter ih (fun _ => ih) fun _ _ _ hsch => hsch.inStep) hrun
  | scheduleAt _ hrun ih =>
    exact wp_ok (Q := fun _ t => InStep t) (E := fun _ _ => True)
      (wp_scheduleAt ih (fun _ => ih) fun _ _ _ hsch => hsch.inStep) hrun
  | advanceTo _ hrun ih =>
    exact wp_ok (Q := fun _ t => InStep t) (E := fun _ _ => True)
      (wp_advanceTo ih (fun _ _ => trivial) (fun _ => ih) fun _ _ _ hmove => hmove.inStep) hrun

/-! ## The stored map -/

omit [HashWheel W Id] [UuidSource Id] in
theorem mem_dated {x : Nat × Sigma fun _ : Id => EventTimerEvent E} :
    x ∈ t.dated ↔ x.1 = x.2.2.deadline ∧ t.state.timeouts.lookup x.2.1 = some x.2.2 := by
  have hlookup : t.state.timeouts.lookup x.2.1 = some x.2.2 ↔ x.2 ∈ t.entries :=
    AList.mem_lookup_iff
  rw [hlookup]
  unfold dated
  rw [Multiset.mem_map]
  constructor
  · rintro ⟨e, he, rfl⟩
    exact ⟨rfl, he⟩
  · rintro ⟨hx, he⟩
    exact ⟨x.2, he, Prod.ext hx.symm rfl⟩

omit [HashWheel W Id] [DecidableEq Id] [UuidSource Id] in
theorem entries_eq : t.entries = t.dated.map Prod.snd := by
  unfold dated
  rw [Multiset.map_map]
  exact (Multiset.map_id _).symm

/-- The timeout is due on the way from the timer's time to `ts`. -/
def Due (t : EventTimer W Id E) (ts : Nat) (e : EventTimerEvent E) : Prop :=
  t.time < e.deadline ∧ e.deadline ≤ ts

/-- From `t` the timer came to `t'` at time `ts`: `res` are the payloads of the timeouts that were
due, each once and in the order of the deadlines, and these are gone from the stored timeouts. -/
structure Advanced (t : EventTimer W Id E) (ts : Nat) (res : List E) (t' : EventTimer W Id E) :
    Prop where
  returned : ∃ el : List (Sigma fun _ : Id => EventTimerEvent E), res = el.map payloadOf ∧
    (el.map Sigma.fst).Nodup ∧ (el.Pairwise fun a b => a.2.deadline ≤ b.2.deadline) ∧
    ∀ id e, ⟨id, e⟩ ∈ el ↔ t.state.timeouts.lookup id = some e ∧ t.Due ts e
  timeouts : ∀ id e, t'.state.timeouts.lookup id = some e ↔
    t.state.timeouts.lookup id = some e ∧ ¬t.Due ts e
  currentTime : t'.state.currentTime = some ts

omit [UuidSource Id] in
/-- **What is taken out is what is due.** -/
theorem Takes.advanced {l : List (Nat × Sigma fun _ : Id => EventTimerEvent E)} (h : InStep t)
    (hl : Takes t ts l t') : Advanced t ts (l.map fun x => payloadOf x.2) t' := by
  have hmem : ∀ x ∈ l, x.1 = x.2.2.deadline := fun x hx =>
    (mem_dated.mp (hl.fires.mem_iff.mp hx).1).1
  have hpending : ∀ id e, t.state.timeouts.lookup id = some e → t.time < e.deadline :=
    fun id e he => h.dated_lt (x := date ⟨id, e⟩) (mem_dated.mpr ⟨rfl, he⟩)
  refine ⟨⟨l.map Prod.snd, ?_, ?_, ?_, fun id e => ?_⟩, fun id e => ?_, ?_⟩
  · rw [List.map_map]
    rfl
  · -- the ids of the stored timeouts are distinct
    have hkeys : (t.dated.map fun x => x.2.1).Nodup := by
      unfold dated entries entriesOf
      rw [Multiset.map_map, Multiset.map_coe, Multiset.coe_nodup]
      exact t.state.timeouts.nodupKeys
    have hle : Multiset.map (fun x => x.2.1) (Multiset.ofList l) ≤ t.dated.map fun x => x.2.1 := by
      rw [hl.fires.mem]
      exact Multiset.map_le_map (Multiset.filter_le _ _)
    rw [List.map_map]
    exact Multiset.coe_nodup.mp (Multiset.nodup_of_le hle hkeys)
  · refine List.pairwise_map.mpr (hl.fires.sorted.imp_of_mem fun {x y} hx hy hxy => ?_)
    rw [← hmem x hx, ← hmem y hy]
    exact hxy
  · rw [List.mem_map]
    constructor
    · rintro ⟨⟨d, x⟩, hx, rfl⟩
      obtain ⟨hdated, hle⟩ := hl.fires.mem_iff.mp hx
      obtain ⟨hd, hlookup⟩ := mem_dated.mp hdated
      rw [hd] at hle
      exact ⟨hlookup, hpending _ _ hlookup, hle⟩
    · rintro ⟨hlookup, -, hle⟩
      exact ⟨date ⟨id, e⟩, hl.fires.mem_iff.mpr ⟨mem_dated.mpr ⟨rfl, hlookup⟩, hle⟩, rfl⟩
  · have hiff : date ⟨id, e⟩ ∈ t'.dated ↔ date ⟨id, e⟩ ∈ t.dated ∧ ts < e.deadline := by
      rw [hl.left]
      exact mem_later
    rw [mem_dated, mem_dated] at hiff
    have hleft : t'.state.timeouts.lookup id = some e ↔
        t.state.timeouts.lookup id = some e ∧ ts < e.deadline := by
      simpa [date] using hiff
    rw [hleft]
    refine and_congr_right fun hlookup => ?_
    have := hpending id e hlookup
    unfold Due
    omega
  · rw [hl.inStep.started, hl.time]

/-! ## Two calls -/

/-- The payloads are those of the same timeouts, up to the order of equal deadlines. -/
def UpToTies (Id : Type) (res res' : List E) : Prop :=
  ∃ el el' : List (Sigma fun _ : Id => EventTimerEvent E), res = el.map payloadOf ∧
    res' = el'.map payloadOf ∧ el.Perm el' ∧
    (el.map fun e => e.2.deadline) = el'.map fun e => e.2.deadline

/-- The same time, the same stored timeouts, and the same delays in the wheel. -/
structure SameState (t t' : EventTimer W Id E) : Prop where
  currentTime : t.state.currentTime = t'.state.currentTime
  timeouts : ∀ id, t.state.timeouts.lookup id = t'.state.timeouts.lookup id
  delays : HashWheel.delays t.timer = HashWheel.delays t'.timer

omit [UuidSource Id] in
/-- Two ways to the same time differ in the order of equal deadlines only. -/
theorem Takes.upToTies {t₁ t₂ : EventTimer W Id E}
    {l l' : List (Nat × Sigma fun _ : Id => EventTimerEvent E)} (hl : Takes t ts l t₁)
    (hl' : Takes t ts l' t₂) :
    UpToTies Id (l.map fun x => payloadOf x.2) (l'.map fun x => payloadOf x.2) ∧
      SameState t₁ t₂ := by
  have hdeadlines : ∀ {l t'}, Takes t ts l t' →
      ((l.map Prod.snd).map fun e => e.2.deadline) = l.map Prod.fst := by
    intro l t' hl
    rw [List.map_map]
    exact List.map_congr_left fun x hx => (mem_dated.mp (hl.fires.mem_iff.mp hx).1).1.symm
  have hdated : t₁.dated = t₂.dated := hl.left.trans hl'.left.symm
  have htime : t₁.time = t₂.time := hl.time.trans hl'.time.symm
  constructor
  · refine ⟨l.map Prod.snd, l'.map Prod.snd, ?_, ?_, ?_, ?_⟩
    · rw [List.map_map]
      rfl
    · rw [List.map_map]
      rfl
    · exact (Multiset.coe_eq_coe.mp (hl.fires.mem.trans hl'.fires.mem.symm)).map _
    · rw [hdeadlines hl, hdeadlines hl', hl.fires.times_eq hl'.fires]
  · refine ⟨?_, fun id => Option.ext fun e => ?_, ?_⟩
    · rw [hl.inStep.started, hl'.inStep.started, htime]
    · have h₁ := mem_dated (t := t₁) (x := date ⟨id, e⟩)
      have h₂ := mem_dated (t := t₂) (x := date ⟨id, e⟩)
      rw [hdated] at h₁
      simpa [date] using h₁.symm.trans h₂
    · rw [hl.inStep.wheel, hl'.inStep.wheel, htime, entries_eq, entries_eq, hdated]

omit [UuidSource Id] in
/-- `advance_to` a time to come. -/
theorem InStep.advanceTo_eq (h : InStep t) (hle : t.time ≤ ts) (hts : ts ≤ u64Max) :
    ∃ l t', advanceTo ts t = .ok (l.map fun x => payloadOf x.2) t' ∧ Takes t ts l t' := by
  have hwp : wp (advanceTo ts)
      (fun res t' => ∃ l, res = l.map (fun x => payloadOf x.2) ∧ Takes t ts l t')
      (fun _ _ => False) t :=
    wp_advanceTo_takes h (fun _ hgt => absurd hts (not_le.mpr hgt))
      (fun hlt => absurd hle (not_le.mpr hlt)) fun _ _ l t' hl => ⟨l, rfl, hl⟩
  cases hrun : advanceTo ts t with
  | ok res t' =>
    obtain ⟨l, rfl, hl⟩ := wp_ok hwp hrun
    exact ⟨l, t', rfl, hl⟩
  | error f t' => exact (wp_error hwp hrun).elim

omit [UuidSource Id] in
/-- `advance_to` a time that has passed. -/
theorem InStep.advanceTo_past (h : InStep t) (hlt : ts < t.time) : advanceTo ts t = .ok [] t := by
  refine eq_ok_of_wp ?_
  unfold advanceTo
  rw [wp_bind, wp_currentTime h.started, wp_ite]
  exact ⟨fun _ => ⟨rfl, rfl⟩, fun hge => absurd hlt hge⟩

/-- The two calls come to what the second one alone comes to. -/
def Composes (t : EventTimer W Id E) (a b : Nat) : Prop :=
  ∃ res₁ t₁ res₂ t₂ res t', advanceTo a t = .ok res₁ t₁ ∧ advanceTo b t₁ = .ok res₂ t₂ ∧
    advanceTo b t = .ok res t' ∧ UpToTies Id (res₁ ++ res₂) res ∧ SameState t₂ t'

omit [UuidSource Id] in
theorem InStep.composes (h : InStep t) {a b : Nat} (hab : a ≤ b) (hb : b ≤ u64Max) :
    t.Composes a b := by
  rcases lt_or_ge a t.time with ha | ha
  · -- the first call does nothing
    have hfirst := h.advanceTo_past ha
    rcases lt_or_ge b t.time with hbt | hbt
    · exact ⟨[], t, [], t, [], t, hfirst, h.advanceTo_past hbt, h.advanceTo_past hbt,
        ⟨[], [], rfl, rfl, List.Perm.nil, rfl⟩, rfl, fun _ => rfl, rfl⟩
    · obtain ⟨l, t', hrun, hl⟩ := h.advanceTo_eq hbt hb
      exact ⟨[], t, _, t', _, t', hfirst, hrun, hrun, hl.upToTies hl⟩
  · obtain ⟨l₁, t₁, hrun₁, hl₁⟩ := h.advanceTo_eq ha (hab.trans hb)
    obtain ⟨l₂, t₂, hrun₂, hl₂⟩ := hl₁.inStep.advanceTo_eq (hl₁.time.trans_le hab) hb
    obtain ⟨l, t', hrun, hl⟩ := h.advanceTo_eq (ha.trans hab) hb
    refine ⟨_, t₁, _, t₂, _, t', hrun₁, hrun₂, hrun, ?_⟩
    rw [← List.map_append]
    exact (hl₁.trans hl₂ hab).upToTies hl

/-- **`advance_to` is exact.** For every timer that can come up and every `u64` time from its own
on, `advance_to` returns the payloads of the timeouts that are due by then, each once and in the
order of the deadlines, removes these timeouts and no others, and leaves the timer at that time; a
time that has passed changes nothing; and two calls come to what the second one alone comes to. -/
theorem advance_to_exact (h : Reachable t) :
    (∀ ts, t.time ≤ ts → ts ≤ u64Max →
      ∃ res t', advanceTo ts t = .ok res t' ∧ Advanced t ts res t') ∧
      (∀ ts, ts < t.time → advanceTo ts t = .ok [] t) ∧
      ∀ a b, a ≤ b → b ≤ u64Max → t.Composes a b := by
  refine ⟨fun ts hle hts => ?_, fun ts hlt => h.inStep.advanceTo_past hlt,
    fun a b hab hb => h.inStep.composes hab hb⟩
  obtain ⟨l, t', hrun, hl⟩ := h.inStep.advanceTo_eq hle hts
  exact ⟨_, t', hrun, hl.advanced h.inStep⟩

/-- A timer with one timeout, for 3. -/
def oneTimeout : EventTimer ListWheel Nat Bool :=
  ⟨⟨[(1, 3)]⟩, ⟨some 0, AList.singleton 1 ⟨0, 3, true⟩⟩⟩

theorem oneTimeout_reachable : Reachable oneTimeout := by
  have hrun : scheduleAt 3 true (⟨⟨[]⟩, ⟨some 0, ∅⟩⟩ : EventTimer ListWheel Nat Bool) =
      .ok (.ok ()) oneTimeout := rfl
  exact .scheduleAt (.init rfl) hrun

/-- More than a `u32` away. -/
theorem advance_to_exact_far :
    Reachable oneTimeout ∧ (∃ res t', advanceTo (2 ^ 40) oneTimeout = .ok res t' ∧
      Advanced oneTimeout (2 ^ 40) res t') ∧ oneTimeout.Composes 2 (2 ^ 40) := by
  obtain ⟨hexact, -, hcomposes⟩ := advance_to_exact oneTimeout_reachable
  exact ⟨oneTimeout_reachable, hexact _ (by decide) (by decide),
    hcomposes _ _ (by decide) (by decide)⟩

end EventTimer

end Arcon

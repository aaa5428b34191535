import Arcon.Window.Model
import Arcon.Timer.Clock

/-!
# What the window operator does to its state

`Holds` describes the state of the operator by the start of each key and the data in each window;
`Keeps` adds the timer, which has one timeout for each window that holds data. One rule for each
function of `event_time.rs`:

* `wp_insertInto`, `wp_insertAll`: an element goes into the windows of a range, and those that are
  new get a timeout; this can only panic on overflow;
* `mem_windowRange`: the range is that of the windows that cover the timestamp;
* `wp_handleElement`, `wp_handleTimeout`.
-/

namespace Arcon

open Exec

/-- The accumulator of a window that was given some data, in order. -/
def Window.gather {IN OUT Acc : Type} (w : Window IN OUT Acc) (data : List IN) : Acc :=
  data.foldl (fun acc x => w.onElement x acc) w.empty

theorem Window.gather_append {IN OUT Acc : Type} (w : Window IN OUT Acc) (data : List IN) (x : IN) :
    w.gather (data ++ [x]) = w.onElement x (w.gather data) := by
  unfold Window.gather
  rw [List.foldl_append]
  rfl

/-- An appending window keeps the data themselves. -/
theorem AppenderWindow.gather_eq {IN OUT : Type} (f : List IN → OUT) (data : List IN) :
    (AppenderWindow.new f).gather data = data := by
  induction data using List.reverseRecOn with
  | nil => rfl
  | append_singleton data x ih =>
    rw [Window.gather_append, ih]
    rfl

/-- The window of a timeout. -/
def WindowEvent.window (t : WindowEvent) : KeyAndIndex := ⟨t.key, t.index⟩

namespace EventTimeWindowAssigner

variable {IN OUT Acc W Id : Type} [HashWheel W Id] [DecidableEq Id] [UuidSource Id]
  (a : EventTimeWindowAssigner IN OUT Acc)

/-- The timestamp the operator takes for an element. -/
def tsOf (e : ArconElement IN) : Nat := e.timestamp.getD 1

/-- The end of window `index` of a key that started at `start`. -/
def endOf (start index : Nat) : Nat := start + index * a.windowSlide + a.windowLength

/-- The window covers the timestamp. -/
def Covers (start index ts : Nat) : Prop :=
  start + index * a.windowSlide ≤ ts ∧ ts < a.endOf start index

instance (start index ts : Nat) : Decidable (a.Covers start index ts) :=
  inferInstanceAs (Decidable (_ ∧ _))

/-- The timeout of a window, with its deadline, where `start` gives the starts of the keys. -/
def trigger (start : Nat → Option Nat) (k : KeyAndIndex) : Nat × WindowEvent :=
  (a.endOf ((start k.key).getD 0) k.index + a.lateArrivalTime,
    ⟨k.key, k.index, a.endOf ((start k.key).getD 0) k.index⟩)

/-- The operator's state: the starts of the keys, and the windows that hold data. -/
structure Holds (start : Nat → Option Nat) (content : KeyAndIndex → List IN)
    (st : WindowState Acc) : Prop where
  starts : ∀ key, st.windowStart.lookup key = start key
  started : ∀ k, content k ≠ [] → start k.key ≠ none
  active : ∀ k, k ∈ st.activeWindows ↔ content k ≠ []
  window : ∀ k, st.window.lookup k =
    if content k = [] then none else some (a.window.gather (content k))

/-- The operator's state and the timer, at time `now`. -/
structure Keeps (now : Nat) (start : Nat → Option Nat) (content : KeyAndIndex → List IN)
    (c : OpCtx (WindowState Acc) (EventTimer W Id WindowEvent) IN OUT WindowEvent) : Prop where
  timer : EventTimer.At now c.timer
  holds : a.Holds start content c.operator
  agenda : c.timer.agenda = c.operator.activeWindows.val.map (a.trigger start)

variable {a} {now : Nat} {start : Nat → Option Nat} {content : KeyAndIndex → List IN}
  {c : OpCtx (WindowState Acc) (EventTimer W Id WindowEvent) IN OUT WindowEvent}

/-! ## Index arithmetic -/

/-- **The windows that cover a timestamp** are those from `floor` to `ceil`. -/
theorem covers_iff {s ts i : Nat} (h : s ≤ ts) :
    a.Covers s i ts ↔ i ≤ (ts - s) / a.windowSlide ∧
      (ts - s) / a.windowSlide < i + a.windowLength / a.windowSlide := by
  obtain ⟨q, hq⟩ := a.slide_dvd
  have hdiv : a.windowLength / a.windowSlide = q := by
    rw [hq, Nat.mul_div_cancel_left _ a.slide_pos]
  rw [hdiv, Nat.le_div_iff_mul_le a.slide_pos, Nat.div_lt_iff_lt_mul a.slide_pos]
  have hmul : (i + q) * a.windowSlide = i * a.windowSlide + a.windowLength := by
    rw [hq, Nat.add_mul, Nat.mul_comm q]
  rw [hmul]
  unfold Covers endOf
  omega

theorem length_pos : 0 < a.windowLength := lt_of_lt_of_le a.slide_pos a.slide_le

/-- The first element of a key is in the first window only. -/
theorem covers_start {s i : Nat} : a.Covers s i s ↔ i = 0 := by
  have hlen := a.length_pos
  unfold Covers endOf
  constructor
  · rintro ⟨hle, -⟩
    have hzero : i * a.windowSlide = 0 := by omega
    rcases Nat.mul_eq_zero.mp hzero with h | h
    · exact h
    · exact absurd h (Nat.pos_iff_ne_zero.mp a.slide_pos)
  · rintro rfl
    omega

/-- The range that `handle_element` computes, as a list of indices. -/
theorem mem_windowRange {s ts i : Nat} (h : s ≤ ts) (floor : Nat)
    (hfloor : floor = if a.windowLength / a.windowSlide ≤ (ts - s) / a.windowSlide then
      (ts - s) / a.windowSlide - a.windowLength / a.windowSlide + 1 else 0) :
    i ∈ List.range' floor ((ts - s) / a.windowSlide + 1 - floor) ↔ a.Covers s i ts := by
  have hq : 0 < a.windowLength / a.windowSlide := Nat.div_pos a.slide_le a.slide_pos
  rw [covers_iff h, List.mem_range'_1]
  split_ifs at hfloor with hle <;> omega

/-! ## Inserting an element -/

/-- Arithmetic that fits. -/
theorem wp_run_checked {msg : String} {x n : Nat} {Q : Nat → _ → Prop} {F : Crash → _ → Prop}
    {o : Option Nat} (ho : o = if n ≤ u64Max then some n else none) (hle : n ≤ x)
    (hover : u64Max < x → F (.panic msg) c) (hQ : Q n c) :
    wp (OpM.expect msg o : OpM (WindowState Acc) WindowEvent OUT Nat).run Q F c := by
  subst ho
  refine wp_run_expect (fun m hm => ?_) (fun hm => ?_)
  · split_ifs at hm
    cases hm
    exact hQ
  · split_ifs at hm with hfit
    exact hover (by omega)

/-- **`new_window_trigger`** schedules the end of the window, with the allowed lateness. -/
theorem wp_newWindowTrigger {key index s : Nat} {Q : Except WindowEvent Unit → _ → Prop}
    {F : Crash → _ → Prop} (htimer : EventTimer.At now c.timer)
    (hstart : c.operator.windowStart.lookup key = some s)
    (hover : u64Max < a.endOf s index + a.lateArrivalTime → ∀ msg, msg ≠ unreachable →
      F (.panic msg) c)
    (hpast : a.endOf s index + a.lateArrivalTime ≤ now → ∀ t, Q (.error t) c)
    (hQ : now < a.endOf s index + a.lateArrivalTime → ∀ t',
      EventTimer.Schedules c.timer (a.endOf s index + a.lateArrivalTime)
        ⟨key, index, a.endOf s index⟩ t' → Q (.ok ()) { c with timer := t' }) :
    wp (a.newWindowTrigger key index).run Q F c := by
  unfold newWindowTrigger
  rw [wp_run_bind, wp_run_read, wp_run_bind]
  refine wp_run_expect (fun w hw => ?_) (fun hnone => by rw [hstart] at hnone; cases hnone)
  obtain rfl : s = w := by rw [hstart] at hw; exact Option.some.inj hw
  have hend : a.endOf s index = s + index * a.windowSlide + a.windowLength := rfl
  rw [wp_run_bind]
  refine wp_run_checked (x := a.endOf s index + a.lateArrivalTime) rfl (by rw [hend]; omega)
    (fun hgt => hover hgt _ (by decide)) ?_
  rw [wp_run_bind]
  refine wp_run_checked (x := a.endOf s index + a.lateArrivalTime) rfl (by rw [hend]; omega)
    (fun hgt => hover hgt _ (by decide)) ?_
  rw [wp_run_bind]
  refine wp_run_checked (x := a.endOf s index + a.lateArrivalTime) rfl (by rw [hend]; omega)
    (fun hgt => hover hgt _ (by decide)) ?_
  rw [wp_run_bind]
  refine wp_run_checked (x := a.endOf s index + a.lateArrivalTime) rfl (by rw [hend])
    (fun hgt => hover hgt _ (by decide)) ?_
  unfold OpM.schedule
  simp only [OpM.run, wp_bind, wp_timerCall]
  refine EventTimer.wp_scheduleAt htimer.inStep (fun hle => hpast ?_ _) (fun hlt t' _ hsch => ?_)
  · rw [htimer.time] at hle
    exact hle
  · rw [htimer.time] at hlt
    exact hQ hlt t' hsch

/-- The data in the windows once `data` is in one more of them. -/
def addTo (k : KeyAndIndex) (data : IN) (content : KeyAndIndex → List IN) :
    KeyAndIndex → List IN :=
  Function.update content k (content k ++ [data])

omit [HashWheel W Id] [DecidableEq Id] [UuidSource Id] in
/-- The state of the window function follows. -/
theorem Holds.onElement_lookup {st : WindowState Acc} (h : a.Holds start content st)
    (k : KeyAndIndex) (data : IN) (k' : KeyAndIndex) :
    (a.onElement k data st).window.lookup k' =
      if addTo k data content k' = [] then none
      else some (a.window.gather (addTo k data content k')) := by
  unfold onElement addTo
  by_cases hk : k' = k
  · subst hk
    have hacc : (st.window.lookup k').getD a.window.empty = a.window.gather (content k') := by
      rw [h.window]
      split_ifs with hnil
      · rw [hnil]
        rfl
      · rfl
    rw [AList.lookup_insert, Function.update_self, if_neg (by simp), hacc, Window.gather_append]
  · rw [AList.lookup_insert_ne hk, Function.update_of_ne hk]
    exact h.window k'

/-- **One turn of the loop**: the element goes into one window, which gets a timeout if it is
new. -/
theorem wp_insertInto {key index s : Nat} {data : IN} (h : a.Keeps now start content c)
    (hs : start key = some s) (hlate : now < a.endOf s index + a.lateArrivalTime) :
    wp (a.insertInto key data index).run
      (fun _ c' => a.Keeps now start (addTo ⟨key, index⟩ data content) c' ∧ c'.log = c.log)
      (fun x c' => (∃ msg, x = .panic msg ∧ msg ≠ unreachable) ∧ c'.log = c.log ∧
        u64Max < a.endOf s index + a.lateArrivalTime) c := by
  set k : KeyAndIndex := ⟨key, index⟩ with hk
  have hwin := h.holds.onElement_lookup k data
  have hstarted : ∀ k', addTo k data content k' ≠ [] → start k'.key ≠ none := by
    intro k' hne
    by_cases hkk : k' = k
    · rw [hkk, hk, hs]
      simp
    · rw [addTo, Function.update_of_ne hkk] at hne
      exact h.holds.started k' hne
  have hother : ∀ k' : KeyAndIndex, k' ≠ k → (addTo k data content k' ≠ [] ↔ content k' ≠ []) := by
    intro k' hne
    rw [addTo, Function.update_of_ne hne]
  have hself : addTo k data content k ≠ [] := by
    rw [addTo, Function.update_self]
    simp
  unfold insertInto
  rw [wp_run_bind, wp_run_update, wp_run_bind, wp_run_read]
  have hact : ∀ k', k' ∈ (a.onElement k data c.operator).activeWindows ↔ content k' ≠ [] :=
    h.holds.active
  by_cases hmem : k ∈ (a.onElement k data c.operator).activeWindows
  · rw [if_pos hmem]
    refine ⟨⟨h.timer, ⟨h.holds.starts, hstarted, fun k' => ?_, hwin⟩, h.agenda⟩, rfl⟩
    by_cases hkk : k' = k
    · rw [hkk]
      exact iff_of_true hmem hself
    · rw [hother k' hkk]
      exact hact k'
  · rw [if_neg hmem, wp_run_bind, wp_run_update, wp_run_bind]
    refine wp_newWindowTrigger (s := s) h.timer ((h.holds.starts key).trans hs)
      (fun hgt msg hmsg => ⟨⟨msg, rfl, hmsg⟩, rfl, hgt⟩) (fun hle => absurd hle (not_le.mpr hlate))
      ?_
    intro _ t' hsch
    refine ⟨⟨⟨hsch.inStep, hsch.time.trans h.timer.time⟩,
      ⟨h.holds.starts, hstarted, fun k' => ?_, hwin⟩, ?_⟩, rfl⟩
    · show k' ∈ insert k _ ↔ _
      rw [Finset.mem_insert]
      by_cases hkk : k' = k
      · rw [hkk]
        exact iff_of_true (.inl rfl) hself
      · rw [hother k' hkk, ← hact k']
        exact or_iff_right hkk
    · show t'.agenda = Multiset.map _ (Finset.val (insert k _))
      rw [hsch.agenda, Finset.insert_val_of_notMem hmem, Multiset.map_cons, trigger, hs]
      exact congrArg _ h.agenda

/-- The data in the windows once `data` is in those of `key` with an index in `indices`. -/
def addAll (key : Nat) (indices : List Nat) (data : IN) (content : KeyAndIndex → List IN) :
    KeyAndIndex → List IN := fun k =>
  if k.key = key ∧ k.index ∈ indices then content k ++ [data] else content k

omit [HashWheel W Id] [DecidableEq Id] [UuidSource Id] in
theorem addAll_cons {key i : Nat} {indices : List Nat} (hi : i ∉ indices) (data : IN)
    (content : KeyAndIndex → List IN) :
    addAll key indices data (addTo ⟨key, i⟩ data content) =
      addAll key (i :: indices) data content := by
  funext k
  unfold addAll addTo
  by_cases hk : k = ⟨key, i⟩
  · subst hk
    rw [if_neg (fun h => hi h.2), Function.update_self, if_pos ⟨rfl, List.mem_cons_self⟩]
  · rw [Function.update_of_ne hk]
    refine if_congr ?_ rfl rfl
    constructor
    · exact fun h => ⟨h.1, List.mem_cons_of_mem _ h.2⟩
    · rintro ⟨hkey, hmem⟩
      rcases List.mem_cons.mp hmem with hidx | hmem
      · refine absurd ?_ hk
        cases k
        cases hkey
        cases hidx
        rfl
      · exact ⟨hkey, hmem⟩

/-- **The loop of `handle_element`.** -/
theorem wp_insertAll {key s : Nat} {data : IN} {indices : List Nat} (hnd : indices.Nodup)
    (h : a.Keeps now start content c) (hs : start key = some s)
    (hlate : ∀ i ∈ indices, now < a.endOf s i + a.lateArrivalTime) :
    wp (forM indices (a.insertInto key data) :
        OpM (WindowState Acc) WindowEvent OUT PUnit).run
      (fun _ c' => a.Keeps now start (addAll key indices data content) c' ∧ c'.log = c.log)
      (fun x c' => (∃ msg, x = .panic msg ∧ msg ≠ unreachable) ∧ c'.log = c.log ∧
        ∃ i ∈ indices, u64Max < a.endOf s i + a.lateArrivalTime) c := by
  induction indices generalizing c content with
  | nil =>
    refine ⟨?_, rfl⟩
    have : addAll key [] data content = content := by
      funext k
      simp [addAll]
    rw [this]
    exact h
  | cons i indices ih =>
    obtain ⟨hi, hnd⟩ := List.nodup_cons.mp hnd
    rw [List.forM_cons, wp_run_bind]
    refine wp_mono (wp_insertInto h hs (hlate i List.mem_cons_self)) ?_ ?_
    · rintro _ c' ⟨h', hlog⟩
      refine wp_mono (ih hnd h' fun j hj => hlate j (List.mem_cons_of_mem _ hj)) ?_ ?_
      · rintro _ c'' ⟨h'', hlog'⟩
        rw [addAll_cons hi] at h''
        exact ⟨h'', hlog'.trans hlog⟩
      · rintro x _ ⟨hx, hlog', j, hj, hgt⟩
        exact ⟨hx, hlog'.trans hlog, j, List.mem_cons_of_mem _ hj, hgt⟩
    · rintro x _ ⟨hx, hlog, hgt⟩
      exact ⟨hx, hlog, i, List.mem_cons_self, hgt⟩

omit [DecidableEq Id] [UuidSource Id] in
/-- A key that starts has no window yet. -/
theorem Keeps.begin {key ts : Nat} (h : a.Keeps now start content c) (hnone : start key = none) :
    a.Keeps now (Function.update start key (some ts)) content
      { c with operator :=
          { c.operator with windowStart := c.operator.windowStart.insert key ts } } := by
  have hne : ∀ k, content k ≠ [] → k.key ≠ key := by
    rintro k hk rfl
    exact h.holds.started k hk hnone
  refine ⟨h.timer, ⟨fun key' => ?_, fun k hk => ?_, h.holds.active, h.holds.window⟩, ?_⟩
  · by_cases hkk : key' = key
    · rw [hkk, Function.update_self]
      exact AList.lookup_insert _
    · rw [Function.update_of_ne hkk, ← h.holds.starts key']
      exact AList.lookup_insert_ne hkk
  · rw [Function.update_of_ne (hne k hk)]
    exact h.holds.started k hk
  · show c.timer.agenda = _
    rw [h.agenda]
    refine Multiset.map_congr rfl fun k hk => ?_
    have hk : k ∈ c.operator.activeWindows := hk
    unfold trigger
    rw [Function.update_of_ne (hne k ((h.holds.active k).mp hk))]

/-- **The range of an element's windows.** -/
theorem wp_windowRange {key ts : Nat} {Q : Nat × Nat → _ → Prop} {F : Crash → _ → Prop}
    (h : a.Keeps now start content c)
    (hunder : ∀ s, start key = some s → ts < s → F (.panic "attempt to subtract with overflow") c)
    (hQ : ∀ s floor ceil c', s = (start key).getD ts → s ≤ ts →
      (∀ i, i ∈ List.range' floor (ceil + 1 - floor) ↔ a.Covers s i ts) →
      a.Keeps now (Function.update start key (some s)) content c' → c'.log = c.log →
      Q (floor, ceil) c') :
    wp (a.windowRange key ts).run Q F c := by
  unfold windowRange
  rw [wp_run_bind, wp_run_read]
  have hstart := h.holds.starts key
  cases hs : start key with
  | none =>
    rw [hs] at hstart
    rw [hstart, wp_run_bind, wp_run_update]
    refine hQ ts 0 0 _ (by rw [hs]; rfl) (le_refl _) (fun i => ?_) (h.begin hs) rfl
    rw [covers_start, List.mem_range'_1]
    omega
  | some s =>
    rw [hs] at hstart
    rw [hstart, wp_run_bind]
    have hkeep : a.Keeps now (Function.update start key (some s)) content c := by
      rw [← hs, Function.update_eq_self]
      exact h
    refine wp_run_expect (fun d hd => ?_) (fun hnone => ?_)
    · unfold checkedSub at hd
      split_ifs at hd with hle
      cases hd
      by_cases hceil : a.windowLength / a.windowSlide ≤ (ts - s) / a.windowSlide
      · rw [if_pos hceil]
        exact hQ s _ _ c (by rw [hs]; rfl) hle
          (fun i => mem_windowRange hle _ (by rw [if_pos hceil])) hkeep rfl
      · rw [if_neg hceil]
        exact hQ s _ _ c (by rw [hs]; rfl) hle
          (fun i => mem_windowRange hle _ (by rw [if_neg hceil])) hkeep rfl
    · unfold checkedSub at hnone
      split_ifs at hnone with hle
      exact hunder s hs (not_le.mp hle)

/-! ## Elements -/

/-- The element comes too late for the operator. -/
def Late (a : EventTimeWindowAssigner IN OUT Acc) (now : Nat) (e : ArconElement IN) : Prop :=
  tsOf e < now - a.lateArrivalTime

instance (a : EventTimeWindowAssigner IN OUT Acc) (now : Nat) (e : ArconElement IN) :
    Decidable (a.Late now e) := inferInstanceAs (Decidable (_ < _))

/-- The data in the windows once an element is in all those that cover it. -/
def spread (a : EventTimeWindowAssigner IN OUT Acc) (s : Nat) (e : ArconElement IN)
    (content : KeyAndIndex → List IN) : KeyAndIndex → List IN := fun k =>
  if k.key = a.getKey e ∧ a.Covers s k.index (tsOf e) then content k ++ [e.data] else content k

/-- A watermark does nothing to the operator but fire its timeouts, and is forwarded after that. -/
theorem wp_call_watermark {τ P : Type} [TimerBackend τ WindowEvent P] {w : Watermark}
    {c : OpCtx (WindowState Acc) τ IN OUT WindowEvent} {Q : Unit → _ → Prop}
    {F : Crash → _ → Prop} :
    wp (a.operator.call (.watermark w)) Q F c ↔
      wp (TimerBackend.advanceTo w)
        (fun timeouts t => wp (forM timeouts a.operator.fire)
          (fun u c' => Q u (c'.note (.forward (.watermark w)))) F
          { c.note (.handleWatermark w) with timer := t })
        (fun x t => F x { c.note (.handleWatermark w) with timer := t }) c.timer := by
  unfold Operator.call Operator.advance
  rw [wp_bind, wp_bind, wp_modify, wp_bind]
  show wp (do let timeouts ← OpCtx.timerCall (TimerBackend.advanceTo w)
              forM timeouts a.operator.fire) _ _ _ ↔ _
  rw [wp_bind, wp_timerCall]
  rfl

/-- A late element is dropped. -/
theorem wp_handleElement_late {e : ArconElement IN} {Q : Unit → _ → Prop} {F : Crash → _ → Prop}
    (htimer : EventTimer.At now c.timer) (hlate : a.Late now e) (hQ : Q () c) :
    wp (a.handleElement e).run Q F c := by
  unfold handleElement OpM.time
  rw [wp_run_bind]
  simp only [OpM.run, wp_bind, wp_timerCall]
  refine (EventTimer.wp_currentTime htimer.inStep.started).mpr ?_
  rw [htimer.time]
  simp only [wp_pure]
  rw [if_pos (by exact hlate)]
  exact hQ

/-- **An element in time** goes into all windows that cover it. -/
theorem wp_handleElement {e : ArconElement IN} (h : a.Keeps now start content c)
    (hlate : ¬a.Late now e) :
    wp (a.handleElement e).run
      (fun _ c' => (start (a.getKey e)).getD (tsOf e) ≤ tsOf e ∧ c'.log = c.log ∧
        a.Keeps now
          (Function.update start (a.getKey e) (some ((start (a.getKey e)).getD (tsOf e))))
          (a.spread ((start (a.getKey e)).getD (tsOf e)) e content) c')
      (fun x c' => (∃ msg, x = .panic msg ∧ msg ≠ unreachable) ∧ c'.log = c.log ∧
        (tsOf e < (start (a.getKey e)).getD (tsOf e) ∨
          ∃ i, a.Covers ((start (a.getKey e)).getD (tsOf e)) i (tsOf e) ∧
            u64Max < a.endOf ((start (a.getKey e)).getD (tsOf e)) i + a.lateArrivalTime)) c := by
  unfold handleElement OpM.time
  rw [wp_run_bind]
  simp only [OpM.run, wp_bind, wp_timerCall]
  refine (EventTimer.wp_currentTime h.timer.inStep.started).mpr ?_
  rw [h.timer.time]
  simp only [wp_pure]
  rw [if_neg (by exact hlate), wp_run_bind]
  refine wp_windowRange h ?_ ?_
  · intro s hs hlt
    refine ⟨⟨_, rfl, by decide⟩, rfl, .inl ?_⟩
    rw [hs]
    exact hlt
  · intro s floor ceil c' hs hle hrange h' hlog
    replace hs : s = (start (a.getKey e)).getD (tsOf e) := hs
    rw [← hs]
    refine wp_mono (wp_insertAll (s := s) List.nodup_range' h' (by rw [Function.update_self])
      fun i hi => ?_) ?_ ?_
    · -- the end of a window that covers the element is after it, and the element is in time
      have hend := ((hrange i).mp hi).2
      unfold Late at hlate
      unfold tsOf at hlate hend
      omega
    · rintro _ c'' ⟨h'', hlog'⟩
      refine ⟨hle, hlog'.trans hlog, ?_⟩
      have : addAll (a.getKey e) (List.range' floor (ceil + 1 - floor)) e.data content =
          a.spread s e content := by
        funext k
        unfold addAll spread
        refine if_congr (and_congr Iff.rfl (hrange k.index)) rfl rfl
      rw [this] at h''
      exact h''
    · rintro x _ ⟨hx, hlog', i, hi, hgt⟩
      exact ⟨hx, hlog'.trans hlog, .inr ⟨i, (hrange i).mp hi, hgt⟩⟩

/-! ## Timeouts -/

/-- While timeouts are handled: `pending` have left the timer, and their windows are still there. -/
structure Firing (a : EventTimeWindowAssigner IN OUT Acc) (now : Nat) (start : Nat → Option Nat)
    (content : KeyAndIndex → List IN) (pending : Multiset (Nat × WindowEvent))
    (c : OpCtx (WindowState Acc) (EventTimer W Id WindowEvent) IN OUT WindowEvent) : Prop where
  timer : EventTimer.At now c.timer
  holds : a.Holds start content c.operator
  agenda : c.timer.agenda + pending = c.operator.activeWindows.val.map (a.trigger start)

omit [DecidableEq Id] [UuidSource Id] in
/-- A timeout that is pending is that of a window with data. -/
theorem Firing.of_mem {pending : Multiset (Nat × WindowEvent)}
    (h : a.Firing now start content pending c) {x : Nat × WindowEvent} (hx : x ∈ pending) :
    x = a.trigger start x.2.window ∧ x.2.window ∈ c.operator.activeWindows := by
  have hmem : x ∈ c.operator.activeWindows.val.map (a.trigger start) := by
    rw [← h.agenda]
    exact Multiset.mem_add.mpr (.inr hx)
  obtain ⟨k, hk, rfl⟩ := Multiset.mem_map.mp hmem
  exact ⟨rfl, hk⟩

omit [HashWheel W Id] [DecidableEq Id] [UuidSource Id] in
/-- Closing a window. -/
theorem Holds.close {st : WindowState Acc} (h : a.Holds start content st) (k : KeyAndIndex) :
    a.Holds start (Function.update content k [])
      ⟨st.windowStart, st.activeWindows.erase k, st.window.erase k⟩ := by
  refine ⟨h.starts, fun k' hk' => ?_, fun k' => ?_, fun k' => ?_⟩
  · by_cases hkk : k' = k
    · rw [hkk, Function.update_self] at hk'
      exact absurd rfl hk'
    · rw [Function.update_of_ne hkk] at hk'
      exact h.started k' hk'
  · rw [Finset.mem_erase]
    by_cases hkk : k' = k
    · rw [hkk, Function.update_self]
      simp
    · rw [Function.update_of_ne hkk, ← h.active k']
      exact and_iff_right hkk
  · by_cases hkk : k' = k
    · rw [hkk, Function.update_self, if_pos rfl]
      exact AList.lookup_erase _ _
    · rw [Function.update_of_ne hkk, ← h.window k']
      exact AList.lookup_erase_ne hkk

/-- **`handle_timeout`** puts out the result of the window and closes it. -/
theorem wp_fire {x : Nat × WindowEvent} {rest : Multiset (Nat × WindowEvent)}
    (h : a.Firing now start content (x ::ₘ rest) c) :
    wp (a.operator.fire x.2)
      (fun _ c' => a.Firing now start (Function.update content x.2.window []) rest c' ∧
        ∃ r, a.window.result (a.window.gather (content x.2.window)) = some r ∧
          c'.log = c.log ++
            [.handleTimeout x.2, .output (.element (.withTimestamp r x.2.timestamp))])
      (fun e _ => ∃ msg, e = .panic msg ∧ msg ≠ unreachable) c := by
  obtain ⟨hx, hact⟩ := h.of_mem (Multiset.mem_cons_self x rest)
  have hne : content x.2.window ≠ [] := (h.holds.active _).mp hact
  have hacc : (c.operator.window.lookup x.2.window).getD a.window.empty =
      a.window.gather (content x.2.window) := by
    rw [h.holds.window, if_neg hne]
    rfl
  unfold Operator.fire operator handleTimeout
  rw [wp_bind, wp_modify, wp_run_bind, wp_run_read, wp_run_bind]
  refine wp_run_expect (fun r hr => ?_) (fun _ => ⟨_, rfl, by decide⟩)
  rw [wp_run_bind, wp_run_update, wp_run_bind, wp_run_update, wp_run_emit]
  refine ⟨⟨h.timer, h.holds.close _, ?_⟩, r, ?_, ?_⟩
  · show c.timer.agenda + rest = Multiset.map _ (Finset.val (c.operator.activeWindows.erase _))
    have hcons : c.operator.activeWindows.val =
        x.2.window ::ₘ (c.operator.activeWindows.erase x.2.window).val := by
      rw [Finset.erase_val]
      exact (Multiset.cons_erase hact).symm
    have hagenda := h.agenda
    rw [hcons, Multiset.map_cons, ← hx, Multiset.add_cons] at hagenda
    exact (Multiset.cons_inj_right x).mp hagenda
  · rw [← hacc]
    exact hr
  · simp [OpCtx.note]

end EventTimeWindowAssigner

end Arcon

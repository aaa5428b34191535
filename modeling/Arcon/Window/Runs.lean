import Arcon.Window.Spec

/-!
# Runs of the window operator

Along every run of `handle_element` and watermark advances, the operator's state, its timer and its
outputs are those that `Spec.lean` reads off the calls (`Tracks`).

* `Tracks.element`, `Tracks.watermark`, `Tracks.epoch`: every call keeps this, and never ends in the
  `unreachable!` of `handle_element`.
* `window_contents`: the result of a window is that of exactly the accepted data it covers.
* `window_fires_once`: a window with data is open, with one timeout, up to its deadline, and fires
  once, then.
-/

namespace Arcon

open Exec Agenda

/-- The timeouts handed to the operator, in order. -/
def fired {IN OUT TS : Type} (l : List (Act IN OUT TS)) : List TS :=
  l.filterMap fun
    | .handleTimeout t => some t
    | _ => none

@[simp] theorem fired_append {IN OUT TS : Type} (l₁ l₂ : List (Act IN OUT TS)) :
    fired (l₁ ++ l₂) = fired l₁ ++ fired l₂ := List.filterMap_append

namespace EventTimeWindowAssigner

variable {IN OUT Acc W Id : Type} [HashWheel W Id] [DecidableEq Id] [UuidSource Id]
  {a : EventTimeWindowAssigner IN OUT Acc}
  {c : OpCtx (WindowState Acc) (EventTimer W Id WindowEvent) IN OUT WindowEvent}

/-! ## All timeouts of a watermark -/

section Fire

variable {now : Nat} {start : Nat → Option Nat} {content : KeyAndIndex → List IN}

omit [DecidableEq Id] [UuidSource Id] in
/-- No timeout is pending twice. -/
theorem Firing.nodup {pending : Multiset (Nat × WindowEvent)}
    (h : a.Firing now start content pending c) : pending.Nodup := by
  have hall : (c.operator.activeWindows.val.map (a.trigger start)).Nodup :=
    Multiset.Nodup.map (Function.LeftInverse.injective (g := fun x => x.2.window) fun _ => rfl)
      c.operator.activeWindows.nodup
  rw [← h.agenda] at hall
  exact (Multiset.nodup_add.mp hall).2.1

/-- What handling a timeout puts into the log. -/
def emission (a : EventTimeWindowAssigner IN OUT Acc) (content : KeyAndIndex → List IN)
    (t : WindowEvent) : List (Act IN OUT WindowEvent) :=
  .handleTimeout t :: (a.window.result (a.window.gather (content t.window))).toList.map fun r =>
    .output (.element (.withTimestamp r t.timestamp))

/-- The data in the windows once some of them are closed. -/
def closeAll (l : List (Nat × WindowEvent)) (content : KeyAndIndex → List IN) :
    KeyAndIndex → List IN := fun k =>
  if k ∈ l.map (fun x => x.2.window) then [] else content k

/-- **All timeouts of a watermark** are handled, each on the data its window held before. -/
theorem wp_fireAll {l : List (Nat × WindowEvent)} (h : a.Firing now start content l c) :
    wp (forM (l.map Prod.snd) a.operator.fire)
      (fun _ c' => a.Keeps now start (closeAll l content) c' ∧
        c'.log = c.log ++ (l.map Prod.snd).flatMap (a.emission content) ∧
        ∀ x ∈ l, (a.window.result (a.window.gather (content x.2.window))).isSome)
      (fun e _ => ∃ msg, e = .panic msg ∧ msg ≠ unreachable) c := by
  induction l generalizing c content with
  | nil =>
    refine ⟨⟨h.timer, ?_, ?_⟩, by simp, by simp⟩
    · have : closeAll [] content = content := by
        funext k
        simp [closeAll]
      rw [this]
      exact h.holds
    · rw [← h.agenda]
      exact (Multiset.add_zero _).symm
  | cons x l ih =>
    rw [← Multiset.cons_coe] at h
    have hnd := h.nodup
    -- another timeout of the same window would be the same timeout
    have hne : ∀ y ∈ l, y.2.window ≠ x.2.window := by
      intro y hy heq
      have hx := (h.of_mem (Multiset.mem_cons_self x _)).1
      have hy' := (h.of_mem (Multiset.mem_cons_of_mem (Multiset.mem_coe.mpr hy))).1
      rw [heq, ← hx] at hy'
      rw [hy'] at hy
      exact (Multiset.nodup_cons.mp hnd).1 (Multiset.mem_coe.mpr hy)
    have hcontent : ∀ y ∈ l, Function.update content x.2.window [] y.2.window =
        content y.2.window := fun y hy => Function.update_of_ne (hne y hy) _ _
    rw [List.map_cons, List.forM_cons, wp_bind]
    refine wp_mono (wp_fire h) ?_ (fun _ _ hf => hf)
    rintro _ c' ⟨h', r, hr, hlog⟩
    refine wp_mono (ih h') ?_ (fun _ _ hf => hf)
    rintro _ c'' ⟨hk, hlog', hsome⟩
    refine ⟨?_, ?_, ?_⟩
    · have : closeAll l (Function.update content x.2.window []) = closeAll (x :: l) content := by
        funext k
        unfold closeAll
        by_cases hkx : k = x.2.window
        · rw [hkx, Function.update_self, ite_self, if_pos (by simp)]
        · rw [Function.update_of_ne hkx]
          refine if_congr ?_ rfl rfl
          rw [List.map_cons, List.mem_cons]
          exact (or_iff_right hkx).symm
      rw [this] at hk
      exact hk
    · have hrest : (l.map Prod.snd).flatMap (a.emission (Function.update content x.2.window [])) =
          (l.map Prod.snd).flatMap (a.emission content) := by
        refine List.flatMap_congr fun t ht => ?_
        obtain ⟨y, hy, rfl⟩ := List.mem_map.mp ht
        unfold emission
        rw [hcontent y hy]
      rw [hlog', hlog, hrest, List.flatMap_cons, emission, hr, List.append_assoc]
      rfl
    · intro y hy
      rcases List.mem_cons.mp hy with rfl | hy
      · rw [hr]
        rfl
      · rw [← hcontent y hy]
        exact hsome y hy

omit [HashWheel W Id] [DecidableEq Id] [UuidSource Id] in
theorem fired_emission (ts : List WindowEvent) :
    fired (ts.flatMap (a.emission content)) = ts := by
  induction ts with
  | nil => rfl
  | cons t ts ih =>
    rw [List.flatMap_cons, fired_append, ih]
    unfold emission
    cases a.window.result (a.window.gather (content t.window)) <;> rfl

omit [HashWheel W Id] [DecidableEq Id] [UuidSource Id] in
theorem callsOf_emission (ts : List WindowEvent) :
    callsOf (ts.flatMap (a.emission content)) = [] := by
  refine callsOf_eq_nil fun x hx => ?_
  obtain ⟨t, -, hx⟩ := List.mem_flatMap.mp hx
  rcases List.mem_cons.mp hx with rfl | hx
  · rfl
  · obtain ⟨r, -, rfl⟩ := List.mem_map.mp hx
    rfl

end Fire

/-! ## Runs -/

/-- The timeout `t` was handled: its window had the data `contents` gives it, the next act was to
put out their result with the end of the window as the timestamp, and the watermark of that call was
the first one to reach the deadline. -/
def FiredAt (a : EventTimeWindowAssigner IN OUT Acc) (es : List (ArconElement IN))
    (log : List (Act IN OUT WindowEvent)) (t : WindowEvent) : Prop :=
  ∃ s r pre post calls w,
    log = pre ++ .handleTimeout t :: .output (.element (.withTimestamp r t.timestamp)) :: post ∧
      a.startOf es t.key = some s ∧ t.timestamp = a.endOf s t.index ∧
      a.window.result (a.window.gather (a.contents es t.window)) = some r ∧
      callsOf pre = calls ++ [.watermark w] ∧
      clock calls < t.timestamp + a.lateArrivalTime ∧ t.timestamp + a.lateArrivalTime ≤ w

/-- What a run of the operator has come to after `calls`. -/
structure Tracks (a : EventTimeWindowAssigner IN OUT Acc) (calls : List (Call IN))
    (c : OpCtx (WindowState Acc) (EventTimer W Id WindowEvent) IN OUT WindowEvent) : Prop where
  log : callsOf c.log = calls
  keeps : a.Keeps (clock calls) (a.startOf (a.accepted calls))
    (a.openContents (a.accepted calls) (clock calls)) c
  nodup : ((fired c.log).map WindowEvent.window).Nodup
  mem_fired : ∀ k, k ∈ (fired c.log).map WindowEvent.window ↔
    a.contents (a.accepted calls) k ≠ [] ∧ a.deadline (a.accepted calls) k ≤ clock calls
  firedAt : ∀ t ∈ fired c.log, a.FiredAt (a.accepted calls) c.log t

omit [HashWheel W Id] [DecidableEq Id] [UuidSource Id] in
theorem FiredAt.append {es : List (ArconElement IN)} {log : List (Act IN OUT WindowEvent)}
    {t : WindowEvent} (h : a.FiredAt es log t) (l : List (Act IN OUT WindowEvent)) :
    a.FiredAt es (log ++ l) t := by
  obtain ⟨s, r, pre, post, calls, w, rfl, hrest⟩ := h
  exact ⟨s, r, pre, post ++ l, calls, w, by simp, hrest⟩

omit [HashWheel W Id] [DecidableEq Id] [UuidSource Id] in
/-- The deadline of a window that fired. -/
theorem FiredAt.deadline_eq {es : List (ArconElement IN)} {log : List (Act IN OUT WindowEvent)}
    {t : WindowEvent} (h : a.FiredAt es log t) :
    a.deadline es t.window = t.timestamp + a.lateArrivalTime := by
  obtain ⟨s, r, pre, post, calls, w, -, hs, hts, -⟩ := h
  unfold deadline WindowEvent.window
  rw [hs, hts]
  rfl

omit [HashWheel W Id] [DecidableEq Id] [UuidSource Id] in
/-- An element in time leaves the windows that fired alone. -/
theorem FiredAt.element {es : List (ArconElement IN)} {log : List (Act IN OUT WindowEvent)}
    {t : WindowEvent} {e : ArconElement IN} {now : Nat} (h : a.FiredAt es log t)
    (hlate : ¬a.Late now e) (hne : a.contents es t.window ≠ [])
    (hle : a.deadline es t.window ≤ now) : a.FiredAt (es ++ [e]) log t := by
  obtain ⟨s, r, pre, post, calls, w, hlog, hs, hts, hr, hrest⟩ := h
  refine ⟨s, r, pre, post, calls, w, hlog, ?_, hts, ?_, hrest⟩
  · rw [← hs]
    exact startOf_append_of_some (k := t.window) (startOf_ne_none hne)
  · rw [contents_closed hlate hne hle]
    exact hr

variable {calls : List (Call IN)}

omit [DecidableEq Id] [UuidSource Id] in
/-- **A call that brings no element and fires nothing.** -/
theorem Tracks.quiet (h : a.Tracks calls c) {x : Call IN} {l : List (Act IN OUT WindowEvent)}
    {c' : OpCtx (WindowState Acc) (EventTimer W Id WindowEvent) IN OUT WindowEvent}
    (hlog : c'.log = c.log ++ l) (hcalls : callsOf l = [x]) (hfired : fired l = [])
    (hst : c'.operator = c.operator) (ht : c'.timer = c.timer)
    (hnow : x.time (clock calls) = clock calls) (htakes : a.takes (clock calls) x = []) :
    a.Tracks (calls ++ [x]) c' := by
  have hacc : a.accepted (calls ++ [x]) = a.accepted calls := by
    rw [accepted_append, htakes, List.append_nil]
  have hclock : clock (calls ++ [x]) = clock calls := by rw [clock_append, hnow]
  have hf : fired c'.log = fired c.log := by rw [hlog, fired_append, hfired, List.append_nil]
  refine ⟨?_, ?_, ?_, ?_, ?_⟩
  · rw [hlog, callsOf_append, h.log, hcalls]
  · rw [hacc, hclock]
    exact ⟨by rw [ht]; exact h.keeps.timer, by rw [hst]; exact h.keeps.holds,
      by rw [ht, hst]; exact h.keeps.agenda⟩
  · rw [hf]
    exact h.nodup
  · rw [hf, hacc, hclock]
    exact h.mem_fired
  · intro t ht
    rw [hf] at ht
    rw [hacc, hlog]
    exact (h.firedAt t ht).append l

/-- **An element.** -/
theorem Tracks.element (h : a.Tracks calls c) (e : ArconElement IN) :
    wp (a.operator.call (.element e)) (fun _ c' => a.Tracks (calls ++ [.element e]) c')
      (fun x _ => ∃ msg, x = .panic msg ∧ msg ≠ unreachable) c := by
  unfold Operator.call
  rw [wp_bind, wp_modify]
  by_cases hlate : a.Late (clock calls) e
  · refine wp_handleElement_late h.keeps.timer hlate ?_
    exact h.quiet (x := .element e) (l := [.handleElement e]) rfl rfl rfl rfl rfl rfl
      (takes_late hlate)
  · have hkeeps : a.Keeps (clock calls) (a.startOf (a.accepted calls))
        (a.openContents (a.accepted calls) (clock calls)) (c.note (.handleElement e)) :=
      ⟨h.keeps.timer, h.keeps.holds, h.keeps.agenda⟩
    have hacc : a.accepted (calls ++ [.element e]) = a.accepted calls ++ [e] := by
      rw [accepted_append, takes_inTime hlate]
    have hclock : clock (calls ++ [.element e]) = clock calls := by
      rw [clock_append]
      rfl
    refine wp_mono (wp_handleElement hkeeps hlate) ?_ (fun _ _ hx => hx.1)
    rintro _ c' ⟨-, hlog, hk⟩
    replace hlog : c'.log = c.log ++ [.handleElement e] := hlog
    have hf : fired c'.log = fired c.log := by
      rw [hlog, fired_append]
      exact List.append_nil _
    refine ⟨?_, ?_, ?_, ?_, ?_⟩
    · rw [hlog, callsOf_append, h.log]
      rfl
    · rw [hacc, hclock, startOf_append, openContents_append hlate]
      exact hk
    · rw [hf]
      exact h.nodup
    · intro k
      rw [hf, hacc, hclock, closed_append hlate]
      exact h.mem_fired k
    · intro t ht
      rw [hf] at ht
      obtain ⟨hne, hle⟩ := (h.mem_fired t.window).mp (List.mem_map_of_mem ht)
      rw [hacc, hlog]
      exact ((h.firedAt t ht).element hlate hne hle).append _

theorem Tracks.epoch (h : a.Tracks calls c) (e : Epoch) :
    wp (a.operator.call (.epoch e)) (fun _ c' => a.Tracks (calls ++ [.epoch e]) c')
      (fun x _ => ∃ msg, x = .panic msg ∧ msg ≠ unreachable) c := by
  exact h.quiet (x := .epoch e) (l := [.handleEpoch e]) rfl rfl rfl rfl rfl rfl rfl

omit [DecidableEq Id] [UuidSource Id] in
/-- The timeouts that a watermark fires are those of the open windows with data that it reaches. -/
theorem Tracks.mem_due (h : a.Tracks calls c) {w : Nat} {l : List (Nat × WindowEvent)}
    (hl : Fires c.timer.agenda w l) (k : KeyAndIndex) :
    k ∈ l.map (fun x => x.2.window) ↔ a.contents (a.accepted calls) k ≠ [] ∧
      clock calls < a.deadline (a.accepted calls) k ∧ a.deadline (a.accepted calls) k ≤ w := by
  have hact := h.keeps.holds.active k
  have hopen : a.openContents (a.accepted calls) (clock calls) k ≠ [] ↔
      a.contents (a.accepted calls) k ≠ [] ∧ clock calls < a.deadline (a.accepted calls) k := by
    unfold openContents
    split_ifs with hlt
    · exact (and_iff_left hlt).symm
    · simp [hlt]
  rw [hopen] at hact
  constructor
  · intro hk
    obtain ⟨x, hx, rfl⟩ := List.mem_map.mp hk
    obtain ⟨hmem, hle⟩ := hl.mem_iff.mp hx
    rw [h.keeps.agenda] at hmem
    obtain ⟨k', hk', rfl⟩ := Multiset.mem_map.mp hmem
    obtain ⟨hne, hlt⟩ := hact.mp hk'
    exact ⟨hne, hlt, hle⟩
  · rintro ⟨hne, hlt, hle⟩
    refine List.mem_map.mpr
      ⟨a.trigger (a.startOf (a.accepted calls)) k, hl.mem_iff.mpr ⟨?_, hle⟩, rfl⟩
    rw [h.keeps.agenda]
    exact Multiset.mem_map_of_mem _ (hact.mpr ⟨hne, hlt⟩)

section Due

variable {w : Nat} {l : List (Nat × WindowEvent)}

omit [DecidableEq Id] [UuidSource Id] in
/-- No window is due twice. -/
theorem Tracks.due_nodup (h : a.Tracks calls c) (hl : Fires c.timer.agenda w l) :
    (l.map fun x => x.2.window).Nodup := by
  have hinj : Function.Injective (a.trigger (a.startOf (a.accepted calls))) :=
    Function.LeftInverse.injective (g := fun x => x.2.window) fun _ => rfl
  have hnd : (l : Multiset (Nat × WindowEvent)).Nodup := by
    rw [hl.mem]
    refine Multiset.Nodup.filter _ ?_
    rw [h.keeps.agenda]
    exact Multiset.Nodup.map hinj c.operator.activeWindows.nodup
  refine List.Nodup.map_on (fun x hx y hy heq => ?_) (Multiset.coe_nodup.mp hnd)
  have hx' := (hl.mem_iff.mp hx).1
  have hy' := (hl.mem_iff.mp hy).1
  rw [h.keeps.agenda] at hx' hy'
  obtain ⟨k, -, rfl⟩ := Multiset.mem_map.mp hx'
  obtain ⟨k', -, rfl⟩ := Multiset.mem_map.mp hy'
  rw [show k = k' from heq]

omit [DecidableEq Id] [UuidSource Id] in
/-- Closing the windows that are due leaves the open ones. -/
theorem Tracks.closeAll_due (h : a.Tracks calls c) (hl : Fires c.timer.agenda w l)
    (hle : clock calls ≤ w) :
    closeAll l (a.openContents (a.accepted calls) (clock calls)) =
      a.openContents (a.accepted calls) w := by
  have hdue := h.mem_due hl
  funext k
  unfold closeAll
  by_cases hk : k ∈ l.map fun x => x.2.window
  · rw [if_pos hk]
    unfold openContents
    rw [if_neg (not_lt.mpr ((hdue k).mp hk).2.2)]
  · rw [if_neg hk]
    unfold openContents
    by_cases hlt : w < a.deadline (a.accepted calls) k
    · rw [if_pos hlt, if_pos (lt_of_le_of_lt hle hlt)]
    · rw [if_neg hlt]
      split_ifs with hlt'
      · by_contra hne
        exact hk ((hdue k).mpr ⟨hne, hlt', not_lt.mp hlt⟩)
      · rfl

omit [DecidableEq Id] [UuidSource Id] in
/-- A timeout that is due is that of its window. -/
theorem Tracks.due_eq (h : a.Tracks calls c) (hl : Fires c.timer.agenda w l)
    {x : Nat × WindowEvent} (hx : x ∈ l) :
    ∃ s, a.startOf (a.accepted calls) x.2.key = some s ∧ x.2.timestamp = a.endOf s x.2.index ∧
      a.deadline (a.accepted calls) x.2.window = x.2.timestamp + a.lateArrivalTime := by
  obtain ⟨hne, -⟩ := (h.mem_due hl x.2.window).mp (List.mem_map_of_mem hx)
  obtain ⟨s, hs⟩ := Option.ne_none_iff_exists'.mp (startOf_ne_none hne)
  have hmem := (hl.mem_iff.mp hx).1
  rw [h.keeps.agenda] at hmem
  obtain ⟨k, -, rfl⟩ := Multiset.mem_map.mp hmem
  replace hs : a.startOf (a.accepted calls) k.key = some s := hs
  refine ⟨s, hs, ?_, rfl⟩
  show a.endOf ((a.startOf (a.accepted calls) k.key).getD 0) k.index = _
  rw [hs]
  rfl

/-- What a watermark adds to the log. -/
def watermarkActs (a : EventTimeWindowAssigner IN OUT Acc) (content : KeyAndIndex → List IN)
    (w : Nat) (l : List (Nat × WindowEvent)) : List (Act IN OUT WindowEvent) :=
  .handleWatermark w :: ((l.map Prod.snd).flatMap (a.emission content) ++
    [.forward (.watermark w)])

omit [HashWheel W Id] [DecidableEq Id] [UuidSource Id] in
theorem fired_watermarkActs (content : KeyAndIndex → List IN) :
    fired (a.watermarkActs content w l) = l.map Prod.snd := by
  show fired (_ ++ _) = _
  rw [fired_append, fired_emission]
  exact List.append_nil _

omit [HashWheel W Id] [DecidableEq Id] [UuidSource Id] in
theorem callsOf_watermarkActs (content : KeyAndIndex → List IN) :
    callsOf (a.watermarkActs content w l) = [.watermark w] := by
  show .watermark w :: callsOf (_ ++ _) = _
  rw [callsOf_append, callsOf_emission]
  rfl

omit [DecidableEq Id] [UuidSource Id] in
/-- **A window that is due fires** with the data it covers, at the first watermark that reaches its
deadline. -/
theorem Tracks.firedAt_due (h : a.Tracks calls c) (hl : Fires c.timer.agenda w l)
    (hsome : ∀ x ∈ l, (a.window.result (a.window.gather
      (a.openContents (a.accepted calls) (clock calls) x.2.window))).isSome)
    {x : Nat × WindowEvent} (hx : x ∈ l) :
    a.FiredAt (a.accepted calls) (c.log ++
      a.watermarkActs (a.openContents (a.accepted calls) (clock calls)) w l) x.2 := by
  obtain ⟨s, hs, hts, hdead⟩ := h.due_eq hl hx
  obtain ⟨-, hlt, hdl⟩ := (h.mem_due hl x.2.window).mp (List.mem_map_of_mem hx)
  have hopen : a.openContents (a.accepted calls) (clock calls) x.2.window =
      a.contents (a.accepted calls) x.2.window := if_pos hlt
  rw [hdead] at hlt hdl
  obtain ⟨r, hr⟩ := Option.isSome_iff_exists.mp (hsome x hx)
  obtain ⟨l₁, l₂, hsplit⟩ := List.append_of_mem hx
  refine ⟨s, r, c.log ++ .handleWatermark w :: (l₁.map Prod.snd).flatMap
    (a.emission (a.openContents (a.accepted calls) (clock calls))), (l₂.map Prod.snd).flatMap
    (a.emission (a.openContents (a.accepted calls) (clock calls))) ++ [.forward (.watermark w)],
    calls, w, ?_, hs, hts, ?_, ?_, hlt, hdl⟩
  · unfold watermarkActs
    rw [hsplit, List.map_append, List.map_cons, List.flatMap_append, List.flatMap_cons]
    conv_lhs => rw [emission, hr]
    simp
  · rw [← hopen]
    exact hr
  · rw [callsOf_append, h.log]
    congr 1
    show .watermark w :: callsOf _ = _
    rw [callsOf_emission]

omit [DecidableEq Id] [UuidSource Id] in
/-- **The firing of a watermark**, once its timeouts are handled. -/
theorem Tracks.fire (h : a.Tracks calls c)
    {c' : OpCtx (WindowState Acc) (EventTimer W Id WindowEvent) IN OUT WindowEvent}
    (hle : clock calls ≤ w) (hl : Fires c.timer.agenda w l)
    (hk : a.Keeps w (a.startOf (a.accepted calls))
      (closeAll l (a.openContents (a.accepted calls) (clock calls))) c')
    (hlog : c'.log = c.log ++
      a.watermarkActs (a.openContents (a.accepted calls) (clock calls)) w l)
    (hsome : ∀ x ∈ l, (a.window.result (a.window.gather
      (a.openContents (a.accepted calls) (clock calls) x.2.window))).isSome) :
    a.Tracks (calls ++ [.watermark w]) c' := by
  have hacc : a.accepted (calls ++ [.watermark w]) = a.accepted calls := by
    rw [accepted_append]
    exact List.append_nil _
  have hclock : clock (calls ++ [.watermark w]) = w := by
    rw [clock_append]
    exact max_eq_right hle
  have hdue := h.mem_due hl
  have hf : fired c'.log = fired c.log ++ l.map Prod.snd := by
    rw [hlog, fired_append, fired_watermarkActs]
  have hfw : (fired c'.log).map WindowEvent.window =
      (fired c.log).map WindowEvent.window ++ l.map fun x => x.2.window := by
    rw [hf, List.map_append, List.map_map]
    rfl
  refine ⟨?_, ?_, ?_, fun k => ?_, fun t ht => ?_⟩
  · rw [hlog, callsOf_append, h.log, callsOf_watermarkActs]
  · rw [hacc, hclock, ← h.closeAll_due hl hle]
    exact hk
  · rw [hfw, List.nodup_append']
    refine ⟨h.nodup, h.due_nodup hl, fun k hk hk' => ?_⟩
    have h₁ := ((h.mem_fired k).mp hk).2
    have h₂ := ((hdue k).mp hk').2.1
    omega
  · rw [hfw, List.mem_append, h.mem_fired, hdue, hacc, hclock]
    constructor
    · rintro (⟨hne, hk⟩ | ⟨hne, -, hk⟩)
      · exact ⟨hne, hk.trans hle⟩
      · exact ⟨hne, hk⟩
    · rintro ⟨hne, hk⟩
      rcases Nat.lt_or_ge (clock calls) (a.deadline (a.accepted calls) k) with hlt | hge
      · exact .inr ⟨hne, hlt, hk⟩
      · exact .inl ⟨hne, hge⟩
  · rw [hf] at ht
    rw [hacc, hlog]
    rcases List.mem_append.mp ht with ht | ht
    · exact (h.firedAt t ht).append _
    · obtain ⟨x, hx, rfl⟩ := List.mem_map.mp ht
      exact h.firedAt_due hl hsome hx

end Due

/-- **A watermark.** -/
theorem Tracks.watermark (h : a.Tracks calls c) (w : Watermark) :
    wp (a.operator.call (.watermark w)) (fun _ c' => a.Tracks (calls ++ [.watermark w]) c')
      (fun x _ => ∃ msg, x = .panic msg ∧ msg ≠ unreachable) c := by
  rw [wp_call_watermark]
  have htime := h.keeps.timer.time
  refine EventTimer.wp_advanceTo h.keeps.timer.inStep (fun _ _ => ⟨_, rfl, by decide⟩)
    (fun hlt => ?_) (fun hle l t' hl => ?_)
  · -- a watermark from the past moves nothing
    replace hlt : w < c.timer.time := hlt
    rw [htime] at hlt
    exact h.quiet (x := .watermark w) (l := [.handleWatermark w, .forward (.watermark w)]) (by
      simp [OpCtx.note]) rfl rfl rfl rfl (max_eq_left hlt.le) rfl
  · replace hle : c.timer.time ≤ w := hle
    rw [htime] at hle
    have hfiring : a.Firing w (a.startOf (a.accepted calls))
        (a.openContents (a.accepted calls) (clock calls)) l
        { c.note (.handleWatermark w) with timer := t' } := by
      refine ⟨⟨hl.inStep, hl.time⟩, h.keeps.holds, ?_⟩
      show t'.agenda + l = _
      rw [hl.agenda, hl.fires.mem, Multiset.add_comm, due_add_later]
      exact h.keeps.agenda
    refine wp_mono (wp_fireAll hfiring) ?_ (fun _ _ hx => hx)
    rintro _ c' ⟨hk, hlog, hsome⟩
    refine h.fire hle hl.fires ⟨hk.timer, hk.holds, hk.agenda⟩ ?_ hsome
    show c'.log ++ [_] = _
    rw [hlog]
    simp [OpCtx.note, watermarkActs]

/-- **Every call.** -/
theorem Tracks.call (h : a.Tracks calls c) (x : Call IN) :
    wp (a.operator.call x) (fun _ c' => a.Tracks (calls ++ [x]) c')
      (fun x _ => ∃ msg, x = .panic msg ∧ msg ≠ unreachable) c := by
  cases x with
  | element e => exact h.element e
  | watermark w => exact h.watermark w
  | epoch e => exact h.epoch e

/-- **Every run** of the operator comes to what its calls say, or to a panic other than the
`unreachable!`. -/
theorem Tracks.drive (h : a.Tracks calls c) (more : List (Call IN)) :
    wp (a.operator.drive more) (fun _ c' => a.Tracks (calls ++ more) c')
      (fun x _ => ∃ msg, x = .panic msg ∧ msg ≠ unreachable) c := by
  induction more generalizing c calls with
  | nil =>
    rw [List.append_nil]
    exact h
  | cons x more ih =>
    unfold Operator.drive
    rw [List.forM_cons, wp_bind]
    refine wp_mono (h.call x) (fun _ c' h' => ?_) (fun _ _ hx => hx)
    have := ih h'
    rw [List.append_assoc] at this
    exact this
/-- A context on an empty backend, with the timer initialised. -/
structure Begins (c : OpCtx (WindowState Acc) (EventTimer W Id WindowEvent) IN OUT WindowEvent) :
    Prop where
  operator : c.operator = WindowState.new Acc
  timer : EventTimer.init (EventTimer.new (TimerState.new Id WindowEvent)) = .ok () c.timer
  log : c.log = []

omit [DecidableEq Id] [UuidSource Id] in
theorem Begins.tracks (h : Begins c) : a.Tracks [] c := by
  obtain ⟨hat, hagenda⟩ := wp_ok
    (Q := fun _ (t : EventTimer W Id WindowEvent) => EventTimer.At 0 t ∧ t.agenda = 0)
    EventTimer.init_new h.timer
  have hopen : ∀ k, a.openContents (a.accepted []) 0 k = [] := by
    intro k
    unfold openContents
    exact ite_self _
  have hempty : fired c.log = [] := by
    rw [h.log]
    rfl
  refine ⟨by rw [h.log]; rfl, ⟨hat, ⟨fun key => ?_, fun k hk => absurd (hopen k) hk, fun k => ?_,
    fun k => ?_⟩, ?_⟩, by rw [hempty]; exact List.nodup_nil, fun k => ?_,
    by rw [hempty]; simp⟩
  · rw [h.operator]
    exact AList.lookup_empty key
  · rw [h.operator]
    simp [WindowState.new, hopen k, clock]
  · rw [h.operator, show clock ([] : List (Call IN)) = 0 from rfl, hopen, if_pos rfl]
    exact AList.lookup_empty k
  · rw [hagenda, h.operator]
    rfl
  · rw [hempty]
    simp [contents, accepted, acceptedFrom]

omit [HashWheel W Id] [DecidableEq Id] [UuidSource Id] in
/-- A timeout that was handled once was handled at one place. -/
theorem split_unique {l pre pre' post post' : List (Act IN OUT WindowEvent)} {t : WindowEvent}
    (hnd : (fired l).Nodup) (h : l = pre ++ .handleTimeout t :: post)
    (h' : l = pre' ++ .handleTimeout t :: post') : post = post' := by
  -- if the places differ, the timeout is there twice
  have twice : ∀ {pre m post : List (Act IN OUT WindowEvent)},
      l ≠ pre ++ .handleTimeout t :: (m ++ .handleTimeout t :: post) := by
    intro pre m post heq
    rw [heq, fired_append] at hnd
    have := (List.nodup_append'.mp hnd).2.1
    change (t :: fired (m ++ .handleTimeout t :: post)).Nodup at this
    refine (List.nodup_cons.mp this).1 ?_
    rw [fired_append]
    exact List.mem_append_right _ List.mem_cons_self
  rcases List.append_eq_append_iff.mp (h.symm.trans h') with ⟨m, hpre, hm⟩ | ⟨m, hpre, hm⟩
  · cases m with
    | nil => exact (List.cons.inj hm).2
    | cons x m =>
      obtain ⟨-, hm⟩ := List.cons.inj hm
      exact absurd (show l = pre ++ .handleTimeout t :: (m ++ .handleTimeout t :: post') by
        rw [h, hm]
        rfl) twice
  · cases m with
    | nil => exact (List.cons.inj hm).2.symm
    | cons x m =>
      obtain ⟨-, hm⟩ := List.cons.inj hm
      exact absurd (show l = pre' ++ .handleTimeout t :: (m ++ .handleTimeout t :: post) by
        rw [h', hm]
        rfl) twice

/-- **Window content exactness.** Along every run of `handle_element` and watermark advances that
does not panic (as an accepted element below its key's start and an overflow do): whenever a
window's timeout is handled, the next act is to put out the window function's result of exactly the
data of the accepted elements of the key that the window covers, in the order in which they came,
with the end of the window as the timestamp; and the state of every window that has not fired is
that of the data it covers. -/
theorem window_contents
    {c₀ : OpCtx (WindowState Acc) (EventTimer W Id WindowEvent) IN OUT WindowEvent}
    (hbegin : Begins c₀) (hrun : a.operator.drive calls c₀ = .ok () c) :
    (∀ pre t post, c.log = pre ++ .handleTimeout t :: post →
      ∃ start r post', a.startOf (a.accepted calls) t.key = some start ∧
        t.timestamp = start + t.index * a.windowSlide + a.windowLength ∧
        a.window.result (a.window.gather (a.contents (a.accepted calls) ⟨t.key, t.index⟩)) =
          some r ∧
        post = .output (.element (.withTimestamp r t.timestamp)) :: post') ∧
      ∀ k : KeyAndIndex, (∀ t, .handleTimeout t ∈ c.log → ⟨t.key, t.index⟩ ≠ k) →
        c.operator.window.lookup k =
          if a.contents (a.accepted calls) k = [] then none
          else some (a.window.gather (a.contents (a.accepted calls) k)) := by
  have h := wp_ok (hbegin.tracks.drive calls) hrun
  rw [List.nil_append] at h
  refine ⟨fun pre t post hlog => ?_, fun k hk => ?_⟩
  · have hmem : t ∈ fired c.log := by
      rw [hlog, fired_append]
      exact List.mem_append_right _ List.mem_cons_self
    obtain ⟨s, r, pre', post', cs, w, hlog', hs, hts, hr, -⟩ := h.firedAt t hmem
    exact ⟨s, r, post', hs, hts, hr, split_unique (List.Nodup.of_map _ h.nodup) hlog hlog'⟩
  · have hnot : k ∉ (fired c.log).map WindowEvent.window := by
      intro hmem
      obtain ⟨t, ht, rfl⟩ := List.mem_map.mp hmem
      obtain ⟨x, hx, hxt⟩ := List.mem_filterMap.mp ht
      cases x <;> cases hxt
      exact hk t hx rfl
    rw [h.keeps.holds.window]
    have hopen : a.openContents (a.accepted calls) (clock calls) k =
        a.contents (a.accepted calls) k := by
      unfold openContents
      split_ifs with hlt
      · rfl
      · by_contra hne
        exact hnot ((h.mem_fired k).mpr ⟨fun h => hne h.symm, not_lt.mp hlt⟩)
    rw [hopen]

/-- The run of the Rust test `window_overlapping`, and an element that comes late. -/
def overlappingCalls : List (Call Nat) :=
  [.element ⟨1, some 1⟩, .element ⟨2, some 7⟩, .element ⟨3, some 7⟩, .watermark 12,
    .element ⟨4, some 10⟩, .element ⟨5, some 9⟩, .watermark 24]

/-- A context on an empty backend. -/
def emptyCtx (Acc IN OUT : Type) :
    OpCtx (WindowState Acc) (EventTimer ListWheel Nat WindowEvent) IN OUT WindowEvent :=
  ⟨WindowState.new Acc, ⟨⟨[]⟩, ⟨some 0, ∅⟩⟩, []⟩

theorem emptyCtx_begins (Acc IN OUT : Type) : Begins (emptyCtx Acc IN OUT) := ⟨rfl, rfl, rfl⟩

/-- Windows of length 10 that slide by 5, with a lateness of 2. -/
def overlapping : EventTimeWindowAssigner Nat Nat (List Nat) :=
  counting 10 5 2 (by decide) (by decide) (by decide)

theorem window_contents_overlapping :
    overlapping.operator.drive overlappingCalls (emptyCtx (List Nat) Nat Nat) =
        .ok () (final (overlapping.operator.drive overlappingCalls (emptyCtx (List Nat) Nat Nat))) ∧
      fired (final (overlapping.operator.drive overlappingCalls
        (emptyCtx (List Nat) Nat Nat))).log = [⟨7, 0, 11⟩, ⟨7, 1, 16⟩] ∧
      ∀ pre t post, (final (overlapping.operator.drive overlappingCalls
          (emptyCtx (List Nat) Nat Nat))).log = pre ++ .handleTimeout t :: post →
        ∃ start r post', overlapping.startOf (overlapping.accepted overlappingCalls) t.key =
            some start ∧
          t.timestamp = start + t.index * 5 + 10 ∧
          overlapping.window.result (overlapping.window.gather
            (overlapping.contents (overlapping.accepted overlappingCalls) ⟨t.key, t.index⟩)) =
              some r ∧
          post = .output (.element (.withTimestamp r t.timestamp)) :: post' := by
  have hok := eq_ok_of_isOk (r := overlapping.operator.drive overlappingCalls
    (emptyCtx (List Nat) Nat Nat)) (by decide +kernel)
  exact ⟨hok, by decide +kernel,
    (window_contents (emptyCtx_begins (List Nat) Nat Nat) hok).1⟩

/-- **Each window fires once.** Along every run of `handle_element` and watermark advances: the
active windows, the windows of the pending timeouts and the windows with state coincide, each with
one timeout; a window fires at most once, at the first watermark that reaches its end plus the
allowed lateness, and is not active after that; a window has fired if and only if it covers accepted
data and its deadline has passed; and the `unreachable!` of `handle_element` is never reached. -/
theorem window_fires_once
    {c₀ : OpCtx (WindowState Acc) (EventTimer W Id WindowEvent) IN OUT WindowEvent}
    (hbegin : Begins c₀) :
    (∀ c, a.operator.drive calls c₀ = .ok () c →
      (c.timer.agenda.map fun x => x.2.window) = c.operator.activeWindows.val ∧
      (∀ k, k ∈ c.operator.window ↔ k ∈ c.operator.activeWindows) ∧
      ((fired c.log).map WindowEvent.window).Nodup ∧
      (∀ t ∈ fired c.log, t.window ∉ c.operator.activeWindows ∧
        ∃ pre post cs w, c.log = pre ++ .handleTimeout t :: post ∧
          callsOf pre = cs ++ [.watermark w] ∧
          clock cs < a.deadline (a.accepted calls) t.window ∧
          a.deadline (a.accepted calls) t.window ≤ w) ∧
      ∀ k, k ∈ (fired c.log).map WindowEvent.window ↔
        a.contents (a.accepted calls) k ≠ [] ∧ a.deadline (a.accepted calls) k ≤ clock calls) ∧
      ∀ x c, a.operator.drive calls c₀ = .error x c → x ≠ .panic unreachable := by
  have hwp := hbegin.tracks.drive (a := a) calls
  rw [List.nil_append] at hwp
  refine ⟨fun c hrun => ?_, fun x c hrun => ?_⟩
  · have h := wp_ok hwp hrun
    refine ⟨?_, fun k => ?_, h.nodup, fun t ht => ⟨fun hact => ?_, ?_⟩, h.mem_fired⟩
    · rw [h.keeps.agenda, Multiset.map_map]
      exact Multiset.map_id _
    · rw [h.keeps.holds.active, ← AList.lookup_isSome, h.keeps.holds.window]
      split_ifs with hnil <;> simp [hnil]
    · have hle := ((h.mem_fired t.window).mp (List.mem_map_of_mem ht)).2
      have hopen := (h.keeps.holds.active t.window).mp hact
      exact hopen (if_neg (not_lt.mpr hle))
    · have hat := h.firedAt t ht
      rw [hat.deadline_eq]
      obtain ⟨s, r, pre, post, cs, w, hlog, -, -, -, hcalls, hlt, hle⟩ := hat
      exact ⟨pre, _, cs, w, hlog, hcalls, hlt, hle⟩
  · obtain ⟨msg, rfl, hne⟩ := wp_error hwp hrun
    intro heq
    exact hne (Crash.panic.inj heq)

theorem window_fires_once_overlapping :
    ∃ c, overlapping.operator.drive overlappingCalls (emptyCtx (List Nat) Nat Nat) = .ok () c ∧
      (c.timer.agenda.map fun x => x.2.window) = c.operator.activeWindows.val ∧
      ((fired c.log).map WindowEvent.window).Nodup ∧
      ∀ k, k ∈ (fired c.log).map WindowEvent.window ↔
        overlapping.contents (overlapping.accepted overlappingCalls) k ≠ [] ∧
          overlapping.deadline (overlapping.accepted overlappingCalls) k ≤ 24 := by
  have hok := eq_ok_of_isOk (r := overlapping.operator.drive overlappingCalls
    (emptyCtx (List Nat) Nat Nat)) (by decide +kernel)
  obtain ⟨hagenda, -, hnd, -, hiff⟩ :=
    (window_fires_once (emptyCtx_begins (List Nat) Nat Nat)).1 _ hok
  exact ⟨_, hok, hagenda, hnd, hiff⟩

end EventTimeWindowAssigner

end Arcon

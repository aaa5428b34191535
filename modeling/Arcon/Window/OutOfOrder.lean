import Arcon.Window.Output

/-!
# Elements out of order

The first element of a key fixes where its windows start, and the lateness check only looks at the
watermark. An element that comes later with a smaller timestamp than the first one passes the check,
and `ts - start` underflows.

* `Fits`: the deadlines of the active windows are `u64`. Kept by every call of a run.
* `windowed_iff`: in any state of a run, an element that passes the lateness check is added to every
  window of its key that covers it exactly if it is not below the start of the key and the deadlines
  of these windows are `u64`.
* `out_of_order_iff`: the same of all elements of a run.
* `below_start_panics`: an element at 10 and then one at 5.
-/

namespace Arcon

open Exec Node

theorem checkedAdd_eq_some {x y z : Nat} (h : checkedAdd x y = some z) :
    z = x + y ∧ z ≤ u64Max := by
  unfold checkedAdd at h
  split_ifs at h with hle
  cases h
  exact ⟨rfl, hle⟩

theorem checkedMul_eq_some {x y z : Nat} (h : checkedMul x y = some z) : z = x * y := by
  unfold checkedMul at h
  split_ifs at h
  exact (Option.some.inj h).symm

namespace EventTimeWindowAssigner

variable {IN OUT Acc : Type}

/-! ## Deadlines -/

section Fits

variable {τ P : Type} [TimerBackend τ WindowEvent P] {a : EventTimeWindowAssigner IN OUT Acc}
  {c : OpCtx (WindowState Acc) τ IN OUT WindowEvent}

/-- The deadlines of the active windows are `u64`. -/
def Fits (a : EventTimeWindowAssigner IN OUT Acc) (st : WindowState Acc) : Prop :=
  ∀ k ∈ st.activeWindows, ∃ s, st.windowStart.lookup k.key = some s ∧
    a.endOf s k.index + a.lateArrivalTime ≤ u64Max

/-- A window that gets a timeout has a deadline that fits. -/
theorem wp_newWindowTrigger_fits (key index : Nat) :
    wp (a.newWindowTrigger key index).run
      (fun _ c' => c'.operator = c.operator ∧ ∃ s, c.operator.windowStart.lookup key = some s ∧
        a.endOf s index + a.lateArrivalTime ≤ u64Max) (fun _ _ => True) c := by
  unfold newWindowTrigger
  rw [wp_run_bind, wp_run_read, wp_run_bind]
  refine wp_run_expect (fun s hs => ?_) (fun _ => trivial)
  rw [wp_run_bind]
  refine wp_run_expect (fun offset hoffset => ?_) (fun _ => trivial)
  rw [wp_run_bind]
  refine wp_run_expect (fun start hstart => ?_) (fun _ => trivial)
  rw [wp_run_bind]
  refine wp_run_expect (fun ts hts => ?_) (fun _ => trivial)
  rw [wp_run_bind]
  refine wp_run_expect (fun deadline hdeadline => ?_) (fun _ => trivial)
  have hend : a.endOf s index + a.lateArrivalTime ≤ u64Max := by
    obtain ⟨hd, hle⟩ := checkedAdd_eq_some hdeadline
    rw [(checkedAdd_eq_some hts).1, (checkedAdd_eq_some hstart).1,
      checkedMul_eq_some hoffset] at hd
    rw [hd] at hle
    exact hle
  unfold OpM.schedule
  simp only [OpM.run, wp_bind, wp_timerCall]
  exact wp_intro (fun _ _ _ => ⟨rfl, s, hs, hend⟩) (fun _ _ _ => trivial)

theorem Fits.insertInto (h : a.Fits c.operator) (key : Nat) (data : IN) (index : Nat) :
    wp (a.insertInto key data index).run (fun _ c' => a.Fits c'.operator) (fun _ _ => True) c := by
  unfold EventTimeWindowAssigner.insertInto
  rw [wp_run_bind, wp_run_update, wp_run_bind, wp_run_read]
  split_ifs
  · exact h
  · rw [wp_run_bind, wp_run_update, wp_run_bind]
    refine wp_mono (wp_newWindowTrigger_fits key index) ?_ (fun _ _ h => h)
    rintro (_ | _) c' ⟨hst, s, hs, hend⟩
    · trivial
    · show a.Fits c'.operator
      rw [hst]
      intro k hk
      rcases Finset.mem_insert.mp hk with rfl | hk
      · exact ⟨s, hs, hend⟩
      · exact h k hk

theorem Fits.windowRange (h : a.Fits c.operator) (key ts : Nat) :
    wp (a.windowRange key ts).run (fun _ c' => a.Fits c'.operator) (fun _ _ => True) c := by
  unfold EventTimeWindowAssigner.windowRange
  rw [wp_run_bind, wp_run_read]
  cases hs : c.operator.windowStart.lookup key with
  | some start =>
    rw [wp_run_bind]
    refine wp_run_expect (fun d _ => ?_) (fun _ => trivial)
    dsimp only
    split_ifs <;> exact h
  | none =>
    rw [wp_run_bind, wp_run_update]
    intro k hk
    obtain ⟨s, hks, hend⟩ := h k hk
    have hne : k.key ≠ key := by
      rintro rfl
      rw [hs] at hks
      cases hks
    exact ⟨s, (AList.lookup_insert_ne hne).trans hks, hend⟩

theorem Fits.handleElement (h : a.Fits c.operator) (e : ArconElement IN) :
    wp (a.handleElement e).run (fun _ c' => a.Fits c'.operator) (fun _ _ => True) c := by
  unfold EventTimeWindowAssigner.handleElement OpM.time
  rw [wp_run_bind]
  simp only [OpM.run, wp_bind, wp_timerCall, wp_pure]
  refine wp_intro (fun time t _ => ?_) (fun _ _ _ => trivial)
  split_ifs
  · exact h
  · rw [wp_run_bind]
    refine wp_mono (Fits.windowRange (c := { c with timer := t }) h _ _) ?_ (fun _ _ h => h)
    rintro ⟨floor, ceil⟩ c' h'
    exact wp_run_forM (I := fun _ c => a.Fits c.operator) (fun i _ _ h => h.insertInto _ _ i) h'

theorem Fits.fire (h : a.Fits c.operator) (t : WindowEvent) :
    wp (a.operator.fire t) (fun _ c' => a.Fits c'.operator) (fun _ _ => True) c := by
  unfold Operator.fire operator handleTimeout
  rw [wp_bind, wp_modify, wp_run_bind, wp_run_read, wp_run_bind]
  refine wp_run_expect (fun r _ => ?_) (fun _ => trivial)
  rw [wp_run_bind, wp_run_update, wp_run_bind, wp_run_update, wp_run_emit]
  exact fun k hk => h k (Finset.mem_of_mem_erase hk)

/-- **Every call** keeps the deadlines within `u64`. -/
theorem Fits.call (h : a.Fits c.operator) (x : Call IN) :
    wp (a.operator.call x) (fun _ c' => a.Fits c'.operator) (fun _ _ => True) c := by
  cases x with
  | element e =>
    unfold Operator.call
    rw [wp_bind, wp_modify]
    exact Fits.handleElement (c := c.note (.handleElement e)) h e
  | watermark w =>
    rw [wp_call_watermark]
    refine wp_intro (fun timeouts t _ => ?_) (fun _ _ _ => trivial)
    exact wp_forM (I := fun _ (c : OpCtx _ _ _ _ _) => a.Fits c.operator)
      (fun t _ _ h => h.fire t) h
  | epoch e =>
    unfold Operator.call
    rw [wp_bind, wp_modify, wp_bind]
    show wp (OpCtx.timerCall _) _ _ _
    rw [wp_timerCall]
    exact wp_intro (fun _ _ _ => h) (fun _ _ _ => trivial)

theorem Fits.drive (h : a.Fits c.operator) (calls : List (Call IN)) :
    wp (a.operator.drive calls) (fun _ c' => a.Fits c'.operator) (fun _ _ => True) c :=
  wp_forM (I := fun _ (c : OpCtx _ _ _ _ _) => a.Fits c.operator) (fun x _ _ h => h.call x) h

end Fits

/-! ## One element -/

variable {W Id : Type} [HashWheel W Id] [DecidableEq Id] [UuidSource Id]
  {a : EventTimeWindowAssigner IN OUT Acc}
  {c₀ c c' : OpCtx (WindowState Acc) (EventTimer W Id WindowEvent) IN OUT WindowEvent}
  {calls : List (Call IN)} {e : ArconElement IN}

/-- The start of the windows of an element's key: the stored one, or the element starts them. -/
def startFor (a : EventTimeWindowAssigner IN OUT Acc) (st : WindowState Acc) (e : ArconElement IN) :
    Nat := (st.windowStart.lookup (a.getKey e)).getD (tsOf e)

/-- Every window of the element's key that covers it was given its data. -/
def AddedTo (a : EventTimeWindowAssigner IN OUT Acc) (e : ArconElement IN)
    (st st' : WindowState Acc) : Prop :=
  ∀ i, a.Covers (a.startFor st e) i (tsOf e) →
    st'.window.lookup ⟨a.getKey e, i⟩ = some (a.window.onElement e.data
      ((st.window.lookup ⟨a.getKey e, i⟩).getD a.window.empty))

/-- The element is handled, and added to every window of its key that covers it. -/
def Windowed (a : EventTimeWindowAssigner IN OUT Acc)
    (c : OpCtx (WindowState Acc) (EventTimer W Id WindowEvent) IN OUT WindowEvent)
    (e : ArconElement IN) : Prop :=
  ∃ c', a.operator.call (.element e) c = .ok () c' ∧ a.AddedTo e c.operator c'.operator

/-- The element is not below the start of its key, and the windows that cover it have deadlines
within `u64`. -/
def Placeable (a : EventTimeWindowAssigner IN OUT Acc) (st : WindowState Acc)
    (e : ArconElement IN) : Prop :=
  a.startFor st e ≤ tsOf e ∧ ∀ i, a.Covers (a.startFor st e) i (tsOf e) →
    a.endOf (a.startFor st e) i + a.lateArrivalTime ≤ u64Max

/-- What `handle_element` leaves of an element in time. -/
theorem Tracks.wp_element (h : a.Tracks calls c) (hlate : ¬a.Late c.timer.time e) :
    wp (a.operator.call (.element e))
      (fun _ c' => a.startFor c.operator e ≤ tsOf e ∧ ∃ start content,
        a.Holds start content c.operator ∧
        a.Holds (Function.update start (a.getKey e) (some (a.startFor c.operator e)))
          (a.spread (a.startFor c.operator e) e content) c'.operator)
      (fun _ _ => ¬a.Placeable c.operator e) c := by
  have hstart : a.startFor c.operator e =
      (a.startOf (a.accepted calls) (a.getKey e)).getD (tsOf e) := by
    unfold startFor
    rw [h.keeps.holds.starts]
  rw [h.keeps.timer.time] at hlate
  have hkeeps : a.Keeps (clock calls) (a.startOf (a.accepted calls))
      (a.openContents (a.accepted calls) (clock calls)) (c.note (.handleElement e)) :=
    ⟨h.keeps.timer, h.keeps.holds, h.keeps.agenda⟩
  unfold Operator.call
  rw [wp_bind, wp_modify, hstart]
  unfold Placeable
  rw [hstart]
  refine wp_mono (wp_handleElement hkeeps hlate) ?_ ?_
  · rintro _ c' ⟨hle, -, hk⟩
    exact ⟨hle, _, _, h.keeps.holds, hk.holds⟩
  · rintro x c' ⟨-, -, hlt | ⟨i, hi, hgt⟩⟩
    · exact fun hp => absurd hp.1 (not_le.mpr hlt)
    · exact fun hp => absurd (hp.2 i hi) (not_le.mpr hgt)

omit [HashWheel W Id] [DecidableEq Id] [UuidSource Id] in
/-- The state of a window that holds some data. -/
theorem Holds.gathered {start : Nat → Option Nat} {content : KeyAndIndex → List IN}
    {st : WindowState Acc} (h : a.Holds start content st) (k : KeyAndIndex) :
    (st.window.lookup k).getD a.window.empty = a.window.gather (content k) := by
  rw [h.window]
  split_ifs with hnil
  · rw [hnil]
    rfl
  · rfl

omit [HashWheel W Id] [DecidableEq Id] [UuidSource Id] in
theorem Holds.addedTo {start start' : Nat → Option Nat} {content : KeyAndIndex → List IN}
    {st st' : WindowState Acc} (h : a.Holds start content st)
    (h' : a.Holds start' (a.spread (a.startFor st e) e content) st') : a.AddedTo e st st' := by
  intro i hi
  have hspread : a.spread (a.startFor st e) e content ⟨a.getKey e, i⟩ =
      content ⟨a.getKey e, i⟩ ++ [e.data] := if_pos ⟨rfl, hi⟩
  rw [h.gathered, h'.window, hspread, if_neg (by simp), Window.gather_append]

/-- **An element in a state of a run**: it goes into its windows exactly if it is not below the
start of its key and their deadlines fit. -/
theorem windowed_iff (hbegin : Begins c₀) (hrun : a.operator.drive calls c₀ = .ok () c)
    (hlate : ¬a.Late c.timer.time e) : a.Windowed c e ↔ a.Placeable c.operator e := by
  have htracks := wp_ok (hbegin.tracks.drive calls) hrun
  rw [List.nil_append] at htracks
  have hinit : a.Fits c₀.operator := by
    rw [hbegin.operator]
    exact fun k hk => absurd hk (Finset.notMem_empty k)
  have hfits := wp_ok (hinit.drive calls) hrun
  have hwp := htracks.wp_element hlate
  constructor
  · rintro ⟨c', hcall, -⟩
    obtain ⟨hle, start, content, h, h'⟩ := wp_ok hwp hcall
    refine ⟨hle, fun i hi => ?_⟩
    -- the window is active now, so its deadline fits
    have hactive : (⟨a.getKey e, i⟩ : KeyAndIndex) ∈ c'.operator.activeWindows := by
      rw [h'.active]
      unfold spread
      rw [if_pos ⟨rfl, hi⟩]
      simp
    obtain ⟨s, hs, hend⟩ := wp_ok (hfits.call (.element e)) hcall _ hactive
    have hstart := h'.starts (a.getKey e)
    rw [Function.update_self] at hstart
    obtain rfl := Option.some.inj (hs.symm.trans hstart)
    exact hend
  · intro hp
    cases hcall : a.operator.call (.element e) c with
    | ok _ c' =>
      obtain ⟨-, start, content, h, h'⟩ := wp_ok hwp hcall
      exact ⟨c', hcall, h.addedTo h'⟩
    | error x c' => exact absurd hp (wp_error hwp hcall)

/-! ## Runs -/

/-- Of every element of a run that passes the lateness check, in the state it meets. -/
def EachInTime (a : EventTimeWindowAssigner IN OUT Acc)
    (c₀ : OpCtx (WindowState Acc) (EventTimer W Id WindowEvent) IN OUT WindowEvent)
    (calls : List (Call IN))
    (Q : OpCtx (WindowState Acc) (EventTimer W Id WindowEvent) IN OUT WindowEvent →
      ArconElement IN → Prop) : Prop :=
  ∀ pre e post c, calls = pre ++ .element e :: post → a.operator.drive pre c₀ = .ok () c →
    ¬a.Late c.timer.time e → Q c e

/-- **Out-of-order elements.** In a run of the operator every element that passes the lateness check
is added to every window of its key that covers it, with no panic, exactly if every such element is
not below the start stored for its key when it comes, and the deadlines of its windows fit. -/
theorem out_of_order_iff (hbegin : Begins c₀) (calls : List (Call IN)) :
    a.EachInTime c₀ calls a.Windowed ↔
      a.EachInTime c₀ calls fun c e => a.Placeable c.operator e := by
  constructor
  · intro h pre e post c hcalls hrun hlate
    exact (windowed_iff hbegin hrun hlate).mp (h pre e post c hcalls hrun hlate)
  · intro h pre e post c hcalls hrun hlate
    exact (windowed_iff hbegin hrun hlate).mpr (h pre e post c hcalls hrun hlate)

omit [HashWheel W Id] [DecidableEq Id] [UuidSource Id] in
/-- The deadlines of the windows that cover an element are at most its own. -/
theorem placeable_of_le {st : WindowState Acc} (hle : a.startFor st e ≤ tsOf e)
    (hts : tsOf e + a.windowLength + a.lateArrivalTime ≤ u64Max) : a.Placeable st e := by
  refine ⟨hle, fun i hi => ?_⟩
  have hi := hi.1
  unfold endOf
  omega

/-- Two elements of a key in order. -/
def inOrderCalls : List (Call Nat) := [.element ⟨1, some 1⟩, .element ⟨2, some 7⟩]

theorem out_of_order_iff_in_order :
    Begins (emptyCtx (List Nat) Nat Nat) ∧
      overlapping.EachInTime (emptyCtx (List Nat) Nat Nat) inOrderCalls overlapping.Windowed := by
  have hbegin := emptyCtx_begins (List Nat) Nat Nat
  refine ⟨hbegin, (out_of_order_iff hbegin inOrderCalls).mpr ?_⟩
  intro pre e post c hcalls hrun _
  have hc : c = final (overlapping.operator.drive pre (emptyCtx (List Nat) Nat Nat)) := by
    rw [hrun]
    rfl
  subst hc
  match pre, hcalls with
  | [], hcalls =>
    obtain ⟨rfl, -⟩ := (List.cons_eq_cons.mp hcalls).imp_left Call.element.inj
    exact placeable_of_le (by decide +kernel) (by decide +kernel)
  | [_], hcalls =>
    obtain ⟨rfl, htail⟩ := List.cons_eq_cons.mp hcalls
    obtain ⟨rfl, -⟩ := (List.cons_eq_cons.mp htail).imp_left Call.element.inj
    exact placeable_of_le (by decide +kernel) (by decide +kernel)
  | _ :: _ :: pre, hcalls =>
    have hlen := congrArg List.length hcalls
    simp [inOrderCalls] at hlen

/-- Two elements of a key, the second one below the first. -/
def belowStartRun : List (Delivery Nat) :=
  [.onLocal (.element 5 (some 10) 1), .onLocal (.element 6 (some 5) 1)]

/-- **An element below the start of its key** passes the lateness check and panics, also in a node:
no watermark has come yet. -/
theorem below_start_panics :
    ¬(tumbling 2).EachInTime (emptyCtx (List Nat) Nat Nat)
        [.element ⟨5, some 10⟩, .element ⟨6, some 5⟩] (tumbling 2).Windowed ∧
      fault? (run (windowNode (tumbling 2) [1]) belowStartRun (windowStart [1])) =
        some (.crash (.panic "attempt to subtract with overflow")) := by
  refine ⟨fun h => ?_, by decide +kernel⟩
  have hrun : (tumbling 2).operator.drive [.element ⟨5, some 10⟩] (emptyCtx (List Nat) Nat Nat) =
      .ok () (final ((tumbling 2).operator.drive [.element ⟨5, some 10⟩]
        (emptyCtx (List Nat) Nat Nat))) := eq_ok_of_isOk (by decide +kernel)
  obtain ⟨c', hcall, -⟩ := h [.element ⟨5, some 10⟩] ⟨6, some 5⟩ [] _ rfl hrun (by decide +kernel)
  have hfault : isOk ((tumbling 2).operator.call (.element ⟨6, some 5⟩)
      (final ((tumbling 2).operator.drive [.element ⟨5, some 10⟩]
        (emptyCtx (List Nat) Nat Nat)))) = false := by
    decide +kernel
  rw [hcall] at hfault
  cases hfault

end EventTimeWindowAssigner

end Arcon

import Arcon.Source.Stream
import Arcon.Node.Wedge

/-!
# A source and the node behind it

A node discards the elements of a channel that are not above the channel's watermark. The watermark
of a source is the greatest timestamp it has sent, so that records of the same time are discarded
where a watermark comes between them.

* `source_accepted`: no element of a source is discarded exactly if no interval of the source ends
  between two records of the same time.
* `equal_times_discarded`: two records at time 1 with an interval of 1.
-/

namespace Arcon

open Exec Node Control

variable {σ τ TS IN OUT P : Type}

/-- The elements handed to the operator. -/
def accepted (log : List (Act IN OUT TS)) : List (ArconElement IN) :=
  log.filterMap fun
    | .handleElement e => some e
    | _ => none

theorem accepted_append (l l' : List (Act IN OUT TS)) :
    accepted (l ++ l') = accepted l ++ accepted l' := List.filterMap_append

theorem accepted_marks (l : List (Act IN OUT TS)) :
    accepted (l.filter Act.isMark) = accepted l := by
  unfold accepted
  rw [List.filterMap_filter]
  refine List.filterMap_congr fun a _ => ?_
  cases a <;> rfl

/-- The elements that a channel at watermark `w` lets through. -/
def accept (w : Watermark) : List (ArconEvent IN) → List (ArconElement IN)
  | [] => []
  | .element e :: evs =>
    if e.timestamp.getD u64Max ≤ w then accept w evs else e :: accept w evs
  | .watermark x :: evs => accept (max w x) evs
  | _ :: evs => accept w evs

theorem length_accept_le (w : Watermark) (evs : List (ArconEvent IN)) :
    (accept w evs).length ≤ (elements evs).length := by
  induction evs generalizing w with
  | nil => exact le_rfl
  | cons ev evs ih =>
    cases ev with
    | element e =>
      unfold accept
      split
      · exact (ih w).trans (Nat.le_succ _)
      · exact Nat.succ_le_succ (ih w)
    | watermark x => exact ih _
    | epoch e => exact ih w
    | death msg => exact ih w

theorem accept_append (w : Watermark) (evs evs' : List (ArconEvent IN)) :
    accept w (evs ++ evs') = accept w evs ++ accept (reach w evs) evs' := by
  induction evs generalizing w with
  | nil => rfl
  | cons ev evs ih =>
    cases ev with
    | element e =>
      show (if _ then accept w (evs ++ evs') else e :: accept w (evs ++ evs')) = accept w _ ++ _
      rw [ih w, accept]
      split <;> rfl
    | watermark x => exact ih _
    | epoch e => exact ih w
    | death msg => exact ih w

theorem allAbove_cons {w : Watermark} {ev : ArconEvent IN} {evs : List (ArconEvent IN)} :
    AllAbove w (ev :: evs) ↔ (∀ e, ev = .element e → w < e.timestamp.getD u64Max) ∧
      AllAbove (reach w [ev]) evs := by
  refine ⟨fun h => ⟨fun e he => h [] e evs (by rw [he]; rfl), fun before e after hev => ?_⟩,
    fun h before e after hev => ?_⟩
  · rw [← reach_append]
    exact h (ev :: before) e after (by rw [hev]; rfl)
  · cases before with
    | nil =>
      cases hev
      exact h.1 e rfl
    | cons x before =>
      obtain ⟨rfl, htail⟩ := List.cons_eq_cons.mp hev
      have := h.2 before e after htail
      rwa [← reach_append] at this

/-- Nothing is held back exactly if every element is above the watermarks before it. -/
theorem accept_eq_elements (w : Watermark) (evs : List (ArconEvent IN)) :
    accept w evs = elements evs ↔ AllAbove w evs := by
  induction evs generalizing w with
  | nil =>
    refine iff_of_true rfl fun before e after h => ?_
    simp at h
  | cons ev evs ih =>
    rw [allAbove_cons]
    cases ev with
    | element e =>
      unfold accept
      split
      · rename_i hle
        refine iff_of_false (fun heq => ?_) fun h => absurd (h.1 e rfl) (not_lt.mpr hle)
        have hlen := congrArg List.length heq
        have hle' := length_accept_le w evs
        change _ = (elements evs).length + 1 at hlen
        omega
      · rename_i hlt
        refine (List.cons_inj_right e).trans ((ih w).trans ?_)
        refine (and_iff_right ?_).symm
        rintro e' ⟨⟩
        exact not_le.mp hlt
    | watermark x => exact (ih _).trans (and_iff_right fun e he => by cases he).symm
    | epoch x => exact (ih w).trans (and_iff_right fun e he => by cases he).symm
    | death msg => exact (ih w).trans (and_iff_right fun e he => by cases he).symm

/-! ## The node -/

/-- An element or a watermark. -/
def ArconEvent.isData : ArconEvent IN → Bool
  | .element _ => true
  | .watermark _ => true
  | _ => false

variable {n : Node σ TS IN OUT} {v : View IN OUT TS} {c : NodeID}

/-- A node that has been fed some events of channel `c`, none of them a marker. -/
structure Fed (c : NodeID) (evs : List (ArconEvent IN)) (v : View IN OUT TS) : Prop where
  failed : v.failed = false
  free : v.state.blockedChannels = ∅
  watermark : v.state.watermark c = reach 0 evs
  accepted : accepted v.acts = accept 0 evs

/-- **One event**: what the channel lets through is handed to the operator. -/
theorem Fed.event {evs : List (ArconEvent IN)} (h : Fed c evs v) {ev : ArconEvent IN}
    (hev : ev.isData = true) : Fed c (evs ++ [ev]) (event n v c ev) := by
  have hstep : Control.event n v c ev = step v c ev := by
    unfold Control.event
    rw [h.failed]
    cases ev <;> first | rfl | cases hev
  rw [hstep]
  refine ⟨h.failed, ?_, ?_, ?_⟩
  · rw [step_state, next_blockedChannels]
    cases ev <;> first | exact h.free | cases hev
  · rw [step_state, next_watermark, if_pos rfl, h.watermark, reach_append]
  · rw [step_acts, accepted_append, h.accepted, accept_append, ← h.watermark]
    congr 1
    cases ev with
    | element e =>
      unfold acts accept
      dsimp only
      split <;> rfl
    | watermark x =>
      unfold acts
      dsimp only
      split <;> rfl
    | epoch e => cases hev
    | death msg => cases hev

theorem Fed.events {evs : List (ArconEvent IN)} (h : Fed c evs v) (evs' : List (ArconEvent IN))
    (hev : ∀ ev ∈ evs', ev.isData = true) : Fed c (evs ++ evs') (events n v c evs') := by
  induction evs' using List.reverseRecOn with
  | nil =>
    rw [List.append_nil]
    exact h
  | append_singleton evs' ev ih =>
    rw [events_snoc, ← List.append_assoc]
    exact (ih fun e he => hev e (List.mem_append_left _ he)).event (hev ev (by simp))

theorem Fed.deliver {evs : List (ArconEvent IN)} (h : Fed c evs v) (hn : c ∈ n.inChannels)
    {d : Delivery IN} (hd : d.sender = c) (hev : ∀ ev ∈ d.events, ev.isData = true) :
    Fed c (evs ++ d.events) (deliver n v d).dropErr := by
  have hfree : d.sender ∉ v.state.blockedChannels := by
    rw [h.free]
    exact Finset.notMem_empty _
  have hdel : Control.deliver n v d = Control.events n v d.sender d.events := by
    unfold Control.deliver
    rw [if_pos (hd ▸ hn), if_neg hfree]
  rw [hdel, hd]
  have hfed := h.events (n := n) d.events hev
  exact ⟨rfl, hfed.free, hfed.watermark, hfed.accepted⟩

theorem isData_stream {interval : Nat} {f : IN → Nat} (data : List IN) :
    ∀ ev ∈ stream interval f data, ev.isData = true := by
  have hafter : ∀ ev ∈ (Progress.after interval f data).events, ev.isData = true := by
    induction data using List.reverseRecOn with
    | nil => exact fun ev h => absurd h List.not_mem_nil
    | append_singleton data a ih =>
      rw [Progress.after_snoc]
      unfold Progress.next
      intro ev h
      split at h <;>
      · rcases List.mem_append.mp h with h | h
        · exact ih ev h
        · simp at h
          rcases h with rfl | rfl <;> rfl
  intro ev h
  rcases List.mem_append.mp h with h | h
  · exact hafter ev h
  · obtain rfl := List.mem_singleton.mp h
    rfl

/-! ## Together -/

section Together

variable [TimerBackend τ TS P] {s₀ s : NodeSt σ τ IN OUT TS P} {ds : List (Delivery IN)}

/-- **A node fed over one channel** hands on what the channel lets through. -/
theorem accepted_run (hfresh : Fresh n s₀) (hc : c ∈ n.inChannels) (hd : ∀ d ∈ ds, d.sender = c)
    (hev : ∀ ev ∈ ds.flatMap Delivery.events, ev.isData = true) (hrun : run n ds s₀ = .ok () s) :
    accepted s.ctx.log = accept 0 (ds.flatMap Delivery.events) := by
  have hwp := wp_run ds (I := fun done v => Fed c (done.flatMap Delivery.events) v)
    hfresh.eq.2.1 hfresh.wf ?_ ?_
  · have hfed := (wp_ok hwp hrun).1.accepted
    rwa [show s.view.acts = s.ctx.log.filter Act.isMark from rfl, accepted_marks] at hfed
  · rw [hfresh.view]
    have hw := hfresh.watermark c
    rw [hfresh.eq.1] at hw
    exact ⟨rfl, rfl, hw, rfl⟩
  · intro done d rest s' hds _ _ hI
    have hmem : d ∈ ds := by
      rw [hds]
      simp
    rw [List.flatMap_append]
    have hfed := hI.deliver (n := n) hc (hd d hmem) fun ev h =>
      hev ev (List.mem_flatMap.mpr ⟨d, hmem, h⟩)
    simpa using hfed

variable {σ' τ' TS' P' : Type} [TimerBackend τ' TS' P'] {src : SourceContext σ' TS' IN IN}
  {f : IN → Nat} {data : List IN} {evs : List (ArconEvent IN)}

/-- **No element of a source is discarded** exactly if no interval ends between two records of the
same time. -/
theorem source_accepted (hid : src.operator.Identity) (hf : src.tsExtractor = some f)
    (hinterval : 1 ≤ src.watermarkInterval) (hsorted : data.Pairwise fun a b => f a ≤ f b)
    (hpos : ∀ a ∈ data, 1 ≤ f a)
    (hsource : CollectionSource.Emits τ' src data evs ∨ LocalFileSource.Emits τ' src data evs)
    (hc : c ∈ n.inChannels) (hfresh : Fresh n s₀) (hd : ∀ d ∈ ds, d.sender = c)
    (hds : ds.flatMap Delivery.events = evs) (hrun : run n ds s₀ = .ok () s) :
    accepted s.ctx.log = elements evs ↔ Separated src.watermarkInterval f data := by
  have hstream : evs = stream src.watermarkInterval f data :=
    hsource.elim (collection_emits hid hf) (file_emits hid hf)
  rw [accepted_run hfresh hc hd (by rw [hds, hstream]; exact isData_stream data) hrun, hds,
    accept_eq_elements, hstream, allAbove_stream hinterval data hsorted hpos]

end Together

/-- A source of numbers that are their own timestamps, with a watermark after each of them. -/
def eachMarked : SourceContext Unit Empty Int Int := ⟨some Int.toNat, 1, Map.new id⟩

/-- Its events for some numbers, as one message of channel 1. -/
def eachMarkedRun (data : List Int) : List (Delivery Int) :=
  [.onLocal ⟨stream 1 Int.toNat data, 1⟩]

theorem eachMarked_emits (data : List Int) :
    CollectionSource.Emits Unit eachMarked data (stream 1 Int.toNat data) :=
  collection_terminates Map.identity rfl () () [] rfl data

theorem source_accepted_distinct :
    isOk (run (filterNode [1]) (eachMarkedRun [1, 2]) (filterStart [1])) = true ∧
      accepted (final (run (filterNode [1]) (eachMarkedRun [1, 2]) (filterStart [1]))).ctx.log =
        elements (stream 1 Int.toNat [1, 2]) := by
  have hok : isOk (run (filterNode [1]) (eachMarkedRun [1, 2]) (filterStart [1])) = true := by
    decide +kernel
  refine ⟨hok, (source_accepted Map.identity rfl (by decide) (by decide) (by decide)
    (.inl (eachMarked_emits [1, 2])) (List.mem_singleton_self 1) (filterStart_fresh [1])
    (by decide) (by decide) (eq_ok_of_isOk hok)).mpr ?_⟩
  intro before a b after h _
  cases before with
  | nil =>
    cases h
    decide
  | cons x before =>
    have := congrArg List.length h
    simp at this
    omega

/-- **Records of the same time are discarded** behind the watermark of the first of them. -/
theorem equal_times_discarded :
    CollectionSource.Emits Unit eachMarked [1, 1] (stream 1 Int.toNat [1, 1]) ∧
      isOk (run (filterNode [1]) (eachMarkedRun [1, 1]) (filterStart [1])) = true ∧
      accepted (final (run (filterNode [1]) (eachMarkedRun [1, 1]) (filterStart [1]))).ctx.log ≠
        elements (stream 1 Int.toNat [1, 1]) :=
  ⟨eachMarked_emits [1, 1], by decide +kernel, by decide +kernel⟩

end Arcon

import Arcon.Node.Punctual

/-!
# Pipelines of function nodes

Nodes behind one another, each with one in-channel, except for the first. Such a pipeline computes
one function, `andThen` of those of its nodes. The nodes take their checkpoints at different times,
while messages are under way between them, and no one stops the pipeline for it. All the same, the
checkpoints of one epoch belong together.

* `andThen`, `transduce_andThen`: two functions as one.
* `FunctionRun.cut`: a checkpoint of a function node, and what it had put out.
* **`consistent_snapshot`**: the checkpoints of an epoch are a state of the pipeline as one
  function.

Out of scope: runs in which a node panics, and what happens behind it then. A node whose checkpoint
fails is in scope: it goes on with its channels blocked. The function of a node is any `Udf` over
its own state; that a state in a backend behaves like a value is shown for each kind of state in
`State`.
-/

namespace Arcon

open Exec Node

variable {σ τ IN MID OUT : Type}

/-! ## Two functions as one -/

/-- Call the function on some values, one after the other. -/
def callEach (udf : IN → Udf σ (List OUT)) : List IN → Udf σ (List OUT)
  | [] => pure []
  | x :: xs => do
    let result ← udf x
    let rest ← callEach udf xs
    pure (result ++ rest)

/-- The one function, and then the other on what it returned; each has its own state. -/
def andThen (f : IN → Udf σ (List MID)) (g : MID → Udf τ (List OUT)) (x : IN) :
    Udf (σ × τ) (List OUT) := do
  let mids ← zoom Prod.fst (fun s p => (s, p.2)) (f x)
  zoom Prod.snd (fun t p => (p.1, t)) (callEach g mids)

/-- The results of one element, as elements. -/
theorem transduce_results {g : MID → Udf τ (List OUT)} {mids : List MID} {timestamp : Option Nat}
    {outs : List (ArconElement OUT)} {t t' : τ}
    (h : transduce g (mids.map (⟨·, timestamp⟩)) t = .ok outs t') :
    ∃ items, callEach g mids t = .ok items t' ∧ outs = items.map (⟨·, timestamp⟩) := by
  induction mids generalizing t outs with
  | nil =>
    cases h
    exact ⟨[], rfl, rfl⟩
  | cons y mids ih =>
    obtain ⟨result, t₁, hy, h⟩ := of_bind_ok h
    obtain ⟨rest, t₂, hrest, h⟩ := of_bind_ok h
    cases h
    obtain ⟨items, hitems, rfl⟩ := ih hrest
    exact ⟨result ++ items, (bind_ok hy).trans (bind_ok hitems), (List.map_append ..).symm⟩

/-- **Two streams are one stream.** -/
theorem transduce_andThen {f : IN → Udf σ (List MID)} {g : MID → Udf τ (List OUT)}
    {es : List (ArconElement IN)} {mids : List (ArconElement MID)} {outs : List (ArconElement OUT)}
    {s s' : σ} {t t' : τ} (hf : transduce f es s = .ok mids s')
    (hg : transduce g mids t = .ok outs t') :
    transduce (andThen f g) es (s, t) = .ok outs (s', t') := by
  induction es generalizing s t mids outs with
  | nil =>
    cases hf
    cases hg
    rfl
  | cons e es ih =>
    obtain ⟨result, s₁, he, hf⟩ := of_bind_ok hf
    obtain ⟨rest, s₂, hrest, hf⟩ := of_bind_ok hf
    cases hf
    rw [transduce_append] at hg
    obtain ⟨outs₁, t₁, hresult, hg⟩ := of_bind_ok hg
    obtain ⟨outs₂, t₂, hmids, hg⟩ := of_bind_ok hg
    cases hg
    obtain ⟨items, hitems, rfl⟩ := transduce_results hresult
    have hone : andThen f g e.data (s, t) = .ok items (s₁, t₁) :=
      (bind_ok (zoom_ok he)).trans (zoom_ok hitems)
    exact (bind_ok hone).trans (bind_ok (ih hrest hmids))

/-! ## Checkpoints -/

/-- The function has come to `s` at the marker of `e` among the events, and what it had put out is
what stands before the marker in `outs`. -/
def Cut (udf : IN → Udf σ (List OUT)) (s₀ : σ) (evs : List (NodeID × ArconEvent IN))
    (outs : List (ArconEvent OUT)) (e : Epoch) (s : σ) : Prop :=
  ∃ its c rest before post, evs = its ++ (c, .epoch e) :: rest ∧
    outs = before ++ .epoch e :: post ∧
      transduce udf (onTime its) s₀ = .ok (elements before) s

theorem elements_handed {TS : Type} {l : List (Act IN OUT TS)}
    (hfwd : ∀ e, .forward (.element e) ∉ l) : elements (handed l) = outputElements l := by
  induction l with
  | nil => rfl
  | cons a l ih =>
    have ih := ih fun e he => hfwd e (List.mem_cons_of_mem a he)
    cases a with
    | output ev =>
      cases ev with
      | element e => exact congrArg (e :: ·) ih
      | _ => exact ih
    | forward ev =>
      cases ev with
      | element e => exact absurd List.mem_cons_self (hfwd e)
      | _ => exact ih
    | _ => exact ih

/-- An increasing marker stands in one place. -/
theorem marker_split {evs a b a' b' : List (ArconEvent IN)} {e : Epoch}
    (hlt : (markers evs).Pairwise (· < ·)) (h : evs = a ++ .epoch e :: b)
    (h' : evs = a' ++ .epoch e :: b') : a = a' := by
  rw [h, markers_append, List.pairwise_append] at hlt
  have hmarked : ∀ {l : List (ArconEvent IN)}, .epoch e ∈ l → e ∈ markers l := fun hmem =>
    List.mem_filterMap.mpr ⟨_, hmem, rfl⟩
  have hbefore : .epoch e ∉ a := fun hmem =>
    lt_irrefl e (hlt.2.2 e (hmarked hmem) e List.mem_cons_self)
  have hbehind : .epoch e ∉ b := fun hmem =>
    lt_irrefl e (List.rel_of_pairwise_cons hlt.2.1 (hmarked hmem))
  exact ((List.append_cons_inj_of_notMem hbefore hbehind).mp (h.symm.trans h')).1

namespace FunctionRun

variable {udf : IN → Udf σ (List OUT)} (r : FunctionRun udf)

/-- There is a checkpoint of `e` in which the operator's state is `s`. -/
def Saved (e : Epoch) (s : σ) : Prop :=
  ∃ dir snap, r.node.checkpointDir = some dir ∧
    (checkpointPath r.node dir e, snap) ∈ r.final.checkpoints ∧ snap.operator = s

theorem saved_of_mem {r : FunctionRun udf} {dir : String} {e : Epoch} {s : σ}
    (hdir : r.node.checkpointDir = some dir)
    (h : (checkpointPath r.node dir e, s) ∈
      r.final.checkpoints.map fun q => (q.1, q.2.operator)) : r.Saved e s := by
  obtain ⟨⟨path, snap⟩, hmem, heq⟩ := List.mem_map.mp h
  cases heq
  exact ⟨dir, snap, hdir, hmem, rfl⟩

/-- **A checkpoint of a function node.** -/
theorem cut {e : Epoch} {s : σ} (h : r.Saved e s) :
    Cut udf r.start.ctx.operator r.input r.sent e s := by
  obtain ⟨dir, snap, hdir, hmem, rfl⟩ := h
  obtain ⟨pre, rest, c, hcut⟩ := Control.run_cut r.fresh r.ran hdir hmem
  obtain ⟨its, q, hits, hhandled⟩ := hcut.marker
  have hfwd : ∀ e, .forward (.element e) ∉ pre := fun e he => r.not_forwarded e (by
    rw [hcut.log]
    exact List.mem_append_left _ he)
  have hstart : r.start.ctx.log = [] := r.fresh.eq.2.2.1
  have hdrive := hcut.drive
  rw [r.operator] at hdrive
  obtain ⟨outs, htrans, hout⟩ := wp_ok (drive_flatMap udf _ r.start.ctx) hdrive
  rw [hcut.calls, outputElements_filter_isCall, hstart, ← elements_handed hfwd] at hout
  refine ⟨its, q, iterated rest, handed pre, handed rest, ?_, ?_, ?_⟩
  · rw [input, hcut.log, iterated_append, hits, List.append_assoc]
    rfl
  · rw [sent, hcut.log, handed_append]
    rfl
  · rw [← hhandled, hout, ← hcut.operator]
    exact htrans

end FunctionRun

/-! ## Pipelines -/

/-- Function nodes behind one another: the function they compute, where it starts, the events of the
first one, what the last one put out, and the checkpoints of each epoch. A node behind the first has
one in-channel, which comes from a `Forward` whose sends succeed; some of what was put out for it
may be under way. -/
inductive Pipeline {IN : Type} : {σ OUT : Type} → (IN → Udf σ (List OUT)) → σ →
    List (NodeID × ArconEvent IN) → List (ArconEvent OUT) → (Epoch → σ → Prop) → Prop
  | first {σ OUT : Type} {udf : IN → Udf σ (List OUT)} (r : FunctionRun udf) :
    Pipeline udf r.start.ctx.operator r.input r.sent r.Saved
  | next {σ τ MID OUT : Type} {f : IN → Udf σ (List MID)} {g : MID → Udf τ (List OUT)} {s₀ : σ}
    {evs : List (NodeID × ArconEvent IN)} {mids : List (ArconEvent MID)}
    {saved : Epoch → σ → Prop} (init : Pipeline f s₀ evs mids saved) (r : FunctionRun g)
    (c : NodeID) (channel : r.node.inChannels = [c])
    (inbound : ChannelStrategy.Forwards c mids (received c r.messages)) :
    Pipeline (andThen f g) (s₀, r.start.ctx.operator) evs r.sent
      fun e s => saved e s.1 ∧ r.Saved e s.2

/-- A pipeline puts out what its last node does. -/
theorem Pipeline.last {udf : IN → Udf σ (List OUT)} {s₀ : σ} {evs : List (NodeID × ArconEvent IN)}
    {outs : List (ArconEvent OUT)} {saved : Epoch → σ → Prop}
    (h : Pipeline udf s₀ evs outs saved) : Punctual outs ∧ (markers outs).Pairwise (· < ·) := by
  cases h with
  | first r => exact ⟨r.punctual, r.markers_lt⟩
  | next _ r => exact ⟨r.punctual, r.markers_lt⟩

namespace FunctionRun

variable {udf : IN → Udf σ (List OUT)} (r : FunctionRun udf)

/-- A node with one channel iterates over what it receives from there. -/
theorem input_of_channel {c : NodeID} (hc : r.node.inChannels = [c]) :
    r.input.map Prod.snd <+: received c r.messages ∧ ∀ t ∈ r.input, t.1 = c := by
  have hdue : ∀ q, eventsOf q r.input <+:
      if q ∈ r.node.inChannels then received q r.messages else [] :=
    Control.run_iterated r.fresh r.ran
  have hall : ∀ t ∈ r.input, t.1 = c := by
    intro t ht
    by_contra hne
    have hpre := hdue t.1
    rw [if_neg (by simpa [hc] using hne), List.prefix_nil] at hpre
    have hmem : t.2 ∈ eventsOf t.1 r.input :=
      List.mem_map_of_mem (List.mem_filter.mpr ⟨ht, by simp⟩)
    rw [hpre] at hmem
    cases hmem
  have hpre := hdue c
  rw [if_pos (by simp [hc])] at hpre
  unfold eventsOf at hpre
  rw [List.filter_eq_self.mpr fun t ht => decide_eq_true (hall t ht)] at hpre
  exact ⟨hpre, hall⟩

end FunctionRun

/-- Behind function nodes nothing is late. -/
theorem onTime_of_channel {its : List (NodeID × ArconEvent IN)} {c : NodeID}
    (hc : ∀ t ∈ its, t.1 = c) (h : Punctual (its.map Prod.snd)) :
    onTime its = elements (its.map Prod.snd) := by
  refine onTime_of_punctual fun c' => ?_
  by_cases hcc : c' = c
  · subst hcc
    unfold eventsOf
    rw [List.filter_eq_self.mpr (by simpa using hc)]
    exact h
  · rw [eventsOf_eq_nil fun t ht htc => hcc (htc.symm.trans (hc t ht))]
    exact punctual_nil

/-- The checkpoints of an epoch are a state of the pipeline as one function. -/
theorem Pipeline.cut {udf : IN → Udf σ (List OUT)} {s₀ : σ} {evs : List (NodeID × ArconEvent IN)}
    {outs : List (ArconEvent OUT)} {saved : Epoch → σ → Prop} (h : Pipeline udf s₀ evs outs saved)
    {e : Epoch} {s : σ} (hsaved : saved e s) : Cut udf s₀ evs outs e s := by
  induction h with
  | first r => exact r.cut hsaved
  | @next σ τ MID OUT f g s₀ evs mids saved init r c hchannel hinbound ih =>
    obtain ⟨hf, hg⟩ := hsaved
    obtain ⟨its, q, rest, mids₁, post₁, hevs, hmids, htrans⟩ := ih hf
    obtain ⟨its₂, q₂, rest₂, before, post, hinput, hsent, htrans₂⟩ := r.cut hg
    obtain ⟨hpunctual, hlt⟩ := init.last
    obtain ⟨hpre, hall⟩ := r.input_of_channel hchannel
    -- the marker at which the second node took its checkpoint is the one the first one put out
    obtain ⟨way, hway⟩ := hpre.trans hinbound.isPrefix
    have hmids₂ : mids = its₂.map Prod.snd ++ .epoch e :: (rest₂.map Prod.snd ++ way) := by
      rw [← hway, hinput]
      simp
    have hsame : mids₁ = its₂.map Prod.snd := marker_split hlt hmids hmids₂
    have hsnd : Punctual (its₂.map Prod.snd) := by
      rw [← hsame]
      refine hpunctual.of_prefix ?_
      rw [hmids]
      exact List.prefix_append _ _
    have hchan : ∀ t ∈ its₂, t.1 = c := fun t ht => hall t (by
      rw [hinput]
      exact List.mem_append_left _ ht)
    rw [onTime_of_channel hchan hsnd, ← hsame] at htrans₂
    exact ⟨its, q, rest, before, post, hevs, hsent, transduce_andThen htrans htrans₂⟩

/-- **The checkpoints of an epoch belong together.** For every pipeline of function nodes, in every
run of each of them that does not panic, with messages still under way between any two: if all nodes
have a checkpoint of epoch `e`, then the states in these are, together, the state to which the
function of the pipeline comes on the elements before the marker of `e` where the first node
completed it; and what the last node had put out before its marker are the results up to there. So a
pipeline that is set back to the checkpoints of an epoch neither forgets an element before the
marker nor has seen one behind it. -/
theorem consistent_snapshot {udf : IN → Udf σ (List OUT)} {s₀ : σ}
    {evs : List (NodeID × ArconEvent IN)} {outs : List (ArconEvent OUT)} {saved : Epoch → σ → Prop}
    (h : Pipeline udf s₀ evs outs saved) {e : Epoch} {s : σ} (hsaved : saved e s) :
    Cut udf s₀ evs outs e s :=
  h.cut hsaved

/-- An element on each channel before its marker, and one behind it. -/
def markedRun : List (Delivery Int) :=
  [.onLocal (.element 1 (some 5) 1), .onLocal (.epoch 1 1), .onLocal (.element 9 (some 6) 1),
    .onNetwork ⟨[.element ⟨2, some 4⟩, .watermark 3, .epoch 1], 2⟩]

/-- The first node of a pipeline. -/
def markedSums : FunctionRun sums where
  node := sumsNode
  start := sumsStart
  messages := markedRun
  final := final (run sumsNode markedRun sumsStart)
  operator := sumsNode_operator
  fresh := sumsStart_fresh
  ran := eq_ok_of_isOk (by decide +kernel)

/-- The node behind it, which has not got the last element yet. -/
def relayNode : Node Int Empty Int Int := { sumsNode with id := 1, inChannels := [0] }

/-- It, started on an empty backend. -/
def relayStart : NodeSt Int Unit Int Int Empty Unit where
  state := ⟨[0].foldl initWatermark ∅, some 0, some 0, ∅, []⟩
  ctx := ⟨0, (), []⟩
  metrics := { NodeMetrics.new with inboundChannels := 1 }
  borrowed _ := false
  checkpoints := []

/-- What it gets. -/
def relayRun : List (Delivery Int) :=
  [.onNetwork ⟨[.element ⟨0, some 5⟩, .element ⟨1, some 5⟩, .element ⟨1, some 4⟩], 0⟩,
    .onNetwork ⟨[.element ⟨2, some 4⟩, .epoch 1, .element ⟨3, some 6⟩], 0⟩]

/-- The second node. -/
def relayedSums : FunctionRun sums where
  node := relayNode
  start := relayStart
  messages := relayRun
  final := final (run relayNode relayRun relayStart)
  operator := rfl
  fresh := ⟨0, (), rfl⟩
  ran := eq_ok_of_isOk (by decide +kernel)

theorem consistent_snapshot_sums :
    markedSums.Saved 1 3 ∧ relayedSums.Saved 1 4 ∧
      Cut (andThen sums sums) (0, 0) markedSums.input relayedSums.sent 1 (3, 4) := by
  have hfirst : markedSums.Saved 1 3 := FunctionRun.saved_of_mem rfl (by decide +kernel)
  have hnext : relayedSums.Saved 1 4 := FunctionRun.saved_of_mem rfl (by decide +kernel)
  have hcalls : added (markedSums.sent.map .add ++ [.flush]) = markedSums.sent := by
    decide +kernel
  have hinbound : ChannelStrategy.Forwards 0 markedSums.sent (received 0 relayedSums.messages) := by
    rw [← hcalls]
    refine ChannelStrategy.forwards_of_isOk ⟨2, 8⟩ .onLocal
      (List.replicate 30 (.sender (.ok ()))) (fun tell h => ?_) (by decide +kernel)
      (by decide +kernel)
    cases List.eq_of_mem_replicate h
    rfl
  have hpipe := Pipeline.next (.first markedSums) relayedSums 0 rfl hinbound
  have hcut := consistent_snapshot hpipe (e := 1) (s := (3, 4)) ⟨hfirst, hnext⟩
  exact ⟨hfirst, hnext, hcut⟩

end Arcon

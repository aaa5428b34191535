import Arcon.Lib.Sharding
import Arcon.Node.Pipeline

/-!
# A stage of nodes behind a `KeyBy`

A keyed function can be run on several nodes. `KeyBy` gives each of them the elements of its own
keys, and all control events. The nodes know nothing of each other, and each is at another place of
the stream.

* **`scaled_out`**: together they put out what one node would put out.
* **`sharded_snapshot`**: their checkpoints of one epoch are the state of one node at the marker.

What is assumed of a stage: all sends of the `KeyBy` succeed (`Deals`; it ignores a send that does
not), the function looks at and changes nothing but the part of its state that belongs to the key of
an element (`Local`), and no node panics. Out of scope: adding or removing nodes in a run, and how
the part of a node is found in its backend.
-/

namespace Arcon

open Exec Node Sharding

variable {σ τ V IN MID OUT : Type}

/-! ## The results of each element -/

/-- The results of some elements, as elements. -/
def results (log : List (ArconElement IN × List OUT)) : List (ArconElement OUT) :=
  log.flatMap fun p => p.2.map (⟨·, p.1.timestamp⟩)

/-- The function on some elements. -/
def answers (udf : IN → Udf σ (List OUT)) :
    List (ArconElement IN) → Udf σ (List (ArconElement IN × List OUT)) :=
  each fun e => udf e.data

theorem transduce_eq_answers (udf : IN → Udf σ (List OUT)) (es : List (ArconElement IN)) :
    transduce udf es = (do
      let log ← answers udf es
      pure (results log)) := by
  induction es with
  | nil => rfl
  | cons e es ih =>
    unfold answers at ih ⊢
    simp only [transduce, each, ih, bind_assoc, pure_bind]
    rfl

theorem answers_of_transduce {udf : IN → Udf σ (List OUT)} {es : List (ArconElement IN)}
    {outs : List (ArconElement OUT)} {s s' : σ} (h : transduce udf es s = .ok outs s') :
    ∃ log, answers udf es s = .ok log s' ∧ results log = outs := by
  rw [transduce_eq_answers] at h
  obtain ⟨log, s₁, hlog, h⟩ := of_bind_ok h
  cases h
  exact ⟨log, hlog, rfl⟩

/-- **What a function node has put out.** -/
theorem FunctionRun.transduced {udf : IN → Udf σ (List OUT)} (r : FunctionRun udf) :
    transduce udf (onTime r.input) r.start.ctx.operator =
      .ok (elements r.sent) r.final.ctx.operator := by
  obtain ⟨outs, htrans, hout⟩ :=
    transduces_flatMap udf r.node r.start r.final r.messages r.operator r.fresh r.ran
  rw [handed_elements r.not_forwarded] at hout
  have hsame : elements r.sent = outs := by
    rw [sent, elements_handed r.not_forwarded]
    exact List.map_injective_iff.mpr (fun _ _ h => ArconEvent.element.inj h) hout
  rw [hsame]
  exact htrans

theorem mem_elements {evs : List (ArconEvent IN)} {e : ArconElement IN} :
    e ∈ elements evs ↔ .element e ∈ evs := by
  unfold elements
  rw [List.mem_filterMap]
  constructor
  · rintro ⟨ev, hev, he⟩
    cases ev with
    | element e' =>
      cases he
      exact hev
    | _ => cases he
  · exact fun he => ⟨_, he, rfl⟩

/-! ## The stage -/

/-- Some nodes with one function behind a `KeyBy`, each with one in-channel. -/
structure Stage (g : MID → Udf τ (List OUT)) (mids : List (ArconEvent MID)) where
  sender : NodeID
  maxKey : Nat
  key : MID → Nat
  size : Nat
  node : Fin size → FunctionRun g
  channel : ∀ i, (node i).node.inChannels = [sender]
  inbound : ChannelStrategy.Deals sender maxKey key size mids
    fun i => received sender (node i).messages

namespace Stage

variable {g : MID → Udf τ (List OUT)} {mids : List (ArconEvent MID)} (stage : Stage g mids)

/-- The node of a key. -/
def owner (k : Nat) : Nat := KeyBy.owner stage.maxKey stage.size k

/-- The elements of the keys of a node. -/
def shareOf (i : Nat) (es : List (ArconElement MID)) : List (ArconElement MID) :=
  es.filter fun e => stage.owner (stage.key e.data) = i

/-- The events of a node. -/
def eventsFor (i : Nat) (evs : List (ArconEvent MID)) : List (ArconEvent MID) :=
  evs.filter (KeyBy.share stage.maxKey stage.size stage.key i)

theorem elements_eventsFor (i : Nat) (evs : List (ArconEvent MID)) :
    elements (stage.eventsFor i evs) = stage.shareOf i (elements evs) := by
  induction evs with
  | nil => rfl
  | cons ev evs ih =>
    cases ev with
    | element e =>
      by_cases h : stage.owner (stage.key e.data) = i
      · have hshare : KeyBy.share stage.maxKey stage.size stage.key i (.element e) = true :=
          decide_eq_true h
        unfold eventsFor at ih ⊢
        rw [List.filter_cons_of_pos hshare]
        show e :: elements _ = stage.shareOf i (e :: elements evs)
        rw [ih, shareOf, shareOf, List.filter_cons_of_pos (by simpa using h)]
      · have hshare : ¬KeyBy.share stage.maxKey stage.size stage.key i (.element e) = true := by
          simpa [KeyBy.share, owner] using h
        unfold eventsFor at ih ⊢
        rw [List.filter_cons_of_neg hshare, ih]
        show _ = stage.shareOf i (e :: elements evs)
        rw [shareOf, shareOf, List.filter_cons_of_neg (by simpa using h)]
    | _ => exact ih

/-- What a node of the stage has iterated over is the first part of its share, and nothing of it is
late. -/
theorem input_isPrefix (hmids : Punctual mids) (i : Fin stage.size) :
    ((stage.node i).input.map Prod.snd <+: stage.eventsFor i mids) ∧
      ∀ its, its <+: (stage.node i).input → onTime its = elements (its.map Prod.snd) := by
  obtain ⟨hpre, hall⟩ := (stage.node i).input_of_channel (stage.channel i)
  have hshare := hpre.trans (stage.inbound.isPrefix i)
  refine ⟨hshare, fun its hits => onTime_of_channel (fun t ht => hall t (hits.subset ht)) ?_⟩
  have hsub : (its.map Prod.snd).Sublist mids :=
    ((hits.map Prod.snd).trans hshare).sublist.trans List.filter_sublist
  exact hmids.sublist (hsub.cons_cons _)

/-- What a node of the stage has done is the first part of its share of what one node does. -/
theorem done_of_answers {part : Nat → τ → V} (hlocal : Local g stage.key part) {i : Fin stage.size}
    {es ps : List (ArconElement MID)} {log : List (ArconElement MID × List OUT)}
    {outs : List (ArconElement OUT)} {t₀ t s s' : τ} (hone : answers g es t₀ = .ok log t)
    (hstart : Local.Agree part stage.owner i s t₀) (hps : ps <+: stage.shareOf i es)
    (hnode : transduce g ps s = .ok outs s') :
    ∃ done, done <+: log.filter (fun p => stage.owner (stage.key p.1.data) = i) ∧
      outs = results done ∧
      (ps = stage.shareOf i es → done = log.filter (fun p => stage.owner (stage.key p.1.data) = i) ∧
        Local.Agree part stage.owner i s' t) := by
  obtain ⟨t', hall, hagree⟩ := (hlocal.comp ArconElement.data).shard hone hstart
  obtain ⟨done, hdone, rfl⟩ := answers_of_transduce hnode
  obtain ⟨done₁, s₁, hps₁, hpre⟩ := each_of_prefix hall hps
  cases hdone.symm.trans hps₁
  refine ⟨done, hpre, rfl, fun heq => ?_⟩
  subst heq
  cases hdone.symm.trans hall
  exact ⟨rfl, hagree⟩

/-- **Scaling out.** A stage behind any function nodes runs a function that looks at and changes
nothing but the part of its state which belongs to the key of an element; its nodes start with the
parts of the state of one node, which would get through all the elements; and no send of the `KeyBy`
fails. Then at any moment of any run that does not panic each node has put out the first part of
what the one node would put out for the elements of its keys, in that order; and when it has
iterated over all events for it, none of them on its way or kept back, it has put out all of that,
and its state agrees with that of the one node on its keys. -/
theorem scaled_out (hfrom : FromFunction mids) {part : Nat → τ → V}
    (hlocal : Local g stage.key part) {t₀ : τ}
    (hstart : ∀ i k, stage.owner k = i.val → part k (stage.node i).start.ctx.operator = part k t₀)
    {log : List (ArconElement MID × List OUT)} {t : τ}
    (hone : answers g (elements mids) t₀ = .ok log t) (i : Fin stage.size) :
    ∃ done, done <+: log.filter (fun p => stage.owner (stage.key p.1.data) = i) ∧
      elements (stage.node i).sent = results done ∧
      ((stage.node i).input.map Prod.snd = stage.eventsFor i mids →
        done = log.filter (fun p => stage.owner (stage.key p.1.data) = i) ∧
          ∀ k, stage.owner k = i → part k (stage.node i).final.ctx.operator = part k t) := by
  obtain ⟨σ', A, udf, r, rfl⟩ := hfrom
  obtain ⟨hinput, htime⟩ := stage.input_isPrefix r.punctual i
  have hnode := (stage.node i).transduced
  rw [htime _ List.prefix_rfl] at hnode
  have hps : elements ((stage.node i).input.map Prod.snd) <+:
      stage.shareOf i (elements r.sent) := by
    rw [← stage.elements_eventsFor]
    exact hinput.filterMap _
  obtain ⟨done, hpre, hout, hall⟩ := stage.done_of_answers hlocal hone (hstart i) hps hnode
  refine ⟨done, hpre, hout, fun hcaught => hall ?_⟩
  rw [hcaught, stage.elements_eventsFor]

end Stage

/-- The sums so far of the multiples of three, and of the other numbers. -/
def sumsByThree (x : Int) : Udf (Int × Int) (List Int) := do
  let s ← get
  if x % 3 = 0 then
    set (s.1 + x, s.2)
    pure [s.1 + x]
  else
    set (s.1, s.2 + x)
    pure [s.2 + x]

def keyByThree (x : Int) : Nat := if x % 3 = 0 then 0 else 1

def partByThree (k : Nat) (s : Int × Int) : Int := if k = 0 then s.1 else if k = 1 then s.2 else 0

theorem sumsByThree_of_dvd {x : Int} (hx : x % 3 = 0) (s : Int × Int) :
    sumsByThree x s = .ok [s.1 + x] (s.1 + x, s.2) := by
  unfold sumsByThree
  rw [get_bind, if_pos hx]
  rfl

theorem sumsByThree_of_not_dvd {x : Int} (hx : x % 3 ≠ 0) (s : Int × Int) :
    sumsByThree x s = .ok [s.2 + x] (s.1, s.2 + x) := by
  unfold sumsByThree
  rw [get_bind, if_neg hx]
  rfl

theorem local_sumsByThree : Local sumsByThree keyByThree partByThree := by
  constructor
  · intro x s t b s' hpart h
    by_cases hx : x % 3 = 0
    · have hkey : keyByThree x = 0 := if_pos hx
      rw [hkey] at hpart ⊢
      replace hpart : t.1 = s.1 := hpart
      rw [sumsByThree_of_dvd hx] at h
      cases h
      exact ⟨(s.1 + x, t.2), by rw [sumsByThree_of_dvd hx, hpart], rfl⟩
    · have hkey : keyByThree x = 1 := if_neg hx
      rw [hkey] at hpart ⊢
      replace hpart : t.2 = s.2 := hpart
      rw [sumsByThree_of_not_dvd hx] at h
      cases h
      exact ⟨(t.1, s.2 + x), by rw [sumsByThree_of_not_dvd hx, hpart], rfl⟩
  · intro x s b s' h k hk
    by_cases hx : x % 3 = 0
    · have hkey : keyByThree x = 0 := if_pos hx
      rw [sumsByThree_of_dvd hx] at h
      cases h
      simp [partByThree, show k ≠ 0 from hkey ▸ hk]
    · have hkey : keyByThree x = 1 := if_neg hx
      rw [sumsByThree_of_not_dvd hx] at h
      cases h
      simp [partByThree, show k ≠ 1 from hkey ▸ hk]

/-- A node for one of the two. -/
def shareNode (id : NodeID) : Node (Int × Int) Empty Int Int where
  id := id
  inChannels := [0]
  operator := FlatMap.stateful sumsByThree
  checkpointDir := some "/tmp"
  checkpointFails _ := false

/-- It, started on an empty backend. -/
def shareStart : NodeSt (Int × Int) Unit Int Int Empty Unit where
  state := ⟨[0].foldl initWatermark ∅, some 0, some 0, ∅, []⟩
  ctx := ⟨(0, 0), (), []⟩
  metrics := { NodeMetrics.new with inboundChannels := 1 }
  borrowed _ := false
  checkpoints := []

/-- What they get; a nine is under way to the first one. -/
def shareRun : Fin 2 → List (Delivery Int)
  | 0 => [.onLocal (.element 0 (some 5) 0), .onNetwork ⟨[.epoch 1, .element ⟨3, some 6⟩], 0⟩]
  | 1 => [.onNetwork ⟨[.element ⟨1, some 5⟩, .element ⟨1, some 4⟩, .element ⟨2, some 4⟩], 0⟩,
      .onLocal (.epoch 1 0)]

theorem shareRun_isOk : ∀ i : Fin 2,
    isOk (run (shareNode (i + 1)) (shareRun i) shareStart) = true := by
  decide +kernel

/-- Their runs. -/
def shareSums (i : Fin 2) : FunctionRun sumsByThree where
  node := shareNode (i + 1)
  start := shareStart
  messages := shareRun i
  final := final (run (shareNode (i + 1)) (shareRun i) shareStart)
  operator := rfl
  fresh := ⟨(0, 0), (), rfl⟩
  ran := eq_ok_of_isOk (shareRun_isOk i)

theorem shareSums_inbound : ChannelStrategy.Deals 0 2 keyByThree 2 markedSums.sent
    fun i => received 0 (shareSums i).messages := by
  have hcalls : added (markedSums.sent.map .add ++ [.flush]) = markedSums.sent := by
    decide +kernel
  rw [← hcalls]
  refine ChannelStrategy.deals_of_isOk ⟨2, 8⟩ [.onLocal, .onLocal] [0, 1]
    (List.replicate 30 (.sender (.ok ()))) (by decide) (fun tell h => ?_) (by decide +kernel)
    (by decide +kernel)
  cases List.eq_of_mem_replicate h
  rfl

/-- The stage. -/
def byThreeStage : Stage sumsByThree markedSums.sent where
  sender := 0
  maxKey := 2
  key := keyByThree
  size := 2
  node := shareSums
  channel _ := rfl
  inbound := shareSums_inbound

theorem scaled_out_byThree : ∃ log t done,
    answers sumsByThree (elements markedSums.sent) (0, 0) = .ok log t ∧
      done <+: log.filter (fun p => byThreeStage.owner (keyByThree p.1.data) = 0) ∧
        elements (shareSums 0).sent = results done := by
  obtain ⟨log, t, hone⟩ := exists_of_isOk
    (r := answers sumsByThree (elements markedSums.sent) (0, 0)) (by decide +kernel)
  obtain ⟨done, hpre, hout, -⟩ := byThreeStage.scaled_out ⟨Int, Int, sums, markedSums, rfl⟩
    local_sumsByThree (fun _ _ _ => rfl) hone (0 : Fin 2)
  exact ⟨log, t, done, hone, hpre, hout⟩

/-! ## Checkpoints of the stage -/

namespace Stage

variable {g : MID → Udf τ (List OUT)} {mids : List (ArconEvent MID)} (stage : Stage g mids)

/-- A checkpoint of a node of the stage, where its share has the marker. -/
theorem cut_of_marker (hmids : Punctual mids) (hlt : (markers mids).Pairwise (· < ·))
    {mids₁ post₁ : List (ArconEvent MID)} {e : Epoch} (hsplit : mids = mids₁ ++ .epoch e :: post₁)
    {i : Fin stage.size} {s : τ} (hsaved : (stage.node i).Saved e s) :
    ∃ before post, (stage.node i).sent = before ++ .epoch e :: post ∧
      transduce g (stage.shareOf i (elements mids₁)) (stage.node i).start.ctx.operator =
        .ok (elements before) s := by
  obtain ⟨its, q, rest, before, post, hinput, hsent, htrans⟩ := (stage.node i).cut hsaved
  obtain ⟨hpre, htime⟩ := stage.input_isPrefix hmids i
  obtain ⟨way, hway⟩ := hpre
  have hshare : stage.eventsFor i mids =
      stage.eventsFor i mids₁ ++ .epoch e :: stage.eventsFor i post₁ :=
    (congrArg (stage.eventsFor i) hsplit).trans (List.filter_append ..)
  have hitsplit : stage.eventsFor i mids =
      its.map Prod.snd ++ .epoch e :: (rest.map Prod.snd ++ way) := by
    rw [← hway, hinput]
    simp
  have hincr : (markers (stage.eventsFor i mids)).Pairwise (· < ·) :=
    hlt.sublist (List.filter_sublist.filterMap _)
  have hsame := marker_split hincr hshare hitsplit
  rw [htime its (by rw [hinput]; exact List.prefix_append _ _), ← hsame,
    stage.elements_eventsFor] at htrans
  exact ⟨before, post, hsent, htrans⟩

/-- **The checkpoints of a stage belong together**, and with those of the pipeline before it. The
function of the stage is local to the keys, its nodes start with the parts of the state of one node,
no send of the `KeyBy` fails, and no node panics. If all nodes, those of the pipeline and those of
the stage, have a checkpoint of epoch `e`, then one node for the whole stage would have been, at its
marker of `e`, in a state of which every part is the one in the checkpoint of the node of its key;
and each node has put out before its marker what the one node would have put out for its keys. -/
theorem sharded_snapshot {f : IN → Udf σ (List MID)} {s₀ : σ} {evs : List (NodeID × ArconEvent IN)}
    {saved : Epoch → σ → Prop} (h : Pipeline f s₀ evs mids saved) {part : Nat → τ → V}
    (hlocal : Local g stage.key part) {t₀ : τ}
    (hstart : ∀ i k, stage.owner k = i.val → part k (stage.node i).start.ctx.operator = part k t₀)
    {e : Epoch} {s : σ} {ts : Fin stage.size → τ} (hsaved : saved e s)
    (hnodes : ∀ i, (stage.node i).Saved e (ts i)) :
    ∃ its c rest es log t, evs = its ++ (c, .epoch e) :: rest ∧
      transduce f (onTime its) s₀ = .ok es s ∧ answers g es t₀ = .ok log t ∧
        (∀ i k, stage.owner k = i.val → part k (ts i) = part k t) ∧
        ∀ i, ∃ before post, (stage.node i).sent = before ++ .epoch e :: post ∧
          elements before =
            results (log.filter fun p => stage.owner (stage.key p.1.data) = i.val) := by
  obtain ⟨its, c, rest, mids₁, post₁, hevs, hmids, htrans⟩ := h.cut hsaved
  obtain ⟨hpunctual, hlt⟩ := h.last
  have hcut := fun i => stage.cut_of_marker hpunctual hlt hmids (hnodes i)
  -- the nodes of the stage got through their shares, so one node gets through all of them
  have hone : ∃ log t, answers g (elements mids₁) t₀ = .ok log t := by
    refine (hlocal.comp ArconElement.data).merge stage.owner (W := (· < stage.size))
      (fun e he => ?_) fun i hi => ?_
    · have hmem : .element e ∈ mids := by
        rw [hmids]
        exact List.mem_append_left _ (mem_elements.mp he)
      exact stage.inbound.owner_lt hmem
    · obtain ⟨before, post, -, hi⟩ := hcut ⟨i, hi⟩
      obtain ⟨log, hlog, -⟩ := answers_of_transduce hi
      exact ⟨_, log, _, hstart ⟨i, _⟩, hlog⟩
  obtain ⟨log, t, hlog⟩ := hone
  have hdone : ∀ i : Fin stage.size, Local.Agree part stage.owner i.val (ts i) t ∧
      ∃ before post, (stage.node i).sent = before ++ .epoch e :: post ∧ elements before =
        results (log.filter fun p => stage.owner (stage.key p.1.data) = i.val) := by
    intro i
    obtain ⟨before, post, hsent, hi⟩ := hcut i
    obtain ⟨done, -, hout, hall⟩ := stage.done_of_answers hlocal hlog (hstart i) List.prefix_rfl hi
    obtain ⟨rfl, hagree⟩ := hall rfl
    exact ⟨hagree, before, post, hsent, hout⟩
  exact ⟨its, c, rest, _, log, t, hevs, htrans, hlog, fun i => (hdone i).1, fun i => (hdone i).2⟩

end Stage

theorem sharded_snapshot_byThree : markedSums.Saved 1 3 ∧ (shareSums 0).Saved 1 (0, 0) ∧
    (shareSums 1).Saved 1 (0, 4) ∧ ∃ its c rest es log t,
      markedSums.input = its ++ (c, .epoch 1) :: rest ∧
        transduce sums (onTime its) 0 = .ok es 3 ∧ answers sumsByThree es (0, 0) = .ok log t ∧
          partByThree 0 t = 0 ∧ partByThree 1 t = 4 := by
  have hfirst : markedSums.Saved 1 3 := FunctionRun.saved_of_mem rfl (by decide +kernel)
  have hzero : (shareSums 0).Saved 1 (0, 0) := FunctionRun.saved_of_mem rfl (by decide +kernel)
  have hone : (shareSums 1).Saved 1 (0, 4) := FunctionRun.saved_of_mem rfl (by decide +kernel)
  have hnodes : ∀ i : Fin 2, (shareSums i).Saved 1 (if i.val = 0 then (0, 0) else (0, 4)) := by
    intro i
    match i with
    | 0 => exact hzero
    | 1 => exact hone
  obtain ⟨its, c, rest, es, log, t, hits, hfst, hsnd, hparts, -⟩ := byThreeStage.sharded_snapshot
    (.first markedSums) local_sumsByThree (fun _ _ _ => rfl) hfirst hnodes
  refine ⟨hfirst, hzero, hone, its, c, rest, es, log, t, hits, hfst, hsnd, ?_, ?_⟩
  · exact (hparts (0 : Fin 2) 0 rfl).symm
  · exact (hparts (1 : Fin 2) 1 rfl).symm

end Arcon

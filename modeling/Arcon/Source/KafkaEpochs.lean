import Arcon.Source.Kafka
import Arcon.Node.NoLostEpoch

/-!
# The epochs of a Kafka source and of the node behind it

The source numbers its epochs from 0. A node starts in epoch 0 as well and takes a marker for news
only if it is above its current epoch, so it passes the source's first marker over: the first epoch
is committed at the broker and never checkpointed.

* `lone_run`: a node with one in-channel checkpoints and forwards exactly the markers above all
  earlier ones.
* `committed_checkpointed_iff`: a node behind a Kafka source has checkpointed and forwarded what the
  source has committed exactly if there was no batch, or the commit of the first batch failed and
  the others succeeded.
* `first_epoch_lost`: a run of one batch.
-/

namespace Arcon

open Exec Node Control

variable {σ τ TS IN OUT P : Type}

/-- The epochs above all the ones before them and above `cur`. -/
def news (cur : Nat) : List Nat → List Nat
  | [] => []
  | e :: es => if cur < e then e :: news e es else news cur es

/-- The epoch reached. -/
def peak (cur : Nat) (es : List Nat) : Nat := es.foldl max cur

theorem news_snoc (cur : Nat) (es : List Nat) (e : Nat) :
    news cur (es ++ [e]) = news cur es ++ if peak cur es < e then [e] else [] := by
  induction es generalizing cur with
  | nil => rfl
  | cons e' es ih =>
    show (if cur < e' then e' :: news e' (es ++ [e]) else news cur (es ++ [e])) =
      (if cur < e' then e' :: news e' es else news cur es) ++
        if peak (max cur e') es < e then _ else _
    by_cases h : cur < e'
    · rw [if_pos h, if_pos h, ih e', max_eq_right h.le]
      rfl
    · rw [if_neg h, if_neg h, ih cur, max_eq_left (not_lt.mp h)]

theorem peak_snoc (cur : Nat) (es : List Nat) (e : Nat) :
    peak cur (es ++ [e]) = max (peak cur es) e := List.foldl_append

theorem peak_range (n : Nat) : peak 0 (List.range n) = n - 1 := by
  induction n with
  | zero => rfl
  | succ n ih =>
    rw [List.range_succ, peak_snoc, ih]
    omega

/-- Of 0, 1, 2, … all but the first are news at epoch 0. -/
theorem mem_news_range (n : Nat) (e : Nat) : e ∈ news 0 (List.range n) ↔ 0 < e ∧ e < n := by
  induction n with
  | zero => simp [news]
  | succ n ih =>
    rw [List.range_succ, news_snoc, peak_range, List.mem_append, ih]
    split_ifs with h
    · rw [List.mem_singleton]
      omega
    · simp only [List.not_mem_nil, or_false]
      omega

/-! ## A node with one in-channel -/

variable {n : Node σ TS IN OUT} {v : View IN OUT TS} {c : NodeID}

/-- A node whose only in-channel has delivered some markers. -/
structure Lone (es : List Epoch) (v : View IN OUT TS) : Prop where
  running : v.failed = false
  free : v.state.blockedChannels = ∅
  buffer : v.state.messageBuffer = []
  epoch : v.state.epoch = peak 0 es
  checkpointed : checkpointed v.acts = news 0 es
  forwarded : forwardedEpochs v.acts = news 0 es

/-- A marker of the only channel completes its epoch if it is news. -/
theorem Lone.completes_iff {es : List Epoch} (h : Lone es v) (hn : n.inChannels = [c]) (e : Epoch) :
    Completes n v.state c e ↔ peak 0 es < e := by
  unfold Completes
  rw [h.free, h.epoch, hn]
  simp

/-- The node saves and forwards nothing at an event that completes no epoch. -/
theorem acts_epochs (st : NodeState IN) (c : NodeID) (ev : ArconEvent IN) :
    checkpointed (acts st c ev : List (Act IN OUT TS)) = [] ∧
      forwardedEpochs (acts st c ev : List (Act IN OUT TS)) = [] := by
  unfold acts
  cases ev with
  | element e =>
    dsimp only
    split_ifs <;> exact ⟨rfl, rfl⟩
  | watermark w =>
    dsimp only
    split_ifs <;> exact ⟨rfl, rfl⟩
  | epoch e => exact ⟨rfl, rfl⟩
  | death msg => exact ⟨rfl, rfl⟩

/-- An event that is no marker, or one of an epoch the node has come to. -/
theorem Lone.step {es : List Epoch} (h : Lone es v) {ev : ArconEvent IN}
    (hev : ∀ e, ev = .epoch e → ¬peak 0 es < e) : Lone (es ++ markers [ev]) (step v c ev) := by
  have hnews : news 0 (es ++ markers [ev]) = news 0 es ∧
      peak 0 (es ++ markers [ev]) = peak 0 es := by
    cases ev with
    | epoch e =>
      have hle := hev e rfl
      show news 0 (es ++ [e]) = _ ∧ peak 0 (es ++ [e]) = _
      rw [news_snoc, if_neg hle, List.append_nil, peak_snoc]
      exact ⟨rfl, max_eq_left (not_lt.mp hle)⟩
    | _ =>
      rw [markers_singleton, List.append_nil]
      exact ⟨rfl, rfl⟩
  have hchk : Arcon.checkpointed (acts v.state c ev : List (Act IN OUT TS)) = [] :=
    (acts_epochs v.state c ev).1
  have hfwd : forwardedEpochs (acts v.state c ev : List (Act IN OUT TS)) = [] :=
    (acts_epochs v.state c ev).2
  refine ⟨h.running, ?_, ?_, ?_, ?_, ?_⟩
  · rw [step_state, next_blockedChannels, h.free]
    cases ev with
    | epoch e => exact if_neg (by rw [h.epoch]; exact hev e rfl)
    | _ => rfl
  · rw [step_state, next_messageBuffer, h.buffer]
  · rw [step_state, next_epoch, h.epoch, hnews.2]
  · rw [step_acts, checkpointed_append, hchk, List.append_nil, h.checkpointed, hnews.1]
  · rw [step_acts, forwardedEpochs_append, hfwd, List.append_nil, h.forwarded, hnews.1]

/-- A marker that is news. -/
theorem Lone.proceed {es : List Epoch} (h : Lone es v) {e : Epoch} (he : peak 0 es < e) :
    Lone (es ++ [e]) (proceed (complete v c e) e) := by
  have hopened : Control.proceed (complete v c e) e = opened (complete v c e) e := by
    unfold Control.proceed
    rw [show (complete v c e).state.messageBuffer = [] from h.buffer]
    rfl
  rw [hopened]
  refine ⟨h.running, rfl, rfl, ?_, ?_, ?_⟩
  · rw [peak_snoc, max_eq_right he.le]
    rfl
  · rw [news_snoc, if_pos he, ← h.checkpointed]
    unfold opened complete
    rw [View.note_acts, View.put_acts, View.note_acts, checkpointed_append, checkpointed_append,
      List.append_assoc]
    rfl
  · rw [news_snoc, if_pos he, ← h.forwarded]
    unfold opened complete
    rw [View.note_acts, View.put_acts, View.note_acts, forwardedEpochs_append,
      forwardedEpochs_append, List.append_assoc]
    rfl

/-- **One event.** -/
theorem Lone.event {es : List Epoch} (h : Lone es v) (hn : n.inChannels = [c])
    (hsave : ∀ e, Saves n e) (ev : ArconEvent IN) :
    Lone (es ++ markers [ev]) (event n v c ev) := by
  obtain ⟨hcomp, he⟩ | ⟨e, rfl, hcomp, ⟨-, he⟩ | ⟨hns, -⟩⟩ := event_cases (n := n) c ev h.running
  · rw [he]
    exact h.step fun e hev => fun hlt => hcomp e hev ((h.completes_iff hn e).mpr hlt)
  · rw [he]
    exact h.proceed ((h.completes_iff hn e).mp hcomp)
  · exact absurd (hsave e) hns

theorem Lone.events {es : List Epoch} (h : Lone es v) (hn : n.inChannels = [c])
    (hsave : ∀ e, Saves n e) (evs : List (ArconEvent IN)) :
    Lone (es ++ markers evs) (events n v c evs) := by
  induction evs generalizing es v with
  | nil =>
    rw [show markers ([] : List (ArconEvent IN)) = [] from rfl, List.append_nil]
    exact h
  | cons ev evs ih =>
    have hnext := ih (h.event hn hsave ev)
    rwa [List.append_assoc, ← markers_append] at hnext

theorem Lone.deliver {es : List Epoch} (h : Lone es v) (hn : n.inChannels = [c])
    (hsave : ∀ e, Saves n e) {d : Delivery IN} (hd : d.sender = c) :
    Lone (es ++ markers d.events) (deliver n v d).dropErr := by
  obtain ⟨hc, -⟩ | ⟨-, ⟨hb, -⟩ | ⟨-, he⟩⟩ := deliver_cases (n := n) v d
  · refine absurd ?_ hc
    rw [hn, hd]
    exact List.mem_singleton_self c
  · rw [h.free] at hb
    exact absurd hb (Finset.notMem_empty _)
  · rw [he, hd]
    have hend := h.events hn hsave d.events
    exact ⟨rfl, hend.free, hend.buffer, hend.epoch, hend.checkpointed, hend.forwarded⟩

section Together

variable [TimerBackend τ TS P] {s₀ s : NodeSt σ τ IN OUT TS P} {ds : List (Delivery IN)}

/-- **A node with one in-channel** checkpoints and forwards the markers that are news. -/
theorem lone_run (hfresh : Fresh n s₀) (hn : n.inChannels = [c]) (hsave : ∀ e, Saves n e)
    (hd : ∀ d ∈ ds, d.sender = c) (hrun : run n ds s₀ = .ok () s) :
    checkpointed s.ctx.log = news 0 (markers (ds.flatMap Delivery.events)) ∧
      forwardedEpochs s.ctx.log = news 0 (markers (ds.flatMap Delivery.events)) := by
  have hwp := wp_run ds (I := fun done v => Lone (markers (done.flatMap Delivery.events)) v)
    hfresh.eq.2.1 hfresh.wf ?_ ?_
  · have hlone := (wp_ok hwp hrun).1
    rw [← checkpointed_filter_isMark, ← forwardedEpochs_filter_isMark]
    exact ⟨hlone.checkpointed, hlone.forwarded⟩
  · rw [hfresh.view]
    exact ⟨rfl, rfl, rfl, rfl, rfl, rfl⟩
  · intro done d rest s' hds _ _ hI
    have hmem : d ∈ ds := by
      rw [hds]
      simp
    rw [List.flatMap_append, markers_append]
    simpa using hI.deliver hn hsave (hd d hmem)

/-- There is no batch, or the commit of the first one fails and the others succeed. -/
def RefusedFirst : List Poll → Prop
  | [] => True
  | p :: ps => p.commits = false ∧ ∀ q ∈ ps, q.commits = true

/-- The committed epochs are 1, 2, 3, …, one for each batch but the first. -/
theorem refusedFirst_iff (batches : List Poll) :
    (∀ e, 0 < e ∧ e < batches.length ↔ ∃ p, batches[e]? = some p ∧ p.commits = true) ↔
      RefusedFirst batches := by
  cases batches with
  | nil => exact iff_of_true (by simp) trivial
  | cons p ps =>
    refine ⟨fun h => ⟨?_, fun q hq => ?_⟩, fun h e => ?_⟩
    · by_contra hp
      exact absurd ((h 0).mpr ⟨p, rfl, by simpa using hp⟩).1 (lt_irrefl 0)
    · obtain ⟨i, hi, rfl⟩ := List.getElem_of_mem hq
      obtain ⟨q, hget, hq⟩ := (h (i + 1)).mp ⟨Nat.succ_pos i, by simpa using hi⟩
      rw [List.getElem?_cons_succ, List.getElem?_eq_getElem hi] at hget
      rwa [Option.some.inj hget]
    · cases e with
      | zero =>
        refine iff_of_false (fun he => lt_irrefl 0 he.1) ?_
        rintro ⟨q, hget, hq⟩
        obtain rfl := Option.some.inj hget
        rw [h.1] at hq
        cases hq
      | succ i =>
        rw [List.getElem?_cons_succ, List.length_cons]
        refine ⟨fun he => ?_, fun ⟨q, hget, _⟩ => ⟨Nat.succ_pos i, ?_⟩⟩
        · have hi : i < ps.length := by omega
          exact ⟨ps[i], List.getElem?_eq_getElem hi, h.2 _ (List.getElem_mem hi)⟩
        · have hi := (List.getElem?_eq_some_iff.mp hget).1
          omega

variable {Off : Type} {fromRaw : Int → Off} {fromStr : String → Option IN} {polls : List Poll}
  {offset : Int} {k : KafkaSource Off IN}

/-- **The epochs of the source and of the node are the same** exactly if there was no batch, or the
commit of the first one failed and all others succeeded: the node passes epoch 0 over. -/
theorem committed_checkpointed_iff (hfresh : Fresh n s₀) (hn : n.inChannels = [c])
    (hsave : ∀ e, Saves n e)
    (hsource : KafkaSource.run fromRaw fromStr polls (.new fromRaw offset) = .ok () k)
    (hd : ∀ d ∈ ds, d.sender = c) (hds : ds.flatMap Delivery.events = k.added)
    (hrun : run n ds s₀ = .ok () s) :
    (∀ e, e ∈ checkpointed s.ctx.log ∧ e ∈ forwardedEpochs s.ctx.log ↔ k.Committed e) ↔
      RefusedFirst (polls.filter Poll.full) := by
  have htracks := wp_ok (KafkaSource.tracks_run polls offset) hsource
  obtain ⟨hchk, hfwd⟩ := lone_run hfresh hn hsave hd hrun
  have hmarkers : markers (ds.flatMap Delivery.events) =
      List.range (polls.filter Poll.full).length := by
    rw [hds, htracks.markers, htracks.epoch]
  rw [← refusedFirst_iff]
  refine forall_congr' fun e => ?_
  rw [hchk, hfwd, hmarkers, and_self_iff, mem_news_range, htracks.committed_iff]

end Together

/-- One message with the payload 7, and nothing more within the time of the batch. -/
def seven : List (Except String OwnedMessage) :=
  .ok ⟨some (.ok "7"), some 3, 41⟩ :: List.replicate 99 (.error "no message received")

/-- The number a payload of one digit stands for. -/
def digit (payload : String) : Option Int := if payload = "7" then some 7 else none

/-- A Kafka source of numbers, from offset 0 on. -/
def sevens (polls : List Poll) : EStateM.Result Crash (KafkaSource Int Int) Unit :=
  KafkaSource.run id digit polls (.new id 0)

/-- What it hands on, as one message of channel 1. -/
def sevensRun (polls : List Poll) : List (Delivery Int) :=
  [.onLocal ⟨(final (sevens polls)).added, 1⟩]

/-- Two batches; the first commit fails. -/
def refusedOnce : List Poll := [⟨seven, true, false⟩, ⟨seven, true, true⟩]

/-- The node behind it, when all is handled. -/
def behindSevens (polls : List Poll) : NodeSt Unit Unit Int Int Empty Unit :=
  final (run (filterNode [1]) (sevensRun polls) (filterStart [1]))

theorem committed_checkpointed_iff_refused :
    isOk (sevens refusedOnce) = true ∧
      isOk (run (filterNode [1]) (sevensRun refusedOnce) (filterStart [1])) = true ∧
      ∀ e, e ∈ checkpointed (behindSevens refusedOnce).ctx.log ∧
        e ∈ forwardedEpochs (behindSevens refusedOnce).ctx.log ↔
          (final (sevens refusedOnce)).Committed e := by
  have hsource : isOk (sevens refusedOnce) = true := by decide +kernel
  have hok : isOk (run (filterNode [1]) (sevensRun refusedOnce) (filterStart [1])) = true := by
    decide +kernel
  unfold behindSevens
  refine ⟨hsource, hok, (committed_checkpointed_iff (filterStart_fresh [1]) rfl
    (fun _ => ⟨by decide, rfl⟩) (eq_ok_of_isOk hsource) ?_ ?_ (eq_ok_of_isOk hok)).mpr ?_⟩
  · intro d hd
    obtain rfl := List.mem_singleton.mp hd
    rfl
  · exact List.append_nil _
  · rw [show refusedOnce.filter Poll.full = refusedOnce from rfl]
    refine ⟨rfl, fun q hq => ?_⟩
    obtain rfl := List.mem_singleton.mp hq
    rfl

/-- **The first epoch is lost.** The source commits the offset of its first batch under epoch 0, and
the node, which is in epoch 0, takes no checkpoint at its marker. -/
theorem first_epoch_lost :
    Fresh (filterNode [1]) (filterStart [1]) ∧ (∀ e, Saves (filterNode [1]) e) ∧
      isOk (sevens [⟨seven, true, true⟩]) = true ∧
      isOk (run (filterNode [1]) (sevensRun [⟨seven, true, true⟩]) (filterStart [1])) = true ∧
      ¬∀ e, e ∈ checkpointed (behindSevens [⟨seven, true, true⟩]).ctx.log ∧
        e ∈ forwardedEpochs (behindSevens [⟨seven, true, true⟩]).ctx.log ↔
          (final (sevens [⟨seven, true, true⟩])).Committed e := by
  refine ⟨filterStart_fresh [1], fun _ => ⟨by decide, rfl⟩, by decide +kernel, by decide +kernel,
    fun h => ?_⟩
  have hcommitted : (final (sevens [⟨seven, true, true⟩])).Committed 0 :=
    ⟨42, by decide +kernel, by decide +kernel⟩
  have hnone : checkpointed (behindSevens [⟨seven, true, true⟩]).ctx.log = [] := by
    decide +kernel
  have hmem := ((h 0).mpr hcommitted).1
  rw [hnone] at hmem
  cases hmem

end Arcon

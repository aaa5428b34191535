import Arcon.Lib.Exec
import Mathlib.Algebra.GroupWithZero.Nat
import Mathlib.Data.List.Induction
import Mathlib.Tactic.Common

/-!
# Asking over the network (`KompactRef.?`, `KompactAsk.scala`, `ProxyActor.scala`)

`?` creates a `KompactAsk` actor, writes the request to the network, and then asks the actor with
`AskTickerInit`. The actor takes the sender of that message for its asker and starts a timer, and
answers with the first of the remote's reply, which the proxy relays, and `AskExpired`.

The parties take turns in any order (`Step`): the two steps of `?`, the arrival of the one reply
once the request is written, the timers, and the actor, which works off its mailbox in the order of
arrival. A message for a stopped actor is a dead letter. An actor that throws is restarted with
fresh fields, and the message is gone. Which messages have arrived, what was sent to the asker and
how often `asker.get` was called on `None` is recorded (`arrivals`, `sent`, `thrown`).

The asker is the promise of akka's `ask`, which `?` gives the same timeout `t`. The first response
completes it, and a later one is a dead letter. `ask` starts a timer for `t` when it makes the
promise, before it sends `AskTickerInit`; when that one fires (`expire`), the promise fails with an
`AskTimeoutException`. The actor starts its timer when it handles `AskTickerInit`. Timers of one
length fire in the order in which they were started, so the actor's only fires once the promise is
completed; `t` is positive.

* `step_weight`: every step uses something up, so runs are finite, and `settles`: they all end with
  an idle actor.
* **`asked_iff`**: in a run that has come to its end, the asker was answered as it should be exactly
  when `AskTickerInit` was sent before the reply arrived, and the actor handled both before the
  timer of the promise fired.

Out of scope: the text of the failure of the promise, and the reply's way to the proxy actor.
-/

namespace Arcon.Kompact.Ask

/-- `AskResponse`. -/
inductive AskResponse (M : Type)
  | askFailure
  | askSuccess (msg : M)
  deriving DecidableEq, Repr

/-- The messages that the actor handles. -/
inductive Message (M : Type)
  | askExpired
  | kompactAkkaMsg (msg : M)
  | askTickerInit
  deriving DecidableEq, Repr

/-- The senders: the reference behind the future, the proxy actor, and none for the scheduler. -/
inductive ActorRef
  | future
  | proxy
  | noSender
  deriving DecidableEq, Repr

/-- The fields of the actor; a timer is known by its number. -/
structure Fields where
  timer : Option Nat
  asker : Option ActorRef
  deriving DecidableEq, Repr

/-- The promise behind the future that `?` returns. -/
inductive Promise (M : Type)
  | pending
  | received (response : AskResponse M)
  | timedOut
  deriving DecidableEq, Repr

/-- The actor's surroundings: the timers that have neither fired nor been cancelled, the number of
the next one, whether the actor has stopped, what it has sent, and the promise. -/
structure World (M : Type) where
  fields : Fields
  scheduled : List Nat
  next : Nat
  stopped : Bool
  sent : List (ActorRef × AskResponse M)
  future : Promise M
  deriving DecidableEq, Repr

/-- `None.get`. -/
inductive NoSuchElement
  | noneGet
  deriving DecidableEq, Repr

/-- `sender()` while this message is handled. -/
def Message.sender {M : Type} : Message M → ActorRef
  | .askExpired => .noSender
  | .kompactAkkaMsg _ => .proxy
  | .askTickerInit => .future

/-- Where `?` is: the actor is created, the request is written, `AskTickerInit` is sent. -/
inductive Call
  | created
  | written
  | told
  deriving DecidableEq, Repr

/-- Everything together. -/
structure Sys (M : Type) where
  call : Call
  answered : Bool
  mailbox : List (Message M)
  world : World M
  arrivals : List (Message M)
  thrown : Nat
  deriving DecidableEq, Repr

/-- Who takes the next step. -/
inductive Step (M : Type)
  | write
  | tell
  | reply (msg : M)
  | expire
  | fire (timer : Nat)
  | process
  deriving DecidableEq, Repr

section model

variable {M : Type}

def Promise.isPending : Promise M → Bool
  | .pending => true
  | _ => false

/-- `tryComplete`: what is completed stays as it is. -/
def Promise.tryComplete : Promise M → Promise M → Promise M
  | .pending, outcome => outcome
  | done, _ => done

/-- `ref ! response`. -/
def World.tell (w : World M) (ref : ActorRef) (response : AskResponse M) : World M :=
  { w with
    sent := w.sent ++ [(ref, response)]
    future := if ref = .future then w.future.tryComplete (.received response) else w.future }

/-- `asker.get ! response`. -/
def tellAsker (response : AskResponse M) : EStateM NoSuchElement (World M) Unit := do
  match (← get).fields.asker with
  | some ref => modify fun w => w.tell ref response
  | none => throw .noneGet

/-- `shutdown`. -/
def shutdown : EStateM NoSuchElement (World M) Unit := modify fun w =>
  { w with
    scheduled := match w.fields.timer with
      | some timer => w.scheduled.erase timer
      | none => w.scheduled
    stopped := true }

/-- `receive`. -/
def receive : Message M → EStateM NoSuchElement (World M) Unit
  | .askExpired => do
    tellAsker .askFailure
    shutdown
  | .kompactAkkaMsg msg => do
    tellAsker (.askSuccess msg)
    shutdown
  | .askTickerInit => modify fun w =>
    { w with
      fields := ⟨some w.next, some (Message.sender (M := M) .askTickerInit)⟩
      scheduled := w.next :: w.scheduled
      next := w.next + 1 }

/-- The fields of a new instance of the actor. -/
def Fields.fresh : Fields := ⟨none, none⟩

/-- A new actor. -/
def World.fresh : World M := ⟨.fresh, [], 0, false, [], .pending⟩

/-- `?` has created the actor. -/
def Sys.start : Sys M := ⟨.created, false, [], .fresh, [], 0⟩

/-- A message reaches the actor, unless it has stopped. -/
def Sys.deliver (s : Sys M) (msg : Message M) : Sys M :=
  if s.world.stopped then s
  else { s with mailbox := s.mailbox ++ [msg], arrivals := s.arrivals ++ [msg] }

/-- The actor handles a message; with the actor, its mailbox is gone. -/
def Sys.handle (s : Sys M) (msg : Message M) (rest : List (Message M)) : Sys M :=
  match receive msg s.world with
  | .ok _ w => { s with world := w, mailbox := if w.stopped then [] else rest }
  | .error _ w =>
    { s with world := { w with fields := .fresh }, mailbox := rest, thrown := s.thrown + 1 }

/-- A step, if it can be taken. -/
def step (s : Sys M) : Step M → Option (Sys M)
  | .write => if s.call = .created then some { s with call := .written } else none
  | .tell =>
    if s.call = .written then some (({ s with call := .told } : Sys M).deliver .askTickerInit)
    else none
  | .reply msg =>
    if s.call ≠ .created ∧ s.answered = false then
      some (({ s with answered := true } : Sys M).deliver (.kompactAkkaMsg msg))
    else none
  | .expire =>
    if s.call ≠ .created ∧ s.world.future.isPending then
      some { s with world := { s.world with future := s.world.future.tryComplete .timedOut } }
    else none
  | .fire timer =>
    if timer ∈ s.world.scheduled ∧ s.world.future.isPending = false then
      some (({ s with world := { s.world with scheduled := s.world.scheduled.erase timer } } :
        Sys M).deliver .askExpired)
    else none
  | .process =>
    match s.mailbox with
    | [] => none
    | msg :: rest => if s.world.stopped then none else some (s.handle msg rest)

/-- A run. -/
def run (s : Sys M) (steps : List (Step M)) : Option (Sys M) := steps.foldlM step s

/-- Nothing is left to do but for a late reply. -/
def Settled (s : Sys M) : Prop := s.call = .told ∧ s.mailbox = [] ∧ s.world.scheduled = []

/-- The reply has reached the actor before `AskExpired`. -/
def InTime (s : Sys M) (msg : M) : Prop :=
  ∃ l₁ l₂, s.arrivals = l₁ ++ .kompactAkkaMsg msg :: l₂ ∧ Message.askExpired ∉ l₁

/-- **What is asked for**: the asker has received a response, the reply if it came in time, and
`asker.get` was never called on `None`. -/
def Asked (s : Sys M) : Prop :=
  s.thrown = 0 ∧ (∃ response, s.world.future = .received response) ∧
    ∀ msg, InTime s msg → s.world.future = .received (.askSuccess msg)

/-- The reply arrives only after `AskTickerInit` was sent. -/
def RepliesAfterInit (steps : List (Step M)) : Prop :=
  ∀ l₁ msg l₂, steps = l₁ ++ .reply msg :: l₂ → Step.tell ∈ l₁

def Step.isProcess : Step M → Bool
  | .process => true
  | _ => false

/-- The actor handles two messages before the timer of the promise fires. -/
def HandledInTime (steps : List (Step M)) : Prop :=
  ∃ l₁ l₂, steps = l₁ ++ l₂ ∧ Step.expire ∉ l₁ ∧ 2 ≤ l₁.countP Step.isProcess

end model

variable {M : Type}

/-! ## Handling a message -/

/-- What the actor answers to a message. -/
def Message.response : Message M → Option (AskResponse M)
  | .askExpired => some .askFailure
  | .kompactAkkaMsg msg => some (.askSuccess msg)
  | .askTickerInit => none

theorem receive_eq {msg : Message M} {r : AskResponse M} (hr : msg.response = some r) :
    receive msg = (do
      tellAsker r
      shutdown) := by
  cases msg with
  | askExpired =>
    cases hr
    rfl
  | kompactAkkaMsg msg =>
    cases hr
    rfl
  | askTickerInit => cases hr

theorem receive_response {msg : Message M} {r : AskResponse M} (hr : msg.response = some r)
    {w : World M} {ref : ActorRef} (hasker : w.fields.asker = some ref) :
    receive msg w = .ok () { w.tell ref r with
      scheduled := match w.fields.timer with
        | some timer => w.scheduled.erase timer
        | none => w.scheduled
      stopped := true } := by
  have htell : tellAsker r w = .ok () (w.tell ref r) := by
    rw [tellAsker, Exec.get_bind, hasker]
    rfl
  rw [receive_eq hr]
  exact Exec.bind_ok htell

/-- An answer without an asker is `None.get`. -/
theorem receive_none {msg : Message M} {r : AskResponse M} (hr : msg.response = some r)
    {w : World M} (hasker : w.fields.asker = none) : receive msg w = .error .noneGet w := by
  have htell : tellAsker r w = .error .noneGet w := by
    rw [tellAsker, Exec.get_bind, hasker]
    rfl
  rw [receive_eq hr]
  exact Exec.bind_error htell

/-! ## What a step does -/

@[simp] theorem deliver_call (s : Sys M) (msg : Message M) : (s.deliver msg).call = s.call := by
  unfold Sys.deliver
  split_ifs <;> rfl

@[simp] theorem deliver_answered (s : Sys M) (msg : Message M) :
    (s.deliver msg).answered = s.answered := by
  unfold Sys.deliver
  split_ifs <;> rfl

@[simp] theorem deliver_world (s : Sys M) (msg : Message M) : (s.deliver msg).world = s.world := by
  unfold Sys.deliver
  split_ifs <;> rfl

@[simp] theorem deliver_thrown (s : Sys M) (msg : Message M) :
    (s.deliver msg).thrown = s.thrown := by
  unfold Sys.deliver
  split_ifs <;> rfl

@[simp] theorem handle_call (s : Sys M) (msg : Message M) (rest : List (Message M)) :
    (s.handle msg rest).call = s.call := by
  unfold Sys.handle
  split <;> rfl

theorem handle_thrown (s : Sys M) (msg : Message M) (rest : List (Message M)) :
    s.thrown ≤ (s.handle msg rest).thrown := by
  unfold Sys.handle
  split
  · exact Nat.le_refl _
  · exact Nat.le_succ _

theorem eq_pending {p : Promise M} (h : p.isPending = true) : p = .pending := by
  cases p with
  | pending => rfl
  | received r => cases h
  | timedOut => cases h

theorem step_cases {s s' : Sys M} {a : Step M} (h : step s a = some s') :
    (a = .write ∧ s.call = .created ∧ s' = { s with call := .written }) ∨
    (a = .tell ∧ s.call = .written ∧
      s' = ({ s with call := .told } : Sys M).deliver .askTickerInit) ∨
    (∃ msg, a = .reply msg ∧ s.call ≠ .created ∧ s.answered = false ∧
      s' = ({ s with answered := true } : Sys M).deliver (.kompactAkkaMsg msg)) ∨
    (a = .expire ∧ s.call ≠ .created ∧ s.world.future = .pending ∧
      s' = { s with world := { s.world with future := .timedOut } }) ∨
    (∃ timer, a = .fire timer ∧ timer ∈ s.world.scheduled ∧ s.world.future.isPending = false ∧
      s' = ({ s with world := { s.world with scheduled := s.world.scheduled.erase timer } } :
        Sys M).deliver .askExpired) ∨
    (∃ msg rest, a = .process ∧ s.mailbox = msg :: rest ∧ s.world.stopped = false ∧
      s' = s.handle msg rest) := by
  cases a with
  | write =>
    simp only [step] at h
    split_ifs at h with hcall
    exact .inl ⟨rfl, hcall, (Option.some.inj h).symm⟩
  | tell =>
    simp only [step] at h
    split_ifs at h with hcall
    exact .inr (.inl ⟨rfl, hcall, (Option.some.inj h).symm⟩)
  | reply msg =>
    simp only [step] at h
    split_ifs at h with hcall
    exact .inr (.inr (.inl ⟨msg, rfl, hcall.1, hcall.2, (Option.some.inj h).symm⟩))
  | expire =>
    simp only [step] at h
    split_ifs at h with hcall
    obtain ⟨hcall, hpending⟩ := hcall
    have hfuture := eq_pending hpending
    rw [hfuture] at h
    exact .inr (.inr (.inr (.inl ⟨rfl, hcall, hfuture, (Option.some.inj h).symm⟩)))
  | fire timer =>
    simp only [step] at h
    split_ifs at h with hmem
    exact .inr (.inr (.inr (.inr (.inl ⟨timer, rfl, hmem.1, hmem.2, (Option.some.inj h).symm⟩))))
  | process =>
    simp only [step] at h
    split at h
    · cases h
    · rename_i msg rest hmailbox
      split_ifs at h with hstopped
      exact .inr (.inr (.inr (.inr (.inr ⟨msg, rest, rfl, hmailbox, by simpa using hstopped,
        (Option.some.inj h).symm⟩))))

/-- What was thrown stays thrown. -/
theorem step_thrown {s s' : Sys M} {a : Step M} (h : step s a = some s') :
    s.thrown ≤ s'.thrown := by
  obtain ⟨-, -, rfl⟩ | ⟨-, -, rfl⟩ | ⟨msg, -, -, -, rfl⟩ | ⟨-, -, -, rfl⟩ | ⟨timer, -, -, -, rfl⟩ |
    ⟨msg, rest, -, -, -, rfl⟩ := step_cases h
  · exact Nat.le_refl _
  · simp
  · simp
  · exact Nat.le_refl _
  · simp
  · exact handle_thrown s msg rest

/-! ## The promise -/

theorem tell_future (w : World M) (ref : ActorRef) (r : AskResponse M) :
    (w.tell ref r).future = w.future ∨
      w.future = .pending ∧ (w.tell ref r).future = .received r := by
  by_cases href : ref = .future
  · cases hfuture : w.future with
    | pending => exact .inr ⟨rfl, by simp [World.tell, href, hfuture, Promise.tryComplete]⟩
    | received r' => exact .inl (by simp [World.tell, hfuture, Promise.tryComplete])
    | timedOut => exact .inl (by simp [World.tell, hfuture, Promise.tryComplete])
  · exact .inl (if_neg href)

/-- A message leaves the promise alone, or completes it. -/
theorem handle_future (s : Sys M) (msg : Message M) (rest : List (Message M)) :
    (s.handle msg rest).world.future = s.world.future ∨
      s.world.future = .pending ∧ ∃ r, (s.handle msg rest).world.future = .received r := by
  have hanswer : ∀ r, msg.response = some r → (s.handle msg rest).world.future = s.world.future ∨
      s.world.future = .pending ∧ ∃ r, (s.handle msg rest).world.future = .received r := by
    intro r hr
    cases hasker : s.world.fields.asker with
    | none =>
      rw [Sys.handle, receive_none hr hasker]
      exact .inl rfl
    | some ref =>
      rw [Sys.handle, receive_response hr hasker]
      rcases tell_future s.world ref r with h | ⟨hpending, h⟩
      · exact .inl h
      · exact .inr ⟨hpending, r, h⟩
  cases msg with
  | askExpired => exact hanswer _ rfl
  | kompactAkkaMsg m => exact hanswer _ rfl
  | askTickerInit => exact .inl rfl

/-- **What a step does to the promise**: only the timer makes it fail, and a completed one stays as
it is. -/
theorem step_future {s s' : Sys M} {a : Step M} (h : step s a = some s') :
    (a = .expire ∧ s.world.future = .pending ∧ s'.world.future = .timedOut) ∨
      a ≠ .expire ∧ (s'.world.future = s.world.future ∨
        s.world.future = .pending ∧ ∃ r, s'.world.future = .received r) := by
  obtain ⟨rfl, -, rfl⟩ | ⟨rfl, -, rfl⟩ | ⟨msg, rfl, -, -, rfl⟩ | ⟨rfl, -, hfuture, rfl⟩ |
    ⟨timer, rfl, -, -, rfl⟩ | ⟨msg, rest, rfl, -, -, rfl⟩ := step_cases h
  · exact .inr ⟨nofun, .inl rfl⟩
  · exact .inr ⟨nofun, .inl (by rw [deliver_world])⟩
  · exact .inr ⟨nofun, .inl (by rw [deliver_world])⟩
  · exact .inl ⟨rfl, hfuture, rfl⟩
  · exact .inr ⟨nofun, .inl (by rw [deliver_world])⟩
  · exact .inr ⟨nofun, handle_future s msg rest⟩

/-! ## Runs in which the reply comes after `AskTickerInit` -/

/-- A reply. -/
def Message.isReply : Message M → Bool
  | .kompactAkkaMsg _ => true
  | _ => false

/-- What may come behind `AskTickerInit`: at most one reply, and none before it was given. -/
structure Tail (answered : Bool) (l : List (Message M)) : Prop where
  noInit : Message.askTickerInit ∉ l
  replies : l.countP Message.isReply ≤ if answered then 1 else 0

/-- No response has arrived. -/
def Promise.Unanswered (p : Promise M) : Prop := p = .pending ∨ p = .timedOut

/-- The surroundings of an actor that has no asker yet. -/
def World.idle (future : Promise M) : World M := ⟨.fresh, [], 0, false, [], future⟩

/-- The surroundings of an actor that waits. -/
def World.waiting (expired : Bool) (future : Promise M) : World M :=
  ⟨⟨some 0, some .future⟩, if expired then [] else [0], 1, false, [], future⟩

/-- The states of these runs, with the number of messages handled: before `AskTickerInit`, before
the actor has seen it, while it waits, and when it has answered the message behind it. The timer of
the actor has only fired if the one of the promise has. -/
inductive Phase : Nat → Sys M → Prop
  | idle (call : Call) (h : call ≠ .told) (future : Promise M) (hf : future.Unanswered) :
      Phase 0 ⟨call, false, [], .idle future, [], 0⟩
  | told (answered : Bool) (l : List (Message M)) (htail : Tail answered l)
      (hexpired : Message.askExpired ∉ l) (future : Promise M) (hf : future.Unanswered) :
      Phase 0 ⟨.told, answered, .askTickerInit :: l, .idle future, .askTickerInit :: l, 0⟩
  | waiting (answered expired : Bool) (l : List (Message M)) (htail : Tail answered l)
      (hexpired : expired = true ↔ Message.askExpired ∈ l) (future : Promise M)
      (hf : future.Unanswered) (hfuture : expired = true → future = .timedOut) :
      Phase 1 ⟨.told, answered, l, .waiting expired future, .askTickerInit :: l, 0⟩
  | done (answered : Bool) (msg : Message M) (l : List (Message M)) (w : World M)
      (r : AskResponse M) (hr : msg.response = some r) (htail : Tail answered (msg :: l))
      (hstopped : w.stopped = true) (hscheduled : w.scheduled = [])
      (hsent : w.sent = [(.future, r)])
      (hfuture : w.future = .timedOut ∨ w.future = .received r ∧ msg ≠ .askExpired) :
      Phase 2 ⟨.told, answered, [], w, .askTickerInit :: msg :: l, 0⟩

theorem Tail.reply {l : List (Message M)} (h : Tail false l) (msg : M) :
    Tail true (l ++ [.kompactAkkaMsg msg]) := by
  have hnone : l.countP Message.isReply ≤ 0 := h.replies
  refine ⟨by simpa using h.noInit, ?_⟩
  rw [List.countP_append]
  simp only [if_true, List.countP_singleton, Message.isReply]
  omega

theorem Tail.expired {answered : Bool} {l : List (Message M)} (h : Tail answered l) :
    Tail answered (l ++ [.askExpired]) := by
  refine ⟨by simpa using h.noInit, ?_⟩
  rw [List.countP_append]
  simpa [Message.isReply] using h.replies

theorem Tail.mono {answered : Bool} {l : List (Message M)} (h : Tail answered l) : Tail true l := by
  have hle := h.replies
  exact ⟨h.noInit, Nat.le_trans hle (by cases answered <;> simp)⟩

/-- What a waiting actor finds in its mailbox it answers. -/
theorem Tail.response {answered : Bool} {msg : Message M} {l : List (Message M)}
    (h : Tail answered (msg :: l)) : ∃ r, msg.response = some r := by
  cases msg with
  | askExpired => exact ⟨_, rfl⟩
  | kompactAkkaMsg msg => exact ⟨_, rfl⟩
  | askTickerInit => exact absurd (by simp) h.noInit

/-- **The phases are closed under steps**, as long as no reply comes too early. -/
theorem Phase.step {p : Nat} {s s' : Sys M} {a : Step M} (hs : Phase p s)
    (h : step s a = some s') (hreply : ∀ msg, a = .reply msg → s.call = .told) :
    Phase (p + if a.isProcess then 1 else 0) s' := by
  cases hs with
  | idle call hcall future hf =>
    cases a with
    | write =>
      simp only [Ask.step] at h
      split_ifs at h
      cases h
      exact .idle .written (by decide) future hf
    | tell =>
      simp only [Ask.step] at h
      split_ifs at h
      cases h
      exact .told false [] ⟨by simp, by simp⟩ (by simp) future hf
    | reply msg => exact absurd (hreply msg rfl) hcall
    | expire =>
      simp only [Ask.step] at h
      split_ifs at h with hpending
      cases h
      rw [show future = .pending from eq_pending hpending.2]
      exact .idle call hcall .timedOut (.inr rfl)
    | fire timer => simp [Ask.step, World.idle] at h
    | process => cases h
  | told answered l htail hexpired future hf =>
    cases a with
    | write => simp [Ask.step] at h
    | tell => simp [Ask.step] at h
    | reply msg =>
      simp only [Ask.step] at h
      split_ifs at h with hfree
      cases h
      obtain ⟨-, rfl⟩ := hfree
      exact .told true (l ++ [.kompactAkkaMsg msg]) (htail.reply msg) (by simpa using hexpired)
        future hf
    | expire =>
      simp only [Ask.step] at h
      split_ifs at h with hpending
      cases h
      rw [show future = .pending from eq_pending hpending.2]
      exact .told answered l htail hexpired .timedOut (.inr rfl)
    | fire timer => simp [Ask.step, World.idle] at h
    | process =>
      simp only [Ask.step, World.idle, Bool.false_eq_true, if_false, Option.some.injEq] at h
      subst h
      exact .waiting answered false l htail (by simpa using hexpired) future hf (by simp)
  | waiting answered expired l htail hexpired future hf hfuture =>
    cases a with
    | write => simp [Ask.step] at h
    | tell => simp [Ask.step] at h
    | reply msg =>
      simp only [Ask.step] at h
      split_ifs at h with hfree
      cases h
      obtain ⟨-, rfl⟩ := hfree
      exact .waiting true expired (l ++ [.kompactAkkaMsg msg]) (htail.reply msg)
        (by simp [hexpired]) future hf hfuture
    | expire =>
      simp only [Ask.step] at h
      split_ifs at h with hpending
      cases h
      rw [show (World.waiting expired future).future = .pending from eq_pending hpending.2]
      exact .waiting answered expired l htail hexpired .timedOut (.inr rfl) fun _ => rfl
    | fire timer =>
      cases expired with
      | true => simp [Ask.step, World.waiting] at h
      | false =>
        simp only [Ask.step] at h
        split_ifs at h with hmem
        cases h
        obtain ⟨hmem, hdone⟩ := hmem
        have hzero : timer = 0 := by simpa [World.waiting] using hmem
        subst hzero
        -- the timer of the promise is older than this one
        have htimedOut : future = .timedOut := hf.resolve_left fun hpending => by
          rw [show (World.waiting false future).future = future from rfl, hpending] at hdone
          cases hdone
        exact .waiting answered true (l ++ [.askExpired]) htail.expired (by simp) future hf
          fun _ => htimedOut
    | process =>
      cases l with
      | nil => cases h
      | cons msg l =>
        obtain ⟨r, hr⟩ := htail.response
        have hs' : s' = Sys.handle ⟨.told, answered, msg :: l, .waiting expired future,
            .askTickerInit :: msg :: l, 0⟩ msg l := by
          simpa [Ask.step, World.waiting] using h.symm
        have hasker : (World.waiting expired future).fields.asker = some .future := rfl
        rw [hs', Sys.handle, receive_response hr hasker]
        refine .done answered msg l _ r hr htail rfl (by cases expired <;> rfl) rfl ?_
        rcases hf with rfl | rfl
        · refine .inr ⟨rfl, fun hmsg => ?_⟩
          cases hfuture (hexpired.mpr (by simp [hmsg]))
        · exact .inl rfl
  | done answered msg l w r hr htail hstopped hscheduled hsent hfuture =>
    cases a with
    | write => simp [Ask.step] at h
    | tell => simp [Ask.step] at h
    | reply m =>
      simp only [Ask.step, Sys.deliver, hstopped, if_true] at h
      split_ifs at h
      cases h
      exact .done true msg l w r hr htail.mono hstopped hscheduled hsent hfuture
    | expire =>
      -- the answer has completed the promise
      simp only [Ask.step] at h
      split_ifs at h with hpending
      have hnot := eq_pending hpending.2
      rcases hfuture with hfuture | ⟨hfuture, -⟩
      · cases hfuture.symm.trans hnot
      · cases hfuture.symm.trans hnot
    | fire timer => simp [Ask.step, hscheduled] at h
    | process => cases h

/-! ## Runs in which it comes before -/

/-- The reply waits in front, and there is no asker. -/
structure Early (s : Sys M) : Prop where
  front : ∃ msg l, s.mailbox = .kompactAkkaMsg msg :: l
  asker : s.world.fields.asker = none
  running : s.world.stopped = false
  idle : s.world.scheduled = []
  answered : s.answered = true

theorem Phase.early {p : Nat} {s s' : Sys M} {msg : M} (hs : Phase p s) (hcall : s.call ≠ .told)
    (h : Ask.step s (.reply msg) = some s') : Early s' := by
  cases hs with
  | idle call _ future _ =>
    simp only [Ask.step] at h
    split_ifs at h
    cases h
    exact ⟨⟨msg, [], rfl⟩, rfl, rfl, rfl, rfl⟩
  | told => exact absurd rfl hcall
  | waiting => exact absurd rfl hcall
  | done => exact absurd rfl hcall

theorem Early.step {s s' : Sys M} {a : Step M} (hs : Early s) (h : Ask.step s a = some s') :
    Early s' ∨ 0 < s'.thrown := by
  obtain ⟨⟨msg, l, hmailbox⟩, hasker, hrunning, hidle, hanswered⟩ := hs
  cases a with
  | write =>
    simp only [Ask.step] at h
    split_ifs at h
    cases h
    exact .inl ⟨⟨msg, l, hmailbox⟩, hasker, hrunning, hidle, hanswered⟩
  | tell =>
    simp only [Ask.step, Sys.deliver, hrunning, Bool.false_eq_true, if_false] at h
    split_ifs at h
    cases h
    exact .inl ⟨⟨msg, l ++ [.askTickerInit], by simp [hmailbox]⟩, hasker, hrunning, hidle,
      hanswered⟩
  | reply m => simp [Ask.step, hanswered] at h
  | expire =>
    simp only [Ask.step] at h
    split_ifs at h
    cases h
    exact .inl ⟨⟨msg, l, hmailbox⟩, hasker, hrunning, hidle, hanswered⟩
  | fire timer => simp [Ask.step, hidle] at h
  | process =>
    simp only [Ask.step, hmailbox, hrunning, Bool.false_eq_true, if_false, Option.some.injEq] at h
    subst h
    right
    rw [Sys.handle, receive_none (r := .askSuccess msg) rfl hasker]
    exact Nat.succ_pos _

/-! ## Whole runs -/

theorem run_snoc {s s' : Sys M} {steps : List (Step M)} {a : Step M}
    (h : run s (steps ++ [a]) = some s') : ∃ t, run s steps = some t ∧ step t a = some s' := by
  rw [run, List.foldlM_append] at h
  obtain ⟨t, ht, hstep⟩ := Option.bind_eq_some_iff.mp h
  refine ⟨t, ht, ?_⟩
  rw [List.foldlM_cons] at hstep
  obtain ⟨u, hu, hnil⟩ := Option.bind_eq_some_iff.mp hstep
  cases hnil
  exact hu

theorem repliesAfterInit_snoc {steps : List (Step M)} {a : Step M} :
    RepliesAfterInit (steps ++ [a]) ↔
      RepliesAfterInit steps ∧ ∀ msg, a = .reply msg → Step.tell ∈ steps := by
  constructor
  · intro h
    refine ⟨fun l₁ msg l₂ heq => h l₁ msg (l₂ ++ [a]) (by simp [heq]), fun msg ha => ?_⟩
    exact h steps msg [] (by simp [ha])
  · rintro ⟨hsteps, hlast⟩ l₁ msg l₂ heq
    rcases List.eq_nil_or_concat l₂ with rfl | ⟨l₂', b, rfl⟩
    · obtain ⟨rfl, hb⟩ := List.append_inj' heq rfl
      exact hlast msg (List.singleton_inj.mp hb)
    · rw [List.concat_eq_append, ← List.cons_append, ← List.append_assoc] at heq
      obtain ⟨rfl, -⟩ := List.append_inj' heq rfl
      exact hsteps l₁ msg l₂' rfl

/-- `AskTickerInit` has been sent once `tell` was taken. -/
theorem told_iff {steps : List (Step M)} {s : Sys M} (h : run .start steps = some s) :
    s.call = .told ↔ Step.tell ∈ steps := by
  induction steps using List.reverseRecOn generalizing s with
  | nil =>
    cases h
    simp [Sys.start]
  | append_singleton steps a ih =>
    obtain ⟨t, ht, hstep⟩ := run_snoc h
    have hprev := ih ht
    obtain ⟨rfl, hcall, rfl⟩ | ⟨rfl, -, rfl⟩ | ⟨msg, rfl, -, -, rfl⟩ | ⟨rfl, -, -, rfl⟩ |
      ⟨timer, rfl, -, -, rfl⟩ | ⟨msg, rest, rfl, -, -, rfl⟩ := step_cases hstep
    · simp [← hprev, hcall]
    · simp
    · simp [hprev]
    · simp [hprev]
    · simp [hprev]
    · simp [hprev]

/-- The promise has failed once its timer has fired. -/
theorem timedOut_iff {steps : List (Step M)} {s : Sys M} (h : run .start steps = some s) :
    s.world.future = .timedOut ↔ Step.expire ∈ steps := by
  induction steps using List.reverseRecOn generalizing s with
  | nil =>
    cases h
    simp [Sys.start, World.fresh]
  | append_singleton steps a ih =>
    obtain ⟨t, ht, hstep⟩ := run_snoc h
    have hprev := ih ht
    rcases step_future hstep with ⟨rfl, -, hfuture⟩ | ⟨ha, hfuture⟩
    · simp [hfuture]
    · rw [List.mem_append, List.mem_singleton, or_iff_left (Ne.symm ha), ← hprev]
      rcases hfuture with hfuture | ⟨hpending, r, hfuture⟩
      · rw [hfuture]
      · simp [hpending, hfuture]

/-- A response stays. -/
theorem run_received {steps : List (Step M)} {s s' : Sys M} {r : AskResponse M}
    (h : run s steps = some s') (hr : s.world.future = .received r) :
    s'.world.future = .received r := by
  induction steps using List.reverseRecOn generalizing s' with
  | nil =>
    cases h
    exact hr
  | append_singleton steps a ih =>
    obtain ⟨t, ht, hstep⟩ := run_snoc h
    have hprev := ih ht
    rcases step_future hstep with ⟨-, hpending, -⟩ | ⟨-, hfuture | ⟨hpending, -⟩⟩
    · cases hprev.symm.trans hpending
    · exact hfuture.trans hprev
    · cases hprev.symm.trans hpending

/-- **Where a run can be**: in a phase if no reply came too early, and otherwise with the reply in
front or with an exception behind it. -/
theorem run_phase {steps : List (Step M)} {s : Sys M} (h : run .start steps = some s) :
    (RepliesAfterInit steps → Phase (steps.countP Step.isProcess) s) ∧
      (¬ RepliesAfterInit steps → Early s ∨ 0 < s.thrown) := by
  induction steps using List.reverseRecOn generalizing s with
  | nil =>
    cases h
    refine ⟨fun _ => .idle .created (by decide) .pending (.inl rfl), fun hnot => absurd ?_ hnot⟩
    intro l₁ msg l₂ heq
    simp at heq
  | append_singleton steps a ih =>
    obtain ⟨t, ht, hstep⟩ := run_snoc h
    obtain ⟨hgood, hbad⟩ := ih ht
    rw [repliesAfterInit_snoc]
    constructor
    · rintro ⟨hsteps, hlast⟩
      rw [List.countP_append, List.countP_singleton]
      exact (hgood hsteps).step hstep fun msg ha => (told_iff ht).mpr (hlast msg ha)
    · intro hnot
      by_cases hsteps : RepliesAfterInit steps
      · -- the run was good up to here, so this is the early reply
        have hlast : ¬ ∀ msg, a = .reply msg → Step.tell ∈ steps := fun h => hnot ⟨hsteps, h⟩
        simp only [not_forall] at hlast
        obtain ⟨msg, rfl, htell⟩ := hlast
        exact .inl ((hgood hsteps).early (fun hcall => htell ((told_iff ht).mp hcall)) hstep)
      · rcases hbad hsteps with hearly | hthrown
        · exact hearly.step hstep
        · exact .inr (Nat.lt_of_lt_of_le hthrown (step_thrown hstep))

/-- In a settled phase the actor has answered. -/
theorem Phase.settled {p : Nat} {s : Sys M} (hs : Phase p s) (hsettled : Settled s) : p = 2 := by
  obtain ⟨hcall, hmailbox, hscheduled⟩ := hsettled
  cases hs with
  | idle call h => exact absurd hcall h
  | told => cases hmailbox
  | waiting answered expired l htail hexpired =>
    -- a waiting actor has its timer running or `AskExpired` in its mailbox
    have hl : l = [] := hmailbox
    subst hl
    have hfalse : expired = false := by simpa using hexpired
    subst hfalse
    cases hscheduled
  | done => rfl

/-- An actor that has answered has either answered the reply in time or too late. -/
theorem Phase.answered {p : Nat} {s : Sys M} (hs : Phase p s) (hp : 2 ≤ p) :
    s.world.future = .timedOut ∨ Asked s := by
  cases hs with
  | idle => cases hp
  | told => cases hp
  | waiting => omega
  | done answered msg l w r hr htail hstopped _ hsent hfuture =>
    refine hfuture.imp id ?_
    rintro ⟨hfuture, hmsg⟩
    refine ⟨rfl, ⟨r, hfuture⟩, ?_⟩
    rintro m ⟨l₁, l₂, harrivals, hbefore⟩
    show w.future = _
    rw [hfuture]
    cases l₁ with
    | nil => cases harrivals
    | cons first l₁ =>
      simp only [List.cons_append, List.cons.injEq] at harrivals
      obtain ⟨rfl, hrest⟩ := harrivals
      cases l₁ with
      | nil =>
        simp only [List.nil_append, List.cons.injEq] at hrest
        obtain ⟨rfl, -⟩ := hrest
        cases hr
        rfl
      | cons second l₁ =>
        simp only [List.cons_append, List.cons.injEq] at hrest
        obtain ⟨rfl, rfl⟩ := hrest
        -- the message that was answered is neither `AskExpired` nor another reply
        exfalso
        cases msg with
        | askExpired => exact hmsg rfl
        | askTickerInit => cases hr
        | kompactAkkaMsg m' =>
          have hle := htail.replies
          simp only [List.countP_cons, List.countP_append, Message.isReply] at hle
          split_ifs at hle <;> simp at hle

/-- At no time is there more than one response. -/
theorem Phase.sent_le {p : Nat} {s : Sys M} (hs : Phase p s) :
    s.thrown = 0 ∧ s.world.sent.length ≤ 1 := by
  cases hs with
  | idle => exact ⟨rfl, Nat.zero_le _⟩
  | told => exact ⟨rfl, Nat.zero_le _⟩
  | waiting => exact ⟨rfl, Nat.zero_le _⟩
  | done answered msg l w r _ _ _ _ hsent => exact ⟨rfl, by simp [hsent]⟩

theorem RepliesAfterInit.of_append {l₁ l₂ : List (Step M)} (h : RepliesAfterInit (l₁ ++ l₂)) :
    RepliesAfterInit l₁ :=
  fun l msg l' heq => h l msg (l' ++ l₂) (by simp [heq])

theorem run_append {l₁ l₂ : List (Step M)} {s s' : Sys M} (h : run s (l₁ ++ l₂) = some s') :
    ∃ t, run s l₁ = some t ∧ run t l₂ = some s' := by
  rw [run, List.foldlM_append] at h
  exact Option.bind_eq_some_iff.mp h

/-- **Whether the promise fails**, in a run that has come to its end. -/
theorem handledInTime_iff {steps : List (Step M)} {s : Sys M} (hrun : run .start steps = some s)
    (hsteps : RepliesAfterInit steps) (hsettled : Settled s) :
    HandledInTime steps ↔ s.world.future ≠ .timedOut := by
  have hphase := (run_phase hrun).1 hsteps
  constructor
  · rintro ⟨l₁, l₂, rfl, hexpire, htwo⟩
    -- the answer was there before the timer fired, and it stays
    obtain ⟨t, ht, hrest⟩ := run_append hrun
    have hphase₁ := (run_phase ht).1 hsteps.of_append
    rcases hphase₁.answered htwo with htimedOut | hasked
    · exact absurd ((timedOut_iff ht).mp htimedOut) hexpire
    · obtain ⟨r, hr⟩ := hasked.2.1
      rw [run_received hrest hr]
      exact nofun
  · intro hnot
    exact ⟨steps, [], (List.append_nil _).symm, mt (timedOut_iff hrun).mpr hnot,
      Nat.le_of_eq (hphase.settled hsettled).symm⟩

/-! ## Every run comes to its end -/

/-- What a message can still set off. -/
def Message.weight : Message M → Nat
  | .askTickerInit => 5
  | _ => 1

/-- What `?` can still set off. -/
def Call.weight : Call → Nat
  | .created => 20
  | .written => 10
  | .told => 0

/-- A pending promise can still fail. -/
def Promise.weight (p : Promise M) : Nat := if p.isPending then 1 else 0

/-- What can still happen. -/
def Sys.weight (s : Sys M) : Nat :=
  s.call.weight + (if s.answered then 0 else 2) + (s.mailbox.map Message.weight).sum +
    3 * s.world.scheduled.length + s.world.future.weight

theorem tell_weight (w : World M) (ref : ActorRef) (r : AskResponse M) :
    (w.tell ref r).future.weight ≤ w.future.weight := by
  rcases tell_future w ref r with h | ⟨-, h⟩
  · exact Nat.le_of_eq (congrArg Promise.weight h)
  · rw [h]
    exact Nat.zero_le _

theorem deliver_weight (s : Sys M) (msg : Message M) :
    (s.deliver msg).weight ≤ s.weight + msg.weight := by
  unfold Sys.deliver
  split_ifs
  · omega
  · simp only [Sys.weight, List.map_append, List.sum_append, List.map_singleton, List.sum_singleton]
    omega

theorem handle_weight {s : Sys M} {msg : Message M} {rest : List (Message M)}
    (h : s.mailbox = msg :: rest) : (s.handle msg rest).weight < s.weight := by
  have hweight : s.weight = s.call.weight + (if s.answered then 0 else 2) +
      (msg.weight + (rest.map Message.weight).sum) + 3 * s.world.scheduled.length +
        s.world.future.weight := by
    rw [Sys.weight, h, List.map_cons, List.sum_cons]
  rw [hweight]
  -- an answer is the last thing that happens, or an exception that drops the message
  have hanswer : ∀ r, msg.response = some r → 1 ≤ msg.weight →
      (s.handle msg rest).weight < s.call.weight + (if s.answered then 0 else 2) +
        (msg.weight + (rest.map Message.weight).sum) + 3 * s.world.scheduled.length +
          s.world.future.weight := by
    intro r hr hpos
    cases hasker : s.world.fields.asker with
    | none =>
      rw [Sys.handle, receive_none hr hasker]
      simp only [Sys.weight]
      omega
    | some ref =>
      have htell := tell_weight s.world ref r
      rw [Sys.handle, receive_response hr hasker]
      cases htimer : s.world.fields.timer with
      | none =>
        simp only [Sys.weight, if_true, List.map_nil, List.sum_nil]
        show _ + 3 * s.world.scheduled.length + _ < _
        omega
      | some timer =>
        have hle : (s.world.scheduled.erase timer).length ≤ s.world.scheduled.length :=
          List.length_erase_le
        simp only [Sys.weight, if_true, List.map_nil, List.sum_nil]
        omega
  cases msg with
  | askExpired => exact hanswer _ rfl (by simp [Message.weight])
  | kompactAkkaMsg m => exact hanswer _ rfl (by simp [Message.weight])
  | askTickerInit =>
    have hle : ((if s.world.stopped then [] else rest).map Message.weight).sum ≤
        (rest.map Message.weight).sum := by
      split_ifs <;> simp
    have hinit : (Message.askTickerInit : Message M).weight = 5 := rfl
    show s.call.weight + (if s.answered then 0 else 2) +
      ((if s.world.stopped then [] else rest).map Message.weight).sum +
        3 * (s.world.scheduled.length + 1) + s.world.future.weight < _
    omega

/-- **Every step uses something up.** -/
theorem step_weight {s s' : Sys M} {a : Step M} (h : step s a = some s') :
    s'.weight < s.weight := by
  obtain ⟨-, hcall, rfl⟩ | ⟨-, hcall, rfl⟩ | ⟨msg, -, -, hanswered, rfl⟩ | ⟨-, -, hpending, rfl⟩ |
    ⟨timer, -, hmem, -, rfl⟩ | ⟨msg, rest, -, hmailbox, -, rfl⟩ := step_cases h
  · simp [Sys.weight, hcall, Call.weight]
  · have hle := deliver_weight ({ s with call := .told } : Sys M) .askTickerInit
    simp only [Sys.weight, hcall, Call.weight, Message.weight] at hle ⊢
    omega
  · have hle := deliver_weight ({ s with answered := true } : Sys M) (.kompactAkkaMsg msg)
    simp only [Sys.weight, hanswered, Message.weight] at hle ⊢
    simp at hle ⊢
    omega
  · simp [Sys.weight, hpending, Promise.weight, Promise.isPending]
  · have hle := deliver_weight ({ s with
      world := { s.world with scheduled := s.world.scheduled.erase timer } } : Sys M) .askExpired
    have hpos := List.length_pos_of_mem hmem
    have hlen := List.length_erase_of_mem hmem
    simp only [Sys.weight, Message.weight] at hle ⊢
    omega
  · exact handle_weight hmailbox

/-- A stopped actor has no mailbox. -/
def Tidy (s : Sys M) : Prop := s.world.stopped = true → s.mailbox = []

theorem deliver_tidy {s : Sys M} (h : Tidy s) (msg : Message M) : Tidy (s.deliver msg) := by
  intro hstopped
  rw [deliver_world] at hstopped
  rw [Sys.deliver, if_pos hstopped]
  exact h hstopped

theorem handle_tidy {s : Sys M} (hrunning : s.world.stopped = false) (msg : Message M)
    (rest : List (Message M)) : Tidy (s.handle msg rest) := by
  have hanswer : ∀ r, msg.response = some r → Tidy (s.handle msg rest) := by
    intro r hr
    cases hasker : s.world.fields.asker with
    | none =>
      rw [Sys.handle, receive_none hr hasker]
      intro hstopped
      rw [show s.world.stopped = true from hstopped] at hrunning
      cases hrunning
    | some ref =>
      rw [Sys.handle, receive_response hr hasker]
      exact fun _ => rfl
  cases msg with
  | askExpired => exact hanswer _ rfl
  | kompactAkkaMsg m => exact hanswer _ rfl
  | askTickerInit =>
    intro hstopped
    rw [show s.world.stopped = true from hstopped] at hrunning
    cases hrunning

theorem step_tidy {s s' : Sys M} {a : Step M} (hs : Tidy s) (h : step s a = some s') : Tidy s' := by
  obtain ⟨-, -, rfl⟩ | ⟨-, -, rfl⟩ | ⟨msg, -, -, -, rfl⟩ | ⟨-, -, -, rfl⟩ | ⟨timer, -, -, -, rfl⟩ |
    ⟨msg, rest, -, -, hrunning, rfl⟩ := step_cases h
  · exact hs
  · refine deliver_tidy ?_ _
    exact hs
  · refine deliver_tidy ?_ _
    exact hs
  · exact hs
  · refine deliver_tidy ?_ _
    exact hs
  · exact handle_tidy hrunning msg rest

/-- Who is not done can go on. -/
theorem step_of_not_settled {s : Sys M} (hs : Tidy s) (h : ¬ Settled s) :
    ∃ a s', step s a = some s' ∧ ∀ msg, a ≠ .reply msg := by
  by_cases hmailbox : s.mailbox = []
  · by_cases hscheduled : s.world.scheduled = []
    · cases hcall : s.call with
      | created => exact ⟨.write, _, by rw [step, if_pos hcall], by simp⟩
      | written => exact ⟨.tell, _, by rw [step, if_pos hcall], by simp⟩
      | told => exact absurd ⟨hcall, hmailbox, hscheduled⟩ h
    · obtain ⟨timer, hmem⟩ := List.exists_mem_of_ne_nil _ hscheduled
      by_cases hpending : s.world.future.isPending = true
      · by_cases hcall : s.call = .created
        · exact ⟨.write, _, by rw [step, if_pos hcall], by simp⟩
        · exact ⟨.expire, _, by rw [step, if_pos ⟨hcall, hpending⟩], by simp⟩
      · have hdone : s.world.future.isPending = false := by simpa using hpending
        exact ⟨.fire timer, _, by rw [step, if_pos ⟨hmem, hdone⟩], by simp⟩
  · obtain ⟨msg, rest, hcons⟩ := List.exists_cons_of_ne_nil hmailbox
    have hrunning : s.world.stopped = false := by
      by_contra hstopped
      exact hmailbox (hs (by simpa using hstopped))
    refine ⟨.process, s.handle msg rest, ?_, by simp⟩
    simp [step, hcons, hrunning]

/-- **Every run can be brought to its end**, without another reply. -/
theorem settles (s : Sys M) (hs : Tidy s) :
    ∃ more s', run s more = some s' ∧ Settled s' ∧ ∀ msg, Step.reply msg ∉ more := by
  induction hn : s.weight using Nat.strongRecOn generalizing s with
  | _ n ih =>
    by_cases hsettled : Settled s
    · exact ⟨[], s, rfl, hsettled, by simp⟩
    · obtain ⟨a, t, hstep, ha⟩ := step_of_not_settled hs hsettled
      obtain ⟨more, s', hrun, hend, hmore⟩ :=
        ih t.weight (hn ▸ step_weight hstep) t (step_tidy hs hstep) rfl
      refine ⟨a :: more, s', ?_, hend, fun msg => ?_⟩
      · rw [run, List.foldlM_cons, hstep]
        exact hrun
      · rw [List.mem_cons, not_or]
        exact ⟨(ha msg).symm, hmore msg⟩

theorem run_tidy {steps : List (Step M)} {s : Sys M} (h : run .start steps = some s) : Tidy s := by
  induction steps using List.reverseRecOn generalizing s with
  | nil =>
    cases h
    exact fun _ => rfl
  | append_singleton steps a ih =>
    obtain ⟨t, ht, hstep⟩ := run_snoc h
    exact step_tidy (ih ht) hstep

/-- **The asker is answered as it should be** in a run that has come to its end exactly when
`AskTickerInit` was sent before the reply arrived and the actor handled both before the timer of the
promise fired. In runs in which the reply does not come too early there is no exception and at most
one response at any time, and all runs can be brought to their end. -/
theorem asked_iff (steps : List (Step M)) (s : Sys M) (hrun : run .start steps = some s) :
    (Settled s → (Asked s ↔ RepliesAfterInit steps ∧ HandledInTime steps)) ∧
      (RepliesAfterInit steps → s.thrown = 0 ∧ s.world.sent.length ≤ 1) ∧
      ∃ more s', run s more = some s' ∧ Settled s' ∧ ∀ msg, Step.reply msg ∉ more := by
  obtain ⟨hgood, hbad⟩ := run_phase hrun
  refine ⟨fun hsettled => ?_, fun hsteps => (hgood hsteps).sent_le, settles s (run_tidy hrun)⟩
  constructor
  · intro hasked
    have hsteps : RepliesAfterInit steps := by
      by_contra hnot
      rcases hbad hnot with hearly | hthrown
      · obtain ⟨msg, l, hfront⟩ := hearly.front
        rw [hsettled.2.1] at hfront
        cases hfront
      · have hzero := hasked.1
        omega
    refine ⟨hsteps, (handledInTime_iff hrun hsteps hsettled).mpr ?_⟩
    obtain ⟨r, hr⟩ := hasked.2.1
    rw [hr]
    exact nofun
  · rintro ⟨hsteps, hhandled⟩
    have hphase := hgood hsteps
    have hanswered := hphase.answered (Nat.le_of_eq (hphase.settled hsettled).symm)
    exact hanswered.resolve_left ((handledInTime_iff hrun hsteps hsettled).mp hhandled)

/-- A reply that comes while the actor waits. -/
theorem asked_iff_in_order :
    ∃ s : Sys Nat, run .start [.write, .tell, .process, .reply 7, .process] = some s ∧
      Settled s ∧ Asked s := by
  refine ⟨_, rfl, ⟨rfl, rfl, rfl⟩, ?_⟩
  refine ((asked_iff [.write, .tell, .process, .reply 7, .process] _ rfl).1 ⟨rfl, rfl, rfl⟩).mpr
    ⟨?_, _, [], (List.append_nil _).symm, by decide, by decide⟩
  rintro (_ | ⟨a, _ | ⟨b, l⟩⟩) msg l₂ heq
  · cases heq
  · cases heq
  · simp only [List.cons_append, List.cons.injEq] at heq
    simp [← heq.2.1]

/-- **The reply that overtakes `AskTickerInit`** makes the actor throw and is lost; the promise
fails, and what the actor sends after that comes too late. -/
theorem asked_overtaken :
    ∃ s : Sys Nat,
      run .start [.write, .reply 7, .process, .tell, .process, .expire, .fire 0, .process] =
          some s ∧
        Settled s ∧ InTime s 7 ∧ s.thrown = 1 ∧ s.world.sent = [(.future, .askFailure)] ∧
        s.world.future = .timedOut ∧ ¬ Asked s := by
  refine ⟨_, rfl, ⟨rfl, rfl, rfl⟩, ⟨[], [.askTickerInit, .askExpired], rfl, by simp⟩, rfl, rfl, rfl,
    ?_⟩
  intro hasked
  cases hasked.1

end Arcon.Kompact.Ask

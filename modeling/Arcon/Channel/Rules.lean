import Arcon.Channel.Exclusive

/-!
# Rules for the sender's steps

`At` describes the state a strategy's code runs in: what its writers hold, and the messages it has
sent. The rules below say how each step changes this, with any receivers' steps before it. Where the
code stops instead (`Halts`), it waits for a buffer or a send has failed, every buffer still has one
owner, and every message is one that it was right to send (`P`).

`told` is the assumption that sends succeed, for the results that need it.
-/

namespace Arcon

open Exec

variable {T : Type}

/-- What became of a message at the sender's end. -/
def Reading.fate (r : Reading T) : Option Nat × List (Option T) × Bool :=
  (r.channel, r.written, r.arrived)

namespace Exchange

variable {x y : Exchange T} {ws : List (BufferWriter × List T)} {m : List (Nat × List (Option T))}

/-- The readers may have gone on, but the sender's side is as it was. -/
structure Quiet (x y : Exchange T) : Prop where
  writing : y.writing = x.writing
  ignored : y.ignored = x.ignored
  schedule : y.schedule = x.schedule
  size : y.pool.bufferSize = x.pool.bufferSize
  read : ∀ j n, y.pool.read j n = x.pool.read j n
  fates : y.readings.map Reading.fate = x.readings.map Reading.fate

theorem Quiet.refl (x : Exchange T) : Quiet x x := ⟨rfl, rfl, rfl, rfl, fun _ _ => rfl, rfl⟩

theorem Quiet.messages (h : Quiet x y) : y.messages = x.messages := by
  have : ∀ z : Exchange T, z.messages =
      (z.readings.map Reading.fate).filterMap fun r => r.1.map fun c => (c, r.2.1) := by
    intro z
    rw [List.filterMap_map]
    rfl
  rw [this, this, h.fates]

theorem modifyReading_quiet (x : Exchange T) (i : Nat) {f : Reading T → Reading T}
    (hf : ∀ r, (f r).fate = r.fate) : Quiet x (x.modifyReading i f) :=
  ⟨rfl, rfl, rfl, rfl, fun _ _ => rfl, map_modify_of_eq hf _ _⟩

theorem dropReader_quiet (x : Exchange T) (i : Nat) : Quiet x (x.dropReader i) := by
  obtain heq | ⟨l₁, r, l₂, hl, -, -, heq⟩ := x.dropReader_cases i
  · rw [heq]
    exact Quiet.refl x
  · rw [heq]
    refine ⟨rfl, rfl, rfl, rfl, fun j n => BufferPool.read_release _ j n, ?_⟩
    rw [hl, List.map_append, List.map_append]
    rfl

/-- **What the receivers leave alone.** -/
theorem receive_quiet (x : Exchange T) (c : Receive) : Quiet x (x.receive c) := by
  cases c with
  | next i =>
    unfold receive
    dsimp only
    split
    · exact modifyReading_quiet x i fun r => by split <;> rfl
    · exact Quiet.refl x
  | slice i =>
    unfold receive
    dsimp only
    split
    · exact modifyReading_quiet x i fun r => by split <;> rfl
    · exact Quiet.refl x
  | drop i =>
    unfold receive
    dsimp only
    split
    · exact dropReader_quiet x i
    · exact Quiet.refl x

/-- The state a strategy's code runs in. -/
structure At (told : Prop) (cap : Nat) (x : Exchange T) (ws : List (BufferWriter × List T))
    (m : List (Nat × List (Option T))) : Prop where
  owns : x.Owns ws
  messages : x.messages = m
  ignored : ∀ r ∈ x.ignored, r = none
  size : x.pool.bufferSize = cap
  schedule : told → ∀ tell, .sender tell ∈ x.schedule → tell = .ok ()
  arrived : told → ∀ r ∈ x.readings, r.channel.isSome → r.arrived = true

/-- What holds where the code stops. -/
structure Safe (P : List (Option T) → Prop) (x : Exchange T) : Prop where
  exclusive : x.Exclusive
  shape : ∀ a ∈ x.messages, P a.2
  ignored : ∀ r ∈ x.ignored, r = none

/-- The code waits for its turn, or a send has failed. -/
def Halts (told : Prop) (P : List (Option T) → Prop) (e : Stop) (x : Exchange T) : Prop :=
  (e = .waiting ∨ ¬told ∧ ∃ msg, e = .panic ("Buffer Error " ++ msg)) ∧ Safe P x

variable {told : Prop} {cap : Nat} {P : List (Option T) → Prop}

theorem At.safe (h : At told cap x ws m) (hP : ∀ a ∈ m, P a.2) : Safe P x :=
  ⟨h.owns.exclusive, by rw [h.messages]; exact hP, h.ignored⟩

theorem At.waits (h : At told cap x ws m) (hP : ∀ a ∈ m, P a.2) : Halts told P .waiting x :=
  ⟨.inl rfl, h.safe hP⟩

theorem At.perm {ws' : List (BufferWriter × List T)} (h : At told cap x ws m) (hp : ws.Perm ws') :
    At told cap x ws' m :=
  ⟨h.owns.perm hp, h.messages, h.ignored, h.size, h.schedule, h.arrived⟩

theorem At.quiet (h : At told cap x ws m) (hq : Quiet x y) (hex : y.Exclusive) :
    At told cap y ws m := by
  refine ⟨⟨hex, hq.writing ▸ h.owns.writing, h.owns.len,
    fun w hw => (hq.read _ _).trans (h.owns.holds w hw)⟩, hq.messages.trans h.messages,
    hq.ignored ▸ h.ignored, hq.size.trans h.size, hq.schedule ▸ h.schedule, fun ht r hr hs => ?_⟩
  have hmem := List.mem_map_of_mem (f := Reading.fate) hr
  rw [hq.fates] at hmem
  obtain ⟨r', hr', heq⟩ := List.mem_map.mp hmem
  simp only [Reading.fate, Prod.mk.injEq] at heq
  rw [← heq.2.2]
  exact h.arrived ht r' hr' (heq.1 ▸ hs)

theorem At.receive (h : At told cap x ws m) (c : Receive) : At told cap (x.receive c) ws m :=
  h.quiet (x.receive_quiet c) (receive_exclusive h.owns.exclusive c)

theorem At.reschedule (h : At told cap x ws m) {s : List Turn} (hs : ∀ t ∈ s, t ∈ x.schedule) :
    At told cap { x with schedule := s } ws m :=
  ⟨⟨⟨h.owns.exclusive.curr, h.owns.exclusive.size, h.owns.exclusive.nodup, h.owns.exclusive.bound,
    h.owns.exclusive.free, h.owns.exclusive.kept, h.owns.exclusive.seen, h.owns.exclusive.len⟩,
    h.owns.writing, h.owns.len, h.owns.holds⟩, h.messages, h.ignored, h.size,
    fun ht tell hmem => h.schedule ht tell (hs _ hmem), h.arrived⟩

/-- The last message is made of `l` and not sent yet. -/
structure Made (told : Prop) (cap : Nat) (x : Exchange T) (ws : List (BufferWriter × List T))
    (m : List (Nat × List (Option T))) (i : Nat) (l : List T) : Prop where
  at_ : At told cap x ws m
  last : ∃ rs r, x.readings = rs ++ [r] ∧ rs.length = i ∧ r.channel = none ∧ r.written = l.map some

variable {i : Nat} {l : List T}

theorem Made.quiet (h : Made told cap x ws m i l) (hq : Quiet x y) (hex : y.Exclusive) :
    Made told cap y ws m i l := by
  refine ⟨h.at_.quiet hq hex, ?_⟩
  obtain ⟨rs, r, hx, hlen, hc, hw⟩ := h.last
  have hfates := hq.fates
  rw [hx, List.map_append] at hfates
  obtain ⟨rs', ys, hy, hrs, hys⟩ := List.map_eq_append_iff.mp hfates
  obtain ⟨r', rfl, hr'⟩ := List.map_eq_singleton_iff.mp hys
  simp only [Reading.fate, Prod.mk.injEq] at hr'
  refine ⟨rs', r', hy, ?_, hr'.1.trans hc, hr'.2.1.trans hw⟩
  rw [← hlen, ← List.length_map (f := Reading.fate), hrs, List.length_map]

theorem Made.receive (h : Made told cap x ws m i l) (c : Receive) :
    Made told cap (x.receive c) ws m i l :=
  h.quiet (x.receive_quiet c) (receive_exclusive h.at_.owns.exclusive c)

theorem Made.reschedule (h : Made told cap x ws m i l) {s : List Turn}
    (hs : ∀ t ∈ s, t ∈ x.schedule) : Made told cap { x with schedule := s } ws m i l :=
  ⟨h.at_.reschedule hs, h.last⟩

/-- **The message is sent.** -/
theorem Made.deliver (h : Made told cap x ws m i l) (index : Nat) {arrived : Bool}
    (ha : told → arrived = true) :
    At told cap (x.modifyReading i fun r => { r with channel := some index, arrived := arrived }) ws
      (m ++ [(index, l.map some)]) := by
  obtain ⟨rs, r, hx, rfl, hc, hw⟩ := h.last
  have hat := h.at_
  have hreadings : (x.modifyReading rs.length fun r =>
      { r with channel := some index, arrived := arrived }).readings =
        rs ++ [{ r with channel := some index, arrived := arrived }] := by
    show x.readings.modify rs.length _ = _
    rw [hx, modify_split]
  refine ⟨⟨hat.owns.exclusive.modifyReading _ (fun _ => rfl) (fun _ => rfl) (fun _ => rfl)
    hat.owns.exclusive.seen, hat.owns.writing, hat.owns.len, hat.owns.holds⟩, ?_, hat.ignored,
    hat.size, hat.schedule, fun ht r' hr' hs => ?_⟩
  · have hm := hat.messages
    unfold messages at hm ⊢
    rw [hx, List.filterMap_append] at hm
    rw [hreadings, List.filterMap_append, ← hm]
    simp [hc, hw]
  · rw [hreadings] at hr'
    rcases List.mem_append.mp hr' with hr' | hr'
    · exact hat.arrived ht r' (hx ▸ List.mem_append_left _ hr') hs
    · obtain rfl := List.mem_singleton.mp hr'
      exact ha ht

end Exchange

namespace ExchangeM

open Exchange

variable {x : Exchange T} {ws : List (BufferWriter × List T)} {m : List (Nat × List (Option T))}
  {told : Prop} {cap : Nat} {P : List (Option T) → Prop}

/-- **A turn**: what the receivers keep, up to the sender's turn or the end of the schedule. -/
theorem wp_turn {I : Exchange T → Prop} {Q : Except SerError Unit → Exchange T → Prop}
    {E : Stop → Exchange T → Prop} (hI : ∀ x c, I x → I (x.receive c)) (h : I x)
    (hok : ∀ tell s y, I y → (∀ t ∈ s, t ∈ y.schedule) → .sender tell ∈ y.schedule →
      Q tell { y with schedule := s })
    (hstop : ∀ y, I y → E .waiting { y with schedule := [] }) : wp turn Q E x := by
  suffices hfrom : ∀ (s : List Turn) (x : Exchange T), I x → (∀ t ∈ s, t ∈ x.schedule) →
      wp (turnFrom s) Q E x from hfrom x.schedule x h fun _ ht => ht
  intro s
  induction s with
  | nil => exact fun x h _ => hstop x h
  | cons t s ih =>
    intro x h hs
    cases t with
    | receiver c =>
      refine ih (x.receive c) (hI x c h) fun t ht => ?_
      rw [(x.receive_quiet c).schedule]
      exact hs t (List.mem_cons_of_mem _ ht)
    | sender tell =>
      exact hok tell s x h (fun t ht => hs t (List.mem_cons_of_mem _ ht)) (hs _ List.mem_cons_self)

/-- A turn in the state of a strategy. -/
theorem wp_turn_at (h : At told cap x ws m) (hP : ∀ a ∈ m, P a.2)
    {Q : Except SerError Unit → Exchange T → Prop}
    (hok : ∀ tell y, At told cap y ws m → (told → tell = .ok ()) → Q tell y) :
    wp turn Q (Halts told P) x :=
  wp_turn (I := fun y => At told cap y ws m) (fun _ c h => h.receive c) h
    (fun tell _ _ hy hs hmem => hok tell _ (hy.reschedule hs) fun ht => hy.schedule ht tell hmem)
    (fun _ hy => (hy.reschedule (by simp)).waits hP)

theorem wp_tryGet (h : At told cap x ws m) (hP : ∀ a ∈ m, P a.2) :
    wp tryGet (fun opt y => match opt with
      | none => At told cap y ws m
      | some w => At told cap y ((w, []) :: ws) m) (Halts told P) x := by
  unfold tryGet
  rw [wp_bind]
  refine wp_turn_at h hP fun _ y hy _ => ?_
  rw [wp_bind, wp_get]
  obtain ⟨opt, pool, heq, hsize, hopt⟩ := hy.owns.tryGet
  rw [heq]
  dsimp only
  rw [wp_bind, wp_modify, wp_pure]
  cases opt with
  | none => exact ⟨hopt, hy.messages, hy.ignored, hsize.trans hy.size, hy.schedule, hy.arrived⟩
  | some w => exact ⟨hopt.2, hy.messages, hy.ignored, hsize.trans hy.size, hy.schedule, hy.arrived⟩

/-- **`get`** adds an empty writer. -/
theorem wp_getBuffer (h : At told cap x ws m) (hP : ∀ a ∈ m, P a.2) :
    wp getBuffer (fun w y => At told cap y ((w, []) :: ws) m) (Halts told P) x := by
  have hloop : ∀ rounds {x : Exchange T}, At told cap x ws m →
      wp (getLoop rounds) (fun w y => At told cap y ((w, []) :: ws) m) (Halts told P) x := by
    intro rounds
    induction rounds with
    | zero => exact fun h => h.waits hP
    | succ rounds ih =>
      intro x h
      unfold getLoop
      rw [wp_bind]
      refine wp_mono (wp_tryGet h hP) (fun opt y hy => ?_) (fun _ _ h' => h')
      cases opt with
      | none => exact ih hy
      | some w => exact hy
  unfold getBuffer
  rw [wp_bind, wp_get]
  exact hloop _ h

/-- **`push`.** -/
theorem wp_push {w : BufferWriter} {l : List T} (h : At told cap x ((w, l) :: ws) m)
    (hP : ∀ a ∈ m, P a.2) (v : T) {Q : Option T × BufferWriter → Exchange T → Prop}
    (hroom : l.length < cap → ∀ w' y, At told cap y ((w', l ++ [v]) :: ws) m → Q (none, w') y)
    (hfull : cap ≤ l.length → ∀ y, At told cap y ((w, l) :: ws) m → Q (some v, w) y) :
    wp (push w v) Q (Halts told P) x := by
  unfold push
  rw [wp_bind]
  refine wp_turn_at h hP fun _ y hy _ => ?_
  rw [wp_bind, wp_get]
  rcases hy.owns.push v with ⟨hlt, w', pool, heq, hsize, howns⟩ | ⟨hle, heq⟩
  · rw [heq]
    exact hroom (hy.size ▸ hlt) w' _
      ⟨howns, hy.messages, hy.ignored, hsize.trans hy.size, hy.schedule, hy.arrived⟩
  · rw [heq]
    exact hfull (hy.size ▸ hle) _ hy

/-- A push into a buffer with room, whose result nobody looks at. -/
theorem wp_pushIgnored {w : BufferWriter} {l : List T} (h : At told cap x ((w, l) :: ws) m)
    (hP : ∀ a ∈ m, P a.2) (v : T) (hlt : l.length < cap) :
    wp (pushIgnored w v) (fun w' y => At told cap y ((w', l ++ [v]) :: ws) m) (Halts told P) x := by
  unfold pushIgnored
  rw [wp_bind]
  refine wp_push h hP v (fun _ w' y hy => ?_) (fun hle => absurd hle (not_le.mpr hlt))
  dsimp only
  rw [wp_bind, wp_modify, wp_pure]
  refine ⟨⟨⟨hy.owns.exclusive.curr, hy.owns.exclusive.size, hy.owns.exclusive.nodup,
    hy.owns.exclusive.bound, hy.owns.exclusive.free, hy.owns.exclusive.kept,
    hy.owns.exclusive.seen, hy.owns.exclusive.len⟩, hy.owns.writing, hy.owns.len,
    hy.owns.holds⟩, hy.messages,
    fun r hr => ?_, hy.size, hy.schedule, hy.arrived⟩
  rcases List.mem_append.mp hr with hr | hr
  · exact hy.ignored r hr
  · exact List.mem_singleton.mp hr

/-- **`copy_from_writer`.** -/
theorem wp_copyFromWriter {w other : BufferWriter} {l : List T}
    (h : At told cap x ((w, []) :: (other, l) :: ws) m) (hP : ∀ a ∈ m, P a.2) :
    wp (copyFromWriter w other) (fun w' y => At told cap y ((w', l) :: (other, l) :: ws) m)
      (Halts told P) x := by
  unfold copyFromWriter
  rw [wp_bind]
  refine wp_turn_at h hP fun _ y hy _ => ?_
  rw [wp_bind, wp_get]
  obtain ⟨w', pool, heq, hsize, howns⟩ := hy.owns.copyFromWriter
  rw [heq]
  exact ⟨howns, hy.messages, hy.ignored, hsize.trans hy.size, hy.schedule, hy.arrived⟩

theorem wp_turn_made {i : Nat} {l : List T} (h : Made told cap x ws m i l) (hP : ∀ a ∈ m, P a.2)
    {Q : Except SerError Unit → Exchange T → Prop}
    (hok : ∀ tell y, Made told cap y ws m i l → (told → tell = .ok ()) → Q tell y) :
    wp turn Q (Halts told P) x :=
  wp_turn (I := fun y => Made told cap y ws m i l) (fun _ c h => h.receive c) h
    (fun tell _ _ hy hs hmem =>
      hok tell _ (hy.reschedule hs) fun ht => hy.at_.schedule ht tell hmem)
    (fun _ hy => (hy.at_.reschedule (by simp)).waits hP)

theorem wp_reader {w : BufferWriter} {l : List T} (h : At told cap x ((w, l) :: ws) m)
    (hP : ∀ a ∈ m, P a.2) (sender : NodeID) :
    wp (reader sender w) (fun i y => Made told cap y ws m i l) (Halts told P) x := by
  unfold reader
  rw [wp_bind]
  refine wp_turn_at h hP fun _ y hy _ => ?_
  rw [wp_bind, wp_get, wp_bind, wp_set, wp_pure]
  obtain ⟨hread, howns⟩ := hy.owns.reader sender
  rw [hread]
  refine ⟨⟨howns, ?_, hy.ignored, hy.size, hy.schedule, fun ht r hr hs => ?_⟩,
    ⟨y.readings, _, rfl, rfl, rfl, rfl⟩⟩
  · rw [← hy.messages]
    unfold messages
    rw [List.filterMap_append]
    exact List.append_nil _
  · rcases List.mem_append.mp hr with hr | hr
    · exact hy.arrived ht r hr hs
    · obtain rfl := List.mem_singleton.mp hr
      cases hs

theorem wp_send {i : Nat} {l : List T} (h : Made told cap x ws m i l) (hP : ∀ a ∈ m, P a.2)
    (index : Nat) (channel : Channel) :
    wp (send index channel i) (fun tell y => At told cap y ws (m ++ [(index, l.map some)]) ∧
      (told → tell = .ok ())) (Halts told P) x := by
  unfold send
  cases channel with
  | onLocal =>
    rw [wp_bind]
    refine wp_turn_made h hP fun _ y hy _ => ?_
    rw [wp_bind, wp_modify, wp_pure]
    exact ⟨hy.deliver index fun _ => rfl, fun _ => rfl⟩
  | remote =>
    rw [wp_bind]
    refine wp_turn_made h hP fun _ y hy _ => ?_
    rw [wp_bind, wp_modify, wp_bind]
    have hread : Made told cap (y.readAll i) ws m i l :=
      hy.quiet (modifyReading_quiet y i fun r => by split <;> rfl)
        (readAll_exclusive hy.at_.owns.exclusive i)
    refine wp_turn_made hread hP fun _ z hz _ => ?_
    rw [wp_bind, wp_modify, wp_bind]
    have hdrop : Made told cap (z.dropReader i) ws m i l :=
      hz.quiet (dropReader_quiet z i) (dropReader_exclusive hz.at_.owns.exclusive i)
    refine wp_turn_made hdrop hP fun tell z' hz' htell => ?_
    rw [wp_bind, wp_modify, wp_pure]
    refine ⟨hz'.deliver index fun ht => ?_, htell⟩
    rw [htell ht]

/-- **A writer is sent**: its events are one more message on the channel. -/
theorem wp_sendReader {w : BufferWriter} {l : List T} (h : At told cap x ((w, l) :: ws) m)
    (hP : ∀ a ∈ m, P a.2) (hl : P (l.map some)) (sender : NodeID) (index : Nat)
    (channel : Channel) :
    wp (sendReader sender index channel w)
      (fun _ y => At told cap y ws (m ++ [(index, l.map some)])) (Halts told P) x := by
  have hP' : ∀ a ∈ m ++ [(index, l.map some)], P a.2 := by
    intro a ha
    rcases List.mem_append.mp ha with ha | ha
    · exact hP a ha
    · obtain rfl := List.mem_singleton.mp ha
      exact hl
  unfold sendReader
  rw [wp_bind]
  refine wp_mono (wp_reader h hP sender) (fun i y hy => ?_) (fun _ _ h' => h')
  rw [wp_bind]
  refine wp_mono (wp_send hy hP index channel) (fun tell z hz => ?_) (fun _ _ h' => h')
  obtain ⟨hz, htell⟩ := hz
  cases tell with
  | ok _ => exact hz
  | error e =>
    cases e with
    | bufferError msg =>
      refine ⟨.inr ⟨fun ht => ?_, msg, rfl⟩, hz.safe hP'⟩
      cases htell ht
    | other msg => exact hz

end ExchangeM

end Arcon

import Arcon.State.VecRefine
import Arcon.Window.Incremental
import Arcon.Window.Rules

/-!
# Appending and incremental windows in memory (`window/mod.rs`)

An `AppenderWindow` keeps the elements of a window in a vec state and makes the result of all of
them at the end, with its `materializer`; an `IncrementalWindow` keeps what `init` and `agg` have
made of them so far. Either has one handle for all its windows. The item key and the namespace of
the handle are cells, and every call of the trait `Window` sets both before it uses the handle.

A call of one window returns the window with its cells as the call has left them, also where the
state operation fails or panics. The backend is then as it was. Each of the two keeps its state in
an `InMemory` of its own.

What a window is for is here the elements since the last `clear`, for each key and index
(`elements`), and a result that is a function of them.

* `Represents`: a window that does this. `Represents.call`, **`Represents.run`**: one call, and
  every sequence of calls.
* `IncrementalWindow.represents`, `AppenderWindow.represents`: the two do.
* `IncrementalWindow.run_result`, `AppenderWindow.run_result`: so they are the windows of
  `Window/Model.lean`, for each key and index.
* **`windows_agree`**: with the fold as materializer they have the same results, and a call for one
  key and index leaves the results for the others.
-/

namespace Arcon.State

open Function

/-! ## The windows -/

namespace Handle

variable {IK N : Type}

/-- `set_item_key`. -/
def setItemKey (h : Handle IK N) (itemKey : IK) : Handle IK N := { h with itemKey }

/-- `set_namespace`. -/
def setNamespace (h : Handle IK N) (nspace : N) : Handle IK N := { h with nspace }

end Handle

/-- The trait `Window`, for a window with values of type `S` in its backend. -/
class BackedWindow (W : Type) (S IN OUT : outParam Type) where
  onElement : W → InMemory S → IN → WindowContext → W × Result (InMemory S)
  result : W → InMemory S → WindowContext → W × Result OUT
  clear : W → InMemory S → WindowContext → W × Result (InMemory S)

/-- `AppenderWindow`. -/
structure AppenderWindow (IN OUT : Type) where
  buffer : Handle (Prim 8) (Prim 8)
  materializer : List IN → OUT

namespace AppenderWindow

variable {IN OUT : Type}

/-- `new`. -/
def new (materializer : List IN → OUT) : AppenderWindow IN OUT :=
  ⟨⟨"appender_window_buffer", 0, 0⟩, materializer⟩

/-- The window with the key and the index of the context in its cells. -/
def set (w : AppenderWindow IN OUT) (ctx : WindowContext) : AppenderWindow IN OUT :=
  { w with buffer := (w.buffer.setItemKey ctx.key).setNamespace ctx.index }

instance : BackedWindow (AppenderWindow IN OUT) (List IN) IN OUT where
  onElement w db element ctx :=
    let w := w.set ctx
    (w, db.vecAppend w.buffer element)
  result w db ctx :=
    let w := w.set ctx
    (w, do
      let buf ← db.vecGet w.buffer
      pure (w.materializer buf))
  clear w db ctx :=
    let w := w.set ctx
    (w, db.vecClear w.buffer)

end AppenderWindow

/-- `IncrementalWindow`; `init` and `agg` are in the handle of the source. -/
structure IncrementalWindow (IN OUT : Type) where
  aggregator : Handle (Prim 8) (Prim 8)
  init : IN → OUT
  agg : IN → OUT → OUT

namespace IncrementalWindow

variable {IN OUT : Type}

/-- `new`. -/
def new (init : IN → OUT) (agg : IN → OUT → OUT) : IncrementalWindow IN OUT :=
  ⟨⟨"incremental_window_aggregating_state", 0, 0⟩, init, agg⟩

/-- The window with the key and the index of the context in its cells. -/
def set (w : IncrementalWindow IN OUT) (ctx : WindowContext) : IncrementalWindow IN OUT :=
  { w with aggregator := (w.aggregator.setItemKey ctx.key).setNamespace ctx.index }

variable [Message IN] [Message (ProstOption OUT)]

/-- The aggregator of the handle. -/
def aggregates (w : IncrementalWindow IN OUT) : Aggregator :=
  IncrementalWindowAggregator w.init w.agg

instance : BackedWindow (IncrementalWindow IN OUT) (ProstOption OUT) IN OUT where
  onElement w db element ctx :=
    let w := w.set ctx
    (w, InMemory.aggregatorAggregate w.aggregates db w.aggregator element)
  result w db ctx :=
    let w := w.set ctx
    (w, InMemory.aggregatorGet w.aggregates db w.aggregator)
  clear w db ctx :=
    let w := w.set ctx
    (w, InMemory.aggregatorClear w.aggregates db w.aggregator)

end IncrementalWindow

/-! ## Calls -/

/-- A call of a window. -/
inductive WindowCall (IN : Type)
  | onElement (element : IN) (ctx : WindowContext)
  | result (ctx : WindowContext)
  | clear (ctx : WindowContext)

namespace WindowCall

variable {IN : Type}

/-- The window it is for. -/
def ctx : WindowCall IN → WindowContext
  | onElement _ c | result c | clear c => c

/-- The calls that write: all but `result`. -/
def Writes : WindowCall IN → Prop
  | onElement .. | clear _ => True
  | result _ => False

/-- What it means for the elements of all windows. -/
def apply (lists : WindowContext → List IN) : WindowCall IN → WindowContext → List IN
  | onElement x c => update lists c (lists c ++ [x])
  | result _ => lists
  | clear c => update lists c []

/-- The elements of every window since its last `clear`. -/
def elements (calls : List (WindowCall IN)) : WindowContext → List IN :=
  calls.foldl apply fun _ => []

/-- Only the elements of its own window change. -/
theorem apply_of_ne {lists : WindowContext → List IN} {c : WindowCall IN} {k : WindowContext}
    (h : c.ctx ≠ k) : c.apply lists k = lists k := by
  cases c with
  | onElement x c => exact update_of_ne (Ne.symm h) _ _
  | result c => rfl
  | clear c => exact update_of_ne (Ne.symm h) _ _

end WindowCall

/-- A window and its backend. -/
structure Hosted (W S : Type) where
  window : W
  backend : InMemory S

namespace Hosted

variable {W S IN OUT : Type} [BackedWindow W S IN OUT]

/-- The end of a call that writes: the backend stays as it was if it has failed. -/
def written (h : Hosted W S) (r : W × Result (InMemory S)) : Hosted W S × Result (Option OUT) :=
  (⟨r.1, r.2.toOption.getD h.backend⟩, r.2.map fun _ => none)

/-- A call, and what it returns. -/
def call (h : Hosted W S) : WindowCall IN → Hosted W S × Result (Option OUT)
  | .onElement element ctx =>
    h.written (BackedWindow.onElement h.window h.backend element ctx)
  | .result ctx =>
    let r := BackedWindow.result h.window h.backend ctx
    (⟨r.1, h.backend⟩, r.2.map some)
  | .clear ctx => h.written (BackedWindow.clear h.window h.backend ctx)

/-- What `result` would return. -/
def result (h : Hosted W S) (ctx : WindowContext) : Result OUT :=
  (BackedWindow.result h.window h.backend ctx).2

/-- The window after some calls. -/
def run (h : Hosted W S) (calls : List (WindowCall IN)) : Hosted W S :=
  calls.foldl (fun h c => (h.call c).1) h

end Hosted

/-! ## What a window is for -/

section represents

variable {W S IN OUT : Type} [BackedWindow W S IN OUT]

/-- The window keeps the elements, as `R` has it, and its results are those of `answer`. No write
fails. -/
structure Represents (answer : List IN → Result OUT)
    (R : Hosted W S → (WindowContext → List IN) → Prop) : Prop where
  onElement : ∀ h lists x ctx, R h lists → ∃ w db,
    BackedWindow.onElement h.window h.backend x ctx = (w, .ok db) ∧
      R ⟨w, db⟩ (update lists ctx (lists ctx ++ [x]))
  result : ∀ h lists ctx, R h lists → ∃ w,
    BackedWindow.result h.window h.backend ctx = (w, answer (lists ctx)) ∧ R ⟨w, h.backend⟩ lists
  clear : ∀ h lists ctx, R h lists → ∃ w db,
    BackedWindow.clear h.window h.backend ctx = (w, .ok db) ∧ R ⟨w, db⟩ (update lists ctx [])

namespace Represents

variable {answer : List IN → Result OUT} {R : Hosted W S → (WindowContext → List IN) → Prop}
  (hrep : Represents answer R) {h : Hosted W S} {lists : WindowContext → List IN}
include hrep

/-- **One call.** -/
theorem call (hR : R h lists) (c : WindowCall IN) : R (h.call c).1 (c.apply lists) := by
  cases c with
  | onElement x ctx =>
    obtain ⟨w, db, hcall, hR'⟩ := hrep.onElement h lists x ctx hR
    rw [Hosted.call, hcall]
    exact hR'
  | result ctx =>
    obtain ⟨w, hcall, hR'⟩ := hrep.result h lists ctx hR
    rw [Hosted.call, hcall]
    exact hR'
  | clear ctx =>
    obtain ⟨w, db, hcall, hR'⟩ := hrep.clear h lists ctx hR
    rw [Hosted.call, hcall]
    exact hR'

/-- **Every sequence of calls.** -/
theorem run (hR : R h fun _ => []) (calls : List (WindowCall IN)) :
    R (h.run calls) (WindowCall.elements calls) := by
  induction calls using List.reverseRecOn with
  | nil => exact hR
  | append_singleton calls c ih =>
    unfold Hosted.run WindowCall.elements at *
    rw [List.foldl_append, List.foldl_append]
    exact hrep.call ih c

theorem result_eq (hR : R h lists) (ctx : WindowContext) :
    h.result ctx = answer (lists ctx) := by
  obtain ⟨w, hcall, -⟩ := hrep.result h lists ctx hR
  unfold Hosted.result
  rw [hcall]

/-- A call that writes does not fail. -/
theorem write_eq (hR : R h lists) {c : WindowCall IN} (hc : c.Writes) :
    (h.call c).2 = .ok none := by
  cases c with
  | onElement x ctx =>
    obtain ⟨w, db, hcall, -⟩ := hrep.onElement h lists x ctx hR
    rw [Hosted.call, hcall]
    rfl
  | result ctx => exact absurd hc id
  | clear ctx =>
    obtain ⟨w, db, hcall, -⟩ := hrep.clear h lists ctx hR
    rw [Hosted.call, hcall]
    rfl

/-- **A call for one window leaves the results of the others.** -/
theorem result_of_ne (hR : R h lists) {c : WindowCall IN} {ctx : WindowContext}
    (hne : c.ctx ≠ ctx) : (h.call c).1.result ctx = h.result ctx := by
  rw [hrep.result_eq (hrep.call hR c), hrep.result_eq hR, WindowCall.apply_of_ne hne]

end Represents

end represents

/-! ## The two windows -/

namespace IncrementalWindow

variable {IN OUT : Type} [Message IN] [Message (ProstOption OUT)] (init : IN → OUT)
  (agg : IN → OUT → OUT)

/-- A registered window and its backend. -/
def host : Hosted (IncrementalWindow IN OUT) (ProstOption OUT) :=
  ⟨new init agg, InMemory.windows OUT⟩

/-- The result of a window with these elements. -/
def answer (l : List IN) : Result OUT :=
  match aggregated init agg l with
  | some r => .ok r
  | none => .error (.panic "uninitialized incremental window")

/-- The accumulators are those of the elements, whatever the cells hold. -/
structure Follows (h : Hosted (IncrementalWindow IN OUT) (ProstOption OUT))
    (lists : WindowContext → List IN) : Prop where
  window : ∃ key index,
    h.window = ⟨⟨"incremental_window_aggregating_state", key, index⟩, init, agg⟩
  backend : ∃ all : Handle (Prim 8) (Prim 8) → List IN, all ∘ WindowContext.handle = lists ∧
    InMemory.KeepsLists (BoxHolds (A := IncrementalWindowAggregator init agg))
      ["incremental_window_aggregating_state"] h.backend all

variable {init agg}

theorem follows_host : Follows init agg (host init agg) (fun _ => []) where
  window := ⟨0, 0, rfl⟩
  backend := ⟨fun _ => [], rfl, InMemory.keepsLists_registered InMemory.foldsInto_aggregator _⟩

/-- What a write to the window `ctx` leaves. -/
theorem Follows.write {h : Hosted (IncrementalWindow IN OUT) (ProstOption OUT)}
    {lists : WindowContext → List IN} (hf : Follows init agg h lists)
    {o : FoldOp IN (Prim 8) (Prim 8)} {ctx : WindowContext} (ho : o.handle = ctx.handle) :
    ∃ db, InMemory.execAggregator (IncrementalWindowAggregator init agg) h.backend o = .ok db ∧
      Follows init agg ⟨⟨ctx.handle, init, agg⟩, db⟩
        (update lists ctx (o.onList (lists ctx))) := by
  obtain ⟨all, rfl, hkeeps⟩ := hf.backend
  have hid : o.handle.id ∈ ["incremental_window_aggregating_state"] := by
    rw [ho]
    exact List.mem_singleton.mpr rfl
  have hlists : o.apply all ∘ WindowContext.handle =
      update (all ∘ WindowContext.handle) ctx (o.onList (all ctx.handle)) := by
    unfold FoldOp.apply
    rw [ho]
    exact update_comp_eq_of_injective all (fun _ _ => WindowContext.handle_inj) ctx _
  obtain ⟨db, hdb, hkeeps'⟩ := InMemory.keeps_execAggregator hkeeps hid
  exact ⟨db, hdb, ⟨ctx.key, ctx.index, rfl⟩, _, hlists, hkeeps'⟩

/-- **An incremental window** keeps the elements. -/
theorem represents : Represents (answer init agg) (Follows init agg) where
  onElement h lists x ctx hf := by
    obtain ⟨key, index, hw⟩ := hf.window
    obtain ⟨db, hdb, hf'⟩ := hf.write (o := .add ctx.handle x) rfl
    refine ⟨_, db, ?_, hf'⟩
    rw [hw]
    exact congrArg (Prod.mk _) hdb
  result h lists ctx hf := by
    obtain ⟨key, index, hw⟩ := hf.window
    obtain ⟨all, rfl, hkeeps⟩ := hf.backend
    refine ⟨⟨ctx.handle, init, agg⟩, ?_, ⟨ctx.key, ctx.index, rfl⟩, all, rfl, hkeeps⟩
    have hget := InMemory.aggregatorGet_eq hkeeps (h := ctx.handle) (List.mem_singleton.mpr rfl)
    rw [hw]
    refine congrArg (Prod.mk _) (hget.trans ?_)
    rw [fold_eq_aggregated]
    unfold answer
    dsimp only [comp_apply]
    cases aggregated init agg (all ctx.handle) <;> rfl
  clear h lists ctx hf := by
    obtain ⟨key, index, hw⟩ := hf.window
    obtain ⟨db, hdb, hf'⟩ := hf.write (o := .clear ctx.handle) rfl
    refine ⟨_, db, ?_, hf'⟩
    rw [hw]
    exact congrArg (Prod.mk _) hdb

omit [Message IN] [Message (ProstOption OUT)] in
theorem gather_eq (data : List IN) :
    (Arcon.IncrementalWindow.new init agg).gather data = aggregated init agg data := by
  induction data using List.reverseRecOn with
  | nil => rfl
  | append_singleton data x ih =>
    rw [Window.gather_append, ih]
    cases data with
    | nil => rfl
    | cons y ys =>
      rw [List.cons_append, aggregated, aggregated, List.foldl_append]
      rfl

/-- **After any calls** the results are those of the window that `EventTimeWindowAssigner` is
modelled with. -/
theorem run_result (calls : List (WindowCall IN)) (ctx : WindowContext) :
    (((host init agg).run calls).result ctx).toOption =
      (Arcon.IncrementalWindow.new init agg).result
        ((Arcon.IncrementalWindow.new init agg).gather (WindowCall.elements calls ctx)) := by
  rw [represents.result_eq (represents.run follows_host calls), gather_eq]
  unfold answer
  cases aggregated init agg (WindowCall.elements calls ctx) <;> rfl

end IncrementalWindow

namespace AppenderWindow

variable {IN OUT : Type} (materializer : List IN → OUT)

/-- A registered window and its backend. -/
def host : Hosted (AppenderWindow IN OUT) (List IN) :=
  ⟨new materializer, InMemory.registered (List IN) ["appender_window_buffer"]⟩

/-- The handle with the key and the index of a context in its cells. -/
def handle (ctx : WindowContext) : Handle (Prim 8) (Prim 8) :=
  ⟨"appender_window_buffer", ctx.key, ctx.index⟩

theorem handle_injective : Injective handle := by
  intro c c' h
  cases c
  cases c'
  cases h
  rfl

/-- The buffers are the elements, whatever the cells hold. -/
structure Follows (h : Hosted (AppenderWindow IN OUT) (List IN))
    (lists : WindowContext → List IN) : Prop where
  window : ∃ key index, h.window = ⟨⟨"appender_window_buffer", key, index⟩, materializer⟩
  backend : ∃ all : Handle (Prim 8) (Prim 8) → List IN, all ∘ handle = lists ∧
    InMemory.Holds ["appender_window_buffer"] h.backend all

variable {materializer}

theorem follows_host : Follows materializer (host materializer) (fun _ => []) where
  window := ⟨0, 0, rfl⟩
  backend := ⟨fun _ => [], rfl, InMemory.holds_registered _⟩

/-- What a write to the window `ctx` leaves. -/
theorem Follows.write {h : Hosted (AppenderWindow IN OUT) (List IN)}
    {lists : WindowContext → List IN} (hf : Follows materializer h lists)
    {o : VecOp IN (Prim 8) (Prim 8)} {ctx : WindowContext} (ho : o.handle = handle ctx) :
    ∃ db, InMemory.exec h.backend o = .ok db ∧
      Follows materializer ⟨⟨handle ctx, materializer⟩, db⟩
        (update lists ctx (o.onList (lists ctx))) := by
  obtain ⟨all, rfl, hholds⟩ := hf.backend
  have hid : o.handle.id ∈ ["appender_window_buffer"] := by
    rw [ho]
    exact List.mem_singleton.mpr rfl
  have hlists : o.apply all ∘ handle = update (all ∘ handle) ctx (o.onList (all (handle ctx))) := by
    unfold VecOp.apply
    rw [ho]
    exact update_comp_eq_of_injective all handle_injective ctx _
  obtain ⟨db, hdb, hholds'⟩ := InMemory.holds_exec hholds o hid
  exact ⟨db, hdb, ⟨ctx.key, ctx.index, rfl⟩, _, hlists, hholds'⟩

/-- **An appending window** keeps the elements. -/
theorem represents :
    Represents (fun l => .ok (materializer l)) (Follows materializer) where
  onElement h lists x ctx hf := by
    obtain ⟨key, index, hw⟩ := hf.window
    obtain ⟨db, hdb, hf'⟩ := hf.write (o := .append (handle ctx) x) rfl
    refine ⟨_, db, ?_, hf'⟩
    rw [hw]
    exact congrArg (Prod.mk _) hdb
  result h lists ctx hf := by
    obtain ⟨key, index, hw⟩ := hf.window
    obtain ⟨all, rfl, hholds⟩ := hf.backend
    refine ⟨⟨handle ctx, materializer⟩, ?_, ⟨ctx.key, ctx.index, rfl⟩, all, rfl, hholds⟩
    obtain ⟨m, hm, hl⟩ := hholds (handle ctx) (List.mem_singleton.mpr rfl)
    have hget : h.backend.vecGet (handle ctx) = .ok (all (handle ctx)) := by
      unfold InMemory.vecGet
      rw [Handle.serializeMetakeys_eq, ok_bind, InMemory.get_eq hm, ok_bind, hl]
      rfl
    rw [hw]
    refine congrArg (Prod.mk _) ?_
    show (h.backend.vecGet (handle ctx) >>= fun buf => pure (materializer buf)) = _
    rw [hget]
    rfl
  clear h lists ctx hf := by
    obtain ⟨key, index, hw⟩ := hf.window
    obtain ⟨db, hdb, hf'⟩ := hf.write (o := .clear (handle ctx)) rfl
    refine ⟨_, db, ?_, hf'⟩
    rw [hw]
    exact congrArg (Prod.mk _) hdb

@[inherit_doc IncrementalWindow.run_result]
theorem run_result (calls : List (WindowCall IN)) (ctx : WindowContext) :
    (((host materializer).run calls).result ctx).toOption =
      (Arcon.AppenderWindow.new materializer).result
        ((Arcon.AppenderWindow.new materializer).gather (WindowCall.elements calls ctx)) := by
  rw [represents.result_eq (represents.run follows_host calls), Arcon.AppenderWindow.gather_eq]
  rfl

end AppenderWindow

/-! ## Both -/

/-- The two windows with their backends. -/
structure WindowPair (IN OUT : Type) where
  incremental : Hosted (IncrementalWindow IN OUT) (ProstOption OUT)
  appender : Hosted (AppenderWindow IN OUT) (List IN)

/-- A call of the one or of the other. -/
abbrev PairCall (IN : Type) := WindowCall IN ⊕ WindowCall IN

namespace PairCall

variable {IN : Type}

/-- The call. -/
def call : PairCall IN → WindowCall IN
  | .inl c | .inr c => c

/-- The calls of the incremental window, in order. -/
def ofIncremental (calls : List (PairCall IN)) : List (WindowCall IN) :=
  calls.filterMap Sum.getLeft?

/-- The calls of the appending window, in order. -/
def ofAppender (calls : List (PairCall IN)) : List (WindowCall IN) := calls.filterMap Sum.getRight?

/-- What the incremental window has been given since the last `clear`, for each key and index. -/
def inIncremental (calls : List (PairCall IN)) : WindowContext → List IN :=
  WindowCall.elements (ofIncremental calls)

/-- What the appending window has been given since the last `clear`, for each key and index. -/
def inAppender (calls : List (PairCall IN)) : WindowContext → List IN :=
  WindowCall.elements (ofAppender calls)

end PairCall

namespace WindowPair

variable {IN OUT : Type} [Message IN] [Message (ProstOption OUT)]

/-- Both windows, registered. -/
def new (init : IN → OUT) (agg : IN → OUT → OUT) (materializer : List IN → OUT) :
    WindowPair IN OUT :=
  ⟨IncrementalWindow.host init agg, AppenderWindow.host materializer⟩

/-- A call, and what it returns. -/
def call (s : WindowPair IN OUT) : PairCall IN → WindowPair IN OUT × Result (Option OUT)
  | .inl c =>
    let r := s.incremental.call c
    ({ s with incremental := r.1 }, r.2)
  | .inr c =>
    let r := s.appender.call c
    ({ s with appender := r.1 }, r.2)

/-- The windows after some calls. -/
def run (s : WindowPair IN OUT) (calls : List (PairCall IN)) : WindowPair IN OUT :=
  calls.foldl (fun s c => (s.call c).1) s

/-- The windows after some calls, from the registered ones on. -/
def after (init : IN → OUT) (agg : IN → OUT → OUT) (materializer : List IN → OUT)
    (calls : List (PairCall IN)) : WindowPair IN OUT :=
  (new init agg materializer).run calls

/-- Each window gets its own calls. -/
theorem run_eq (s : WindowPair IN OUT) (calls : List (PairCall IN)) :
    s.run calls = ⟨s.incremental.run (PairCall.ofIncremental calls),
      s.appender.run (PairCall.ofAppender calls)⟩ := by
  induction calls generalizing s with
  | nil => rfl
  | cons c calls ih =>
    cases c with
    | inl c => exact ih _
    | inr c => exact ih _

end WindowPair

section agree

variable {IN OUT : Type} [Message IN] [Message (ProstOption OUT)]

open PairCall WindowPair

/-- **Incremental and appending windows agree.** For all `init` and `agg`, a materializer that is
the fold of the two, and every interleaving of calls of an incremental and an appending window, for
any keys and indices: `on_element` and `clear` do not fail; for every key and index for which both
have been given the same elements since the last `clear`, and at least one, both results are the
fold of these; and a call for another key or index leaves the results of both as they are. -/
theorem windows_agree (init : IN → OUT) (agg : IN → OUT → OUT) {materializer : List IN → OUT}
    (hfold : ∀ x xs, materializer (x :: xs) = xs.foldl (fun acc y => agg y acc) (init x))
    (calls : List (PairCall IN)) :
    (∀ c, c.call.Writes → ((after init agg materializer calls).call c).2 = .ok none) ∧
    (∀ ctx, inIncremental calls ctx = inAppender calls ctx → inIncremental calls ctx ≠ [] →
      ∃ r, aggregated init agg (inIncremental calls ctx) = some r ∧
        (after init agg materializer calls).incremental.result ctx = .ok r ∧
        (after init agg materializer calls).appender.result ctx = .ok r) ∧
    ∀ c ctx, c.call.ctx ≠ ctx →
      ((after init agg materializer calls).call c).1.incremental.result ctx =
        (after init agg materializer calls).incremental.result ctx ∧
      ((after init agg materializer calls).call c).1.appender.result ctx =
        (after init agg materializer calls).appender.result ctx := by
  have hinc : IncrementalWindow.Follows init agg _ (inIncremental calls) :=
    IncrementalWindow.represents.run IncrementalWindow.follows_host _
  have happ : AppenderWindow.Follows materializer _ (inAppender calls) :=
    AppenderWindow.represents.run AppenderWindow.follows_host _
  unfold after
  rw [WindowPair.run_eq]
  refine ⟨fun c hc => ?_, fun ctx hsame hne => ?_, fun c ctx hctx => ?_⟩
  · cases c with
    | inl c => exact IncrementalWindow.represents.write_eq hinc hc
    | inr c => exact AppenderWindow.represents.write_eq happ hc
  · have hi := IncrementalWindow.represents.result_eq hinc ctx
    have ha := AppenderWindow.represents.result_eq happ ctx
    rw [← hsame] at ha
    obtain ⟨x, xs, hl⟩ := List.exists_cons_of_ne_nil hne
    rw [hl] at hi ha ⊢
    refine ⟨_, rfl, hi, ha.trans ?_⟩
    rw [hfold]
  · cases c with
    | inl c => exact ⟨IncrementalWindow.represents.result_of_ne hinc hctx, rfl⟩
    | inr c => exact ⟨rfl, AppenderWindow.represents.result_of_ne happ hctx⟩

end agree

/-- Two windows of one key: the elements come in turn, and one of the windows is cleared. -/
def turns : List (PairCall Bool) :=
  [.inl (.onElement true ⟨3, 0⟩), .inr (.onElement true ⟨3, 0⟩), .inr (.onElement false ⟨3, 1⟩),
   .inl (.onElement false ⟨3, 1⟩), .inl (.result ⟨3, 1⟩), .inr (.clear ⟨3, 0⟩),
   .inr (.onElement true ⟨3, 1⟩), .inl (.clear ⟨3, 0⟩), .inl (.onElement true ⟨3, 1⟩),
   .inl (.result ⟨3, 0⟩)]

/-- The fold of `id` and `onlyLast`. -/
def onlyLastOf : List Bool → Bool
  | [] => false
  | x :: xs => xs.foldl (fun acc y => onlyLast y acc) x

theorem windows_agree_turns :
    (WindowPair.after id onlyLast onlyLastOf turns).incremental.result ⟨3, 1⟩ = .ok true ∧
      (WindowPair.after id onlyLast onlyLastOf turns).appender.result ⟨3, 1⟩ = .ok true := by
  have hfold : ∀ x xs, onlyLastOf (x :: xs) = xs.foldl (fun acc y => onlyLast y acc) (id x) :=
    fun _ _ => rfl
  obtain ⟨r, hr, hi, ha⟩ := (windows_agree id onlyLast hfold turns).2.1 ⟨3, 1⟩ rfl (by decide)
  cases hr
  exact ⟨hi, ha⟩

end Arcon.State

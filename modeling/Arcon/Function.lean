import Arcon.Driver

/-!
# Function operators (`stream/operator/function/*.rs`)

`Filter`, `FlatMap`, `Map` and `MapInPlace` call a user's function on the data of every element. The
function may use the state of the operator, and it ends in a panic where it `expect`s what is not
there. What it returns goes out with the timestamp of the element. Watermarks and epochs are
ignored, and no timers are used: these operators run with `timer::none()`.

`transduce` is what such an operator is for the stream it is in: the function, applied to the
elements one after the other.

* `Filter.stateful_eq`, `Map.stateful_eq`, `MapInPlace.stateful_eq`: the others as `FlatMap`s.
* **`drive_flatMap`**: every sequence of calls, whatever watermarks and epochs come in between.
-/

namespace Arcon

open Exec

variable {σ IN OUT TS α : Type}

/-- A user's function at work on the state: it returns, or panics with a message. -/
abbrev Udf (σ α : Type) := EStateM String σ α

/-- Call the function. -/
def OpM.callUdf (udf : Udf σ α) : OpM σ TS OUT α :=
  .getState fun s =>
    match udf s with
    | .ok a s => .setState s (.pure a)
    | .error msg s => .setState s (.panic msg)

/-- `FlatMap::stateful`. -/
def FlatMap.stateful (udf : IN → Udf σ (List OUT)) : Operator σ Empty IN OUT where
  init := id
  handleElement element := do
    let result ← OpM.callUdf (udf element.data)
    forM result fun item => OpM.emit (.element ⟨item, element.timestamp⟩)
  handleWatermark _ := .pure ()
  handleEpoch _ := .pure ()
  handleTimeout timeout := nomatch timeout

/-- `FlatMap::new`. -/
def FlatMap.new (udf : IN → List OUT) : Operator Unit Empty IN OUT :=
  FlatMap.stateful fun x => pure (udf x)

/-- `Filter::stateful`: an element that passes goes on as it is. -/
def Filter.stateful (udf : IN → Udf σ Bool) : Operator σ Empty IN IN where
  init := id
  handleElement element := do
    if ← OpM.callUdf (udf element.data) then OpM.emit (.element element)
  handleWatermark _ := .pure ()
  handleEpoch _ := .pure ()
  handleTimeout timeout := nomatch timeout

/-- `Map::stateful`. -/
def Map.stateful (udf : IN → Udf σ OUT) : Operator σ Empty IN OUT where
  init := id
  handleElement element := do
    let result ← OpM.callUdf (udf element.data)
    OpM.emit (.element ⟨result, element.timestamp⟩)
  handleWatermark _ := .pure ()
  handleEpoch _ := .pure ()
  handleTimeout timeout := nomatch timeout

/-- `MapInPlace::stateful`: the function changes the data, of which it leaves the changed one. -/
def MapInPlace.stateful (udf : IN → Udf σ IN) : Operator σ Empty IN IN where
  init := id
  handleElement element := do
    let data ← OpM.callUdf (udf element.data)
    OpM.emit (.element { element with data })
  handleWatermark _ := .pure ()
  handleEpoch _ := .pure ()
  handleTimeout timeout := nomatch timeout

/-- `MapInPlace::new`. -/
def MapInPlace.new (udf : IN → IN) : Operator Unit Empty IN IN :=
  MapInPlace.stateful fun x => pure (udf x)

/-! ## The stream -/

/-- The function applied to elements one after the other, each result with the timestamp of its
element. -/
def transduce (udf : IN → Udf σ (List OUT)) :
    List (ArconElement IN) → Udf σ (List (ArconElement OUT))
  | [] => pure []
  | element :: elements => do
    let result ← udf element.data
    let rest ← transduce udf elements
    pure (result.map (⟨·, element.timestamp⟩) ++ rest)

/-- The elements among some calls. -/
def Call.elements (calls : List (Call IN)) : List (ArconElement IN) :=
  calls.filterMap fun
    | .element e => some e
    | .watermark _ | .epoch _ => none

/-- The elements that operator code handed to the channel strategy. -/
def outputElements (l : List (Act IN OUT TS)) : List (ArconElement OUT) :=
  l.filterMap fun
    | .output (.element e) => some e
    | _ => none

@[simp] theorem outputElements_append (l₁ l₂ : List (Act IN OUT TS)) :
    outputElements (l₁ ++ l₂) = outputElements l₁ ++ outputElements l₂ := List.filterMap_append

theorem outputElements_results (items : List OUT) (timestamp : Option Nat) :
    outputElements (items.map fun item => (.output (.element ⟨item, timestamp⟩) : Act IN OUT TS)) =
      items.map (⟨·, timestamp⟩) := by
  unfold outputElements
  rw [List.filterMap_map]
  exact congrFun List.filterMap_eq_map items

/-! ## The others as `FlatMap`s -/

theorem callUdf_eq {β : Type} (udf : Udf σ α) (f : α → β) (k : β → OpM σ TS OUT Unit) :
    (do k (f (← OpM.callUdf udf))) = (do k (← OpM.callUdf (f <$> udf))) := by
  show OpM.getState _ = OpM.getState _
  congr 1
  funext s
  show OpM.bind (match udf s with | .ok a s => _ | .error msg s => _) _ =
    OpM.bind (match (EStateM.map f udf) s with | .ok a s => _ | .error msg s => _) _
  unfold EStateM.map
  cases udf s <;> rfl

theorem Filter.stateful_eq (udf : IN → Udf σ Bool) :
    Filter.stateful udf =
      FlatMap.stateful fun x => (fun passes => if passes then [x] else []) <$> udf x := by
  unfold Filter.stateful FlatMap.stateful
  congr 1
  funext element
  rw [← callUdf_eq (udf element.data) _ fun items =>
    forM items fun item => OpM.emit (.element ⟨item, element.timestamp⟩)]
  congr 1
  funext passes
  cases passes <;> rfl

theorem Map.stateful_eq (udf : IN → Udf σ OUT) :
    Map.stateful udf = FlatMap.stateful fun x => (fun y => [y]) <$> udf x := by
  unfold Map.stateful FlatMap.stateful
  congr 1
  funext element
  rw [← callUdf_eq (udf element.data) _ fun items =>
    forM items fun item => OpM.emit (.element ⟨item, element.timestamp⟩)]
  rfl

theorem MapInPlace.stateful_eq (udf : IN → Udf σ IN) :
    MapInPlace.stateful udf = Map.stateful udf := rfl

/-! ## Calls -/

section calls

variable {τ P : Type} {c : OpCtx σ τ IN OUT TS} [TimerBackend τ TS P]

theorem wp_run_callUdf {udf : Udf σ α} {Q : α → OpCtx σ τ IN OUT TS → Prop}
    {F : Crash → OpCtx σ τ IN OUT TS → Prop} :
    wp (OpM.callUdf udf : OpM σ TS OUT α).run Q F c ↔
      wp udf (fun a s => Q a { c with operator := s })
        (fun msg s => F (.panic msg) { c with operator := s }) c.operator := by
  unfold OpM.callUdf
  rw [OpM.run, wp_bind, wp_get]
  unfold wp
  cases udf c.operator <;> rfl

/-- The results of an element, handed on. -/
theorem wp_run_emits {items : List OUT} {timestamp : Option Nat}
    {Q : Unit → OpCtx σ τ IN OUT TS → Prop} {F : Crash → OpCtx σ τ IN OUT TS → Prop}
    (h : Q () { c with
      log := c.log ++ items.map fun item => .output (.element ⟨item, timestamp⟩) }) :
    wp (forM items fun item => OpM.emit (.element ⟨item, timestamp⟩) : OpM σ TS OUT Unit).run Q F
      c := by
  induction items generalizing c with
  | nil =>
    rw [List.map_nil, List.append_nil] at h
    exact h
  | cons e items ih =>
    rw [List.forM_cons, wp_run_bind, wp_run_emit]
    refine ih ?_
    simpa [OpCtx.note] using h

end calls

variable (udf : IN → Udf σ (List OUT))

/-- What a call of a `FlatMap` does: the function on an element, and nothing otherwise. -/
theorem call_flatMap (x : Call IN) (c : OpCtx σ Unit IN OUT Empty) :
    wp ((FlatMap.stateful udf).call x)
      (fun _ c' => ∃ outs, transduce udf (Call.elements [x]) c.operator = .ok outs c'.operator ∧
        outputElements c'.log = outputElements c.log ++ outs)
      (fun crash c' => ∃ msg, crash = .panic msg ∧
        transduce udf (Call.elements [x]) c.operator = .error msg c'.operator) c := by
  cases x with
  | element e =>
    unfold Operator.call
    rw [wp_bind, wp_modify]
    show wp (OpM.callUdf (udf e.data) >>= fun result => forM result _).run _ _ _
    rw [wp_run_bind, wp_run_callUdf]
    have hone : Call.elements [.element e] = [e] := rfl
    rw [hone]
    refine wp_intro (fun result s hudf => ?_) fun msg s hudf => ⟨msg, rfl, ?_⟩
    · refine wp_run_emits ⟨result.map (⟨·, e.timestamp⟩), ?_, ?_⟩
      · refine (bind_ok hudf).trans ?_
        show EStateM.Result.ok (_ ++ []) s = _
        rw [List.append_nil]
      · show outputElements ((c.log ++ [.handleElement e]) ++ _) = _
        rw [outputElements_append, outputElements_append, outputElements_results]
        exact congrArg (· ++ _) (List.append_nil _)
    · exact bind_error hudf
  | watermark w => exact ⟨[], rfl, by simp [outputElements]⟩
  | epoch e => exact ⟨[], rfl, by simp [outputElements]⟩

theorem transduce_append (es₁ es₂ : List (ArconElement IN)) :
    transduce udf (es₁ ++ es₂) = (do
      let outs₁ ← transduce udf es₁
      let outs₂ ← transduce udf es₂
      pure (outs₁ ++ outs₂)) := by
  induction es₁ with
  | nil =>
    funext s
    show _ = ((transduce udf es₂) >>= fun outs => pure outs) s
    rw [bind_pure]
    rfl
  | cons e es₁ ih =>
    simp only [List.cons_append, transduce, ih, bind_assoc, pure_bind, List.append_assoc]

/-- **A run of a `FlatMap`** is the function applied to the elements, in order: the results go out
with the timestamps of their elements, and the state is what the function made of it. If it panics,
so does the function at the same element. -/
theorem drive_flatMap (calls : List (Call IN)) (c : OpCtx σ Unit IN OUT Empty) :
    wp ((FlatMap.stateful udf).drive calls)
      (fun _ c' => ∃ outs, transduce udf (Call.elements calls) c.operator = .ok outs c'.operator ∧
        outputElements c'.log = outputElements c.log ++ outs)
      (fun crash c' => ∃ msg, crash = .panic msg ∧
        transduce udf (Call.elements calls) c.operator = .error msg c'.operator) c := by
  induction calls generalizing c with
  | nil => exact (wp_pure (PUnit.unit)).mpr ⟨[], rfl, (List.append_nil _).symm⟩
  | cons x calls ih =>
    have hsplit : Call.elements (x :: calls) = Call.elements [x] ++ Call.elements calls :=
      List.filterMap_append (l := [x])
    unfold Operator.drive
    rw [List.forM_cons, wp_bind, hsplit, transduce_append]
    refine wp_mono (call_flatMap udf x c) ?_ ?_
    · rintro _ c₁ ⟨outs₁, htrans₁, hlog₁⟩
      refine wp_mono (ih c₁) ?_ ?_
      · rintro _ c' ⟨outs₂, htrans₂, hlog₂⟩
        refine ⟨outs₁ ++ outs₂, (bind_ok htrans₁).trans (bind_ok htrans₂), ?_⟩
        rw [hlog₂, hlog₁, List.append_assoc]
      · rintro crash c' ⟨msg, hcrash, htrans⟩
        exact ⟨msg, hcrash, (bind_ok htrans₁).trans (bind_error htrans)⟩
    · rintro crash c' ⟨msg, hcrash, htrans⟩
      exact ⟨msg, hcrash, bind_error htrans⟩

end Arcon

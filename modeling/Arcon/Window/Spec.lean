import Arcon.Window.Rules

/-!
# Windows as they are meant

What the windows of a run are, read off its calls alone. An element is accepted if it is not later
than allowed when it comes; the first accepted element of a key starts its windows; a window
contains the data of the accepted elements of its key that it covers, in the order in which they
came; and it is open until its deadline.

* `accepted_append`, `startOf_append`, `contents_append`: what one more call changes.
* `openContents_append`: an accepted element goes into open windows only.
* `contents_closed`: a window that has passed its deadline does not change any more.
-/

namespace Arcon

namespace EventTimeWindowAssigner

variable {IN OUT Acc : Type} (a : EventTimeWindowAssigner IN OUT Acc)

/-- The time after some calls. -/
def clock (calls : List (Call IN)) : Nat := calls.foldl Call.time 0

/-- The element a call brings, if it is in time. -/
def takes (now : Nat) : Call IN → List (ArconElement IN)
  | .element e => if a.Late now e then [] else [e]
  | _ => []

/-- The elements that some calls bring in time, from time `now` on. -/
def acceptedFrom : Nat → List (Call IN) → List (ArconElement IN)
  | _, [] => []
  | now, x :: calls => a.takes now x ++ acceptedFrom (x.time now) calls

/-- The accepted elements of a run, in the order in which they came. -/
def accepted (calls : List (Call IN)) : List (ArconElement IN) := a.acceptedFrom 0 calls

/-- The start of a key: the timestamp of its first element. -/
def startOf (es : List (ArconElement IN)) (key : Nat) : Option Nat :=
  (es.find? fun e => a.getKey e = key).map tsOf

/-- The data of the elements of a window's key that it covers. -/
def contents (es : List (ArconElement IN)) (k : KeyAndIndex) : List IN :=
  (es.filter fun e => a.getKey e = k.key ∧
    a.Covers ((a.startOf es k.key).getD 0) k.index (tsOf e)).map ArconElement.data

/-- The time at which a window closes. -/
def deadline (es : List (ArconElement IN)) (k : KeyAndIndex) : Nat :=
  a.endOf ((a.startOf es k.key).getD 0) k.index + a.lateArrivalTime

/-- The data in the windows that are open at time `now`. -/
def openContents (es : List (ArconElement IN)) (now : Nat) (k : KeyAndIndex) : List IN :=
  if now < a.deadline es k then a.contents es k else []

variable {a} {es : List (ArconElement IN)} {e : ArconElement IN} {k : KeyAndIndex} {now : Nat}

theorem clock_append (calls : List (Call IN)) (x : Call IN) :
    clock (calls ++ [x]) = x.time (clock calls) := by
  unfold clock
  rw [List.foldl_append]
  rfl

theorem takes_late (h : a.Late now e) : a.takes now (.element e) = [] := if_pos h

theorem takes_inTime (h : ¬a.Late now e) : a.takes now (.element e) = [e] := if_neg h

theorem acceptedFrom_append (now : Nat) (calls : List (Call IN)) (x : Call IN) :
    a.acceptedFrom now (calls ++ [x]) =
      a.acceptedFrom now calls ++ a.takes (calls.foldl Call.time now) x := by
  induction calls generalizing now with
  | nil => simp [acceptedFrom]
  | cons y calls ih =>
    rw [List.cons_append, acceptedFrom, ih, acceptedFrom, List.append_assoc]
    rfl

/-- **One more call.** -/
theorem accepted_append (calls : List (Call IN)) (x : Call IN) :
    a.accepted (calls ++ [x]) = a.accepted calls ++ a.takes (clock calls) x :=
  acceptedFrom_append 0 calls x

/-! ## One more element -/

/-- The start of the key of an element, if this is its first one. -/
def startWith (a : EventTimeWindowAssigner IN OUT Acc) (es : List (ArconElement IN))
    (e : ArconElement IN) : Nat := (a.startOf es (a.getKey e)).getD (tsOf e)

/-- **The starts.** -/
theorem startOf_append :
    a.startOf (es ++ [e]) =
      Function.update (a.startOf es) (a.getKey e) (some (a.startWith es e)) := by
  funext key
  unfold startOf
  rw [List.find?_append]
  by_cases hkey : key = a.getKey e
  · subst hkey
    rw [Function.update_self]
    unfold startWith startOf
    cases es.find? fun e' => decide (a.getKey e' = a.getKey e) with
    | none => simp
    | some e' => rfl
  · rw [Function.update_of_ne hkey]
    have : List.find? (fun e => decide (a.getKey e = key)) [e] = none := by
      simpa using fun h => hkey h.symm
    rw [this, Option.or_none]

theorem startOf_append_of_some (h : a.startOf es k.key ≠ none) :
    a.startOf (es ++ [e]) k.key = a.startOf es k.key := by
  rw [startOf_append]
  by_cases hkey : k.key = a.getKey e
  · obtain ⟨s, hs⟩ := Option.ne_none_iff_exists'.mp h
    rw [hkey, Function.update_self, startWith, ← hkey, hs]
    rfl
  · rw [Function.update_of_ne hkey]

/-- A key without a start has no elements. -/
theorem getKey_ne_of_startOf (h : a.startOf es k.key = none) {e : ArconElement IN} (he : e ∈ es) :
    a.getKey e ≠ k.key := by
  unfold startOf at h
  rw [Option.map_eq_none_iff, List.find?_eq_none] at h
  simpa using h e he

theorem contents_eq_nil (h : a.startOf es k.key = none) : a.contents es k = [] := by
  unfold contents
  rw [List.map_eq_nil_iff, List.filter_eq_nil_iff]
  intro e he
  have := getKey_ne_of_startOf h he
  simp [this]

theorem startOf_ne_none (h : a.contents es k ≠ []) : a.startOf es k.key ≠ none :=
  fun hnone => h (contents_eq_nil hnone)

/-- **The contents.** -/
theorem contents_append :
    a.contents (es ++ [e]) k = a.contents es k ++
      if k.key = a.getKey e ∧ a.Covers (a.startWith es e) k.index (tsOf e) then [e.data]
      else [] := by
  have hold : ((es.filter fun e' => a.getKey e' = k.key ∧
      a.Covers ((a.startOf (es ++ [e]) k.key).getD 0) k.index (tsOf e')).map ArconElement.data) =
      a.contents es k := by
    by_cases hs : a.startOf es k.key = none
    · rw [contents_eq_nil hs, List.map_eq_nil_iff, List.filter_eq_nil_iff]
      intro e' he'
      have := getKey_ne_of_startOf hs he'
      simp [this]
    · rw [startOf_append_of_some hs]
      rfl
  have hnew : ((List.filter (fun e' => a.getKey e' = k.key ∧
      a.Covers ((a.startOf (es ++ [e]) k.key).getD 0) k.index (tsOf e')) [e]).map
        ArconElement.data) =
      if k.key = a.getKey e ∧ a.Covers (a.startWith es e) k.index (tsOf e) then [e.data]
      else [] := by
    by_cases hkey : k.key = a.getKey e
    · have hs : (a.startOf (es ++ [e]) k.key).getD 0 = a.startWith es e := by
        rw [startOf_append, hkey, Function.update_self]
        rfl
      rw [hs]
      by_cases hc : a.Covers (a.startWith es e) k.index (tsOf e) <;> simp [hkey, hc]
    · have : ¬a.getKey e = k.key := fun h => hkey h.symm
      simp [hkey, this]
  conv_lhs => unfold contents
  rw [List.filter_append, List.map_append, hold, hnew]

theorem deadline_append (h : a.startOf es k.key ≠ none) :
    a.deadline (es ++ [e]) k = a.deadline es k := by
  unfold deadline
  rw [startOf_append_of_some h]

/-- A window that covers an element in time is open. -/
theorem lt_deadline (es : List (ArconElement IN)) (hlate : ¬a.Late now e)
    (hkey : k.key = a.getKey e)
    (hc : a.Covers (a.startWith es e) k.index (tsOf e)) : now < a.deadline (es ++ [e]) k := by
  have hs : (a.startOf (es ++ [e]) k.key).getD 0 = a.startWith es e := by
    rw [startOf_append, hkey, Function.update_self]
    rfl
  unfold deadline
  rw [hs]
  have := hc.2
  unfold Late at hlate
  omega

/-- **An accepted element goes into open windows.** -/
theorem openContents_append (hlate : ¬a.Late now e) :
    a.openContents (es ++ [e]) now = a.spread (a.startWith es e) e (a.openContents es now) := by
  funext k
  unfold spread
  by_cases hc : k.key = a.getKey e ∧ a.Covers (a.startWith es e) k.index (tsOf e)
  · rw [if_pos hc]
    unfold openContents
    rw [if_pos (lt_deadline es hlate hc.1 hc.2), contents_append, if_pos hc]
    congr 1
    by_cases hs : a.startOf es k.key = none
    · rw [contents_eq_nil hs, ite_self]
    · rw [if_pos]
      rw [← deadline_append (e := e) hs]
      exact lt_deadline es hlate hc.1 hc.2
  · rw [if_neg hc]
    unfold openContents
    rw [contents_append, if_neg hc, List.append_nil]
    by_cases hs : a.startOf es k.key = none
    · rw [contents_eq_nil hs, ite_self, ite_self]
    · rw [deadline_append hs]

/-- **A closed window stays as it is.** -/
theorem contents_closed (hlate : ¬a.Late now e) (hne : a.contents es k ≠ [])
    (hle : a.deadline es k ≤ now) : a.contents (es ++ [e]) k = a.contents es k := by
  rw [contents_append, if_neg, List.append_nil]
  rintro ⟨hkey, hc⟩
  have := lt_deadline es hlate hkey hc
  rw [deadline_append (startOf_ne_none hne)] at this
  omega

/-- The windows closed by `now` are the same with one more accepted element. -/
theorem closed_append (hlate : ¬a.Late now e) :
    (a.contents (es ++ [e]) k ≠ [] ∧ a.deadline (es ++ [e]) k ≤ now) ↔
      (a.contents es k ≠ [] ∧ a.deadline es k ≤ now) := by
  constructor
  · rintro ⟨hne, hle⟩
    have hold : a.contents (es ++ [e]) k = a.contents es k := by
      rw [contents_append, if_neg, List.append_nil]
      rintro ⟨hkey, hc⟩
      have := lt_deadline es hlate hkey hc
      omega
    rw [hold] at hne
    rw [deadline_append (startOf_ne_none hne)] at hle
    exact ⟨hne, hle⟩
  · rintro ⟨hne, hle⟩
    rw [contents_closed hlate hne hle, deadline_append (startOf_ne_none hne)]
    exact ⟨hne, hle⟩

end EventTimeWindowAssigner

end Arcon
